import ThemeMarkup.Registry
import ThemeMarkup.Tag.Scan
import ThemeMarkup.Proofs.Text.Lowercase
import ThemeMarkup.Proofs.Text.Search

namespace ThemeMarkup

/-- The usual delimiters of tags that are neither code tags nor markers. -/
abbrev Delimiters.usual : Delimiters :=
  ⟨"\x7b%", "%\x7d"⟩

theorem Delimiters.isCaseless_of_mem {c : Char} (h : c ∈ ['\x7b', '%', '\x7d']) :
    Text.IsCaseless c := by
  simp only [List.mem_cons, List.not_mem_nil, or_false] at h
  rcases h with rfl | rfl | rfl <;>
    exact Text.isCaseless_of_forall (by decide) (by decide)

theorem Delimiters.eq_left_of_alike {text : Text}
    (h : text.map Text.lowerAscii = usual.left.map Text.lowerAscii) : text = usual.left := by
  have hsub : usual.left ⊆ ['\x7b', '%', '\x7d'] := by decide
  exact Text.eq_of_caseless (fun c hc => isCaseless_of_mem (hsub hc)) h

theorem Delimiters.eq_right_of_alike {text : Text}
    (h : text.map Text.lowerAscii = usual.right.map Text.lowerAscii) : text = usual.right := by
  have hsub : usual.right ⊆ ['\x7b', '%', '\x7d'] := by decide
  exact Text.eq_of_caseless (fun c hc => isCaseless_of_mem (hsub hc)) h

namespace Found

variable {α : Type} {read : Text → Option (α × Text)} {offset : Nat} {text : Text}
  {finds : List (Found α)}

/-- A reader that takes at least one character and, where it meets again what it took, reads
something again, whatever follows. -/
structure Steady (read : Text → Option (α × Text)) : Prop where
  takes : ∀ {text value rest}, read text = some (value, rest) →
    ∃ source, source ≠ [] ∧ text = source ++ rest
  again : ∀ {source value rest}, read (source ++ rest) = some (value, rest) →
    ∀ after, (read (source ++ after)).isSome

/-- Nothing can be read at the first `count` offsets of a text. -/
def Silent (read : Text → Option (α × Text)) (count : Nat) (text : Text) : Prop :=
  ∀ i < count, read (text.drop i) = none

/-- The finds in a text that begins at `offset`: nothing can be read in the gaps before, between and
after them. -/
inductive Scans (read : Text → Option (α × Text)) : Nat → Text → List (Found α) → Prop where
  | done {offset : Nat} {text : Text} (silent : Silent read text.length text) :
    Scans read offset text []
  | find {offset : Nat} {source rest : Text} {value : α} {finds : List (Found α)} (gap : Text)
      (silent : Silent read gap.length (gap ++ source ++ rest)) (taken : source ≠ [])
      (reads : read (source ++ rest) = some (value, rest))
      (more : Scans read (offset + gap.length + source.length) rest finds) :
      Scans read offset (gap ++ source ++ rest) (⟨offset + gap.length, source, value⟩ :: finds)

theorem Silent.cons {count : Nat} {c : Char} (hc : read (c :: text) = none)
    (h : Silent read count text) : Silent read (count + 1) (c :: text) := by
  intro i hi
  cases i with
  | zero => exact hc
  | succ i => exact h i (by omega)

theorem Silent.append {gap : Text} {count : Nat} (hg : Silent read gap.length (gap ++ text))
    (h : Silent read count text) : Silent read (gap.length + count) (gap ++ text) := by
  intro i hi
  by_cases hlt : i < gap.length
  · exact hg i hlt
  · rw [List.drop_append, List.drop_of_length_le (by omega), List.nil_append]
    exact h _ (by omega)

theorem Silent.read_drop {full : Text} {count i : Nat} (h : Silent read count text)
    (hf : full.drop offset = text) (hi : offset ≤ i) (hlt : i < offset + count) :
    read (full.drop i) = none := by
  have hsub : full.drop i = text.drop (i - offset) := by
    rw [← hf, List.drop_drop]
    congr 1
    omega
  rw [hsub]
  exact h _ (by omega)

theorem Scans.append {gap : Text} (h : Scans read (offset + gap.length) text finds)
    (hg : Silent read gap.length (gap ++ text)) : Scans read offset (gap ++ text) finds := by
  generalize ho : offset + gap.length = o at h
  cases h with
  | done hs =>
    refine .done ?_
    rw [List.length_append]
    exact hg.append hs
  | find gap' hs hn hr hm =>
    subst ho
    rename_i source rest value finds
    have hs' : Silent read (gap ++ gap').length (gap ++ gap' ++ source ++ rest) := by
      simpa [List.append_assoc] using hg.append hs
    have hm' : Scans read (offset + (gap ++ gap').length + source.length) rest finds := by
      simpa [Nat.add_assoc] using hm
    simpa [List.append_assoc, Nat.add_assoc] using Scans.find (gap ++ gap') hs' hn hr hm'

theorem Scans.here {source rest : Text} {value : α} (hn : source ≠ [])
    (hr : read (source ++ rest) = some (value, rest))
    (h : Scans read (offset + source.length) rest finds) :
    Scans read offset (source ++ rest) (⟨offset, source, value⟩ :: finds) := by
  have hsilent : Silent read ([] : Text).length ([] ++ source ++ rest) := fun i hi =>
    absurd hi (Nat.not_lt_zero i)
  have hmore : Scans read (offset + ([] : Text).length + source.length) rest finds := h
  simpa using Scans.find [] hsilent hn hr hmore

theorem scanFrom_of_none {c : Char} (h : read (c :: text) = none) :
    scanFrom read offset (c :: text) = scanFrom read (offset + 1) text := by
  rw [scanFrom, h]

theorem scanFrom_of_some {source rest : Text} {value : α} (hn : source ≠ [])
    (h : read (source ++ rest) = some (value, rest)) :
    scanFrom read offset (source ++ rest) =
      ⟨offset, source, value⟩ :: scanFrom read (offset + source.length) rest := by
  obtain ⟨c, source, rfl⟩ := List.exists_cons_of_ne_nil hn
  rw [List.cons_append] at h ⊢
  rw [scanFrom, h]
  simp only [List.length_append, Nat.le_add_left, ↓reduceIte, List.length_cons, List.cons.injEq,
    Found.mk.injEq, true_and, and_true]
  have he : source.length + rest.length + 1 - rest.length = source.length + 1 := by omega
  rw [he]
  simp

theorem scanFrom_append {gap : Text} (h : Silent read gap.length (gap ++ text)) :
    scanFrom read offset (gap ++ text) = scanFrom read (offset + gap.length) text := by
  induction gap generalizing offset with
  | nil => rfl
  | cons c gap ih =>
    have hc : read (c :: (gap ++ text)) = none := h 0 (by simp)
    have hs : Silent read gap.length (gap ++ text) := fun i hi => h (i + 1) (by simpa using hi)
    rw [List.cons_append, scanFrom_of_none hc, ih hs]
    simp only [List.length_cons]
    congr 1
    omega

theorem Scans.scanFrom_eq (h : Scans read offset text finds) :
    scanFrom read offset text = finds := by
  induction h with
  | @done offset text hs =>
    have he : scanFrom read offset (text ++ []) = scanFrom read (offset + text.length) [] :=
      scanFrom_append (by rwa [List.append_nil])
    rw [List.append_nil] at he
    rw [he, scanFrom]
  | find gap hs hn hr hm ih =>
    rw [List.append_assoc] at hs ⊢
    rw [scanFrom_append hs, scanFrom_of_some hn hr, ih]

theorem Steady.scans_scanFrom (hr : Steady read) (offset : Nat) (text : Text) :
    Scans read offset text (scanFrom read offset text) := by
  induction hn : text.length using Nat.strongRecOn generalizing offset text with
  | ind n ih =>
    cases text with
    | nil =>
      rw [scanFrom]
      exact .done fun i hi => absurd hi (Nat.not_lt_zero i)
    | cons c text =>
      cases hc : read (c :: text) with
      | none =>
        rw [scanFrom_of_none hc]
        have h := ih text.length (by rw [← hn]; simp) (offset + 1) text rfl
        have hgap : Silent read [c].length ([c] ++ text) := fun i hi => by
          obtain rfl : i = 0 := by simpa using hi
          exact hc
        exact h.append hgap
      | some found =>
        obtain ⟨value, rest⟩ := found
        obtain ⟨source, hs, he⟩ := hr.takes hc
        rw [he] at hc ⊢
        rw [scanFrom_of_some hs hc]
        have hlt : rest.length < n := by
          rw [← hn, he, List.length_append]
          exact Nat.lt_add_of_pos_left (List.length_pos_iff.2 hs)
        exact .here hs hc (ih rest.length hlt _ rest rfl)

theorem Steady.cut?_source (hr : Steady read) {gap source rest : Text} {value : α}
    (hs : Silent read gap.length (gap ++ source ++ rest))
    (h : read (source ++ rest) = some (value, rest)) :
    Text.cut? source (gap ++ source ++ rest) = some (gap, rest) := by
  refine Text.cut?_eq_some_iff.2 ⟨rfl, fun i hi => ?_⟩
  rintro ⟨after, ha⟩
  have hsome := hr.again h after
  rw [ha, hs i hi] at hsome
  contradiction

def Begins (lead : Text) (read : Text → Option (α × Text)) : Prop :=
  ∀ text, ¬ lead <+: text → read text = none

theorem Begins.silent_of_absent {lead : Text} (h : Begins lead read) (hn : ¬ lead <:+: text) :
    Silent read text.length text := by
  intro i _
  apply h
  intro hp
  exact hn (hp.isInfix.trans (List.drop_suffix i text).isInfix)

theorem Begins.read?_eq_none {c d : Char} {lead : Text} (h : Begins (c :: lead) read) (hd : c ≠ d)
    (text : Text) : read (d :: text) = none := by
  apply h
  rintro ⟨rest, he⟩
  exact hd (List.cons.inj he).1

theorem Begins.silent_of_not_mem {c : Char} {lead gap : Text} (h : Begins (c :: lead) read)
    (hc : c ∉ gap) (text : Text) : Silent read gap.length (gap ++ text) := by
  induction gap with
  | nil => exact fun i hi => absurd hi (Nat.not_lt_zero i)
  | cons d gap ih =>
    obtain ⟨hd, hg⟩ := not_or.1 (mt List.mem_cons.2 hc)
    exact Silent.cons (h.read?_eq_none hd _) (ih hg)

/-- Where finds stand in a whole text: from `offset` on, one after the other, with nothing to be
read outside them. -/
structure Located (read : Text → Option (α × Text)) (full : Text) (offset : Nat)
    (finds : List (Found α)) : Prop where
  after : ∀ found ∈ finds, offset ≤ found.offset
  ordered : finds.Pairwise fun found next => found.offset + found.source.length ≤ next.offset
  reads : ∀ found ∈ finds, found.source ≠ [] ∧ ∃ rest,
    full.drop found.offset = found.source ++ rest ∧
      read (found.source ++ rest) = some (found.value, rest)
  silent : ∀ i, offset ≤ i → i < full.length →
    (∀ found ∈ finds, ¬ (found.offset ≤ i ∧ i < found.offset + found.source.length)) →
      read (full.drop i) = none

theorem Scans.located (h : Scans read offset text finds) (full : Text)
    (hf : full.drop offset = text) : Located read full offset finds := by
  induction h with
  | @done offset text hs =>
    refine ⟨by simp, .nil, by simp, fun i hi hlt _ => ?_⟩
    apply hs.read_drop hf hi
    rw [← hf, List.length_drop]
    omega
  | @find offset source rest value finds gap hs hn hr hm ih =>
    have hfound : full.drop (offset + gap.length) = source ++ rest := by
      apply Text.drop_add
      rw [hf, List.append_assoc]
    have ih := ih (Text.drop_add hfound)
    refine ⟨?_, .cons ih.after ih.ordered, ?_, fun i hi hlt hout => ?_⟩
    · intro found hmem
      rcases List.mem_cons.1 hmem with rfl | hmem
      · exact Nat.le_add_right ..
      · have := ih.after found hmem
        omega
    · intro found hmem
      rcases List.mem_cons.1 hmem with rfl | hmem
      · exact ⟨hn, rest, hfound, hr⟩
      · exact ih.reads found hmem
    · by_cases hgap : i < offset + gap.length
      · exact hs.read_drop hf hi hgap
      · have hthis := hout _ List.mem_cons_self
        dsimp only at hthis
        exact ih.silent i (by omega) hlt fun found hmem => hout found (List.mem_cons_of_mem _ hmem)

end Found

theorem findSome?_head {α β : Type} {f : α → Option β} {l : List α} {a : α} {b : β}
    (h : f a = some b) : (a :: l).findSome? f = some b := by
  rw [List.findSome?_cons, h]

theorem findSome?_of_unique {α β : Type} {f : α → Option β} {l : List α} {a : α} {b : β}
    (ha : a ∈ l) (hf : f a = some b) (hu : ∀ a' ∈ l, a' ≠ a → f a' = none) :
    l.findSome? f = some b := by
  induction l with
  | nil => contradiction
  | cons a' l ih =>
    rw [List.findSome?_cons]
    by_cases he : a' = a
    · rw [he, hf]
    · rw [hu a' List.mem_cons_self he]
      have hmem := (List.mem_cons.1 ha).resolve_left (Ne.symm he)
      exact ih hmem fun a'' hm => hu a'' (List.mem_cons_of_mem _ hm)

theorem Text.mem_afterBlanks_iff {isBlank : Char → Bool} {text rest : Text} :
    rest ∈ Text.afterBlanks isBlank text ↔
      ∃ blanks, (∀ c ∈ blanks, isBlank c = true) ∧ text = blanks ++ rest := by
  induction text with
  | nil =>
    simp only [Text.afterBlanks, List.mem_singleton, List.nil_eq, List.append_eq_nil_iff]
    constructor
    · rintro rfl
      exact ⟨[], by simp, rfl, rfl⟩
    · rintro ⟨_, -, -, h⟩
      exact h
  | cons c text ih =>
    have hself : c :: text = rest → ∃ blanks, (∀ c ∈ blanks, isBlank c = true) ∧
        c :: text = blanks ++ rest := fun h => ⟨[], by simp, h⟩
    simp only [Text.afterBlanks]
    split
    · next hc =>
      simp only [List.mem_append, ih, List.mem_singleton]
      constructor
      · rintro (⟨blanks, hb, rfl⟩ | h)
        · exact ⟨c :: blanks, by simpa [hc] using hb, rfl⟩
        · exact hself h.symm
      · rintro ⟨blanks, hb, h⟩
        cases blanks with
        | nil => exact .inr h.symm
        | cons d blanks =>
          simp only [List.cons_append, List.cons.injEq] at h
          exact .inl ⟨blanks, fun e he => hb e (List.mem_cons_of_mem _ he), h.2⟩
    · next hc =>
      simp only [List.mem_singleton]
      constructor
      · exact fun h => hself h.symm
      · rintro ⟨blanks, hb, h⟩
        cases blanks with
        | nil => exact h.symm
        | cons d blanks =>
          simp only [List.cons_append, List.cons.injEq] at h
          exact absurd (hb d (by simp)) (h.1 ▸ hc)

namespace TagPart

def literal? : TagPart → Option Text
  | .literal text => some text
  | .blanks => none

/-- The texts that some parts of a tag spell one after the other. -/
inductive Spells : List TagPart → Text → Prop where
  | nil : Spells [] []
  | literal {lead written text : Text} {parts : List TagPart}
      (same : written.map Text.lowerAscii = lead.map Text.lowerAscii) (more : Spells parts text) :
      Spells (.literal lead :: parts) (written ++ text)
  | blanks {blanks text : Text} {parts : List TagPart}
      (blank : ∀ c ∈ blanks, Text.isAsciiBlank c = true) (more : Spells parts text) :
      Spells (.blanks :: parts) (blanks ++ text)

theorem Spells.not_mem {c : Char} {parts : List TagPart} {text : Text} (h : Spells parts text)
    (hb : Text.isAsciiBlank c = false)
    (hp : ∀ lead ∈ parts.filterMap literal?, Text.lowerAscii c ∉ lead.map Text.lowerAscii) :
    c ∉ text := by
  induction h with
  | nil => exact List.not_mem_nil
  | literal same _ ih =>
    obtain ⟨hlead, hp⟩ := List.forall_mem_cons.1 hp
    rw [List.mem_append, not_or]
    constructor
    · intro hm
      exact hlead (same ▸ List.mem_map_of_mem hm)
    · exact ih hp
  | blanks blank _ ih =>
    rw [List.mem_append, not_or]
    constructor
    · intro hm
      rw [blank c hm] at hb
      contradiction
    · exact ih hp

theorem mem_restsOfAll_iff {parts : List TagPart} {text rest : Text} :
    rest ∈ restsOfAll parts text ↔ ∃ tag, Spells parts tag ∧ text = tag ++ rest := by
  induction parts generalizing text with
  | nil =>
    simp only [restsOfAll, List.mem_singleton]
    constructor
    · rintro rfl
      exact ⟨[], .nil, rfl⟩
    · rintro ⟨_, ⟨⟩, h⟩
      exact h.symm
  | cons part parts ih =>
    simp only [restsOfAll, List.mem_flatMap, ih]
    cases part with
    | literal lead =>
      simp only [rests, Option.mem_toList, Text.after?_eq_some_iff]
      constructor
      · rintro ⟨_, ⟨written, rfl, hw⟩, tag, ht, rfl⟩
        exact ⟨written ++ tag, .literal hw ht, (List.append_assoc ..).symm⟩
      · rintro ⟨_, hs, rfl⟩
        cases hs with
        | literal hw ht => exact ⟨_, ⟨_, List.append_assoc .., hw⟩, _, ht, rfl⟩
    | blanks =>
      simp only [rests, Text.mem_afterBlanks_iff]
      constructor
      · rintro ⟨_, ⟨blanks, hb, rfl⟩, tag, ht, rfl⟩
        exact ⟨blanks ++ tag, .blanks hb ht, (List.append_assoc ..).symm⟩
      · rintro ⟨_, hs, rfl⟩
        cases hs with
        | blanks hb ht => exact ⟨_, ⟨_, hb, List.append_assoc ..⟩, _, ht, rfl⟩

end TagPart

end ThemeMarkup
