import ThemeMarkup.Proofs.Attribute
import ThemeMarkup.Proofs.Marked.Expression

namespace ThemeMarkup

def Table.Every {α : Type} (table : Table α) (p : α → Prop) : Prop :=
  ∀ key value, table.get? key = some value → p value

namespace Table

variable {α : Type} {p : α → Prop} {table : Table α}

theorem every_empty (p : α → Prop) : (∅ : Table α).Every p :=
  nofun

theorem Every.insert (h : table.Every p) (key : Text) {value : α} (hv : p value) :
    (table.insert key value).Every p := by
  intro k v hk
  rw [get?_insert] at hk
  split at hk
  · exact Option.some.inj hk ▸ hv
  · exact h k v hk

theorem Every.foldl_insert {entries : List (Text × α)} (h : ∀ entry ∈ entries, p entry.2)
    (ht : table.Every p) :
    (entries.foldl (fun table (key, value) => table.insert key value) table).Every p := by
  induction entries generalizing table with
  | nil => exact ht
  | cons entry entries ih =>
    obtain ⟨he, hrest⟩ := List.forall_mem_cons.1 h
    exact ih hrest (ht.insert entry.1 he)

theorem every_ofList {entries : List (Text × α)} (h : ∀ entry ∈ entries, p entry.2) :
    (ofList entries).Every p :=
  (every_empty p).foldl_insert h

end Table

open Marker (Core Marked Seam IsForeign)

variable {core : Core} {Holds : Marker → Text → Prop} {text rest name value : Text}

namespace Attribute

theorem isForeign_of_not_isBare {c : Char} (h : isBare c = false) : IsForeign c := by
  simp only [isBare, Bool.and_eq_false_iff, Bool.not_eq_false', decide_eq_false_iff_not,
    ne_eq, Decidable.not_not] at h
  rcases h with (hb | rfl) | rfl
  · exact Marker.isForeign_of_isBlank hb
  · decide
  · decide

theorem hash_not_mem_nameChars (text : Text) : '#' ∉ text.takeWhile isNameChar := by
  intro h
  exact absurd (List.all_eq_true.1 List.all_takeWhile _ h) (by decide)

theorem every_parse_of_pairs {p : Text → Prop} (hd : Text.strip text ≠ [] → p (Text.strip text))
    (hp : ∀ pair ∈ pairsFrom true (Text.strip text), p pair.2) (default? : Option Text) :
    (parse text default?).Every p := by
  unfold parse
  dsimp only
  split
  · split
    · next hstrip =>
      apply Table.every_ofList
      intro entry he
      rw [List.mem_singleton.1 he]
      apply hd
      rw [hstrip]
      exact List.cons_ne_nil _ _
    · exact Table.every_empty _
  · next pair pairs hpairs =>
    apply Table.every_ofList
    intro entry he
    obtain ⟨read, hm, rfl⟩ := List.mem_map.1 he
    exact hp read (hpairs ▸ hm)

variable [Marker.Serials]

theorem marked_of_readValue? (h : Marked core Holds text)
    (hr : readValue? text = some (value, rest)) :
    Marked core Holds value ∧ ∃ lead, text = lead ++ rest := by
  cases text with
  | nil => contradiction
  | cons c text =>
    rw [readValue?] at hr
    split at hr
    · next hc =>
      have hforeign : IsForeign c := by
        rcases hc with rfl | rfl <;> decide
      obtain rfl := eq_of_readQuoted? hr
      refine ⟨?_, c :: (value ++ [c]), by simp⟩
      have h : Marked core Holds ([c] ++ (value ++ c :: rest)) := h
      apply h.of_infix
      · apply Marker.seam_of_last
        rintro d ⟨⟩
        exact hforeign
      · apply Marker.seam_of_head
        rintro d ⟨⟩
        exact hforeign
    · split at hr
      · cases hr
        have hsplit : c :: text = (c :: text.takeWhile isBare) ++ text.dropWhile isBare := by
          rw [List.cons_append, List.takeWhile_append_dropWhile]
        refine ⟨?_, _, hsplit⟩
        rw [hsplit] at h
        apply (h.of_append (Marker.seam_of_head _ _)).1
        intro d hd
        have hhead := List.head?_dropWhile_not isBare text
        rw [hd] at hhead
        exact isForeign_of_not_isBare hhead
      · contradiction

/-- The value of a pair that is read is marked: what stands before it holds no part of a marker. -/
theorem marked_of_read? (h : Marked core Holds text)
    (hr : read? text = some ((name, value), rest)) :
    Marked core Holds value ∧ ∃ lead, text = lead ++ rest := by
  cases text with
  | nil => contradiction
  | cons c text =>
    rw [read?] at hr
    split at hr
    · next hc =>
      split at hr
      · contradiction
      · next after ha =>
        obtain ⟨⟨v, r⟩, hv, he⟩ := Option.map_eq_some_iff.1 hr
        cases he
        obtain ⟨blanks, blanks', hafter, hb, hb'⟩ := exists_of_afterEquals? ha
        let lead := c :: text.takeWhile isNameChar ++ blanks ++ '=' :: blanks'
        have hsplit : c :: text = lead ++ after := by
          have htext := List.takeWhile_append_dropWhile (p := isNameChar) (l := text)
          rw [hafter] at htext
          simp only [lead, List.append_assoc, List.cons_append, htext]
        have hhash : '#' ∉ lead := by
          have hname := hash_not_mem_nameChars text
          have hfirst : c ≠ '#' := ne_of_isNameStart hc (by decide)
          have hblanks {blanks : Text} (hb : ∀ c ∈ blanks, Text.isBlank c = true) : '#' ∉ blanks :=
            fun hm => absurd (hb _ hm) (by decide)
          simp only [lead, List.cons_append, List.mem_cons, List.mem_append, not_or]
          exact ⟨hfirst.symm, ⟨hname, hblanks hb⟩, by decide, hblanks hb'⟩
        have hbegin : ¬ ("_#" : Text) <:+: lead := fun hi => hhash (hi.subset (by decide))
        have hlast : lead.getLast? ≠ some '_' := by
          simp only [lead, List.getLast?_append, List.getLast?_cons, Option.some_or]
          cases hl : blanks'.getLast? with
          | none => decide
          | some d =>
            rintro ⟨⟩
            exact absurd (hb' _ (List.mem_of_getLast? hl)) (by decide)
        rw [hsplit] at h ⊢
        obtain ⟨hvalue, before, rfl⟩ := marked_of_readValue? (h.of_lead hbegin hlast) hv
        exact ⟨hvalue, lead ++ before, (List.append_assoc ..).symm⟩
    · contradiction

/-- The values of all pairs are marked. -/
theorem marked_of_mem_pairsFrom {before : Text} {free : Bool}
    (h : Marked core Holds (before ++ text))
    (hf : free = true → Marked core Holds text) :
    ∀ pair ∈ pairsFrom free text, Marked core Holds pair.2 := by
  have step {before text : Text} {c : Char} (h : Marked core Holds (before ++ c :: text)) :
      Marked core Holds ((before ++ [c]) ++ text) := by
    rwa [List.append_assoc, List.singleton_append]
  have step_free {before text : Text} {c : Char} (h : Marked core Holds (before ++ c :: text)) :
      Text.isBlank c = true → Marked core Holds text := by
    intro hb
    apply ((step h).of_append (Marker.seam_of_last _ _)).2
    intro d hd
    rw [List.getLast?_concat] at hd
    exact Option.some.inj hd ▸ Marker.isForeign_of_isBlank hb
  induction free, text using pairsFrom.induct generalizing before with
  | case1 free =>
    rw [pairsFrom]
    exact List.forall_mem_nil _
  | case2 free c text hnone ih =>
    rw [dite_eq_ite] at hnone
    rw [pairsFrom, hnone]
    exact ih (step h) (step_free h)
  | case3 free c text pair rest hsome hle ih =>
    rw [dite_eq_ite] at hsome
    rw [pairsFrom, hsome]
    dsimp only
    rw [if_pos hle]
    split at hsome
    · next hfree =>
      obtain ⟨hvalue, lead, hlead⟩ := marked_of_read? (hf hfree) hsome
      have hrest : Marked core Holds (lead ++ rest) := hlead ▸ hf hfree
      intro other ho
      rcases List.mem_cons.1 ho with rfl | ho
      · exact hvalue
      · exact ih hrest (fun hf => absurd hf Bool.false_ne_true) other ho
    · contradiction
  | case4 free c text pair rest hsome hle ih =>
    rw [dite_eq_ite] at hsome
    rw [pairsFrom, hsome]
    dsimp only
    rw [if_neg hle]
    exact ih (step h) (step_free h)

theorem every_parse (h : Marked core Holds text) (default? : Option Text) :
    (parse text default?).Every (Marked core Holds) := by
  have hstrip := h.strip
  have hbefore : Marked core Holds ([] ++ Text.strip text) := hstrip
  exact every_parse_of_pairs (fun _ => hstrip) (marked_of_mem_pairsFrom hbefore fun _ => hstrip)
    default?

end Attribute

variable [Marker.Serials]

theorem Compiler.every_readAttributes (h : Marked core Holds text) (hn : Marked core Holds [])
    (allowed : List Text) : (readAttributes allowed text).Every (Marked core Holds) := by
  intro key value hv
  rw [get?_readAttributes, Option.or_eq_some_iff] at hv
  rcases hv with hv | ⟨-, hv⟩
  · exact Attribute.every_parse h _ key value hv
  · split at hv
    · exact Option.some.inj hv ▸ hn
    · contradiction

end ThemeMarkup
