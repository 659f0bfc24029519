import ThemeMarkup.Tag.Node
import ThemeMarkup.Proofs.Tag.Scan

namespace ThemeMarkup.Tag

variable {d : Delimiters} {names : List Text} {text rest : Text} {w : Written}

def colon : TagKind → Text
  | .tail => [':']
  | .head => []

def inQualifier (d : Delimiters) (c : Char) : Bool :=
  isInner d c && !Text.isAsciiBlank c

/-- The texts that qualify a name, the empty one among them. -/
def IsQualifier (d : Delimiters) (qualifier : Text) : Prop :=
  qualifier = [] ∨
    ∃ inner, inner ≠ [] ∧ qualifier = ':' :: inner ∧ ∀ c ∈ inner, inQualifier d c = true

def IsArgument (d : Delimiters) (argument : Text) : Prop :=
  argument = [] ∨
    ∃ blank inner, argument = blank :: inner ∧ Text.isAsciiBlank blank = true ∧
      ∀ c ∈ inner, isInner d c = true

/-- Two texts that differ in the case of ASCII letters only. -/
def Alike (text other : Text) : Prop :=
  text.map Text.lowerAscii = other.map Text.lowerAscii

/-- The sources of a tag with the given kind, name and argument. -/
structure Written.Spells (d : Delimiters) (names : List Text) (w : Written) (source : Text) :
    Prop where
  parts : ∃ left blanks blanks' qualifier right,
    Alike left d.left ∧ (∀ c ∈ blanks, Text.isAsciiBlank c = true) ∧
    (∀ c ∈ blanks', Text.isAsciiBlank c = true) ∧ IsQualifier d qualifier ∧ Alike right d.right ∧
    source = left ++ (blanks ++ (colon w.kind ++ (blanks' ++ (w.name ++ (qualifier ++
      (w.argument ++ right))))))
  name : ∃ name ∈ names, Alike w.name name
  argument : IsArgument d w.argument

theorem Written.Spells.ne_nil {source : Text} (hd : d.left ≠ []) (h : w.Spells d names source) :
    source ≠ [] := by
  obtain ⟨left, _, _, _, _, hl, -, -, -, -, rfl⟩ := h.parts
  intro he
  obtain ⟨rfl, -⟩ := List.append_eq_nil_iff.1 he
  exact hd (List.map_eq_nil_iff.1 hl.symm)

theorem mem_kinds_iff {kind : TagKind} : (kind, rest) ∈ kinds text ↔ text = colon kind ++ rest := by
  cases kind with
  | head =>
    cases text with
    | nil => simp [kinds, colon, eq_comm]
    | cons c text =>
      simp only [kinds, colon, List.nil_append]
      split <;> simp_all [eq_comm]
  | tail =>
    cases text with
    | nil => simp [kinds, colon]
    | cons c text =>
      simp only [kinds, colon, List.singleton_append, List.cons.injEq]
      split <;> simp_all [eq_comm]

theorem spells_of_mem_afterQualifier (h : rest ∈ afterQualifier d text) :
    ∃ qualifier, IsQualifier d qualifier ∧ text = qualifier ++ rest := by
  unfold afterQualifier at h
  split at h
  · next text =>
    dsimp only at h
    split at h
    · exact ⟨[], .inl rfl, (List.mem_singleton.1 h).symm⟩
    · next c inner hi =>
      rcases List.mem_cons.1 h with rfl | h
      · refine ⟨':' :: c :: inner, .inr ⟨c :: inner, by simp, rfl, fun e he => ?_⟩, ?_⟩
        · exact List.all_eq_true.1 List.all_takeWhile e (hi ▸ he)
        · rw [List.cons_append, ← hi, List.takeWhile_append_dropWhile]
      · exact ⟨[], .inl rfl, (List.mem_singleton.1 h).symm⟩
  · exact ⟨[], .inl rfl, (List.mem_singleton.1 h).symm⟩

theorem afterQualifier_of_takeWhile {c : Char} {inner : Text}
    (h : text.takeWhile (inQualifier d) = c :: inner) :
    afterQualifier d (':' :: text) = [text.dropWhile (inQualifier d), ':' :: text] := by
  unfold afterQualifier
  split
  · next rest he =>
    obtain rfl := (List.cons.inj he).2
    dsimp only
    split
    · next hnil => exact absurd (hnil.symm.trans h) (List.cons_ne_nil c inner).symm
    · rfl
  · next hne => exact absurd rfl (hne text)

/-- A qualifier is read whole where no character that may stand in one follows. -/
theorem mem_afterQualifier {qualifier : Text} (hq : IsQualifier d qualifier)
    (hr : ∀ c ∈ rest.head?, inQualifier d c = false) :
    rest ∈ afterQualifier d (qualifier ++ rest) := by
  rcases hq with rfl | ⟨inner, hn, rfl, hi⟩
  · simp only [List.nil_append]
    unfold afterQualifier
    split
    · dsimp only
      split <;> simp
    · simp
  · obtain ⟨c, inner, rfl⟩ := List.exists_cons_of_ne_nil hn
    have hstop : rest.takeWhile (inQualifier d) = [] ∧ rest.dropWhile (inQualifier d) = rest := by
      cases rest with
      | nil => exact ⟨rfl, rfl⟩
      | cons e rest =>
        have he := hr e rfl
        exact ⟨List.takeWhile_cons_of_neg (by simp [he]), List.dropWhile_cons_of_neg (by simp [he])⟩
    have htake : (c :: inner ++ rest).takeWhile (inQualifier d) = c :: inner := by
      rw [List.takeWhile_append_of_pos hi, hstop.1, List.append_nil]
    have hdrop : (c :: inner ++ rest).dropWhile (inQualifier d) = rest := by
      rw [List.dropWhile_append_of_pos hi, hstop.2]
    rw [List.cons_append, afterQualifier_of_takeWhile htake, hdrop]
    exact List.mem_cons_self

theorem spells_of_readArgument? {argument : Text}
    (h : readArgument? d text = some (argument, rest)) :
    IsArgument d argument ∧ ∃ right, Alike right d.right ∧ text = argument ++ (right ++ rest) := by
  have hbare (h : (Text.after? Text.lowerAscii d.right text).map
      (fun after => (([] : Text), after)) =
      some (argument, rest)) :
      IsArgument d argument ∧ ∃ right, Alike right d.right ∧
      text = argument ++ (right ++ rest) := by
    obtain ⟨after, ha, he⟩ := Option.map_eq_some_iff.1 h
    cases he
    obtain ⟨right, rfl, hr⟩ := Text.after?_eq_some_iff.1 ha
    exact ⟨.inl rfl, right, hr, rfl⟩
  unfold readArgument? at h
  cases text with
  | nil => exact hbare h
  | cons c text =>
    dsimp only at h
    split at h
    · next result hw =>
      cases h
      split at hw
      · next hc =>
        obtain ⟨after, ha, he⟩ := Option.map_eq_some_iff.1 hw
        cases he
        obtain ⟨right, hd, hr⟩ := Text.after?_eq_some_iff.1 ha
        refine ⟨.inr ⟨c, _, rfl, hc, fun e he => List.all_eq_true.1 List.all_takeWhile e he⟩,
          right, hr, ?_⟩
        rw [List.cons_append, ← hd, List.takeWhile_append_dropWhile]
      · contradiction
    · exact hbare h

theorem isInner_of_alike {right : Text} (hr : Alike right d.right) {c : Char}
    (hc : c ∈ right.head?) : isInner d c = false := by
  cases right with
  | nil => contradiction
  | cons e right =>
    cases hc
    have hm : Text.lowerAscii c ∈ d.right.map Text.lowerAscii := by
      rw [← hr]
      simp
    simpa [isInner, List.contains_eq_mem] using hm

theorem readArgument?_append {argument right : Text} (hd : d.right ≠ [])
    (ha : IsArgument d argument) (hn : argument ≠ []) (hr : Alike right d.right) (rest : Text) :
    readArgument? d (argument ++ (right ++ rest)) = some (argument, rest) := by
  rcases ha with rfl | ⟨c, inner, rfl, hc, hi⟩
  · contradiction
  · obtain ⟨e, right, rfl⟩ : ∃ e r, right = e :: r := List.exists_cons_of_ne_nil fun h => by
      rw [h, Alike] at hr
      exact hd (List.map_eq_nil_iff.1 hr.symm)
    have he := isInner_of_alike hr (c := e) rfl
    have htake : (inner ++ (e :: right ++ rest)).takeWhile (isInner d) = inner := by
      rw [List.takeWhile_append_of_pos hi, List.cons_append,
        List.takeWhile_cons_of_neg (by simp [he]), List.append_nil]
    have hdrop : (inner ++ (e :: right ++ rest)).dropWhile (isInner d) = e :: right ++ rest := by
      rw [List.dropWhile_append_of_pos hi, List.cons_append,
        List.dropWhile_cons_of_neg (by simp [he])]
    have hafter : Text.after? Text.lowerAscii d.right (e :: right ++ rest) = some rest :=
      Text.after?_eq_some_iff.2 ⟨e :: right, rfl, hr⟩
    unfold readArgument?
    rw [List.cons_append]
    simp only [hc, ↓reduceIte, htake, hdrop, hafter, Option.map_some]

theorem isSome_readArgument? {argument right : Text} (hd : d.right ≠ [])
    (ha : IsArgument d argument) (hr : Alike right d.right) (rest : Text) :
    (readArgument? d (argument ++ (right ++ rest))).isSome := by
  by_cases hn : argument = []
  · have hafter : Text.after? Text.lowerAscii d.right (right ++ rest) = some rest :=
      Text.after?_eq_some_iff.2 ⟨right, rfl, hr⟩
    subst hn
    unfold readArgument?
    rw [List.nil_append, hafter]
    dsimp only
    split <;> rfl
  · rw [readArgument?_append hd ha hn hr]
    rfl

theorem spells_of_read? (h : read? d names text = some (w, rest)) :
    ∃ source, w.Spells d names source ∧ text = source ++ rest := by
  rw [read?] at h
  split at h
  · contradiction
  · next body hl =>
    obtain ⟨left, rfl, hleft⟩ := Text.after?_eq_some_iff.1 hl
    obtain ⟨body₁, hb, h₁⟩ := List.exists_of_findSome?_eq_some h
    obtain ⟨blanks, hblanks, rfl⟩ := Text.mem_afterBlanks_iff.1 hb
    obtain ⟨⟨kind, body₂⟩, hk, h₂⟩ := List.exists_of_findSome?_eq_some h₁
    have hcolon := mem_kinds_iff.1 hk
    obtain ⟨body₃, hb', h₃⟩ := List.exists_of_findSome?_eq_some h₂
    obtain ⟨blanks', hblanks', rfl⟩ := Text.mem_afterBlanks_iff.1 hb'
    obtain ⟨name, hname, h₄⟩ := List.exists_of_findSome?_eq_some h₃
    split at h₄
    · contradiction
    · next body₄ ha =>
      obtain ⟨written, rfl, hw⟩ := Text.after?_eq_some_iff.1 ha
      obtain ⟨body₅, hq, h₅⟩ := List.exists_of_findSome?_eq_some h₄
      obtain ⟨qualifier, hqualifier, rfl⟩ := spells_of_mem_afterQualifier hq
      obtain ⟨⟨argument, rest'⟩, hr, he⟩ := Option.map_eq_some_iff.1 h₅
      obtain ⟨hargument, right, hright, rfl⟩ := spells_of_readArgument? hr
      have hlen : written.length = name.length := by
        simpa using congrArg List.length hw
      have htake : (written ++ (qualifier ++ (argument ++ (right ++ rest')))).take name.length =
          written := by
        rw [← hlen, List.take_left]
      rw [htake] at he
      cases he
      refine ⟨_, ⟨⟨left, blanks, blanks', qualifier, right, hleft, hblanks, hblanks', hqualifier,
        hright, rfl⟩, ⟨name, hname, hw⟩, hargument⟩, ?_⟩
      rw [hcolon]
      simp [List.append_assoc]

theorem isSome_read? {source : Text} (hd : d.right ≠ []) (h : w.Spells d names source)
    (rest : Text) : (read? d names (source ++ rest)).isSome := by
  obtain ⟨left, blanks, blanks', qualifier, right, hl, hb, hb', hq, hr, rfl⟩ := h.parts
  obtain ⟨name, hname, hw⟩ := h.name
  have hleft : Text.after? Text.lowerAscii d.left (left ++ (blanks ++ (colon w.kind ++ (blanks' ++
      (w.name ++ (qualifier ++ (w.argument ++ (right ++ rest)))))))) = _ :=
    Text.after?_eq_some_iff.2 ⟨left, rfl, hl⟩
  have hwritten : Text.after? Text.lowerAscii name
      (w.name ++ (qualifier ++ (w.argument ++ (right ++ rest)))) = _ :=
    Text.after?_eq_some_iff.2 ⟨w.name, rfl, hw⟩
  have hnext : ∀ c ∈ (w.argument ++ (right ++ rest)).head?, inQualifier d c = false := by
    intro c hc
    rcases h.argument with ha | ⟨blank, inner, ha, hblank, -⟩
    · rw [ha, List.nil_append] at hc
      cases right with
      | nil => exact absurd (List.map_eq_nil_iff.1 hr.symm) hd
      | cons e right =>
        simp only [inQualifier, Bool.and_eq_false_iff]
        exact .inl (isInner_of_alike hr hc)
    · rw [ha] at hc
      cases hc
      simp [inQualifier, hblank]
  simp only [List.append_assoc, read?, hleft, List.findSome?_isSome_iff]
  refine ⟨_, Text.mem_afterBlanks_iff.2 ⟨blanks, hb, rfl⟩, (w.kind, _), mem_kinds_iff.2 rfl, _,
    Text.mem_afterBlanks_iff.2 ⟨blanks', hb', rfl⟩, name, hname, ?_⟩
  simp only [hwritten, List.findSome?_isSome_iff, Option.isSome_map]
  exact ⟨_, mem_afterQualifier hq hnext, isSome_readArgument? hd h.argument hr rest⟩

theorem steady_read? (hl : d.left ≠ []) (hr : d.right ≠ []) (names : List Text) :
    Found.Steady (read? d names) where
  takes := by
    intro text w rest h
    obtain ⟨source, hs, he⟩ := spells_of_read? h
    exact ⟨source, hs.ne_nil hl, he⟩
  again := by
    intro source w rest h after
    obtain ⟨source', hs, he⟩ := spells_of_read? h
    rw [List.append_cancel_right he]
    exact isSome_read? hr hs after

theorem begins_read? (names : List Text) :
    Found.Begins Delimiters.usual.left (read? .usual names) := by
  intro text h
  cases hr : read? .usual names text with
  | none => rfl
  | some found =>
    obtain ⟨source, hs, rfl⟩ := spells_of_read? hr
    obtain ⟨left, _, _, _, _, hl, -, -, -, -, rfl⟩ := hs.parts
    rw [Delimiters.eq_left_of_alike hl, List.append_assoc] at h
    exact absurd (List.prefix_append ..) h

/-- A tag of the usual delimiters, with one space before its kind and name. -/
def written (kind : TagKind) (name argument : Text) : Text :=
  "\x7b% " ++ (colon kind ++ (name ++ (argument ++ "%\x7d")))

def IsPlain (name : Text) : Prop :=
  name ≠ [] ∧ ∀ c ∈ name, 'a' ≤ c ∧ c ≤ 'z'

instance (name : Text) : Decidable (IsPlain name) :=
  decidable_of_iff (name ≠ [] ∧ name.all (fun c => 'a' ≤ c ∧ c ≤ 'z') = true) (by simp [IsPlain])

variable {kind : TagKind} {name other argument inner : Text}

/-- What makes a lower-case letter unlike the other characters of a tag. -/
structure IsLetter (c : Char) : Prop where
  lower : Text.lowerAscii c = c
  blank : Text.isAsciiBlank c = false
  colon : c ≠ ':'
  percent : Text.lowerAscii c ≠ Text.lowerAscii '%'

theorem isLetter_of_le {c : Char} (h : 'a' ≤ c ∧ c ≤ 'z') : IsLetter c := by
  have hc : Text.isAscii c = true := by
    have hle : c.toNat ≤ 'z'.toNat := h.2
    simp only [Text.isAscii, decide_eq_true_eq]
    exact Nat.lt_of_le_of_lt hle (by decide)
  constructor
  · exact Text.forall_isAscii (p := fun c => 'a' ≤ c ∧ c ≤ 'z' → Text.lowerAscii c = c)
      (by decide) hc h
  · exact Text.forall_isAscii (p := fun c => 'a' ≤ c ∧ c ≤ 'z' → Text.isAsciiBlank c = false)
      (by decide) hc h
  · exact Text.forall_isAscii (p := fun c => 'a' ≤ c ∧ c ≤ 'z' → c ≠ ':') (by decide) hc h
  · exact Text.forall_isAscii
      (p := fun c => 'a' ≤ c ∧ c ≤ 'z' → Text.lowerAscii c ≠ Text.lowerAscii '%') (by decide) hc h

theorem IsPlain.exists_cons (h : IsPlain name) : ∃ c rest, name = c :: rest ∧ IsLetter c := by
  obtain ⟨c, rest, rfl⟩ := List.exists_cons_of_ne_nil h.1
  exact ⟨c, rest, rfl, isLetter_of_le (h.2 c List.mem_cons_self)⟩

theorem map_lowerAscii_of_le (h : ∀ c ∈ name, 'a' ≤ c ∧ c ≤ 'z') :
    name.map Text.lowerAscii = name := by
  induction name with
  | nil => rfl
  | cons c name ih =>
    obtain ⟨hc, hn⟩ := List.forall_mem_cons.1 h
    rw [List.map_cons, (isLetter_of_le hc).lower, ih hn]

theorem afterBlanks_of_not_blank {c : Char} (hc : Text.isAsciiBlank c = false) :
    Text.afterBlanks Text.isAsciiBlank (c :: text) = [c :: text] := by
  rw [Text.afterBlanks, hc, if_neg Bool.false_ne_true]

theorem afterQualifier_of_ne {c : Char} (hc : c ≠ ':') :
    afterQualifier d (c :: text) = [c :: text] := by
  unfold afterQualifier
  split
  · next he => exact absurd (List.cons.inj he).1 hc
  · rfl

theorem readArgument?_letter {c : Char} (hc : IsLetter c) :
    readArgument? .usual (c :: text) = none := by
  have hafter : Text.after? Text.lowerAscii Delimiters.usual.right (c :: text) = none :=
    if_neg hc.percent.symm
  unfold readArgument?
  rw [hafter]
  simp only [hc.blank, Bool.false_eq_true, if_false, Option.map_none]

/-- A name that is not the one of a tag is not read where the tag's name stands. -/
theorem afterName_eq_none {α : Type} {f : Text → Option α} (ho : IsPlain other)
    (hn : IsPlain name) (hne : other ≠ name) (hf : ∀ c text, IsLetter c → f (c :: text) = none) :
    (match Text.after? Text.lowerAscii other (name ++ ' ' :: text) with
      | none => none
      | some rest => (afterQualifier .usual rest).findSome? f) = none := by
  split
  · rfl
  · next rest ha =>
    obtain ⟨l, he, hl⟩ := Text.after?_eq_some_iff.1 ha
    rw [map_lowerAscii_of_le ho.2] at hl
    rcases List.append_eq_append_iff.1 he with ⟨gap, rfl, hgap⟩ | ⟨gap, rfl, hgap⟩
    · cases gap with
      | nil =>
        rw [List.append_nil, map_lowerAscii_of_le hn.2] at hl
        exact absurd hl.symm hne
      | cons c gap =>
        obtain ⟨rfl, -⟩ := List.cons.inj hgap
        have hmem : Text.lowerAscii ' ' ∈ other := by
          rw [← hl]
          exact List.mem_map_of_mem (List.mem_append_right _ List.mem_cons_self)
        exact absurd (ho.2 _ hmem) (by decide)
    · cases gap with
      | nil =>
        rw [List.append_nil] at hn hne
        rw [map_lowerAscii_of_le hn.2] at hl
        exact absurd hl.symm hne
      | cons c gap =>
        have hc : IsLetter c :=
          isLetter_of_le (hn.2 c (List.mem_append_right _ List.mem_cons_self))
        rw [hgap, List.cons_append, afterQualifier_of_ne hc.colon, List.findSome?_cons, hf c _ hc]
        rfl

/-- Of the registered names just the one that is written can be read. -/
theorem findSome?_written (hn : ∀ other ∈ names, IsPlain other) (hm : name ∈ names)
    (hi : ∀ c ∈ inner, isInner .usual c = true) (kind : TagKind) (rest : Text) :
    names.findSome? (fun other =>
      match Text.after? Text.lowerAscii other (name ++ ' ' :: (inner ++ ("%\x7d" ++ rest))) with
      | none => none
      | some text =>
        (afterQualifier .usual text).findSome? fun text =>
          (readArgument? .usual text).map fun (argument, after) =>
            ((⟨kind, (name ++ ' ' :: (inner ++ ("%\x7d" ++ rest))).take other.length, argument⟩ :
              Written), after)) =
      some (⟨kind, name, ' ' :: inner⟩, rest) := by
  have hargument : readArgument? .usual (' ' :: (inner ++ ("%\x7d" ++ rest))) =
      some (' ' :: inner, rest) := by
    have hright : Alike Delimiters.usual.right Delimiters.usual.right := rfl
    exact readArgument?_append (by decide) (.inr ⟨' ', inner, rfl, rfl, hi⟩) (by simp) hright rest
  apply findSome?_of_unique hm
  · rw [Text.after?_append, List.take_left]
    dsimp only
    rw [afterQualifier_of_ne (by decide), List.findSome?_cons, hargument]
    rfl
  · intro other ho hne
    apply afterName_eq_none (hn other ho) (hn name hm) hne
    intro c text hc
    rw [readArgument?_letter hc]
    rfl

theorem read?_written (hn : ∀ other ∈ names, IsPlain other) (hm : name ∈ names)
    (hi : ∀ c ∈ inner, isInner .usual c = true) (kind : TagKind) (rest : Text) :
    read? .usual names (written kind name (' ' :: inner) ++ rest) =
      some (⟨kind, name, ' ' :: inner⟩, rest) := by
  let after := name ++ ' ' :: (inner ++ ("%\x7d" ++ rest))
  obtain ⟨c, tail, hc, hletter⟩ := (hn name hm).exists_cons
  have hblanks : Text.afterBlanks Text.isAsciiBlank after = [after] := by
    simp only [after, hc]
    exact afterBlanks_of_not_blank hletter.blank
  have hspace (text : Text) : Text.afterBlanks Text.isAsciiBlank (' ' :: text) =
      Text.afterBlanks Text.isAsciiBlank text ++ [' ' :: text] := rfl
  have hcolon (text : Text) :
      Text.afterBlanks Text.isAsciiBlank (':' :: text) = [':' :: text] := rfl
  have hhead : kinds after = [(.head, after)] := by
    simp only [after, hc]
    unfold kinds
    split
    · next he => exact absurd (List.cons.inj he).1 hletter.colon
    · rfl
  have htail (text : Text) : kinds (':' :: text) = [(.tail, text), (.head, ':' :: text)] := rfl
  have hleft : written kind name (' ' :: inner) ++ rest =
      Delimiters.usual.left ++ (' ' :: (colon kind ++ after)) := by
    simp [written, after, List.append_assoc]
  rw [read?, hleft, Text.after?_append]
  cases kind with
  | head =>
    dsimp only [colon, List.nil_append]
    rw [hspace, hblanks]
    apply findSome?_head
    rw [hhead]
    apply findSome?_head
    dsimp only
    rw [hblanks]
    apply findSome?_head
    exact findSome?_written hn hm hi .head rest
  | tail =>
    dsimp only [colon, List.singleton_append]
    rw [hspace, hcolon]
    apply findSome?_head
    rw [htail]
    apply findSome?_head
    dsimp only
    rw [hblanks]
    apply findSome?_head
    exact findSome?_written hn hm hi .tail rest

end ThemeMarkup.Tag
