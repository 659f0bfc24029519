import ThemeMarkup.Attribute
import ThemeMarkup.Proofs.Text.Blank
import ThemeMarkup.Proofs.Text.Lowercase

namespace ThemeMarkup

def Text.blankPoints : List Nat :=
  List.range' 9 5 ++ List.range' 28 5 ++
    [0x85, 0xA0, 0x1680, 0x2028, 0x2029, 0x202F, 0x205F, 0x3000] ++ List.range' 0x2000 11

theorem Text.mem_blankPoints {c : Char} (h : isBlank c = true) : c.toNat ∈ blankPoints := by
  simp only [isBlank, isAsciiBlank, Bool.or_eq_true, Bool.and_eq_true, decide_eq_true_eq,
    List.contains_iff_mem] at h
  simp only [blankPoints, List.mem_append, List.mem_range'_1]
  rcases h with ((((h | h) | h) | h) | h)
  · omega
  · omega
  · omega
  · exact .inl (.inr h)
  · omega

namespace Attribute

variable {text rest value name tail blanks gap : Text} {c : Char} {pair : Text × Text}

theorem isAscii_of_isNameStart (h : isNameStart c = true) : Text.isAscii c = true := by
  have hle : c.toNat ≤ 'z'.toNat := by
    rw [isNameStart, Bool.or_eq_true_iff, decide_eq_true_eq] at h
    rcases h with halpha | rfl
    · rcases Bool.or_eq_true_iff.1 halpha with hupper | hlower
      · exact Nat.le_trans (of_decide_eq_true hupper).2 (by decide)
      · exact of_decide_eq_true (Bool.and_eq_true_iff.1 hlower).2
    · decide
  simp only [Text.isAscii, decide_eq_true_eq]
  exact Nat.lt_of_le_of_lt hle (by decide)

theorem isBlank_of_isNameStart (h : isNameStart c = true) : Text.isBlank c = false :=
  Text.forall_isAscii (p := fun c => isNameStart c = true → Text.isBlank c = false)
    (by decide) (isAscii_of_isNameStart h) h

theorem isNameStart_of_isBlank (h : Text.isBlank c = true) : isNameStart c = false := by
  by_contra hc
  rw [isBlank_of_isNameStart (Bool.not_eq_false _ ▸ hc)] at h
  contradiction

theorem ne_of_isNameStart {d : Char} (hc : isNameStart c = true)
    (hd : isNameStart d = false) : c ≠ d := by
  rintro rfl
  rw [hc] at hd
  contradiction

theorem isNameChar_of_isNameStart (h : isNameStart c = true) : isNameChar c = true :=
  Text.forall_isAscii (p := fun c => isNameStart c = true → isNameChar c = true)
    (by decide) (isAscii_of_isNameStart h) h

theorem isNameChar_of_isBlank (h : Text.isBlank c = true) : isNameChar c = false := by
  have hall : ∀ n ∈ Text.blankPoints, isNameChar (Char.ofNat n) = false := by decide +kernel
  have hc := hall c.toNat (Text.mem_blankPoints h)
  rwa [Char.ofNat_toNat] at hc

theorem readQuoted?_append {quote : Char} (h : quote ∉ value) :
    readQuoted? quote (value ++ quote :: rest) = some (value, rest) := by
  have hall : ∀ c ∈ value, decide (c ≠ quote) = true := by
    intro c hc
    apply decide_eq_true
    rintro rfl
    exact h hc
  have htake : (value ++ quote :: rest).takeWhile (· ≠ quote) = value := by
    rw [List.takeWhile_append_of_pos hall, List.takeWhile_cons_of_neg (by simp), List.append_nil]
  have hdrop : (value ++ quote :: rest).dropWhile (· ≠ quote) = quote :: rest := by
    rw [List.dropWhile_append_of_pos hall, List.dropWhile_cons_of_neg (by simp)]
  rw [readQuoted?, hdrop, htake]

theorem exists_of_afterEquals? (h : afterEquals? text = some rest) :
    ∃ blanks blanks', text = blanks ++ '=' :: (blanks' ++ rest) ∧
      (∀ c ∈ blanks, Text.isBlank c = true) ∧ ∀ c ∈ blanks', Text.isBlank c = true := by
  obtain ⟨blanks, ht, hb⟩ := Text.exists_append_stripLeft text
  rw [afterEquals?] at h
  split at h
  · contradiction
  · next after _ hafter =>
    obtain ⟨blanks', ht', hb'⟩ := Text.exists_append_stripLeft after
    rw [Option.some.inj h] at ht'
    refine ⟨blanks, blanks', ?_, hb, hb'⟩
    rw [← ht', ← hafter]
    exact ht
  · contradiction

theorem eq_of_readQuoted? {quote : Char} (h : readQuoted? quote text = some (value, rest)) :
    text = value ++ quote :: rest := by
  rw [readQuoted?] at h
  split at h
  · contradiction
  · next d after hd =>
    cases h
    have hhead := List.head?_dropWhile_not (· ≠ quote) text
    rw [hd] at hhead
    have hfirst : d = quote := by simpa using hhead
    have htext := List.takeWhile_append_dropWhile (p := (· ≠ quote)) (l := text)
    rw [hd, hfirst] at htext
    exact htext.symm

theorem afterEquals?_eq (text : Text) :
    afterEquals? text =
      if (Text.stripLeft text).head? = some '=' ∧ (Text.stripLeft text).tail.head? ≠ some '=' then
        some (Text.stripLeft (Text.stripLeft text).tail)
      else none := by
  rw [afterEquals?]
  split
  · next h => simp [h]
  · next hne h =>
    have htail : (Text.stripLeft text).tail.head? ≠ some '=' := by
      intro htail
      obtain ⟨after, hafter⟩ := List.head?_eq_some_iff.1 htail
      rw [h, List.tail_cons] at hafter
      exact hne after hafter
    rw [if_pos ⟨by rw [h, List.head?_cons], htail⟩, h, List.tail_cons]
  · next hne =>
    rw [if_neg]
    rintro ⟨hhead, -⟩
    obtain ⟨after, hafter⟩ := List.head?_eq_some_iff.1 hhead
    exact hne after hafter

theorem suffix_of_readValue? (h : readValue? text = some (value, rest)) : rest <:+ text := by
  cases text with
  | nil => contradiction
  | cons c text =>
    rw [readValue?] at h
    split at h
    · obtain rfl := eq_of_readQuoted? h
      exact ⟨c :: (value ++ [c]), by simp⟩
    · split at h
      · cases h
        exact (List.dropWhile_suffix isBare).trans (List.suffix_cons c text)
      · contradiction

theorem exists_of_read? (h : read? text = some ((name, value), rest)) :
    ∃ blanks after, text = name ++ (blanks ++ '=' :: after) ∧ name ≠ [] ∧
      (∀ c ∈ name, isNameChar c = true) ∧ (∀ c ∈ blanks, Text.isBlank c = true) ∧
      after.head? ≠ some '=' ∧ readValue? (Text.stripLeft after) = some (value, rest) := by
  cases text with
  | nil => contradiction
  | cons c text =>
    rw [read?] at h
    split at h
    · next hc =>
      split at h
      · contradiction
      · next found hfound =>
        obtain ⟨⟨value, rest⟩, hv, he⟩ := Option.map_eq_some_iff.1 h
        cases he
        obtain ⟨blanks, hblanks, hb⟩ := Text.exists_append_stripLeft (text.dropWhile isNameChar)
        rw [afterEquals?_eq] at hfound
        split at hfound
        · next hequals =>
          obtain ⟨hhead, hdouble⟩ := hequals
          obtain ⟨after, hafter⟩ := List.head?_eq_some_iff.1 hhead
          rw [hafter, List.tail_cons] at hdouble
          rw [hafter, List.tail_cons] at hfound
          obtain rfl := Option.some.inj hfound
          refine ⟨blanks, after, ?_, List.cons_ne_nil _ _, ?_, hb, hdouble, hv⟩
          · rw [← hafter, ← hblanks, List.cons_append, List.takeWhile_append_dropWhile]
          · refine List.forall_mem_cons.2 ⟨isNameChar_of_isNameStart hc, fun d hd => ?_⟩
            exact List.all_eq_true.1 List.all_takeWhile d hd
        · contradiction
    · contradiction

theorem suffix_of_read? (h : read? (c :: text) = some (pair, rest)) : rest <:+ text := by
  obtain ⟨name, value⟩ := pair
  obtain ⟨blanks, after, htext, hne, -, -, -, hvalue⟩ := exists_of_read? h
  obtain ⟨d, tail, rfl⟩ := List.exists_cons_of_ne_nil hne
  obtain ⟨-, rfl⟩ := List.cons.inj htext
  have hafter : after <:+ tail ++ (blanks ++ '=' :: after) := ⟨tail ++ (blanks ++ ['=']), by simp⟩
  exact (suffix_of_readValue? hvalue).trans ((List.dropWhile_suffix _).trans hafter)

theorem read?_append (hc : isNameStart c = true) (ht : ∀ d ∈ tail, isNameChar d = true)
    (hb : ∀ d ∈ blanks, Text.isBlank d = true) (hg : ∀ d ∈ gap, Text.isBlank d = true)
    (hv : ∀ d ∈ text.head?, Text.isBlank d = false ∧ d ≠ '=') :
    read? (c :: (tail ++ (blanks ++ '=' :: (gap ++ text)))) =
      (readValue? text).map fun (value, rest) => ((c :: tail, value), rest) := by
  have hstop : ∀ d ∈ (blanks ++ '=' :: (gap ++ text)).head?, isNameChar d = false := by
    intro d hd
    cases blanks with
    | nil =>
      cases hd
      decide
    | cons first blanks =>
      cases hd
      exact isNameChar_of_isBlank (hb d List.mem_cons_self)
  have hequals : afterEquals? (blanks ++ '=' :: (gap ++ text)) = some text := by
    have hleft : Text.stripLeft (blanks ++ '=' :: (gap ++ text)) = '=' :: (gap ++ text) := by
      rw [Text.stripLeft, List.dropWhile_append_of_pos hb]
      rfl
    have hright : Text.stripLeft (gap ++ text) = text := by
      rw [Text.stripLeft, List.dropWhile_append_of_pos hg]
      exact Text.dropWhile_eq_self fun d hd => (hv d hd).1
    rw [afterEquals?_eq, hleft, List.tail_cons, hright, if_pos]
    refine ⟨rfl, fun hd => ?_⟩
    cases gap with
    | nil => exact (hv '=' hd).2 rfl
    | cons first gap =>
      cases hd
      exact absurd (hg '=' List.mem_cons_self) (by decide)
  rw [read?, if_pos hc, List.dropWhile_append_of_pos ht, Text.dropWhile_eq_self hstop, hequals,
    List.takeWhile_append_of_pos ht, Text.takeWhile_eq_nil hstop, List.append_nil]

theorem pairsFrom_cons (free : Bool) (c : Char) (text : Text) :
    pairsFrom free (c :: text) =
      match if free then read? (c :: text) else none with
      | none => pairsFrom (Text.isBlank c) text
      | some (pair, rest) => pair :: pairsFrom false rest := by
  cases hread : if free then read? (c :: text) else none with
  | none => rw [pairsFrom, hread]
  | some found =>
    rw [pairsFrom, hread]
    split at hread
    · exact if_pos (suffix_of_read? hread).length_le
    · contradiction

theorem pairsFrom_eq_nil_iff {free : Bool} : pairsFrom free text = [] ↔
    (free = true → read? text = none) ∧
      ∀ before after, text = before ++ after → before.getLast?.any Text.isBlank = true →
        read? after = none := by
  induction text generalizing free with
  | nil =>
    refine iff_of_true (by rw [pairsFrom]) ⟨fun _ => rfl, ?_⟩
    rintro before after he -
    rw [(List.append_eq_nil_iff.1 he.symm).2]
    rfl
  | cons c text ih =>
    rw [pairsFrom_cons]
    split
    · next hnone =>
      rw [ih]
      constructor
      · rintro ⟨hfirst, hrest⟩
        refine ⟨fun hf => by rwa [if_pos hf] at hnone, ?_⟩
        rintro (_ | ⟨d, before⟩) after he hblank
        · contradiction
        · obtain ⟨rfl, rfl⟩ := List.cons.inj he
          cases before with
          | nil => exact hfirst hblank
          | cons e before => exact hrest (e :: before) after rfl (List.getLast?_cons_cons ▸ hblank)
      · rintro ⟨-, hall⟩
        refine ⟨fun hc => hall [c] text rfl hc, ?_⟩
        rintro (_ | ⟨d, before⟩) after he hblank
        · contradiction
        · refine hall (c :: d :: before) after (congrArg (c :: ·) he) ?_
          rwa [List.getLast?_cons_cons]
    · next hsome =>
      refine iff_of_false (List.cons_ne_nil _ _) ?_
      rintro ⟨hfirst, -⟩
      split at hsome
      · next hf =>
        rw [hfirst hf] at hsome
        contradiction
      · contradiction

theorem parse_of_pairsFrom (h : pairsFrom true (Text.strip text) ≠ []) (default? : Option Text) :
    parse text default? =
      Table.ofList ((pairsFrom true (Text.strip text)).map fun (name, value) =>
        (Text.lower name, value)) := by
  unfold parse
  dsimp only
  cases hp : pairsFrom true (Text.strip text) with
  | nil => exact absurd hp h
  | cons pair pairs => rfl

theorem length_le_of_readValue? (h : readValue? text = some (value, rest)) :
    value.length ≤ text.length := by
  cases text with
  | nil => contradiction
  | cons c text =>
    rw [readValue?] at h
    split at h
    · rw [eq_of_readQuoted? h]
      simp only [List.length_cons, List.length_append]
      omega
    · split at h
      · cases h
        exact Nat.succ_le_succ (List.takeWhile_prefix isBare).length_le
      · contradiction

theorem length_lt_of_read? (h : read? text = some ((name, value), rest)) :
    value.length < text.length := by
  obtain ⟨blanks, after, rfl, -, -, -, -, hvalue⟩ := exists_of_read? h
  have hle := length_le_of_readValue? hvalue
  have hleft : (Text.stripLeft after).length ≤ after.length := (List.dropWhile_suffix _).length_le
  simp only [List.length_append, List.length_cons]
  omega

theorem exists_of_mem_pairsFrom {free : Bool} (h : pair ∈ pairsFrom free text) :
    ∃ after rest, after <:+ text ∧ read? after = some (pair, rest) := by
  fun_induction pairsFrom free text with
  | case1 => contradiction
  | case2 free c text hnone ih =>
    obtain ⟨after, rest, hsuffix, hread⟩ := ih h
    exact ⟨after, rest, hsuffix.trans (List.suffix_cons c text), hread⟩
  | case3 free c text first rest hread hle ih =>
    split at hread
    · rcases List.mem_cons.1 h with rfl | h
      · exact ⟨c :: text, rest, List.suffix_rfl, hread⟩
      · obtain ⟨after, rest', hsuffix, hread'⟩ := ih h
        exact ⟨after, rest', (hsuffix.trans (suffix_of_read? hread)).trans
          (List.suffix_cons c text), hread'⟩
    · contradiction
  | case4 free c text first rest hread hle ih =>
    obtain ⟨after, rest, hsuffix, hread⟩ := ih h
    exact ⟨after, rest, hsuffix.trans (List.suffix_cons c text), hread⟩

end Attribute

end ThemeMarkup
