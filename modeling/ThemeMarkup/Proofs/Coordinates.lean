import ThemeMarkup.Proofs.Location

namespace ThemeMarkup.Span

open Text (Occurs ended)

variable {needle text line : Text} {first : Nat} {start : Int}

theorem locate_cases (text : Text) (hn : needle ≠ []) (h0 : 0 ≤ start) :
    (locate text needle start = nowhere ∧ ∀ i : Nat, start ≤ i → ¬ Occurs needle text i) ∨
      ∃ first : Nat, locate text needle start = ofRange text first needle.length ∧ start ≤ first ∧
        Occurs needle text first ∧ ∀ i : Nat, start ≤ i → Occurs needle text i → first ≤ i := by
  obtain ⟨start, rfl⟩ := Int.eq_ofNat_of_zero_le h0
  obtain ⟨c, rest, rfl⟩ := List.exists_cons_of_ne_nil hn
  rw [locate, if_neg (Int.not_lt.2 h0), Int.toNat_natCast]
  cases hfind : Text.findFrom? (c :: rest) start text with
  | none =>
    refine .inl ⟨rfl, ?_⟩
    intro i hi hoccurs
    obtain ⟨first, hfirst⟩ := Text.exists_findFrom? hoccurs hn (Int.ofNat_le.1 hi)
    rw [hfind] at hfirst
    contradiction
  | some first =>
    obtain ⟨hle, hoccurs, hleast⟩ := (Text.findFrom?_eq_some_iff hn).1 hfind
    refine .inr ⟨first, rfl, Int.ofNat_le.2 hle, hoccurs, ?_⟩
    intro i hi
    exact hleast i (Int.ofNat_le.1 hi)

section Carets

variable {before init : Text} {full : List Text} {c : Char}

theorem exists_ended_of_occurs (h : Occurs needle text first) (hn : needle ≠ []) :
    ∃ full before rest, text = ended full ++ (before ++ (needle ++ rest)) ∧
      first = (ended full ++ before).length ∧ (∀ line ∈ full, '\n' ∉ line) ∧ '\n' ∉ before := by
  have hle := h.add_length_le hn
  obtain ⟨full, before, hbefore, hfull, hopen⟩ := Text.exists_ended (text.take first)
  obtain ⟨rest, hrest⟩ := h
  refine ⟨full, before, rest, ?_, ?_, hfull, hopen⟩
  · rw [hrest, ← List.append_assoc, ← hbefore, List.take_append_drop]
  · rw [← hbefore, List.length_take]
    omega

theorem length_append_concat_pred (full : List Text) (before init : Text) (c : Char) :
    (ended full ++ before).length + (init ++ [c]).length - 1 =
      (ended full ++ (before ++ init)).length := by
  simp only [List.length_append, List.length_singleton]
  omega

theorem markWidth_within (hf : ∀ line ∈ full, '\n' ∉ line) (hb : '\n' ∉ before)
    (hi : '\n' ∉ init) (rest line : Text) :
    (ofRange (ended full ++ (before ++ (init ++ [c] ++ rest))) (ended full ++ before).length
      (init ++ [c]).length).markWidth line = (init ++ [c]).length := by
  have hsame : '\n' ∉ before ++ init := by
    intro hmem
    exact (List.mem_append.1 hmem).elim hb hi
  rw [markWidth, ofRange, length_append_concat_pred]
  dsimp only
  rw [lineAt_append hf hb, columnAt_append full hb, List.append_assoc init,
    ← List.append_assoc before, lineAt_append hf hsame, columnAt_append full hsame, if_pos rfl]
  simp only [List.length_append, List.length_singleton]
  omega

theorem markWidth_below (hf : ∀ line ∈ full, '\n' ∉ line) (hb : '\n' ∉ before)
    (hi : '\n' ∈ init) (rest line : Text) :
    (ofRange (ended full ++ (before ++ (init ++ [c] ++ rest))) (ended full ++ before).length
      (init ++ [c]).length).markWidth line = line.length - before.length := by
  have hbelow : full.length < lineAt (ended full ++ (before ++ (init ++ [c] ++ rest)))
      (ended full ++ (before ++ init)).length := by
    rw [List.append_assoc init, ← List.append_assoc before, ← List.append_assoc, lineAt_left,
      List.count_append, List.count_append, Text.count_ended hf]
    have hpos := List.count_pos_iff.2 hi
    omega
  rw [markWidth, ofRange, length_append_concat_pred]
  dsimp only
  rw [lineAt_append hf hb, columnAt_append full hb, if_neg (mt Int.natCast_inj.1 hbelow.ne')]

theorem markWidth_ofRange (h : Occurs needle text first) (hn : needle ≠ [])
    (hlast : needle.getLast? ≠ some '\n') (hline : text.lines[lineAt text first]? = some line) :
    (ofRange text first needle.length).markWidth line = (needle.takeWhile (· ≠ '\n')).length := by
  obtain ⟨full, before, rest, rfl, rfl, hfull, hopen⟩ := exists_ended_of_occurs h hn
  obtain ⟨init, c, rfl⟩ := (List.eq_nil_or_concat' needle).resolve_left hn
  rw [lineAt_append hfull hopen, Text.getElem?_lines hfull hopen] at hline
  cases hline
  by_cases hinit : '\n' ∈ init
  · rw [markWidth_below hfull hopen hinit, List.append_assoc, Text.takeWhile_append_of_mem hinit,
      Text.takeWhile_append_of_mem hinit, List.length_append]
    omega
  · have hall : '\n' ∉ init ++ [c] := by
      intro hmem
      apply hlast
      rw [List.getLast?_concat, List.mem_singleton.1 ((List.mem_append.1 hmem).resolve_left hinit)]
    rw [markWidth_within hfull hopen hinit, ← List.append_nil (init ++ [c]),
      Text.takeWhile_append_of_not_mem hall, List.takeWhile_nil]

end Carets

theorem exists_location_ofRange (h : Occurs needle text first) (hn : needle ≠ [])
    (hlast : needle.getLast? ≠ some '\n') (file : Option Text) :
    ∃ place content, (ofRange text first needle.length).location none file = .ok place ∧
      text.lines[lineAt text first]? = some content ∧
      (ofRange text first needle.length).location (some text) file =
        .ok (place ++ (['\n'] ++ content ++ ['\n'] ++ List.replicate (columnAt text first) ' ' ++
          List.replicate (max (needle.takeWhile (· ≠ '\n')).length 1) '^')) := by
  have hcovers : (ofRange text first needle.length).Covers text needle := ⟨first, rfl, hn, h⟩
  obtain ⟨place, content, hplace, hcontent, hshown⟩ := hcovers.exists_location file
  have hwidth := markWidth_ofRange h hn hlast hcontent
  have hcarets : (max (((needle.takeWhile (· ≠ '\n')).length : Nat) : Int) 1).toNat =
      max (needle.takeWhile (· ≠ '\n')).length 1 := by omega
  refine ⟨place, content, hplace, hcontent, ?_⟩
  rw [hshown, marked, hwidth, hcarets]
  rfl

/-- What is located is the first occurrence of the piece that does not begin before the start, and
it is located if there is one. Its lines and columns lead to its first and its last character, and
its carets stand under it. -/
theorem locate_exact (text : Text) (hn : needle ≠ []) (h0 : 0 ≤ start) :
    let span := locate text needle start
    (span.isLocated = true ↔ ∃ i : Nat, start ≤ i ∧ Occurs needle text i) ∧
      (span.isLocated = true → ∃ first line lastLine column lastColumn : Nat,
        span = ⟨first, first + needle.length - 1, line, lastLine, column, lastColumn⟩ ∧
          (start ≤ first ∧ Occurs needle text first ∧
            ∀ i : Nat, start ≤ i → Occurs needle text i → first ≤ i) ∧
          text.LeadTo line column first ∧
          text.LeadTo lastLine lastColumn (first + needle.length - 1) ∧
          (needle.getLast? ≠ some '\n' → ∀ file, ∃ place content,
            span.location none file = .ok place ∧ text.lines[line]? = some content ∧
              span.location (some text) file = .ok (place ++ (['\n'] ++ content ++ ['\n'] ++
                List.replicate column ' ' ++
                List.replicate (max (needle.takeWhile (· ≠ '\n')).length 1) '^')))) := by
  intro span
  rcases locate_cases text hn h0 with ⟨hspan, hnone⟩ | ⟨first, hspan, hle, hoccurs, hleast⟩
  · have hlocated : span.isLocated = false := congrArg isLocated hspan
    rw [hlocated]
    refine ⟨⟨nofun, ?_⟩, nofun⟩
    intro ⟨i, hi, hoccurs⟩
    exact absurd hoccurs (hnone i hi)
  · have hspan : span = ofRange text first needle.length := hspan
    have hlength := hoccurs.add_length_le hn
    have hpos := List.length_pos_iff.2 hn
    have hlast : ((first + needle.length - 1 : Nat) : Int) = first + needle.length - 1 := by omega
    rw [hspan]
    constructor
    · constructor
      · intro _
        exact ⟨first, hle, hoccurs⟩
      · intro _
        exact decide_eq_true (Int.natCast_nonneg first)
    · intro _
      refine ⟨first, lineAt text first, lineAt text (first + needle.length - 1),
        columnAt text first, columnAt text (first + needle.length - 1), ?_, ⟨hle, hoccurs, hleast⟩,
        leadTo_at (by omega), leadTo_at (by omega), exists_location_ofRange hoccurs hn⟩
      rw [ofRange, hlast]

theorem locate_exact_below :
    let text : Text := "\nx \x7b% if\na %\x7d"
    let needle : Text := "\x7b% if\na %\x7d"
    let span := locate text needle 1
    needle ≠ [] ∧ (0 : Int) ≤ 1 ∧ span.isLocated = true ∧ needle.getLast? ≠ some '\n' ∧
      span = ⟨3, 12, 1, 2, 2, 3⟩ ∧ text.LeadTo 1 2 3 ∧ text.LeadTo 2 3 12 ∧
      span.location (some text) none = .ok "Line:1; column:2; file:None.\nx \x7b% if\n  ^^^^^" := by
  intro text needle span
  have hn : needle ≠ [] := by decide
  have hspan : span = ⟨3, 12, 1, 2, 2, 3⟩ := by decide
  have hlocated : span.isLocated = true := by decide
  have hend : needle.getLast? ≠ some '\n' := by decide
  obtain ⟨-, hexact⟩ := locate_exact text hn (Int.zero_le_ofNat 1)
  obtain ⟨first, line, lastLine, column, lastColumn, heq, -, hfirst, hlast, hshown⟩ :=
    hexact hlocated
  obtain ⟨place, content, hplace, hcontent, hlocation⟩ := hshown hend none
  obtain ⟨rfl, rfl, rfl, rfl, rfl⟩ :
      first = 3 ∧ line = 1 ∧ lastLine = 2 ∧ column = 2 ∧ lastColumn = 3 := by
    have hboth := hspan.symm.trans heq
    simp only [mk.injEq] at hboth
    omega
  have hline : content = "x \x7b% if" := Option.some.inj (hcontent.symm.trans (by decide))
  have hhead : place = "Line:1; column:2; file:None." :=
    Except.ok.inj (hplace.symm.trans (by decide))
  refine ⟨hn, Int.zero_le_ofNat 1, hlocated, hend, hspan, hfirst, hlast, ?_⟩
  rw [hlocation, hline, hhead]
  rfl

end ThemeMarkup.Span
