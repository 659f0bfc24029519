import Mathlib
import ThemeMarkup.Proofs.Label.Render
import ThemeMarkup.Proofs.Text.Quoted

namespace ThemeMarkup.Markup

open Text (quotedChar IsQuote)

variable {quote c : Char} {text body ending after : Text} {ts us : List Token}

theorem isAscii_of_isTagStart (h : isTagStart c = true) : Text.isAscii c = true := by
  simp only [isTagStart, Bool.or_eq_true, Bool.and_eq_true, decide_eq_true_eq] at h
  rcases h with ((⟨-, hz⟩ | rfl) | rfl) | rfl
  · have hle : c.toNat ≤ 'z'.toNat := hz
    exact decide_eq_true (Nat.lt_of_le_of_lt hle (by decide))
  · rfl
  · rfl
  · rfl

theorem isPrintable_of_isTagStart (h : isTagStart c = true) :
    Text.isPrintable c = true ∧ c ≠ '\'' ∧ c ≠ '"' ∧ c ≠ '\\' :=
  Text.forall_isAscii (p := fun c => isTagStart c = true →
    Text.isPrintable c = true ∧ c ≠ '\'' ∧ c ≠ '"' ∧ c ≠ '\\') (by decide)
    (isAscii_of_isTagStart h) h

theorem isTagStart_of_isDigit (hd : c.isDigit = true) : isTagStart c = false :=
  Bool.eq_false_iff.2 fun h => Text.forall_isAscii
    (p := fun c => isTagStart c = true → ¬ c.isDigit = true) (by decide)
    (isAscii_of_isTagStart h) h hd

theorem inTag_of_isAlphanum (h : c.isAlphanum = true) : inTag c = true := by
  rw [inTag_iff]
  constructor <;> rintro rfl <;> exact absurd h (by decide)

theorem inTag_of_isQuote (hq : IsQuote quote) :
    inTag quote = true ∧ Text.isPrintable quote = true ∧ isTagStart quote = false ∧
      quote ≠ '\\' := by
  rcases hq with rfl | rfl <;> decide

/-- What markup sees of a quoted character: the character itself, or a backslash and characters that
are no brackets, the last of which is a backslash only for a backslash. -/
theorem quotedChar_cases (hq : IsQuote quote) (c : Char) :
    quotedChar quote c = [c] ∧ c ≠ '\\' ∨
      ∃ d rest, quotedChar quote c = '\\' :: d :: rest ∧ isTagStart c = false ∧ inTag c = true ∧
        (∀ e ∈ '\\' :: d :: rest, inTag e = true) ∧
        ((d :: rest).getLast? = some '\\' → c = '\\') := by
  have hslash : inTag '\\' = true := by decide
  by_cases hspecial : c = quote ∨ c = '\\'
  · have hc : isTagStart c = false ∧ inTag c = true := by
      rcases hspecial with rfl | rfl
      · exact ⟨(inTag_of_isQuote hq).2.2.1, (inTag_of_isQuote hq).1⟩
      · decide
    refine .inr ⟨c, [], Text.quotedChar_of_eq hspecial, hc.1, hc.2, ?_, Option.some.inj⟩
    exact List.forall_mem_cons.2 ⟨hslash, List.forall_mem_singleton.2 hc.2⟩
  · obtain ⟨hne, hs⟩ := not_or.1 hspecial
    cases hp : Text.isPrintable c with
    | true => exact .inl ⟨Text.quotedChar_of_isPrintable hp hne hs, hs⟩
    | false =>
      obtain ⟨d, rest, he, hall⟩ := Text.exists_quotedChar hp hq
      have hvisible {d : Char} (hd : Text.isPrintable d = true) : c ≠ d := by
        rintro rfl
        rw [hp] at hd
        contradiction
      refine .inr ⟨d, rest, he, ?_, ?_, List.forall_mem_cons.2 ⟨hslash, fun e hm => ?_⟩,
        fun hlast => ?_⟩
      · exact Bool.eq_false_iff.2 fun hstart => hvisible (isPrintable_of_isTagStart hstart).1 rfl
      · exact inTag_iff.2 ⟨hvisible (by decide), hvisible (by decide)⟩
      · exact inTag_of_isAlphanum (hall e hm)
      · exact absurd (hall _ (List.mem_of_getLast? hlast)) (by decide)

/-- What a stretch becomes in quotation, which doubles the backslashes before a tag. -/
def Token.quoted (quote : Char) : Token → List Token
  | .char c => (quotedChar quote c).map .char
  | .tag slashes body => [.tag (2 * slashes) (body.flatMap (quotedChar quote))]

theorem IsTag.flatMap_quotedChar (hq : IsQuote quote) (h : IsTag body) :
    IsTag (body.flatMap (quotedChar quote)) := by
  obtain ⟨c, rest, rfl, hc, hrest⟩ := h
  obtain ⟨hp, hs, hd, hb⟩ := isPrintable_of_isTagStart hc
  have hne : c ≠ quote := by
    rcases hq with rfl | rfl
    · exact hs
    · exact hd
  refine ⟨c, rest.flatMap (quotedChar quote), ?_, hc, fun e he => ?_⟩
  · rw [List.flatMap_cons, Text.quotedChar_of_isPrintable hp hne hb]
    rfl
  · obtain ⟨d, hd, he⟩ := List.mem_flatMap.1 he
    rcases quotedChar_cases hq d with ⟨h, -⟩ | ⟨f, after, h, -, -, hall, -⟩ <;> rw [h] at he
    · exact List.mem_singleton.1 he ▸ hrest d hd
    · exact hall e he

theorem quotedChar_bracket (hq : IsQuote quote) :
    quotedChar quote '[' = ['['] ∧ quotedChar quote ']' = [']'] := by
  rcases hq with rfl | rfl <;> decide

theorem written_flatMap_quoted (hq : IsQuote quote) (ts : List Token) :
    written (ts.flatMap (Token.quoted quote)) = (written ts).flatMap (quotedChar quote) := by
  obtain ⟨hopen, hclose⟩ := quotedChar_bracket hq
  have hslashes (n : Nat) : (List.replicate n '\\').flatMap (quotedChar quote) =
      List.replicate (2 * n) '\\' := by
    induction n with
    | zero => rfl
    | succ n ih =>
      rw [List.replicate_succ, List.flatMap_cons, ih, Text.quotedChar_of_eq (.inr rfl),
        Nat.mul_succ, Nat.add_comm, List.replicate_add]
      rfl
  induction ts with
  | nil => rfl
  | cons token ts ih =>
    rw [List.flatMap_cons, written_append, ih]
    cases token with
    | char c => rw [Token.quoted, written_chars, written_char, List.flatMap_cons]
    | tag slashes body =>
      simp only [Token.quoted, written_tag, written_nil, List.flatMap_append, hslashes,
        List.append_nil, bracketed, List.append_assoc]
      simp [hopen, hclose]

theorem keepsReading_quoted (hq : IsQuote quote) : KeepsReading (Token.quoted quote) where
  char c := by
    rw [Token.quoted]
    rcases quotedChar_cases hq c with ⟨h, -⟩ | ⟨d, rest, h, hstart, hc, hall, hlast⟩
    · exact .inl (by rw [h]; rfl)
    · exact .inr ⟨d :: rest, by rw [h], hstart, hc, hall, hlast⟩
  tag slashes body := ⟨2 * slashes, _, rfl, IsTag.flatMap_quotedChar hq⟩

theorem flatMap_quoted_chars (quote : Char) (text : Text) :
    (text.map Token.char).flatMap (Token.quoted quote) =
      (text.flatMap (quotedChar quote)).map .char := by
  rw [List.flatMap_map, List.map_flatMap]
  rfl

/-- The stretches of a text that is escaped, with something put after it, and then quoted. -/
def quotedTokens (text ending : Text) : List Token :=
  let quote := Text.quoteMark text
  .char quote :: (((tokens text).map Token.escaped).flatMap (Token.quoted quote) ++
    (ending.flatMap (quotedChar quote) ++ [quote]).map .char)

theorem written_quotedTokens (he : ∀ c ∈ ending, c = '\\') (text : Text) :
    written (quotedTokens text ending) =
      Text.quoted (written ((tokens text).map Token.escaped) ++ ending) := by
  have hmem {c : Char} (hc : c ≠ '\\') :
      c ∈ written ((tokens text).map Token.escaped) ++ ending ↔ c ∈ text := by
    rw [List.mem_append, mem_written_escaped_iff hc]
    exact or_iff_left fun hm => hc (he c hm)
  have hmark : Text.quoteMark (written ((tokens text).map Token.escaped) ++ ending) =
      Text.quoteMark text :=
    Text.quoteMark_congr (hmem (by decide)) (hmem (by decide))
  rw [Text.quoted, hmark, List.flatMap_append]
  simp only [quotedTokens, written_char, written_append, written_chars,
    written_flatMap_quoted (Text.isQuote_quoteMark text), List.append_assoc, List.cons_append]

theorem inTag_of_mem_closing (hq : IsQuote quote) (he : ∀ c ∈ ending, c = '\\')
    (h : c ∈ ending.flatMap (quotedChar quote) ++ [quote]) : inTag c = true := by
  rcases List.mem_append.1 h with h | h
  · obtain ⟨e, hm, h⟩ := List.mem_flatMap.1 h
    rw [he e hm, Text.quotedChar_of_eq (.inr rfl)] at h
    rw [show c = '\\' by simpa using h]
    rfl
  · rw [List.mem_singleton.1 h]
    exact (inTag_of_isQuote hq).1

theorem isRead_quotedTokens (he : ∀ c ∈ ending, c = '\\') (text : Text) :
    IsRead (quotedTokens text ending) := by
  have hq := Text.isQuote_quoteMark text
  have hclosing : ∀ c ∈ ending.flatMap (quotedChar (Text.quoteMark text)) ++ [Text.quoteMark text],
      inTag c = true := fun c hc => inTag_of_mem_closing hq he hc
  rw [quotedTokens]
  generalize ending.flatMap (quotedChar (Text.quoteMark text)) ++ [Text.quoteMark text] =
    closing at hclosing ⊢
  have hread : IsRead (closing.map .char) := by
    rw [← List.append_nil (closing.map _)]
    exact IsRead.chars_append trivial (fun hm => absurd (hclosing _ hm) (by decide)) fun _ => rfl
  have hcloses : closes (closing.map .char) = false := by
    rw [← List.append_nil (closing.map _), closes_chars_append hclosing]
    rfl
  have hbegins : beginsWithTag (closing.map .char) = false := by
    cases closing <;> rfl
  have hquoted := (keepsReading_quoted hq).isRead_flatMap (isRead_tokens text).map_escaped
  obtain ⟨hmark, -, -, hslash⟩ := inTag_of_isQuote hq
  exact ⟨fun h => absurd h hslash, fun h => absurd h (inTag_iff.1 hmark).1,
    hquoted.append hread hbegins hcloses⟩

theorem areStyles_quotedTokens (text ending : Text) : AreStyles (quotedTokens text ending) := by
  intro slashes body hm
  rcases List.mem_cons.1 hm with hm | hm
  · contradiction
  rcases List.mem_append.1 hm with hm | hm
  · obtain ⟨token, -, hm⟩ := List.mem_flatMap.1 hm
    cases token with
    | char c => exact absurd hm tag_not_mem_chars
    | tag more other =>
      cases List.mem_singleton.1 hm
      exact Nat.mul_mod_right 2 more
  · exact absurd hm tag_not_mem_chars

theorem count_quotedTokens (he : ∀ c ∈ ending, c = '\\') (text : Text) :
    (quotedTokens text ending).count (.char '[') = (tokens text).count (.char '[') := by
  have hq := Text.isQuote_quoteMark text
  have hclosing : '[' ∉ ending.flatMap (quotedChar (Text.quoteMark text)) ++
      [Text.quoteMark text] := fun hm =>
    absurd (inTag_of_mem_closing hq he hm) (by decide)
  have hmark : Token.char (Text.quoteMark text) ≠ .char '[' := fun he =>
    (inTag_iff.1 (inTag_of_isQuote hq).1).1 (Token.char.inj he)
  rw [quotedTokens, List.count_cons_of_ne hmark, List.count_append,
    (keepsReading_quoted hq).count_flatMap, count_map_escaped, count_chars,
    List.count_eq_zero.2 hclosing, Nat.add_zero]

theorem quotedTokens_of_tags (he : ∀ c ∈ ending, c = '\\') (h : tags text = []) :
    quotedTokens text ending = (Text.quoted (text ++ ending)).map .char := by
  have hwritten := written_quotedTokens he text
  rw [tokens_of_tags h, map_escaped_chars, written_chars] at hwritten
  rw [← hwritten, quotedTokens, tokens_of_tags h, map_escaped_chars,
    flatMap_quoted_chars, ← List.map_append, ← List.map_cons, written_chars]

theorem infix_of_append (ht : '[' ∉ text) (h : ("\\[" : Text) <:+: text ++ after) :
    text.getLast? = some '\\' ∧ after.head? = some '[' ∨ ("\\[" : Text) <:+: after := by
  induction text with
  | nil => exact .inr h
  | cons c text ih =>
    rw [List.mem_cons, not_or] at ht
    rw [List.cons_append] at h
    rcases List.infix_cons_iff.1 h with ⟨rest, he⟩ | hrest
    · have he : '\\' :: '[' :: rest = c :: (text ++ after) := he
      obtain ⟨rfl, hbracket⟩ := List.cons.inj he
      cases text with
      | nil => exact .inl ⟨rfl, congrArg List.head? hbracket.symm⟩
      | cons d text => exact absurd (List.mem_cons.2 (.inl (List.cons.inj hbracket).1)) ht.2
    · refine (ih ht.2 hrest).imp_left fun ⟨hlast, hhead⟩ => ⟨?_, hhead⟩
      rw [List.getLast?_cons, hlast]
      rfl

/-- Quotation puts no backslash before a bracket. -/
theorem infix_of_flatMap_quotedChar (hq : IsQuote quote)
    (h : ("\\[" : Text) <:+: text.flatMap (quotedChar quote)) : ("\\[" : Text) <:+: text := by
  induction text with
  | nil => exact h
  | cons c text ih =>
    rw [List.flatMap_cons] at h
    rcases quotedChar_cases hq c with ⟨hc, hne⟩ | ⟨d, rest, hc, -, -, hall, hlast⟩ <;>
      rw [hc] at h
    · rcases List.infix_cons_iff.1 h with hstart | hrest
      · exact absurd (List.cons_prefix_cons.1 hstart).1.symm hne
      · exact List.infix_cons (ih hrest)
    · have hopen : '[' ∉ '\\' :: d :: rest := fun hm => absurd (hall '[' hm) (by decide)
      rcases infix_of_append hopen h with ⟨hslash, hhead⟩ | hrest
      · cases text with
        | nil => contradiction
        | cons e text =>
          rw [hlast hslash]
          rcases quotedChar_cases hq e with ⟨he, -⟩ | ⟨f, after, he, -⟩ <;>
            rw [List.flatMap_cons, he] at hhead
          · exact ⟨[], text, by rw [Option.some.inj hhead]; rfl⟩
          · exact absurd (Option.some.inj hhead) (by decide)
      · exact List.infix_cons (ih hrest)

theorem infix_of_quoted (h : ("\\[" : Text) <:+: Text.quoted text) :
    ("\\[" : Text) <:+: text := by
  have hq := Text.isQuote_quoteMark text
  obtain ⟨hmark, -, -, hslash⟩ := inTag_of_isQuote hq
  rw [Text.quoted, List.cons_append] at h
  rcases List.infix_cons_iff.1 h with hstart | h
  · exact absurd (List.cons_prefix_cons.1 hstart).1.symm hslash
  rcases List.infix_concat_iff.1 h with ⟨before, hend⟩ | h
  · have hlast := congrArg List.getLast? hend
    rw [List.getLast?_concat, List.getLast?_append] at hlast
    exact absurd (Option.some.inj hlast).symm (inTag_iff.1 hmark).1
  · exact infix_of_flatMap_quotedChar hq h

end ThemeMarkup.Markup
