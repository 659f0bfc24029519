import Mathlib
import ThemeMarkup.Proofs.Label.Token

namespace ThemeMarkup.Markup

variable {markup : Markup} {plain : Text → Text} {text body after pending : Text} {c : Char}
  {ts us : List Token}

def Token.escaped : Token → Token
  | .char c => .char c
  | .tag slashes body => .tag (2 * slashes + 1) body

theorem map_escaped_chars (text : Text) :
    (text.map Token.char).map Token.escaped = text.map .char :=
  List.map_map

theorem flatMap_escape (ts : List Token) :
    ts.flatMap Token.escape = written (ts.map Token.escaped) := by
  rw [written, List.flatMap_map]
  congr 1
  funext token
  cases token <;> rfl

theorem keepsReading_escaped : KeepsReading fun token => [token.escaped] where
  char _ := .inl rfl
  tag slashes body := ⟨2 * slashes + 1, body, rfl, id⟩

theorem IsRead.map_escaped (h : IsRead ts) : IsRead (ts.map Token.escaped) := by
  rw [List.map_eq_flatMap]
  exact keepsReading_escaped.isRead_flatMap h

theorem count_map_escaped (ts : List Token) :
    (ts.map Token.escaped).count (.char '[') = ts.count (.char '[') := by
  rw [List.map_eq_flatMap]
  exact keepsReading_escaped.count_flatMap ts

theorem mem_written_escaped_iff (hc : c ≠ '\\') :
    c ∈ written ((tokens text).map Token.escaped) ↔ c ∈ text := by
  have hsource (token : Token) : c ∈ token.escaped.source ↔ c ∈ token.source := by
    cases token with
    | char d => rfl
    | tag slashes body => simp [Token.escaped, Token.source, List.mem_replicate, hc]
  have hwritten : c ∈ written ((tokens text).map Token.escaped) ↔ c ∈ written (tokens text) := by
    simp only [written, List.flatMap_map, List.mem_flatMap, hsource]
  rw [hwritten, written_tokens]

def tagsOf (ts : List Token) : List Text :=
  ts.filterMap fun
    | .char _ => none
    | .tag _ body => some body

def tags (text : Text) : List Text :=
  tagsOf (tokens text)

theorem eq_chars_of_tagsOf (h : tagsOf ts = []) : ts = (written ts).map .char := by
  induction ts with
  | nil => rfl
  | cons token ts ih =>
    cases token with
    | char c =>
      have hrest : tagsOf ts = [] := h
      rw [written_char, List.map_cons, ← ih hrest]
    | tag slashes body => exact absurd h (List.cons_ne_nil _ _)

theorem tokens_of_tags (h : tags text = []) : tokens text = text.map .char := by
  have he := eq_chars_of_tagsOf h
  rwa [written_tokens] at he

theorem IsRead.exists_tag (h : IsRead ts) (hm : body ∈ tagsOf ts) :
    IsTag body ∧ bracketed body <:+: written ts := by
  induction ts with
  | nil => contradiction
  | cons token ts ih =>
    cases token with
    | char c =>
      have hrest : body ∈ tagsOf ts := hm
      obtain ⟨htag, hpart⟩ := ih h.2.2 hrest
      exact ⟨htag, hpart.trans (List.suffix_cons _ _).isInfix⟩
    | tag slashes other =>
      rcases List.mem_cons.1 hm with rfl | hrest
      · exact ⟨h.1, ⟨List.replicate slashes '\\', written ts, by simp⟩⟩
      · obtain ⟨htag, before, after, he⟩ := ih h.2 hrest
        refine ⟨htag, List.replicate slashes '\\' ++ bracketed other ++ before, after, ?_⟩
        rw [written_tag, ← he]
        simp

theorem IsRead.of_append (h : IsRead (ts ++ us)) : IsRead us := by
  induction ts with
  | nil => exact h
  | cons token ts ih =>
    cases token with
    | char c => exact ih h.2.2
    | tag slashes body => exact ih h.2

theorem opensTag_chars (h : IsTag body) (after : Text) :
    opensTag ((body ++ ']' :: after).map .char) = true := by
  obtain ⟨c, rest, rfl, hc, hrest⟩ := h
  have hcloses : closes ((rest ++ ']' :: after).map .char) = true := by
    rw [← head?_dropWhile_written, written_chars, List.dropWhile_append_of_pos hrest]
    simp [inTag]
  rw [List.cons_append, List.map_cons, opensTag, hc, hcloses]
  rfl

theorem tags_eq_nil_iff : tags text = [] ↔ ∀ body, IsTag body → ¬ bracketed body <:+: text := by
  constructor
  · rintro h body hbody ⟨before, after, rfl⟩
    have hread := isRead_tokens (before ++ bracketed body ++ after)
    have htext : before ++ bracketed body ++ after = before ++ '[' :: (body ++ ']' :: after) := by
      simp [bracketed]
    rw [tokens_of_tags h, htext, List.map_append] at hread
    have hclosed := hread.of_append.2.1 rfl
    rw [opensTag_chars hbody after] at hclosed
    contradiction
  · intro h
    refine List.eq_nil_iff_forall_not_mem.2 fun body hm => ?_
    obtain ⟨htag, hpart⟩ := (isRead_tokens text).exists_tag hm
    rw [written_tokens] at hpart
    exact h body htag hpart

/-- Opening brackets are those of the tags and those outside tags. -/
theorem IsRead.count_written (h : IsRead ts) :
    (written ts).count '[' = ts.count (.char '[') + (tagsOf ts).length := by
  induction ts with
  | nil => rfl
  | cons token ts ih =>
    cases token with
    | char c =>
      have ih := ih h.2.2
      by_cases hc : c = '['
      · subst hc
        simp only [written_char, List.count_cons_self, ih, tagsOf, List.filterMap_cons]
        omega
      · have hne : Token.char c ≠ .char '[' := fun he => hc (Token.char.inj he)
        rw [written_char, List.count_cons_of_ne hc, List.count_cons_of_ne hne, ih]
        rfl
    | tag slashes body =>
      have ih := ih h.2
      have hbody : body.count '[' = 0 := List.count_eq_zero.2 fun hm =>
        absurd rfl (inTag_iff.1 (h.1.inTag '[' hm)).1
      have hne : Token.tag slashes body ≠ .char '[' := by simp
      rw [List.count_cons_of_ne hne]
      simp [bracketed, hbody, ih, tagsOf, List.count_replicate]
      omega

/-- Whether the tags that are no literal text open styles named by letters and close them again, the
one opened last first. -/
def nests (opened : List Text) : List Token → Bool
  | [] => true
  | .char _ :: ts => nests opened ts
  | .tag slashes body :: ts =>
    if slashes % 2 = 1 then nests opened ts
    else
      match body, opened with
      | '/' :: name, style :: opened => name = style && nests opened ts
      | '/' :: _, [] => false
      | name, opened => name.all (fun c => 'a' ≤ c && c ≤ 'z') && nests (name :: opened) ts

theorem nests_chars (opened : List Text) (text : Text) (ts : List Token) :
    nests opened (text.map .char ++ ts) = nests opened ts := by
  induction text with
  | nil => rfl
  | cons c text ih => exact ih

/-- What is known of a markup language that shows plain text as `plain` gives it. -/
structure Laws (markup : Markup) (plain : Text → Text) : Prop where
  /-- Escaping doubles the backslashes before each tag and adds one; a backslash that ends the text
  may be doubled as well. -/
  escape_eq : ∀ text, ∃ ending,
    markup.escape text = (tokens text).flatMap Token.escape ++ ending ∧
      (ending = [] ∨ ending = ['\\'] ∧ text.getLast? = some '\\')
  /-- Rendering shows half of the backslashes before a tag, and the tag itself as literal text just
  if their number is odd. -/
  eq_shown : ∀ text result, markup.render text = .ok result → result = shown plain text
  exists_render : ∀ text, nests [] (tokens text) = true →
    ∃ result, markup.render text = .ok result
  plain_space : ∀ before after, plain (before ++ ' ' :: after) = plain before ++ ' ' :: plain after
  count_plain : ∀ text, (plain text).count '[' = text.count '['
  /-- Plain text is shown as it is, but for the backslashes before opening brackets, for what stands
  between two colons and for characters that are not printable. -/
  plain_eq_self : ∀ text, text.count ':' ≤ 1 → ¬ ("\\[" : Text) <:+: text →
    (∀ c ∈ text, Text.isPrintable c = true) → plain text = text

theorem Laws.plain_nil (h : markup.Laws plain) : plain [] = [] :=
  h.plain_eq_self [] (Nat.zero_le 1) (by simp) (by simp)

theorem shownFrom_chars (plain : Text → Text) (pending text : Text) (ts : List Token) :
    shownFrom plain pending (text.map .char ++ ts) =
      shownFrom plain (text.reverse ++ pending) ts := by
  induction text generalizing pending with
  | nil => rfl
  | cons c text ih =>
    rw [List.map_cons, List.cons_append, shownFrom, ih, List.reverse_cons, List.append_assoc]
    rfl

theorem shownFrom_style (plain : Text → Text) (pending body : Text) (ts : List Token) :
    shownFrom plain pending (.tag 0 body :: ts) =
      plain pending.reverse ++ shownFrom plain [] ts := by
  rw [shownFrom, if_neg (by decide), Nat.zero_div, List.replicate_zero, List.append_nil,
    List.append_nil]

def AreStyles (ts : List Token) : Prop :=
  ∀ slashes body, .tag slashes body ∈ ts → slashes % 2 = 0

theorem tag_not_mem_chars {slashes : Nat} : .tag slashes body ∉ text.map Token.char := by
  intro hm
  obtain ⟨c, -, hc⟩ := List.mem_map.1 hm
  contradiction

theorem AreStyles.count_shownFrom (h : AreStyles ts)
    (hp : ∀ text, (plain text).count '[' = text.count '[') :
    (shownFrom plain pending ts).count '[' = pending.count '[' + ts.count (.char '[') := by
  induction ts generalizing pending with
  | nil => rw [shownFrom, hp, List.count_reverse, List.count_nil, Nat.add_zero]
  | cons token ts ih =>
    have hrest : AreStyles ts := fun slashes body hm => h slashes body (List.mem_cons_of_mem _ hm)
    cases token with
    | char c =>
      have hsame : (Token.char c == .char '[') = (c == '[') := by
        rw [Bool.eq_iff_iff, beq_iff_eq, beq_iff_eq, Token.char.injEq]
      rw [shownFrom, ih hrest, List.count_cons, List.count_cons, hsame]
      omega
    | tag slashes body =>
      have heven := h slashes body List.mem_cons_self
      have hne : Token.tag slashes body ≠ .char '[' := by simp
      rw [shownFrom, if_neg (by omega), List.count_cons_of_ne hne, List.append_nil,
        List.count_append, List.count_append, hp, List.count_reverse, ih hrest]
      simp [List.count_replicate]

theorem unslash_append (ha : after.head? ≠ some '[') (text : Text) :
    unslash (text ++ after) = unslash text ++ unslash after := by
  fun_induction unslash text with
  | case1 text ih => rw [List.cons_append, List.cons_append, unslash, ih, List.cons_append]
  | case2 c text hne ih =>
    rw [List.cons_append, List.cons_append, ← ih]
    by_cases hc : c = '\\'
    · subst hc
      rw [unslash]
      rintro rest - he
      cases text with
      | nil =>
        rw [List.nil_append] at he
        exact ha (by rw [he]; rfl)
      | cons d text =>
        obtain ⟨rfl, -⟩ := List.cons.inj he
        exact hne text rfl rfl
    · exact unslash_cons hc _
  | case3 => rfl

theorem unslash_eq_self (h : ¬ ("\\[" : Text) <:+: text) : unslash text = text := by
  fun_induction unslash text with
  | case1 text ih => exact absurd ⟨[], text, rfl⟩ h
  | case2 c text hne ih => rw [ih fun hpart => h (List.infix_cons hpart)]
  | case3 => rfl

theorem getLast?_of_written_escaped (h : (written (ts.map Token.escaped)).getLast? = some '\\') :
    (written ts).getLast? = some '\\' := by
  rcases List.eq_nil_or_concat' ts with rfl | ⟨before, token, rfl⟩
  · contradiction
  · rw [List.map_append, written_append, List.getLast?_append] at h
    rw [written_append, List.getLast?_append]
    cases token with
    | char c => exact h
    | tag slashes body =>
      have hclose : (written [(Token.tag slashes body).escaped]).getLast? = some ']' := by
        simp [Token.escaped, bracketed, List.getLast?_append, List.getLast?_cons]
      rw [List.map_singleton, hclose, Option.some_or] at h
      exact absurd (Option.some.inj h) (by decide)

theorem laws_unstyled : unstyled.Laws unslash where
  escape_eq text := by
    have hlast (h : ((tokens text).flatMap Token.escape).getLast? = some '\\') :
        text.getLast? = some '\\' := by
      rw [flatMap_escape] at h
      have hwritten := getLast?_of_written_escaped h
      rwa [written_tokens] at hwritten
    rw [unstyled]
    dsimp only
    split
    · exact ⟨[], (List.append_nil _).symm, .inl rfl⟩
    · next h =>
      refine ⟨['\\'], rfl, .inr ⟨rfl, hlast ?_⟩⟩
      rw [← List.head?_reverse, h]
      rfl
    · exact ⟨[], (List.append_nil _).symm, .inl rfl⟩
  eq_shown _ _ h := (Except.ok.inj h).symm
  exists_render _ _ := ⟨_, rfl⟩
  plain_space before after := by
    rw [unslash_append (by simp), unslash_cons (by decide)]
  count_plain := count_unslash
  plain_eq_self _ _ h _ := unslash_eq_self h

end ThemeMarkup.Markup
