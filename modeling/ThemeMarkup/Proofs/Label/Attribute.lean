import Mathlib
import ThemeMarkup.Label.Outline
import ThemeMarkup.Proofs.Label.Quotation

namespace ThemeMarkup

open Markup

namespace Span

variable {c : Char} {n : Int}

def coordinates (span : Span) : Text :=
  Text.ofInt span.firstLine ++ ":" ++ Text.ofInt span.firstColumn ++ " [" ++
    Text.ofInt span.first ++ ", " ++
    Text.ofInt span.last ++ "]"

theorem isDigit_of_mem_ofInt (h : c ∈ Text.ofInt n) : c.isDigit = true ∨ c = '-' := by
  have hdigits {n : Nat} (h : c ∈ Text.ofNat n) : c.isDigit = true :=
    Text.forall_mem_ofNat (p := (·.isDigit = true)) (by decide) n c h
  cases n with
  | ofNat n => exact .inl (hdigits h)
  | negSucc n => exact (List.mem_cons.1 h).symm.imp_left hdigits

theorem exists_ofInt_eq_cons (n : Int) :
    ∃ c text, Text.ofInt n = c :: text ∧ isTagStart c = false := by
  have hne : Text.ofInt n ≠ [] := by
    cases n with
    | ofNat n => exact Nat.toDigits_ne_nil
    | negSucc n => exact List.cons_ne_nil _ _
  obtain ⟨c, text, hn⟩ := List.exists_cons_of_ne_nil hne
  refine ⟨c, text, hn, ?_⟩
  rcases isDigit_of_mem_ofInt (hn ▸ List.mem_cons_self) with hd | rfl
  · exact isTagStart_of_isDigit hd
  · rfl

theorem not_mem_ofInt (hd : c.isDigit = false) (hc : c ≠ '-') : c ∉ Text.ofInt n := fun h =>
  (isDigit_of_mem_ofInt h).elim (fun h => by rw [hd] at h; contradiction) hc

theorem isPrintable_of_mem_coordinates {span : Span} (h : c ∈ span.coordinates) :
    Text.isPrintable c = true ∧ c ≠ '\\' := by
  have hnumber {n : Int} (h : c ∈ Text.ofInt n) : Text.isPrintable c = true ∧ c ≠ '\\' := by
    rcases isDigit_of_mem_ofInt h with hd | rfl
    · refine ⟨Text.isPrintable_of_isAlphanum (by simp [Char.isAlphanum, hd]), ?_⟩
      rintro rfl
      contradiction
    · decide
  have hparts : (c ∈ Text.ofInt span.firstLine ∨ c ∈ Text.ofInt span.firstColumn ∨
      c ∈ Text.ofInt span.first ∨ c ∈ Text.ofInt span.last) ∨
      (c = ':' ∨ c = ' ' ∨ c = '[' ∨ c = ',' ∨ c = ']') := by
    grind [coordinates]
  rcases hparts with (h | h | h | h) | rfl | rfl | rfl | rfl | rfl
  · exact hnumber h
  · exact hnumber h
  · exact hnumber h
  · exact hnumber h
  all_goals decide

theorem count_coordinates (span : Span) : span.coordinates.count ':' = 1 := by
  have hnumber (n : Int) : (Text.ofInt n).count ':' = 0 :=
    List.count_eq_zero.2 (not_mem_ofInt (by decide) (by decide))
  simp [coordinates, hnumber]

theorem plain_coordinates {markup : Markup} {plain : Text → Text} (h : markup.Laws plain)
    (span : Span) : plain span.coordinates = span.coordinates := by
  refine h.plain_eq_self _ span.count_coordinates.le ?_ fun c hc =>
    (isPrintable_of_mem_coordinates hc).1
  intro hpart
  exact (isPrintable_of_mem_coordinates (hpart.subset List.mem_cons_self)).2 rfl

theorem isRead_coordinates (span : Span) :
    IsRead (span.coordinates.map .char ++ [.tag 0 "/dim"]) := by
  have htag : IsTag "/dim" := ⟨'/', "dim".toList, rfl, rfl, by simp [inTag]⟩
  have hnumber {n : Int} : '[' ∉ Text.ofInt n := not_mem_ofInt (by decide) (by decide)
  have hlast : IsRead ((Text.ofInt span.first ++ ", " ++ Text.ofInt span.last ++ "]").map .char ++
      [.tag 0 "/dim"]) := by
    refine IsRead.chars_append ⟨htag, trivial⟩ (by simp [hnumber]) fun h => ?_
    exact absurd (List.getLast?_concat.symm.trans h) (by decide)
  have hopen : IsRead (.char '[' ::
      ((Text.ofInt span.first ++ ", " ++ Text.ofInt span.last ++ "]").map .char ++
        [.tag 0 "/dim"])) := by
    refine ⟨fun h => absurd h (by decide), fun _ => ?_, hlast⟩
    obtain ⟨c, text, hc, hstart⟩ := exists_ofInt_eq_cons span.first
    rw [hc]
    simp [opensTag, hstart]
  have hbefore : '[' ∉ Text.ofInt span.firstLine ++ ":" ++ Text.ofInt span.firstColumn ++ " " := by
    simp [hnumber]
  simpa [coordinates] using hopen.chars_append hbefore fun _ => rfl

end Span

namespace Piece

variable {markup : Markup} {plain : Text → Text} {piece : Piece} {ending pending : Text}

/-- The place of a node, as its label shows it: none if it is not located. -/
def place (piece : Piece) : Text :=
  if piece.span.isLocated then ' ' :: piece.span.coordinates else []

def placeTokens (piece : Piece) : List Token :=
  if piece.span.isLocated then
    .char ' ' :: .tag 0 "dim" :: (piece.span.coordinates.map .char ++ [.tag 0 "/dim"])
  else []

/-- The stretches of the label of an attribute, if escaping puts `ending` after the content. -/
def labelTokens (piece : Piece) (ending : Text) : List Token :=
  .tag 0 "magenta" :: ("attribute".toList.map .char ++ .tag 0 "/magenta" ::
    .char ' ' :: (quotedTokens piece.content ending ++ piece.placeTokens))

theorem isRead_placeTokens (piece : Piece) : IsRead piece.placeTokens := by
  rw [placeTokens]
  split
  · exact ⟨fun h => absurd h (by decide), fun h => absurd h (by decide),
      ⟨'d', "im".toList, rfl, rfl, by simp [inTag]⟩, piece.span.isRead_coordinates⟩
  · trivial

theorem isRead_labelTokens (piece : Piece) (he : ∀ c ∈ ending, c = '\\') :
    IsRead (piece.labelTokens ending) := by
  have hquoted : IsRead (quotedTokens piece.content ending ++ piece.placeTokens) := by
    refine (isRead_quotedTokens he piece.content).append piece.isRead_placeTokens ?_ ?_ <;>
      · rw [placeTokens]
        split <;> rfl
  have hends : IsRead (.tag 0 "/magenta" :: .char ' ' ::
      (quotedTokens piece.content ending ++ piece.placeTokens)) :=
    ⟨⟨'/', "magenta".toList, rfl, rfl, by simp [inTag]⟩, fun h => absurd h (by decide),
      fun h => absurd h (by decide), hquoted⟩
  exact ⟨⟨'m', "agenta".toList, rfl, rfl, by simp [inTag]⟩,
    hends.chars_append (by simp) fun h => absurd h (by decide)⟩

theorem exists_tokens_label (h : markup.Laws plain) (hb : piece.isBody = false)
    (ha : piece.isAttribute = true) :
    ∃ ending, (∀ c ∈ ending, c = '\\') ∧ tokens (piece.label markup) = piece.labelTokens ending ∧
      markup.escape piece.content =
        written ((tokens piece.content).map Token.escaped) ++ ending := by
  obtain ⟨ending, hescape, hending⟩ := h.escape_eq piece.content
  have hslash : ∀ c ∈ ending, c = '\\' := by
    rcases hending with rfl | ⟨rfl, -⟩ <;> simp
  rw [flatMap_escape] at hescape
  refine ⟨ending, hslash, ?_, hescape⟩
  have hwritten : written (piece.labelTokens ending) = piece.label markup := by
    rw [label, kindLabel, hb, ha, labelTokens, placeTokens, hescape]
    cases piece.span.isLocated <;>
      simp [written_quotedTokens hslash, bracketed, Span.coordinates]
  rw [← hwritten, tokens_written (piece.isRead_labelTokens hslash)]

theorem shownFrom_placeTokens (h : markup.Laws plain) (pending : Text) (piece : Piece) :
    shownFrom plain pending piece.placeTokens = plain pending.reverse ++ piece.place := by
  rw [placeTokens, place]
  split
  · rw [shownFrom, shownFrom_style, shownFrom_chars, shownFrom_style, List.append_nil,
      List.reverse_reverse, piece.span.plain_coordinates h, List.reverse_cons,
      h.plain_space pending.reverse [], h.plain_nil, shownFrom, List.reverse_nil, h.plain_nil]
    simp
  · rw [shownFrom, List.append_nil]

theorem areStyles_labelTokens (piece : Piece) (ending : Text) :
    AreStyles (piece.labelTokens ending) := by
  have hplace : AreStyles piece.placeTokens := by
    rw [placeTokens]
    split
    · intro slashes body hm
      simp only [List.mem_cons, List.mem_append, List.not_mem_nil, tag_not_mem_chars, reduceCtorEq,
        Token.tag.injEq, false_or, or_false] at hm
      rcases hm with ⟨rfl, -⟩ | ⟨rfl, -⟩ <;> rfl
    · exact fun _ _ hm => absurd hm List.not_mem_nil
  intro slashes body hm
  simp only [labelTokens, List.mem_cons, List.mem_append, tag_not_mem_chars, reduceCtorEq,
    Token.tag.injEq, false_or] at hm
  rcases hm with ⟨rfl, -⟩ | ⟨rfl, -⟩ | hm | hm
  · rfl
  · rfl
  · exact areStyles_quotedTokens piece.content ending slashes body hm
  · exact hplace slashes body hm

theorem count_shown_label (h : markup.Laws plain) (hb : piece.isBody = false)
    (ha : piece.isAttribute = true) :
    (shown plain (piece.label markup)).count '[' + (tags piece.content).length =
      piece.content.count '[' + piece.place.count '[' := by
  obtain ⟨ending, hslash, htokens, -⟩ := exists_tokens_label h hb ha
  have hcontent := (isRead_tokens piece.content).count_written
  rw [written_tokens] at hcontent
  have hplace : piece.placeTokens.count (.char '[') = piece.place.count '[' := by
    rw [placeTokens, place]
    split <;> simp [count_chars]
  have hlabel : (piece.labelTokens ending).count (.char '[') =
      (tokens piece.content).count (.char '[') + piece.place.count '[' := by
    rw [← count_quotedTokens hslash, ← hplace, ← List.count_append]
    simp [labelTokens]
  rw [shown, htokens, (piece.areStyles_labelTokens ending).count_shownFrom h.count_plain,
    List.count_nil, hlabel, hcontent, tags]
  omega

theorem shown_label_of_tags (h : markup.Laws plain) (hb : piece.isBody = false)
    (ha : piece.isAttribute = true) (ht : tags piece.content = []) :
    shown plain (piece.label markup) =
      "attribute " ++ plain (Text.quoted (markup.escape piece.content)) ++ piece.place := by
  obtain ⟨ending, hslash, htokens, hescape⟩ := exists_tokens_label h hb ha
  rw [tokens_of_tags ht, map_escaped_chars, written_chars] at hescape
  have hletters : "attribute".toList.all Char.isAlphanum = true := rfl
  have hword : plain "attribute".toList = "attribute" :=
    h.plain_eq_self _ (by decide) (by decide) fun c hc =>
      Text.isPrintable_of_isAlphanum (List.all_eq_true.1 hletters c hc)
  rw [shown, htokens, labelTokens, shownFrom_style, shownFrom_chars, shownFrom_style, shownFrom,
    quotedTokens_of_tags hslash ht, shownFrom_chars, shownFrom_placeTokens h, ← hescape,
    List.reverse_append, List.reverse_append, List.reverse_reverse, List.reverse_reverse,
    List.reverse_nil, List.nil_append, h.plain_nil, List.reverse_singleton, hword]
  have hspace := h.plain_space [] (Text.quoted (markup.escape piece.content))
  rw [h.plain_nil, List.nil_append] at hspace
  rw [List.singleton_append, hspace]
  simp

theorem exists_render_label (h : markup.Laws plain) (hb : piece.isBody = false)
    (ha : piece.isAttribute = true) (ht : tags piece.content = []) :
    ∃ result, markup.render (piece.label markup) = .ok result := by
  obtain ⟨ending, hslash, htokens, -⟩ := exists_tokens_label h hb ha
  have hplace : nests [] piece.placeTokens = true := by
    rw [placeTokens]
    split
    · have hrest := nests_chars ["dim"] piece.span.coordinates [.tag 0 "/dim"]
      exact hrest.trans rfl
    · rfl
  apply h.exists_render
  rw [htokens, labelTokens, quotedTokens_of_tags hslash ht]
  exact (nests_chars [] _ piece.placeTokens).trans hplace

end Piece

/-- Whether nothing in a text is taken for more than plain characters but for tags: no backslash
stands before an opening bracket or at the end, and there are no two colons. -/
structure Markup.IsPlain (text : Text) : Prop where
  colons : text.count ':' ≤ 1
  bracket : ¬ ("\\[" : Text) <:+: text
  ending : text.getLast? ≠ some '\\'

theorem Markup.Laws.plain_quoted_escape {markup : Markup} {plain : Text → Text} {text : Text}
    (h : markup.Laws plain) (hp : IsPlain text) (ht : tags text = []) :
    plain (Text.quoted (markup.escape text)) = Text.quoted text := by
  have hescape : markup.escape text = text := by
    obtain ⟨ending, hescape, rfl | ⟨-, hlast⟩⟩ := h.escape_eq text
    · rw [hescape, flatMap_escape, tokens_of_tags ht, map_escaped_chars, written_chars,
        List.append_nil]
    · exact absurd hlast hp.ending
  rw [hescape]
  refine h.plain_eq_self _ ?_ (fun hpart => hp.bracket (infix_of_quoted hpart)) fun c hc =>
    Text.isPrintable_of_mem_quoted hc
  rw [Text.count_quoted (by decide) (by decide) (by simp [Text.IsQuote])]
  exact hp.colons

/-- The label of an attribute shows the quoted content and the place just if nothing in the content
is written as a tag and the quoted content is shown as it is, being plain text then; it is if the
content is plain. Whatever the label shows lacks one opening bracket for each tag in the content. -/
theorem Piece.render_label {markup : Markup} {plain : Text → Text} (h : markup.Laws plain)
    (piece : Piece) (hb : piece.isBody = false) (ha : piece.isAttribute = true) :
    let expected := "attribute " ++ Text.quoted piece.content ++ piece.place
    (markup.render (piece.label markup) = .ok expected ↔
      (∀ body, IsTag body → ¬ bracketed body <:+: piece.content) ∧
        plain (Text.quoted (markup.escape piece.content)) = Text.quoted piece.content) ∧
    (IsPlain piece.content → (markup.render (piece.label markup) = .ok expected ↔
      ∀ body, IsTag body → ¬ bracketed body <:+: piece.content)) ∧
    ∀ shown, markup.render (piece.label markup) = .ok shown →
      shown.count '[' + (tags piece.content).length =
        piece.content.count '[' + piece.place.count '[' := by
  intro expected
  have hcount : ∀ shown, markup.render (piece.label markup) = .ok shown →
      shown.count '[' + (tags piece.content).length =
        piece.content.count '[' + piece.place.count '[' := by
    intro shown hshown
    rw [h.eq_shown _ _ hshown]
    exact count_shown_label h hb ha
  have hiff : markup.render (piece.label markup) = .ok expected ↔ tags piece.content = [] ∧
      plain (Text.quoted (markup.escape piece.content)) = Text.quoted piece.content := by
    constructor
    · intro hr
      have ht : tags piece.content = [] := by
        have hbrackets := hcount expected hr
        have hword : "attribute ".toList.count '[' = 0 := by simp
        dsimp only [expected] at hbrackets
        rw [List.append_assoc, List.count_append, List.count_append,
          Text.count_quoted (by decide) (by decide) (by simp [Text.IsQuote])] at hbrackets
        exact List.eq_nil_of_length_eq_zero (by omega)
      have hshown := h.eq_shown _ _ hr
      rw [shown_label_of_tags h hb ha ht, List.append_left_inj, List.append_right_inj] at hshown
      exact ⟨ht, hshown.symm⟩
    · rintro ⟨ht, hplain⟩
      obtain ⟨result, hr⟩ := exists_render_label h hb ha ht
      rw [hr, h.eq_shown _ _ hr, shown_label_of_tags h hb ha ht, hplain]
  rw [tags_eq_nil_iff] at hiff
  refine ⟨hiff, fun hp => ⟨fun hr => (hiff.1 hr).1, fun ht => hiff.2 ⟨ht, ?_⟩⟩, hcount⟩
  exact h.plain_quoted_escape hp (tags_eq_nil_iff.2 ht)

def Piece.subscripted : Piece :=
  { content := "d['a\\b'] == x[0]", isAttribute := true,
    span := Span.ofRange "<if d['a\\b'] == x[0]>" 0 22 }

theorem Piece.render_label_subscripted :
    unstyled.Laws unslash ∧ subscripted.isBody = false ∧ subscripted.isAttribute = true ∧
      IsPlain subscripted.content ∧
      (∀ body, IsTag body → ¬ bracketed body <:+: subscripted.content) ∧
      unstyled.render (subscripted.label unstyled) =
        .ok "attribute \"d['a\\\\b'] == x[0]\" 0:0 [0, 21]" := by
  have htags : tags subscripted.content = [] := by cbv
  have hplain : IsPlain subscripted.content := ⟨by decide, by decide, by decide⟩
  refine ⟨laws_unstyled, rfl, rfl, hplain, tags_eq_nil_iff.1 htags, ?_⟩
  rw [((render_label laws_unstyled subscripted rfl rfl).2.1 hplain).2 (tags_eq_nil_iff.1 htags)]
  cbv

/-- An attribute with a subscript that is written as a tag. -/
def Piece.indexed : Piece :=
  { content := "list[index]", isAttribute := true, span := Span.ofRange "<if list[index]>" 0 16 }

/-- The subscript is escaped for the label, but quotation doubles the backslash and the label shows
no subscript. -/
theorem Piece.label_indexed :
    unstyled.Laws unslash ∧ indexed.isBody = false ∧ indexed.isAttribute = true ∧
      indexed.label unstyled =
        "[magenta]attribute[/magenta] 'list\\\\[index]' [dim]0:0 [0, 15][/dim]" ∧
      unstyled.render (indexed.label unstyled) = .ok "attribute 'list\\' 0:0 [0, 15]" ∧
      "attribute " ++ Text.quoted indexed.content ++ indexed.place =
        "attribute 'list[index]' 0:0 [0, 15]".toList := by
  have hlabel : indexed.label unstyled =
      "[magenta]attribute[/magenta] 'list\\\\[index]' [dim]0:0 [0, 15][/dim]" := by cbv
  refine ⟨laws_unstyled, rfl, rfl, hlabel, ?_, by cbv⟩
  rw [hlabel]
  cbv

end ThemeMarkup
