import ThemeMarkup.Proofs.Marked.Tag
import ThemeMarkup.Proofs.Twin.Scan

namespace ThemeMarkup

open Marker (Aligned Decides IsForeign Kin Plainness Twin)

variable {p : Plainness} {Pair : Marker → Text → Text → Prop} {text text' : Text}

theorem List.Forall₂.exists_square {α β γ δ : Type} {R : α → β → Prop} {S : α → γ → Prop}
    {S' : β → δ → Prop} {T : γ → δ → Prop} {l : List α} {l' : List β} {m : List γ}
    (h : List.Forall₂ R l l') (hs : List.Forall₂ S l m)
    (hstep : ∀ a b c, R a b → S a c → ∃ d, S' b d ∧ T c d) :
    ∃ m', List.Forall₂ S' l' m' ∧ List.Forall₂ T m m' := by
  induction h generalizing m with
  | nil =>
    cases hs
    exact ⟨[], .nil, .nil⟩
  | cons hr _ ih =>
    cases hs with
    | cons hc hs =>
      obtain ⟨d, hd, ht⟩ := hstep _ _ _ hr hc
      obtain ⟨m', hm, hmore⟩ := ih hs
      exact ⟨d :: m', .cons hd hm, .cons ht hmore⟩

namespace Tag

theorem isInner_of_not_isForeign {c : Char} (h : ¬ IsForeign c) : isInner .usual c = true := by
  by_contra hin
  rw [isInner, Bool.not_eq_true, Bool.not_eq_false', List.contains_iff_mem] at hin
  have hmem : Text.lowerAscii c ∈ ['%', '\x7d'].map Text.lowerAscii := hin
  simp only [List.map_cons, List.map_nil, List.mem_cons, List.not_mem_nil, or_false] at hmem
  rcases hmem with hc | hc
  · rw [Delimiters.isCaseless_of_mem (by decide) c hc] at h
    exact h (by decide)
  · rw [Delimiters.isCaseless_of_mem (by decide) c hc] at h
    exact h (by decide)

theorem inQualifier_of_not_isForeign {c : Char} (h : ¬ IsForeign c) :
    inQualifier .usual c = true := by
  rw [inQualifier, isInner_of_not_isForeign h, Bool.true_and, Bool.not_eq_true']
  by_contra hb
  exact h (Marker.isForeign_of_isBlank (Text.isBlank_of_isAsciiBlank (Bool.not_eq_false _ ▸ hb)))

theorem afterQualifier_of_takeWhile_nil (h : text.takeWhile (inQualifier .usual) = []) :
    afterQualifier .usual (':' :: text) = [':' :: text] := by
  unfold afterQualifier
  split
  · next rest he =>
    obtain rfl := (List.cons.inj he).2
    dsimp only
    split
    · rfl
    · next hcons => exact absurd (h.symm.trans hcons) (List.cons_ne_nil _ _).symm
  · rfl

end Tag

variable [Marker.Serials]

namespace Code

/-- What is read of a code tag in twins: the same name, and payloads that are twins. -/
theorem mirrors_read? (Pair : Marker → Text → Text → Prop) :
    Found.Mirrors Pair (fun value value' => value.1 ∈ Standard.codeNames ∧ value'.1 = value.1 ∧
      Kin Pair value.2 value'.2) (read? ({} : DelimiterSet).code Standard.codeNames) where
  steady := steady_read? (by decide) Standard.codeNames
  braced := by
    rintro source ⟨name, payload⟩ rest h
    obtain ⟨blanks, -, -, he⟩ := spells_of_read? h
    obtain rfl := List.append_cancel_right he
    refine ⟨rfl, ?_⟩
    rw [List.getLast?_append]
    rfl
  reads := by
    intro p text text' h
    have hleft : ∀ c ∈ ({} : DelimiterSet).code.left, id c ≠ id '_' := by decide
    have hall : ∀ name ∈ ["$", ":", "#", "~"].map String.toList, ∀ c ∈ name, id c ≠ id '_' := by
      decide
    have hnames : List.Forall₂ (fun name name' => name ∈ Standard.codeNames ∧ name' = name)
        Standard.codeNames Standard.codeNames :=
      List.forall₂_same.2 fun name hn => ⟨hn, rfl⟩
    -- Each part is read or not in both texts alike: its letters begin no marker, and neither do
    -- those that end it.
    rw [read?, read?]
    rcases Option.Rel.none_or_some (h.after?_word hleft) with ⟨hx, hy⟩
      | ⟨rest, rest', hx, hy, hrest, -⟩
    · rw [hx, hy]
      exact .none
    rw [hx, hy]
    refine Option.Rel.findSome? ?_ (hrest.afterBlanks (by decide))
    intro body body' hbody
    refine Option.Rel.findSome? ?_ hnames
    rintro _ name ⟨hn, rfl⟩
    have hname := hall name (Standard.mem_codeNames_iff.1 hn)
    rcases Option.Rel.none_or_some (hbody.after?_word hname) with
      ⟨hx, hy⟩ | ⟨payload, payload', hx, hy, hpayload, -⟩
    · rw [hx, hy]
      exact .none
    rw [hx, hy]
    have hbrace : IsForeign '\x7d' := by decide
    have hword : ∀ d ∈ (['\x7d'] : Text), d ≠ '_' := by decide
    exact Option.Rel.map (fun hcut => ⟨⟨hn, rfl, hcut.1⟩, hcut.2⟩) (hpayload.cut?_word hbrace hword)

end Code

namespace Tag

variable {rest rest' : Text}

theorem twin_kinds (h : Twin p Pair text text') :
    List.Forall₂ (fun part part' => part'.1 = part.1 ∧ Twin p Pair part.2 part'.2) (kinds text)
      (kinds text') := by
  have hother {text : Text} (ht : text.head? ≠ some ':') : kinds text = [(.head, text)] := by
    cases text with
    | nil => rfl
    | cons c text =>
      rw [kinds]
      rintro text' he
      exact ht (congrArg List.head? he)
  by_cases hcolon : text.head? = some ':'
  · obtain ⟨rest, rfl⟩ := List.head?_eq_some_iff.1 hcolon
    obtain ⟨rest', rfl, hrest⟩ := h.exists_of_cons (by decide)
    exact .cons ⟨rfl, hrest⟩ (.cons ⟨rfl, h⟩ .nil)
  · rw [hother hcolon, hother (h.head?_eq ▸ hcolon)]
    exact .cons ⟨rfl, h⟩ .nil

theorem twin_afterQualifier (h : Twin p Pair text text') :
    List.Forall₂ (Twin p Pair) (afterQualifier .usual text) (afterQualifier .usual text') := by
  have hother {text : Text} (ht : text.head? ≠ some ':') : afterQualifier .usual text = [text] := by
    cases text with
    | nil => rfl
    | cons c text =>
      apply afterQualifier_of_ne
      rintro rfl
      exact ht rfl
  by_cases hcolon : text.head? = some ':'
  · obtain ⟨rest, rfl⟩ := List.head?_eq_some_iff.1 hcolon
    obtain ⟨rest', rfl, hrest⟩ := h.exists_of_cons (by decide)
    have htake := hrest.kin.takeWhile fun _ => inQualifier_of_not_isForeign
    cases hq : rest.takeWhile (inQualifier .usual) with
    | nil =>
      rw [afterQualifier_of_takeWhile_nil hq, afterQualifier_of_takeWhile_nil (htake.eq_nil.2 hq)]
      exact .cons h .nil
    | cons c inner =>
      have hne : rest'.takeWhile (inQualifier .usual) ≠ [] := by
        rw [ne_eq, htake.eq_nil, hq]
        exact List.cons_ne_nil c inner
      obtain ⟨c', inner', hq'⟩ := List.exists_cons_of_ne_nil hne
      rw [afterQualifier_of_takeWhile hq, afterQualifier_of_takeWhile hq']
      exact .cons (hrest.dropWhile fun _ => inQualifier_of_not_isForeign) (.cons h .nil)
  · rw [hother hcolon, hother (h.head?_eq ▸ hcolon)]
    exact .cons h .nil

theorem twin_readArgument? (h : Twin p Pair text text') :
    Option.Rel (fun read read' => Kin Pair read.1 read'.1 ∧ Twin p Pair read.2 read'.2)
      (readArgument? .usual text) (readArgument? .usual text') := by
  have hright : ∀ c ∈ Delimiters.usual.right, Text.lowerAscii c ≠ Text.lowerAscii '_' := by decide
  have hbare : Option.Rel (fun read read' => Kin Pair read.1 read'.1 ∧ Twin p Pair read.2 read'.2)
      ((Text.after? Text.lowerAscii Delimiters.usual.right text).map fun after => ([], after))
      ((Text.after? Text.lowerAscii Delimiters.usual.right text').map fun after => ([], after)) :=
    Option.Rel.map (fun hafter => ⟨.plain trivial, hafter.1⟩) (h.after?_word hright)
  have hnone {text : Text} (ht : ∀ c ∈ text.head?, Text.isAsciiBlank c = false) :
      readArgument? .usual text =
        (Text.after? Text.lowerAscii Delimiters.usual.right text).map fun after => ([], after) := by
    cases text with
    | nil => rfl
    | cons c text =>
      rw [readArgument?]
      simp only [ht c rfl, Bool.false_eq_true, if_false]
  cases hhead : text.head? with
  | none =>
    have hblank : ∀ d ∈ (none : Option Char), Text.isAsciiBlank d = false := fun d hd =>
      absurd hd (Option.not_mem_none d)
    rw [hnone (hhead ▸ hblank), hnone (h.head?_eq ▸ hhead ▸ hblank)]
    exact hbare
  | some c =>
    cases hc : Text.isAsciiBlank c with
    | false =>
      have hblank : ∀ d ∈ some c, Text.isAsciiBlank d = false := by
        rintro d ⟨⟩
        exact hc
      rw [hnone (hhead ▸ hblank), hnone (h.head?_eq ▸ hhead ▸ hblank)]
      exact hbare
    | true =>
      obtain ⟨rest, rfl⟩ := List.head?_eq_some_iff.1 hhead
      have hne : c ≠ '_' := by
        rintro rfl
        contradiction
      obtain ⟨rest', rfl, hrest⟩ := h.exists_of_cons hne
      have hdrop := hrest.dropWhile fun _ => isInner_of_not_isForeign
      have htake := hrest.kin.takeWhile fun _ => isInner_of_not_isForeign
      rw [readArgument?, readArgument?, hc]
      rcases Option.Rel.none_or_some (hdrop.after?_word hright) with ⟨hx, hy⟩
        | ⟨after, after', hx, hy, ha, -⟩
      · simp only [hx, hy, if_true, Option.map_none]
        exact hbare
      · simp only [hx, hy, if_true, Option.map_some]
        exact .some ⟨htake.cons c, ha⟩

/-- What is read of a node tag in twins: the same kind and name, and arguments that are twins. -/
theorem mirrors_read? (Pair : Marker → Text → Text → Prop) :
    Found.Mirrors Pair (fun w w' => w'.kind = w.kind ∧ w'.name = w.name ∧
      Kin Pair w.argument w'.argument)
      (read? .usual Standard.names) where
  steady := steady_read? (by decide) (by decide) Standard.names
  braced := by
    intro source w rest h
    obtain ⟨source', hspells, he⟩ := spells_of_read? h
    obtain rfl := List.append_cancel_right he
    exact isBraced_of_spells hspells
  reads := by
    intro p text text' h
    have hleft : ∀ c ∈ Delimiters.usual.left, Text.lowerAscii c ≠ Text.lowerAscii '_' := by decide
    have hall :
        ∀ name ∈ Standard.nodeNames, ∀ c ∈ name, Text.lowerAscii c ≠ Text.lowerAscii '_' := by
      decide
    have hnames : List.Forall₂ (fun name name' => name ∈ Standard.nodeNames ∧ name' = name)
        Standard.names Standard.names :=
      List.forall₂_same.2 fun name hn => ⟨Standard.mem_names_iff.1 hn, rfl⟩
    rw [read?, read?]
    rcases Option.Rel.none_or_some (h.after?_word hleft) with ⟨hx, hy⟩
      | ⟨rest, rest', hx, hy, hrest, -⟩
    · rw [hx, hy]
      exact .none
    rw [hx, hy]
    refine Option.Rel.findSome? ?_ (hrest.afterBlanks (by decide))
    intro body body' hbody
    refine Option.Rel.findSome? ?_ (twin_kinds hbody)
    rintro ⟨kind, body⟩ ⟨kind', body'⟩ ⟨hkind, hbody⟩
    obtain rfl : kind' = kind := hkind
    refine Option.Rel.findSome? ?_ (hbody.afterBlanks (by decide))
    intro body body' hbody
    refine Option.Rel.findSome? ?_ hnames
    rintro _ name ⟨hn, rfl⟩
    rcases Option.Rel.none_or_some (hbody.after?_word (hall name hn)) with
      ⟨hx, hy⟩ | ⟨rest, rest', hx, hy, hrest, htake⟩
    · rw [hx, hy]
      exact .none
    rw [hx, hy]
    refine Option.Rel.findSome? ?_ (twin_afterQualifier hrest)
    intro rest rest' hrest
    exact Option.Rel.map (fun hread => ⟨⟨rfl, htake, hread.1⟩, hread.2⟩) (twin_readArgument? hrest)

/-- Tags of one kind and name between aligned offsets of two texts, with arguments that are twins.
-/
structure Twins (Pair : Marker → Text → Text → Prop) (text text' : Text) (tag tag' : Tag) :
    Prop where
  kind : tag'.kind = tag.kind
  name : tag'.name = tag.name
  argument : Kin Pair tag.argument tag'.argument
  first : Aligned .hashes Pair text text' tag.span.first tag'.span.first
  stop : Aligned .hashes Pair text text' (tag.span.last + 1) (tag'.span.last + 1)

/-- The tags of two twins are twins. -/
theorem exists_scan_twins {suffix : Text} {tags : List Tag} (hd : Decides Pair)
    (h : Twin Marker.Core.hashes.plainness Pair text text')
    (hs : scan (Compiler.standard suffix).registry .usual text = .ok tags) :
    ∃ tags', scan (Compiler.standard suffix).registry .usual text' = .ok tags' ∧
      List.Forall₂ (Twins Pair text text') tags tags' := by
  have hfinds := (mirrors_read? Pair).scan hd h
  have hread := Except.mapM_eq_ok_iff.1 hs
  suffices hsquare : ∃ tags', List.Forall₂ _ _ tags' ∧
    List.Forall₂ (Twins Pair text text') tags tags' from
    hsquare.imp fun tags' hboth => ⟨Except.mapM_eq_ok_iff.2 hboth.1, hboth.2⟩
  refine List.Forall₂.exists_square hfinds hread ?_
  rintro found found' tag ⟨⟨hkind, hname, hargument⟩, hfirst, hstop⟩ htag
  cases hentry : (Compiler.standard suffix).registry.nodeTag (Text.lower found.value.name) with
  | error e =>
    simp only [hentry, bind, Except.bind] at htag
    contradiction
  | ok entry =>
    simp only [hentry, bind, Except.bind] at htag
    obtain rfl := Except.ok.inj htag
    simp only [hname, hentry, hkind, bind, Except.bind]
    refine ⟨_, rfl, rfl, rfl, ?_, hfirst, hstop⟩
    dsimp only
    split
    · exact hargument.strip
    · exact .plain trivial

end Tag

end ThemeMarkup
