import ThemeMarkup.Proofs.Pairing.Laminar
import ThemeMarkup.Proofs.Pairing.Substitution
import ThemeMarkup.Proofs.Tag.Grammar

namespace ThemeMarkup

namespace Tag.Layout

variable {names : List Text} {layout layout' : Layout}

theorem IsTag.exists_inner (hn : ∀ name ∈ names, IsWord name) (h : layout.IsTag names) :
    ∃ inner : Text, '%' ∉ inner ∧ layout.text = '\x7b' :: '%' :: (inner ++ ['%', '\x7d']) := by
  let inner := layout.blanks ++ (colon layout.kind ++ (layout.gap ++ (layout.name ++
    (layout.qualifier ++ layout.argument))))
  have hblank {text : Text} (ht : ∀ c ∈ text, Text.isAsciiBlank c = true) : '%' ∉ text := fun hm =>
    absurd (ht _ hm) (by decide)
  refine ⟨inner, ?_, by simp [text, rest, inner]⟩
  simp only [inner, List.mem_append, not_or]
  refine ⟨hblank h.blanks, by cases layout.kind <;> decide, hblank h.gap, ?_, ?_, ?_⟩
  · exact fun hm => absurd ((h.isWord hn).2 _ hm) (by decide)
  · rcases h.qualifier with hq | ⟨inner, -, hq, hi⟩
    · simp [hq]
    · rw [hq, List.mem_cons, not_or]
      exact ⟨by decide, fun hm => (hi _ hm).2.1 rfl⟩
  · rcases h.argument with ha | ⟨blank, inner, ha, hb, hi⟩
    · simp [ha]
    · rw [ha, List.mem_cons, not_or]
      refine ⟨?_, fun hm => (hi _ hm).1 rfl⟩
      rintro rfl
      contradiction

theorem not_opening_prefix {inner text after : Text} {c : Char} (hi : '%' ∉ inner) (hc : c ≠ '\x7d')
    {i : Nat} (hlt : i < inner.length + 2) :
    ¬ '\x7b' :: '%' :: c :: text <+: (inner ++ '%' :: '\x7d' :: after).drop i := by
  induction inner generalizing i with
  | nil =>
    match i, hlt with
    | 0, _ => simp
    | 1, _ => simp
  | cons e inner ih =>
    cases i with
    | succ i => exact ih (fun hm => hi (List.mem_cons_of_mem _ hm)) (by simpa using hlt)
    | zero =>
      cases inner with
      | nil => simp [hc]
      | cons e' inner =>
        intro hp
        obtain ⟨-, hp⟩ := List.cons_prefix_cons.1 hp
        obtain ⟨rfl, -⟩ := List.cons_prefix_cons.1 hp
        simp at hi

theorem IsTag.exists_letter (hn : ∀ name ∈ names, IsWord name) (h : layout.IsTag names)
    (hk : layout.kind = .head) :
    ∃ (blanks : Text) (c : Char) (rest : Text), (∀ c ∈ blanks, Text.isAsciiBlank c = true) ∧
      isLetter c = true ∧ layout.text = '\x7b' :: '%' :: (blanks ++ c :: rest) := by
  obtain ⟨blanks, hb, htext⟩ := h.exists_blanks
  have hfirst := head?_rest (h.isWord hn)
  obtain ⟨c, name, hname⟩ := List.exists_cons_of_ne_nil (h.isWord hn).1
  rw [rest, hname] at hfirst
  refine ⟨blanks, c, name ++ (layout.qualifier ++ (layout.argument ++ "%\x7d")), hb,
    hfirst c rfl, ?_⟩
  rw [htext, afterBlanks, hk]
  simp only [rest, hname]
  rfl

theorem IsTag.exists_colon (h : layout.IsTag names) (hk : layout.kind = .tail) :
    ∃ blanks rest : Text, (∀ c ∈ blanks, Text.isAsciiBlank c = true) ∧
      layout.text = '\x7b' :: '%' :: (blanks ++ ':' :: rest) := by
  obtain ⟨blanks, hb, htext⟩ := h.exists_blanks
  refine ⟨blanks, layout.gap ++ layout.rest, hb, ?_⟩
  rw [htext, afterBlanks, hk]
  rfl

theorem IsTag.not_prefix_drop (hn : ∀ name ∈ names, IsWord name) (h : layout.IsTag names)
    (h' : layout'.IsTag names) (hk : layout.kind = .tail) (hk' : layout'.kind = .head) {i : Nat}
    (hlt : i < layout.text.length) (after : Text) :
    ¬ layout'.text <+: (layout.text ++ after).drop i := by
  obtain ⟨blanks', c, rest', hb', hletter, htext'⟩ := h'.exists_letter hn hk'
  rw [htext']
  match i with
  | 0 =>
    obtain ⟨blanks, rest, hb, htext⟩ := h.exists_colon hk
    rintro ⟨more, he⟩
    rw [htext] at he
    simp only [List.drop_zero, List.cons_append, List.append_assoc, List.cons.injEq, true_and] at he
    have hstop (d : Char) (hd : Text.isAsciiBlank d = false) (rest : Text) :
        ∀ e ∈ (d :: rest).head?, Text.isAsciiBlank e = false := by
      rintro e ⟨⟩
      exact hd
    obtain ⟨-, hafter⟩ := Text.eq_of_append_eq he hb' hb
      (hstop c (not_isAsciiBlank_of_isLetter hletter) _) (hstop ':' rfl _)
    obtain ⟨rfl, -⟩ := List.cons.inj hafter
    contradiction
  | 1 =>
    obtain ⟨inner, -, htext⟩ := h.exists_inner hn
    rw [htext]
    simp
  | i + 2 =>
    obtain ⟨inner, hi, htext⟩ := h.exists_inner hn
    have hnext : ∃ d more, blanks' ++ c :: rest' = d :: more ∧ d ≠ '\x7d' := by
      cases blanks' with
      | nil => exact ⟨c, rest', rfl, fun he => absurd (he ▸ hletter) (by decide)⟩
      | cons d blanks' =>
        refine ⟨d, _, rfl, ?_⟩
        rintro rfl
        exact absurd (hb' _ List.mem_cons_self) (by decide)
    obtain ⟨d, more, he, hd⟩ := hnext
    rw [htext] at hlt ⊢
    rw [he]
    have hlt' : i < inner.length + 2 := by
      simp only [List.length_cons, List.length_append, List.length_nil] at hlt
      omega
    have hno : ¬ '\x7b' :: '%' :: d :: more <+: (inner ++ '%' :: '\x7d' :: after).drop i :=
      not_opening_prefix hi hd hlt'
    simpa using hno

end Tag.Layout

namespace Engine

open Node

/-- With the usual delimiters and words for names a whole text finds its nodes where they stand. -/
theorem findsChildren_usual {engine : Engine} {code : Table Text} {node : Table NodeTag}
    {text : Text}
    {root : Node} (hr : engine.compiler.registry = .ofTags code node)
    (hn : ∀ name ∈ node.keys, Tag.IsWord name) (hd : engine.delimiters.node = .usual)
    (h : engine.tree .node text = .ok root) : root.FindsChildren := by
  have hproper : engine.delimiters.node.IsProper := by
    rw [hd]
    decide
  obtain ⟨f, ht, hm, rfl⟩ := (tree_node_eq_ok_iff hproper).1 h
  rw [hr, hd] at ht
  have hrow := Tag.row_of_scan (hd ▸ hproper) ht
  refine (findsChildren_root_iff hrow).2 fun tail htail hides => ?_
  obtain ⟨before, node, after, he, -, -, i, hfirst, hlast, hp⟩ := hides
  have hnode : node ∈ f.nodes text := he ▸ List.mem_append_right before List.mem_cons_self
  obtain ⟨pairing, hpairing, -, hprefix⟩ := Forest.exists_head_prefix hrow hnode
  have hhead : pairing.head ∈ f.tags ∧ pairing.head.kind = .head := by
    have hmem : pairing.head ∈ f.pairings.map (·.head) := List.mem_map_of_mem hpairing
    simpa [Forest.heads_eq hm] using hmem
  have htag : tail ∈ f.tags ∧ tail.kind = .tail := by
    have hmem := (Forest.tails_perm hm).subset (List.mem_append_right _ htail)
    simpa using hmem
  obtain ⟨⟨layout, hl, htext⟩, hdescribes⟩ := Tag.layouts_of_mem_scan hn ht htag.1
  obtain ⟨⟨layout', hl', htext'⟩, hdescribes'⟩ := Tag.layouts_of_mem_scan hn ht hhead.1
  have hkind : layout.kind = .tail :=
    (Option.some.inj (hdescribes layout hl htext).kind).symm.trans htag.2
  have hkind' : layout'.kind = .head :=
    (Option.some.inj (hdescribes' layout' hl' htext').kind).symm.trans hhead.2
  have hs := (hrow.stands htag.1).1.covers
  have hm := hs.measured
  have hb := hs.bounds
  obtain ⟨more, hmore⟩ := hs.prefix_drop
  have hdrop : text.drop i = (layout.text ++ more).drop (i - tail.span.first.toNat) := by
    rw [htext, hmore, List.drop_drop]
    congr 1
    omega
  refine hl.not_prefix_drop hn hl' hkind hkind' (i := i - tail.span.first.toNat) ?_ more ?_
  · rw [htext]
    omega
  · rw [htext', ← hdrop]
    exact hprefix.trans hp

end Engine

end ThemeMarkup
