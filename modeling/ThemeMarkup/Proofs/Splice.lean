import Mathlib.Data.List.Forall2
import ThemeMarkup.Compiler.Basic
import ThemeMarkup.Proofs.Text.Search

namespace ThemeMarkup

/-- A text that begins at offset `start` with spans of it replaced, given in their order. -/
def Text.splice (start : Int) (text : Text) : List (Span × Text) → Text
  | [] => text
  | (span, new) :: edits =>
    text.take (span.first - start).toNat ++ new ++
      splice (span.last + 1) (text.drop (span.last + 1 - start).toNat) edits

theorem Text.splice_append {start : Int} {before text : Text} {edits : List (Span × Text)}
    (h : ∀ edit ∈ edits.head?,
      start + before.length ≤ edit.1.first ∧ edit.1.first ≤ edit.1.last + 1) :
    splice start (before ++ text) edits = before ++ splice (start + before.length) text edits := by
  cases edits with
  | nil => rfl
  | cons edit edits =>
    obtain ⟨span, new⟩ := edit
    obtain ⟨hf, hl⟩ := h (span, new) rfl
    dsimp only at hf hl
    have htake : (before ++ text).take (span.first - start).toNat =
        before ++ text.take (span.first - (start + before.length)).toNat := by
      rw [List.take_append, List.take_of_length_le (by omega)]
      congr 2
      omega
    have hdrop : (before ++ text).drop (span.last + 1 - start).toNat =
        text.drop (span.last + 1 - (start + before.length)).toNat := by
      rw [List.drop_append, List.drop_of_length_le (by omega), List.nil_append]
      congr 1
      omega
    simp only [splice, htake, hdrop, List.append_assoc]

theorem Text.splice_here {start : Int} {source text new : Text} {span : Span}
    {edits : List (Span × Text)} (hf : span.first = start)
    (hl : span.last + 1 = start + source.length) :
    splice start (source ++ text) ((span, new) :: edits) =
      new ++ splice (start + source.length) text edits := by
  have hz : (span.first - start).toNat = 0 := by omega
  have hs : (span.last + 1 - start).toNat = source.length := by omega
  rw [splice, hz, hs, List.take_zero, List.nil_append, List.drop_left, hl]

theorem Compiler.source_apply {compiler : Compiler} {node : Node} {piece : Piece}
    (h : compiler.apply node = .ok piece) : piece.source = node.source := by
  unfold Compiler.apply at h
  split at h
  · rw [← Except.ok.inj h]
  · split at h
    · contradiction
    · next routine _ => exact routine.source_eq h

namespace Node

variable {compiler : Compiler} {start : Int} {text : Text} {children : List Node}

theorem source_compile (compiler : Compiler) (node : Node) :
    (node.compile compiler).node.source = node.source := by
  obtain ⟨piece, children⟩ := node
  rw [compile]
  dsimp only
  split
  · rfl
  · split
    · next h => exact Compiler.source_apply h
    · rfl

/-- The content that a node's routine is given: that of the node with the sources of its children
replaced. -/
def substituted (compiler : Compiler) (content : Text) (children : List Node) : Except Error Text :=
  let s := compileChildren compiler content children
  match s.error with
  | some e => .error e
  | none => .ok s.content

@[simp] theorem substituted_nil (compiler : Compiler) (text : Text) :
    substituted compiler text [] = .ok text := by
  rw [substituted, compileChildren]

theorem substituted_cons {child : Node} {before rest : Text}
    (h : Text.cut? child.source text = some (before, rest)) :
    substituted compiler text (child :: children) = do
      let content ← child.compileContent compiler
      let after ← substituted compiler rest children
      return before ++ content ++ after := by
  rw [← source_compile compiler] at h
  rw [substituted, compileChildren, compileContent]
  cases (child.compile compiler).error with
  | some e => rfl
  | none =>
    simp only [h, substituted]
    cases (compileChildren compiler rest children).error <;> rfl

theorem substituted_cons_of_none {child : Node} (h : Text.cut? child.source text = none) :
    substituted compiler text (child :: children) =
      child.compileContent compiler >>= fun _ => substituted compiler text children := by
  rw [← source_compile compiler] at h
  rw [substituted, compileChildren, compileContent]
  cases (child.compile compiler).error with
  | some e => rfl
  | none => simp only [h, substituted, bind, Except.bind]

theorem substituted_cons_of_ok {child : Node} {before rest content after : Text}
    (h : Text.cut? child.source text = some (before, rest))
    (hc : child.compileContent compiler = .ok content)
    (hs : substituted compiler rest children = .ok after) :
    substituted compiler text (child :: children) = .ok (before ++ content ++ after) := by
  rw [substituted_cons h, hc, hs]
  rfl

theorem apply_of_routine {piece : Piece} (h : piece.routine = none) (content : Text)
    (children : List Node) :
    compiler.apply ⟨{ piece with content }, children⟩ = .ok { piece with content } := by
  rw [Compiler.apply]
  simp only [h]

theorem compileContent_of_routine {node : Node} (h : node.routine = none) :
    node.compileContent compiler = substituted compiler node.content node.children := by
  obtain ⟨piece, children⟩ := node
  rw [compileContent, compile, substituted]
  cases (compileChildren compiler piece.content children).error with
  | some e => rfl
  | none => simp only [apply_of_routine h]

theorem compileContent_of_writing {node : Node} {identifier given : Text} {compiled : List Node}
    {content : Node → Except Error Text} (hr : node.routine = some identifier)
    (hw : compiler.routines.get? identifier = some (Compiler.writing content))
    (hs : compileChildren compiler node.content node.children = ⟨compiled, given, none⟩) :
    node.compileContent compiler = content ⟨{ node.toPiece with content := given }, compiled⟩ := by
  obtain ⟨piece, children⟩ := node
  have happly : compiler.apply ⟨{ piece with content := given }, compiled⟩ =
      (Compiler.writing content).run ⟨{ piece with content := given }, compiled⟩ := by
    rw [Compiler.apply]
    simp only [show piece.routine = some identifier from hr, hw]
  rw [compileContent, compile]
  dsimp only at hs ⊢
  rw [hs]
  dsimp only
  rw [happly, Compiler.writing]
  dsimp only
  cases content ⟨{ piece with content := given }, compiled⟩ <;> rfl

theorem compileContent_of_leaf {node : Node} {identifier : Text}
    {content : Node → Except Error Text}
    (hc : node.children = []) (hr : node.routine = some identifier)
    (hw : compiler.routines.get? identifier = some (Compiler.writing content)) :
    node.compileContent compiler = content node := by
  obtain ⟨piece, children⟩ := node
  cases hc
  exact compileContent_of_writing hr hw (by rw [compileChildren])

theorem compile_leaf {piece new : Piece} (h : compiler.apply ⟨piece, []⟩ = .ok new) :
    compile compiler ⟨piece, []⟩ = ⟨⟨new, []⟩, none⟩ := by
  rw [compile, compileChildren]
  simp only [h]

theorem compileContent_leaf_error {piece : Piece} {e : Error}
    (h : compiler.apply ⟨piece, []⟩ = .error e) :
    compileContent compiler ⟨piece, []⟩ = .error e := by
  rw [compileContent, compile, compileChildren]
  simp only [h]

theorem compile_of_substituted {node : Node} {given : Text} (hr : node.routine = none)
    (h : substituted compiler node.content node.children = .ok given) :
    ∃ compiled, node.compile compiler =
      ⟨⟨{ node.toPiece with content := given }, compiled⟩, none⟩ := by
  obtain ⟨piece, children⟩ := node
  rw [substituted] at h
  rw [compile]
  dsimp only at h ⊢
  cases he : (compileChildren compiler piece.content children).error with
  | some e =>
    rw [he] at h
    contradiction
  | none =>
    rw [he] at h
    rw [Except.ok.inj h]
    refine ⟨(compileChildren compiler piece.content children).children, ?_⟩
    dsimp only
    rw [apply_of_routine hr]

theorem compileChildren_of_forall₂ {compiled : List Node} (content : Text)
    (h : List.Forall₂ (fun child node => compile compiler child = ⟨node, none⟩) children compiled) :
    ∃ given, compileChildren compiler content children = ⟨compiled, given, none⟩ := by
  induction h generalizing content with
  | nil => exact ⟨content, by rw [compileChildren]⟩
  | @cons child node children compiled hc _ ih =>
    rw [compileChildren, hc]
    dsimp only
    split
    · obtain ⟨given, hg⟩ := ih content
      exact ⟨given, by rw [hg]⟩
    · next before rest _ =>
      obtain ⟨given, hg⟩ := ih rest
      exact ⟨before ++ node.content ++ given, by rw [hg]⟩

/-- The first child that does not compile stops a node. -/
theorem compileContent_of_child_error {node child : Node} {before after compiled : List Node}
    {e : Error}
    (hc : node.children = before ++ child :: after)
    (hb : List.Forall₂ (fun child node => compile compiler child = ⟨node, none⟩) before compiled)
    (he : child.compileContent compiler = .error e) :
    node.compileContent compiler = .error e := by
  have herror : (child.compile compiler).error = some e := by
    rw [compileContent] at he
    split at he
    · next h => rw [h, Except.error.inj he]
    · contradiction
  have hchildren (content : Text) :
      (compileChildren compiler content (before ++ child :: after)).error = some e := by
    clear hc
    induction hb generalizing content with
    | nil =>
      rw [List.nil_append, compileChildren]
      simp only [herror]
    | @cons first node before compiled hfirst _ ih =>
      rw [List.cons_append, compileChildren, hfirst]
      dsimp only
      split
      · exact ih content
      · next rest _ => exact ih rest
  obtain ⟨piece, children⟩ := node
  dsimp only at hc
  rw [compileContent, compile, hc]
  simp only [hchildren]

/-- The search for each child in turn, in what is left after the child before it, finds the child
where it stands. -/
def Hits (start : Int) (text : Text) : List Node → Prop
  | [] => True
  | child :: children =>
    ∃ before rest, Text.cut? child.source text = some (before, rest) ∧
      child.span.first = start + before.length ∧ Hits (child.span.last + 1) rest children

def IsMeasured (node : Node) : Prop :=
  node.span.last + 1 = node.span.first + node.source.length

/-- Where every search hits, substitution replaces the spans of the children. -/
theorem substituted_eq_splice (compiler : Compiler) (h : Hits start text children)
    (hm : ∀ child ∈ children, child.IsMeasured) :
    substituted compiler text children =
      (children.mapM (compileContent compiler)).map fun contents =>
        Text.splice start text ((children.map (·.span)).zip contents) := by
  induction children generalizing start text with
  | nil => simp [substituted, compileChildren, Text.splice, Except.map, pure, Except.pure]
  | cons child children ih =>
    obtain ⟨before, rest, hc, hf, hr⟩ := h
    have hlast := hm child List.mem_cons_self
    have ih := ih hr fun child hc => hm child (List.mem_cons_of_mem _ hc)
    have hsplit := Text.append_of_cut? hc
    have hplace (contents : List (Span × Text)) (content : Text) :
        Text.splice start text ((child.span, content) :: contents) =
          before ++ content ++ Text.splice (child.span.last + 1) rest contents := by
      have hlen : child.span.last + 1 = start + before.length + child.source.length := by
        rw [← hf]
        exact hlast
      have hhead : ∀ edit ∈ ((child.span, content) :: contents).head?,
          start + before.length ≤ edit.1.first ∧ edit.1.first ≤ edit.1.last + 1 := by
        rintro _ ⟨⟩
        constructor <;> dsimp only <;> omega
      rw [← hsplit, List.append_assoc, Text.splice_append hhead, Text.splice_here hf hlen, hlen,
        List.append_assoc]
    rw [substituted_cons hc, ih, List.mapM_cons]
    cases child.compileContent compiler with
    | error e => rfl
    | ok content =>
      cases children.mapM (compileContent compiler) with
      | error e => rfl
      | ok contents => exact congrArg Except.ok (hplace _ _).symm

end Node

end ThemeMarkup
