import ThemeMarkup.Proofs.Pairing.Tree
import ThemeMarkup.Proofs.StandardPass
import ThemeMarkup.Proofs.Template.Expression
import ThemeMarkup.Proofs.Template.Source

namespace ThemeMarkup

theorem Value.ne_nil (value : Value) : value.text ≠ [] := by
  obtain ⟨c, hc, -⟩ := value.filled
  exact List.ne_nil_of_mem hc

/-- Whether a node has the attributes of a list, those that are not given being empty. -/
def Attributes.Hold (table : Attributes) (attributes : List (Text × Option Text)) : Prop :=
  ∀ key value?, (key, value?) ∈ attributes → table.get? key = some (some (value?.getD []))

namespace Standard

open Expression (toTarget quote)

variable {table : Attributes} {attributes : List (Text × Option Text)} {key name : Text}

theorem need_of_hold (h : table.Hold attributes) {value : Value}
    (hm : (key, some value.text) ∈ attributes) : need table key = .ok value.text := by
  rw [need, h key _ hm]
  rfl

theorem given_of_hold (h : table.Hold attributes) {value? : Option Value}
    (hm : (key, value?.map Value.text) ∈ attributes) (otherwise : Text) :
    given table key otherwise = value?.elim otherwise Value.text := by
  rw [given, h key _ hm]
  cases value? with
  | none => rfl
  | some value =>
    obtain ⟨c, rest, hc⟩ := List.exists_cons_of_ne_nil value.ne_nil
    simp only [Option.map_some, Option.getD_some, Option.elim_some, hc]

theorem toTarget_given (h : table.Hold attributes) (value? : Option Value) (otherwise : Text)
    (hm : (key, value?.map Value.text) ∈ attributes) (ho : toTarget otherwise = otherwise) :
    toTarget (given table key otherwise) =
      value?.elim otherwise fun value => toTarget value.text := by
  rw [given_of_hold h hm]
  cases value? with
  | none => exact ho
  | some value => rfl

variable [Marker.Serials]

theorem exists_writing {P : Text → (Node → Except Error Text) → Prop} (suffix : Text)
    (hn : name ∈ nodeNames) (hif : P "if" ifNode) (helseif : P "elseif" elseifNode)
    (helse : P "else" fun _ => return Target.statement "else") (hlist : P "list" listNode)
    (hinclude : P "include" (includeNode suffix)) (hassign : P "assign" assignNode)
    (hbreak : P "break" fun _ => return Target.statement "break")
    (hcontinue : P "continue" fun _ => return Target.statement "continue") :
    ∃ content, (Compiler.standard suffix).routines.get? (Registry.nodeRoutine name) =
      some (Compiler.writing content) ∧ P name content := by
  have hget := Compiler.get?_standard suffix
  simp only [nodeNames, List.map_cons, List.map_nil, List.mem_cons, List.not_mem_nil,
    or_false] at hn
  rcases hn with rfl | rfl | rfl | rfl | rfl | rfl | rfl | rfl
  · exact ⟨_, (hget _).trans rfl, hif⟩
  · exact ⟨_, (hget _).trans rfl, helseif⟩
  · exact ⟨_, (hget _).trans rfl, helse⟩
  · exact ⟨_, (hget _).trans rfl, hlist⟩
  · exact ⟨_, (hget _).trans rfl, hinclude⟩
  · exact ⟨_, (hget _).trans rfl, hassign⟩
  · exact ⟨_, (hget _).trans rfl, hbreak⟩
  · exact ⟨_, (hget _).trans rfl, hcontinue⟩

end Standard

open Expression (toTarget quote)
open Standard (need_of_hold given_of_hold toTarget_given)

theorem Block.range_eq (iterable : Value) (key value : Option Value) :
    range iterable key value =
      if (key.elim [] fun key => toTarget key.text) = [] then
        "for " ++ (value.elim ("value" : Text) fun value => toTarget value.text) ++ " in " ++
          toTarget iterable.text
      else
        "for " ++ (key.elim [] fun key => toTarget key.text) ++ ", " ++
          (value.elim ("value" : Text) fun value => toTarget value.text) ++ " in " ++
            toTarget iterable.text ++ ".items()" := by
  cases key with
  | none => exact (if_pos rfl).symm
  | some key => exact (if_neg (Expression.toTarget_ne_nil key.filled)).symm

theorem Block.opening_loop (iterable : Value) (key value index : Option Value) :
    (loop iterable key value index).opening =
      Target.statement (range iterable key value) ++
        if (index.elim [] fun index => toTarget index.text) = [] then []
        else
          Target.statement ("set " ++ (index.elim [] fun index => toTarget index.text) ++
            " = loop.index0") := by
  cases index with
  | none =>
    rw [Option.elim_none, if_pos rfl]
    exact (List.append_nil _).symm
  | some index =>
    rw [Option.elim_some, if_neg (Expression.toTarget_ne_nil index.filled)]
    rfl

section

variable [Marker.Serials]

/-- A tag that stands alone has a routine, which writes what the tag means. -/
theorem Single.exists_routine (suffix : Text) (tag : Single) :
    ∃ content, (Compiler.standard suffix).routines.get? (Registry.nodeRoutine tag.name) =
        some (Compiler.writing content) ∧
      ∀ node : Node, node.givenAttributes.Hold tag.attributes →
        content node = .ok (tag.meaning suffix) := by
  have hget := Compiler.get?_standard suffix
  cases tag with
  | elseif condition =>
    refine ⟨Standard.elseifNode, (hget _).trans rfl, ?_⟩
    intro node h
    rw [Standard.elseifNode, need_of_hold h List.mem_cons_self]
    rfl
  | otherwise => exact ⟨_, (hget _).trans rfl, fun _ _ => rfl⟩
  | inclusion file suffix? =>
    refine ⟨Standard.includeNode suffix, (hget _).trans rfl, ?_⟩
    intro node h
    rw [Standard.includeNode, need_of_hold h List.mem_cons_self]
    dsimp only [bind, Except.bind]
    rw [given_of_hold h (List.mem_cons_of_mem _ List.mem_cons_self)]
    rfl
  | assignment name value =>
    refine ⟨Standard.assignNode, (hget _).trans rfl, ?_⟩
    intro node h
    rw [Standard.assignNode, need_of_hold h List.mem_cons_self]
    dsimp only [bind, Except.bind]
    rw [toTarget_given h value "none" (List.mem_cons_of_mem _ List.mem_cons_self) (by decide)]
    rfl
  | leave => exact ⟨_, (hget _).trans rfl, fun _ _ => rfl⟩
  | resume => exact ⟨_, (hget _).trans rfl, fun _ _ => rfl⟩

/-- A tag with a body has a routine, which puts the body between what the tag opens and closes. -/
theorem Block.exists_routine (suffix : Text) (tag : Block) :
    ∃ content, (Compiler.standard suffix).routines.get? (Registry.nodeRoutine tag.name) =
        some (Compiler.writing content) ∧
      ∀ node : Node, node.givenAttributes.Hold tag.attributes →
        content node = .ok (tag.opening ++ node.bodyContent ++ tag.closing) := by
  have hget := Compiler.get?_standard suffix
  cases tag with
  | condition value =>
    refine ⟨Standard.ifNode, (hget _).trans rfl, ?_⟩
    intro node h
    rw [Standard.ifNode, need_of_hold h List.mem_cons_self]
    rfl
  | loop iterable key value index =>
    refine ⟨Standard.listNode, (hget _).trans rfl, ?_⟩
    intro node h
    have hkey := toTarget_given h key [] (List.mem_cons_of_mem _ List.mem_cons_self) rfl
    have hvalue := toTarget_given h value "value"
      (List.mem_cons_of_mem _ (List.mem_cons_of_mem _ List.mem_cons_self)) (by decide)
    have hindex := toTarget_given h index []
      (List.mem_cons_of_mem _ (List.mem_cons_of_mem _ (List.mem_cons_of_mem _ List.mem_cons_self)))
      rfl
    rw [Standard.listNode, need_of_hold h List.mem_cons_self]
    dsimp only [bind, Except.bind]
    rw [hkey, hvalue, hindex]
    rw [← Block.range_eq, ← Block.opening_loop]
    rfl

end

namespace Node

variable {piece : Piece} {first : Node} {children : List Node}

theorem givenAttributes_cons (h : first.isAttribute = true) :
    givenAttributes ⟨piece, first :: children⟩ = first.attributes := by
  simp only [givenAttributes, List.find?_cons, h]

theorem bodyContent_cons (h : first.isBody = true) :
    bodyContent ⟨piece, first :: children⟩ = first.content := by
  simp only [bodyContent, body?, List.find?_cons, h]

theorem bodyContent_cons_of_not (h : first.isBody = false) :
    bodyContent ⟨piece, first :: children⟩ = bodyContent ⟨piece, children⟩ := by
  simp only [bodyContent, body?, List.find?_cons, h]

end Node

theorem Pairing.exists_compiled_bodyNodes {compiler : Compiler} {text body : Text} {head tail : Tag}
    {inner : List Node}
    (hb : Node.substituted compiler (text.slice (head.span.last + 1) tail.span.first) inner =
      .ok body)
    (he : text.slice (head.span.last + 1) tail.span.first = [] → body = []) :
    ∃ compiled, List.Forall₂ (fun child node => Node.compile compiler child = ⟨node, none⟩)
        ((bodyNodes text head tail).map (·.withChildren inner)) compiled ∧
      ∀ piece : Piece, Node.bodyContent ⟨piece, compiled⟩ = body := by
  unfold bodyNodes
  split
  · next hs => exact ⟨[], .nil, fun _ => (he hs).symm⟩
  · next hs =>
    let node : Node := (bodyNode text head tail).withChildren inner
    have hr : node.routine = none := rfl
    obtain ⟨children, hcompile⟩ := Node.compile_of_substituted hr hb
    exact ⟨_, .cons hcompile .nil, fun _ => Node.bodyContent_cons rfl⟩

namespace Standard

variable {name : Text} {attributes : List (Text × Option Text)} {head : Tag}

theorem nodup_knownAttributes (h : name ∈ names) : ((knownAttributes.get? name).getD []).Nodup := by
  have hall : ∀ name ∈ nodeNames, ((knownAttributes.get? name).getD []).Nodup := by decide
  exact hall name (mem_names_iff.1 h)

/-- The attributes of a tag of some name: all that are known for it, those that must be there being
given. -/
structure Allows (name : Text) (attributes : List (Text × Option Text)) : Prop where
  known : (knownAttributes.get? name).getD [] = attributes.map Prod.fst
  distinct : (attributes.map Prod.fst).Nodup
  legible : Attribute.AreLegible (Attribute.present attributes)
  required : ∀ key ∈ (requiredAttributes.get? name).getD [],
    ∃ value, value ≠ [] ∧ (key, some value) ∈ attributes

theorem Allows.of_areValues (hn : name ∈ names) (hv : Attribute.AreValues attributes)
    (hk : (knownAttributes.get? name).getD [] = attributes.map Prod.fst)
    (hr : ∀ key ∈ (requiredAttributes.get? name).getD [],
      ∃ value, value ≠ [] ∧ (key, some value) ∈ attributes) : Allows name attributes :=
  ⟨hk, hk ▸ nodup_knownAttributes hn, hv.areSafe.areLegible, hr⟩

theorem Allows.get?_readAttributes (h : Allows name attributes) {key : Text} {value? : Option Text}
    (hm : (key, value?) ∈ attributes) :
    (Compiler.readAttributes ((knownAttributes.get? name).getD [])
      (Text.strip (Attribute.argument attributes))).get? key = some (value?.getD []) := by
  rw [h.known]
  exact Compiler.get?_readAttributes_written h.distinct h.legible hm

variable [Marker.Serials]

theorem Allows.compile_attributeNode (h : Allows name attributes) (suffix : Text)
    (hn : head.name = name) (ha : head.argument = Text.strip (Attribute.argument attributes)) :
    ∃ piece : Piece, (Pairing.attributeNode head).compile (.standard suffix) = ⟨⟨piece, []⟩, none⟩ ∧
      piece.isAttribute = true ∧ piece.isBody = false ∧ piece.attributes.Hold attributes := by
  let table := Compiler.readAttributes ((knownAttributes.get? name).getD [])
    (Text.strip (Attribute.argument attributes))
  let piece : Piece := { (Pairing.attributeNode head).toPiece with attributes := table.map some }
  have hfind :
      ((requiredAttributes.get? name).getD []).find? (Compiler.isMissing table) = none := by
    apply List.find?_eq_none.2
    intro key hk
    obtain ⟨value, hne, hm⟩ := h.required key hk
    obtain ⟨c, rest, rfl⟩ := List.exists_cons_of_ne_nil hne
    have hget : table.get? key = some (c :: rest) := h.get?_readAttributes hm
    rw [Compiler.isMissing, hget]
    exact Bool.false_ne_true
  have hroutine : (Compiler.standard suffix).routines.get? "attributeNode" =
      some (Compiler.attributeRoutine knownAttributes requiredAttributes) :=
    (Compiler.get?_standard ..).trans rfl
  have happly : (Compiler.standard suffix).apply (Pairing.attributeNode head) = .ok piece := by
    rw [Compiler.apply]
    simp only [Pairing.attributeNode, hroutine, Compiler.attributeRoutine, Option.getD_some, hn, ha]
    rw [hfind]
    simp only [piece, table, Pairing.attributeNode, hn, ha]
  refine ⟨piece, Node.compile_leaf happly, rfl, rfl, ?_⟩
  intro key value? hm
  rw [Table.get?_map, h.get?_readAttributes hm]
  rfl

section Nodes

variable {text : Text} {tail : Tag} {inner : List Node} {suffix body out : Text}
  {content : Node → Except Error Text}

theorem Allows.compileContent_loneNode (h : Allows name attributes) (hn : head.name = name)
    (ha : head.argument = Text.strip (Attribute.argument attributes))
    (hw : (Compiler.standard suffix).routines.get? (Registry.nodeRoutine name) =
      some (Compiler.writing content))
    (hc : ∀ node : Node, node.givenAttributes.Hold attributes → content node = .ok out) :
    (Pairing.loneNode text head).compileContent (.standard suffix) = .ok out := by
  obtain ⟨piece, hcompile, hattribute, -, hold⟩ := h.compile_attributeNode suffix hn ha
  obtain ⟨given, hs⟩ := Node.compileChildren_of_forall₂ head.argument (.cons hcompile .nil)
  have hr : (Pairing.loneNode text head).routine = some (Registry.nodeRoutine name) := hn ▸ rfl
  rw [Node.compileContent_of_writing hr hw hs]
  apply hc
  rw [Node.givenAttributes_cons hattribute]
  exact hold

/-- A pair becomes what the routine of its name writes for what its body compiles to. -/
theorem Allows.compileContent_pairNode (h : Allows name attributes) (hn : head.name = name)
    (ha : head.argument = Text.strip (Attribute.argument attributes))
    (hw : (Compiler.standard suffix).routines.get? (Registry.nodeRoutine name) =
      some (Compiler.writing content))
    (hb : Node.substituted (.standard suffix) (text.slice (head.span.last + 1) tail.span.first)
      inner =
      .ok body)
    (he : text.slice (head.span.last + 1) tail.span.first = [] → body = [])
    (hc : ∀ node : Node, node.givenAttributes.Hold attributes → node.bodyContent = body →
      content node = .ok out) :
    (Pairing.pairNode text head tail inner).compileContent (.standard suffix) = .ok out := by
  obtain ⟨piece, hcompile, hattribute, hpiece, hold⟩ := h.compile_attributeNode suffix hn ha
  obtain ⟨compiled, hbodies, hcontent⟩ := Pairing.exists_compiled_bodyNodes hb he
  obtain ⟨given, hs⟩ := Node.compileChildren_of_forall₂
    (text.slice head.span.first (tail.span.last + 1)) (.cons hcompile hbodies)
  have hr : (Pairing.pairNode text head tail inner).routine = some (Registry.nodeRoutine name) :=
    hn ▸ rfl
  rw [Node.compileContent_of_writing hr hw hs]
  apply hc
  · rw [Node.givenAttributes_cons hattribute]
    exact hold
  · rw [Node.bodyContent_cons_of_not hpiece]
    exact hcontent _

end Nodes

end Standard

theorem Single.allows (tag : Single) : Standard.Allows tag.name tag.attributes := by
  refine .of_areValues tag.name_mem tag.areValues (by cases tag <;> rfl) ?_
  cases tag with
  | elseif condition => exact List.forall_mem_singleton.2 ⟨_, condition.ne_nil, List.mem_cons_self⟩
  | otherwise => exact nofun
  | inclusion file suffix => exact List.forall_mem_singleton.2 ⟨_, file.ne_nil, List.mem_cons_self⟩
  | assignment name value => exact List.forall_mem_singleton.2 ⟨_, name.ne_nil, List.mem_cons_self⟩
  | leave => exact nofun
  | resume => exact nofun

theorem Block.allows (tag : Block) : Standard.Allows tag.name tag.attributes := by
  refine .of_areValues tag.name_mem tag.areValues (by cases tag <;> rfl) ?_
  cases tag with
  | condition value => exact List.forall_mem_singleton.2 ⟨_, value.ne_nil, List.mem_cons_self⟩
  | loop iterable key value index =>
    exact List.forall_mem_singleton.2 ⟨_, iterable.ne_nil, List.mem_cons_self⟩

end ThemeMarkup
