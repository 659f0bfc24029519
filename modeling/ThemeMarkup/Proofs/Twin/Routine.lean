import ThemeMarkup.Proofs.Except
import ThemeMarkup.Proofs.Template.Routines
import ThemeMarkup.Proofs.Twin.Attribute

namespace ThemeMarkup

open Marker (Kin Twin)
open Expression (startsExpression toTarget)

variable {Agree : Prop} {Pair : Marker → Text → Text → Prop} {text text' before before' : Text}

namespace Standard

/-- Whether a file name is included as it is: it is an expression or its last part has a point. -/
def keepsName (name : Text) : Bool :=
  startsExpression name || (lastPart name).contains '.'

/-- Whether a node with a name and attributes keeps the file name that it includes, if it includes
one. -/
def suffixChoice? (name : Text) (attributes : Table Text) : Option Bool :=
  if name = "include" then some (keepsName (Text.strip ((attributes.get? "file").getD [])))
    else none

variable {key value : Text} {table : Table Text}

theorem need_eq_ok_iff : need (table.map some) key = .ok value ↔ table.get? key = some value := by
  rw [need, Table.get?_map]
  cases table.get? key with
  | none => simp
  | some other => simp

end Standard

variable [Marker.Serials]

namespace Marker.Twin

theorem same (text : Text) : Kin Pair text text :=
  .plain trivial

theorem statement (h : Kin Pair text text') :
    Kin Pair (Target.statement text) (Target.statement text') :=
  ((same "\x7b% ").append h).append (same " %\x7d")

theorem join (hb : Kin Pair before before') (word : Text) (ha : Kin Pair text text') :
    Kin Pair (before ++ word ++ text) (before' ++ word ++ text') :=
  (hb.append (same word)).append ha

end Marker.Twin

/-- Nodes with attributes that are twins, and with bodies that are twins if what is to agree does;
then the choices of the suffix agree as well. -/
structure Node.Twins (Agree : Prop) (Pair : Marker → Text → Text → Prop) (name : Text)
    (node node' : Node) :
    Prop where
  attributes : ∃ table table' : Table Text, node.givenAttributes = table.map some ∧
    node'.givenAttributes = table'.map some ∧ Table.Rel (Kin Pair) table table' ∧
    (Agree → Standard.suffixChoice? name table' = Standard.suffixChoice? name table)
  body : Agree → Kin Pair node.bodyContent node'.bodyContent

namespace Standard

variable {name : Text} {node node' : Node} {key value out : Text} {table : Table Text}

theorem exists_twin_need (h : node.Twins Agree Pair name node')
    (hn : need node.givenAttributes key = .ok value) :
    ∃ value', need node'.givenAttributes key = .ok value' ∧ Kin Pair value value' := by
  obtain ⟨table, table', ht, ht', hrel, -⟩ := h.attributes
  rw [ht, need_eq_ok_iff] at hn
  rcases Option.Rel.none_or_some (hrel key) with ⟨hx, -⟩ | ⟨other, value', hx, hy, hvalue⟩
  · rw [hn] at hx
    contradiction
  · rw [hn] at hx
    obtain rfl := Option.some.inj hx
    exact ⟨value', by rw [ht', need_eq_ok_iff, hy], hvalue⟩

theorem twin_given (h : node.Twins Agree Pair name node') (key otherwise : Text) :
    Kin Pair (given node.givenAttributes key otherwise)
    (given node'.givenAttributes key otherwise) := by
  obtain ⟨table, table', ht, ht', hrel, -⟩ := h.attributes
  rw [given, given, ht, ht', Table.get?_map, Table.get?_map]
  rcases Option.Rel.none_or_some (hrel key) with ⟨hx, hy⟩ | ⟨value, value', hx, hy, hvalue⟩
  · rw [hx, hy]
    exact Twin.same otherwise
  · rw [hx, hy]
    cases value with
    | nil =>
      rw [hvalue.eq_nil.2 rfl]
      exact Twin.same otherwise
    | cons c value =>
      cases value' with
      | nil => exact absurd (hvalue.eq_nil.1 rfl) (List.cons_ne_nil c value)
      | cons c' value' => exact hvalue

/-- Whether a routine that writes something for a node writes something for its twins, and twins of
it if what is to agree does. -/
def WritesTwins (Agree : Prop) (Pair : Marker → Text → Text → Prop) (name : Text)
    (content : Node → Except Error Text) : Prop :=
  ∀ {node node' : Node} {out : Text}, node.Twins Agree Pair name node' → content node = .ok out →
    ∃ out', content node' = .ok out' ∧ (Agree → Kin Pair out out')

theorem writesTwins_statement (inner : Text) :
    WritesTwins Agree Pair name fun _ => return Target.statement inner := by
  intro node node' out _ ho
  exact ⟨out, ho, fun _ => Twin.same out⟩

theorem writesTwins_ifNode : WritesTwins Agree Pair name ifNode := by
  intro node node' out h ho
  obtain ⟨condition, hneed, ho⟩ := Except.bind_eq_ok_iff.1 ho
  obtain rfl := Except.ok.inj ho
  obtain ⟨condition', hneed', hc⟩ := exists_twin_need h hneed
  have hif := (Twin.same "if ").append hc.toTarget
  refine ⟨_, by rw [ifNode, hneed']; rfl, fun hagree => ?_⟩
  exact (hif.statement.append (h.body hagree)).append (Twin.same (Target.statement "endif"))

theorem writesTwins_elseifNode : WritesTwins Agree Pair name elseifNode := by
  intro node node' out h ho
  obtain ⟨condition, hneed, ho⟩ := Except.bind_eq_ok_iff.1 ho
  obtain rfl := Except.ok.inj ho
  obtain ⟨condition', hneed', hc⟩ := exists_twin_need h hneed
  have helif := (Twin.same "elif ").append hc.toTarget
  exact ⟨_, by rw [elseifNode, hneed']; rfl, fun _ => helif.statement⟩

theorem writesTwins_includeNode (suffix : Text) :
    WritesTwins Agree Pair "include" (includeNode suffix) := by
  intro node node' out h ho
  obtain ⟨file, hneed, ho⟩ := Except.bind_eq_ok_iff.1 ho
  obtain rfl := Except.ok.inj ho
  obtain ⟨file', hneed', hfile⟩ := exists_twin_need h hneed
  refine ⟨_, by rw [includeNode, hneed']; rfl, fun hagree => ?_⟩
  have hkeeps : keepsName (Text.strip file') = keepsName (Text.strip file) := by
    obtain ⟨table, table', ht, ht', -, hchoice⟩ := h.attributes
    rw [ht, need_eq_ok_iff] at hneed
    rw [ht', need_eq_ok_iff] at hneed'
    have hsame := hchoice hagree
    simp only [suffixChoice?, hneed, hneed', if_true, Option.getD_some] at hsame
    exact Option.some.inj hsame
  have hname (name suffix : Text) : withSuffix name suffix =
      if keepsName name then name else name ++ suffix := rfl
  have hwhole : Kin Pair (withSuffix (Text.strip file) (given node.givenAttributes "ext" suffix))
      (withSuffix (Text.strip file') (given node'.givenAttributes "ext" suffix)) := by
    rw [hname, hname, hkeeps]
    split
    · exact hfile.strip
    · exact hfile.strip.append (twin_given h "ext" suffix)
  exact ((Twin.same "include ").append hwhole.quote).statement

theorem writesTwins_assignNode : WritesTwins Agree Pair name assignNode := by
  intro node node' out h ho
  obtain ⟨target, hneed, ho⟩ := Except.bind_eq_ok_iff.1 ho
  obtain rfl := Except.ok.inj ho
  obtain ⟨target', hneed', ht⟩ := exists_twin_need h hneed
  have hset :=
    ((Twin.same "set ").append ht.toTarget).join " = " (twin_given h "value" "none").toTarget
  exact ⟨_, by rw [assignNode, hneed']; rfl, fun _ => hset.statement⟩

theorem writesTwins_listNode : WritesTwins Agree Pair name listNode := by
  intro node node' out h ho
  obtain ⟨iterable, hneed, ho⟩ := Except.bind_eq_ok_iff.1 ho
  obtain rfl := Except.ok.inj ho
  obtain ⟨iterable', hneed', hi⟩ := exists_twin_need h hneed
  have hkey := (twin_given h "key" []).toTarget
  have hvalue := (twin_given h "value" "value").toTarget
  have hindex := (twin_given h "index" []).toTarget
  refine ⟨_, by rw [listNode, hneed']; rfl, fun hagree => ?_⟩
  refine ((Twin.append (Twin.statement ?_) ?_).append (h.body hagree)).append (Twin.same _)
  · simp only [hkey.eq_nil]
    split
    · exact ((Twin.same "for ").append hvalue).join " in " hi.toTarget
    · exact ((((Twin.same "for ").append hkey).join ", " hvalue).join " in " hi.toTarget).append
        (Twin.same _)
  · simp only [hindex.eq_nil]
    split
    · exact Twin.same []
    · exact (((Twin.same "set ").append hindex).append (Twin.same _)).statement

theorem exists_twin_routine (Agree : Prop) (Pair : Marker → Text → Text → Prop) (suffix : Text)
    (hn : name ∈ nodeNames) :
    ∃ content, (Compiler.standard suffix).routines.get? (Registry.nodeRoutine name) =
      some (Compiler.writing content) ∧ WritesTwins Agree Pair name content := by
  apply exists_writing suffix hn
  case hif => exact writesTwins_ifNode
  case helseif => exact writesTwins_elseifNode
  case hlist => exact writesTwins_listNode
  case hinclude => exact writesTwins_includeNode suffix
  case hassign => exact writesTwins_assignNode
  case helse | hbreak | hcontinue => exact writesTwins_statement _

end Standard

end ThemeMarkup
