import ThemeMarkup.Proofs.Marked.Attribute
import ThemeMarkup.Proofs.Template.Routines

namespace ThemeMarkup

open Marker (Core Marked Joined Seam IsForeign)
open Expression (toTarget quote)

variable {core : Core} {Holds : Marker → Text → Prop} {text before after inner : Text}

structure Text.IsBraced (text : Text) : Prop where
  first : text.head? = some '\x7b'
  last : text.getLast? = some '\x7d'

namespace Text.IsBraced

theorem ne_nil (h : text.IsBraced) : text ≠ [] := by
  rintro rfl
  have hfirst := h.first
  contradiction

theorem seam_before (h : text.IsBraced) (before : Text) : Seam before text := by
  apply Marker.seam_of_head
  rw [h.first]
  decide

theorem seam_before_append (h : text.IsBraced) (before after : Text) :
    Seam before (text ++ after) := by
  apply Marker.seam_of_head
  rw [List.head?_append_of_ne_nil _ h.ne_nil, h.first]
  decide

theorem seam_after (h : text.IsBraced) (after : Text) : Seam text after := by
  apply Marker.seam_of_last
  rw [h.last]
  decide

theorem append (hb : before.IsBraced) (ha : after.IsBraced) : (before ++ after).IsBraced := by
  constructor
  · rw [List.head?_append, hb.first]
    rfl
  · rw [List.getLast?_append, ha.last]
    rfl

theorem around (hb : before.IsBraced) (text : Text) (ha : after.IsBraced) :
    (before ++ text ++ after).IsBraced := by
  constructor
  · rw [List.append_assoc, List.head?_append, hb.first]
    rfl
  · rw [List.getLast?_append, ha.last]
    rfl

end Text.IsBraced

theorem Target.isBraced_statement (inner : Text) : (statement inner).IsBraced :=
  ⟨rfl, by rw [statement, List.getLast?_append]; rfl⟩

theorem Target.isBraced_output (inner : Text) : (output inner).IsBraced :=
  ⟨rfl, by rw [output, List.getLast?_append]; rfl⟩

theorem Target.isBraced_comment (inner : Text) : (comment inner).IsBraced :=
  ⟨rfl, by rw [comment, List.getLast?_append]; rfl⟩

variable [Marker.Serials]

namespace Marker.Marked

theorem between (h : Marked .start Holds inner) (hb : Core.start.Plain before)
    (ha : Core.start.Plain after) (hl : before.getLast? = some ' ') (hf : after.head? = some ' ') :
    Marked .start Holds (before ++ inner ++ after) := by
  have hfirst : Seam before inner := by
    apply seam_of_last
    rw [hl]
    decide
  apply ((Marked.plain hb).append h hfirst).append (.plain ha)
  apply seam_of_head
  rw [hf]
  decide

theorem after_word (h : Marked .start Holds text) (word : Text) (hw : Core.start.Plain word)
    (hl : ∀ c ∈ word.getLast?, IsForeign c) : Marked .start Holds (word ++ text) :=
  (Marked.plain hw).append h (seam_of_last hl _)

theorem join (hb : Marked .start Holds before) (word : Text) (hw : Core.start.Plain word)
    (hn : word ≠ []) (hf : ∀ c ∈ word.head?, IsForeign c) (hl : ∀ c ∈ word.getLast?, IsForeign c)
    (ha : Marked .start Holds after) : Marked .start Holds (before ++ word ++ after) := by
  rw [List.append_assoc]
  apply hb.append (ha.after_word word hw hl)
  apply seam_of_head
  rwa [List.head?_append_of_ne_nil _ hn]

theorem statement (h : Marked .start Holds inner) : Marked .start Holds (Target.statement inner) :=
  h.between (by decide) (by decide) rfl rfl

theorem output (h : Marked .start Holds inner) : Marked .start Holds (Target.output inner) :=
  h.between (by decide) (by decide) rfl rfl

theorem comment (h : Marked .start Holds inner) : Marked .start Holds (Target.comment inner) :=
  h.between (by decide) (by decide) rfl rfl

end Marker.Marked

/-- A node whose attributes and body hold whole markers only; the attributes that are known for it
are there. -/
structure Node.Carries (Holds : Marker → Text → Prop) (known : List Text) (node : Node) : Prop where
  attributes : ∃ table : Table Text, node.givenAttributes = table.map some ∧
    (∀ key ∈ known, (table.get? key).isSome = true) ∧ table.Every (Marked .hashes Holds)
  body : Marked .start Holds node.bodyContent

namespace Standard

variable {known : List Text} {node : Node} {key otherwise : Text}

theorem exists_need (h : node.Carries Holds known) (key : Text) (hk : key ∈ known) :
    ∃ value, need node.givenAttributes key = .ok value ∧ Marked .hashes Holds value := by
  obtain ⟨table, ht, hknown, hevery⟩ := h.attributes
  obtain ⟨value, hv⟩ := Option.isSome_iff_exists.1 (hknown key hk)
  refine ⟨value, ?_, hevery key value hv⟩
  rw [need, ht, Table.get?_map, hv]
  rfl

theorem marked_given (h : node.Carries Holds known) (key : Text)
    (ho : Marked .hashes Holds otherwise) :
    Marked .hashes Holds (given node.givenAttributes key otherwise) := by
  obtain ⟨table, ht, -, hevery⟩ := h.attributes
  rw [given, ht, Table.get?_map]
  cases hv : table.get? key with
  | none => exact ho
  | some value =>
    cases value with
    | nil => exact ho
    | cons c value => exact hevery key _ hv

theorem joined_withSuffix {name suffix : Text} (hn : Marked .hashes Holds name)
    (hs : Marked .hashes Holds suffix) : Joined Holds (withSuffix name suffix) := by
  rw [withSuffix]
  split
  · exact .of_marked hn
  · exact ⟨name, suffix, rfl, hn, hs⟩

/-- Whether a routine writes marked text between two braces for nodes with given attributes. -/
def WritesMarked (Holds : Marker → Text → Prop) (known : List Text)
    (content : Node → Except Error Text) : Prop :=
  ∀ node : Node, node.Carries Holds known →
    ∃ out, content node = .ok out ∧ Marked .start Holds out ∧ out.IsBraced

theorem writesMarked_statement (Holds : Marker → Text → Prop) {inner : Text}
    (h : Core.start.Plain inner) :
    WritesMarked Holds known fun _ => return Target.statement inner := by
  intro node _
  exact ⟨_, rfl, (Marked.plain h).statement, Target.isBraced_statement inner⟩

theorem marked_toTarget (h : Marked .hashes Holds text) : Marked .start Holds (toTarget text) :=
  (Joined.of_marked h).toTarget.marked

theorem marked_around (hb : Marked .start Holds before) (hs : before.IsBraced)
    (h : Marked .start Holds text) (ha : Marked .start Holds after) (hs' : after.IsBraced) :
    Marked .start Holds (before ++ text ++ after) :=
  (hb.append h (hs.seam_after _)).append ha (hs'.seam_before _)

theorem writesMarked_ifNode (Holds : Marker → Text → Prop) :
    WritesMarked Holds ["condition"] ifNode := by
  intro node h
  obtain ⟨condition, hneed, hc⟩ := exists_need h "condition" List.mem_cons_self
  have hif : Marked .start Holds (("if " : Text) ++ toTarget condition) :=
    (marked_toTarget hc).after_word "if " (by decide) (by decide)
  refine ⟨_, by rw [ifNode, hneed]; rfl, ?_, ?_⟩
  · exact marked_around hif.statement (Target.isBraced_statement _) h.body (.plain (by decide))
      (Target.isBraced_statement _)
  · exact (Target.isBraced_statement _).around _ (Target.isBraced_statement _)

theorem writesMarked_elseifNode (Holds : Marker → Text → Prop) :
    WritesMarked Holds ["condition"] elseifNode := by
  intro node h
  obtain ⟨condition, hneed, hc⟩ := exists_need h "condition" List.mem_cons_self
  have helif : Marked .start Holds (("elif " : Text) ++ toTarget condition) :=
    (marked_toTarget hc).after_word "elif " (by decide) (by decide)
  exact ⟨_, by rw [elseifNode, hneed]; rfl, helif.statement, Target.isBraced_statement _⟩

theorem writesMarked_includeNode {suffix : Text} (hs : Text.Unmarked suffix)
    (Holds : Marker → Text → Prop) : WritesMarked Holds ["file", "ext"] (includeNode suffix) := by
  intro node h
  obtain ⟨file, hneed, hf⟩ := exists_need h "file" List.mem_cons_self
  have hext := marked_given h "ext" (.plain hs)
  have hinclude : Marked .start Holds (("include " : Text) ++
      quote (withSuffix (Text.strip file) (given node.givenAttributes "ext" suffix))) :=
    (joined_withSuffix hf.strip hext).quote.after_word "include " (by decide) (by decide)
  exact ⟨_, by rw [includeNode, hneed]; rfl, hinclude.statement, Target.isBraced_statement _⟩

theorem writesMarked_assignNode (Holds : Marker → Text → Prop) :
    WritesMarked Holds ["name", "value"] assignNode := by
  intro node h
  obtain ⟨name, hneed, hn⟩ := exists_need h "name" List.mem_cons_self
  let value := toTarget (given node.givenAttributes "value" "none")
  have hvalue : Marked .start Holds value :=
    marked_toTarget (marked_given h "value" (.plain (by decide)))
  have hset : Marked .start Holds (("set " : Text) ++ toTarget name ++ (" = " : Text) ++ value) :=
    ((marked_toTarget hn).after_word "set " (by decide) (by decide)).join " = " (by decide)
      (by decide) (by decide) (by decide) hvalue
  exact ⟨_, by rw [assignNode, hneed]; rfl, hset.statement, Target.isBraced_statement _⟩

theorem writesMarked_listNode (Holds : Marker → Text → Prop) :
    WritesMarked Holds ["for", "key", "value", "index"] listNode := by
  intro node h
  obtain ⟨iterable, hneed, hi⟩ := exists_need h "for" List.mem_cons_self
  have hgiven (key : Text) {otherwise : Text} (ho : Text.Unmarked otherwise) :
      Marked .start Holds (toTarget (given node.givenAttributes key otherwise)) :=
    marked_toTarget (marked_given h key (.plain ho))
  let key := toTarget (given node.givenAttributes "key" [])
  let value := toTarget (given node.givenAttributes "value" "value")
  let index := toTarget (given node.givenAttributes "index" [])
  have hvalue : Marked .start Holds value := hgiven "value" (by decide)
  let head : Text :=
    if key = [] then "for " ++ value ++ " in " ++ toTarget iterable
    else "for " ++ key ++ ", " ++ value ++ " in " ++ toTarget iterable ++ ".items()"
  let counter : Text :=
    if index = [] then [] else Target.statement ("set " ++ index ++ " = loop.index0")
  have hhead : Marked .start Holds head := by
    have hin {text : Text} (h : Marked .start Holds text) :
        Marked .start Holds (text ++ (" in " : Text) ++ toTarget iterable) :=
      h.join " in " (by decide) (by decide) (by decide) (by decide) (marked_toTarget hi)
    simp only [head]
    split
    · exact hin (hvalue.after_word "for " (by decide) (by decide))
    · have hkey : Marked .start Holds key := hgiven "key" (by decide)
      have hpair :=
        (hkey.after_word "for " (by decide) (by decide)).join ", " (by decide) (by decide)
        (by decide) (by decide) hvalue
      exact (hin hpair).append (.plain (by decide)) (Marker.seam_of_head _ (by decide))
  have hopening : Marked .start Holds (Target.statement head ++ counter) ∧
      (Target.statement head ++ counter).IsBraced := by
    have hbraced := Target.isBraced_statement head
    simp only [counter]
    split
    · rw [List.append_nil]
      exact ⟨hhead.statement, hbraced⟩
    · have hindex : Marked .start Holds index := hgiven "index" (by decide)
      have hset : Marked .start Holds (("set " : Text) ++ index ++ (" = loop.index0" : Text)) :=
        (hindex.after_word "set " (by decide) (by decide)).append (.plain (by decide))
          (Marker.seam_of_head _ (by decide))
      exact ⟨hhead.statement.append hset.statement (hbraced.seam_after _),
        hbraced.append (Target.isBraced_statement _)⟩
  have hend : Marked .start Holds (Target.statement "endfor") := .plain (by decide)
  refine ⟨_, by rw [listNode, hneed]; rfl, ?_, ?_⟩
  · exact marked_around hopening.1 hopening.2 h.body hend (Target.isBraced_statement _)
  · exact hopening.2.around _ (Target.isBraced_statement _)

theorem exists_routine {name suffix : Text} (hs : Text.Unmarked suffix)
    (Holds : Marker → Text → Prop)
    (hn : name ∈ nodeNames) :
    ∃ content, (Compiler.standard suffix).routines.get? (Registry.nodeRoutine name) =
        some (Compiler.writing content) ∧
      WritesMarked Holds ((knownAttributes.get? name).getD []) content := by
  apply exists_writing suffix hn
  case hif => exact writesMarked_ifNode Holds
  case helseif => exact writesMarked_elseifNode Holds
  case hlist => exact writesMarked_listNode Holds
  case hinclude => exact writesMarked_includeNode hs Holds
  case hassign => exact writesMarked_assignNode Holds
  case helse | hbreak | hcontinue => exact writesMarked_statement Holds (by decide)

end Standard

end ThemeMarkup
