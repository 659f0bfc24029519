import Mathlib
import ThemeMarkup.Pairing
import ThemeMarkup.Proofs.Except
import ThemeMarkup.Proofs.Table
import ThemeMarkup.Proofs.Tag.Longest
import ThemeMarkup.Proofs.Tag.Row
import ThemeMarkup.Proofs.Text.Blank

namespace ThemeMarkup

open Tag (Alike)

variable {registry : Registry} {d : Delimiters} {text name : Text}

namespace Registry

/-- Whether a code tag leads to the same routine without the outer blanks of its name. -/
def IgnoresBlanks (registry : Registry) (name : Text) : Prop :=
  registry.code.get? (Text.strip name) = registry.code.get? name

theorem codeRoutine_eq_ok_iff {routine : Text} :
    registry.codeRoutine name = .ok routine ↔
      ∃ base, registry.code.get? name = some base ∧ routine = base ++ "Code" := by
  rw [codeRoutine]
  cases registry.code.get? name <;> simp [eq_comm]

theorem codeRoutine_eq_error_iff {error : Error} :
    registry.codeRoutine name = .error error ↔ name ∉ registry.code.keys ∧
    error = .noEntry name := by
  rw [codeRoutine.eq_def, Table.mem_keys_iff]
  cases registry.code.get? name <;> simp [eq_comm]

end Registry

namespace Code

def finds (registry : Registry) (d : Delimiters) (text : Text) : List (Found (Text × Text)) :=
  Found.scan (read? d (Registry.byLength registry.code.keys)) text

def node (registry : Registry) (text : Text) (found : Found (Text × Text)) : Except Error Node := do
  let name := Text.strip found.value.1
  let routine ← registry.codeRoutine name
  return { source := found.source
           content := Text.strip found.value.2
           routine := some routine
           name := some name
           span := found.span text }

theorem nodes_eq_mapM (registry : Registry) (d : Delimiters) (text : Text) :
    Code.nodes registry d text = (finds registry d text).mapM (node registry text) :=
  rfl

/-- Whether a node is that of a code tag, with the routine of the entry with whose name the tag was
read. -/
structure LeadsTo (registry : Registry) (text : Text) (found : Found (Text × Text)) (node : Node) :
    Prop where
  source : node.source = found.source
  span : node.span = found.span text
  content : node.content = Text.strip found.value.2
  routine : ∃ base, registry.code.get? found.value.1 = some base ∧
  node.routine = some (base ++ "Code")

/-- Whether every code tag of a text leads to the entry with whose name it was read. -/
def Resolves (registry : Registry) (d : Delimiters) (text : Text) : Prop :=
  ∃ nodes, Code.nodes registry d text = .ok nodes ∧
    List.Forall₂ (LeadsTo registry text) (finds registry d text) nodes

variable {found : Found (Text × Text)}

theorem exists_base_of_mem_finds (hd : d.left ≠ []) (hf : found ∈ finds registry d text) :
    ∃ base, registry.code.get? found.value.1 = some base := by
  obtain ⟨-, rest, -, hread⟩ := (located_scan hd registry text).reads found hf
  obtain ⟨-, -, hname, -⟩ := spells_of_read? hread
  exact Option.isSome_iff_exists.1 (Table.mem_keys_iff.1 (List.mem_mergeSort.1 hname))

theorem node_eq_error_iff {error : Error} :
    node registry text found = .error error ↔
      Text.strip found.value.1 ∉ registry.code.keys ∧
      error = .noEntry (Text.strip found.value.1) := by
  rw [node, ← Registry.codeRoutine_eq_error_iff]
  cases registry.codeRoutine (Text.strip found.value.1) <;>
    simp [bind, Except.bind, pure, Except.pure]

theorem exists_node_eq_ok_iff :
    (∃ value, node registry text found = .ok value) ↔
      Text.strip found.value.1 ∈ registry.code.keys := by
  cases h : node registry text found with
  | error error => simp [(node_eq_error_iff.1 h).1]
  | ok value =>
    refine iff_of_true ⟨value, rfl⟩ (by_contra fun hnone => ?_)
    rw [node_eq_error_iff.2 ⟨hnone, rfl⟩] at h
    contradiction

theorem nodes_eq_error_iff {error : Error} :
    Code.nodes registry d text = .error error ↔
      ∃ before found after, finds registry d text = before ++ found :: after ∧
        (∀ earlier ∈ before, Text.strip earlier.value.1 ∈ registry.code.keys) ∧
        Text.strip found.value.1 ∉ registry.code.keys ∧
        error = .noEntry (Text.strip found.value.1) := by
  rw [nodes_eq_mapM, Except.mapM_eq_error_iff]
  simp only [exists_node_eq_ok_iff, node_eq_error_iff]

theorem exists_leadsTo_iff {base : Text} (hbase : registry.code.get? found.value.1 = some base) :
    (∃ value, node registry text found = .ok value ∧ LeadsTo registry text found value) ↔
      registry.IgnoresBlanks found.value.1 := by
  rw [Registry.IgnoresBlanks, hbase]
  constructor
  · rintro ⟨value, hvalue, hleads⟩
    obtain ⟨routine, hroutine, hnode⟩ := Except.bind_eq_ok_iff.1 hvalue
    obtain ⟨other, hother, rfl⟩ := Registry.codeRoutine_eq_ok_iff.1 hroutine
    obtain ⟨base', hbase', hsame⟩ := hleads.routine
    obtain rfl := Except.ok.inj hnode
    obtain rfl := Option.some.inj (hbase.symm.trans hbase')
    rw [hother, List.append_cancel_right (Option.some.inj hsame)]
  · intro h
    have hroutine := Registry.codeRoutine_eq_ok_iff.2 ⟨base, h, rfl⟩
    exact ⟨_, Except.bind_eq_ok_iff.2 ⟨_, hroutine, rfl⟩, rfl, rfl, rfl, base, hbase, rfl⟩

theorem resolves_iff (hd : d.left ≠ []) :
    Resolves registry d text ↔
      ∀ found ∈ finds registry d text, registry.IgnoresBlanks found.value.1 := by
  rw [Resolves, nodes_eq_mapM, Except.exists_mapM_forall₂_iff]
  refine forall₂_congr fun found hf => ?_
  obtain ⟨base, hbase⟩ := exists_base_of_mem_finds hd hf
  exact exists_leadsTo_iff hbase

/-- A name that begins with no blank is read where it stands alone between delimiters. -/
theorem read?_alone (hm : name ∈ registry.code.keys) (hb : ∀ c ∈ name.head?, Text.isBlank c = false)
    (hn : name ≠ []) :
    read? d (Registry.byLength registry.code.keys) (d.left ++ (name ++ d.right)) =
      some ((name, []), []) := by
  have hkey : name ∈ Registry.byLength registry.code.keys := List.mem_mergeSort.2 hm
  have hsome : (read? d (Registry.byLength registry.code.keys)
      (d.left ++ [] ++ name ++ [] ++ d.right ++ [])).isSome :=
    isSome_read? (List.forall_mem_nil _) hkey [] []
  simp only [List.append_nil, List.append_assoc] at hsome
  obtain ⟨⟨⟨other, payload⟩, rest⟩, hread⟩ := Option.isSome_iff_exists.1 hsome
  obtain ⟨blanks, inside, body, earlier, later, hblank, htext, hnames, rfl, hc, hearlier⟩ :=
    exists_of_read? hread
  have hinside := List.append_cancel_left htext
  obtain rfl : blanks = [] := by
    cases blanks with
    | nil => rfl
    | cons b blanks =>
      obtain ⟨c, name, rfl⟩ := List.exists_cons_of_ne_nil hn
      obtain ⟨rfl, -⟩ := List.cons.inj hinside
      exact absurd ((hb c rfl).symm.trans (hblank c List.mem_cons_self)) Bool.false_ne_true
  rw [List.nil_append] at hinside
  have hbody := Text.append_of_cut? hc
  have hlength := congrArg List.length hinside
  rw [← hbody] at hlength
  simp only [List.length_append] at hlength
  have hle : name.length ≤ other.length := by
    rw [hnames] at hkey
    rcases List.mem_append.1 hkey with he | hl
    · exact absurd (List.infix_rfl) (hearlier name he d.right hinside.symm)
    · rcases List.mem_cons.1 hl with rfl | hl
      · exact Nat.le_refl _
      · have hsorted := Registry.pairwise_byLength registry.code.keys
        rw [hnames] at hsorted
        exact List.rel_of_pairwise_cons (List.pairwise_append.1 hsorted).2.1 hl
  obtain ⟨rfl, -⟩ := List.append_inj hinside (by omega)
  obtain rfl : payload = [] := List.length_eq_zero_iff.1 (by omega)
  obtain rfl : rest = [] := List.length_eq_zero_iff.1 (by omega)
  exact hread

theorem finds_alone (hd : d.left ≠ []) (hm : name ∈ registry.code.keys)
    (hb : ∀ c ∈ name.head?, Text.isBlank c = false) (hn : name ≠ []) :
    finds registry d (d.left ++ (name ++ d.right)) =
      [⟨0, d.left ++ (name ++ d.right), (name, [])⟩] := by
  have hread := read?_alone (d := d) hm hb hn
  have hne : d.left ++ (name ++ d.right) ≠ [] := by simp [hd]
  have hscan : Found.scanFrom (read? d (Registry.byLength registry.code.keys)) 0
      (d.left ++ (name ++ d.right) ++ []) = _ :=
    Found.scanFrom_of_some hne (by simpa using hread)
  rw [List.append_nil, Found.scanFrom] at hscan
  exact hscan

theorem forall_resolves_iff (hd : d.left ≠ [])
    (hb : ∀ name ∈ registry.code.keys, ∀ c ∈ name.head?, Text.isBlank c = false) :
    (∀ text, Resolves registry d text) ↔
      ∀ name ∈ registry.code.keys, registry.IgnoresBlanks name := by
  constructor
  · intro h name hm
    by_cases hn : name = []
    · rw [hn]
      exact rfl
    · have hall := (resolves_iff hd).1 (h (d.left ++ (name ++ d.right)))
      rw [finds_alone hd hm (hb name hm) hn] at hall
      exact hall _ List.mem_cons_self
  · intro h text
    refine (resolves_iff hd).2 fun found hf => ?_
    obtain ⟨base, hbase⟩ := exists_base_of_mem_finds hd hf
    exact h _ (Table.mem_keys_iff.2 (by simp [hbase]))

end Code

namespace Tag

def finds (registry : Registry) (d : Delimiters) (text : Text) : List (Found Written) :=
  Found.scan (read? d (Registry.byLength registry.node.keys)) text

/-- Whether a tag says what the entry says with whose name it was read, up to the case of letters.
-/
structure LeadsTo (registry : Registry) (text : Text) (found : Found Written) (tag : Tag) :
    Prop where
  source : tag.source = found.source
  span : tag.span = found.span text
  kind : tag.kind = found.value.kind
  only : ∀ key ∈ registry.node.keys, Alike found.value.name key ↔ key = Text.lower found.value.name
  entry : ∃ entry, registry.node.get? (Text.lower found.value.name) = some entry ∧
  tag.name = entry.name ∧
    ∀ tail, (Pairing.toNode text ⟨tag, tail⟩).routine = some (entry.name ++ "Node")

theorem exists_scan_leadsTo {code : Table Text} {node : Table NodeTag}
    (hn : ∀ name ∈ node.keys, ∀ c ∈ name, Text.isAscii c = true) (hd : d.IsProper) (text : Text) :
    ∃ tags, scan (.ofTags code node) d text = .ok tags ∧
      List.Forall₂ (LeadsTo (.ofTags code node) text) (finds (.ofTags code node) d text) tags := by
  refine Except.exists_mapM_forall₂_iff.2 fun found hf => ?_
  obtain ⟨⟨entry, hentry⟩, honly⟩ := exists_entry_of_mem_scan hn hd hf
  have hok : (Registry.ofTags code node).nodeTag (Text.lower found.value.name) = .ok entry := by
    rw [Registry.nodeTag, hentry]
  refine ⟨_, Except.bind_eq_ok_iff.2 ⟨entry, hok, rfl⟩, rfl, rfl, rfl, honly, entry, hentry,
    rfl, ?_⟩
  intro tail
  cases tail <;> rfl

end Tag

namespace Registry

/-- Node tags lead to the entries with whose names they were read. Code tags do just where the outer
blanks of these names make no difference, and fail at the first name that is not registered without
its outer blanks; for names that begin with no blank each difference shows in some text. -/
theorem exists_entries (code : Table Text) {node : Table NodeTag} {d e : Delimiters}
    (hn : ∀ name ∈ node.keys, ∀ c ∈ name, Text.isAscii c = true) (hd : d.IsProper) (he : e.IsProper)
    (text : Text) :
    (Code.Resolves (.ofTags code node) d text ↔
      ∀ found ∈ Code.finds (.ofTags code node) d text,
      (ofTags code node).IgnoresBlanks found.value.1) ∧
    (∀ error, Code.nodes (.ofTags code node) d text = .error error ↔
      ∃ before found after, Code.finds (.ofTags code node) d text = before ++ found :: after ∧
        (∀ earlier ∈ before, Text.strip earlier.value.1 ∈ code.keys) ∧
        Text.strip found.value.1 ∉ code.keys ∧ error = .noEntry (Text.strip found.value.1)) ∧
    ((∀ name ∈ code.keys, ∀ c ∈ name.head?, Text.isBlank c = false) →
      ((∀ text, Code.Resolves (.ofTags code node) d text) ↔
        ∀ name ∈ code.keys, (ofTags code node).IgnoresBlanks name)) ∧
    ∃ tags, Tag.scan (.ofTags code node) e text = .ok tags ∧
      List.Forall₂ (Tag.LeadsTo (.ofTags code node) text)
      (Tag.finds (.ofTags code node) e text) tags := by
  refine ⟨Code.resolves_iff hd.1, fun error => Code.nodes_eq_error_iff, ?_, ?_⟩
  · exact fun hb => Code.forall_resolves_iff hd.1 hb
  · exact Tag.exists_scan_leadsTo hn he text

def padded : Table Text :=
  .ofList [("a", "low"), ("b ", "high")]

def spaced : Table NodeTag :=
  .ofList [("For Each", ⟨"list", false⟩)]

/-- A text with a code tag and a node tag of these. -/
def spacedText : Text :=
  "\x7b\x7ba 1\x7d\x7d\x7b% for EACH x %\x7d"

theorem exists_entries_spaced :
    (∀ name ∈ spaced.keys, ∀ c ∈ name, Text.isAscii c = true) ∧
      Delimiters.IsProper ({} : DelimiterSet).code ∧ Delimiters.IsProper ({} : DelimiterSet).node ∧
      Code.Resolves (.ofTags padded spaced) ({} : DelimiterSet).code spacedText ∧
      ∃ tags, Tag.scan (.ofTags padded spaced) ({} : DelimiterSet).node spacedText = .ok tags ∧
        List.Forall₂ (Tag.LeadsTo (.ofTags padded spaced) spacedText)
          (Tag.finds (.ofTags padded spaced) ({} : DelimiterSet).node spacedText) tags ∧
        tags.map (·.name) = ["list".toList] := by
  have hkeys : spaced.keys = ["For Each".toList] := rfl
  have hn : ∀ name ∈ spaced.keys, ∀ c ∈ name, Text.isAscii c = true := by
    intro name hm
    rw [hkeys] at hm
    rw [List.mem_singleton.1 hm]
    exact List.all_eq_true.1 rfl
  have hd : Delimiters.IsProper ({} : DelimiterSet).code := by decide
  have he : Delimiters.IsProper ({} : DelimiterSet).node := by decide
  obtain ⟨hcode, -, -, tags, htags, hleads⟩ := exists_entries padded hn hd he spacedText
  have hfinds :
      (Code.finds (.ofTags padded spaced) ({} : DelimiterSet).code spacedText).map (·.value.1) =
      ["a".toList] := by cbv
  have hnames : (Tag.scan (.ofTags padded spaced) ({} : DelimiterSet).node spacedText).map
      (fun tags => tags.map (·.name)) = .ok ["list".toList] := by cbv
  refine ⟨hn, hd, he, hcode.2 fun found hf => ?_, tags, htags, hleads, ?_⟩
  · have hname : found.value.1 ∈ ["a".toList] := hfinds ▸ List.mem_map_of_mem hf
    rw [List.mem_singleton.1 hname]
    rfl
  · rw [htags] at hnames
    exact Except.ok.inj hnames

/-- A code tag whose name ends with a blank is read with that name and looked up without the blank.
-/
theorem nodes_padded :
    (∀ name ∈ padded.keys, name ≠ []) ∧ Delimiters.IsProper ({} : DelimiterSet).code ∧
      Code.read? ({} : DelimiterSet).code (byLength padded.keys) "\x7b\x7bb 1\x7d\x7d" =
        some (("b ".toList, "1".toList), []) ∧
      padded.get? "b " = some "high".toList ∧
      Code.nodes (.ofTags padded spaced) ({} : DelimiterSet).code "\x7b\x7bb 1\x7d\x7d" =
        .error (.noEntry "b") :=
  ⟨by decide, by decide, by cbv, by cbv, by cbv⟩

end Registry

end ThemeMarkup
