import Mathlib
import ThemeMarkup.Proofs.Except
import ThemeMarkup.Proofs.Table
import ThemeMarkup.Proofs.Tag.Code
import ThemeMarkup.Proofs.Text.Blank

namespace ThemeMarkup

theorem Registry.pairwise_byLength (names : List Text) :
    (byLength names).Pairwise fun name later => later.length ≤ name.length := by
  refine (List.pairwise_mergeSort ?_ ?_ names).imp of_decide_eq_true
  · intro a b c hab hbc
    exact decide_eq_true (Nat.le_trans (of_decide_eq_true hbc) (of_decide_eq_true hab))
  · intro a b
    rw [Bool.or_eq_true, decide_eq_true_eq, decide_eq_true_eq]
    exact Nat.le_total ..

theorem Registry.codeRoutine_of_get? {registry : Registry} {name base : Text}
    (h : registry.code.get? name = some base) :
    registry.codeRoutine name = .ok (base ++ "Code") := by
  rw [codeRoutine, h]

namespace Code

/-- Whether a name can be no part of blanks and of no right delimiter. -/
def IsName (name : Text) : Prop :=
  name ≠ [] ∧ ∀ c ∈ name, Text.isBlank c = false ∧ c ≠ '\x7d'

instance (name : Text) : Decidable (IsName name) :=
  decidable_of_iff (name ≠ [] ∧ name.all (fun c => !Text.isBlank c && c != '\x7d') = true)
    (by simp [IsName])

theorem IsName.strip_eq {name : Text} (h : IsName name) : Text.strip name = name :=
  Text.strip_eq_self (fun c hc => (h.2 c (List.mem_of_head? hc)).1) fun c hc =>
    (h.2 c (List.mem_of_getLast? hc)).1

theorem IsName.prefix_known {name known after : Text} (h : IsName name)
    (hp : name <+: known ++ ("\x7d\x7d" ++ after)) :
    name <+: known := by
  obtain ⟨tail, ht⟩ := hp
  rcases List.append_eq_append_iff.1 ht with ⟨gap, hgap, -⟩ | ⟨gap, rfl, hgap⟩
  · exact ⟨gap, hgap.symm⟩
  · cases gap with
    | nil => exact ⟨[], by simp⟩
    | cons c gap =>
      obtain ⟨rfl, -⟩ := List.cons.inj hgap
      exact absurd rfl (h.2 _ (List.mem_append_right known List.mem_cons_self)).2

/-- What stands between the delimiters of a code tag. -/
structure Layout where
  blanks : Text
  name : Text
  payload : Text

namespace Layout

def text (layout : Layout) : Text :=
  "\x7b\x7b" ++ (layout.blanks ++ (layout.name ++ (layout.payload ++ "\x7d\x7d")))

/-- Whether a code tag in front of some text takes all blanks, the longest of the names and the
payload up to the nearest right delimiter. -/
structure Leads (names : List Text) (layout : Layout) (after : Text) : Prop where
  blank : ∀ c ∈ layout.blanks, Text.isBlank c = true
  filled : ∀ c ∈ layout.name.head?, Text.isBlank c = false
  mem : layout.name ∈ names
  longest : ∀ name ∈ names, name <+: layout.name ++ (layout.payload ++ ("\x7d\x7d" ++ after)) →
    name.length ≤ layout.name.length
  nearest : ∀ i < layout.payload.length,
    ¬ ("\x7d\x7d" : Text) <+: (layout.payload ++ ("\x7d\x7d" ++ after)).drop i

/-- Whether a node is that of a code tag at an offset of a text. -/
structure Describes (registry : Registry) (text : Text) (first : Nat) (layout : Layout)
    (node : Node) :
    Prop where
  source : node.source = layout.text
  span : node.span = Span.ofRange text first layout.text.length
  name : node.name = some layout.name
  content : node.content = Text.strip layout.payload
  routine : ∃ base, registry.code.get? layout.name = some base ∧
  node.routine = some (base ++ "Code")

end Layout

variable {names : List Text} {registry : Registry} {text rest name payload : Text}

/-- What is read of a code tag, the names being tried from the longest to the shortest. -/
theorem leads_of_read? (hn : ∀ name ∈ names, IsName name)
    (hl : names.Pairwise fun name later => later.length ≤ name.length)
    (h : read? ({} : DelimiterSet).code names text = some ((name, payload), rest)) :
    ∃ layout : Layout, layout.name = name ∧ layout.payload = payload ∧ text = layout.text ++ rest ∧
      layout.Leads names rest := by
  obtain ⟨blanks, inside, body, earlier, later, hblank, rfl, rfl, rfl, hc, hearlier⟩ :=
    exists_of_read? h
  obtain ⟨hbody, hnearest⟩ := Text.cut?_eq_some_iff.1 hc
  rw [List.append_assoc] at hbody
  subst hbody
  have hmem : name ∈ earlier ++ name :: later := List.mem_append_right earlier List.mem_cons_self
  refine ⟨⟨blanks, name, payload⟩, rfl, rfl, by simp [Layout.text, List.append_assoc], hblank,
    fun c hc => ((hn name hmem).2 c (List.mem_of_head? hc)).1, hmem, ?_, hnearest⟩
  intro other ho hp
  rcases List.mem_append.1 ho with ho | ho
  · have hknown : other <+: name ++ payload := by
      rw [← List.append_assoc] at hp
      exact (hn other (List.mem_append_left _ ho)).prefix_known hp
    obtain ⟨gap, hgap⟩ := hknown
    refine absurd ?_ (hearlier other ho (gap ++ ("\x7d\x7d" ++ rest)) ?_)
    · exact ⟨gap, rest, List.append_assoc ..⟩
    · rw [← List.append_assoc other, hgap]
      exact (List.append_assoc ..).symm
  · rcases List.mem_cons.1 ho with rfl | ho
    · exact Nat.le_refl _
    · exact List.rel_of_pairwise_cons (List.pairwise_append.1 hl).2.1 ho

section Spans

variable {d : Delimiters} {nodes : List Node}

theorem located_scan (hd : d.left ≠ []) (registry : Registry) (text : Text) :
    Found.Located (read? d (Registry.byLength registry.code.keys)) text 0
      (Found.scan (read? d (Registry.byLength registry.code.keys)) text) :=
  ((steady_read? hd _).scans_scanFrom 0 text).located text rfl

theorem spans_nodes (h : Code.nodes registry d text = .ok nodes) :
    nodes.map (·.span) =
      (Found.scan (read? d (Registry.byLength registry.code.keys)) text).map (·.span text) := by
  symm
  rw [← List.forall₂_eq_eq_eq, List.forall₂_map_left_iff, List.forall₂_map_right_iff]
  refine (Except.mapM_eq_ok_iff.1 h).imp fun found node hnode => ?_
  obtain ⟨routine, -, hnode⟩ := Except.bind_eq_ok_iff.1 hnode
  rw [← Except.ok.inj hnode]

theorem pairwise_nodes (hd : d.left ≠ []) (h : Code.nodes registry d text = .ok nodes) :
    nodes.Pairwise fun node next => node.span.last < next.span.first := by
  have hloc := located_scan hd registry text
  have hspans : (nodes.map (·.span)).Pairwise fun span next => span.last < next.first := by
    rw [spans_nodes h, List.pairwise_map]
    refine hloc.ordered.imp_of_mem fun {found next} hf _ hle => ?_
    have hpos := List.length_pos_iff.2 (hloc.reads found hf).1
    simp only [Found.span, Span.ofRange]
    omega
  exact List.pairwise_map.1 hspans

theorem exists_node_of_isSome (hd : d.left ≠ []) (h : Code.nodes registry d text = .ok nodes)
    {i : Nat}
    (hi : i < text.length)
    (hr : (read? d (Registry.byLength registry.code.keys) (text.drop i)).isSome) :
    ∃ node ∈ nodes, node.span.first ≤ i ∧ i ≤ node.span.last := by
  by_contra hnone
  have hquiet := (located_scan hd registry text).silent i (Nat.zero_le i) hi fun found hf hin => ?_
  · rw [hquiet] at hr
    contradiction
  · have hm : found.span text ∈ nodes.map (·.span) := spans_nodes h ▸ List.mem_map_of_mem hf
    obtain ⟨node, hm, hspan⟩ := List.mem_map.1 hm
    refine hnone ⟨node, hm, ?_⟩
    rw [hspan]
    simp only [Found.span, Span.ofRange]
    omega

end Spans

theorem exists_layout (hn : ∀ name ∈ registry.code.keys, IsName name) {found : Found (Text × Text)}
    (hdrop : text.drop found.offset = found.source ++ rest) (hs : found.source ≠ [])
    (hr : read? ({} : DelimiterSet).code (Registry.byLength registry.code.keys)
      (found.source ++ rest) =
      some (found.value, rest)) :
    ∃ (before : Text) (layout : Layout) (base : Text),
      text = before ++ (layout.text ++ rest) ∧ layout.Leads registry.code.keys rest ∧
      found.offset = before.length ∧ found.source = layout.text ∧ found.value.2 = layout.payload ∧
      Text.strip found.value.1 = layout.name ∧ registry.code.get? layout.name = some base := by
  have hmem {name : Text} :
      name ∈ Registry.byLength registry.code.keys ↔ name ∈ registry.code.keys :=
    List.mem_mergeSort
  obtain ⟨layout, hname, hpayload, he, hleads⟩ :=
    leads_of_read? (fun name h => hn name (hmem.1 h)) (Registry.pairwise_byLength _) hr
  have hsource := List.append_cancel_right he
  have hlt : found.offset < text.length := by
    refine Nat.lt_of_not_le fun hle => hs ?_
    rw [List.drop_eq_nil_iff.2 hle] at hdrop
    exact (List.append_eq_nil_iff.1 hdrop.symm).1
  have hkey := hmem.1 hleads.mem
  obtain ⟨base, hbase⟩ := Option.isSome_iff_exists.1 (Table.mem_keys_iff.1 hkey)
  refine ⟨text.take found.offset, layout, base, ?_, ?_, ?_, hsource, hpayload.symm, ?_, hbase⟩
  · rw [← hsource, ← hdrop, List.take_append_drop]
  · exact ⟨hleads.blank, hleads.filled, hkey, fun other ho => hleads.longest other (hmem.2 ho),
      hleads.nearest⟩
  · rw [List.length_take, Nat.min_eq_left (Nat.le_of_lt hlt)]
  · rw [← hname]
    exact (hn _ hkey).strip_eq

theorem exists_nodes_eq_ok (hn : ∀ name ∈ registry.code.keys, IsName name) (text : Text) :
    ∃ nodes, Code.nodes registry ({} : DelimiterSet).code text = .ok nodes := by
  refine Except.exists_mapM_eq_ok fun found hf => ?_
  obtain ⟨hs, rest, hdrop, hread⟩ := (located_scan (by decide) registry text).reads found hf
  obtain ⟨-, layout, base, -, -, -, -, -, hname, hbase⟩ := exists_layout hn hdrop hs hread
  dsimp only
  rw [hname, Registry.codeRoutine_of_get? hbase]
  exact ⟨_, rfl⟩

theorem exists_layout_of_mem_nodes (hn : ∀ name ∈ registry.code.keys, IsName name)
    {nodes : List Node}
    (h : Code.nodes registry ({} : DelimiterSet).code text = .ok nodes) {node : Node}
    (hm : node ∈ nodes) :
    ∃ (before : Text) (layout : Layout) (after : Text), text = before ++ (layout.text ++ after) ∧
      layout.Leads registry.code.keys after ∧
      layout.Describes registry text before.length node := by
  obtain ⟨found, hf, hnode⟩ := exists_of_mem_right (Except.mapM_eq_ok_iff.1 h) hm
  obtain ⟨hs, rest, hdrop, hread⟩ := (located_scan (by decide) registry text).reads found hf
  obtain ⟨before, layout, base, htext, hleads, hoffset, hsource, hpayload, hname, hbase⟩ :=
    exists_layout hn hdrop hs hread
  dsimp only at hnode
  rw [hname, Registry.codeRoutine_of_get? hbase] at hnode
  obtain rfl := Except.ok.inj hnode
  refine ⟨before, layout, rest, htext, hleads, hsource, ?_, rfl, congrArg Text.strip hpayload, base,
    hbase, rfl⟩
  rw [← hoffset, ← hsource]
  rfl

/-- The code tags of a text with the usual delimiters stand one after the other, each with all
blanks, the longest name and the nearest right delimiter, and outside them no blanks and name with a
right delimiter after them follow a left delimiter. -/
theorem exists_nodes_longest (registry : Registry) (hn : ∀ name ∈ registry.code.keys, IsName name)
    (text : Text) :
    ∃ nodes, Code.nodes registry ({} : DelimiterSet).code text = .ok nodes ∧
      (nodes.Pairwise fun node next => node.span.last < next.span.first) ∧
      (∀ node ∈ nodes, ∃ (before : Text) (layout : Layout) (after : Text),
        text = before ++ (layout.text ++ after) ∧ layout.Leads registry.code.keys after ∧
          layout.Describes registry text before.length node) ∧
      ∀ (i : Nat) (blanks name rest : Text), (∀ c ∈ blanks, Text.isBlank c = true) →
        name ∈ registry.code.keys → text.drop i = "\x7b\x7b" ++ (blanks ++ (name ++ rest)) →
          ("\x7d\x7d" : Text) <:+: rest → ∃ node ∈ nodes, node.span.first ≤ i ∧
          i ≤ node.span.last := by
  obtain ⟨nodes, hnodes⟩ := exists_nodes_eq_ok hn text
  refine ⟨nodes, hnodes, pairwise_nodes (by decide) hnodes, fun node hm =>
    exists_layout_of_mem_nodes hn hnodes hm, ?_⟩
  rintro i blanks name rest hblanks hname hdrop ⟨payload, after, rfl⟩
  apply exists_node_of_isSome (by decide) hnodes
  · refine Nat.lt_of_not_le fun hle => ?_
    rw [List.drop_eq_nil_iff.2 hle] at hdrop
    contradiction
  · have hkey : name ∈ Registry.byLength registry.code.keys := List.mem_mergeSort.2 hname
    have hsome := isSome_read? (d := ({} : DelimiterSet).code) hblanks hkey payload after
    simp only [List.append_assoc] at hsome hdrop
    rwa [hdrop]

def prefixed : Registry where
  code := .ofList [("up", "low"), ("upper", "high")]

def prefixedText : Text :=
  "\x7b\x7b upper x\x7d\x7d \x7b\x7bup\x7d\x7d\x7d"

theorem exists_nodes_longest_prefixed :
    (∀ name ∈ prefixed.code.keys, IsName name) ∧
      ∃ nodes, Code.nodes prefixed ({} : DelimiterSet).code prefixedText = .ok nodes ∧
        nodes.map (·.routine) = [some "highCode".toList, some "lowCode".toList] ∧
        (∀ node ∈ nodes, ∃ (before : Text) (layout : Layout) (after : Text),
          prefixedText = before ++ (layout.text ++ after) ∧ layout.Leads prefixed.code.keys after ∧
            layout.Describes prefixed prefixedText before.length node) ∧
        ∃ node ∈ nodes, node.span.first ≤ (13 : Nat) ∧ (13 : Nat) ≤ node.span.last := by
  have hn : ∀ name ∈ prefixed.code.keys, IsName name := by decide
  obtain ⟨nodes, hnodes, -, hlayouts, hcovered⟩ := exists_nodes_longest prefixed hn prefixedText
  have hroutines : (Code.nodes prefixed ({} : DelimiterSet).code prefixedText).map
      (fun nodes => nodes.map (·.routine)) =
      .ok [some "highCode".toList, some "lowCode".toList] := by cbv
  simp only [hnodes, Except.map, Except.ok.injEq] at hroutines
  refine ⟨hn, nodes, hnodes, hroutines, hlayouts, ?_⟩
  exact hcovered 13 [] "up" "\x7d\x7d\x7d" (List.forall_mem_nil _) (by decide) rfl ⟨[], "\x7d", rfl⟩

end Code

end ThemeMarkup
