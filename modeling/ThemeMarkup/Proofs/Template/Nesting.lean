import ThemeMarkup.Config.Engine
import ThemeMarkup.Proofs.Template.Routines
import ThemeMarkup.Proofs.Template.Stages

namespace ThemeMarkup

namespace Tag

variable {full text gap : Text} {offset : Nat} {tags : List Tag} {kind : TagKind}
  {name argument : Text}

/-- A tag that is written at some offset of a text. -/
def located (full : Text) (offset : Nat) (kind : TagKind) (name argument : Text) : Tag where
  kind := kind
  name := name
  argument := if kind = .head then Text.strip argument else []
  source := written kind name argument
  span := Span.ofRange full offset (written kind name argument).length

theorem written_ne_nil (kind : TagKind) (name argument : Text) : written kind name argument ≠ [] :=
  List.cons_ne_nil _ _

theorem last_located (full : Text) (offset : Nat) (kind : TagKind) (name argument : Text) :
    (located full offset kind name argument).span.last + 1 =
      (offset + (written kind name argument).length : Nat) := by
  have hpos := List.length_pos_iff.2 (written_ne_nil kind name argument)
  simp only [located, Span.ofRange]
  omega

def ofFound (registry : Registry) (full : Text) (found : Found Written) : Except Error Tag := do
  let entry ← registry.nodeTag (Text.lower found.value.name)
  return { kind := found.value.kind
           name := entry.name
           argument := if found.value.kind = .head then Text.strip found.value.argument else []
           source := found.source
           span := found.span full }

/-- Whether the tags from an offset of a text on are the given ones. -/
def Scanned (full : Text) (offset : Nat) (text : Text) (tags : List Tag) : Prop :=
  ∃ finds, Found.Scans (read? .usual Standard.names) offset text finds ∧
    List.Forall₂
      (fun found tag => ofFound (.ofTags Standard.codeTags Standard.nodeTags) full found = .ok tag)
      finds tags

theorem scanned_nil (full : Text) (offset : Nat) : Scanned full offset [] [] :=
  ⟨[], .done fun i hi => absurd hi (Nat.not_lt_zero i), .nil⟩

theorem Scanned.skip (h : Scanned full (offset + gap.length) text tags) (hg : '\x7b' ∉ gap) :
    Scanned full offset (gap ++ text) tags := by
  obtain ⟨finds, hscans, hfinds⟩ := h
  have hbegins : Found.Begins ['\x7b', '%'] (read? .usual Standard.names) := begins_read? _
  exact ⟨finds, hscans.append (hbegins.silent_of_not_mem hg text), hfinds⟩

theorem ofFound_written (hn : name ∈ Standard.names) :
    ofFound (.ofTags Standard.codeTags Standard.nodeTags) full
      ⟨offset, written kind name argument, ⟨kind, name, argument⟩⟩ =
        .ok (located full offset kind name argument) := by
  have hall : ∀ name ∈ Standard.nodeNames,
      ((Registry.ofTags Standard.codeTags Standard.nodeTags).node.get? (Text.lower name)).map
        NodeTag.name = some name := by decide
  obtain ⟨entry, hget, rfl⟩ := Option.map_eq_some_iff.1 (hall name (Standard.mem_names_iff.1 hn))
  rw [ofFound, Registry.nodeTag]
  simp only [hget]
  rfl

theorem Scanned.cons (hn : name ∈ Standard.names) (ha : IsWritten argument)
    (h : Scanned full (offset + (written kind name argument).length) text tags) :
    Scanned full offset (written kind name argument ++ text)
      (located full offset kind name argument :: tags) := by
  obtain ⟨finds, hscans, hfinds⟩ := h
  have hread := read?_written_standard hn ha kind text
  have hhere := hscans.here (written_ne_nil kind name argument) hread
  exact ⟨_, hhere, .cons (ofFound_written hn) hfinds⟩

section Around

variable {body rest ending : Text}
  (h : full.drop offset = written .head name argument ++
    (body ++ (written .tail name ending ++ rest)))

include h

theorem slice_body :
    full.slice ((located full offset .head name argument).span.last + 1)
      (located full (offset + (written .head name argument).length + body.length) .tail name
        ending).span.first = body := by
  have hbody := Text.drop_add h
  rw [last_located]
  apply Text.slice_of_drop hbody
  rw [hbody]
  exact List.append_ne_nil_of_right_ne_nil _ (List.cons_ne_nil _ _)

theorem slice_pair :
    full.slice (located full offset .head name argument).span.first
      ((located full (offset + (written .head name argument).length + body.length) .tail name
        ending).span.last + 1) =
      written .head name argument ++ (body ++ written .tail name ending) := by
  have hpair : full.drop offset =
      (written .head name argument ++ (body ++ written .tail name ending)) ++ rest := by
    rw [h, List.append_assoc, List.append_assoc]
  have hslice := Text.slice_of_drop hpair (h ▸ List.cons_ne_nil _ _)
  rw [List.length_append, List.length_append, ← Nat.add_assoc, ← Nat.add_assoc] at hslice
  rw [last_located]
  exact hslice

end Around

variable [Marker.Serials]

theorem Scanned.scan_eq (h : Scanned text 0 text tags) (suffix : Text) :
    scan (Compiler.standard suffix).registry .usual text = .ok tags := by
  obtain ⟨finds, hscans, hfinds⟩ := h
  have hfound : Found.scan (read? .usual Standard.names) text = finds := hscans.scanFrom_eq
  have hmap := Except.mapM_eq_ok_iff.2 hfinds
  rw [← hfound] at hmap
  exact hmap

end Tag

namespace Template

variable {t : Template} {full rest : Text} {offset : Nat}

theorem nameCloses_single (strict : Bool) (tag : Single) (block : Block) :
    nameCloses strict tag.name block.name = false := by
  cases strict <;> cases tag <;> cases block <;> rfl

theorem nameCloses_self (strict : Bool) (tag : Block) :
    nameCloses strict tag.name tag.name = true := by
  cases strict <;> cases tag <;> rfl

variable [Marker.Serials]

/-- The tags of a template that begins at an offset of a text, those of a body inside the pair
around it. -/
def forest (full : Text) : Template → Nat → Forest
  | nil, _ => .nil
  | text content next, offset => next.forest full (offset + content.length)
  | code sigil payload next, offset =>
    next.forest full (offset + (Writer.guarded.code sigil payload).length)
  | literal interior next, offset =>
    next.forest full (offset + (Writer.guarded.literal interior).length)
  | single tag next, offset =>
    .lone (Tag.located full offset .head tag.name (Attribute.argument tag.attributes))
      (next.forest full (offset + (Writer.guarded.single tag).length))
  | block tag body next, offset =>
    let inside := offset + (Writer.guarded.opening tag).length
    let after := inside + (body.write .guarded).length
    .pair (Tag.located full offset .head tag.name (Attribute.argument tag.attributes))
      (body.forest full inside) (Tag.located full after .tail tag.name [' '])
      (next.forest full (after + (Writer.guarded.closing tag).length))

/-- What the scan gives for a template are the tags of its forest. -/
theorem scanned_forest {tags : List Tag} (h : ∀ token ∈ t.tokens, token.IsProper)
    (hr : Tag.Scanned full (offset + (t.write .guarded).length) rest tags) :
    Tag.Scanned full offset (t.write .guarded ++ rest) ((t.forest full offset).tags ++ tags) := by
  induction t generalizing offset rest tags with
  | nil => exact hr
  | text content next ih =>
    obtain ⟨hcontent, hnext⟩ := List.forall_mem_cons.1 h
    rw [write, List.length_append, ← Nat.add_assoc] at hr
    rw [write, List.append_assoc]
    exact (ih hnext hr).skip hcontent.1
  | code sigil payload next ih =>
    rw [write, List.length_append, ← Nat.add_assoc] at hr
    rw [write, List.append_assoc]
    have hmarker := Marker.brace_not_mem_encode .code (sigil.meaning payload)
    exact (ih (List.forall_mem_cons.1 h).2 hr).skip hmarker
  | literal interior next ih =>
    rw [write, List.length_append, ← Nat.add_assoc] at hr
    rw [write, List.append_assoc]
    have hmarker := Marker.brace_not_mem_encode .literal (Text.strip interior)
    exact (ih (List.forall_mem_cons.1 h).2 hr).skip hmarker
  | single tag next ih =>
    rw [write, List.length_append, ← Nat.add_assoc] at hr
    rw [write, List.append_assoc]
    exact (ih (List.forall_mem_cons.1 h).2 hr).cons tag.name_mem tag.areValues.areSafe.isWritten
  | block tag body next ihb ih =>
    obtain ⟨hbody, hrest⟩ := List.forall_mem_append.1 (List.forall_mem_cons.1 h).2
    have hnext := (List.forall_mem_cons.1 hrest).2
    simp only [write, List.length_append, ← Nat.add_assoc] at hr
    simp only [write, List.append_assoc, forest, Forest.tags, List.cons_append]
    have htail := (ih hnext hr).cons tag.name_mem Tag.isWritten_space
    exact (ihb hbody htail).cons tag.name_mem tag.areValues.areSafe.isWritten

theorem strays_forest (t : Template) (full : Text) (offset : Nat) :
    (t.forest full offset).strays = [] := by
  induction t generalizing offset with
  | nil => rfl
  | text content next ih => exact ih _
  | code sigil payload next ih => exact ih _
  | literal interior next ih => exact ih _
  | single tag next ih => exact ih _
  | block tag body next _ ih => exact ih _

theorem isSingle_name (suffix : Text) (tag : Single) :
    (Compiler.standard suffix).registry.isSingle tag.name = true := by
  cases tag <;> rfl

theorem matched_forest (suffix : Text) (strict : Bool) (t : Template) (full : Text) (offset : Nat)
    {waiting : Option Tag} (hw : ∀ tail ∈ waiting, ∃ block : Block, tail.name = block.name) :
    (t.forest full offset).Matched (Compiler.standard suffix).registry strict waiting := by
  induction t generalizing offset waiting with
  | nil => trivial
  | text content next ih => exact ih _ hw
  | code sigil payload next ih => exact ih _ hw
  | literal interior next ih => exact ih _ hw
  | single tag next ih =>
    refine ⟨rfl, isSingle_name suffix tag, ?_, ih _ hw⟩
    intro tail ht
    rw [Forest.firstStray, strays_forest] at ht
    obtain ⟨block, hblock⟩ := hw tail ht
    rw [hblock]
    exact nameCloses_single strict tag block
  | block tag body next ihb ih =>
    refine ⟨rfl, rfl, nameCloses_self strict tag, strays_forest body full _, ?_, ih _ hw⟩
    apply ihb
    rintro tail ⟨⟩
    exact ⟨tag, rfl⟩

theorem write_compiled_eq_nil (suffix : Text) (h : t.write .guarded = []) :
    t.write (.compiled suffix) = [] := by
  induction t with
  | nil => rfl
  | text content next ih =>
    obtain ⟨hcontent, hnext⟩ := List.append_eq_nil_iff.1 h
    rw [write, hcontent, ih hnext]
    rfl
  | code sigil payload next =>
    exact absurd (List.append_eq_nil_iff.1 h).1 (Marker.encode_ne_nil .code (sigil.meaning payload))
  | literal interior next =>
    exact absurd (List.append_eq_nil_iff.1 h).1
      (Marker.encode_ne_nil .literal (Text.strip interior))
  | single tag next => contradiction
  | block tag body next => contradiction

section Nodes

variable {suffix gap text out : Text} {children : List Node} (hg : '\x7b' ∉ gap)
  (hs : Node.substituted (.standard suffix) text children = .ok out)

include hg hs

theorem substituted_loneNode (tag : Single) (full : Text) (offset : Nat) :
    Node.substituted (.standard suffix) (gap ++ (Writer.guarded.single tag ++ text))
      (Pairing.loneNode full
        (Tag.located full offset .head tag.name (Attribute.argument tag.attributes)) :: children) =
      .ok (gap ++ (tag.meaning suffix ++ out)) := by
  let head := Tag.located full offset .head tag.name (Attribute.argument tag.attributes)
  obtain ⟨content, hw, hc⟩ := tag.exists_routine suffix
  have hnode : (Pairing.loneNode full head).compileContent (.standard suffix) =
      .ok (tag.meaning suffix) := tag.allows.compileContent_loneNode rfl rfl hw hc
  have hcut : Text.cut? (Pairing.loneNode full head).source (gap ++ (head.source ++ text)) =
      some (gap, text) := Text.cut?_of_not_mem hg rfl text
  have hcons := Node.substituted_cons_of_ok hcut hnode hs
  rw [List.append_assoc] at hcons
  exact hcons

/-- A tag with a body gives its place to what it means around what the body compiles to. -/
theorem substituted_pairNode (tag : Block) {body new : Text} {inner : List Node}
    (h : full.drop offset =
      Writer.guarded.opening tag ++ (body ++ (Writer.guarded.closing tag ++ rest)))
    (hb : Node.substituted (.standard suffix) body inner = .ok new) (he : body = [] → new = []) :
    Node.substituted (.standard suffix)
      (gap ++ (Writer.guarded.opening tag ++ (body ++ (Writer.guarded.closing tag ++ text))))
      (Pairing.pairNode full
        (Tag.located full offset .head tag.name (Attribute.argument tag.attributes))
        (Tag.located full (offset + (Writer.guarded.opening tag).length + body.length) .tail
          tag.name
          [' ']) inner :: children) =
      .ok (gap ++ (tag.opening ++ (new ++ (tag.closing ++ out)))) := by
  let head := Tag.located full offset .head tag.name (Attribute.argument tag.attributes)
  let tail := Tag.located full (offset + (Writer.guarded.opening tag).length + body.length) .tail
    tag.name [' ']
  let node := Pairing.pairNode full head tail inner
  obtain ⟨content, hw, hc⟩ := tag.exists_routine suffix
  have hbody : full.slice (head.span.last + 1) tail.span.first = body := Tag.slice_body h
  have hnode : node.compileContent (.standard suffix) =
      .ok (tag.opening ++ new ++ tag.closing) := by
    apply tag.allows.compileContent_pairNode rfl rfl hw (hbody.symm ▸ hb)
    · intro hslice
      exact he (hbody ▸ hslice)
    · intro node hold hcontent
      rw [hc node hold, hcontent]
  have hsource : node.source =
      Writer.guarded.opening tag ++ (body ++ Writer.guarded.closing tag) := Tag.slice_pair h
  have hcut : Text.cut? node.source (gap ++ (node.source ++ text)) = some (gap, text) := by
    apply Text.cut?_of_not_mem hg
    rw [hsource]
    rfl
  have hcons := Node.substituted_cons_of_ok hcut hnode hs
  rw [hsource] at hcons
  simp only [List.append_assoc] at hcons
  exact hcons

end Nodes

/-- Compiling the nodes of a template's forest writes what its tags mean. -/
theorem substituted_forest (suffix : Text) {gap : Text} (hg : '\x7b' ∉ gap)
    (hp : ∀ token ∈ t.tokens, token.IsProper) (h : full.drop offset = t.write .guarded ++ rest) :
    Node.substituted (.standard suffix) (gap ++ t.write .guarded)
      ((t.forest full offset).nodes full) = .ok (gap ++ t.write (.compiled suffix)) := by
  induction t generalizing offset rest gap with
  | nil => exact Node.substituted_nil ..
  | text content next ih =>
    obtain ⟨hcontent, hnext⟩ := List.forall_mem_cons.1 hp
    rw [write, List.append_assoc] at h
    rw [write, write, ← List.append_assoc, ← List.append_assoc]
    exact ih (List.not_mem_append hg hcontent.1) hnext (Text.drop_add h)
  | code sigil payload next ih =>
    have hmarker := Marker.brace_not_mem_encode .code (sigil.meaning payload)
    rw [write, List.append_assoc] at h
    rw [write, write, ← List.append_assoc, ← List.append_assoc]
    exact ih (List.not_mem_append hg hmarker) (List.forall_mem_cons.1 hp).2 (Text.drop_add h)
  | literal interior next ih =>
    have hmarker := Marker.brace_not_mem_encode .literal (Text.strip interior)
    rw [write, List.append_assoc] at h
    rw [write, write, ← List.append_assoc, ← List.append_assoc]
    exact ih (List.not_mem_append hg hmarker) (List.forall_mem_cons.1 hp).2 (Text.drop_add h)
  | single tag next ih =>
    rw [write, List.append_assoc] at h
    have hnext := ih List.not_mem_nil (List.forall_mem_cons.1 hp).2 (Text.drop_add h)
    exact substituted_loneNode hg hnext tag full offset
  | block tag body next ihb ih =>
    obtain ⟨hbody, hrest⟩ := List.forall_mem_append.1 (List.forall_mem_cons.1 hp).2
    simp only [write, List.append_assoc] at h ⊢
    have hin := Text.drop_add h
    have hinner := ihb List.not_mem_nil hbody hin
    have hnext := ih List.not_mem_nil (List.forall_mem_cons.1 hrest).2
      (Text.drop_add (Text.drop_add hin))
    exact substituted_pairNode hg hnext tag h hinner (write_compiled_eq_nil suffix)

theorem runPass_node (suffix : Text) (strict : Bool) (h : t.IsProper) :
    (Engine.standard suffix strict).runPass .node (t.write .guarded) =
      .ok (t.write (.compiled suffix)) := by
  let engine := Engine.standard suffix strict
  let text := t.write .guarded
  have hscanned : Tag.Scanned text 0 (text ++ []) ((t.forest text 0).tags ++ []) :=
    scanned_forest h.1 (Tag.scanned_nil ..)
  rw [List.append_nil, List.append_nil] at hscanned
  have hscan : Tag.scan engine.compiler.registry engine.delimiters.node text =
      .ok (t.forest text 0).tags := hscanned.scan_eq suffix
  have hmatched : (t.forest text 0).Matched engine.compiler.registry engine.strict none :=
    matched_forest suffix strict t text 0 nofun
  have hdrop : text.drop 0 = text ++ [] := (List.append_nil text).symm
  rw [Engine.runPass_node_of_scan (Engine.isProper_standard suffix strict) hscan,
    Forest.grow_eq_ok_iff.2 ⟨rfl, hmatched⟩]
  exact substituted_forest suffix List.not_mem_nil h.1 hdrop

end Template

variable [Marker.Serials]

/-- The node pass fails at a head tag after text without braces if its name needs a tail tag. -/
theorem Engine.runPass_node_unpaired (suffix : Text) (strict : Bool) {name argument gap : Text}
    (hn : name ∈ Standard.names) (ha : Tag.IsWritten argument)
    (hs : (Compiler.standard suffix).registry.isSingle name = false) (hg : '\x7b' ∉ gap) :
    let tag := Tag.written .head name argument
    (standard suffix strict).runPass .node (gap ++ tag) = .error (.tag
      { fault := .unpaired name, span := Span.ofRange (gap ++ tag) gap.length tag.length }) := by
  intro tag
  let engine := standard suffix strict
  let head := Tag.located (gap ++ tag) gap.length .head name argument
  have hscanned : Tag.Scanned (gap ++ tag) 0 (gap ++ (tag ++ [])) [head] := by
    apply Tag.Scanned.skip _ hg
    rw [Nat.zero_add]
    exact (Tag.scanned_nil ..).cons hn ha
  rw [List.append_nil] at hscanned
  have hscan : Tag.scan engine.compiler.registry engine.delimiters.node (gap ++ tag) = .ok [head] :=
    hscanned.scan_eq suffix
  have hgrow : Forest.grow engine.compiler.registry engine.strict [head] = .error (.tag
      { fault := .unpaired name, span := Span.ofRange (gap ++ tag) gap.length tag.length }) := by
    have hsingle : engine.compiler.registry.isSingle head.name = false := hs
    rw [Forest.grow, Forest.grow]
    change Forest.pushLone engine.compiler.registry head .nil = _
    rw [Forest.pushLone, hsingle]
    rfl
  rw [runPass_node_of_scan (isProper_standard suffix strict) hscan, hgrow]
  rfl

end ThemeMarkup
