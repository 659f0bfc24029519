import ThemeMarkup.Compiler.Standard
import ThemeMarkup.Proofs.Tag.Row

namespace ThemeMarkup

/-- Two parts of a text are known if a property holds all through the first and not where the second
begins. -/
theorem Text.eq_of_append_eq {q : Char → Bool} {text text' rest rest' : Text}
    (h : text ++ rest = text' ++ rest') (ht : ∀ c ∈ text, q c = true)
    (ht' : ∀ c ∈ text', q c = true)
    (hr : ∀ c ∈ rest.head?, q c = false) (hr' : ∀ c ∈ rest'.head?, q c = false) :
    text = text' ∧ rest = rest' := by
  induction text generalizing text' with
  | nil =>
    cases text' with
    | nil => exact ⟨rfl, h⟩
    | cons c text' =>
      obtain rfl : rest = c :: (text' ++ rest') := h
      exact absurd (ht' c List.mem_cons_self) (by simp [hr c rfl])
  | cons c text ih =>
    cases text' with
    | nil =>
      obtain rfl : c :: (text ++ rest) = rest' := h
      exact absurd (ht c List.mem_cons_self) (by simp [hr' c rfl])
    | cons d text' =>
      obtain ⟨rfl, htext⟩ := List.cons.inj h
      obtain ⟨rfl, hrest⟩ := ih htext (fun e he => ht e (List.mem_cons_of_mem _ he))
        fun e he => ht' e (List.mem_cons_of_mem _ he)
      exact ⟨rfl, hrest⟩

theorem Registry.get?_of_nodeTag {registry : Registry} {key : Text} {entry : NodeTag}
    (h : registry.nodeTag key = .ok entry) : registry.node.get? key = some entry := by
  unfold nodeTag at h
  split at h
  · next hget => rw [hget, Except.ok.inj h]
  · contradiction

namespace Tag

def isLetter (c : Char) : Bool :=
  'a' ≤ c && c ≤ 'z' || 'A' ≤ c && c ≤ 'Z'

/-- The names of ASCII letters. -/
def IsWord (name : Text) : Prop :=
  name ≠ [] ∧ ∀ c ∈ name, isLetter c = true

instance (name : Text) : Decidable (IsWord name) :=
  inferInstanceAs (Decidable (_ ∧ _))

theorem isAscii_of_isLetter {c : Char} (h : isLetter c = true) : Text.isAscii c = true := by
  have hle : c.toNat ≤ 'z'.toNat := by
    simp only [isLetter, Bool.or_eq_true, Bool.and_eq_true, decide_eq_true_eq] at h
    rcases h with ⟨-, h⟩ | ⟨-, h⟩
    · exact h
    · exact Nat.le_trans h (by decide)
  simp only [Text.isAscii, decide_eq_true_eq]
  exact Nat.lt_of_le_of_lt hle (by decide)

theorem isLetter_lowerAscii (c : Char) : isLetter (Text.lowerAscii c) = isLetter c := by
  by_cases h : Text.isAscii c = true
  · exact Text.forall_isAscii (p := fun c => isLetter (Text.lowerAscii c) = isLetter c)
      (by decide) h
  · rw [Text.lowerAscii_of_not_isAscii h]

theorem not_isAsciiBlank_of_isLetter {c : Char} (h : isLetter c = true) :
    Text.isAsciiBlank c = false :=
  Text.forall_isAscii (p := fun c => isLetter c = true → Text.isAsciiBlank c = false) (by decide)
    (isAscii_of_isLetter h) h

theorem not_isLetter_of_isAsciiBlank {c : Char} (h : Text.isAsciiBlank c = true) :
    isLetter c = false := by
  cases hc : isLetter c with
  | false => rfl
  | true =>
    rw [not_isAsciiBlank_of_isLetter hc] at h
    contradiction

theorem IsWord.of_alike {text name : Text} (hn : IsWord name) (h : Alike text name) :
    IsWord text := by
  refine ⟨?_, fun c hc => ?_⟩
  · rintro rfl
    exact hn.1 (List.map_eq_nil_iff.1 h.symm)
  · have hm : Text.lowerAscii c ∈ name.map Text.lowerAscii := by
      rw [← h]
      exact List.mem_map_of_mem hc
    obtain ⟨d, hd, he⟩ := List.mem_map.1 hm
    rw [← isLetter_lowerAscii, ← he, isLetter_lowerAscii]
    exact hn.2 d hd

theorem isInner_usual_iff {c : Char} : isInner .usual c = true ↔ c ≠ '%' ∧ c ≠ '\x7d' := by
  have hcaseless {d : Char} (hd : d ∈ ['\x7b', '%', '\x7d']) :
      Text.lowerAscii c = Text.lowerAscii d ↔ c = d :=
    ⟨Delimiters.isCaseless_of_mem hd c, congrArg _⟩
  have hright : Delimiters.usual.right.map Text.lowerAscii =
      [Text.lowerAscii '%', Text.lowerAscii '\x7d'] := rfl
  rw [isInner, hright]
  simp [List.contains_eq_mem, hcaseless]

/-- The parts of a node tag between its delimiters. -/
structure Layout where
  kind : TagKind
  /-- The blanks before the colon of a tail. -/
  blanks : Text := []
  /-- The blanks before the name. -/
  gap : Text := []
  name : Text
  qualifier : Text := []
  argument : Text := []
  deriving DecidableEq, Repr

namespace Layout

variable {names : List Text} {layout layout' : Layout}

/-- What stands from the name on. -/
def rest (layout : Layout) : Text :=
  layout.name ++ (layout.qualifier ++ (layout.argument ++ "%\x7d"))

def text (layout : Layout) : Text :=
  "\x7b%" ++ (layout.blanks ++ (colon layout.kind ++ (layout.gap ++ layout.rest)))

/-- What a node of the tag is given: nothing if it is a tail. -/
def given (layout : Layout) : Text :=
  match layout.kind with
  | .head => Text.strip layout.argument
  | .tail => []

/-- The parts of node tags: blanks of ASCII, one of some names in letters of either case, a
qualifier after a colon or none, and an argument after a blank or none. -/
structure IsTag (names : List Text) (layout : Layout) : Prop where
  blanks : ∀ c ∈ layout.blanks, Text.isAsciiBlank c = true
  gap : ∀ c ∈ layout.gap, Text.isAsciiBlank c = true
  name : ∃ name ∈ names, Alike layout.name name
  qualifier : layout.qualifier = [] ∨ ∃ inner, inner ≠ [] ∧ layout.qualifier = ':' :: inner ∧
    ∀ c ∈ inner, Text.isAsciiBlank c = false ∧ c ≠ '%' ∧ c ≠ '\x7d'
  argument : layout.argument = [] ∨ ∃ blank inner, layout.argument = blank :: inner ∧
    Text.isAsciiBlank blank = true ∧ ∀ c ∈ inner, c ≠ '%' ∧ c ≠ '\x7d'

theorem IsTag.spells (h : layout.IsTag names) :
    Written.Spells .usual names ⟨layout.kind, layout.name, layout.argument⟩ layout.text where
  parts := by
    refine ⟨"\x7b%", layout.blanks, layout.gap, layout.qualifier, "%\x7d", rfl, h.blanks, h.gap, ?_,
      rfl, rfl⟩
    refine h.qualifier.imp_right fun ⟨inner, hne, he, hi⟩ => ⟨inner, hne, he, fun c hc => ?_⟩
    obtain ⟨hblank, hinner⟩ := hi c hc
    rw [inQualifier, isInner_usual_iff.2 hinner, hblank]
    rfl
  name := h.name
  argument := h.argument.imp_right fun ⟨blank, inner, he, hb, hi⟩ =>
    ⟨blank, inner, he, hb, fun c hc => isInner_usual_iff.2 (hi c hc)⟩

theorem exists_of_spells {w : Written} {source : Text} (h : w.Spells .usual names source) :
    ∃ layout : Layout, layout.IsTag names ∧ layout.text = source ∧ layout.kind = w.kind ∧
      layout.name = w.name ∧ layout.argument = w.argument := by
  obtain ⟨left, blanks, gap, qualifier, right, hl, hb, hg, hq, hr, rfl⟩ := h.parts
  obtain rfl := Delimiters.eq_left_of_alike hl
  obtain rfl := Delimiters.eq_right_of_alike hr
  refine ⟨⟨w.kind, blanks, gap, w.name, qualifier, w.argument⟩, ⟨hb, hg, h.name, ?_, ?_⟩, rfl,
    rfl, rfl, rfl⟩
  · rcases hq with hq | ⟨inner, hne, he, hi⟩
    · exact .inl hq
    · refine .inr ⟨inner, hne, he, fun c hc => ?_⟩
      have hboth := hi c hc
      rw [inQualifier, Bool.and_eq_true, Bool.not_eq_true'] at hboth
      exact ⟨hboth.2, isInner_usual_iff.1 hboth.1⟩
  · rcases h.argument with ha | ⟨blank, inner, he, hb, hi⟩
    · exact .inl ha
    · exact .inr ⟨blank, inner, he, hb, fun c hc => isInner_usual_iff.1 (hi c hc)⟩

theorem IsTag.isWord (hn : ∀ name ∈ names, IsWord name) (h : layout.IsTag names) :
    IsWord layout.name := by
  obtain ⟨name, hm, ha⟩ := h.name
  exact (hn name hm).of_alike ha

theorem head?_rest (hw : IsWord layout.name) : ∀ c ∈ layout.rest.head?, isLetter c = true := by
  intro c hc
  obtain ⟨d, name, hname⟩ := List.exists_cons_of_ne_nil hw.1
  rw [rest, hname] at hc
  obtain rfl := Option.some.inj hc
  exact hw.2 d (hname ▸ List.mem_cons_self)

theorem IsTag.head?_after (h : layout.IsTag names) :
    ∀ c ∈ (layout.qualifier ++ (layout.argument ++ "%\x7d")).head?, isLetter c = false := by
  intro c hc
  rcases h.qualifier with hq | ⟨inner, -, hq, -⟩
  · rw [hq, List.nil_append] at hc
    rcases h.argument with ha | ⟨blank, inner, ha, hb, -⟩
    · rw [ha] at hc
      obtain rfl := Option.some.inj hc
      decide
    · rw [ha] at hc
      obtain rfl := Option.some.inj hc
      exact not_isLetter_of_isAsciiBlank hb
  · rw [hq] at hc
    obtain rfl := Option.some.inj hc
    decide

theorem IsTag.eq_of_rest (hn : ∀ name ∈ names, IsWord name) (h : layout.IsTag names)
    (h' : layout'.IsTag names) (he : layout.rest = layout'.rest) :
    layout.name = layout'.name ∧ layout.argument = layout'.argument := by
  obtain ⟨hname, hafter⟩ := Text.eq_of_append_eq he (h.isWord hn).2 (h'.isWord hn).2 h.head?_after
    h'.head?_after
  refine ⟨hname, ?_⟩
  rw [← List.append_assoc, ← List.append_assoc] at hafter
  have hboth : layout.qualifier ++ layout.argument = layout'.qualifier ++ layout'.argument :=
    List.append_cancel_right hafter
  have hblank {layout : Layout} (h : layout.IsTag names) :
      ∀ c ∈ layout.argument.head?, Text.isAsciiBlank c = true := by
    intro c hc
    rcases h.argument with ha | ⟨blank, inner, ha, hb, -⟩
    · rw [ha] at hc
      contradiction
    · rw [ha] at hc
      obtain rfl := Option.some.inj hc
      exact hb
  have hfilled {layout : Layout} (h : layout.IsTag names) :
      ∀ c ∈ layout.qualifier, (!Text.isAsciiBlank c) = true := by
    intro c hc
    rcases h.qualifier with hq | ⟨inner, -, hq, hi⟩
    · rw [hq] at hc
      contradiction
    · rw [hq] at hc
      rcases List.mem_cons.1 hc with rfl | hc
      · rfl
      · rw [(hi c hc).1]
        rfl
  exact (Text.eq_of_append_eq hboth (hfilled h) (hfilled h')
    (fun c hc => by rw [hblank h c hc]; rfl) fun c hc => by rw [hblank h' c hc]; rfl).2

/-- What stands after the blanks that begin a tag: the colon of a tail, or the name of a head. -/
def afterBlanks (layout : Layout) : Text :=
  match layout.kind with
  | .head => layout.rest
  | .tail => ':' :: (layout.gap ++ layout.rest)

theorem IsTag.exists_blanks (h : layout.IsTag names) :
    ∃ blanks, (∀ c ∈ blanks, Text.isAsciiBlank c = true) ∧
      layout.text = "\x7b%" ++ (blanks ++ layout.afterBlanks) := by
  cases hk : layout.kind with
  | head =>
    refine ⟨layout.blanks ++ layout.gap, List.forall_mem_append.2 ⟨h.blanks, h.gap⟩, ?_⟩
    rw [text, afterBlanks, hk, List.append_assoc]
    rfl
  | tail =>
    refine ⟨layout.blanks, h.blanks, ?_⟩
    rw [text, afterBlanks, hk]
    rfl

theorem head?_afterBlanks (hw : IsWord layout.name) :
    ∀ c ∈ layout.afterBlanks.head?, Text.isAsciiBlank c = false ∧
    (c = ':' ↔ layout.kind = .tail) := by
  intro c hc
  cases hk : layout.kind with
  | head =>
    rw [afterBlanks, hk] at hc
    have hletter := head?_rest hw c hc
    refine ⟨not_isAsciiBlank_of_isLetter hletter, ?_⟩
    constructor
    · rintro rfl
      contradiction
    · intro he
      contradiction
  | tail =>
    rw [afterBlanks, hk] at hc
    obtain rfl := Option.some.inj hc
    exact ⟨rfl, iff_of_true rfl rfl⟩

/-- Where names are words, a tag is read in one way. -/
theorem IsTag.unique (hn : ∀ name ∈ names, IsWord name) (h : layout.IsTag names)
    (h' : layout'.IsTag names) (he : layout.text = layout'.text) :
    layout.kind = layout'.kind ∧ layout.name = layout'.name ∧
    layout.argument = layout'.argument := by
  obtain ⟨blanks, hblanks, htext⟩ := h.exists_blanks
  obtain ⟨blanks', hblanks', htext'⟩ := h'.exists_blanks
  have hhead := head?_afterBlanks (h.isWord hn)
  have hother := head?_afterBlanks (h'.isWord hn)
  rw [htext, htext'] at he
  obtain ⟨-, hafter⟩ := Text.eq_of_append_eq (List.append_cancel_left he) hblanks hblanks'
    (fun c hc => (hhead c hc).1) fun c hc => (hother c hc).1
  have hfirst {layout : Layout} (hw : IsWord layout.name) :
      ∀ c ∈ layout.rest.head?, Text.isAsciiBlank c = false := fun c hc =>
    not_isAsciiBlank_of_isLetter (head?_rest hw c hc)
  cases hk : layout.kind with
  | head =>
    cases hk' : layout'.kind with
    | head =>
      rw [afterBlanks, afterBlanks, hk, hk'] at hafter
      exact ⟨rfl, h.eq_of_rest hn h' hafter⟩
    | tail =>
      have hcolon : ':' ∈ layout.afterBlanks.head? := by
        rw [hafter, afterBlanks, hk']
        rfl
      rw [(hhead ':' hcolon).2.1 rfl] at hk
      contradiction
  | tail =>
    cases hk' : layout'.kind with
    | head =>
      have hcolon : ':' ∈ layout'.afterBlanks.head? := by
        rw [← hafter, afterBlanks, hk]
        rfl
      rw [(hother ':' hcolon).2.1 rfl] at hk'
      contradiction
    | tail =>
      rw [afterBlanks, afterBlanks, hk, hk'] at hafter
      obtain ⟨-, hrest⟩ := Text.eq_of_append_eq (List.cons.inj hafter).2 h.gap h'.gap
        (hfirst (h.isWord hn)) (hfirst (h'.isWord hn))
      exact ⟨rfl, h.eq_of_rest hn h' hrest⟩

/-- What a node says that is made of the tag with these parts. -/
structure Describes (registry : Registry) (layout : Layout) (node : Node) : Prop where
  kind : node.kind = some layout.kind
  name : ∃ entry, registry.node.get? (Text.lower layout.name) = some entry ∧
    node.name = some entry.name
  content : node.content = layout.given
  argument : node.argument = layout.given

end Layout

theorem exists_alike_iff (code : Table Text) {node : Table NodeTag}
    (hn : ∀ name ∈ node.keys, IsWord name) {text : Text} :
    (∃ key ∈ Registry.byLength (Registry.ofTags code node).node.keys, Alike text key) ↔
      ∃ name ∈ node.keys, Alike text name := by
  have hlower (name : Text) (hm : name ∈ node.keys) : Alike (Text.lower name) name := by
    have hascii : ∀ c ∈ name, Text.isAscii c = true := fun c hc =>
      isAscii_of_isLetter ((hn name hm).2 c hc)
    rw [Alike, Text.lower_of_isAscii hascii, List.map_map]
    exact List.map_congr_left fun c _ => Text.lowerAscii_lowerAscii c
  constructor
  · rintro ⟨key, hkey, ha⟩
    obtain ⟨name, hm, rfl⟩ := mem_keys_ofTags.1 (List.mem_mergeSort.1 hkey)
    exact ⟨name, hm, Eq.trans ha (hlower name hm)⟩
  · rintro ⟨name, hm, ha⟩
    have hkey : Text.lower name ∈ (Registry.ofTags code node).node.keys :=
      mem_keys_ofTags.2 ⟨name, hm, rfl⟩
    exact ⟨Text.lower name, List.mem_mergeSort.2 hkey, Eq.trans ha (hlower name hm).symm⟩

variable {node : Table NodeTag}

theorem Layout.isTag_byLength_iff (code : Table Text) (hn : ∀ name ∈ node.keys, IsWord name)
    {layout : Layout} :
    layout.IsTag (Registry.byLength (Registry.ofTags code node).node.keys) ↔
      layout.IsTag node.keys :=
  ⟨fun h => ⟨h.blanks, h.gap, (exists_alike_iff code hn).1 h.name, h.qualifier, h.argument⟩,
    fun h => ⟨h.blanks, h.gap, (exists_alike_iff code hn).2 h.name, h.qualifier, h.argument⟩⟩

/-- A tag of a scan is written by the parts that its node tells of, and by no others. -/
theorem layouts_of_mem_scan {code : Table Text} {text : Text} {tags : List Tag} {tag : Tag}
    (hn : ∀ name ∈ node.keys, IsWord name) (hs : scan (.ofTags code node) .usual text = .ok tags)
    (hm : tag ∈ tags) :
    (∃ layout : Layout, layout.IsTag node.keys ∧ layout.text = tag.source) ∧
      ∀ layout : Layout, layout.IsTag node.keys → layout.text = tag.source →
        layout.Describes (.ofTags code node) tag.toNode := by
  let names := Registry.byLength (Registry.ofTags code node).node.keys
  obtain ⟨found, hf, htag⟩ := exists_of_mem_right (Except.mapM_eq_ok_iff.1 hs) hm
  have hscan := (steady_read? (d := .usual) (by decide) (by decide) names).scans_scanFrom 0 text
  obtain ⟨-, rest, -, hread⟩ := (hscan.located text rfl).reads found hf
  obtain ⟨source, hspells, he⟩ := spells_of_read? hread
  obtain rfl := List.append_cancel_right he
  obtain ⟨layout, hlayout, htext, hkind, hname, hargument⟩ := Layout.exists_of_spells hspells
  have hlayout : layout.IsTag node.keys := (Layout.isTag_byLength_iff code hn).1 hlayout
  cases hentry : (Registry.ofTags code node).nodeTag (Text.lower found.value.name) with
  | error e =>
    simp only [hentry, bind, Except.bind] at htag
    contradiction
  | ok entry =>
    simp only [hentry, bind, Except.bind] at htag
    obtain rfl := Except.ok.inj htag
    refine ⟨⟨layout, hlayout, htext⟩, fun layout' hlayout' htext' => ?_⟩
    obtain ⟨hkind', hname', hargument'⟩ := hlayout'.unique hn hlayout (htext'.trans htext.symm)
    rw [hkind] at hkind'
    rw [hname] at hname'
    rw [hargument] at hargument'
    have hgiven : layout'.given =
        if found.value.kind = .head then Text.strip found.value.argument else [] := by
      rw [Layout.given, hkind', hargument']
      cases found.value.kind <;> rfl
    refine ⟨congrArg some hkind'.symm, ⟨entry, ?_, rfl⟩, hgiven.symm, hgiven.symm⟩
    rw [hname']
    exact Registry.get?_of_nodeTag hentry

/-- The node tags of a text are what a scan gives: in their order, each where it stands and as its
layout says, and no tag begins outside them. -/
theorem scan_grammar (code : Table Text) (hn : ∀ name ∈ node.keys, IsWord name) (text : Text) :
    ∃ tags, scan (.ofTags code node) ({} : DelimiterSet).node text = .ok tags ∧ InOrder text tags ∧
      (∀ tag ∈ tags, tag.span.Covers text tag.source ∧
        (∃ layout : Layout, layout.IsTag node.keys ∧ layout.text = tag.source) ∧
        ∀ layout : Layout, layout.IsTag node.keys → layout.text = tag.source →
          layout.Describes (.ofTags code node) tag.toNode) ∧
      ∀ (i : Nat) (layout : Layout), layout.IsTag node.keys → layout.text <+: text.drop i →
        ∃ tag ∈ tags, tag.span.first ≤ i ∧ i ≤ tag.span.last := by
  have hd : ({} : DelimiterSet).node.IsProper := by decide
  have hascii : ∀ name ∈ node.keys, ∀ c ∈ name, Text.isAscii c = true := fun name hm c hc =>
    isAscii_of_isLetter ((hn name hm).2 c hc)
  obtain ⟨tags, hs⟩ := exists_scan_eq_ok code hascii hd text
  have hrow := row_of_scan hd hs
  refine ⟨tags, hs, hrow.inOrder, fun tag hm => ?_, fun i layout hl hp => ?_⟩
  · exact ⟨(hrow.stands hm).1.covers, layouts_of_mem_scan hn hs hm⟩
  · by_contra hout
    obtain ⟨after, hafter⟩ := hp
    have hlt : i < text.length := by
      by_contra hge
      rw [List.drop_of_length_le (by omega)] at hafter
      exact absurd (List.append_eq_nil_iff.1 hafter).1 (List.cons_ne_nil _ _)
    have hread := isSome_read? hd.2 ((Layout.isTag_byLength_iff code hn).2 hl).spells after
    rw [hafter, hrow.silent (by omega) (by omega) hlt fun tag hm hi => hout ⟨tag, hm, hi⟩] at hread
    contradiction

theorem scan_grammar_standard :
    (∀ name ∈ Standard.nodeTags.keys, IsWord name) ∧
      ∃ tags, scan (.ofTags Standard.codeTags Standard.nodeTags) ({} : DelimiterSet).node
          "\x7b% IF $a %\x7d\x7b%:if%\x7d\x7b% iffy %\x7d" = .ok tags ∧
        ∃ tag ∈ tags, tag.span.first ≤ 11 ∧ 11 ≤ tag.span.last := by
  have hwords : ∀ name ∈ Standard.nodeTags.keys, IsWord name := by decide
  obtain ⟨tags, hs, -, -, hall⟩ := scan_grammar Standard.codeTags hwords
    "\x7b% IF $a %\x7d\x7b%:if%\x7d\x7b% iffy %\x7d"
  refine ⟨hwords, tags, hs, hall 11 { kind := .tail, name := "if" } ?_ (by decide)⟩
  exact ⟨by decide, by decide, ⟨"if", by decide, rfl⟩, .inl rfl, .inl rfl⟩

end Tag

end ThemeMarkup
