import ThemeMarkup.Proofs.Tag.Code
import ThemeMarkup.Proofs.Template.Basic

namespace ThemeMarkup

def IsSafe (c : Char) : Prop :=
  c ≠ '%' ∧ c ≠ '\x7b' ∧ c ≠ '\x7d'

instance (c : Char) : Decidable (IsSafe c) :=
  inferInstanceAs (Decidable (_ ∧ _ ∧ _))

theorem Value.isSafe (value : Value) {c : Char} (hc : c ∈ value.text) : IsSafe c := by
  have h := value.plain c hc
  refine ⟨?_, ?_, ?_⟩ <;>
    rintro rfl <;> exact h (by decide)

theorem Value.not_mem_hash (value : Value) : '#' ∉ value.text := by
  intro h
  exact value.plain _ h (by decide)

theorem Value.not_mem_quote (value : Value) : '"' ∉ value.text := by
  intro h
  exact value.plain _ h (by decide)

namespace Attribute

variable {attributes : List (Text × Option Text)} {name : Text}

theorem isSafe_of_isNameChar {c : Char} (h : isNameChar c = true) : IsSafe c := by
  refine ⟨?_, ?_, ?_⟩ <;>
    rintro rfl <;> contradiction

def AreValues (attributes : List (Text × Option Text)) : Prop :=
  ∀ pair ∈ present attributes, IsName pair.1 ∧ ∃ value : Value, pair.2 = value.text

theorem areValues_nil : AreValues [] :=
  List.forall_mem_nil _

theorem AreValues.cons (h : AreValues attributes) (hn : IsName name) (value? : Option Value) :
    AreValues ((name, value?.map Value.text) :: attributes) := by
  cases value? with
  | none => exact h
  | some value => exact List.forall_mem_cons.2 ⟨⟨hn, value, rfl⟩, h⟩

/-- Attributes that can be read from a tag that gives them. -/
def AreSafe (attributes : List (Text × Option Text)) : Prop :=
  ∀ pair ∈ present attributes, IsName pair.1 ∧ '"' ∉ pair.2 ∧ ∀ c ∈ pair.2, IsSafe c

theorem AreSafe.areLegible (h : AreSafe attributes) : AreLegible (present attributes) := by
  intro pair hp
  obtain ⟨hn, hq, -⟩ := h pair hp
  exact ⟨hn, hq⟩

theorem AreValues.areSafe (h : AreValues attributes) : AreSafe attributes := by
  intro pair hp
  obtain ⟨hn, value, hv⟩ := h pair hp
  exact ⟨hn, hv ▸ value.not_mem_quote, fun c hc => value.isSafe (hv ▸ hc)⟩

theorem AreSafe.isSafe (h : AreSafe attributes) {c : Char} (hc : c ∈ argument attributes) :
    IsSafe c := by
  have hspace : IsSafe ' ' := by decide
  have hequals : IsSafe '=' := by decide
  have hquote : IsSafe '"' := by decide
  rcases List.mem_append.1 hc with hc | hc
  · obtain ⟨pair, hp, hc⟩ := List.mem_flatMap.1 hc
    obtain ⟨hn, -, hv⟩ := h pair hp
    simp only [List.mem_cons, List.mem_append, List.not_mem_nil, or_false] at hc
    rcases hc with rfl | hc | rfl | rfl | hc | rfl
    · exact hspace
    · exact isSafe_of_isNameChar (List.all_eq_true.1 hn.2.1 c hc)
    · exact hequals
    · exact hquote
    · exact hv c hc
    · exact hquote
  · rw [List.mem_singleton.1 hc]
    exact hspace

theorem exists_argument (attributes : List (Text × Option Text)) :
    ∃ inner, argument attributes = ' ' :: inner := by
  rw [argument]
  cases present attributes with
  | nil => exact ⟨[], rfl⟩
  | cons pair pairs => exact ⟨_, by rw [written_cons]; rfl⟩

end Attribute

open Attribute (AreValues areValues_nil)

theorem Single.areValues (tag : Single) : AreValues tag.attributes := by
  cases tag with
  | elseif condition => exact areValues_nil.cons (by decide) (some condition)
  | otherwise => exact areValues_nil
  | inclusion file suffix =>
    exact (areValues_nil.cons (by decide) suffix).cons (by decide) (some file)
  | assignment name value =>
    exact (areValues_nil.cons (by decide) value).cons (by decide) (some name)
  | leave => exact areValues_nil
  | resume => exact areValues_nil

theorem Block.areValues (tag : Block) : AreValues tag.attributes := by
  cases tag with
  | condition value => exact areValues_nil.cons (by decide) (some value)
  | loop iterable key value index =>
    have hindex : AreValues [("index", index.map Value.text)] :=
      areValues_nil.cons (by decide) index
    exact ((hindex.cons (by decide) value).cons (by decide) key).cons (by decide) (some iterable)

namespace Standard

def nodeNames : List Text :=
  ["if", "elseif", "else", "list", "include", "assign", "break", "continue"].map String.toList

/-- The names of node tags in the order in which they are tried. -/
def names : List Text :=
  Registry.byLength (Registry.ofTags codeTags nodeTags).node.keys

theorem mem_names_iff {name : Text} : name ∈ names ↔ name ∈ nodeNames :=
  List.mem_mergeSort

/-- The names of code tags in the order in which they are tried. -/
def codeNames : List Text :=
  Registry.byLength (Registry.ofTags codeTags nodeTags).code.keys

theorem mem_codeNames_iff {name : Text} :
    name ∈ codeNames ↔ name ∈ ["$", ":", "#", "~"].map String.toList :=
  List.mem_mergeSort

theorem isPlain_of_mem {name : Text} (h : name ∈ names) : Tag.IsPlain name := by
  have hall : ∀ name ∈ nodeNames, Tag.IsPlain name := by decide
  exact hall name (mem_names_iff.1 h)

end Standard

theorem Sigil.read?_written (sigil : Sigil) {payload : Text}
    (h : ¬ ("\x7d\x7d" : Text) <:+: payload) (rest : Text) :
    Code.read? ({} : DelimiterSet).code Standard.codeNames
    (Writer.source.code sigil payload ++ rest) =
      some ((sigil.name, payload ++ [' ']), rest) := by
  have hlength : ∀ other ∈ Standard.codeNames, other.length = 1 := by
    have hall : ∀ other ∈ ["$", ":", "#", "~"].map String.toList, other.length = 1 := by decide
    exact fun other ho => hall other (Standard.mem_codeNames_iff.1 ho)
  have hmem : sigil.name ∈ Standard.codeNames := by
    apply Standard.mem_codeNames_iff.2
    cases sigil <;> decide
  obtain ⟨c, hc, hb⟩ : ∃ c, sigil.name = [c] ∧ Text.isBlank c = false := by
    cases sigil with
    | value => exact ⟨'$', rfl, by decide⟩
    | echo => exact ⟨':', rfl, by decide⟩
    | note => exact ⟨'#', rfl, by decide⟩
    | statement => exact ⟨'~', rfl, by decide⟩
  have hsource : Writer.source.code sigil payload ++ rest =
      ("\x7b\x7b " : Text) ++ c :: (payload ++ ((" \x7d\x7d" : Text) ++ rest)) := by
    simp [Writer.source, hc]
  rw [hsource, hc]
  exact Code.read?_written hlength (hc ▸ hmem) hb h rest

theorem Single.name_mem (tag : Single) : tag.name ∈ Standard.names := by
  have hall : ∀ name ∈ ["elseif", "else", "include", "assign", "break", "continue"],
      name.toList ∈ Standard.nodeNames := by decide
  apply Standard.mem_names_iff.2
  cases tag with
  | elseif => exact hall "elseif" (by decide)
  | otherwise => exact hall "else" (by decide)
  | inclusion => exact hall "include" (by decide)
  | assignment => exact hall "assign" (by decide)
  | leave => exact hall "break" (by decide)
  | resume => exact hall "continue" (by decide)

theorem Block.name_mem (tag : Block) : tag.name ∈ Standard.names := by
  have hall : ∀ name ∈ ["if", "list"], name.toList ∈ Standard.nodeNames := by decide
  apply Standard.mem_names_iff.2
  cases tag with
  | condition => exact hall "if" (by decide)
  | loop => exact hall "list" (by decide)

def Tag.IsWritten (argument : Text) : Prop :=
  ∃ inner, argument = ' ' :: inner ∧ ∀ c ∈ inner, IsSafe c

theorem Attribute.AreSafe.isWritten {attributes : List (Text × Option Text)}
    (h : AreSafe attributes) : Tag.IsWritten (argument attributes) := by
  obtain ⟨inner, hi⟩ := exists_argument attributes
  refine ⟨inner, hi, fun c hc => h.isSafe ?_⟩
  rw [hi]
  exact List.mem_cons_of_mem _ hc

theorem Tag.isWritten_space : IsWritten [' '] :=
  ⟨[], rfl, List.forall_mem_nil _⟩

namespace Tag

variable {kind : TagKind} {name argument : Text}

theorem isInner_of_isSafe {c : Char} (h : IsSafe c) : isInner .usual c = true := by
  have hpercent : Text.IsCaseless '%' := Text.isCaseless_of_forall (by decide) (by decide)
  have hbrace : Text.IsCaseless '\x7d' := Text.isCaseless_of_forall (by decide) (by decide)
  have hright : Delimiters.usual.right = ['%', '\x7d'] := rfl
  rw [isInner, hright, List.contains_eq_mem]
  simp only [List.map_cons, List.map_nil, List.mem_cons, List.not_mem_nil, or_false,
    Bool.not_eq_true', decide_eq_false_iff_not, not_or]
  constructor
  · intro he
    exact h.1 (hpercent c he)
  · intro he
    exact h.2.2 (hbrace c he)

theorem read?_written_standard (hn : name ∈ Standard.names) (ha : IsWritten argument)
    (kind : TagKind) (rest : Text) :
    read? .usual Standard.names (written kind name argument ++ rest) =
      some (⟨kind, name, argument⟩, rest) := by
  obtain ⟨inner, rfl, hi⟩ := ha
  have hplain : ∀ other ∈ Standard.names, IsPlain other := fun other => Standard.isPlain_of_mem
  exact read?_written hplain hn (fun c hc => isInner_of_isSafe (hi c hc)) kind rest

theorem exists_written (hn : name ∈ Standard.names) (kind : TagKind) (argument : Text) :
    ∃ c text, written kind name argument = ("\x7b% " : Text) ++ c :: text ∧
      Text.isAsciiBlank c = false ∧ Text.lowerAscii c ≠ 't' := by
  cases kind with
  | tail => exact ⟨':', _, rfl, by decide, by decide⟩
  | head =>
    obtain ⟨c, rest, hc, hletter⟩ := (Standard.isPlain_of_mem hn).exists_cons
    refine ⟨c, rest ++ (argument ++ ("%\x7d" : Text)), ?_, hletter.blank, ?_⟩
    · rw [hc]
      rfl
    · have hall : ∀ name ∈ Standard.nodeNames, name.head?.map Text.lowerAscii ≠ some 't' := by
        decide
      have hname := hall name (Standard.mem_names_iff.1 hn)
      rw [hc] at hname
      exact fun he => hname (congrArg some he)

theorem not_mem_written (hn : name ∈ Standard.names) (ha : IsWritten argument) (kind : TagKind) :
    ∃ text, written kind name argument = '\x7b' :: '%' :: text ∧ '\x7b' ∉ text := by
  obtain ⟨inner, rfl, hi⟩ := ha
  refine ⟨' ' :: (colon kind ++ (name ++ (' ' :: inner ++ ("%\x7d" : Text)))), rfl, ?_⟩
  have hname : '\x7b' ∉ name := by
    intro hm
    exact absurd ((Standard.isPlain_of_mem hn).2 _ hm) (by decide)
  have hinner : '\x7b' ∉ inner := by
    intro hm
    exact (hi _ hm).2.1 rfl
  have hcolon : '\x7b' ∉ colon kind := by
    cases kind <;> decide
  simp [hname, hinner, hcolon]

end Tag

end ThemeMarkup
