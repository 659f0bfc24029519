import Mathlib
import ThemeMarkup.Compiler.Basic
import ThemeMarkup.Proofs.Attribute.Printed

namespace ThemeMarkup

namespace Attribute

variable {name value rest : Text} {pairs : List (Text × Text)}

/-- The names of attributes as they are written: in lower case. -/
def IsName (name : Text) : Prop :=
  name.head?.any isNameStart = true ∧ name.all isNameChar = true ∧ Text.lower name = name

instance (name : Text) : Decidable (IsName name) :=
  inferInstanceAs (Decidable (_ ∧ _ ∧ _))

def AreLegible (pairs : List (Text × Text)) : Prop :=
  ∀ pair ∈ pairs, IsName pair.1 ∧ '"' ∉ pair.2

/-- Pairs as they are written, each after a space. -/
def written (pairs : List (Text × Text)) : Text :=
  pairs.flatMap fun (name, value) => ' ' :: (name ++ '=' :: '"' :: (value ++ ['"']))

/-- The attributes of a list that have a value. -/
def present : List (Text × Option Text) → List (Text × Text)
  | [] => []
  | (_, none) :: attributes => present attributes
  | (name, some value) :: attributes => (name, value) :: present attributes

theorem written_cons (pair : Text × Text) (pairs : List (Text × Text)) :
    written (pair :: pairs) =
      ' ' :: (pair.1 ++ '=' :: '"' :: (pair.2 ++ '"' :: written pairs)) := by
  simp [written]

theorem exists_following (h : AreLegible pairs) :
    ∃ more : List (Text × Item), Printing.following more = written pairs ∧
      (∀ part ∈ more, part.1 = [' ']) ∧
      more.map (fun part => (part.2.name, part.2.value)) = pairs := by
  induction pairs with
  | nil => exact ⟨[], rfl, List.forall_mem_nil _, rfl⟩
  | cons pair pairs ih =>
    obtain ⟨⟨hn, hv⟩, hp⟩ := List.forall_mem_cons.1 h
    obtain ⟨more, hmore, hgaps, hpairs⟩ := ih hp
    let item : Item := ⟨pair.1, pair.2, .double, [], [], ⟨hn.1, hn.2.1⟩, hv,
      List.forall_mem_nil _, List.forall_mem_nil _⟩
    refine ⟨([' '], item) :: more, ?_, List.forall_mem_cons.2 ⟨rfl, hgaps⟩, ?_⟩
    · rw [Printing.following, List.flatMap_cons, ← Printing.following, hmore]
      rfl
    · rw [List.map_cons, hpairs]

/-- Pairs are read back from what is written of them. -/
theorem parse_written (h : AreLegible pairs) (default? : Option Text) :
    parse (Text.strip (written pairs ++ [' '])) default? = Table.ofList pairs := by
  have hstrip : parse (Text.strip (written pairs ++ [' '])) default? =
      parse (written pairs ++ [' ']) default? := by
    unfold parse
    rw [Text.strip_strip]
  obtain ⟨more, hmore, hgaps, hpairs⟩ := exists_following h
  have happart : ∀ part ∈ more, part.1 ≠ [] ∧ ∀ c ∈ part.1, Text.isBlank c = true := by
    intro part hm
    rw [hgaps part hm]
    exact ⟨List.cons_ne_nil _ _, List.forall_mem_singleton.2 (by decide)⟩
  rw [hstrip]
  cases more with
  | nil =>
    obtain rfl := hpairs
    have hnone : pairsFrom true [] = [] := by rw [pairsFrom]
    have hblank : Text.strip (written [] ++ [' ']) = [] := rfl
    unfold parse
    dsimp only
    rw [List.map_nil, hblank, hnone]
    rfl
  | cons part more =>
    obtain ⟨gap, item⟩ := part
    obtain ⟨⟨-, hlead⟩, hmore'⟩ := List.forall_mem_cons.1 happart
    let printing : Printing := ⟨gap, item, more, [' '], hlead, hmore',
      List.forall_mem_singleton.2 (by decide)⟩
    have htext : printing.text = written pairs ++ [' '] := by
      rw [← hmore, Printing.following, List.flatMap_cons, List.append_assoc gap]
      rfl
    have hlower : ∀ pair ∈ pairs, (Text.lower pair.1, pair.2) = pair := by
      intro pair hp
      rw [(h pair hp).1.2.2]
    have hitems : printing.items.map (fun item => (item.name, item.value)) = pairs := by
      rw [Printing.items, List.map_cons, List.map_map]
      exact hpairs
    have hread : printing.items.map (fun item => (Text.lower item.name, item.value)) = pairs := by
      calc printing.items.map (fun item => (Text.lower item.name, item.value))
          = (printing.items.map fun item => (item.name, item.value)).map
              fun pair => (Text.lower pair.1, pair.2) := by rw [List.map_map]; rfl
        _ = pairs.map id := by rw [hitems]; exact List.map_congr_left hlower
        _ = pairs := List.map_id pairs
    rw [← htext, parse_text, hread]

end Attribute

namespace Attribute

variable {key : Text} {value? : Option Text} {attributes : List (Text × Option Text)}

theorem map_fst_present_sublist (attributes : List (Text × Option Text)) :
    List.Sublist ((present attributes).map Prod.fst) (attributes.map Prod.fst) := by
  induction attributes with
  | nil => exact .slnil
  | cons first attributes ih =>
    obtain ⟨name, value?⟩ := first
    cases value? with
    | none => exact ih.cons name
    | some value => exact ih.cons_cons name

/-- Of attributes with distinct names each one that is present has its value. -/
theorem lookup_present (hn : (attributes.map Prod.fst).Nodup) (h : (key, value?) ∈ attributes) :
    (present attributes).lookup key = value? := by
  induction attributes with
  | nil => contradiction
  | cons first attributes ih =>
    obtain ⟨hout, hrest⟩ := List.nodup_cons.1 hn
    obtain ⟨name, other?⟩ := first
    cases List.mem_cons.1 h with
    | inl he =>
      cases he
      cases value? with
      | some value => exact List.lookup_cons_self
      | none =>
        apply List.lookup_eq_none_iff.2
        intro entry hentry
        apply bne_iff_ne.2
        rintro rfl
        exact hout ((map_fst_present_sublist attributes).subset (List.mem_map_of_mem hentry))
    | inr hm =>
      have hne : key ≠ name := by
        rintro rfl
        exact hout (List.mem_map.2 ⟨_, hm, rfl⟩)
      cases other? with
      | none => exact ih hrest hm
      | some other =>
        rw [present, List.lookup_cons, beq_false_of_ne hne]
        exact ih hrest hm

end Attribute

namespace Compiler

theorem get?_readAttributes (allowed : List Text) (argument key : Text) :
    (readAttributes allowed argument).get? key =
      ((Attribute.parse argument allowed.head?).get? key).or
        (if key ∈ allowed then some [] else none) := by
  rw [readAttributes]
  generalize Attribute.parse argument allowed.head? = table
  induction allowed generalizing table with
  | nil => exact Option.or_none.symm
  | cons name allowed ih =>
    rw [List.foldl_cons, ih]
    cases hname : table.get? name with
    | some value =>
      rw [Option.isSome_some, if_pos rfl]
      by_cases hk : key = name
      · rw [hk, hname]
        rfl
      · simp [List.mem_cons, hk]
    | none =>
      rw [Option.isSome_none, if_neg Bool.false_ne_true, Table.get?_insert]
      by_cases hk : key = name
      · rw [if_pos hk, hk, hname, if_pos List.mem_cons_self]
        rfl
      · simp [List.mem_cons, hk]

theorem get?_readAttributes_written {attributes : List (Text × Option Text)} {key : Text}
    {value? : Option Text} (hn : (attributes.map Prod.fst).Nodup)
    (hl : Attribute.AreLegible (Attribute.present attributes)) (h : (key, value?) ∈ attributes) :
    (readAttributes (attributes.map Prod.fst)
      (Text.strip (Attribute.written (Attribute.present attributes) ++ [' ']))).get? key =
        some (value?.getD []) := by
  have hdistinct := (Attribute.map_fst_present_sublist attributes).nodup hn
  rw [get?_readAttributes, Attribute.parse_written hl, Table.get?_ofList hdistinct,
    Attribute.lookup_present hn h, if_pos (List.mem_map.2 ⟨_, h, rfl⟩)]
  cases value? <;> rfl

end Compiler

end ThemeMarkup
