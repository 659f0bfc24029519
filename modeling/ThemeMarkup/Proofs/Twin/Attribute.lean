import ThemeMarkup.Proofs.Twin.Expression

namespace ThemeMarkup

def Table.Rel {α β : Type} (R : α → β → Prop) (table : Table α) (other : Table β) : Prop :=
  ∀ key, Option.Rel R (table.get? key) (other.get? key)

namespace Table

variable {α β : Type} {R : α → β → Prop} {table : Table α} {other : Table β}

theorem rel_empty (R : α → β → Prop) : Rel R (∅ : Table α) (∅ : Table β) := by
  intro key
  exact .none

theorem Rel.insert (h : Rel R table other) (key : Text) {value : α} {value' : β}
    (hv : R value value') :
    Rel R (table.insert key value) (other.insert key value') := by
  intro k
  rw [get?_insert, get?_insert]
  split
  · exact .some hv
  · exact h k

theorem Rel.foldl_insert {entries : List (Text × α)} {entries' : List (Text × β)}
    (h : List.Forall₂ (fun entry entry' => entry'.1 = entry.1 ∧ R entry.2 entry'.2) entries
      entries')
    (ht : Rel R table other) :
    Rel R (entries.foldl (fun table (key, value) => table.insert key value) table)
      (entries'.foldl (fun table (key, value) => table.insert key value) other) := by
  induction h generalizing table other with
  | nil => exact ht
  | @cons entry entry' entries entries' he _ ih =>
    obtain ⟨key, value⟩ := entry
    obtain ⟨key', value'⟩ := entry'
    obtain ⟨rfl, hv⟩ := he
    exact ih (ht.insert key' hv)

theorem rel_ofList {entries : List (Text × α)} {entries' : List (Text × β)}
    (h : List.Forall₂ (fun entry entry' => entry'.1 = entry.1 ∧ R entry.2 entry'.2) entries
      entries') :
    Rel R (ofList entries) (ofList entries') :=
  (rel_empty R).foldl_insert h

end Table

namespace Attribute

variable {text rest value : Text} {c : Char}

theorem pairsFrom_append {gap : Text} (h : ∀ c ∈ gap, Text.isBlank c = false) (rest : Text) :
    pairsFrom false (gap ++ rest) = pairsFrom false rest := by
  induction gap with
  | nil => rfl
  | cons c gap ih =>
    obtain ⟨hc, hg⟩ := List.forall_mem_cons.1 h
    rw [List.cons_append, pairsFrom_cons, if_neg Bool.false_ne_true, hc]
    exact ih hg

end Attribute

namespace Marker

open Attribute (isBare isNameChar isNameStart)

variable {kind : Marker} {content rest : Text}

theorem isBare_of_not_isForeign {c : Char} (h : ¬ IsForeign c) : isBare c = true := by
  by_contra hb
  exact h (Attribute.isForeign_of_not_isBare (Bool.not_eq_true _ ▸ hb))

variable [Marker.Serials]

theorem isBlank_of_mem_encode {c : Char} (h : c ∈ encode kind content) :
    Text.isBlank c = false := by
  by_contra hb
  exact not_isForeign_of_mem h (isForeign_of_isBlank (Bool.not_eq_false _ ▸ hb))

theorem read?_encode_eq_none : Attribute.read? (encode kind content ++ rest) = none := by
  obtain ⟨inner, hinner⟩ := exists_encode_eq kind content
  rw [hinner]
  rfl

theorem pairsFrom_encode (free : Bool) :
    Attribute.pairsFrom free (encode kind content ++ rest) = Attribute.pairsFrom false rest := by
  have hinner : Attribute.pairsFrom false (encode kind content ++ rest) =
      Attribute.pairsFrom false rest :=
    Attribute.pairsFrom_append (fun _ hc => isBlank_of_mem_encode hc) rest
  cases free with
  | false => exact hinner
  | true =>
    rw [← hinner]
    have hnone : Attribute.read? (encode kind content ++ rest) = none := read?_encode_eq_none
    obtain ⟨inner, he⟩ := exists_encode_eq kind content
    rw [he, List.cons_append] at hnone ⊢
    rw [Attribute.pairsFrom_cons, Attribute.pairsFrom_cons, if_pos rfl, hnone]
    rfl

theorem readValue?_encode : Attribute.readValue? (encode kind content ++ rest) =
    some ((encode kind content ++ rest).takeWhile isBare,
      (encode kind content ++ rest).dropWhile isBare) := by
  obtain ⟨inner, hinner⟩ := exists_encode_eq kind content
  rw [hinner]
  rfl

namespace Twin

variable {Pair : Marker → Text → Text → Prop} {text text' : Text}

theorem afterEquals? (h : Kin Pair text text') :
    Option.Rel (Kin Pair) (Attribute.afterEquals? text) (Attribute.afterEquals? text') := by
  have hstrip := h.stripLeft
  rw [Attribute.afterEquals?_eq, Attribute.afterEquals?_eq, hstrip.head?_eq]
  by_cases hhead : (Text.stripLeft text).head? = some '='
  · obtain ⟨rest, hrest⟩ := List.head?_eq_some_iff.1 hhead
    rw [hrest] at hstrip ⊢
    obtain ⟨rest', hrest', hmore⟩ := hstrip.exists_of_cons (by decide)
    rw [hrest', List.tail_cons, List.tail_cons, hmore.head?_eq]
    split
    · exact .some hmore.stripLeft
    · exact .none
  · rw [if_neg fun he => hhead he.1, if_neg fun he => hhead he.1]
    exact .none

theorem readQuoted? {quote : Char} (hq : IsForeign quote) (h : Kin Pair text text') :
    Option.Rel (fun read read' => Kin Pair read.1 read'.1 ∧ Kin Pair read.2 read'.2)
      (Attribute.readQuoted? quote text) (Attribute.readQuoted? quote text') := by
  have hne : ∀ c, ¬ IsForeign c → decide (c ≠ quote) = true := by
    intro c hc
    exact decide_eq_true (ne_of_not_isForeign hc hq)
  have hdrop := h.dropWhile hne
  rw [Attribute.readQuoted?, Attribute.readQuoted?]
  cases hd : text.dropWhile (· ≠ quote) with
  | nil =>
    rw [hd] at hdrop
    rw [hdrop.eq_nil.2 rfl]
    exact .none
  | cons c rest =>
    have hhead := List.head?_dropWhile_not (· ≠ quote) text
    rw [hd] at hdrop hhead
    obtain rfl : c = quote := by simpa using hhead
    obtain ⟨rest', hd', hrest⟩ := hdrop.exists_of_cons fun he => absurd (he ▸ hq) (by decide)
    rw [hd']
    exact .some ⟨h.takeWhile hne, hrest⟩

theorem readValue? (h : Kin Pair text text') :
    Option.Rel (fun read read' => Kin Pair read.1 read'.1 ∧ Kin Pair read.2 read'.2)
      (Attribute.readValue? text) (Attribute.readValue? text') := by
  have hbare : ∀ c, ¬ IsForeign c → isBare c = true := fun _ => isBare_of_not_isForeign
  cases h using Twin.inductionOn with
  | nil => exact .none
  | cons c h more =>
    rw [Attribute.readValue?, Attribute.readValue?]
    split
    · next hc =>
      apply more.readQuoted?
      rcases hc with rfl | rfl <;> decide
    · split
      · exact .some ⟨(more.takeWhile hbare).cons c, more.dropWhile hbare⟩
      · exact .none
  | marker kind h pair more =>
    rw [readValue?_encode, readValue?_encode]
    exact .some ⟨h.takeWhile hbare, h.dropWhile hbare⟩

theorem afterName (h : Kin Pair text text') :
    text'.takeWhile isNameChar = text.takeWhile isNameChar ∧
      Option.Rel (Kin Pair) (Attribute.afterEquals? (text.dropWhile isNameChar))
        (Attribute.afterEquals? (text'.dropWhile isNameChar)) := by
  induction h using Twin.inductionOn with
  | nil => exact ⟨rfl, .none⟩
  | cons c h more ih =>
    simp only [List.takeWhile_cons, List.dropWhile_cons]
    split
    · exact ⟨congrArg (c :: ·) ih.1, ih.2⟩
    · exact ⟨rfl, h.afterEquals?⟩
  | marker kind h pair more ih =>
    have hname (content rest : Text) :
        (encode kind content ++ rest).takeWhile isNameChar = ['_', '_'] ∧
        Attribute.afterEquals? ((encode kind content ++ rest).dropWhile isNameChar) = none := by
      obtain ⟨inner, hinner⟩ := exists_encode_eq kind content
      rw [hinner]
      exact ⟨rfl, rfl⟩
    rw [(hname _ _).1, (hname _ _).1, (hname _ _).2, (hname _ _).2]
    exact ⟨rfl, .none⟩

theorem read? (h : Kin Pair text text') :
    Option.Rel (fun read read' => read'.1.1 = read.1.1 ∧ Kin Pair read.1.2 read'.1.2 ∧
      Kin Pair read.2 read'.2) (Attribute.read? text) (Attribute.read? text') := by
  cases h using Twin.inductionOn with
  | nil => exact .none
  | cons c h more =>
    obtain ⟨hname, hafter⟩ := more.afterName
    rw [Attribute.read?, Attribute.read?, hname]
    split
    · rcases Option.Rel.none_or_some hafter with ⟨hx, hy⟩ | ⟨after, after', hx, hy, hafter⟩
      · rw [hx, hy]
        exact .none
      · rw [hx, hy]
        exact Option.Rel.map (fun hvalue => ⟨rfl, hvalue⟩) hafter.readValue?
    · exact .none
  | marker kind h pair more =>
    rw [read?_encode_eq_none, read?_encode_eq_none]
    exact .none

theorem pairsFrom (h : Kin Pair text text') (free : Bool) :
    List.Forall₂ (fun pair pair' => pair'.1 = pair.1 ∧ Kin Pair pair.2 pair'.2)
      (Attribute.pairsFrom free text) (Attribute.pairsFrom free text') := by
  induction hn : text.length using Nat.strongRecOn generalizing text text' free with
  | ind n ih =>
    cases h using Twin.inductionOn with
    | nil =>
      rw [Attribute.pairsFrom]
      exact .nil
    | cons c h more =>
      subst hn
      rw [Attribute.pairsFrom_cons, Attribute.pairsFrom_cons]
      cases free with
      | false => exact ih _ (Nat.lt_succ_self _) more _ rfl
      | true =>
        rw [if_pos rfl, if_pos rfl]
        rcases Option.Rel.none_or_some h.read? with ⟨hx, hy⟩
          | ⟨found, found', hx, hy, hname, hvalue, hrest⟩
        · rw [hx, hy]
          exact ih _ (Nat.lt_succ_self _) more _ rfl
        · have hlt := Nat.lt_succ_of_le (Attribute.suffix_of_read? hx).length_le
          rw [hx, hy]
          exact .cons ⟨hname, hvalue⟩ (ih _ hlt hrest _ rfl)
    | @marker kind content content' rest rest' h pair more =>
      rw [pairsFrom_encode, pairsFrom_encode]
      refine ih rest.length ?_ more false rfl
      rw [← hn, List.length_append]
      exact Nat.lt_add_of_pos_left (List.length_pos_iff.2 (encode_ne_nil kind content))

theorem parse (h : Kin Pair text text') (default? : Option Text) :
    Table.Rel (Kin Pair) (Attribute.parse text default?) (Attribute.parse text' default?) := by
  have hstrip := h.strip
  have hpairs := hstrip.pairsFrom true
  unfold Attribute.parse
  dsimp only
  revert hpairs
  generalize Attribute.pairsFrom true (Text.strip text) = pairs
  generalize Attribute.pairsFrom true (Text.strip text') = pairs'
  intro hpairs
  cases hpairs with
  | cons hpair hpairs =>
    have hlower {pair pair' : Text × Text} (h : pair'.1 = pair.1 ∧ Kin Pair pair.2 pair'.2) :
        Text.lower pair'.1 = Text.lower pair.1 ∧ Kin Pair pair.2 pair'.2 :=
      ⟨congrArg Text.lower h.1, h.2⟩
    apply Table.rel_ofList
    refine .cons (hlower hpair) ?_
    apply List.forall₂_map_left_iff.2
    apply List.forall₂_map_right_iff.2
    exact hpairs.imp fun _ _ => hlower
  | nil =>
    dsimp only
    revert hstrip
    generalize Text.strip text = argument
    generalize Text.strip text' = argument'
    intro hstrip
    cases argument with
    | nil =>
      rw [hstrip.eq_nil.2 rfl]
      exact Table.rel_empty _
    | cons c argument =>
      cases argument' with
      | nil => exact absurd (hstrip.eq_nil.1 rfl) (List.cons_ne_nil c argument)
      | cons c' argument' =>
        cases default? with
        | none => exact Table.rel_empty _
        | some default =>
          cases default with
          | nil => exact Table.rel_empty _
          | cons d default => exact Table.rel_ofList (.cons ⟨rfl, hstrip⟩ .nil)

theorem readAttributes (h : Kin Pair text text') (allowed : List Text) :
    Table.Rel (Kin Pair) (Compiler.readAttributes allowed text)
      (Compiler.readAttributes allowed text') := by
  intro key
  rw [Compiler.get?_readAttributes, Compiler.get?_readAttributes]
  rcases Option.Rel.none_or_some (h.parse allowed.head? key) with
    ⟨hx, hy⟩ | ⟨value, value', hx, hy, hvalue⟩
  · rw [hx, hy, Option.none_or]
    split
    · exact .some (.plain trivial)
    · exact .none
  · rw [hx, hy]
    exact .some hvalue

theorem isMissing_eq {table table' : Table Text} (h : Table.Rel (Kin Pair) table table') :
    Compiler.isMissing table' = Compiler.isMissing table := by
  funext key
  rw [Compiler.isMissing, Compiler.isMissing]
  rcases Option.Rel.none_or_some (h key) with ⟨hx, hy⟩ | ⟨value, value', hx, hy, hvalue⟩
  · rw [hx, hy]
  · rw [hx, hy]
    cases value with
    | nil => rw [hvalue.eq_nil.2 rfl]
    | cons c value =>
      cases value' with
      | nil => exact absurd (hvalue.eq_nil.1 rfl) (List.cons_ne_nil c value)
      | cons c' value' => rfl

end Twin

end Marker

end ThemeMarkup
