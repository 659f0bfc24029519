import ThemeMarkup.Proofs.Attribute.Reading
import ThemeMarkup.Proofs.Table

namespace ThemeMarkup.Attribute

variable {value rest gap : Text} {c : Char}

/-- The styles of values: in double quotes, in single quotes and bare. -/
inductive Style where
  | double
  | single
  | bare

namespace Style

def Admits : Style → Text → Prop
  | double, value => '"' ∉ value
  | single, value => '\'' ∉ value
  | bare, value => value ≠ [] ∧ (∀ c ∈ value, isBare c = true) ∧ value.head? ≠ some '='

instance (style : Style) (value : Text) : Decidable (style.Admits value) :=
  match style with
  | double => inferInstanceAs (Decidable ('"' ∉ value))
  | single => inferInstanceAs (Decidable ('\'' ∉ value))
  | bare => inferInstanceAs (Decidable (_ ∧ _ ∧ _))

def print : Style → Text → Text
  | double, value => '"' :: (value ++ ['"'])
  | single, value => '\'' :: (value ++ ['\''])
  | bare, value => value

variable {style : Style}

theorem isBlank_of_isBare (h : isBare c = true) : Text.isBlank c = false := by
  simp only [isBare, Bool.and_eq_true, Bool.not_eq_true'] at h
  exact h.1.1

theorem Admits.exists_cons (h : style.Admits value) :
    ∃ c more, style.print value = c :: more ∧ Text.isBlank c = false ∧ c ≠ '=' := by
  cases style with
  | double => exact ⟨_, _, rfl, by decide, by decide⟩
  | single => exact ⟨_, _, rfl, by decide, by decide⟩
  | bare =>
    obtain ⟨hne, hbare, hequals⟩ := h
    obtain ⟨c, more, rfl⟩ := List.exists_cons_of_ne_nil hne
    refine ⟨c, more, rfl, isBlank_of_isBare (hbare c List.mem_cons_self), ?_⟩
    rintro rfl
    exact hequals rfl

theorem Admits.getLast? (h : style.Admits value) :
    ∀ c ∈ (style.print value).getLast?, Text.isBlank c = false := by
  intro c hc
  cases style with
  | double =>
    rw [print, ← List.cons_append, List.getLast?_concat] at hc
    cases hc
    decide
  | single =>
    rw [print, ← List.cons_append, List.getLast?_concat] at hc
    cases hc
    decide
  | bare => exact isBlank_of_isBare (h.2.1 c (List.mem_of_getLast? hc))

theorem Admits.readValue? (h : style.Admits value) (hr : ∀ c ∈ rest.head?, Text.isBlank c = true) :
    readValue? (style.print value ++ rest) = some (value, rest) := by
  cases style with
  | double =>
    rw [print, List.cons_append, List.append_assoc, Attribute.readValue?, if_pos (.inl rfl)]
    exact readQuoted?_append h
  | single =>
    rw [print, List.cons_append, List.append_assoc, Attribute.readValue?, if_pos (.inr rfl)]
    exact readQuoted?_append h
  | bare =>
    obtain ⟨hne, hbare, -⟩ := h
    obtain ⟨c, more, rfl⟩ := List.exists_cons_of_ne_nil hne
    obtain ⟨hc, hmore⟩ := List.forall_mem_cons.1 hbare
    have hmark : ¬ (c = '"' ∨ c = '\'') := by
      rintro (rfl | rfl) <;> contradiction
    have hstop : ∀ d ∈ rest.head?, isBare d = false := by
      intro d hd
      simp [isBare, hr d hd]
    rw [print, List.cons_append, Attribute.readValue?, if_neg hmark, if_pos hc,
      List.takeWhile_append_of_pos hmore, List.dropWhile_append_of_pos hmore,
      Text.dropWhile_eq_self hstop, Text.takeWhile_eq_nil hstop, List.append_nil]

end Style

/-- A pair as it is printed: name and value in its style, with blanks around the equals sign. -/
structure Item where
  name : Text
  value : Text
  style : Style
  left : Text
  right : Text
  isName : name.head?.any isNameStart = true ∧ name.all isNameChar = true
  admits : style.Admits value
  left_blank : ∀ c ∈ left, Text.isBlank c = true
  right_blank : ∀ c ∈ right, Text.isBlank c = true

namespace Item

def print (item : Item) : Text :=
  item.name ++ (item.left ++ '=' :: (item.right ++ item.style.print item.value))

variable {item : Item}

theorem exists_cons (item : Item) : ∃ c tail, item.name = c :: tail ∧ isNameStart c = true ∧
    ∀ d ∈ tail, isNameChar d = true := by
  obtain ⟨hstart, hall⟩ := item.isName
  cases hname : item.name with
  | nil =>
    rw [hname] at hstart
    contradiction
  | cons c tail =>
    rw [hname] at hstart hall
    exact ⟨c, tail, rfl, hstart, fun d hd => List.all_eq_true.1 hall d (List.mem_cons_of_mem _ hd)⟩

theorem read?_print (item : Item) (hr : ∀ c ∈ rest.head?, Text.isBlank c = true) :
    read? (item.print ++ rest) = some ((item.name, item.value), rest) := by
  obtain ⟨c, tail, hname, hc, ht⟩ := item.exists_cons
  have hvalue : ∀ d ∈ (item.style.print item.value ++ rest).head?, Text.isBlank d = false ∧
      d ≠ '=' := by
    obtain ⟨d, more, hprint, hblank, hequals⟩ := item.admits.exists_cons
    rw [hprint]
    rintro _ ⟨⟩
    exact ⟨hblank, hequals⟩
  have hread := read?_append hc ht item.left_blank item.right_blank hvalue
  rw [item.admits.readValue? hr] at hread
  rw [print, hname]
  simp only [List.append_assoc, List.cons_append]
  exact hread

end Item

/-- Pairs as they are printed one after the other, with blanks between them and around the whole. -/
structure Printing where
  lead : Text
  first : Item
  more : List (Text × Item)
  trail : Text
  lead_blank : ∀ c ∈ lead, Text.isBlank c = true
  apart : ∀ part ∈ more, part.1 ≠ [] ∧ ∀ c ∈ part.1, Text.isBlank c = true
  trail_blank : ∀ c ∈ trail, Text.isBlank c = true

namespace Printing

def following (more : List (Text × Item)) : Text :=
  more.flatMap fun (gap, item) => gap ++ item.print

def text (printing : Printing) : Text :=
  printing.lead ++ (printing.first.print ++ following printing.more) ++ printing.trail

def items (printing : Printing) : List Item :=
  printing.first :: printing.more.map Prod.snd

end Printing

theorem pairsFrom_gap (hne : gap ≠ []) (hb : ∀ c ∈ gap, Text.isBlank c = true) (free : Bool)
    (text : Text) :
    pairsFrom free (gap ++ text) = pairsFrom true text := by
  induction gap generalizing free with
  | nil => contradiction
  | cons c gap ih =>
    obtain ⟨hc, hgap⟩ := List.forall_mem_cons.1 hb
    have hnone : read? (c :: (gap ++ text)) = none :=
      if_neg (by rw [isNameStart_of_isBlank hc]; exact Bool.false_ne_true)
    rw [List.cons_append, pairsFrom_cons, hnone, ite_self, hc]
    cases gap with
    | nil => rfl
    | cons d gap => exact ih (List.cons_ne_nil _ _) hgap true

theorem pairsFrom_print (item : Item) (hr : ∀ c ∈ rest.head?, Text.isBlank c = true) :
    pairsFrom true (item.print ++ rest) = (item.name, item.value) :: pairsFrom false rest := by
  have hread := item.read?_print hr
  obtain ⟨c, more, hprint⟩ : ∃ c more, item.print = c :: more := by
    obtain ⟨c, tail, hname, -, -⟩ := item.exists_cons
    exact ⟨c, _, by rw [Item.print, hname]; rfl⟩
  rw [hprint, List.cons_append] at hread ⊢
  rw [pairsFrom_cons, if_pos rfl, hread]

theorem isBlank_of_mem_head?_following {more : List (Text × Item)}
    (h : ∀ part ∈ more, part.1 ≠ [] ∧ ∀ c ∈ part.1, Text.isBlank c = true) :
    ∀ c ∈ (Printing.following more).head?, Text.isBlank c = true := by
  cases more with
  | nil => exact nofun
  | cons part more =>
    obtain ⟨gap, item⟩ := part
    obtain ⟨hne, hblank⟩ := h _ List.mem_cons_self
    obtain ⟨d, gap', rfl⟩ := List.exists_cons_of_ne_nil hne
    rintro _ ⟨⟩
    exact hblank d List.mem_cons_self

theorem pairsFrom_following {more : List (Text × Item)}
    (h : ∀ part ∈ more, part.1 ≠ [] ∧ ∀ c ∈ part.1, Text.isBlank c = true) :
    pairsFrom false (Printing.following more) =
      more.map fun (_, item) => (item.name, item.value) := by
  induction more with
  | nil => rw [Printing.following, List.flatMap_nil, pairsFrom]; rfl
  | cons part more ih =>
    obtain ⟨gap, item⟩ := part
    obtain ⟨⟨hne, hblank⟩, hmore⟩ := List.forall_mem_cons.1 h
    rw [Printing.following, List.flatMap_cons, List.append_assoc, pairsFrom_gap hne hblank,
      ← Printing.following, pairsFrom_print item (isBlank_of_mem_head?_following hmore), ih hmore]
    rfl

theorem getLast?_print (item : Item) (before : Text) :
    ∀ c ∈ (before ++ item.print).getLast?, Text.isBlank c = false := by
  obtain ⟨d, more, hprint, -, -⟩ := item.admits.exists_cons
  have hsplit : before ++ item.print =
      (before ++ (item.name ++ (item.left ++ '=' :: item.right))) ++
      item.style.print item.value := by
    simp only [Item.print, List.append_assoc, List.cons_append]
  have hlast : (before ++ item.print).getLast? = (item.style.print item.value).getLast? := by
    rw [hsplit, List.getLast?_append, hprint, List.getLast?_cons]
    rfl
  rw [hlast]
  exact item.admits.getLast?

theorem getLast?_following (more : List (Text × Item)) {before : Text}
    (h : ∀ c ∈ before.getLast?, Text.isBlank c = false) :
    ∀ c ∈ (before ++ Printing.following more).getLast?, Text.isBlank c = false := by
  induction more generalizing before with
  | nil => rwa [Printing.following, List.flatMap_nil, List.append_nil]
  | cons part more ih =>
    obtain ⟨gap, item⟩ := part
    rw [Printing.following, List.flatMap_cons, ← Printing.following, ← List.append_assoc,
      ← List.append_assoc]
    exact ih (getLast?_print item _)

theorem pairsFrom_text (printing : Printing) : pairsFrom true (Text.strip printing.text) =
    printing.items.map fun item => (item.name, item.value) := by
  let core := printing.first.print ++ Printing.following printing.more
  have hfirst : ∀ c ∈ core.head?, Text.isBlank c = false := by
    obtain ⟨c, tail, hname, hc, -⟩ := printing.first.exists_cons
    intro d hd
    simp only [core, Item.print, hname, List.cons_append, List.head?_cons, Option.mem_some] at hd
    exact hd ▸ isBlank_of_isNameStart hc
  have hlast : ∀ c ∈ core.getLast?, Text.isBlank c = false :=
    getLast?_following printing.more (getLast?_print printing.first [])
  have hstrip : Text.strip printing.text = core :=
    Text.strip_between printing.lead_blank printing.trail_blank hfirst hlast
  rw [hstrip, pairsFrom_print _ (isBlank_of_mem_head?_following printing.apart),
    pairsFrom_following printing.apart, Printing.items, List.map_cons, List.map_map]
  rfl

theorem parse_text (printing : Printing) (default? : Option Text) :
    parse printing.text default? =
      Table.ofList (printing.items.map fun item => (Text.lower item.name, item.value)) := by
  have hpairs := pairsFrom_text printing
  have hnonempty : pairsFrom true (Text.strip printing.text) ≠ [] :=
    hpairs ▸ List.cons_ne_nil _ _
  rw [parse_of_pairsFrom hnonempty, hpairs, List.map_map]
  rfl

/-- Pairs with distinct names in lower case are read back from what is printed of them. -/
theorem entries_parse_text (printing : Printing)
    (h : (printing.items.map fun item => Text.lower item.name).Nodup) (default? : Option Text) :
    (parse printing.text default?).entries =
      printing.items.map fun item => (Text.lower item.name, item.value) := by
  have hnodup : ((printing.items.map fun item => (Text.lower item.name, item.value)).map
      Prod.fst).Nodup := by
    rw [List.map_map]
    exact h
  rw [parse_text]
  exact Table.entries_ofList hnodup

theorem entries_parse_text_styles :
    ∃ printing : Printing, printing.text = " For = \"a key=b\"\tvalue='\"' index=i=1 " ∧
      (printing.items.map fun item => Text.lower item.name).Nodup ∧
      (parse printing.text (some "file")).entries =
        [("for".toList, "a key=b".toList), ("value".toList, "\"".toList),
        ("index".toList, "i=1".toList)] := by
  have hblank {c : Char} (h : Text.isBlank c = true) : ∀ d ∈ [c], Text.isBlank d = true :=
    List.forall_mem_singleton.2 h
  have hnone : ∀ d ∈ ([] : Text), Text.isBlank d = true := List.forall_mem_nil _
  let loop : Item :=
    ⟨"For", "a key=b", .double, " ", " ", by decide, by decide, hblank rfl, hblank rfl⟩
  let value : Item := ⟨"value", "\"", .single, [], [], by decide, by decide, hnone, hnone⟩
  let index : Item := ⟨"index", "i=1", .bare, [], [], by decide,
    ⟨List.cons_ne_nil _ _, List.all_eq_true.1 rfl, by decide⟩, hnone, hnone⟩
  have happart : ∀ part ∈ [("\t".toList, value), (" ".toList, index)],
      part.1 ≠ [] ∧ ∀ c ∈ part.1, Text.isBlank c = true :=
    List.forall_mem_cons.2 ⟨⟨List.cons_ne_nil _ _, hblank rfl⟩,
      List.forall_mem_singleton.2 ⟨List.cons_ne_nil _ _, hblank rfl⟩⟩
  let printing : Printing := ⟨" ", loop, _, " ", hblank rfl, happart, hblank rfl⟩
  have hlower : ["For".toList, "value".toList, "index".toList].map Text.lower =
      ["for".toList, "value".toList, "index".toList] := by decide
  have hnames : (printing.items.map fun item => Text.lower item.name).Nodup := by
    have hnodup : ["for".toList, "value".toList, "index".toList].Nodup := by decide
    exact hlower ▸ hnodup
  refine ⟨printing, rfl, hnames, ?_⟩
  rw [entries_parse_text printing hnames]
  rfl

end ThemeMarkup.Attribute
