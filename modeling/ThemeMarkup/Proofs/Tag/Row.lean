import ThemeMarkup.Proofs.Except
import ThemeMarkup.Proofs.Table
import ThemeMarkup.Proofs.Tag.Node
import ThemeMarkup.Proofs.Text.Blank
import ThemeMarkup.Proofs.Text.Lowercase

namespace ThemeMarkup

variable {text source : Text} {span : Span}

theorem Text.slice_eq {first stop : Nat} (hf : first ≤ stop) (hs : stop ≤ text.length) :
    text.slice first stop = (text.drop first).take (stop - first) := by
  have hclamp {n : Nat} (hn : n ≤ text.length) : clamp text.length n = n := by
    rw [clamp, if_neg (by omega), Int.toNat_natCast, Nat.min_eq_left hn]
  rw [slice, hclamp hs, hclamp (Nat.le_trans hf hs)]

theorem Text.slice_of_drop {rest : Text} {first : Nat} (h : text.drop first = source ++ rest)
    (hn : text.drop first ≠ []) : text.slice first (first + source.length : Nat) = source := by
  have hlt : first < text.length := by
    rw [ne_eq, List.drop_eq_nil_iff] at hn
    omega
  have hlen := congrArg List.length h
  rw [List.length_drop, List.length_append] at hlen
  rw [slice_eq (Nat.le_add_right ..) (by omega), h, Nat.add_sub_cancel_left, List.take_left]

/-- A span of a text that covers just the given characters, at least one. -/
def Span.Covers (text : Text) (span : Span) (source : Text) : Prop :=
  ∃ first : Nat, span = Span.ofRange text first source.length ∧ source ≠ [] ∧
    source <+: text.drop first

namespace Span.Covers

variable (h : Covers text span source)

include h

theorem measured : span.last + 1 = span.first + source.length := by
  obtain ⟨first, rfl, hs, -⟩ := h
  have := List.length_pos_iff.2 hs
  simp only [ofRange]
  omega

theorem bounds : 0 ≤ span.first ∧ span.first ≤ span.last ∧ span.last < text.length := by
  have hm := h.measured
  obtain ⟨first, rfl, hs, hp⟩ := h
  have hpos := List.length_pos_iff.2 hs
  have hle := hp.length_le
  rw [List.length_drop] at hle
  refine ⟨?_, ?_, ?_⟩ <;> simp only [ofRange] at hm ⊢ <;> omega

theorem prefix_drop : source <+: text.drop span.first.toNat := by
  obtain ⟨first, rfl, -, hp⟩ := h
  exact hp

theorem read_eq : span.read text = source := by
  have hm := h.measured
  have hb := h.bounds
  obtain ⟨first, rfl, -, hp⟩ := h
  have hlast :
      (ofRange text first source.length).last + 1 = ((first + source.length : Nat) : Int) := by
    rw [hm]
    exact (Int.natCast_add ..).symm
  rw [read, hlast, show (ofRange text first source.length).first = (first : Int) from rfl,
    Text.slice_eq (by omega) (by omega), Nat.add_sub_cancel_left]
  exact (List.prefix_iff_eq_take.1 hp).symm

end Span.Covers

theorem Text.covers_slice {text : Text} {first stop : Int} (h0 : 0 ≤ first) (hf : first < stop)
    (hs : stop ≤ text.length) :
    let span := Span.ofRange text first.toNat (text.slice first stop).length
    span.Covers text (text.slice first stop) ∧ span.first = first ∧ span.last + 1 = stop := by
  obtain ⟨first, rfl⟩ := Int.eq_ofNat_of_zero_le h0
  obtain ⟨stop, rfl⟩ := Int.eq_ofNat_of_zero_le (show 0 ≤ stop by omega)
  have heq := slice_eq (show first ≤ stop by omega) (show stop ≤ text.length by omega)
  have hlen : (text.slice first stop).length = stop - first := by
    rw [heq, List.length_take, List.length_drop]
    omega
  have hc : Span.Covers text (Span.ofRange text first (text.slice first stop).length)
      (text.slice first stop) := by
    refine ⟨first, rfl, fun hn => ?_, ?_⟩
    · rw [hn, List.length_nil] at hlen
      omega
    · rw [heq]
      exact List.take_prefix ..
  refine ⟨hc, rfl, hc.measured.trans ?_⟩
  rw [hlen]
  simp only [Span.ofRange]
  omega

/-- No delimiter of a tag is empty. -/
def Delimiters.IsProper (d : Delimiters) : Prop :=
  d.left ≠ [] ∧ d.right ≠ []

instance (d : Delimiters) : Decidable d.IsProper :=
  inferInstanceAs (Decidable (_ ∧ _))

namespace Tag

variable {d : Delimiters} {names : List Text} {lo mid hi : Int} {tag : Tag} {tags : List Tag}

/-- A tag whose span covers it and which, wherever its source stands, can be read again. -/
structure Stands (d : Delimiters) (names : List Text) (text : Text) (tag : Tag) : Prop where
  covers : tag.span.Covers text tag.source
  long : tag.span.first < tag.span.last
  brief : tag.argument.length < tag.source.length
  again : ∀ after, (read? d names (tag.source ++ after)).isSome

/-- No tag can be read from the offset `lo` on and before the offset `hi`. -/
def Quiet (d : Delimiters) (names : List Text) (text : Text) (lo hi : Int) : Prop :=
  ∀ i : Nat, lo ≤ i → i < hi → i < text.length → read? d names (text.drop i) = none

/-- Tags that stand one after the other between two offsets, no tag being read in the gaps. -/
def Row (d : Delimiters) (names : List Text) (text : Text) (lo hi : Int) : List Tag → Prop
  | [] => lo ≤ hi ∧ Quiet d names text lo hi
  | tag :: tags =>
    lo ≤ tag.span.first ∧ Quiet d names text lo tag.span.first ∧ tag.Stands d names text ∧
      Row d names text (tag.span.last + 1) hi tags

theorem Row.le (h : Row d names text lo hi tags) : lo ≤ hi := by
  induction tags generalizing lo with
  | nil => exact h.1
  | cons tag tags ih =>
    obtain ⟨hf, -, hs, hr⟩ := h
    have := ih hr
    have := hs.long
    omega

theorem Row.stands (h : Row d names text lo hi tags) (ht : tag ∈ tags) :
    tag.Stands d names text ∧ lo ≤ tag.span.first ∧ tag.span.last < hi := by
  induction tags generalizing lo with
  | nil => contradiction
  | cons first tags ih =>
    obtain ⟨hf, -, hs, hr⟩ := h
    have hle := hr.le
    have hlong := hs.long
    rcases List.mem_cons.1 ht with rfl | ht
    · exact ⟨hs, hf, by omega⟩
    · obtain ⟨hs', hf', hl'⟩ := ih hr ht
      exact ⟨hs', by omega, hl'⟩

abbrev Before (tag next : Tag) : Prop :=
  tag.span.last < next.span.first

/-- Tags whose spans lie in a text, one after the other. -/
structure InOrder (text : Text) (tags : List Tag) : Prop where
  within : ∀ tag ∈ tags, 0 ≤ tag.span.first ∧ tag.span.first ≤ tag.span.last ∧
    tag.span.last < text.length
  ordered : tags.Pairwise Before

theorem Row.inOrder (h : Row d names text lo hi tags) : InOrder text tags := by
  refine ⟨fun tag hm => (h.stands hm).1.covers.bounds, ?_⟩
  induction tags generalizing lo with
  | nil => exact .nil
  | cons tag tags ih =>
    obtain ⟨-, -, -, hr⟩ := h
    refine .cons (fun next hm => ?_) (ih hr)
    exact Int.lt_of_add_one_le (hr.stands hm).2.1

theorem row_append_cons {before : List Tag} :
    Row d names text lo hi (before ++ tag :: tags) ↔
      Row d names text lo tag.span.first before ∧ tag.Stands d names text ∧
        Row d names text (tag.span.last + 1) hi tags := by
  induction before generalizing lo with
  | nil => simp only [List.nil_append, Row, and_assoc]
  | cons first before ih => simp only [List.cons_append, Row, ih, and_assoc]

theorem Row.silent (h : Row d names text lo hi tags) {i : Nat} (hl : lo ≤ i) (hh : i < hi)
    (hi : i < text.length) (ho : ∀ tag ∈ tags, ¬ (tag.span.first ≤ i ∧ i ≤ tag.span.last)) :
    read? d names (text.drop i) = none := by
  induction tags generalizing lo with
  | nil => exact h.2 i hl hh hi
  | cons tag tags ih =>
    obtain ⟨-, hq, -, hr⟩ := h
    have hout := ho tag List.mem_cons_self
    by_cases hlt : i < tag.span.first
    · exact hq i hl hlt hi
    · exact ih hr (by omega) fun t ht => ho t (List.mem_cons_of_mem _ ht)

theorem Written.Spells.length_le {w : Written} (hd : d.IsProper) (h : w.Spells d names source) :
    w.argument.length + 2 ≤ source.length := by
  obtain ⟨left, _, _, _, right, hl, -, -, -, hr, rfl⟩ := h.parts
  have hleft := congrArg List.length hl
  have hright := congrArg List.length hr
  have hl0 := List.length_pos_iff.2 hd.1
  have hr0 := List.length_pos_iff.2 hd.2
  simp only [List.length_map] at hleft hright
  simp only [List.length_append]
  omega

theorem stands_of_read {full rest : Text} {first : Nat} {value : Written} (hd : d.IsProper)
    (hf : full.drop first = source ++ rest) (hn : source ≠ [])
    (hr : read? d names (source ++ rest) = some (value, rest)) (hs : tag.source = source)
    (hspan : tag.span = Span.ofRange full first source.length)
    (ha : tag.argument.length ≤ value.argument.length) :
    tag.Stands d names full ∧ tag.span.first = first ∧
      tag.span.last + 1 = (first + source.length : Nat) := by
  have hcovers : tag.span.Covers full tag.source := by
    rw [hs, hspan]
    exact ⟨first, rfl, hn, rest, hf.symm⟩
  have hfirst : tag.span.first = first := by
    rw [hspan]
    rfl
  have hlast : tag.span.last + 1 = (first + source.length : Nat) := by
    rw [hcovers.measured, hs, hfirst]
    exact (Int.natCast_add ..).symm
  obtain ⟨source', hspell, he⟩ := spells_of_read? hr
  rw [← List.append_cancel_right he] at hspell
  have hlength := hspell.length_le hd
  have hsize := congrArg List.length hs
  refine ⟨⟨hcovers, by omega, by omega, ?_⟩, hfirst, hlast⟩
  rw [hs]
  exact isSome_read? hd.2 hspell

theorem row_of_scans {full : Text} {offset : Nat} {finds : List (Found Written)} (hd : d.IsProper)
    (hs : Found.Scans (read? d names) offset text finds) (hf : full.drop offset = text)
    (ho : offset ≤ full.length)
    (ht : List.Forall₂ (fun found tag => tag.source = found.source ∧ tag.span = found.span full ∧
      tag.argument.length ≤ found.value.argument.length) finds tags) :
    Row d names full offset full.length tags := by
  induction hs generalizing tags with
  | @done offset text hs =>
    cases ht
    refine ⟨by omega, fun i hi _ hlt => ?_⟩
    apply hs.read_drop hf (by omega)
    rw [← hf, List.length_drop]
    omega
  | @find offset source rest value finds gap hs hn hr hm ih =>
    cases ht with
    | @cons _ tag _ tags htag htags =>
      have hfound : full.drop (offset + gap.length) = source ++ rest := by
        apply Text.drop_add
        rw [hf, List.append_assoc]
      have hlen : full.length = offset + gap.length + source.length + rest.length := by
        have := congrArg List.length hf
        simp only [List.length_drop, List.length_append] at this
        omega
      obtain ⟨hsource, hspan, hargument⟩ := htag
      obtain ⟨hstands, hfirst, hlast⟩ := stands_of_read hd hfound hn hr hsource hspan hargument
      refine ⟨by omega, fun i hi hlt _ => ?_, hstands, ?_⟩
      · exact hs.read_drop hf (by omega) (by omega)
      · rw [hlast]
        exact ih (Text.drop_add hfound) (by omega) htags

theorem row_of_scan {registry : Registry} (hd : d.IsProper) (h : scan registry d text = .ok tags) :
    Row d (Registry.byLength registry.node.keys) text 0 text.length tags := by
  have hscan :=
    (steady_read? hd.1 hd.2 (Registry.byLength registry.node.keys)).scans_scanFrom 0 text
  refine row_of_scans hd hscan rfl (Nat.zero_le _) ?_
  refine (Except.mapM_eq_ok_iff.1 h).imp fun found tag hf => ?_
  simp only [bind, Except.bind] at hf
  split at hf
  · contradiction
  · rw [← Except.ok.inj hf]
    refine ⟨rfl, rfl, ?_⟩
    dsimp only
    split
    · exact Text.length_strip_le _
    · exact Nat.zero_le _

theorem mem_keys_ofTags {code : Table Text} {node : Table NodeTag} {key : Text} :
    key ∈ (Registry.ofTags code node).node.keys ↔ ∃ name ∈ node.keys, Text.lower name = key := by
  rw [Registry.ofTags, Table.mem_keys_ofList, List.map_map, Table.keys, ← List.mem_map,
    List.map_map]
  rfl

/-- A tag is read with the name of one entry, up to the case of letters. -/
theorem exists_entry_of_mem_scan {code : Table Text} {node : Table NodeTag} {found : Found Written}
    (hn : ∀ name ∈ node.keys, ∀ c ∈ name, Text.isAscii c = true) (hd : d.IsProper)
    (hf : found ∈ Found.scan (read? d (Registry.byLength (Registry.ofTags code node).node.keys))
      text) :
    (∃ entry, (Registry.ofTags code node).node.get? (Text.lower found.value.name) = some entry) ∧
      ∀ key ∈ (Registry.ofTags code node).node.keys,
        Alike found.value.name key ↔ key = Text.lower found.value.name := by
  let names := Registry.byLength (Registry.ofTags code node).node.keys
  have hloc := ((steady_read? hd.1 hd.2 names).scans_scanFrom 0 text).located text rfl
  obtain ⟨-, rest, -, hr⟩ := hloc.reads found hf
  obtain ⟨source, hspell, -⟩ := spells_of_read? hr
  obtain ⟨key, hkey, halike⟩ := hspell.name
  have hmem : key ∈ (Registry.ofTags code node).node.keys := List.mem_mergeSort.1 hkey
  have hlower {key : Text} (hm : key ∈ (Registry.ofTags code node).node.keys)
      (ha : Alike found.value.name key) : key = Text.lower found.value.name := by
    obtain ⟨name, hname, rfl⟩ := mem_keys_ofTags.1 hm
    exact (Text.lower_of_alike (hn name hname) ha).symm
  obtain rfl := hlower hmem halike
  refine ⟨Option.isSome_iff_exists.1 (Table.mem_keys_iff.1 hmem), fun other ho => ⟨hlower ho, ?_⟩⟩
  rintro rfl
  exact halike

theorem exists_scan_eq_ok (code : Table Text) {node : Table NodeTag}
    (hn : ∀ name ∈ node.keys, ∀ c ∈ name, Text.isAscii c = true) (hd : d.IsProper) (text : Text) :
    ∃ tags, scan (.ofTags code node) d text = .ok tags := by
  refine Except.exists_mapM_eq_ok fun found hf => ?_
  obtain ⟨⟨entry, hentry⟩, -⟩ := exists_entry_of_mem_scan hn hd hf
  rw [Registry.nodeTag, hentry]
  exact ⟨_, rfl⟩

end Tag

end ThemeMarkup
