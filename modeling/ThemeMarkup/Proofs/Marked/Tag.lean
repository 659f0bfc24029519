import ThemeMarkup.Proofs.Marked.Routine
import ThemeMarkup.Proofs.Pairing.Tree
import ThemeMarkup.Proofs.Text.Occurrence

namespace ThemeMarkup

open Marker (Marked)

variable {Holds : Marker → Text → Prop} {suffix text : Text}

namespace Tag

theorem isBraced_of_spells {names : List Text} {w : Written} {source : Text}
    (hw : w.Spells .usual names source) : source.IsBraced := by
  obtain ⟨left, blanks, blanks', qualifier, right, hl, -, -, -, hr, rfl⟩ := hw.parts
  obtain rfl := Delimiters.eq_left_of_alike hl
  obtain rfl := Delimiters.eq_right_of_alike hr
  refine ⟨rfl, ?_⟩
  simp only [List.getLast?_append]
  rfl

theorem endsOnce_of_spells {names : List Text} {w : Written} {source : Text}
    (hn : ∀ name ∈ names, '\x7d' ∉ name.map Text.lowerAscii) (hw : w.Spells .usual names source) :
    source.EndsOnce := by
  obtain ⟨left, blanks, blanks', qualifier, right, hl, hb, hb', hq, hr, rfl⟩ := hw.parts
  obtain rfl := Delimiters.eq_left_of_alike hl
  obtain rfl := Delimiters.eq_right_of_alike hr
  obtain ⟨name, hm, hname⟩ := hw.name
  have hinner {c : Char} (h : isInner .usual c = true) : c ≠ '\x7d' := by
    rintro rfl
    exact absurd h (by decide)
  have hblank {c : Char} (h : Text.isAsciiBlank c = true) : c ≠ '\x7d' := by
    rintro rfl
    exact absurd h (by decide)
  refine ⟨Delimiters.usual.left ++ (blanks ++ (colon w.kind ++ (blanks' ++ (w.name ++ (qualifier ++
    (w.argument ++ ['%'])))))), '\x7d', ?_, ?_⟩
  · simp only [List.append_assoc]
    rfl
  · simp only [List.mem_append, not_or]
    refine ⟨by decide, fun hc =>
      hblank (hb _ hc) rfl, ?_, fun hc => hblank (hb' _ hc) rfl, ?_, ?_, ?_, by decide⟩
    · cases w.kind <;> decide
    · intro hc
      apply hn name hm
      rw [← hname]
      exact List.mem_map_of_mem hc
    · rcases hq with rfl | ⟨inner, -, rfl, hi⟩
      · exact List.not_mem_nil
      · intro hc
        have hmem := (List.mem_cons.1 hc).resolve_left (by decide)
        exact hinner (Bool.and_eq_true_iff.1 (hi _ hmem)).1 rfl
    · rcases hw.argument with ha | ⟨blank, inner, ha, hb, hi⟩
      · rw [ha]
        exact List.not_mem_nil
      · rw [ha]
        intro hc
        rcases List.mem_cons.1 hc with he | hc
        · exact hblank hb he.symm
        · exact hinner (hi _ hc) rfl

end Tag

namespace Pairing

variable {d : Delimiters} {names : List Text} {head tail : Tag}

/-- A text around a head tag, a tail tag after it and the body between them. -/
theorem exists_around (hh : head.Stands d names text) (ht : tail.Stands d names text)
    (h : head.span.last < tail.span.first) (inner : List Node) :
    ∃ before after, text = before ++ (head.source ++
        (text.slice (head.span.last + 1) tail.span.first ++ (tail.source ++ after))) ∧
      (pairNode text head tail inner).source =
        head.source ++ (text.slice (head.span.last + 1) tail.span.first ++ tail.source) := by
  have hb := ht.covers.bounds
  have hm := hh.covers.measured
  have hm' := ht.covers.measured
  obtain ⟨first, hf⟩ := Int.eq_ofNat_of_zero_le hh.covers.bounds.1
  obtain ⟨last, hl⟩ := Int.eq_ofNat_of_zero_le hb.1
  obtain ⟨rest, hdrop⟩ := hh.covers.prefix_drop
  obtain ⟨after, hdrop'⟩ := ht.covers.prefix_drop
  rw [hf, Int.toNat_natCast] at hdrop
  rw [hl, Int.toNat_natCast] at hdrop'
  let start := first + head.source.length
  have hstart : head.span.last + 1 = (start : Int) := by omega
  have hle : start ≤ last := by omega
  have hslice :
      text.slice (head.span.last + 1) tail.span.first = (text.drop start).take (last - start) := by
    rw [hstart, hl]
    exact Text.slice_eq hle (by omega)
  have hbody : text.drop start =
      text.slice (head.span.last + 1) tail.span.first ++ (tail.source ++ after) := by
    have hskip : (text.drop start).drop (last - start) = text.drop last := by
      rw [List.drop_drop, Nat.add_sub_cancel' hle]
    rw [hslice, hdrop', ← hskip, List.take_append_drop]
  have hrest : rest = text.drop start := (Text.drop_add hdrop.symm).symm
  rw [hrest, hbody] at hdrop
  refine ⟨text.take first, after, ?_, ?_⟩
  · rw [hdrop, List.take_append_drop]
  · have hlength : (text.slice (head.span.last + 1) tail.span.first).length = last - start := by
      rw [hslice, List.length_take, List.length_drop]
      omega
    have hstop : tail.span.last + 1 = (first + (head.source ++
        (text.slice (head.span.last + 1) tail.span.first ++ tail.source)).length : Nat) := by
      simp only [List.length_append, hlength]
      omega
    have hpair : text.drop first = (head.source ++
        (text.slice (head.span.last + 1) tail.span.first ++ tail.source)) ++ after := by
      rw [← hdrop]
      simp only [List.append_assoc]
    have hne : text.drop first ≠ [] := by
      intro hn
      have hlen := congrArg List.length hn
      rw [List.length_drop, List.length_nil] at hlen
      omega
    change text.slice head.span.first (tail.span.last + 1) = _
    rw [hf, hstop]
    exact Text.slice_of_drop hpair hne

end Pairing

variable [Marker.Serials]

namespace Tag

/-- A tag between braces that has a standard name and whose argument holds whole markers only. -/
structure Carries (Holds : Marker → Text → Prop) (tag : Tag) : Prop where
  braced : tag.source.IsBraced
  once : tag.source.EndsOnce
  name : tag.name ∈ Standard.nodeNames
  argument : Marked .hashes Holds tag.argument

theorem mem_nodeNames_of_nodeTag {key : Text} {entry : NodeTag}
    (h : (Compiler.standard suffix).registry.nodeTag key = .ok entry) :
    entry.name ∈ Standard.nodeNames := by
  have hall : ∀ entry ∈ Standard.nodeTags.entries, entry.2.name ∈ Standard.nodeNames := by decide
  have hevery : (Compiler.standard suffix).registry.node.Every
      (fun entry => entry.name ∈ Standard.nodeNames) := by
    apply Table.every_ofList
    intro entry he
    obtain ⟨original, ho, rfl⟩ := List.mem_map.1 he
    exact hall original ho
  rw [Registry.nodeTag] at h
  split at h
  · next hget => exact Except.ok.inj h ▸ hevery _ _ hget
  · contradiction

theorem marked_of_spells {names : List Text} {w : Written} {gap source rest : Text}
    (h : Marked .hashes Holds (gap ++ (source ++ rest))) (hw : w.Spells .usual names source) :
    Marked .hashes Holds w.argument := by
  obtain ⟨left, blanks, blanks', qualifier, right, hl, -, -, -, hr, rfl⟩ := hw.parts
  obtain rfl := Delimiters.eq_left_of_alike hl
  obtain rfl := Delimiters.eq_right_of_alike hr
  rcases hw.argument with ha | ⟨blank, inner, ha, hblank, -⟩
  · rw [ha]
    exact .plain (by decide)
  · let before := gap ++ (Delimiters.usual.left ++ (blanks ++ (colon w.kind ++ (blanks' ++
      (w.name ++ qualifier)))))
    have hsplit : Marked .hashes Holds
        (before ++ (w.argument ++ (Delimiters.usual.right ++ rest))) := by
      simpa only [before, List.append_assoc] using h
    apply hsplit.of_infix
    · apply Marker.seam_of_head
      rw [ha]
      rintro c ⟨⟩
      exact Marker.isForeign_of_isBlank (Text.isBlank_of_isAsciiBlank hblank)
    · apply Marker.seam_of_head
      rintro c ⟨⟩
      decide

theorem carries_of_scan {tags : List Tag} (h : Marked .hashes Holds text)
    (hs : scan (Compiler.standard suffix).registry .usual text = .ok tags) :
    ∀ tag ∈ tags, tag.Carries Holds := by
  let names := Registry.byLength (Compiler.standard suffix).registry.node.keys
  intro tag ht
  obtain ⟨found, hf, hfound⟩ := exists_of_mem_right (Except.mapM_eq_ok_iff.1 hs) ht
  have hproper : Delimiters.usual.IsProper := by decide
  have hscans := (steady_read? hproper.1 hproper.2 names).scans_scanFrom 0 text
  obtain ⟨-, rest, hdrop, hread⟩ := (hscans.located text rfl).reads found hf
  obtain ⟨source, hspells, he⟩ := spells_of_read? hread
  rw [← List.append_cancel_right he] at hspells
  have hsplit : text = text.take found.offset ++ (found.source ++ rest) := by
    rw [← hdrop, List.take_append_drop]
  have hbraced := isBraced_of_spells hspells
  have hargument := marked_of_spells (hsplit ▸ h) hspells
  have hall : ∀ name ∈ Standard.nodeNames, '\x7d' ∉ name.map Text.lowerAscii := by decide
  have honce := endsOnce_of_spells (fun name hm => hall name (Standard.mem_names_iff.1 hm)) hspells
  cases hentry : (Compiler.standard suffix).registry.nodeTag (Text.lower found.value.name) with
  | error e =>
    simp only [hentry, bind, Except.bind] at hfound
    contradiction
  | ok entry =>
    simp only [hentry, bind, Except.bind] at hfound
    obtain rfl := Except.ok.inj hfound
    refine ⟨hbraced, honce, mem_nodeNames_of_nodeTag hentry, ?_⟩
    dsimp only
    split
    · exact hargument.strip
    · exact .plain (by decide)

end Tag

namespace Pairing

variable {d : Delimiters} {names : List Text} {head tail : Tag}

theorem marked_pairNode (hh : head.Stands d names text) (ht : tail.Stands d names text)
    (h : head.span.last < tail.span.first) (hb : head.source.IsBraced) (hb' : tail.source.IsBraced)
    (hm : Marked .hashes Holds text) (inner : List Node) :
    (pairNode text head tail inner).source.IsBraced ∧
      Marked .hashes Holds (text.slice (head.span.last + 1) tail.span.first) := by
  obtain ⟨before, after, htext, hsource⟩ := exists_around hh ht h inner
  constructor
  · rw [hsource, ← List.append_assoc]
    exact hb.around _ hb'
  · rw [htext, ← List.append_assoc] at hm
    apply hm.of_infix
    · apply Marker.seam_of_last
      rw [List.getLast?_append_of_ne_nil _ hb.ne_nil, hb.last]
      decide
    · exact hb'.seam_before_append _ after

end Pairing

end ThemeMarkup
