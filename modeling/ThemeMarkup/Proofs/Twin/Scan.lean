import ThemeMarkup.Proofs.Edits
import ThemeMarkup.Proofs.Tag.Row
import ThemeMarkup.Proofs.Twin.Expression

namespace ThemeMarkup

theorem Text.slice_append (before middle after : Text) :
    (before ++ (middle ++ after)).slice before.length (before ++ middle).length = middle := by
  have hle : before.length ≤ (before ++ middle).length := (List.prefix_append ..).length_le
  have hstop : (before ++ middle).length ≤ (before ++ (middle ++ after)).length := by
    rw [← List.append_assoc]
    exact (List.prefix_append ..).length_le
  rw [slice_eq hle hstop, List.drop_left, List.length_append, Nat.add_sub_cancel_left,
    List.take_left]

variable [Marker.Serials]

namespace Marker

variable {core : Core} {Pair : Marker → Text → Text → Prop}
  {text text' before before' after after' : Text}

/-- Two offsets at which two texts are cut into twins, and through no marker. -/
def Aligned (core : Core) (Pair : Marker → Text → Text → Prop) (text text' : Text)
    (i i' : Int) : Prop :=
  ∃ before after before' after' : Text, text = before ++ after ∧ text' = before' ++ after' ∧
    (before.length : Int) = i ∧ (before'.length : Int) = i' ∧ Seam before after ∧
    Twin core.plainness Pair before before' ∧ Twin core.plainness Pair after after'

namespace Twin

theorem of_append_right (hd : Decides Pair)
    (h : Twin core.plainness Pair (before ++ after) (before' ++ after')) (hs : Seam before after)
    (ha : Twin core.plainness Pair after after') :
    Twin core.plainness Pair before before' := by
  obtain ⟨other, rest, he, hbefore, hafter⟩ := h.of_append hs
  obtain rfl := hafter.unique hd ha
  exact List.append_cancel_right he ▸ hbefore

theorem aligned (hd : Decides Pair)
    (h : Twin core.plainness Pair (before ++ after) (before' ++ after'))
    (hs : Seam before after) (ha : Twin core.plainness Pair after after') :
    Aligned core Pair (before ++ after) (before' ++ after') before.length before'.length :=
  ⟨before, after, before', after', rfl, rfl, rfl, rfl, hs, h.of_append_right hd hs ha, ha⟩

end Twin

theorem Aligned.slice (hd : Decides Pair) {i i' j j' : Int} (hi : Aligned core Pair text text' i i')
    (hj : Aligned core Pair text text' j j') (hle : i ≤ j) :
    i' ≤ j' ∧ Twin core.plainness Pair (text.slice i j) (text'.slice i' j') := by
  obtain ⟨before, rest, before', rest', rfl, rfl, rfl, rfl, -, -, hrest⟩ := hi
  obtain ⟨long, after, long', after', htext, htext', rfl, rfl, hseam, hlong, hafter⟩ := hj
  obtain ⟨middle, rfl, rfl⟩ : ∃ middle, long = before ++ middle ∧ rest = middle ++ after := by
    rcases List.append_eq_append_iff.1 htext with ⟨middle, h, h'⟩ | ⟨middle, h, h'⟩
    · exact ⟨middle, h, h'⟩
    · obtain rfl : middle = [] := by
        rw [h, List.length_append] at hle
        exact List.length_eq_zero_iff.1 (by omega)
      exact ⟨[], by simpa using h.symm, by simpa using h'.symm⟩
  have hmiddle : Seam middle after := by
    intro c hc
    apply hseam c
    rw [List.getLast?_append, hc]
    rfl
  obtain ⟨middle', last, rfl, htwin, hlast⟩ := hrest.of_append hmiddle
  obtain rfl := hlast.unique hd hafter
  rw [← List.append_assoc] at htext'
  obtain rfl := List.append_cancel_right htext'
  refine ⟨Int.ofNat_le.2 (List.prefix_append ..).length_le, ?_⟩
  rw [Text.slice_append, Text.slice_append]
  exact htwin

end Marker

namespace Found

open Marker (Aligned Core Decides Kin Plainness Seam Twin)

variable {α : Type} {core : Core} {Pair Pair' : Marker → Text → Text → Prop} {R : α → α → Prop}
  {read : Text → Option (α × Text)} {Makes : α → Text → Prop} {offset : Nat}
  {finds : List (Found α)}
  {text text' gap gap' tail tail' source rest : Text} {value : α}

structure Twins (core : Core) (Pair : Marker → Text → Text → Prop) (R : α → α → Prop)
    (text text' : Text)
    (found found' : Found α) : Prop where
  value : R found.value found'.value
  first : Aligned core Pair text text' (found.span text).first (found'.span text').first
  stop : Aligned core Pair text text' ((found.span text).last + 1) ((found'.span text').last + 1)

/-- A reader that reads the same in twins, up to what markers hold; what it reads stands between
braces. -/
structure Mirrors (Pair : Marker → Text → Text → Prop) (R : α → α → Prop)
    (read : Text → Option (α × Text)) : Prop where
  steady : Steady read
  braced : ∀ {source value rest}, read (source ++ rest) = some (value, rest) → source.IsBraced
  reads : ∀ {p : Plainness} {text text'}, Twin p Pair text text' →
    Option.Rel (fun found found' => R found.1 found'.1 ∧ Twin p Pair found.2 found'.2) (read text)
      (read text')

namespace Mirrors

theorem begins (hm : Mirrors Pair R read) : Begins ['\x7b'] read := by
  intro text h
  cases hr : read text with
  | none => rfl
  | some found =>
    obtain ⟨source, -, rfl⟩ := hm.steady.takes hr
    obtain ⟨inner, hinner⟩ := List.head?_eq_some_iff.1 (hm.braced hr).first
    rw [hinner] at h
    exact absurd ⟨inner ++ _, rfl⟩ h

theorem none_of_twin {p : Plainness} (hm : Mirrors Pair R read) (h : Twin p Pair text text')
    (hr : read text = none) : read text' = none := by
  have hreads := hm.reads h
  rw [hr] at hreads
  cases hr' : read text' with
  | none => rfl
  | some found =>
    rw [hr'] at hreads
    contradiction

theorem silent (hm : Mirrors Pair R read) (h : Kin Pair gap gap') (ht : Kin Pair tail tail')
    (hs : Silent read gap.length (gap ++ tail)) : Silent read gap'.length (gap' ++ tail') := by
  induction h using Twin.inductionOn with
  | nil => exact fun i hi => absurd hi (Nat.not_lt_zero i)
  | cons c h more ih =>
    have hfirst : read (c :: (_ ++ tail')) = none :=
      hm.none_of_twin (h.append ht) (hs 0 (Nat.succ_pos _))
    exact Silent.cons hfirst (ih fun i hi => hs (i + 1) (Nat.succ_lt_succ hi))
  | @marker kind content content' rest rest' h pair more ih =>
    have hrest : Silent read rest.length (rest ++ tail) := by
      intro i hi
      have hread := hs ((Marker.encode kind content).length + i) (by rw [List.length_append]; omega)
      rwa [List.append_assoc, List.drop_length_add_append] at hread
    have hinside :=
      hm.begins.silent_of_not_mem (Marker.brace_not_mem_encode kind content') (rest' ++ tail')
    rw [List.append_assoc, List.length_append]
    exact hinside.append (ih hrest)

/-- The next find in a text and the twin of it. -/
theorem step (hm : Mirrors Pair R read) (hd : Decides Pair)
    (h : Twin core.plainness Pair (gap ++ (source ++ rest)) text')
    (hs : Silent read gap.length (gap ++ (source ++ rest)))
    (hr : read (source ++ rest) = some (value, rest)) :
    ∃ gap' source' value' rest', text' = gap' ++ (source' ++ rest') ∧
      Twin core.plainness Pair gap gap' ∧
      Twin core.plainness Pair (source ++ rest) (source' ++ rest') ∧
      Twin core.plainness Pair rest rest' ∧ source'.IsBraced ∧ R value value' ∧
      Silent read gap'.length (gap' ++ (source' ++ rest')) ∧
      read (source' ++ rest') = some (value', rest') := by
  have hbraced := hm.braced hr
  obtain ⟨gap', tail', rfl, hgap, htail⟩ := h.of_append (hbraced.seam_before_append gap rest)
  obtain ⟨source', rest', rfl, hsource, hrest⟩ := htail.of_append (hbraced.seam_after rest)
  have hreads := hm.reads htail
  rw [hr] at hreads
  cases hr' : read (source' ++ rest') with
  | none =>
    rw [hr'] at hreads
    contradiction
  | some found =>
    obtain ⟨value', other⟩ := found
    rw [hr'] at hreads
    obtain ⟨hvalue, hother⟩ := Option.rel_some_some.1 hreads
    obtain rfl := hrest.unique hd hother
    exact ⟨gap', source', value', rest', rfl, hgap, htail, hrest, hsource.isBraced hbraced, hvalue,
      hm.silent hgap.kin htail.kin hs, hr'⟩

/-- The finds in two twins, at which longer ones end, are twins one by one. -/
theorem exists_scans (hm : Mirrors Pair R read) (hd : Decides Pair)
    {full full' before before' : Text}
    (hf : Twin core.plainness Pair full full') (h : Scans read before.length text finds)
    (he : full = before ++ text) (he' : full' = before' ++ text')
    (ht : Twin core.plainness Pair text text') :
    ∃ finds', Scans read before'.length text' finds' ∧
      List.Forall₂ (Twins core Pair R full full') finds finds' := by
  -- By induction on the finds. A find begins and ends with a brace, which no marker has, so that
  -- both its ends are aligned.
  generalize ho : before.length = offset at h
  induction h generalizing before before' text' with
  | @done offset text hs =>
    have hend : Kin Pair [] [] := .plain trivial
    have hsilent := hm.silent ht.kin hend (by rwa [List.append_nil])
    rw [List.append_nil] at hsilent
    exact ⟨[], .done hsilent, .nil⟩
  | @find offset source rest value finds gap hs hn hr hmore ih =>
    subst ho
    rw [List.append_assoc] at hs ht he
    obtain ⟨gap', source', value', rest', rfl, -, htail, hrest, hbraced', hvalue, hs', hr'⟩ :=
      hm.step hd ht hs hr
    have hbraced := hm.braced hr
    have hopen : Aligned core Pair full full' (before ++ gap).length (before' ++ gap').length := by
      rw [← List.append_assoc] at he he'
      subst he he'
      exact hf.aligned hd (hbraced.seam_before_append _ rest) htail
    have hsplit (before gap source rest : Text) :
        before ++ (gap ++ (source ++ rest)) = (before ++ gap ++ source) ++ rest := by
      simp only [List.append_assoc]
    have hseam : Seam (before ++ gap ++ source) rest := by
      apply Marker.seam_of_last
      rw [List.getLast?_append_of_ne_nil _ hbraced.ne_nil, hbraced.last]
      decide
    rw [hsplit] at he he'
    have hclose : Aligned core Pair full full' (before ++ gap ++ source).length
        (before' ++ gap' ++ source').length := by
      subst he he'
      exact hf.aligned hd hseam hrest
    obtain ⟨finds', hscans, hfinds⟩ := ih he he' hrest (by simp only [List.length_append])
    simp only [List.length_append] at hscans hopen hclose
    refine ⟨⟨before'.length + gap'.length, source', value'⟩ :: finds', ?_,
      .cons ⟨hvalue, hopen, ?_⟩ hfinds⟩
    · rw [← List.append_assoc] at hs' ⊢
      exact .find gap' hs' hbraced'.ne_nil hr' hscans
    · rw [last_span hn, last_span hbraced'.ne_nil]
      exact_mod_cast hclose

theorem scan (hm : Mirrors Pair R read) (hd : Decides Pair)
    (h : Twin core.plainness Pair text text') :
    List.Forall₂ (Twins core Pair R text text') (Found.scan read text) (Found.scan read text') := by
  let start : Text := []
  have hscans : Scans read start.length text (Found.scan read text) :=
    hm.steady.scans_scanFrom 0 text
  have htext : text' = start ++ text' := rfl
  obtain ⟨finds', hscans', hfinds⟩ := hm.exists_scans hd h hscans rfl htext h
  have hscan : Found.scan read text' = finds' := hscans'.scanFrom_eq
  rw [hscan]
  exact hfinds

/-- Replacing what is read in two twins by twins gives twins. -/
theorem exists_edits (hm : Mirrors Pair R read) (hd : Decides Pair)
    (h : Scans read offset text finds)
    (ht : Twin core.plainness Pair text text')
    (hk : ∀ {kind content content'}, Pair kind content content' → Pair' kind content content')
    (hmake : ∀ {value value'}, R value value' → ∃ new new', Makes value new ∧ Makes value' new' ∧
      Kin Pair' new new') :
    ∃ out out', Edits read Makes text out ∧ Edits read Makes text' out' ∧ Kin Pair' out out' := by
  have hkin {text text' : Text} (h : Twin core.plainness Pair text text') : Kin Pair' text text' :=
    h.mono (fun _ => trivial) hk
  induction h generalizing text' with
  | @done offset text hs =>
    have hend : Kin Pair [] [] := .plain trivial
    have hs₀ : Silent read text.length (text ++ []) := by rwa [List.append_nil]
    have hkeep : Edits read Makes (text ++ []) (text ++ []) := .keep hs₀ .nil
    have hkeep' : Edits read Makes (text' ++ []) (text' ++ []) :=
      .keep (hm.silent ht.kin hend hs₀) .nil
    rw [List.append_nil] at hkeep hkeep'
    exact ⟨text, text', hkeep, hkeep', hkin ht⟩
  | @find offset source rest value finds gap hs hn hr _ ih =>
    rw [List.append_assoc] at hs ht ⊢
    obtain ⟨gap', source', value', rest', rfl, hgap, -, hrest, hbraced', hvalue, hs', hr'⟩ :=
      hm.step hd ht hs hr
    obtain ⟨new, new', hnew, hnew', htwin⟩ := hmake hvalue
    obtain ⟨out, out', hout, hout', hmore⟩ := ih hrest
    exact ⟨gap ++ (new ++ out), gap' ++ (new' ++ out'), .keep hs (.find hn hr hnew hout),
      .keep hs' (.find hbraced'.ne_nil hr' hnew' hout'), (hkin hgap).append (htwin.append hmore)⟩

end Mirrors

end Found

end ThemeMarkup
