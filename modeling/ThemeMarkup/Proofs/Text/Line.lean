import Mathlib.Algebra.GroupWithZero.Nat
import ThemeMarkup.Span.Basic

namespace ThemeMarkup

namespace Text

variable {text last line : Text} {full : List Text}

def ended (full : List Text) : Text :=
  full.flatMap (· ++ ['\n'])

theorem ended_cons (line : Text) (full : List Text) :
    ended (line :: full) = line ++ '\n' :: ended full := by
  rw [ended, List.flatMap_cons, List.append_assoc]
  rfl

theorem ended_concat (full : List Text) (line : Text) :
    ended (full ++ [line]) = ended full ++ line ++ ['\n'] := by
  simp [ended]

theorem lines_of_not_mem (h : '\n' ∉ text) : lines text = [text] :=
  List.splitOn_eq_singleton h

theorem lines_ended_append (h : ∀ line ∈ full, '\n' ∉ line) (text : Text) :
    lines (ended full ++ text) = full ++ lines text := by
  induction full with
  | nil => rfl
  | cons line full ih =>
    obtain ⟨hline, hfull⟩ := List.forall_mem_cons.1 h
    have hsplit : lines (line ++ '\n' :: (ended full ++ text)) =
        lines line ++ lines (ended full ++ text) := List.splitOn_append_cons_self ..
    rw [ended_cons, List.append_assoc, List.cons_append, hsplit, lines_of_not_mem hline, ih hfull]
    rfl

theorem length_ended (full : List Text) :
    (ended full).length = (full.map List.length).sum + full.length := by
  induction full with
  | nil => rfl
  | cons line full ih =>
    rw [ended_cons, List.length_append, List.length_cons, ih, List.map_cons, List.sum_cons,
      List.length_cons]
    omega

theorem count_ended (h : ∀ line ∈ full, '\n' ∉ line) : (ended full).count '\n' = full.length := by
  induction full with
  | nil => rfl
  | cons line full ih =>
    obtain ⟨hline, hfull⟩ := List.forall_mem_cons.1 h
    rw [ended_cons, List.count_append, List.count_eq_zero.2 hline, List.count_cons_self, ih hfull,
      List.length_cons, Nat.zero_add]

theorem reverse_ended_takeWhile (full : List Text) :
    (ended full).reverse.takeWhile (· ≠ '\n') = [] := by
  rcases List.eq_nil_or_concat full with rfl | ⟨full, line, rfl⟩
  · rfl
  · rw [List.concat_eq_append, ended_concat, List.reverse_append, List.reverse_singleton]
    exact List.takeWhile_cons_of_neg (by simp)

/-- A text in full lines and an open one. -/
theorem exists_ended (text : Text) :
    ∃ full last, text = ended full ++ last ∧ (∀ line ∈ full, '\n' ∉ line) ∧ '\n' ∉ last := by
  induction hn : text.length generalizing text with
  | zero => exact ⟨[], [], List.length_eq_zero_iff.1 hn, nofun, List.not_mem_nil⟩
  | succ n ih =>
    rcases List.eq_nil_or_concat text with rfl | ⟨text, c, rfl⟩
    · contradiction
    · rw [List.concat_eq_append] at hn ⊢
      rw [List.length_append, List.length_singleton] at hn
      obtain ⟨full, last, rfl, hfull, hlast⟩ := ih text (Nat.succ.inj hn)
      by_cases hc : c = '\n'
      · subst hc
        refine ⟨full ++ [last], [], ?_, ?_, List.not_mem_nil⟩
        · rw [ended_concat, List.append_nil]
        · intro line hline
          rcases List.mem_append.1 hline with hline | hline
          · exact hfull line hline
          · rw [List.mem_singleton.1 hline]
            exact hlast
      · refine ⟨full, last ++ [c], List.append_assoc .., hfull, ?_⟩
        intro hmem
        rcases List.mem_append.1 hmem with hmem | hmem
        · exact hlast hmem
        · exact hc (List.mem_singleton.1 hmem).symm

theorem takeWhile_append_of_not_mem (h : '\n' ∉ last) (after : Text) :
    (last ++ after).takeWhile (· ≠ '\n') = last ++ after.takeWhile (· ≠ '\n') := by
  apply List.takeWhile_append_of_pos
  intro c hc
  apply decide_eq_true
  rintro rfl
  exact h hc

theorem takeWhile_append_of_mem (h : '\n' ∈ text) (after : Text) :
    (text ++ after).takeWhile (· ≠ '\n') = text.takeWhile (· ≠ '\n') := by
  obtain ⟨line, more, rfl, hline⟩ := List.eq_append_cons_of_mem h
  rw [List.append_assoc, takeWhile_append_of_not_mem hline, takeWhile_append_of_not_mem hline]
  rfl

theorem exists_lines_cons (text : Text) :
    ∃ more, lines text = text.takeWhile (· ≠ '\n') :: more := by
  induction text with
  | nil => exact ⟨[], rfl⟩
  | cons c text ih =>
    obtain ⟨more, hmore⟩ := ih
    have hcons : lines (c :: text) =
        if (c == '\n') = true then [] :: lines text else (lines text).modifyHead (List.cons c) :=
      List.splitOnP_cons_eq_if_modifyHead (p := (· == '\n')) c text
    by_cases hc : c = '\n'
    · refine ⟨lines text, ?_⟩
      rw [hcons, if_pos (beq_iff_eq.2 hc), List.takeWhile_cons_of_neg (by simpa using hc)]
    · refine ⟨more, ?_⟩
      rw [hcons, if_neg (mt beq_iff_eq.1 hc), hmore, List.modifyHead_cons,
        List.takeWhile_cons_of_pos (by simpa using hc)]

theorem length_le_of_mem_lines (h : line ∈ text.lines) : line.length ≤ text.length := by
  rw [lines, List.splitOn] at h
  induction text generalizing line with
  | nil =>
    rw [List.splitOnP_nil, List.mem_singleton] at h
    exact h ▸ Nat.le_refl _
  | cons c text ih =>
    rw [List.splitOnP_cons_eq_if_modifyHead] at h
    rw [List.length_cons]
    split at h
    · rcases List.mem_cons.1 h with rfl | h
      · exact Nat.zero_le _
      · exact Nat.le_succ_of_le (ih h)
    · cases hs : List.splitOnP (· == '\n') text with
      | nil =>
        rw [hs] at h
        contradiction
      | cons first rest =>
        rw [hs, List.modifyHead_cons] at h
        rcases List.mem_cons.1 h with rfl | h
        · exact Nat.succ_le_succ (ih (hs ▸ List.mem_cons_self))
        · exact Nat.le_succ_of_le (ih (hs ▸ List.mem_cons_of_mem _ h))

theorem getElem?_lines (hf : ∀ line ∈ full, '\n' ∉ line) (hl : '\n' ∉ last) (after : Text) :
    (lines (ended full ++ (last ++ after)))[full.length]? =
      some (last ++ after.takeWhile (· ≠ '\n')) := by
  obtain ⟨more, hmore⟩ := exists_lines_cons (last ++ after)
  rw [lines_ended_append hf, List.getElem?_append_right (Nat.le_refl _), Nat.sub_self, hmore,
    takeWhile_append_of_not_mem hl]
  rfl

/-- Whether a line and a column lead to an offset: the lines before the line, a line feed after
each, and the column make up the offset, and the line is as long as the column at least. -/
def LeadTo (text : Text) (line column offset : Nat) : Prop :=
  ∃ content, text.lines[line]? = some content ∧ column ≤ content.length ∧
    ((text.lines.take line).map List.length).sum + line + column = offset

end Text

namespace Span

open Text (ended)

variable {text last : Text} {full : List Text} {offset : Nat}

theorem lineAt_left (before after : Text) :
    lineAt (before ++ after) before.length = before.count '\n' := by
  rw [lineAt, List.take_left]

theorem lineAt_append (hf : ∀ line ∈ full, '\n' ∉ line) (hl : '\n' ∉ last) (after : Text) :
    lineAt (ended full ++ (last ++ after)) (ended full ++ last).length = full.length := by
  rw [← List.append_assoc, lineAt_left, List.count_append, Text.count_ended hf,
    List.count_eq_zero.2 hl, Nat.add_zero]

theorem columnAt_append (full : List Text) (hl : '\n' ∉ last) (after : Text) :
    columnAt (ended full ++ (last ++ after)) (ended full ++ last).length = last.length := by
  rw [columnAt, ← List.append_assoc, List.take_left, List.reverse_append,
    Text.takeWhile_append_of_not_mem (mt List.mem_reverse.1 hl), Text.reverse_ended_takeWhile,
    List.append_nil, List.length_reverse]

theorem leadTo_at (h : offset ≤ text.length) :
    text.LeadTo (lineAt text offset) (columnAt text offset) offset := by
  obtain ⟨full, last, hbefore, hf, hl⟩ := Text.exists_ended (text.take offset)
  have htext : text = ended full ++ (last ++ text.drop offset) := by
    rw [← List.append_assoc, ← hbefore, List.take_append_drop]
  have hoffset : offset = (ended full ++ last).length := by
    rw [← hbefore, List.length_take, Nat.min_eq_left h]
  generalize text.drop offset = after at htext
  subst htext
  rw [hoffset, lineAt_append hf hl, columnAt_append full hl]
  refine ⟨_, Text.getElem?_lines hf hl after, ?_, ?_⟩
  · rw [List.length_append]
    exact Nat.le_add_right ..
  · rw [Text.lines_ended_append hf, List.take_left, List.length_append, Text.length_ended]

end Span

end ThemeMarkup
