import Mathlib.Data.List.Chain
import Mathlib.Data.List.Infix
import ThemeMarkup.Compiler.Standard
import ThemeMarkup.Proofs.Marker
import ThemeMarkup.Proofs.Text.Blank

namespace ThemeMarkup

namespace Text

variable {text before after part : Text}

/-- Whether no two hash signs stand together in a text. -/
def Unmarked (text : Text) : Prop :=
  ¬ ("##" : Text) <:+: text

instance (text : Text) : Decidable (Unmarked text) :=
  inferInstanceAs (Decidable (¬ _))

theorem unmarked_iff : Unmarked text ↔ text.IsChain fun c d => c = '#' → d ≠ '#' := by
  rw [List.isChain_iff_forall_rel_of_append_cons_cons]
  constructor
  · rintro h c d before after rfl rfl rfl
    exact h ⟨before, after, by simp⟩
  · rintro h ⟨before, after, rfl⟩
    have hsplit : before ++ ("##" : Text) ++ after = before ++ '#' :: '#' :: after := by simp
    exact h hsplit rfl rfl

theorem unmarked_of_not_mem (h : '#' ∉ text) : Unmarked text := by
  intro hi
  exact h (hi.subset List.mem_cons_self)

theorem Unmarked.of_infix (h : Unmarked text) (hi : part <:+: text) : Unmarked part := by
  intro hp
  exact h (hp.trans hi)

theorem Unmarked.append (hb : Unmarked before) (ha : Unmarked after)
    (h : before.getLast? ≠ some '#' ∨ after.head? ≠ some '#') :
    Unmarked (before ++ after) := by
  rw [unmarked_iff] at hb ha ⊢
  apply List.isChain_append.2
  refine ⟨hb, ha, ?_⟩
  rintro c hc d hd rfl rfl
  cases h with
  | inl h => exact h hc
  | inr h => exact h hd

theorem unmarked_cons_of_ne {c : Char} (hc : c ≠ '#') (h : Unmarked text) :
    Unmarked (c :: text) := by
  have hone : Unmarked [c] := unmarked_of_not_mem (by simpa using Ne.symm hc)
  exact hone.append h (.inl (by simpa using hc))

/-- What may stand after text without markers at whose end one might begin. -/
structure Follows (text : Text) : Prop where
  hash : ¬ ("#" : Text) <+: text
  lead : ¬ ("_##" : Text) <+: text

structure Unled (text : Text) : Prop where
  hashes : ¬ ("##" : Text) <+: text
  lead : ¬ ("_##" : Text) <+: text

theorem follows_nil : Follows [] :=
  ⟨by simp, by simp⟩

theorem follows_brace (text : Text) : Follows ('\x7b' :: text) := by
  constructor
  · rintro ⟨rest, h⟩
    exact absurd (List.cons.inj h).1 (by decide)
  · rintro ⟨rest, h⟩
    exact absurd (List.cons.inj h).1 (by decide)

theorem Follows.unled (h : Follows text) : Unled text := by
  constructor
  · intro hp
    exact h.hash ((List.prefix_append ['#'] ['#']).trans hp)
  · exact h.lead

/-- How the beginning of a marker can stand in a text that goes on: within it or across its end. -/
theorem prefix_append_cases (hn : text ≠ []) (h : ("__##" : Text) <+: text ++ after) :
    ("##" : Text) <:+: text ∨ text = "_" ∧ ("_##" : Text) <+: after ∨
      text = "__" ∧ ("##" : Text) <+: after ∨ text = "__#" ∧ ("#" : Text) <+: after := by
  change ['_', '_', '#', '#'] <+: text ++ after at h
  cases text with
  | nil => contradiction
  | cons a text =>
    obtain ⟨rfl, h₁⟩ := List.cons_prefix_cons.1 h
    cases text with
    | nil => exact .inr (.inl ⟨rfl, h₁⟩)
    | cons b text =>
      obtain ⟨rfl, h₂⟩ := List.cons_prefix_cons.1 h₁
      cases text with
      | nil => exact .inr (.inr (.inl ⟨rfl, h₂⟩))
      | cons c text =>
        obtain ⟨rfl, h₃⟩ := List.cons_prefix_cons.1 h₂
        cases text with
        | nil => exact .inr (.inr (.inr ⟨rfl, h₃⟩))
        | cons d text =>
          obtain ⟨rfl, -⟩ := List.cons_prefix_cons.1 h₃
          exact .inl ⟨['_', '_'], text, rfl⟩

theorem not_hashes_prefix (hb : Unmarked before) (ha : ¬ ("#" : Text) <+: after) :
    ¬ ("##" : Text) <+: before ++ after := by
  intro h
  change ['#', '#'] <+: before ++ after at h
  cases before with
  | nil => exact ha ((List.prefix_append ['#'] ['#']).trans h)
  | cons a before =>
    obtain ⟨rfl, h₁⟩ := List.cons_prefix_cons.1 h
    cases before with
    | nil => exact ha h₁
    | cons b before =>
      obtain ⟨rfl, -⟩ := List.cons_prefix_cons.1 h₁
      exact hb ⟨[], before, rfl⟩

theorem Unmarked.unled_append (hb : Unmarked before) (ha : Follows after) :
    Unled (before ++ after) := by
  constructor
  · exact not_hashes_prefix hb ha.hash
  · intro h
    change ['_', '#', '#'] <+: before ++ after at h
    cases before with
    | nil => exact ha.lead h
    | cons a before =>
      obtain ⟨rfl, h₁⟩ := List.cons_prefix_cons.1 h
      exact not_hashes_prefix (hb.of_infix (List.suffix_cons _ _).isInfix) ha.hash h₁

end Text

namespace Marker

open Text (Unmarked Follows Unled)

variable {kind : Marker} {gap rest content : Text}

structure IsSealed (text : Text) : Prop where
  unmarked : Unmarked text
  last : text.getLast? = some '\x7d'

theorem IsSealed.ne_nil {text : Text} (h : IsSealed text) : text ≠ [] := by
  rintro rfl
  have hlast := h.last
  contradiction

theorem silent_of_forall (h : ∀ i < gap.length, ¬ ("__##" : Text) <+: gap.drop i ++ rest) :
    Found.Silent (read? kind) gap.length (gap ++ rest) := by
  intro i hi
  apply begins_read? kind
  rw [List.drop_append_of_le_length (Nat.le_of_lt hi)]
  intro hp
  exact h i hi ((List.prefix_append "__##".toList (kind.word ++ "##START##".toList)).trans hp)

theorem silent_of_follows (hg : Unmarked gap) (hr : Follows rest) :
    Found.Silent (read? kind) gap.length (gap ++ rest) := by
  apply silent_of_forall
  intro i hi hp
  have hn : gap.drop i ≠ [] := List.ne_nil_of_length_pos (by rw [List.length_drop]; omega)
  rcases Text.prefix_append_cases hn hp with h | ⟨-, h⟩ | ⟨-, h⟩ | ⟨-, h⟩
  · exact hg (h.trans (List.drop_suffix i gap).isInfix)
  · exact hr.lead h
  · exact hr.unled.hashes h
  · exact hr.hash h

theorem silent_of_isSealed (hg : IsSealed gap) (rest : Text) :
    Found.Silent (read? kind) gap.length (gap ++ rest) := by
  apply silent_of_forall
  intro i hi hp
  have hn : gap.drop i ≠ [] := List.ne_nil_of_length_pos (by rw [List.length_drop]; omega)
  have hlast : (gap.drop i).getLast? = some '\x7d' := by
    rw [List.getLast?_drop, if_neg (by omega), hg.last]
  rcases Text.prefix_append_cases hn hp with h | ⟨h, -⟩ | ⟨h, -⟩ | ⟨h, -⟩
  · exact hg.unmarked (h.trans (List.drop_suffix i gap).isInfix)
  all_goals
    rw [h] at hlast
    exact absurd hlast (by decide)

theorem IsSealed.append {text : Text} (hg : IsSealed gap) (ht : IsSealed text) :
    IsSealed (gap ++ text) := by
  constructor
  · apply hg.unmarked.append ht.unmarked
    left
    rw [hg.last]
    decide
  · rw [List.getLast?_append, ht.last]
    rfl

theorem isSealed_between {before inner after : Text} (hb : IsSealed (before ++ after))
    (hs : before.getLast? = some ' ') (ha : after.head? = some ' ') (hi : Unmarked inner) :
    IsSealed (before ++ inner ++ after) := by
  constructor
  · have hbefore := hb.unmarked.of_infix (List.prefix_append before after).isInfix
    have hafter := hb.unmarked.of_infix (List.suffix_append before after).isInfix
    apply (hbefore.append hi (.inl _)).append hafter (.inr _)
    · rw [hs]
      decide
    · rw [ha]
      decide
  · have hne : after ≠ [] := by
      rintro rfl
      contradiction
    have hlast := hb.last
    rw [List.getLast?_append_of_ne_nil _ hne] at hlast ⊢
    exact hlast

theorem isSealed_statement {inner : Text} (h : Unmarked inner) :
    IsSealed (Target.statement inner) :=
  isSealed_between ⟨by decide, rfl⟩ rfl rfl h

theorem isSealed_output {inner : Text} (h : Unmarked inner) : IsSealed (Target.output inner) :=
  isSealed_between ⟨by decide, rfl⟩ rfl rfl h

theorem isSealed_comment {inner : Text} (h : Unmarked inner) : IsSealed (Target.comment inner) :=
  isSealed_between ⟨by decide, rfl⟩ rfl rfl h

theorem follows_numbered (kind : Marker) (digits content rest : Text) :
    Follows (numbered kind digits content ++ rest) := by
  rw [numbered_append]
  constructor
  · rintro ⟨after, h⟩
    exact absurd (List.cons.inj h).1 (by decide)
  · rintro ⟨after, h⟩
    exact absurd (List.cons.inj (List.cons.inj h).2).1 (by decide)

theorem silent_underscores (h : Unled rest) :
    Found.Silent (read? kind) ['_', '_'].length (['_', '_'] ++ rest) := by
  apply silent_of_forall
  intro i hi hp
  have hhash : '#' ∉ List.drop i ['_', '_'] := by
    intro hm
    exact absurd ((List.drop_suffix i _).subset hm) (by decide)
  have hn : List.drop i ['_', '_'] ≠ [] :=
    List.ne_nil_of_length_pos (by rw [List.length_drop]; omega)
  rcases Text.prefix_append_cases hn hp with hin | ⟨-, hlead⟩ | ⟨-, hhashes⟩ | ⟨he, -⟩
  · exact hhash (hin.subset List.mem_cons_self)
  · exact h.lead hlead
  · exact h.hashes hhashes
  · rw [he] at hhash
    exact hhash (by decide)

/-- A reader of markers passes over a marker of another kind. -/
theorem silent_numbered {other : Marker} {digits : Text} (hk : kind ≠ other) (hd : IsSerial digits)
    (content : Text) (h : Unled rest) :
    Found.Silent (read? kind) (numbered other digits content).length
      (numbered other digits content ++ rest) := by
  let core : Text := "##" ++ other.word ++ "##START##" ++
    (digits ++ '@' :: (payloadOf content ++ ("##END##" ++ other.word ++ "##")))
  have hcore : '_' ∉ core := by
    have hpayload : '_' ∉ payloadOf content := not_mem_payloadOf content (by decide) (by decide)
    have hdigits : '_' ∉ digits := fun hm => absurd (hd.2 _ hm) (by decide)
    have hword : '_' ∉ other.word := by
      cases other <;> decide
    simp only [core, List.mem_append, List.mem_cons, not_or]
    exact ⟨⟨⟨by decide, hword⟩, by decide⟩, hdigits, by decide, hpayload, ⟨by decide, hword⟩,
      by decide⟩
  have hsplit : numbered other digits content = '_' :: '_' :: (core ++ ['_', '_']) := by
    have h := numbered_append other digits content []
    rw [List.append_nil, List.append_nil] at h
    rw [h]
    simp only [core, List.append_assoc, List.cons_append]
    cases other <;> rfl
  have hbegins : Found.Begins (opening kind.word) (read? kind) := begins_read? kind
  have hrest :
      numbered other digits content ++ rest = '_' :: '_' :: (core ++ (['_', '_'] ++ rest)) := by
    rw [hsplit, List.cons_append, List.cons_append, List.append_assoc]
  have hfirst : ¬ opening kind.word <+: '_' :: '_' :: (core ++ (['_', '_'] ++ rest)) := by
    cases kind <;> cases other
    · contradiction
    · exact Text.after?_id_eq_none_iff.1 rfl
    · exact Text.after?_id_eq_none_iff.1 rfl
    · contradiction
  have hsecond : ¬ opening kind.word <+: '_' :: (core ++ (['_', '_'] ++ rest)) := by
    rintro ⟨after, he⟩
    exact absurd (List.cons.inj (List.cons.inj he).2).1 (by decide)
  rw [hrest, hsplit]
  apply Found.Silent.cons (hbegins _ hfirst)
  apply Found.Silent.cons (hbegins _ hsecond)
  rw [List.length_append]
  exact (hbegins.silent_of_not_mem hcore _).append (silent_underscores h)

variable [Serials]

theorem encode_ne_nil (kind : Marker) (content : Text) : encode kind content ≠ [] := by
  simp [encode, encodeAs, opening]

theorem brace_not_mem_encode (kind : Marker) (content : Text) : '\x7b' ∉ encode kind content := by
  have hpayload : '\x7b' ∉ payloadOf content := not_mem_payloadOf content (by decide) (by decide)
  have hserial : '\x7b' ∉ serial kind.word content := fun hm =>
    forall_mem_serial (p := ('\x7b' ≠ ·)) (by decide) _ _ _ hm rfl
  have hkind : '\x7b' ∉ opening kind.word ∧ '\x7b' ≠ '@' ∧ '\x7b' ∉ closing kind.word := by
    cases kind <;> decide
  have h := encode_eq kind content []
  rw [List.append_nil, List.append_nil] at h
  rw [h]
  simp only [List.mem_append, List.mem_cons, not_or]
  exact ⟨hkind.1, hserial, hkind.2.1, hpayload, hkind.2.2⟩

theorem follows_encode (kind : Marker) (content rest : Text) :
    Follows (encode kind content ++ rest) :=
  follows_numbered kind _ content rest

theorem silent_encode_literal (content : Text) (h : Unled rest) :
    Found.Silent (read? .code) (encode .literal content).length
    (encode .literal content ++ rest) := by
  have hkinds : Marker.code ≠ .literal := by decide
  exact silent_numbered hkinds (isSerial_serial ..) content h

end Marker

end ThemeMarkup
