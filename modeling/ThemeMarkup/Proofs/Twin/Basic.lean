import Mathlib.Data.Option.Basic
import ThemeMarkup.Proofs.Marked.Routine

namespace ThemeMarkup

namespace Option.Rel

variable {α β γ δ : Type} {R : α → β → Prop} {S : γ → δ → Prop}

theorem map {f : α → γ} {g : β → δ} (hf : ∀ {a b}, R a b → S (f a) (g b)) {a : Option α}
    {b : Option β}
    (h : Option.Rel R a b) : Option.Rel S (a.map f) (b.map g) := by
  cases h with
  | none => exact .none
  | some h => exact .some (hf h)

theorem none_or_some {a : Option α} {b : Option β} (h : Option.Rel R a b) :
    (a = none ∧ b = none) ∨ ∃ x y, a = some x ∧ b = some y ∧ R x y := by
  cases h with
  | none => exact .inl ⟨rfl, rfl⟩
  | some h => exact .inr ⟨_, _, rfl, rfl, h⟩

theorem findSome? {f : α → Option γ} {g : β → Option δ}
    (hf : ∀ {a b}, R a b → Option.Rel S (f a) (g b))
    {l : List α} {l' : List β} (h : List.Forall₂ R l l') :
    Option.Rel S (l.findSome? f) (l'.findSome? g) := by
  induction h with
  | nil => exact .none
  | @cons a b l l' hab _ ih =>
    rw [List.findSome?_cons, List.findSome?_cons]
    rcases none_or_some (hf hab) with ⟨hx, hy⟩ | ⟨x, y, hx, hy, hrel⟩
    · rw [hx, hy]
      exact ih
    · rw [hx, hy]
      exact .some hrel

end Option.Rel

namespace Marker

variable {core : Core} {Holds Holds' : Marker → Text → Prop} {kind kind' : Marker}
  {content content' gap before after rest rest' text text' needle needle' : Text}

variable [Marker.Serials]

theorem encode_append_inj (h : encode kind content ++ rest = encode kind content' ++ rest') :
    content' = content ∧ rest' = rest := by
  rw [encode_eq, encode_eq] at h
  have hat (content payload : Text) :
      Text.cut? ['@'] (serial kind.word content ++ '@' :: payload) =
        some (serial kind.word content, payload) :=
    Text.cut?_of_not_mem
      (fun hm => forall_mem_serial (p := ('@' ≠ ·)) (by decide) _ _ _ hm rfl) rfl payload
  have hpayload := congrArg (Text.cut? ['@']) (List.append_cancel_left h)
  rw [hat, hat] at hpayload
  have hpayload := (Prod.mk.inj (Option.some.inj hpayload)).2
  have hcut (content rest : Text) : Text.cut? (closing kind.word)
      (payloadOf content ++ (closing kind.word ++ rest)) = some (payloadOf content, rest) :=
    Text.cut?_of_not_mem (not_mem_payloadOf content (by decide) (by decide)) rfl rest
  have hsame := congrArg (Text.cut? (closing kind.word)) hpayload
  rw [hcut, hcut] at hsame
  obtain ⟨hsame, hrest⟩ := Prod.mk.inj (Option.some.inj hsame)
  have hdecode := congrArg decode hsame
  rw [decode_payloadOf, decode_payloadOf] at hdecode
  exact ⟨(Except.ok.inj hdecode).symm, hrest.symm⟩

/-- A marker in marked text is the first one of it or comes after that. -/
theorem Marked.apart (hg : core.Plain gap) (hr : Marked core Holds rest)
    (h : gap ++ (encode kind content ++ rest) = before ++ (encode kind' content' ++ after)) :
    (before = gap ∧ kind' = kind ∧ content' = content ∧ after = rest) ∨
      ∃ middle, before = gap ++ (encode kind content ++ middle) ∧
        rest = middle ++ (encode kind' content' ++ after) := by
  -- What an opening has before its last word is as long for each kind, so that this word shows
  -- where a marker begins.
  let start : Text := "##START##"
  let lead (kind : Marker) : Text := "__##" ++ kind.word
  obtain ⟨tail, hopening⟩ : ∃ tail, encode kind' content' ++ after =
    lead kind' ++ (start ++ tail) := by
    rw [encode_eq, opening, List.append_assoc]
    exact ⟨_, rfl⟩
  have hlead (kind : Marker) : (lead kind).length = 10 := by
    cases kind <;> rfl
  have hstart :
      gap ++ (encode kind content ++ rest) = (before ++ lead kind') ++ (start ++ tail) := by
    rw [h, hopening]
    exact (List.append_assoc ..).symm
  rcases start_cases hstart with hin | hb | ⟨part, hb, hafter⟩
  · exact absurd (core.part.trans hin) hg
  · obtain ⟨rfl, hword⟩ := List.append_inj' hb ((hlead _).trans (hlead _).symm)
    obtain rfl := word_injective (List.append_cancel_left hword)
    exact .inl ⟨rfl, rfl, encode_append_inj (List.append_cancel_left h)⟩
  · obtain ⟨middle, kind'', -, -, hpart, -⟩ := hr.exists_marker hafter
    have hb : before ++ lead kind' = gap ++ (encode kind content ++ middle) ++ lead kind'' := by
      rw [hb, hpart]
      simp only [lead, List.append_assoc]
    obtain ⟨rfl, -⟩ := List.append_inj' hb ((hlead _).trans (hlead _).symm)
    refine .inr ⟨middle, rfl, ?_⟩
    rw [List.append_assoc, List.append_assoc] at h
    exact List.append_cancel_left (List.append_cancel_left h)

/-- What plain text is like. A part of plain text is plain. -/
structure Plainness where
  Allows : Text → Prop
  of_infix : ∀ {part text : Text}, part <:+: text → Allows text → Allows part

def Plainness.any : Plainness :=
  ⟨fun _ => True, fun _ _ => trivial⟩

def Core.plainness (core : Core) : Plainness :=
  ⟨core.Plain, fun hi h => h.of_infix hi⟩

/-- The same plain text and markers of the same kinds in turn, what they hold being paired. -/
inductive Twin (plainness : Plainness) (Pair : Marker → Text → Text → Prop) :
    Text → Text → Prop where
  | plain {text : Text} (plain : plainness.Allows text) : Twin plainness Pair text text
  | marker {gap content content' rest rest' : Text} {kind : Marker} (plain : plainness.Allows gap)
      (pair : Pair kind content content') (more : Twin plainness Pair rest rest') :
      Twin plainness Pair (gap ++ (encode kind content ++ rest))
      (gap ++ (encode kind content' ++ rest'))

abbrev Kin (Pair : Marker → Text → Text → Prop) : Text → Text → Prop :=
  Twin .any Pair

/-- Whether the contents of a marker decide what they are paired with. -/
structure Decides (Pair : Marker → Text → Text → Prop) : Prop where
  eq : ∀ {kind content content' content''}, Pair kind content content' →
    Pair kind content content'' →
    content' = content''

def flipped (Pair : Marker → Text → Text → Prop) (kind : Marker) (content content' : Text) : Prop :=
  Pair kind content' content

namespace Twin

variable {p : Plainness} {Pair Pair' : Marker → Text → Text → Prop} {c : Char} {other : Text}

theorem flip (h : Twin p Pair text text') : Twin p (flipped Pair) text' text := by
  induction h with
  | plain h => exact .plain h
  | marker h pair _ ih => exact .marker h pair ih

theorem mono {p' : Plainness} (h : Twin p Pair text text')
    (hp : ∀ {text}, p.Allows text → p'.Allows text)
    (hh : ∀ {kind content content'}, Pair kind content content' → Pair' kind content content') :
    Twin p' Pair' text text' := by
  induction h with
  | plain h => exact .plain (hp h)
  | marker h pair _ ih => exact .marker (hp h) (hh pair) ih

theorem kin (h : Twin p Pair text text') : Kin Pair text text' :=
  h.mono (fun _ => trivial) id

theorem left (h : Twin core.plainness Pair text text') :
    Marked core (fun kind content => ∃ content', Pair kind content content') text := by
  induction h with
  | plain h => exact .plain h
  | marker h pair _ ih => exact .marker h ⟨_, pair⟩ ih

theorem head?_eq (h : Twin p Pair text text') : text'.head? = text.head? := by
  cases h with
  | plain h => rfl
  | @marker gap content content' rest rest' kind h pair more =>
    obtain ⟨inner, hinner⟩ := exists_encode_eq kind content
    obtain ⟨inner', hinner'⟩ := exists_encode_eq kind content'
    simp only [hinner, hinner', List.head?_append, List.cons_append, List.head?_cons]

theorem getLast?_eq (h : Twin p Pair text text') : text'.getLast? = text.getLast? := by
  induction h with
  | plain h => rfl
  | marker h pair more ih => simp only [List.getLast?_append, getLast?_encode, ih]

theorem eq_nil (h : Twin p Pair text text') : text' = [] ↔ text = [] := by
  rw [← List.head?_eq_none_iff, ← List.head?_eq_none_iff, h.head?_eq]

theorem cons (c : Char) (h : Kin Pair text text') : Kin Pair (c :: text) (c :: text') := by
  cases h with
  | plain _ => exact .plain trivial
  | @marker gap content content' rest rest' kind _ pair more =>
    have hgap : Plainness.any.Allows (c :: gap) := trivial
    exact .marker hgap pair more

theorem append (hb : Kin Pair before text) (ha : Kin Pair rest rest') :
    Kin Pair (before ++ rest) (text ++ rest') := by
  induction hb with
  | @plain gap _ =>
    induction gap with
    | nil => exact ha
    | cons c gap ih => exact (ih trivial).cons c
  | marker _ pair _ ih =>
    simp only [List.append_assoc]
    exact .marker trivial pair ih

theorem of_pair (pair : Pair kind content content') :
    Kin Pair (encode kind content) (encode kind content') := by
  have hempty : Kin Pair [] [] := .plain trivial
  have hgap : Plainness.any.Allows [] := trivial
  have hmarker := Twin.marker hgap pair hempty
  rwa [List.append_nil, List.append_nil] at hmarker

theorem append_encode (hb : Twin p Pair before text) (hk : Pair kind content content')
    (ha : Twin p Pair rest rest') :
    Twin p Pair (before ++ (encode kind content ++ rest))
    (text ++ (encode kind content' ++ rest')) := by
  induction hb with
  | plain h => exact .marker h hk ha
  | marker h pair _ ih =>
    rw [List.append_assoc, List.append_assoc, List.append_assoc, List.append_assoc]
    exact .marker h pair ih

theorem of_append (h : Twin p Pair (before ++ after) text') (hs : Seam before after) :
    ∃ before' after', text' = before' ++ after' ∧ Twin p Pair before before' ∧
      Twin p Pair after after' := by
  generalize ht : before ++ after = text at h
  induction h generalizing before with
  | plain h =>
    subst ht
    exact ⟨before, after, rfl, .plain (p.of_infix (List.prefix_append ..).isInfix h),
      .plain (p.of_infix (List.suffix_append ..).isInfix h)⟩
  | @marker gap content content' rest rest' kind hg pair more ih =>
    rcases seam_cases hs ht with ⟨part, rfl, rfl⟩ | ⟨part, rfl, rfl, hseam⟩
    · refine ⟨before, part ++ (encode kind content' ++ rest'), ?_, ?_, ?_⟩
      · rw [List.append_assoc]
      · exact .plain (p.of_infix (List.prefix_append ..).isInfix hg)
      · exact .marker (p.of_infix (List.suffix_append ..).isInfix hg) pair more
    · obtain ⟨before', after', rfl, hbefore, hafter⟩ := ih hseam rfl
      refine ⟨gap ++ (encode kind content' ++ before'), after', ?_, .marker hg pair hbefore,
        hafter⟩
      simp only [List.append_assoc]

end Twin

theorem Marked.of_encode (h : Marked core Holds (gap ++ (encode kind content ++ rest))) :
    Marked core Holds gap ∧ Holds kind content ∧ Marked core Holds rest := by
  rw [encode_eq] at h
  obtain ⟨content', rest', he, holds, hgap, hrest⟩ := h.exists_of_opening
  rw [← encode_eq] at he
  obtain ⟨rfl, rfl⟩ := encode_append_inj he
  exact ⟨hgap, holds, hrest⟩

theorem Marked.twin {Pair : Marker → Text → Text → Prop} (h : Marked core Holds text)
    (h' : Marked core Holds' text)
    (hself : ∀ {kind content}, Holds kind content → Holds' kind content →
      Pair kind content content) :
    Twin core.plainness Pair text text := by
  induction h with
  | plain h => exact .plain h
  | marker h holds _ ih =>
    obtain ⟨-, holds', hrest⟩ := h'.of_encode
    exact .marker h (hself holds holds') (ih hrest)

theorem Twin.tighten {p : Plainness} {Pair Pair' : Marker → Text → Text → Prop}
    (h : Twin p Pair text text') (hm : Marked core Holds text) (hm' : Marked core Holds' text')
    (hself : ∀ {kind content}, Holds kind content → Holds' kind content →
      Pair' kind content content)
    (hpair : ∀ {kind content content'}, Pair kind content content' → Holds kind content →
      Holds' kind content' → Pair' kind content content') :
      Twin core.plainness Pair' text text' := by
  induction h with
  | plain h => exact hm.twin hm' hself
  | marker h pair _ ih =>
    obtain ⟨hgap, holds, hrest⟩ := hm.of_encode
    obtain ⟨hgap', holds', hrest'⟩ := hm'.of_encode
    exact (hgap.twin hgap' hself).append_encode (hpair pair holds holds') (ih hrest hrest')

namespace Twin

variable {p : Plainness} {Pair : Marker → Text → Text → Prop} {other : Text}

theorem not_plain_encode :
    ¬ core.Plain (gap ++ (encode kind content ++ rest)) := by
  intro hplain
  have hstart : ("##START##" : Text) <:+: encode kind content :=
    ⟨"__##" ++ kind.word, serial kind.word content ++ ['@'] ++ payloadOf content ++
      closing kind.word, by simp [encode, encodeAs, opening, payloadOf]⟩
  exact hplain (core.part.trans (hstart.trans (List.infix_append' gap (encode kind content) rest)))

theorem unique (hd : Decides Pair) (h : Twin core.plainness Pair text text')
    (h' : Twin core.plainness Pair text other) : text' = other := by
  induction h generalizing other with
  | @plain text h =>
    generalize ht : text = same at h'
    cases h' with
    | plain _ => rfl
    | marker hg pair more =>
      subst ht
      exact absurd h not_plain_encode
  | @marker gap content content' rest rest' kind hg pair more ih =>
    generalize ht : gap ++ (encode kind content ++ rest) = same at h'
    cases h' with
    | plain h =>
      subst ht
      exact absurd h not_plain_encode
    | @marker gap₂ content₂ content₂' rest₂ rest₂' kind₂ hg₂ pair₂ more₂ =>
      rcases Marked.apart hg more.left ht with ⟨rfl, rfl, rfl, rfl⟩ | ⟨middle, rfl, -⟩
      · rw [hd.eq pair pair₂, ih more₂]
      · exact absurd hg₂ not_plain_encode

theorem inductionOn {motive : ∀ text text', Twin p Pair text text' → Prop}
    (nil : ∀ h, motive [] [] h)
    (cons : ∀ c {text text'} (h : Twin p Pair (c :: text) (c :: text'))
      (more : Twin p Pair text text'), motive text text' more → motive (c :: text) (c :: text') h)
    (marker : ∀ kind {content content' rest rest'}
      (h : Twin p Pair (encode kind content ++ rest) (encode kind content' ++ rest'))
      (_ : Pair kind content content') (more : Twin p Pair rest rest'), motive rest rest' more →
        motive (encode kind content ++ rest) (encode kind content' ++ rest') h)
    (h : Twin p Pair text text') : motive text text' h := by
  have hpart {c : Char} {text : Text} (h : p.Allows (c :: text)) : p.Allows text :=
    p.of_infix (List.suffix_cons c text).isInfix h
  induction h with
  | @plain text h =>
    induction text with
    | nil => exact nil _
    | cons c text ih => exact cons c _ (.plain (hpart h)) (ih (hpart h))
  | @marker gap content content' rest rest' kind h pair more ih =>
    induction gap with
    | nil => exact marker kind _ pair more ih
    | cons c gap ihg => exact cons c _ (.marker (hpart h) pair more) (ihg (hpart h))

theorem exists_of_braced (hd : Decides Pair) (hb : needle.IsBraced)
    (hn : Twin core.plainness Pair needle needle')
    (h : Twin core.plainness Pair (needle ++ rest) text') :
    ∃ rest', text' = needle' ++ rest' ∧ Twin core.plainness Pair rest rest' := by
  obtain ⟨same, rest', rfl, hsame, hrest⟩ := h.of_append (hb.seam_after rest)
  exact ⟨rest', congrArg (· ++ rest') (hsame.unique hd hn), hrest⟩

theorem isBraced (h : Twin p Pair text text') (hb : text.IsBraced) : text'.IsBraced :=
  ⟨h.head?_eq.trans hb.first, h.getLast?_eq.trans hb.last⟩

theorem after?_braced (hd : Decides Pair) (hd' : Decides (flipped Pair)) (hb : needle.IsBraced)
    (hn : Twin core.plainness Pair needle needle') (h : Twin core.plainness Pair text text') :
    Option.Rel (Twin core.plainness Pair) (Text.after? id needle text)
    (Text.after? id needle' text') := by
  cases hr : Text.after? id needle text with
  | some rest =>
    obtain rfl := Text.append_of_after? hr
    obtain ⟨rest', rfl, hrest⟩ := hn.exists_of_braced hd hb h
    rw [Text.after?_append]
    exact .some hrest
  | none =>
    cases hr' : Text.after? id needle' text' with
    | none => exact .none
    | some rest' =>
      obtain rfl := Text.append_of_after? hr'
      obtain ⟨rest, rfl, -⟩ := hn.flip.exists_of_braced hd' (hn.isBraced hb) h.flip
      rw [Text.after?_append] at hr
      contradiction

theorem cut?_braced (hd : Decides Pair) (hd' : Decides (flipped Pair)) (hb : needle.IsBraced)
    (hn : Twin core.plainness Pair needle needle') (h : Twin core.plainness Pair text text') :
    Option.Rel (fun cut cut' => Kin Pair cut.1 cut'.1 ∧ Twin core.plainness Pair cut.2 cut'.2)
      (Text.cut? needle text) (Text.cut? needle' text') := by
  obtain ⟨inner, rfl⟩ := List.head?_eq_some_iff.1 hb.first
  obtain ⟨inner', rfl⟩ := List.head?_eq_some_iff.1 (hn.isBraced hb).first
  induction h using Twin.inductionOn with
  | nil => exact .none
  | cons c h more ih =>
    rw [Text.cut?, Text.cut?, Text.cutAt?_cons, Text.cutAt?_cons]
    rcases Option.Rel.none_or_some (hn.after?_braced hd hd' hb h) with
      ⟨hx, hy⟩ | ⟨rest, rest', hx, hy, hrest⟩
    · rw [hx, hy]
      exact Option.Rel.map (fun hcut => ⟨hcut.1.cons c, hcut.2⟩) ih
    · rw [hx, hy]
      exact .some ⟨.plain trivial, hrest⟩
  | marker kind h pair more ih =>
    rw [Text.cut?_append_of_not_mem (brace_not_mem_encode _ _),
      Text.cut?_append_of_not_mem (brace_not_mem_encode _ _)]
    exact Option.Rel.map (fun hcut => ⟨(of_pair pair).append hcut.1, hcut.2⟩) ih

end Twin

end Marker

end ThemeMarkup
