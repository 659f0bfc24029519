import ThemeMarkup.Proofs.Marked.Pass

namespace ThemeMarkup

open Found (Edits Scans Silent)
open Marker (Marked LiteralOnly Protected)
open Text (Unmarked)

variable {Interior : Text → Prop} {suffix text payload : Text} {strict : Bool}

namespace Marker

variable {kind : Marker} {rest : Text}

/-- What a marker that holds nothing is read with cannot be decoded: its first octets are not UTF-8.
-/
theorem decode_closing_ne_ok (kind : Marker) (more content : Text) :
    decode (("##END##" ++ kind.word.take 1) ++ more) ≠ .ok content := by
  have hgroup : ∃ octet : UInt8,
      (∀ octets, ∃ fault, Utf8.decode (0x10 :: 0xD0 :: octet :: octets) = .error fault) ∧
      Base64.decodeFrom 0 [] 0 (("##END##" ++ kind.word.take 1) ++ more) =
        ([0x10, 0xD0, octet] ++ ·) <$> Base64.decodeFrom 1 [] 0 more := by
    cases kind with
    | code => exact ⟨0xEB, fun _ => ⟨_, rfl⟩, rfl⟩
    | literal => exact ⟨0xE0, fun _ => ⟨_, rfl⟩, rfl⟩
  obtain ⟨octet, hutf, hbase⟩ := hgroup
  rw [decode, Base64.decode, hbase]
  by_cases hascii : (("##END##" ++ kind.word.take 1) ++ more).all fun c => c.toNat < 128
  · rw [if_pos hascii]
    cases Base64.decodeFrom 1 [] 0 more with
    | error fault =>
      intro h
      contradiction
    | ok octets =>
      obtain ⟨fault, hfault⟩ := hutf octets
      simp only [Functor.map, Except.map, List.cons_append, List.nil_append, hfault]
      intro h
      contradiction
  · rw [if_neg hascii]
    intro h
    contradiction

variable [Serials]

/-- A marker that holds nothing is read with its own closing and more for a payload. -/
theorem exists_payload_of_empty (h : read? kind (encode kind [] ++ text) = some (payload, rest)) :
    ∃ more, payload = ("##END##" ++ kind.word.take 1) ++ more := by
  obtain ⟨tail, hclosing⟩ : ∃ tail, closing kind.word = '#' :: tail := ⟨_, rfl⟩
  have hread :
      read? kind (encode kind [] ++ text) = readPayload? kind (closing kind.word ++ text) := by
    rw [encode_eq]
    exact read?_opening (isSerial_serial ..) _
  have htail : tail = (closing kind.word).tail := by
    rw [hclosing, List.tail_cons]
  have hlength : tail.length = 16 := by
    rw [htail]
    cases kind <;> rfl
  have hlead : '#' :: tail.take 7 = "##END##" ++ kind.word.take 1 := by
    rw [htail]
    cases kind <;> rfl
  have hnear :
      ∀ i < 7, ¬ (closing kind.word <+: tail.drop i ∨ tail.drop i <+: closing kind.word) := by
    rw [htail]
    cases kind <;> decide
  rw [hread, hclosing, List.cons_append, readPayload?] at h
  split at h
  · contradiction
  · next before after hc =>
    split at h
    · contradiction
    · cases h
      have he := (Text.cut?_eq_some_iff.1 hc).1
      rw [List.append_assoc] at he
      have hlong : 7 ≤ before.length := by
        refine Nat.le_of_not_lt fun hlt => hnear _ hlt ?_
        have hdrop := congrArg (List.drop before.length) he
        rw [List.drop_left, List.drop_append_of_le_length (by omega)] at hdrop
        exact List.prefix_or_prefix_of_prefix ⟨rest, hdrop.symm⟩ (List.prefix_append ..)
      have htake := congrArg (List.take 7) he
      rw [List.take_append_of_le_length (by omega), List.take_append_of_le_length hlong] at htake
      refine ⟨before.drop 7, ?_⟩
      rw [← hlead, htake, List.cons_append, List.take_append_drop]

theorem Marked.of_silent {core : Core} {Holds : Marker → Text → Prop} (h : Marked core Holds text)
    (hs : Silent (read? kind) text.length (text ++ rest)) :
    Marked core (fun other content =>
      Holds other content ∧ (other = kind → content = [])) text := by
  induction h with
  | plain h => exact .plain h
  | @marker gap content more other hg holds _ ih =>
    have hnone : read? kind (encode other content ++ (more ++ rest)) = none := by
      have hlt : gap.length < (gap ++ (encode other content ++ more)).length := by
        obtain ⟨inner, hinner⟩ := exists_encode_eq other content
        simp [hinner]
      have hread := hs gap.length hlt
      rwa [List.append_assoc, List.drop_left, List.append_assoc] at hread
    refine .marker hg ⟨holds, ?_⟩ (ih ?_)
    · rintro rfl
      by_contra hne
      rw [read?_encode other hne] at hnone
      contradiction
    · intro i hi
      have hread := hs (gap.length + ((encode other content).length + i)) (by simp; omega)
      simpa only [List.append_assoc, List.drop_append, Nat.add_sub_cancel_left, ← Nat.sub_sub,
        List.drop_of_length_le (Nat.le_add_right _ _), List.nil_append] using hread

/-- Each marker of a kind that is read gives its place to what is shown for it, if markers that hold
nothing are ruled out: by what markers may hold, or because all that is read can be decoded. -/
theorem Marked.exists_shown {Holds Holds' : Marker → Text → Prop} {Makes : Text → Text → Prop}
    (kind : Marker) (shown : Text → Text) (h : Marked .start Holds text)
    (hd : (∀ content, Holds kind content → content ≠ []) ∨
      ∀ found ∈ Found.scan (read? kind) text, ∃ content, decode found.value = .ok content)
    (hkeep : ∀ other content, Holds other content → (other = kind → content = []) →
      Holds' other content)
    (hshow : ∀ content, Holds kind content →
      Marked .start Holds' (shown content) ∧ (shown content).IsBraced)
    (hmakes : ∀ payload content, decode payload = .ok content → Makes payload (shown content)) :
    ∃ out, Edits (read? kind) Makes text out ∧ Marked .start Holds' out := by
  have hkept {text rest : Text} (h : Marked .start Holds text)
      (hs : Silent (read? kind) text.length (text ++ rest)) : Marked .start Holds' text := by
    apply (h.of_silent hs).mono List.infix_rfl
    intro other content holds
    exact hkeep other content holds.1 holds.2
  apply ((steady_read? kind).scans_scanFrom 0 text).exists_edits h
  · intro text h hs
    have hend : Silent (read? kind) text.length (text ++ []) := by rwa [List.append_nil]
    exact hkept h hend
  · rintro gap source rest payload hfound hin hs hr
    obtain ⟨content, after, he, holds, hgap, hafter⟩ := hin.exists_of_read? hr
    have hne : content ≠ [] := by
      rintro rfl
      rw [he] at hr
      obtain ⟨more, rfl⟩ := exists_payload_of_empty hr
      rcases hd with hd | hd
      · exact hd [] holds rfl
      · obtain ⟨found, hf, hv⟩ := hfound
        obtain ⟨content, hdecode⟩ := hd found hf
        rw [hv] at hdecode
        exact decode_closing_ne_ok kind more content hdecode
    rw [he, read?_encode kind hne] at hr
    cases hr
    obtain ⟨hmarked, hbraced⟩ := hshow content holds
    refine ⟨_, hmakes _ content (decode_payloadOf content), hafter, ?_⟩
    intro out hout
    exact (hkept hgap hs).append (hmarked.append hout (hbraced.seam_after out))
      (hbraced.seam_before_append gap out)

end Marker

variable [Marker.Serials]

theorem Engine.exists_shown_code (suffix : Text) (strict : Bool)
    (h : Marked .start (Protected Interior) text) :
    ∃ out, (standard suffix strict).runPass .showCode text = .ok out ∧
      Marked .start (LiteralOnly Interior) out := by
  obtain ⟨out, hedits, hout⟩ : ∃ out, Edits (Marker.read? .code) ShowsCode text out ∧
      Marked .start (LiteralOnly Interior) out := by
    apply h.exists_shown .code id (.inl fun content holds => holds.2.ne_nil)
    · intro other content holds hnil
      cases other with
      | literal => exact holds
      | code => exact absurd (hnil rfl) holds.2.ne_nil
    · intro content holds
      exact holds
    · intro payload content hdecode
      exact hdecode
  exact ⟨out, (replaces_showCode suffix strict).runPass_standard (by decide) hedits, hout⟩

/-- The last pass puts back the interiors of literals that are not empty. -/
theorem Engine.exists_shown_literals (suffix : Text) (strict : Bool)
    (h : Marked .start (LiteralOnly Interior) text)
    (hd : (∀ content, Interior content → content ≠ []) ∨
      ∃ out, (standard suffix strict).runPass .showLiterals text = .ok out)
    (hi : ∀ content, Interior content → Unmarked content) :
    ∃ out, (standard suffix strict).runPass .showLiterals text = .ok out ∧
      Marked .start (LiteralOnly fun content => Interior content ∧ content = []) out := by
  obtain ⟨out, hedits, hout⟩ : ∃ out, Edits (Marker.read? .literal) ShowsLiteral text out ∧
      Marked .start (LiteralOnly fun content => Interior content ∧ content = []) out := by
    apply h.exists_shown .literal
      (fun content => Target.statement "raw" ++ content ++ Target.statement "endraw")
    · refine hd.imp_right ?_
      rintro ⟨out, hout⟩
      exact exists_decode_of_runPass_showLiterals hout
    · intro other content holds hnil
      cases other with
      | literal => exact ⟨holds, hnil rfl⟩
      | code => contradiction
    · intro content holds
      have hraw := Target.isBraced_statement "raw"
      have hend := Target.isBraced_statement "endraw"
      have hplain :
          Marked .hashes (LiteralOnly fun content => Interior content ∧ content = []) content :=
        .plain (hi content holds)
      exact ⟨Standard.marked_around (.plain (by decide)) hraw
        (hplain.mono (by decide) fun _ _ h => h)
        (.plain (by decide)) hend, hraw.around content hend⟩
    · intro payload content hdecode
      exact ⟨content, hdecode, rfl⟩
  exact ⟨out, (replaces_showLiterals suffix strict).runPass_standard (by decide) hedits, hout⟩

end ThemeMarkup
