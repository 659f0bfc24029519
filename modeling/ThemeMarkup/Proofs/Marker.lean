import ThemeMarkup.Marker
import ThemeMarkup.Proofs.Tag.Scan
import ThemeMarkup.Proofs.Text.Base64
import ThemeMarkup.Proofs.Text.Number
import ThemeMarkup.Proofs.Text.Utf8

namespace ThemeMarkup.Marker

variable {kind : Marker} {text rest payload : Text}

def IsSerial (digits : Text) : Prop :=
  digits ≠ [] ∧ ∀ c ∈ digits, Text.isDigit c = true

instance (digits : Text) : Decidable (IsSerial digits) :=
  decidable_of_iff (digits ≠ [] ∧ digits.all Text.isDigit = true) (by simp [IsSerial])

theorem spells_of_readPayload? (h : readPayload? kind text = some (payload, rest)) :
    payload ≠ [] ∧ '\n' ∉ payload ∧ text = payload ++ closing kind.word ++ rest := by
  unfold readPayload? at h
  split at h
  · contradiction
  · next c text =>
    split at h
    · contradiction
    · next before after hc =>
      split at h
      · contradiction
      · next hn =>
        cases h
        refine ⟨by simp, by simpa using hn, ?_⟩
        rw [← Text.append_of_cut? hc]
        simp [List.append_assoc]

theorem spells_of_read? (h : read? kind text = some (payload, rest)) :
    ∃ digits, IsSerial digits ∧ payload ≠ [] ∧ '\n' ∉ payload ∧
      text = opening kind.word ++ digits ++ '@' :: payload ++ closing kind.word ++ rest := by
  rw [read?] at h
  split at h
  · contradiction
  · next body ho =>
    split at h
    · next c digits body' ht hd =>
      obtain ⟨hp, hn, rfl⟩ := spells_of_readPayload? h
      refine ⟨c :: digits, ⟨by simp, fun e he => ?_⟩, hp, hn, ?_⟩
      · exact List.all_eq_true.1 List.all_takeWhile e (ht ▸ he)
      · rw [← Text.append_of_after? ho,
          ← List.takeWhile_append_dropWhile (p := Text.isDigit) (l := body), ht, hd]
        simp [List.append_assoc]
    · contradiction

theorem isSome_readPayload? (hp : payload ≠ []) (hn : '\n' ∉ payload) (rest : Text) :
    (readPayload? kind (payload ++ closing kind.word ++ rest)).isSome := by
  obtain ⟨c, payload, rfl⟩ := List.exists_cons_of_ne_nil hp
  have hsome : (Text.cut? (closing kind.word) (payload ++ closing kind.word ++ rest)).isSome :=
    Text.isSome_cut?_iff.2 ⟨payload, rest, rfl⟩
  obtain ⟨⟨before, after⟩, hc⟩ := Option.isSome_iff_exists.1 hsome
  have hpre := Text.prefix_of_cut? hc
  have hline : ¬ (c :: before).contains '\n' = true := by
    simp only [List.contains_eq_mem, decide_eq_true_eq, List.mem_cons, not_or] at hn ⊢
    exact ⟨hn.1, fun hm => hn.2 (hpre.subset hm)⟩
  simp only [List.cons_append, readPayload?, hc, if_neg hline, Option.isSome_some]

theorem read?_opening {digits : Text} (hd : IsSerial digits) (text : Text) :
    read? kind (opening kind.word ++ (digits ++ '@' :: text)) = readPayload? kind text := by
  have hat : Text.isDigit '@' = false := by decide
  obtain ⟨c, digits, rfl⟩ := List.exists_cons_of_ne_nil hd.1
  have htake : (c :: digits ++ '@' :: text).takeWhile Text.isDigit = c :: digits := by
    rw [List.takeWhile_append_of_pos hd.2, List.takeWhile_cons_of_neg (by simp [hat]),
      List.append_nil]
  have hdrop : (c :: digits ++ '@' :: text).dropWhile Text.isDigit = '@' :: text := by
    rw [List.dropWhile_append_of_pos hd.2, List.dropWhile_cons_of_neg (by simp [hat])]
  rw [read?, Text.after?_append]
  simp only [htake, hdrop]

theorem isSome_read? {digits : Text} (hd : IsSerial digits) (hp : payload ≠ [])
    (hn : '\n' ∉ payload) (rest : Text) :
    (read? kind (opening kind.word ++ digits ++ '@' :: payload ++ closing kind.word ++
      rest)).isSome := by
  have he : opening kind.word ++ digits ++ '@' :: payload ++ closing kind.word ++ rest =
      opening kind.word ++ (digits ++ '@' :: (payload ++ closing kind.word ++ rest)) := by
    simp [List.append_assoc]
  rw [he, read?_opening hd]
  exact isSome_readPayload? hp hn rest

theorem steady_read? (kind : Marker) : Found.Steady (read? kind) where
  takes := by
    intro text payload rest h
    obtain ⟨digits, -, -, -, rfl⟩ := spells_of_read? h
    exact ⟨_, by simp, rfl⟩
  again := by
    intro source payload rest h after
    obtain ⟨digits, hd, hp, hn, he⟩ := spells_of_read? h
    rw [List.append_cancel_right he]
    exact isSome_read? hd hp hn after

theorem begins_read? (kind : Marker) : Found.Begins (opening kind.word) (read? kind) := by
  intro text h
  cases hr : read? kind text with
  | none => rfl
  | some found =>
    obtain ⟨digits, -, -, -, rfl⟩ := spells_of_read? hr
    simp only [List.append_assoc] at h
    exact absurd (List.prefix_append ..) h

theorem nodes_of_silent (h : Found.Silent (read? kind) text.length text) :
    nodes kind text = [] := by
  have hscan : Found.scan (read? kind) text = [] := (Found.Scans.done h).scanFrom_eq
  rw [nodes, hscan]
  rfl

theorem nodes_eq_nil (h : ¬ opening kind.word <:+: text) : nodes kind text = [] :=
  nodes_of_silent ((begins_read? kind).silent_of_absent h)

def payloadOf (content : Text) : Text :=
  Base64.encode (Utf8.encode content)

@[simp] theorem decode_payloadOf (content : Text) : decode (payloadOf content) = .ok content := by
  rw [decode, payloadOf, Base64.decode_encode]
  dsimp only
  rw [Utf8.decode_encode]

theorem payloadOf_ne_nil {content : Text} (h : content ≠ []) : payloadOf content ≠ [] :=
  Base64.encode_ne_nil (Utf8.encode_ne_nil h)

theorem not_mem_payloadOf {c : Char} (content : Text) (hp : c ≠ '=')
    (hd : ∀ n < 64, c ≠ Base64.digit n) : c ∉ payloadOf content := by
  intro hc
  exact (Base64.forall_mem_encode _ c hc).elim (p := (c ≠ ·)) hp hd rfl

/-- The marker that holds some content under a serial number of its own. -/
def numbered (kind : Marker) (digits content : Text) : Text :=
  opening kind.word ++ digits ++ ['@'] ++ payloadOf content ++ closing kind.word

theorem numbered_append (kind : Marker) (digits content rest : Text) :
    numbered kind digits content ++ rest =
      opening kind.word ++ (digits ++ '@' ::
        (payloadOf content ++ (closing kind.word ++ rest))) := by
  simp [numbered, List.append_assoc]

theorem read?_numbered (kind : Marker) {digits content : Text} (hd : IsSerial digits)
    (h : content ≠ [])
    (rest : Text) :
    read? kind (numbered kind digits content ++ rest) = some (payloadOf content, rest) := by
  obtain ⟨c, tail, hp⟩ := List.exists_cons_of_ne_nil (payloadOf_ne_nil h)
  have hhash : '#' ∉ c :: tail := hp ▸ not_mem_payloadOf content (by decide) (by decide)
  have hline : ¬ (c :: tail).contains '\n' = true := by
    rw [List.contains_iff_mem, ← hp]
    exact not_mem_payloadOf content (by decide) (by decide)
  have hcut : Text.cut? (closing kind.word) (tail ++ (closing kind.word ++ rest)) =
      some (tail, rest) := by
    have hclosing : closing kind.word = '#' :: (closing kind.word).tail := rfl
    rw [hclosing, Text.cut?_append_of_not_mem fun hm => hhash (List.mem_cons_of_mem _ hm),
      Text.cut?_append, Option.map_some]
    dsimp only
    rw [List.append_nil]
  rw [numbered_append, read?_opening hd, hp]
  rw [List.cons_append, readPayload?, hcut]
  exact if_neg hline

section

variable [Serials]

theorem encode_eq (kind : Marker) (content rest : Text) :
    encode kind content ++ rest =
      opening kind.word ++ (serial kind.word content ++ '@' ::
        (payloadOf content ++ (closing kind.word ++ rest))) := by
  simp [encode, encodeAs, payloadOf, List.append_assoc]

theorem encode_eq_numbered (kind : Marker) (content : Text) :
    encode kind content = numbered kind (serial kind.word content) content :=
  rfl

theorem forall_mem_serial {p : Char → Prop} (h : ∀ d < 10, p (Nat.digitChar d))
    (kind content : Text) : ∀ c ∈ serial kind content, p c :=
  Text.forall_mem_ofNat h _

theorem isSerial_serial (kind content : Text) : IsSerial (serial kind content) :=
  ⟨Nat.toDigits_ne_nil, forall_mem_serial (by decide) kind content⟩

theorem read?_encode (kind : Marker) {content : Text} (h : content ≠ []) (rest : Text) :
    read? kind (encode kind content ++ rest) = some (payloadOf content, rest) := by
  rw [encode_eq_numbered]
  exact read?_numbered kind (isSerial_serial ..) h rest

end

end ThemeMarkup.Marker
