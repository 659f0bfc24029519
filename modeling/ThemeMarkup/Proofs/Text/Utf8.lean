import ThemeMarkup.Text.Utf8

namespace ThemeMarkup.Utf8

variable {offset n taken owed low high value : Nat} {octet : UInt8} {p : Pending} {rest : Octets}

theorem toNat_octet (h : n < 256) : (UInt8.ofNat n).toNat = n :=
  UInt8.toNat_ofNat_of_lt h

theorem decodeFrom_lead (h : 0x80 ≤ n) (hn : n < 256) (hp : pending? (UInt8.ofNat n) = some p) :
    decodeFrom offset none (UInt8.ofNat n :: rest) = decodeFrom (offset + 1) (some p) rest := by
  rw [decodeFrom, toNat_octet hn, if_neg (by omega), hp]

theorem toNat_tailOctet (n : Nat) : (tailOctet n).toNat = 0x80 + n % 0x40 :=
  toNat_octet (by omega)

theorem decodeFrom_last (hl : low ≤ 0x80 + n % 0x40) (hh : 0x80 + n % 0x40 ≤ high) :
    decodeFrom offset (some ⟨octet, taken, 1, low, high, value⟩) (tailOctet n :: rest) =
      (Char.ofNat (value * 0x40 + n % 0x40) :: ·) <$> decodeFrom (offset + 1) none rest := by
  rw [decodeFrom, toNat_tailOctet, if_pos ⟨hl, hh⟩, Nat.add_sub_cancel_left]
  exact if_pos rfl

theorem decodeFrom_more (hl : low ≤ 0x80 + n % 0x40) (hh : 0x80 + n % 0x40 ≤ high) :
    decodeFrom offset (some ⟨octet, taken, owed + 2, low, high, value⟩) (tailOctet n :: rest) =
      decodeFrom (offset + 1)
        (some ⟨octet, taken + 1, owed + 1, 0x80, 0xBF, value * 0x40 + n % 0x40⟩) rest := by
  rw [decodeFrom, toNat_tailOctet, if_pos ⟨hl, hh⟩, Nat.add_sub_cancel_left]
  exact if_neg (by simp)

theorem pending?_two : ∀ n < 0x20, 2 ≤ n →
    pending? (UInt8.ofNat (0xC0 + n)) = some ⟨UInt8.ofNat (0xC0 + n), 1, 1, 0x80, 0xBF, n⟩ := by
  decide

theorem pending?_three : ∀ n < 0x10,
    pending? (UInt8.ofNat (0xE0 + n)) = some ⟨UInt8.ofNat (0xE0 + n), 1, 2,
      if n = 0 then 0xA0 else 0x80, if n = 0xD then 0x9F else 0xBF, n⟩ := by
  decide

theorem pending?_four : ∀ n < 5,
    pending? (UInt8.ofNat (0xF0 + n)) = some ⟨UInt8.ofNat (0xF0 + n), 1, 3,
      if n = 0 then 0x90 else 0x80, if n = 4 then 0x8F else 0xBF, n⟩ := by
  decide

/-- A character is read back from its octets, whatever follows them. -/
theorem decodeFrom_encodeChar (offset : Nat) (c : Char) (rest : Octets) :
    ∃ offset', decodeFrom offset none (encodeChar c ++ rest) =
      (c :: ·) <$> decodeFrom offset' none rest := by
  have hc : Char.ofNat c.toNat = c := Char.ofNat_toNat c
  have hvalid : c.toNat < 0xD800 ∨ 0xDFFF < c.toNat ∧ c.toNat < 0x110000 := c.valid
  rw [encodeChar]
  generalize c.toNat = n at hc hvalid
  split
  · exact ⟨offset + 1, by rw [List.singleton_append, decodeFrom, toNat_octet (by omega),
      if_pos ‹_›, hc]⟩
  split
  · refine ⟨offset + 1 + 1, ?_⟩
    rw [List.cons_append, decodeFrom_lead (by omega) (by omega)
      (pending?_two _ (by omega) (by omega)), List.singleton_append,
      decodeFrom_last (by omega) (by omega), show n / 0x40 * 0x40 + n % 0x40 = n by omega, hc]
  split
  · refine ⟨offset + 1 + 1 + 1, ?_⟩
    rw [List.cons_append, decodeFrom_lead (by omega) (by omega) (pending?_three _ (by omega)),
      List.cons_append, decodeFrom_more (by split <;> omega) (by split <;> omega),
      List.singleton_append, decodeFrom_last (by omega) (by omega),
      show (n / 0x1000 * 0x40 + n / 0x40 % 0x40) * 0x40 + n % 0x40 = n by omega, hc]
  · refine ⟨offset + 1 + 1 + 1 + 1, ?_⟩
    rw [List.cons_append, decodeFrom_lead (by omega) (by omega) (pending?_four _ (by omega)),
      List.cons_append, decodeFrom_more (by split <;> omega) (by split <;> omega),
      List.cons_append, decodeFrom_more (by omega) (by omega),
      List.singleton_append, decodeFrom_last (by omega) (by omega),
      show ((n / 0x40000 * 0x40 + n / 0x1000 % 0x40) * 0x40 + n / 0x40 % 0x40) * 0x40 + n % 0x40 = n
        by omega, hc]

theorem decodeFrom_encode (offset : Nat) (text : Text) :
    decodeFrom offset none (encode text) = .ok text := by
  induction text generalizing offset with
  | nil => rfl
  | cons c text ih =>
    obtain ⟨offset', h⟩ := decodeFrom_encodeChar offset c (encode text)
    rw [encode, List.flatMap_cons]
    rw [encode] at h ih
    rw [h, ih]
    rfl

@[simp] theorem decode_encode (text : Text) : decode (encode text) = .ok text :=
  decodeFrom_encode 0 text

theorem encode_ne_nil {text : Text} (h : text ≠ []) : encode text ≠ [] := by
  obtain ⟨c, text, rfl⟩ := List.exists_cons_of_ne_nil h
  have hchar : encodeChar c ≠ [] := by
    rw [encodeChar]
    split
    · simp
    · split
      · simp
      · split <;> simp
  rw [encode, List.flatMap_cons]
  exact List.append_ne_nil_of_left_ne_nil hchar _

end ThemeMarkup.Utf8
