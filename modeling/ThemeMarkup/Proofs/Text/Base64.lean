import ThemeMarkup.Text.Base64

namespace ThemeMarkup.Base64

def IsLetter (c : Char) : Prop :=
  c = '=' ∨ ∃ n < 64, c = digit n

theorem digit?_digit : ∀ n < 64, digit? (digit n) = some n := by
  decide

/-- Each value is that of one digit only. -/
theorem eq_digit_of_digit? {c : Char} {n : Nat} (h : digit? c = some n) : n < 64 ∧ c = digit n := by
  have hnat (m : Nat) (hm : c.toNat = m) : c = Char.ofNat m := by
    rw [← hm, Char.ofNat_toNat]
  unfold digit? at h
  dsimp only at h
  split at h
  · obtain rfl := Option.some.inj h
    refine ⟨by omega, ?_⟩
    rw [digit, if_pos (by omega)]
    exact hnat _ (by omega)
  · split at h
    · obtain rfl := Option.some.inj h
      refine ⟨by omega, ?_⟩
      rw [digit, if_neg (by omega), if_pos (by omega)]
      exact hnat _ (by omega)
    · split at h
      · obtain rfl := Option.some.inj h
        refine ⟨by omega, ?_⟩
        rw [digit, if_neg (by omega), if_neg (by omega), if_pos (by omega)]
        exact hnat _ (by omega)
      · split at h
        · next hc =>
          obtain rfl := Option.some.inj h
          exact ⟨by decide, hc⟩
        · split at h
          · next hc =>
            obtain rfl := Option.some.inj h
            exact ⟨by decide, hc⟩
          · contradiction

theorem digit_ne_pad : ∀ n < 64, digit n ≠ '=' := by
  decide

theorem isLetter_digit {n : Nat} (h : n < 64) : IsLetter (digit n) :=
  .inr ⟨n, h, rfl⟩

theorem isLetter_pad : IsLetter '=' :=
  .inl rfl

theorem IsLetter.elim {p : Char → Prop} (hp : p '=') (hd : ∀ n < 64, p (digit n)) {c : Char}
    (h : IsLetter c) : p c := by
  rcases h with rfl | ⟨n, hn, rfl⟩
  · exact hp
  · exact hd n hn

theorem forall_mem_encode (octets : Octets) : ∀ c ∈ encode octets, IsLetter c := by
  induction octets using encode.induct with
  | case1 => simp [encode]
  | case2 a =>
    have ha := a.toNat_lt
    simp only [encode, List.forall_mem_cons, List.not_mem_nil, false_implies, implies_true,
      and_true]
    exact ⟨isLetter_digit (by omega), isLetter_digit (by omega), isLetter_pad, isLetter_pad⟩
  | case3 a b =>
    have ha := a.toNat_lt
    have hb := b.toNat_lt
    simp only [encode, List.forall_mem_cons, List.not_mem_nil, false_implies, implies_true,
      and_true]
    exact ⟨isLetter_digit (by omega), isLetter_digit (by omega), isLetter_digit (by omega),
      isLetter_pad⟩
  | case4 a b c octets ih =>
    have ha := a.toNat_lt
    have hb := b.toNat_lt
    have hc := c.toNat_lt
    simp only [encode, List.forall_mem_cons]
    exact ⟨isLetter_digit (by omega), isLetter_digit (by omega), isLetter_digit (by omega),
      isLetter_digit (by omega), ih⟩

theorem encode_ne_nil {octets : Octets} (h : octets ≠ []) : encode octets ≠ [] := by
  unfold encode
  split
  · contradiction
  · simp
  · simp
  · simp

variable {groups pads n : Nat} {held : List Nat} {text : Text}

theorem decodeFrom_digit (hn : n < 64) (hh : held.length < 3) :
    decodeFrom groups held pads (digit n :: text) = decodeFrom groups (held ++ [n]) 0 text := by
  rw [decodeFrom, if_neg (digit_ne_pad n hn), digit?_digit n hn]
  exact if_neg (by omega)

theorem decodeFrom_group (hn : n < 64) (hh : held.length = 3) :
    decodeFrom groups held pads (digit n :: text) =
      (octets (held ++ [n]) ++ ·) <$> decodeFrom (groups + 1) [] 0 text := by
  rw [decodeFrom, if_neg (digit_ne_pad n hn), digit?_digit n hn]
  exact if_pos hh

theorem ofNat_toNat_eq {a : UInt8} (h : n = a.toNat) : UInt8.ofNat n = a := by
  rw [h, UInt8.ofNat_toNat]

theorem octets_one (a : UInt8) : octets [a.toNat / 4, a.toNat % 4 * 16] = [a] := by
  have ha : UInt8.ofNat (a.toNat / 4 * 4 + a.toNat % 4 * 16 / 16) = a := ofNat_toNat_eq (by omega)
  rw [octets, ha]

theorem octets_two (a b : UInt8) :
    octets [a.toNat / 4, a.toNat % 4 * 16 + b.toNat / 16, b.toNat % 16 * 4] = [a, b] := by
  have hb := b.toNat_lt
  have hfirst : UInt8.ofNat (a.toNat / 4 * 4 + (a.toNat % 4 * 16 + b.toNat / 16) / 16) = a :=
    ofNat_toNat_eq (by omega)
  have hsecond :
      UInt8.ofNat ((a.toNat % 4 * 16 + b.toNat / 16) % 16 * 16 + b.toNat % 16 * 4 / 4) = b :=
    ofNat_toNat_eq (by omega)
  rw [octets, hfirst, hsecond]

theorem octets_three (a b c : UInt8) :
    octets [a.toNat / 4, a.toNat % 4 * 16 + b.toNat / 16, b.toNat % 16 * 4 + c.toNat / 64,
      c.toNat % 64] = [a, b, c] := by
  have hb := b.toNat_lt
  have hc := c.toNat_lt
  have hfirst : UInt8.ofNat (a.toNat / 4 * 4 + (a.toNat % 4 * 16 + b.toNat / 16) / 16) = a :=
    ofNat_toNat_eq (by omega)
  have hsecond : UInt8.ofNat ((a.toNat % 4 * 16 + b.toNat / 16) % 16 * 16 +
      (b.toNat % 16 * 4 + c.toNat / 64) / 4) = b := ofNat_toNat_eq (by omega)
  have hthird : UInt8.ofNat ((b.toNat % 16 * 4 + c.toNat / 64) % 4 * 64 + c.toNat % 64) = c :=
    ofNat_toNat_eq (by omega)
  rw [octets, hfirst, hsecond, hthird]

theorem decodeFrom_encode (groups : Nat) (octets : Octets) :
    decodeFrom groups [] 0 (encode octets) = .ok octets := by
  induction octets using encode.induct generalizing groups with
  | case1 => rfl
  | case2 a =>
    have ha := a.toNat_lt
    rw [encode, decodeFrom_digit (by omega) (by simp), decodeFrom_digit (by omega) (by simp)]
    exact congrArg Except.ok (octets_one a)
  | case3 a b =>
    have ha := a.toNat_lt
    have hb := b.toNat_lt
    rw [encode, decodeFrom_digit (by omega) (by simp), decodeFrom_digit (by omega) (by simp),
      decodeFrom_digit (by omega) (by simp)]
    exact congrArg Except.ok (octets_two a b)
  | case4 a b c octets ih =>
    have ha := a.toNat_lt
    have hb := b.toNat_lt
    have hc := c.toNat_lt
    rw [encode, decodeFrom_digit (by omega) (by simp), decodeFrom_digit (by omega) (by simp),
      decodeFrom_digit (by omega) (by simp), decodeFrom_group (by omega) rfl, ih]
    exact congrArg (fun group => Except.ok (group ++ octets)) (octets_three a b c)

@[simp] theorem decode_encode (octets : Octets) : decode (encode octets) = .ok octets := by
  have hascii : (encode octets).all (fun c => c.toNat < 128) = true := by
    have hletter (c : Char) (h : IsLetter c) : c.toNat < 128 :=
      h.elim (p := fun c => c.toNat < 128) (by decide) (by decide)
    exact List.all_eq_true.2 fun c hc => decide_eq_true (hletter c (forall_mem_encode octets c hc))
  rw [decode, if_pos hascii, decodeFrom_encode]

end ThemeMarkup.Base64
