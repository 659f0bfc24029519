import Mathlib
import ThemeMarkup.Label.Markup

namespace ThemeMarkup.Markup

variable {text body after : Text} {c : Char} {ts us : List Token}

def inTag (c : Char) : Bool :=
  c ≠ '[' && c ≠ ']'

def IsTag (body : Text) : Prop :=
  ∃ c rest, body = c :: rest ∧ isTagStart c = true ∧ ∀ e ∈ rest, inTag e = true

theorem inTag_iff : inTag c = true ↔ c ≠ '[' ∧ c ≠ ']' := by
  simp [inTag]

theorem inTag_of_isTagStart (h : isTagStart c = true) : inTag c = true := by
  rw [inTag_iff]
  constructor <;> rintro rfl <;> exact absurd h (by decide)

theorem IsTag.inTag (h : IsTag body) : ∀ c ∈ body, inTag c = true := by
  obtain ⟨c, rest, rfl, hc, hrest⟩ := h
  exact List.forall_mem_cons.2 ⟨inTag_of_isTagStart hc, hrest⟩

def Token.source : Token → Text
  | .char c => [c]
  | .tag slashes body => List.replicate slashes '\\' ++ bracketed body

def written (ts : List Token) : Text :=
  ts.flatMap Token.source

@[simp] theorem written_nil : written [] = [] :=
  rfl

@[simp] theorem written_char (c : Char) (ts : List Token) :
    written (.char c :: ts) = c :: written ts :=
  rfl

@[simp] theorem written_tag (slashes : Nat) (body : Text) (ts : List Token) :
    written (.tag slashes body :: ts) =
      List.replicate slashes '\\' ++ (bracketed body ++ written ts) := by
  simp [written, Token.source]

@[simp] theorem written_append (ts us : List Token) :
    written (ts ++ us) = written ts ++ written us :=
  List.flatMap_append

@[simp] theorem written_chars (text : Text) : written (text.map .char) = text := by
  induction text with
  | nil => rfl
  | cons c text ih => rw [List.map_cons, written_char, ih]

/-- Whether stretches come to a closing bracket before any opening one. -/
def closes : List Token → Bool
  | .char c :: ts => c = ']' || c ≠ '[' && closes ts
  | _ => false

def opensTag : List Token → Bool
  | .char c :: ts => isTagStart c && closes ts
  | _ => false

def beginsWithTag : List Token → Bool
  | .tag _ _ :: _ => true
  | _ => false

/-- Whether stretches are all that can be read in the text that they write: no opening bracket
begins a tag, and no backslash stands before one. -/
def IsRead : List Token → Prop
  | [] => True
  | .char c :: ts =>
    (c = '\\' → beginsWithTag ts = false) ∧ (c = '[' → opensTag ts = false) ∧ IsRead ts
  | .tag _ body :: ts => IsTag body ∧ IsRead ts

theorem readTag?_of_ne (hc : c ≠ '[') (text : Text) : readTag? (c :: text) = none := by
  rw [readTag?]
  rintro d rest ⟨⟩
  exact hc rfl

theorem readTag?_cons (c : Char) (text : Text) :
    readTag? ('[' :: c :: text) =
      match isTagStart c, text.dropWhile inTag with
      | true, ']' :: rest => some (c :: text.takeWhile inTag, rest)
      | _, _ => none :=
  rfl

theorem readTag?_append (h : IsTag body) (after : Text) :
    readTag? (bracketed body ++ after) = some (body, after) := by
  obtain ⟨c, rest, rfl, hc, hrest⟩ := h
  have htext : bracketed (c :: rest) ++ after = '[' :: c :: (rest ++ ']' :: after) := by
    simp [bracketed]
  have htake : (rest ++ ']' :: after).takeWhile inTag = rest := by
    rw [List.takeWhile_append_of_pos hrest]
    simp [inTag]
  have hdrop : (rest ++ ']' :: after).dropWhile inTag = ']' :: after := by
    rw [List.dropWhile_append_of_pos hrest]
    simp [inTag]
  rw [htext, readTag?_cons, hc, hdrop, htake]
  rfl

theorem eq_append_of_readTag? (h : readTag? text = some (body, after)) :
    IsTag body ∧ text = bracketed body ++ after := by
  rw [readTag?.eq_def] at h
  split at h
  · next c text =>
    dsimp only at h
    split at h
    · next rest hc hd =>
      cases h
      refine ⟨⟨c, _, rfl, hc, fun e he => List.all_eq_true.1 List.all_takeWhile e he⟩, ?_⟩
      have htext := List.takeWhile_append_dropWhile (p := inTag) (l := text)
      have hdrop : text.dropWhile inTag = ']' :: after := hd
      rw [hdrop] at htext
      have hwhole : bracketed (c :: text.takeWhile inTag) ++ after =
          '[' :: c :: (text.takeWhile inTag ++ ']' :: after) := by
        simp [bracketed]
      exact ((congrArg (fun text => '[' :: c :: text) htext).symm).trans hwhole.symm
    · contradiction
  · contradiction

theorem head?_dropWhile_written (ts : List Token) :
    ((written ts).dropWhile inTag).head? = some ']' ↔ closes ts = true := by
  induction ts with
  | nil => simp [closes]
  | cons token ts ih =>
    cases token with
    | char c =>
      rw [written_char, closes]
      by_cases hc : inTag c = true
      · rw [List.dropWhile_cons_of_pos hc, ih]
        simp [inTag_iff.1 hc]
      · rw [List.dropWhile_cons_of_neg hc]
        by_cases hclose : c = ']'
        · simp [hclose]
        · have hopen : c = '[' := by_contra fun hopen => hc (inTag_iff.2 ⟨hopen, hclose⟩)
          simp [hopen]
    | tag slashes body =>
      have hslash : ∀ c ∈ List.replicate slashes '\\', inTag c = true := by
        intro c hc
        rw [List.eq_of_mem_replicate hc]
        rfl
      rw [written_tag, List.dropWhile_append_of_pos hslash, bracketed]
      simp [closes, inTag]

/-- An opening bracket before stretches begins a tag just if they say so. -/
theorem isSome_readTag?_written (ts : List Token) :
    (readTag? ('[' :: written ts)).isSome = opensTag ts := by
  cases ts with
  | nil => rfl
  | cons token ts =>
    cases token with
    | char c =>
      rw [written_char, readTag?_cons, opensTag]
      cases hc : isTagStart c with
      | false => rfl
      | true =>
        have hclose := head?_dropWhile_written ts
        rw [Bool.true_and]
        cases hd : (written ts).dropWhile inTag with
        | nil => simpa [hd] using hclose
        | cons e rest =>
          rw [hd, List.head?_cons, Option.some.injEq] at hclose
          by_cases he : e = ']'
          · rw [he, hclose.1 he]
            rfl
          · rw [Bool.eq_false_iff.2 (mt hclose.2 he)]
            split
            · next h => exact absurd (List.cons.inj h).1 he
            · rfl
    | tag slashes body =>
      rw [written_tag, bracketed]
      cases slashes <;> rfl

theorem tokensAfter_nil (slashes : Nat) :
    tokensAfter slashes [] = List.replicate slashes (.char '\\') := by
  rw [tokensAfter]

theorem tokensAfter_slash (slashes : Nat) (text : Text) :
    tokensAfter slashes ('\\' :: text) = tokensAfter (slashes + 1) text := by
  rw [tokensAfter, if_pos rfl]

theorem tokensAfter_replicate (slashes more : Nat) (text : Text) :
    tokensAfter slashes (List.replicate more '\\' ++ text) = tokensAfter (slashes + more) text := by
  induction more generalizing slashes with
  | zero => rfl
  | succ more ih =>
    rw [List.replicate_succ, List.cons_append, tokensAfter_slash, ih]
    congr 1
    omega

theorem tokensAfter_char (hc : c ≠ '\\') (h : readTag? (c :: text) = none) (slashes : Nat) :
    tokensAfter slashes (c :: text) =
      List.replicate slashes (.char '\\') ++ .char c :: tokensAfter 0 text := by
  rw [tokensAfter, if_neg hc, h]

theorem tokensAfter_tag (h : IsTag body) (slashes : Nat) (after : Text) :
    tokensAfter slashes (bracketed body ++ after) = .tag slashes body :: tokensAfter 0 after := by
  have hread := readTag?_append h after
  have htext : bracketed body ++ after = '[' :: (body ++ ']' :: after) := by
    simp [bracketed]
  rw [htext] at hread ⊢
  rw [tokensAfter, if_neg (by decide), hread]
  have hle : after.length ≤ (body ++ ']' :: after).length := by
    simp only [List.length_append, List.length_cons]
    omega
  exact if_pos hle

/-- Stretches with some backslashes before them, which are those of a tag that comes first. -/
def addSlashes (slashes : Nat) : List Token → List Token
  | .tag more body :: ts => .tag (slashes + more) body :: ts
  | ts => List.replicate slashes (.char '\\') ++ ts

theorem addSlashes_zero (ts : List Token) : addSlashes 0 ts = ts := by
  rw [addSlashes.eq_def]
  split <;> simp

theorem addSlashes_of_not_tag (h : beginsWithTag ts = false) (slashes : Nat) :
    addSlashes slashes ts = List.replicate slashes (.char '\\') ++ ts := by
  rw [addSlashes.eq_def]
  split
  · contradiction
  · rfl

theorem tokensAfter_written (h : IsRead ts) (slashes : Nat) :
    tokensAfter slashes (written ts) = addSlashes slashes ts := by
  induction ts generalizing slashes with
  | nil => exact (tokensAfter_nil slashes).trans (List.append_nil _).symm
  | cons token ts ih =>
    cases token with
    | char c =>
      obtain ⟨hslash, hopen, hrest⟩ := h
      rw [written_char, addSlashes_of_not_tag rfl]
      by_cases hc : c = '\\'
      · rw [hc, tokensAfter_slash, ih hrest, addSlashes_of_not_tag (hslash hc),
          List.replicate_succ', List.append_assoc]
        rfl
      · have hnone : readTag? (c :: written ts) = none := by
          by_cases hbracket : c = '['
          · have hsome := isSome_readTag?_written ts
            rw [hopen hbracket] at hsome
            rw [hbracket]
            exact Option.isSome_eq_false_iff.1 hsome |> Option.isNone_iff_eq_none.1
          · exact readTag?_of_ne hbracket _
        rw [tokensAfter_char hc hnone, ih hrest, addSlashes_zero]
    | tag more body =>
      obtain ⟨htag, hrest⟩ := h
      rw [written_tag, tokensAfter_replicate, tokensAfter_tag htag, ih hrest, addSlashes_zero]
      rfl

theorem tokens_written (h : IsRead ts) : tokens (written ts) = ts :=
  (tokensAfter_written h 0).trans (addSlashes_zero ts)

theorem written_tokensAfter (slashes : Nat) (text : Text) :
    written (tokensAfter slashes text) = List.replicate slashes '\\' ++ text := by
  have hslashes (slashes : Nat) : written (List.replicate slashes (.char '\\')) =
      List.replicate slashes '\\' := by
    rw [← List.map_replicate, written_chars]
  fun_induction tokensAfter slashes text with
  | case1 slashes => rw [hslashes, List.append_nil]
  | case2 slashes rest ih => rw [ih, List.replicate_succ', List.append_assoc]; rfl
  | case3 slashes c rest hc hread ih => rw [written_append, hslashes, written_char, ih]; rfl
  | case4 slashes c rest hc body after hread hle ih =>
    rw [written_tag, ih, (eq_append_of_readTag? hread).2]
    rfl
  | case5 slashes c rest hc body after hread hle ih =>
    rw [written_append, hslashes, written_char, ih]; rfl

@[simp] theorem written_tokens (text : Text) : written (tokens text) = text :=
  written_tokensAfter 0 text

theorem IsRead.chars_append (h : IsRead ts) (hopen : '[' ∉ text)
    (hlast : text.getLast? = some '\\' → beginsWithTag ts = false) :
    IsRead (text.map .char ++ ts) := by
  induction text with
  | nil => exact h
  | cons c text ih =>
    rw [List.mem_cons, not_or] at hopen
    refine ⟨fun hc => ?_, fun hc => absurd hc.symm hopen.1, ih hopen.2 fun hl => hlast ?_⟩
    · cases text with
      | nil => exact hlast (congrArg some hc)
      | cons d text => rfl
    · cases text with
      | nil => contradiction
      | cons d text => exact hl

theorem beginsWithTag_append (hu : beginsWithTag us = false) (ts : List Token) :
    beginsWithTag (ts ++ us) = beginsWithTag ts := by
  match ts with
  | [] => exact hu
  | .char c :: ts => rfl
  | .tag slashes body :: ts => rfl

theorem closes_append (hu : closes us = false) (ts : List Token) :
    closes (ts ++ us) = closes ts := by
  induction ts with
  | nil => exact hu
  | cons token ts ih =>
    cases token with
    | char c => rw [List.cons_append, closes, closes, ih]
    | tag slashes body => rfl

theorem opensTag_append (hu : closes us = false) (ts : List Token) :
    opensTag (ts ++ us) = opensTag ts := by
  match ts, us with
  | .char c :: ts, us => rw [List.cons_append, opensTag, opensTag, closes_append hu]
  | .tag slashes body :: ts, us => rfl
  | [], .tag slashes body :: us => rfl
  | [], [] => rfl
  | [], .char c :: us =>
    change (isTagStart c && closes us) = false
    by_cases hc : isTagStart c = true
    · have hne := inTag_iff.1 (inTag_of_isTagStart hc)
      rw [closes, decide_eq_false hne.2, decide_eq_true hne.1, Bool.false_or, Bool.true_and] at hu
      rw [hu, Bool.and_false]
    · rw [Bool.eq_false_iff.2 hc, Bool.false_and]

theorem IsRead.append (ht : IsRead ts) (hu : IsRead us) (hbegins : beginsWithTag us = false)
    (hcloses : closes us = false) : IsRead (ts ++ us) := by
  induction ts with
  | nil => exact hu
  | cons token ts ih =>
    cases token with
    | char c =>
      obtain ⟨hslash, hopen, hrest⟩ := ht
      rw [List.cons_append]
      refine ⟨fun hc => ?_, fun hc => ?_, ih hrest⟩
      · rw [beginsWithTag_append hbegins]
        exact hslash hc
      · rw [opensTag_append hcloses]
        exact hopen hc
    | tag slashes body => exact ⟨ht.1, ih ht.2⟩

theorem isRead_tokensAfter (slashes : Nat) (text : Text) : IsRead (tokensAfter slashes text) := by
  have hslashes (ts : List Token) (h : IsRead ts) (hb : beginsWithTag ts = false) (slashes : Nat) :
      IsRead (List.replicate slashes (.char '\\') ++ ts) := by
    rw [← List.map_replicate]
    exact h.chars_append (by simp [List.mem_replicate]) fun _ => hb
  fun_induction tokensAfter slashes text with
  | case1 slashes =>
    exact List.append_nil (List.replicate slashes _) ▸ hslashes [] trivial rfl slashes
  | case2 slashes rest ih => exact ih
  | case3 slashes c rest hc hread ih =>
    refine hslashes (.char c :: _) ⟨fun h => absurd h hc, fun hopen => ?_, ih⟩ rfl slashes
    rw [← isSome_readTag?_written, written_tokensAfter, ← hopen, List.replicate_zero,
      List.nil_append, hread]
    rfl
  | case4 slashes c rest hc body after hread hle ih =>
    exact ⟨(eq_append_of_readTag? hread).1, ih⟩
  | case5 slashes c rest hc body after hread hle ih =>
    have hlength := congrArg List.length (eq_append_of_readTag? hread).2
    simp [bracketed] at hlength
    omega

theorem isRead_tokens (text : Text) : IsRead (tokens text) :=
  isRead_tokensAfter 0 text

theorem count_chars (text : Text) : (text.map Token.char).count (.char '[') = text.count '[' :=
  List.count_map_of_injective text Token.char (fun _ _ => Token.char.inj) '['

theorem closes_chars_append (h : ∀ c ∈ text, inTag c = true) (us : List Token) :
    closes (text.map .char ++ us) = closes us := by
  induction text with
  | nil => rfl
  | cons c text ih =>
    obtain ⟨hc, hrest⟩ := List.forall_mem_cons.1 h
    rw [List.map_cons, List.cons_append, closes, ih hrest]
    simp [inTag_iff.1 hc]

/-- Whether rewriting stretches keeps what can be read in them: a tag stays one tag, and a character
that does not stay as it is becomes a backslash and characters that are no brackets, the last of
which is a backslash only for a backslash. -/
structure KeepsReading (f : Token → List Token) : Prop where
  char (c : Char) : f (.char c) = [.char c] ∨
    ∃ text : Text, f (.char c) = ('\\' :: text).map .char ∧ isTagStart c = false ∧ inTag c = true ∧
      (∀ e ∈ '\\' :: text, inTag e = true) ∧ (('\\' :: text).getLast? = some '\\' → c = '\\')
  tag (slashes : Nat) (body : Text) :
    ∃ more other, f (.tag slashes body) = [.tag more other] ∧ (IsTag body → IsTag other)

namespace KeepsReading

variable {f : Token → List Token}

theorem closes_flatMap (hf : KeepsReading f) (ts : List Token) :
    closes (ts.flatMap f) = closes ts := by
  induction ts with
  | nil => rfl
  | cons token ts ih =>
    rw [List.flatMap_cons]
    cases token with
    | char c =>
      rcases hf.char c with h | ⟨text, h, -, hc, hin, -⟩
      · rw [h, closes, ← ih]
        rfl
      · rw [h, closes_chars_append hin, ih, closes]
        simp [inTag_iff.1 hc]
    | tag slashes body =>
      obtain ⟨more, other, h, -⟩ := hf.tag slashes body
      rw [h]
      rfl

theorem opensTag_flatMap (hf : KeepsReading f) (ts : List Token) :
    opensTag (ts.flatMap f) = opensTag ts := by
  match ts with
  | [] => rfl
  | .char c :: ts =>
    rw [List.flatMap_cons]
    rcases hf.char c with h | ⟨text, h, hc, -⟩
    · rw [h, opensTag, ← hf.closes_flatMap ts]
      rfl
    · rw [h, opensTag, hc]
      rfl
  | .tag slashes body :: ts =>
    obtain ⟨more, other, h, -⟩ := hf.tag slashes body
    rw [List.flatMap_cons, h]
    rfl

theorem beginsWithTag_flatMap (hf : KeepsReading f) (ts : List Token) :
    beginsWithTag (ts.flatMap f) = beginsWithTag ts := by
  match ts with
  | [] => rfl
  | .char c :: ts =>
    rw [List.flatMap_cons]
    rcases hf.char c with h | ⟨text, h, -⟩ <;> rw [h] <;> rfl
  | .tag slashes body :: ts =>
    obtain ⟨more, other, h, -⟩ := hf.tag slashes body
    rw [List.flatMap_cons, h]
    rfl

/-- Such rewriting brings no tag and hides none. -/
theorem isRead_flatMap (hf : KeepsReading f) (h : IsRead ts) : IsRead (ts.flatMap f) := by
  induction ts with
  | nil => exact h
  | cons token ts ih =>
    rw [List.flatMap_cons]
    cases token with
    | char c =>
      obtain ⟨hslash, hopen, hrest⟩ := h
      rcases hf.char c with hc | ⟨text, hc, -, -, hin, hlast⟩
      · rw [hc, List.singleton_append]
        refine ⟨fun he => ?_, fun he => ?_, ih hrest⟩
        · rw [hf.beginsWithTag_flatMap]
          exact hslash he
        · rw [hf.opensTag_flatMap]
          exact hopen he
      · rw [hc]
        refine (ih hrest).chars_append (fun hm => absurd (hin '[' hm) (by decide)) fun he => ?_
        rw [hf.beginsWithTag_flatMap]
        exact hslash (hlast he)
    | tag slashes body =>
      obtain ⟨more, other, htag, hother⟩ := hf.tag slashes body
      rw [htag]
      exact ⟨hother h.1, ih h.2⟩

theorem count_flatMap (hf : KeepsReading f) (ts : List Token) :
    (ts.flatMap f).count (.char '[') = ts.count (.char '[') := by
  induction ts with
  | nil => rfl
  | cons token ts ih =>
    rw [List.flatMap_cons, List.count_append, ih]
    cases token with
    | char c =>
      rcases hf.char c with h | ⟨text, h, -, hc, hin, -⟩
      · rw [h, ← List.count_append]
        rfl
      · have hnone : '[' ∉ '\\' :: text := fun hm => absurd (hin '[' hm) (by decide)
        have hne : Token.char c ≠ .char '[' := fun he => (inTag_iff.1 hc).1 (Token.char.inj he)
        rw [h, count_chars, List.count_eq_zero.2 hnone, List.count_cons_of_ne hne, Nat.zero_add]
    | tag slashes body =>
      obtain ⟨more, other, h, -⟩ := hf.tag slashes body
      simp [h]

end KeepsReading

end ThemeMarkup.Markup
