import Mathlib.Data.List.TakeWhile
import SettingsScan.Proofs.Except
import SettingsScan.Proofs.Json.Grammar

/-! # Numerals are read to their end

A number that has been read stays the same when more follows that is no part of it, and every
written numeral is read as the number that it writes.
-/

namespace SettingsScan.Json

def continuesNumeral (b : UInt8) : Bool :=
  isDigitByte b || b = 0x2E || b = 0x65 || b = 0x45

def EndsNumeral (bytes : Bytes) : Prop := bytes.head?.any continuesNumeral = false

variable {limit value count significand n taken shift : Nat} {positive raises : Bool}
  {scale : Int} {number : Number} {bytes rest more ds extra : Bytes} {b : UInt8}

theorem EndsNumeral.cons (h : EndsNumeral (b :: more)) :
    isDigitByte b = false ∧ b ≠ 0x2E ∧ b ≠ 0x65 ∧ b ≠ 0x45 := by
  simpa [EndsNumeral, continuesNumeral, and_assoc] using h

theorem EndsNumeral.digit (h : EndsNumeral more) : more.head?.any isDigitByte = false := by
  cases more with
  | nil => rfl
  | cons b more => exact h.cons.1

theorem head?_append_any {q : UInt8 → Bool} (h : rest = [] → more.head?.any q = false) :
    (rest ++ more).head?.any q = rest.head?.any q := by
  cases rest with
  | nil => exact h rfl
  | cons b rest => rfl

/-! ### Digits -/

theorem takeDigits_append (ht : takeDigits limit value count bytes = (n, taken, extra))
    (h : extra = [] → more.head?.any isDigitByte = false) :
    takeDigits limit value count (bytes ++ more) = (n, taken, extra ++ more) := by
  induction bytes generalizing value count with
  | nil =>
    cases ht
    have h := h rfl
    cases more with
    | nil => rfl
    | cons b more =>
      have hb : isDigitByte b = false := h
      simp [takeDigits, hb]
  | cons b bytes ih =>
    rw [List.cons_append]
    simp only [takeDigits] at ht ⊢
    split
    · rename_i hb
      rw [if_pos hb] at ht
      exact ih ht
    · rename_i hb
      rw [if_neg hb] at ht
      cases ht
      rfl

theorem takeDigits_over (ht : takeDigits limit value count ds = (n, taken, extra))
    (hd : ∀ b ∈ ds, isDigitByte b) : ∀ b ∈ extra, isDigitByte b := by
  induction ds generalizing value count with
  | nil =>
    cases ht
    exact hd
  | cons b ds ih =>
    rw [takeDigits] at ht
    split at ht
    · exact ih ht fun c hc => hd c (List.mem_cons_of_mem b hc)
    · cases ht
      exact hd

theorem le_takeDigits_count (ht : takeDigits limit value count bytes = (n, taken, extra)) :
    count ≤ taken := by
  induction bytes generalizing value count with
  | nil =>
    cases ht
    exact Nat.le_refl _
  | cons b bytes ih =>
    rw [takeDigits] at ht
    split at ht
    · exact Nat.le_trans (Nat.le_succ _) (ih ht)
    · cases ht
      exact Nat.le_refl _

/-- Of some digits one is taken, or one is left over. -/
theorem takeDigits_progress (ht : takeDigits limit value 0 ds = (n, taken, extra))
    (hd : Digits ds) : extra = [] → taken ≠ 0 := by
  obtain ⟨b, ds, rfl⟩ := List.exists_cons_of_ne_nil hd.1
  rw [takeDigits] at ht
  split at ht
  · have := le_takeDigits_count ht
    intro _
    omega
  · cases ht
    intro h
    cases h

theorem skipDigits_append (h : (skipDigits bytes).2 = [] → more.head?.any isDigitByte = false) :
    skipDigits (bytes ++ more) = ((skipDigits bytes).1, (skipDigits bytes).2 ++ more) := by
  induction bytes with
  | nil =>
    have h := h rfl
    cases more with
    | nil => rfl
    | cons b more => simp [skipDigits, show isDigitByte b = false by simpa using h]
  | cons b bytes ih =>
    by_cases hb : isDigitByte b
    · have ih := ih (by simpa [skipDigits, hb] using h)
      simp only [skipDigits, Prod.mk.injEq] at ih ⊢
      simp [hb, ih.1, ih.2]
    · simp [skipDigits, hb]

theorem skipDigits_digits (hd : ∀ b ∈ ds, isDigitByte b) : skipDigits ds = (ds.length, []) := by
  rw [skipDigits, List.takeWhile_eq_self_iff.mpr hd, List.dropWhile_eq_nil_iff.mpr hd]

/-! ### What has been read stays -/

def readShift (positive : Bool) (significand : Nat) (scale : Int) (raises : Bool)
    (bytes : Bytes) : Reading (Number × Bytes) :=
  match bytes with
  | [] => .error .ended
  | b :: _ =>
    if !isDigitByte b then .error .invalidNumber
    else
      let (shift, _, rest) := takeDigits exponentLimit 0 0 bytes
      if rest.head?.any isDigitByte then
        if significand ≠ 0 ∧ raises then .error .numberOutOfRange
        else .ok (.float (if positive then 0.0 else -0.0 : Float).toBits, (skipDigits rest).2)
      else
        let scale := if raises then scale + shift else scale - shift
        (floatOfParts positive significand scale).map (·, rest)

theorem readExponent_cons (hp : b ≠ 0x2B) (hm : b ≠ 0x2D) :
    readExponent positive significand scale (b :: bytes) =
      readShift positive significand scale true (b :: bytes) := by
  unfold readExponent readShift
  split
  rename_i raises bytes' h
  split at h
  · rename_i h'
    cases h'
    exact absurd rfl hp
  · rename_i h'
    cases h'
    exact absurd rfl hm
  · cases h
    rfl

theorem readShift_append
    (h : readShift positive significand scale raises bytes = .ok (number, rest))
    (hm : rest = [] → EndsNumeral more) :
    readShift positive significand scale raises (bytes ++ more) = .ok (number, rest ++ more) := by
  cases bytes with
  | nil => cases h
  | cons b bytes =>
    obtain ⟨shift, count, extra, ht⟩ :
      ∃ shift count extra, takeDigits exponentLimit 0 0 (b :: bytes) = (shift, count, extra) :=
      ⟨_, _, _, rfl⟩
    have hta (hextra : extra = [] → more.head?.any isDigitByte = false) :
        takeDigits exponentLimit 0 0 (b :: bytes ++ more) = (shift, count, extra ++ more) :=
      takeDigits_append ht hextra
    simp only [readShift, List.cons_append, ht] at h hta ⊢
    split at h
    · cases h
    · rename_i hb
      rw [if_neg hb]
      split at h
      · rename_i ho
        have hne : extra ≠ [] := by rintro rfl; cases ho
        rw [hta (absurd · hne), head?_append_any (absurd · hne), if_pos ho]
        split at h
        · cases h
        · rename_i hs
          obtain ⟨rfl, rfl⟩ := Prod.mk.inj (Except.ok.inj h)
          rw [if_neg hs, skipDigits_append fun he => (hm he).digit]
      · rename_i ho
        obtain ⟨f, hf, hr⟩ := Except.exists_of_map_eq_ok h
        obtain ⟨rfl, rfl⟩ := Prod.mk.inj hr
        rw [hta fun he => (hm he).digit, head?_append_any fun he => (hm he).digit, if_neg ho]
        simp only [hf, Except.map]

theorem readExponent_append (h : readExponent positive significand scale bytes = .ok (number, rest))
    (hm : rest = [] → EndsNumeral more) :
    readExponent positive significand scale (bytes ++ more) = .ok (number, rest ++ more) := by
  cases bytes with
  | nil => cases h
  | cons b bytes =>
    by_cases hp : b = 0x2B
    · subst hp
      exact readShift_append h hm
    · by_cases hn : b = 0x2D
      · subst hn
        exact readShift_append h hm
      · rw [readExponent_cons hp hn] at h
        rw [List.cons_append, readExponent_cons hp hn]
        exact readShift_append h hm

theorem readFloatEnd_letter (hb : b = 0x65 ∨ b = 0x45) :
    readFloatEnd positive significand scale (b :: bytes) =
      readExponent positive significand scale bytes := by
  rcases hb with rfl | rfl <;> rfl

theorem readFloatEnd_other (h : ∀ c ∈ bytes.head?, c ≠ 0x65 ∧ c ≠ 0x45) :
    readFloatEnd positive significand scale bytes =
      (floatOfParts positive significand scale).map (·, bytes) := by
  unfold readFloatEnd
  split
  · exact absurd rfl (h _ rfl).1
  · exact absurd rfl (h _ rfl).2
  · rfl

theorem readFloatEnd_append (h : readFloatEnd positive significand scale bytes = .ok (number, rest))
    (hm : rest = [] → EndsNumeral more) :
    readFloatEnd positive significand scale (bytes ++ more) = .ok (number, rest ++ more) := by
  by_cases hb : ∀ c ∈ bytes.head?, c ≠ 0x65 ∧ c ≠ 0x45
  · rw [readFloatEnd_other hb] at h
    obtain ⟨f, hf, hr⟩ := Except.exists_of_map_eq_ok h
    obtain ⟨rfl, rfl⟩ := Prod.mk.inj hr
    rw [readFloatEnd_other, hf]
    · rfl
    · cases bytes with
      | nil =>
        intro c hc
        obtain ⟨more, rfl⟩ := List.head?_eq_some_iff.mp hc
        exact (hm rfl).cons.2.2
      | cons b bytes => exact hb
  · cases bytes with
    | nil => simp at hb
    | cons b bytes =>
      have hl : b = 0x65 ∨ b = 0x45 := by
        simpa [not_and_or, Classical.or_iff_not_imp_left] using hb
      rw [readFloatEnd_letter hl] at h
      rw [List.cons_append, readFloatEnd_letter hl]
      exact readExponent_append h hm

theorem readFraction_append (h : readFraction positive significand scale bytes = .ok (number, rest))
    (hm : rest = [] → EndsNumeral more) :
    readFraction positive significand scale (bytes ++ more) = .ok (number, rest ++ more) := by
  obtain ⟨value, count, extra, ht⟩ :
    ∃ value count extra, takeDigits naturalLimit significand 0 bytes = (value, count, extra) :=
    ⟨_, _, _, rfl⟩
  simp only [readFraction, ht] at h ⊢
  split at h
  · rename_i ho
    have hne : extra ≠ [] := by rintro rfl; cases ho
    rw [takeDigits_append ht (absurd · hne)]
    dsimp only
    rw [head?_append_any (absurd · hne), if_pos ho, skipDigits_append]
    · exact readFloatEnd_append h hm
    · intro hs
      rw [hs, readFloatEnd_other (by simp)] at h
      obtain ⟨f, -, hr⟩ := Except.exists_of_map_eq_ok h
      exact (hm (Prod.mk.inj hr).2.symm).digit
  · rename_i ho
    split at h
    · split at h <;> cases h
    · rename_i hc
      have hextra : extra = [] → more.head?.any isDigitByte = false := by
        rintro rfl
        rw [readFloatEnd_other (by simp)] at h
        obtain ⟨f, -, hr⟩ := Except.exists_of_map_eq_ok h
        exact (hm (Prod.mk.inj hr).2.symm).digit
      rw [takeDigits_append ht hextra]
      dsimp only
      rw [head?_append_any hextra, if_neg ho, if_neg hc]
      exact readFloatEnd_append h hm

theorem readNumberEnd_letter (hb : b = 0x65 ∨ b = 0x45) :
    readNumberEnd positive n (b :: bytes) = readExponent positive n 0 bytes := by
  rcases hb with rfl | rfl <;> rfl

theorem readNumberEnd_other (h : ∀ c ∈ bytes.head?, c ≠ 0x2E ∧ c ≠ 0x65 ∧ c ≠ 0x45) :
    readNumberEnd positive n bytes = .ok (wholeNumber positive n, bytes) := by
  unfold readNumberEnd
  split
  · exact absurd rfl (h _ rfl).1
  · exact absurd rfl (h _ rfl).2.1
  · exact absurd rfl (h _ rfl).2.2
  · rfl

theorem readNumberEnd_append (h : readNumberEnd positive n bytes = .ok (number, rest))
    (hm : rest = [] → EndsNumeral more) :
    readNumberEnd positive n (bytes ++ more) = .ok (number, rest ++ more) := by
  cases bytes with
  | nil =>
    obtain ⟨rfl, rfl⟩ := Prod.mk.inj (Except.ok.inj h)
    refine readNumberEnd_other fun c hc => ?_
    obtain ⟨more, rfl⟩ := List.head?_eq_some_iff.mp hc
    exact (hm rfl).cons.2
  | cons b bytes =>
    by_cases hp : b = 0x2E
    · subst hp
      exact readFraction_append h hm
    · by_cases hl : b = 0x65 ∨ b = 0x45
      · rw [readNumberEnd_letter hl] at h
        rw [List.cons_append, readNumberEnd_letter hl]
        exact readExponent_append h hm
      · have hb : ∀ c ∈ (b :: bytes).head?, c ≠ 0x2E ∧ c ≠ 0x65 ∧ c ≠ 0x45 := by
          simpa [not_or] using And.intro hp (not_or.mp hl)
        rw [readNumberEnd_other hb] at h
        obtain ⟨rfl, rfl⟩ := Prod.mk.inj (Except.ok.inj h)
        exact readNumberEnd_other hb

def readLongEnd (positive : Bool) (n : Nat) (scale : Int) (bytes : Bytes) :
    Reading (Number × Bytes) :=
  match bytes with
  | 0x2E :: rest => readFraction positive n scale rest
  | rest => readFloatEnd positive n scale rest

theorem readLongEnd_other (h : bytes.head? ≠ some 0x2E) :
    readLongEnd positive n scale bytes = readFloatEnd positive n scale bytes := by
  unfold readLongEnd
  split
  · exact absurd rfl h
  · rfl

theorem readLongEnd_append (h : readLongEnd positive n scale bytes = .ok (number, rest))
    (hm : rest = [] → EndsNumeral more) :
    readLongEnd positive n scale (bytes ++ more) = .ok (number, rest ++ more) := by
  by_cases hp : bytes.head? = some 0x2E
  · obtain ⟨bytes, rfl⟩ := List.head?_eq_some_iff.mp hp
    exact readFraction_append h hm
  · rw [readLongEnd_other hp] at h
    rw [readLongEnd_other]
    · exact readFloatEnd_append h hm
    · cases bytes with
      | nil =>
        rw [readFloatEnd_other (by simp)] at h
        obtain ⟨f, -, hr⟩ := Except.exists_of_map_eq_ok h
        intro hc
        obtain ⟨more, rfl⟩ := List.head?_eq_some_iff.mp hc
        exact absurd rfl (hm (Prod.mk.inj hr).2.symm).cons.2.1
      | cons b bytes => exact hp

theorem readNumber_zero :
    readNumber positive (0x30 :: bytes) =
      if bytes.head?.any isDigitByte then .error .invalidNumber
      else readNumberEnd positive 0 bytes := rfl

theorem readNumber_cons (hb : b ≠ 0x30) (hd : isDigitByte b)
    (ht : takeDigits naturalLimit 0 0 (b :: bytes) = (n, count, extra)) :
    readNumber positive (b :: bytes) =
      if extra.head?.any isDigitByte then
        readLongEnd positive n (skipDigits extra).1 (skipDigits extra).2
      else readNumberEnd positive n extra := by
  unfold readNumber
  split
  · rename_i h
    cases h
  · rename_i h
    cases h
    exact absurd rfl hb
  · rename_i h
    cases h
    rw [if_neg (by simp [hd]), ht]
    rfl

/-- A number stays as it has been read, if what follows does not go on with it. -/
theorem readNumber_append (h : readNumber positive bytes = .ok (number, rest))
    (hm : rest = [] → EndsNumeral more) :
    readNumber positive (bytes ++ more) = .ok (number, rest ++ more) := by
  cases bytes with
  | nil => cases h
  | cons b bytes =>
    by_cases hb : b = 0x30
    · subst hb
      rw [readNumber_zero] at h
      split at h
      · cases h
      · rename_i hd
        have hdm : bytes = [] → more.head?.any isDigitByte = false := by
          rintro rfl
          obtain ⟨-, rfl⟩ := Prod.mk.inj (Except.ok.inj h)
          exact (hm rfl).digit
        rw [List.cons_append, readNumber_zero, head?_append_any hdm, if_neg hd]
        exact readNumberEnd_append h hm
    · by_cases hd : isDigitByte b
      · obtain ⟨n, count, extra, ht⟩ :
          ∃ n count extra, takeDigits naturalLimit 0 0 (b :: bytes) = (n, count, extra) :=
          ⟨_, _, _, rfl⟩
        have hta (hextra : extra = [] → more.head?.any isDigitByte = false) :
            takeDigits naturalLimit 0 0 (b :: (bytes ++ more)) = (n, count, extra ++ more) :=
          takeDigits_append ht hextra
        rw [readNumber_cons hb hd ht] at h
        rw [List.cons_append]
        split at h
        · rename_i ho
          have hne : extra ≠ [] := by rintro rfl; cases ho
          rw [readNumber_cons hb hd (hta (absurd · hne)), head?_append_any (absurd · hne),
            if_pos ho, skipDigits_append]
          · exact readLongEnd_append h hm
          · intro hs
            rw [hs, readLongEnd_other (by simp), readFloatEnd_other (by simp)] at h
            obtain ⟨f, -, hr⟩ := Except.exists_of_map_eq_ok h
            exact (hm (Prod.mk.inj hr).2.symm).digit
        · rename_i ho
          have hextra : extra = [] → more.head?.any isDigitByte = false := by
            rintro rfl
            rw [readNumberEnd_other (by simp)] at h
            obtain ⟨-, rfl⟩ := Prod.mk.inj (Except.ok.inj h)
            exact (hm rfl).digit
          rw [readNumber_cons hb hd (hta hextra), head?_append_any hextra, if_neg ho]
          exact readNumberEnd_append h hm
      · exfalso
        unfold readNumber at h
        split at h
        · cases h
        · rename_i h'
          cases h'
          exact hb rfl
        · rename_i h'
          cases h'
          rw [if_pos (by simpa using hd)] at h
          cases h

/-! ### Numerals -/

theorem readShift_digits (hd : Digits ds)
    (ht : takeDigits exponentLimit 0 0 ds = (shift, count, extra)) :
    readShift positive significand scale raises ds =
      (if extra ≠ [] then
        if significand ≠ 0 ∧ raises then .error .numberOutOfRange
        else .ok (.float (if positive then 0.0 else -0.0 : Float).toBits)
      else floatOfParts positive significand (if raises then scale + shift else scale - shift)).map
        (·, []) := by
  have ho := takeDigits_over ht hd.2
  obtain ⟨b, ds, rfl⟩ := List.exists_cons_of_ne_nil hd.1
  simp only [readShift, ht]
  rw [if_neg (by simp [hd.2 b List.mem_cons_self]), skipDigits_digits ho]
  cases extra with
  | nil => rfl
  | cons c extra =>
    rw [if_pos (show (c :: extra).head?.any isDigitByte from ho c List.mem_cons_self),
      if_pos (List.cons_ne_nil c extra)]
    split <;> rfl

theorem readExponent_bytes {e : Exponent} (he : e.WellFormed) :
    readExponent positive significand scale (e.sign ++ e.digits) =
      (e.number positive significand scale).map (·, []) := by
  obtain ⟨shift, count, extra, ht⟩ :
    ∃ shift count extra, takeDigits exponentLimit 0 0 e.digits = (shift, count, extra) :=
    ⟨_, _, _, rfl⟩
  have hs {raises : Bool} (h : e.raises = raises) :
      readShift positive significand scale raises e.digits =
        (e.number positive significand scale).map (·, []) := by
    rw [readShift_digits he.digits ht, ← h]
    simp only [Exponent.number, ht]
  unfold Exponent.sign
  cases hl : e.lowers? with
  | none =>
    obtain ⟨b, ds, hb⟩ := List.exists_cons_of_ne_nil he.digits.1
    have hd : isDigitByte b := he.digits.2 b (by simp [hb])
    have hp : b ≠ 0x2B := by rintro rfl; revert hd; decide
    have hn : b ≠ 0x2D := by rintro rfl; revert hd; decide
    rw [List.nil_append, hb, readExponent_cons hp hn, ← hb]
    exact hs (by simp [Exponent.raises, hl])
  | some lowers =>
    cases lowers with
    | false => exact hs (by simp [Exponent.raises, hl])
    | true => exact hs (by simp [Exponent.raises, hl])

namespace Numeral

variable {x : Numeral}

def floatNumber (x : Numeral) (significand : Nat) (scale : Int) : Reading Number :=
  match x.exponent with
  | some e => e.number (!x.negative) significand scale
  | none => floatOfParts (!x.negative) significand scale

theorem readFloatEnd_exponentBytes (hx : x.WellFormed) (significand : Nat) (scale : Int) :
    readFloatEnd (!x.negative) significand scale x.exponentBytes =
      (x.floatNumber significand scale).map (·, []) := by
  unfold exponentBytes floatNumber
  cases he : x.exponent with
  | none => rfl
  | some e =>
    have hw := hx.exponent e he
    exact (readFloatEnd_letter hw.letter).trans (readExponent_bytes hw)

theorem head?_exponentBytes (hx : x.WellFormed) :
    x.exponentBytes = [] ∧ x.exponent = none ∨
      ∃ b bytes, x.exponentBytes = b :: bytes ∧ (b = 0x65 ∨ b = 0x45) := by
  unfold exponentBytes
  cases he : x.exponent with
  | none => exact .inl ⟨rfl, rfl⟩
  | some e => exact .inr ⟨e.letter, _, rfl, (hx.exponent e he).letter⟩

theorem exponentBytes_digit (hx : x.WellFormed) :
    x.exponentBytes.head?.any isDigitByte = false := by
  rcases head?_exponentBytes hx with ⟨h, -⟩ | ⟨b, bytes, h, rfl | rfl⟩ <;> rw [h] <;> rfl

theorem readFraction_bytes (hx : x.WellFormed) (hd : Digits ds)
    (ht : takeDigits naturalLimit significand 0 ds = (value, count, extra)) :
    readFraction (!x.negative) significand scale (ds ++ x.exponentBytes) =
      (x.floatNumber value (scale - count)).map (·, []) := by
  have he := exponentBytes_digit hx
  have hp := takeDigits_progress ht hd
  have ho := takeDigits_over ht hd.2
  rw [readFraction, takeDigits_append ht fun _ => he]
  dsimp only
  cases extra with
  | nil =>
    rw [List.nil_append, he, if_neg (by simp), if_neg (hp rfl), readFloatEnd_exponentBytes hx]
  | cons b extra =>
    rw [if_pos (show (b :: extra ++ x.exponentBytes).head?.any isDigitByte from
      ho b List.mem_cons_self), skipDigits_append fun _ => he, skipDigits_digits ho,
      List.nil_append, readFloatEnd_exponentBytes hx]

theorem number_eq {left : Bytes}
    (hw : takeDigits naturalLimit 0 0 x.whole = (n, taken, extra))
    (hf : takeDigits naturalLimit n 0 (x.fraction.getD []) = (value, count, left)) :
    x.number = if x.exponent = none ∧ x.fraction = none ∧ extra = [] then
        .ok (wholeNumber (!x.negative) n)
      else x.floatNumber value ((extra.length : Int) - count) := by
  simp only [number, hw, hf, floatNumber]
  cases x.exponent with
  | none => simp
  | some e => simp

theorem readNumberEnd_bytes (hx : x.WellFormed)
    (hw : takeDigits naturalLimit 0 0 x.whole = (n, taken, [])) :
    readNumberEnd (!x.negative) n (x.fractionBytes ++ x.exponentBytes) =
      x.number.map (·, []) := by
  obtain ⟨value, count, left, hf⟩ :
    ∃ value count left, takeDigits naturalLimit n 0 (x.fraction.getD []) = (value, count, left) :=
    ⟨_, _, _, rfl⟩
  rw [number_eq hw hf]
  unfold fractionBytes
  cases hfr : x.fraction with
  | some ds =>
    rw [hfr] at hf
    rw [if_neg (by simp)]
    exact readFraction_bytes hx (hx.fraction ds hfr) hf
  | none =>
    rw [hfr] at hf
    cases hf
    rcases head?_exponentBytes hx with ⟨h, hn⟩ | ⟨b, bytes, h, hb⟩
    · rw [h, hn, if_pos ⟨rfl, rfl, rfl⟩]
      rfl
    · have hn : x.exponent ≠ none := by
        intro hn
        simp [exponentBytes, hn] at h
      have := readFloatEnd_exponentBytes hx n 0
      rw [if_neg (by simp [hn])]
      rw [h, readFloatEnd_letter hb] at this
      rw [h, List.nil_append, readNumberEnd_letter hb]
      exact this

theorem readLongEnd_bytes (hx : x.WellFormed) (ho : extra ≠ [])
    (hw : takeDigits naturalLimit 0 0 x.whole = (n, taken, extra)) :
    readLongEnd (!x.negative) n extra.length (x.fractionBytes ++ x.exponentBytes) =
      x.number.map (·, []) := by
  obtain ⟨value, count, left, hf⟩ :
    ∃ value count left, takeDigits naturalLimit n 0 (x.fraction.getD []) = (value, count, left) :=
    ⟨_, _, _, rfl⟩
  rw [number_eq hw hf, if_neg (by simp [ho])]
  unfold fractionBytes
  cases hfr : x.fraction with
  | some ds =>
    rw [hfr] at hf
    exact readFraction_bytes hx (hx.fraction ds hfr) hf
  | none =>
    rw [hfr] at hf
    cases hf
    rw [List.nil_append, readLongEnd_other, readFloatEnd_exponentBytes hx]
    · simp
    · rcases head?_exponentBytes hx with ⟨h, -⟩ | ⟨b, bytes, h, rfl | rfl⟩ <;> rw [h] <;> simp

/-- A numeral is read as the number that it writes. -/
theorem readNumber_magnitude (hx : x.WellFormed) :
    readNumber (!x.negative) x.magnitude = x.number.map (·, []) := by
  have hend : (x.fractionBytes ++ x.exponentBytes).head?.any isDigitByte = false := by
    unfold fractionBytes
    cases x.fraction with
    | some ds => rfl
    | none => exact exponentBytes_digit hx
  obtain ⟨b, ds, hb⟩ := List.exists_cons_of_ne_nil hx.whole.1
  rw [magnitude, List.append_assoc]
  by_cases hz : b = 0x30
  · have hwhole : x.whole = [0x30] := hx.leading (by rw [hb, hz]; rfl)
    rw [hwhole, List.singleton_append, readNumber_zero, hend, if_neg (by simp)]
    exact readNumberEnd_bytes hx (by rw [hwhole]; rfl)
  · obtain ⟨n, count, extra, hw⟩ :
      ∃ n count extra, takeDigits naturalLimit 0 0 x.whole = (n, count, extra) := ⟨_, _, _, rfl⟩
    have ho := takeDigits_over hw hx.whole.2
    have hta : takeDigits naturalLimit 0 0 (b :: (ds ++ (x.fractionBytes ++ x.exponentBytes))) =
        (n, count, extra ++ (x.fractionBytes ++ x.exponentBytes)) := by
      rw [← List.cons_append, ← hb, takeDigits_append hw fun _ => hend]
    rw [hb, List.cons_append, readNumber_cons hz (hx.whole.2 b (by simp [hb])) hta]
    cases extra with
    | nil =>
      rw [List.nil_append, hend, if_neg (by simp)]
      exact readNumberEnd_bytes hx hw
    | cons c extra =>
      rw [if_pos (show (c :: extra ++ (x.fractionBytes ++ x.exponentBytes)).head?.any isDigitByte
        from ho c List.mem_cons_self), skipDigits_append fun _ => hend, skipDigits_digits ho]
      exact readLongEnd_bytes hx (by simp) hw

end Numeral

end SettingsScan.Json
