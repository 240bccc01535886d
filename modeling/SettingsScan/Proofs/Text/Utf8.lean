import SettingsScan.Text.Encoding

/-! # UTF-8 is read back

The UTF-8 form of a text is well formed, and reading it gives the text.
-/

namespace SettingsScan.Encoding

theorem toNat_ofNat {n : Nat} (h : n < 256) : (UInt8.ofNat n).toNat = n := by
  simp
  omega

/-! ### First bytes -/

theorem leadByte_one {n : Nat} (h : n < 0x80) :
    leadByte (UInt8.ofNat n) = .inl (Char.ofNat n) := by
  have hn := toNat_ofNat (show n < 256 by omega)
  simp only [leadByte, UInt8.lt_iff_toNat_lt, hn, UInt8.reduceToNat, h, if_true]

theorem leadByte_two {n : Nat} (h : 0xC2 ≤ n) (h' : n < 0xE0) :
    leadByte (UInt8.ofNat n) = .inr { missing := 1, bits := n % 32 } := by
  have hn := toNat_ofNat (show n < 256 by omega)
  simp only [leadByte, UInt8.lt_iff_toNat_lt, hn, UInt8.reduceToNat]
  rw [if_neg (by omega), if_neg (by omega), if_pos h']

theorem leadByte_three {n : Nat} (h : 0xE0 ≤ n) (h' : n < 0xF0) :
    ∃ low high : UInt8,
      leadByte (UInt8.ofNat n) = .inr { missing := 2, bits := n % 16, low, high } ∧
      low.toNat = (if n = 0xE0 then 0xA0 else 0x80) ∧
      high.toNat = if n = 0xED then 0x9F else 0xBF := by
  have hn := toNat_ofNat (show n < 256 by omega)
  simp only [leadByte, UInt8.lt_iff_toNat_lt, ← UInt8.toNat_inj, hn, UInt8.reduceToNat]
  rw [if_neg (by omega), if_neg (by omega), if_neg (by omega)]
  by_cases h₁ : n = 0xE0
  · subst h₁
    exact ⟨_, _, rfl, rfl, rfl⟩
  · rw [if_neg h₁, if_neg h₁]
    by_cases h₂ : n = 0xED
    · subst h₂
      exact ⟨_, _, rfl, rfl, rfl⟩
    · rw [if_neg h₂, if_neg h₂, if_pos h']
      exact ⟨_, _, rfl, rfl, rfl⟩

theorem leadByte_four {n : Nat} (h : 0xF0 ≤ n) (h' : n ≤ 0xF4) :
    ∃ low high : UInt8, leadByte (UInt8.ofNat n) = .inr { missing := 3, bits := n % 8, low, high } ∧
      low.toNat = (if n = 0xF0 then 0x90 else 0x80) ∧
      high.toNat = if n = 0xF4 then 0x8F else 0xBF := by
  have hn := toNat_ofNat (show n < 256 by omega)
  simp only [leadByte, UInt8.lt_iff_toNat_lt, ← UInt8.toNat_inj, hn, UInt8.reduceToNat]
  rw [if_neg (by omega), if_neg (by omega), if_neg (by omega), if_neg (by omega),
    if_neg (by omega), if_neg (by omega)]
  by_cases h₁ : n = 0xF0
  · subst h₁
    exact ⟨_, _, rfl, rfl, rfl⟩
  · rw [if_neg h₁, if_neg h₁]
    by_cases h₂ : n = 0xF4
    · subst h₂
      exact ⟨_, _, rfl, rfl, rfl⟩
    · rw [if_neg h₂, if_neg h₂, if_pos (by omega)]
      exact ⟨_, _, rfl, rfl, rfl⟩

/-! ### Characters -/

theorem ofUtf8From_none (b : UInt8) (rest : Bytes) :
    ofUtf8From none (b :: rest) =
      match leadByte b with
      | .inl c => c :: ofUtf8From none rest
      | .inr u => ofUtf8From (some u) rest :=
  rfl

theorem ofUtf8From_some {u : Unfinished} {n : Nat} (hn : n < 256) (hl : u.low.toNat ≤ n)
    (hh : n ≤ u.high.toNat) (rest : Bytes) :
    ofUtf8From (some u) (UInt8.ofNat n :: rest) =
      if u.missing ≤ 1 then Char.ofNat (u.bits * 64 + n % 64) :: ofUtf8From none rest
      else ofUtf8From (some { missing := u.missing - 1, bits := u.bits * 64 + n % 64 })
        rest := by
  have hb := toNat_ofNat hn
  rw [ofUtf8From, if_pos]
  · rw [hb]
  · rw [UInt8.le_iff_toNat_le, UInt8.le_iff_toNat_le, hb]
    exact ⟨hl, hh⟩

theorem ofUtf8From_tail (missing bits : Nat) {n : Nat} (hl : 0x80 ≤ n) (hh : n ≤ 0xBF)
    (rest : Bytes) :
    ofUtf8From (some { missing, bits }) (UInt8.ofNat n :: rest) =
      if missing ≤ 1 then Char.ofNat (bits * 64 + n % 64) :: ofUtf8From none rest
      else ofUtf8From (some { missing := missing - 1, bits := bits * 64 + n % 64 }) rest :=
  ofUtf8From_some (by omega) hl hh rest

theorem ofUtf8From_utf8EncodeChar (c : Char) (rest : Bytes) :
    ofUtf8From none (String.utf8EncodeChar c ++ rest) = c :: ofUtf8From none rest := by
  have hv : c.val.toNat < 0xD800 ∨ 0xDFFF < c.val.toNat ∧ c.val.toNat < 0x110000 := c.valid
  have hc : Char.ofNat c.val.toNat = c := Char.ofNat_toNat c
  unfold String.utf8EncodeChar
  generalize c.val.toNat = v at hv hc
  dsimp only
  split
  · rw [List.cons_append, ofUtf8From_none, leadByte_one (by omega)]
    simp [hc]
  · split
    · rw [List.cons_append, ofUtf8From_none, leadByte_two (by omega) (by omega)]
      dsimp only
      rw [List.cons_append, ofUtf8From_tail _ _ (by omega) (by omega), if_pos (by omega),
        show (v / 64 % 32 + 192) % 32 * 64 + (v % 64 + 128) % 64 = v by omega, hc]
      rfl
    · split
      · obtain ⟨low, high, hb, hl, hh⟩ :=
          leadByte_three (n := v / 4096 % 16 + 224) (by omega) (by omega)
        have hl' : low.toNat ≤ v / 64 % 64 + 128 := by rw [hl]; split <;> omega
        have hh' : v / 64 % 64 + 128 ≤ high.toNat := by rw [hh]; split <;> omega
        rw [List.cons_append, ofUtf8From_none, hb]
        dsimp only
        rw [List.cons_append, ofUtf8From_some (by omega) hl' hh', if_neg (by simp)]
        dsimp only
        rw [List.cons_append, ofUtf8From_tail _ _ (by omega) (by omega), if_pos (by omega),
          show ((v / 4096 % 16 + 224) % 16 * 64 + (v / 64 % 64 + 128) % 64) * 64 +
            (v % 64 + 128) % 64 = v by omega, hc]
        rfl
      · obtain ⟨low, high, hb, hl, hh⟩ :=
          leadByte_four (n := v / 262144 % 8 + 240) (by omega) (by omega)
        have hl' : low.toNat ≤ v / 4096 % 64 + 128 := by rw [hl]; split <;> omega
        have hh' : v / 4096 % 64 + 128 ≤ high.toNat := by rw [hh]; split <;> omega
        rw [List.cons_append, ofUtf8From_none, hb]
        dsimp only
        rw [List.cons_append, ofUtf8From_some (by omega) hl' hh', if_neg (by simp)]
        dsimp only
        rw [List.cons_append, ofUtf8From_tail _ _ (by omega) (by omega), if_neg (by omega),
          List.cons_append, ofUtf8From_tail _ _ (by omega) (by omega), if_pos (by omega),
          show (((v / 262144 % 8 + 240) % 8 * 64 + (v / 4096 % 64 + 128) % 64) * 64 +
            (v / 64 % 64 + 128) % 64) * 64 + (v % 64 + 128) % 64 = v by omega, hc]
        rfl

/-! ### Texts -/

theorem utf8_cons (c : Char) (t : Text) : utf8 (c :: t) = String.utf8EncodeChar c ++ utf8 t :=
  rfl

theorem utf8_append (s t : Text) : utf8 (s ++ t) = utf8 s ++ utf8 t :=
  List.flatMap_append

theorem length_utf8 (t : Text) : (utf8 t).length = t.byteSize := by
  induction t with
  | nil => rfl
  | cons c t ih =>
    rw [utf8_cons, List.length_append, ih, String.length_utf8EncodeChar, Text.byteSize]

theorem take_utf8_append (s t : Text) :
    (utf8 (s ++ t)).take s.byteSize = utf8 s ∧ (utf8 (s ++ t)).drop s.byteSize = utf8 t := by
  rw [utf8_append, ← length_utf8, List.take_left, List.drop_left]
  exact ⟨rfl, rfl⟩

theorem utf8_ascii {c : Char} (h : c.toNat < 0x80) : utf8 [c] = [UInt8.ofNat c.toNat] := by
  have hc : c.val.toNat ≤ 0x7F := Nat.le_of_lt_succ h
  rw [utf8, List.flatMap_singleton, String.utf8EncodeChar, if_pos hc]
  rfl

theorem ofUtf8_utf8 (t : Text) : ofUtf8 (utf8 t) = t := by
  unfold ofUtf8
  induction t with
  | nil => rfl
  | cons c t ih => rw [utf8_cons, ofUtf8From_utf8EncodeChar, ih]

theorem ofUtf8?_utf8 (t : Text) : ofUtf8? (utf8 t) = some t := by
  simp only [ofUtf8?, ofUtf8_utf8, if_true]

theorem mem_utf8EncodeChar {c : Char} {b : UInt8} (h : b ∈ String.utf8EncodeChar c) :
    b.toNat = c.toNat ∧ b.toNat < 0x80 ∨ 0x80 ≤ b.toNat ∧ b.toNat < 0xF8 := by
  have hn : c.val.toNat = c.toNat := rfl
  unfold String.utf8EncodeChar at h
  dsimp only at h
  split at h
  · rw [List.mem_singleton.mp h, toNat_ofNat (by omega)]
    omega
  · right
    split at h
    · simp only [List.mem_cons, List.not_mem_nil, or_false] at h
      rcases h with rfl | rfl <;> rw [toNat_ofNat (by omega)] <;> omega
    · split at h
      · simp only [List.mem_cons, List.not_mem_nil, or_false] at h
        rcases h with rfl | rfl | rfl <;> rw [toNat_ofNat (by omega)] <;> omega
      · simp only [List.mem_cons, List.not_mem_nil, or_false] at h
        rcases h with rfl | rfl | rfl | rfl <;> rw [toNat_ofNat (by omega)] <;> omega

theorem mem_utf8 {t : Text} {b : UInt8} (h : b ∈ utf8 t) :
    (∃ c ∈ t, b.toNat = c.toNat) ∨ 0x80 ≤ b.toNat ∧ b.toNat < 0xF8 := by
  obtain ⟨c, hc, hb⟩ := List.mem_flatMap.mp h
  rcases mem_utf8EncodeChar hb with ⟨heq, -⟩ | hlarge
  · exact .inl ⟨c, hc, heq⟩
  · exact .inr hlarge

theorem lt_of_mem_utf8 {t : Text} {b : UInt8} (h : b ∈ utf8 t) : b.toNat < 0xF8 := by
  obtain ⟨c, hc, hb⟩ := List.mem_flatMap.mp h
  have := mem_utf8EncodeChar hb
  omega

/-! ### Texts beside other bytes -/

theorem ofUtf8From_utf8_append (t : Text) (rest : Bytes) :
    ofUtf8From none (utf8 t ++ rest) = t ++ ofUtf8From none rest := by
  induction t with
  | nil => rfl
  | cons c t ih =>
    rw [utf8_cons, List.append_assoc, ofUtf8From_utf8EncodeChar, ih, List.cons_append]

structure Unfinished.Bounded (u : Unfinished) : Prop where
  low : 0x80 ≤ u.low.toNat
  high : u.high.toNat ≤ 0xBF

theorem bounded_of_leadByte {b : UInt8} {u : Unfinished} (h : leadByte b = .inr u) : u.Bounded := by
  have hall : ∀ n < 256, (leadByte (UInt8.ofNat n)).elim (fun _ => true)
      (fun u => decide (0x80 ≤ u.low.toNat) && decide (u.high.toNat ≤ 0xBF)) = true := by
    decide +kernel
  have hb := hall b.toNat b.toNat_lt
  rw [UInt8.ofNat_toNat, h] at hb
  obtain ⟨hl, hh⟩ := Bool.and_eq_true_iff.mp hb
  exact ⟨of_decide_eq_true hl, of_decide_eq_true hh⟩

theorem exists_utf8EncodeChar_eq_cons (c : Char) :
    ∃ b more, String.utf8EncodeChar c = b :: more ∧ (b.toNat < 0x80 ∨ 0xBF < b.toNat) := by
  unfold String.utf8EncodeChar
  dsimp only
  split
  · exact ⟨_, _, rfl, .inl (by rw [toNat_ofNat (by omega)]; omega)⟩
  · split
    · exact ⟨_, _, rfl, .inr (by rw [toNat_ofNat (by omega)]; omega)⟩
    · split
      · exact ⟨_, _, rfl, .inr (by rw [toNat_ofNat (by omega)]; omega)⟩
      · exact ⟨_, _, rfl, .inr (by rw [toNat_ofNat (by omega)]; omega)⟩

/-- A byte that can not go on with a character ends it, and starts the next one. -/
theorem ofUtf8From_some_of_not {u : Unfinished} {b : UInt8} (h : ¬ (u.low ≤ b ∧ b ≤ u.high))
    (rest : Bytes) :
    ofUtf8From (some u) (b :: rest) = replacement :: ofUtf8From none (b :: rest) := by
  simp only [ofUtf8From, if_neg h]
  cases leadByte b <;> rfl

theorem ofUtf8From_some_utf8EncodeChar {u : Unfinished} (h : u.Bounded) (c : Char) (rest : Bytes) :
    ofUtf8From (some u) (String.utf8EncodeChar c ++ rest) =
      replacement :: ofUtf8From none (String.utf8EncodeChar c ++ rest) := by
  obtain ⟨b, more, hc, hb⟩ := exists_utf8EncodeChar_eq_cons c
  have hout : ¬ (u.low ≤ b ∧ b ≤ u.high) := by
    rw [UInt8.le_iff_toNat_le, UInt8.le_iff_toNat_le]
    have := h.low
    have := h.high
    omega
  rw [hc, List.cons_append, ofUtf8From_some_of_not hout]

theorem ofUtf8From_append_utf8 (under : Option Unfinished) (h : ∀ u ∈ under, u.Bounded)
    (bytes : Bytes) (t : Text) :
    ofUtf8From under (bytes ++ utf8 t) = ofUtf8From under bytes ++ t := by
  induction bytes generalizing under with
  | nil =>
    cases under with
    | none => exact ofUtf8_utf8 t
    | some u =>
      cases t with
      | nil => rfl
      | cons c t =>
        rw [List.nil_append, utf8_cons, ofUtf8From_some_utf8EncodeChar (h u rfl),
          ofUtf8From_utf8EncodeChar]
        exact congrArg (replacement :: c :: ·) (ofUtf8_utf8 t)
  | cons b bytes ih =>
    -- what the byte means where a character starts
    have hlead : ofUtf8From none (b :: bytes ++ utf8 t) = ofUtf8From none (b :: bytes) ++ t := by
      rw [List.cons_append, ofUtf8From_none, ofUtf8From_none]
      cases hb : leadByte b with
      | inl c => exact congrArg (c :: ·) (ih none nofun)
      | inr u =>
        refine ih (some u) fun v hv => ?_
        obtain rfl := Option.some.inj hv
        exact bounded_of_leadByte hb
    cases under with
    | none => exact hlead
    | some u =>
      by_cases hin : u.low ≤ b ∧ b ≤ u.high
      · rw [List.cons_append, ofUtf8From, if_pos hin, ofUtf8From, if_pos hin]
        dsimp only
        split
        · exact congrArg (_ :: ·) (ih none nofun)
        · refine ih _ fun v hv => ?_
          rw [← Option.some.inj hv]
          exact ⟨Nat.le_refl _, Nat.le_refl _⟩
      · rw [List.cons_append, ofUtf8From_some_of_not hin, ofUtf8From_some_of_not hin,
          ← List.cons_append, hlead]
        rfl

/-- Texts around other bytes are read as they are, whatever the bytes leave unfinished. -/
theorem ofUtf8_utf8_append (s t : Text) (bytes : Bytes) :
    ofUtf8 (utf8 s ++ bytes ++ utf8 t) = s ++ ofUtf8 bytes ++ t := by
  rw [ofUtf8, ofUtf8From_append_utf8 none nofun, ofUtf8From_utf8_append]
  rfl

end SettingsScan.Encoding
