import SettingsScan.Text.Encoding

/-! # UTF-16 is read back

A character is one unit or a pair of surrogates, and a unit is two bytes in either order. Reading
the units gives the characters.
-/

namespace SettingsScan.Encoding

variable {c : Char} {u : Nat}

/-! ### Surrogates -/

theorem toNat_lt_or (c : Char) : c.toNat < 0xD800 ∨ 0xDFFF < c.toNat ∧ c.toNat < 0x110000 :=
  c.valid

theorem isLowSurrogate_toNat (c : Char) : isLowSurrogate c.toNat = false := by
  have := toNat_lt_or c
  simp only [isLowSurrogate, Bool.and_eq_false_iff, decide_eq_false_iff_not]
  omega

theorem isHighSurrogate_toNat (c : Char) : isHighSurrogate c.toNat = false := by
  have := toNat_lt_or c
  simp only [isHighSurrogate, Bool.and_eq_false_iff, decide_eq_false_iff_not]
  omega

theorem isLowSurrogate_of_isHighSurrogate (h : isHighSurrogate u) : isLowSurrogate u = false := by
  simp only [isHighSurrogate, isLowSurrogate, Bool.and_eq_true, decide_eq_true_eq,
    Bool.and_eq_false_iff, decide_eq_false_iff_not] at h ⊢
  omega

/-! ### Characters as units -/

/-- The units of a character: itself, or a pair of surrogates for what lies above the first plane. -/
def unitsOf (c : Char) : List Nat :=
  if c.toNat < 0x10000 then [c.toNat]
  else [0xD800 + (c.toNat - 0x10000) / 0x400, 0xDC00 + (c.toNat - 0x10000) % 0x400]

theorem lt_of_mem_unitsOf (h : u ∈ unitsOf c) : u < 0x10000 := by
  have hc := toNat_lt_or c
  unfold unitsOf at h
  split at h
  · next hsmall =>
    rw [List.mem_singleton.mp h]
    exact hsmall
  · simp only [List.mem_cons, List.not_mem_nil, or_false] at h
    omega

theorem ofUnitsFrom_unitsOf (odd : Bool) (c : Char) (us : List Nat) :
    ofUnitsFrom odd none (unitsOf c ++ us) = c :: ofUnitsFrom odd none us := by
  have hc := toNat_lt_or c
  unfold unitsOf
  split
  · rw [List.singleton_append, ofUnitsFrom, if_neg (by simp [isHighSurrogate_toNat]),
      if_neg (by simp [isLowSurrogate_toNat]), Char.ofNat_toNat]
  · next hlarge =>
    have hhigh : isHighSurrogate (0xD800 + (c.toNat - 0x10000) / 0x400) := by
      simp only [isHighSurrogate, Bool.and_eq_true, decide_eq_true_eq]
      omega
    have hlow : isLowSurrogate (0xDC00 + (c.toNat - 0x10000) % 0x400) := by
      simp only [isLowSurrogate, Bool.and_eq_true, decide_eq_true_eq]
      omega
    have hpair : ofSurrogates (0xD800 + (c.toNat - 0x10000) / 0x400)
        (0xDC00 + (c.toNat - 0x10000) % 0x400) = c := by
      rw [ofSurrogates, show 0x10000 + (0xD800 + (c.toNat - 0x10000) / 0x400 - 0xD800) * 0x400 +
        (0xDC00 + (c.toNat - 0x10000) % 0x400 - 0xDC00) = c.toNat by omega, Char.ofNat_toNat]
    rw [List.cons_append, ofUnitsFrom, if_pos hhigh, List.singleton_append, ofUnitsFrom,
      if_pos hlow, hpair]

theorem ofUnitsFrom_flatMap_unitsOf (t : Text) : ofUnitsFrom false none (t.flatMap unitsOf) = t := by
  induction t with
  | nil => rfl
  | cons c t ih => rw [List.flatMap_cons, ofUnitsFrom_unitsOf, ih]

/-! ### Units as bytes -/

def lowFirst (u : Nat) : Bytes := [UInt8.ofNat (u % 256), UInt8.ofNat (u / 256)]

def highFirst (u : Nat) : Bytes := [UInt8.ofNat (u / 256), UInt8.ofNat (u % 256)]

def utf16 (bytesOf : Nat → Bytes) (t : Text) : Bytes :=
  (t.flatMap unitsOf).flatMap bytesOf

def Joins (join : UInt8 → UInt8 → Nat) (bytesOf : Nat → Bytes) : Prop :=
  ∀ u < 0x10000, ∃ a b, bytesOf u = [a, b] ∧ join a b = u

theorem joins_littleEndian : Joins littleEndian lowFirst := fun u hu =>
  ⟨_, _, rfl, by simp [littleEndian]; omega⟩

theorem joins_bigEndian : Joins bigEndian highFirst := fun u hu =>
  ⟨_, _, rfl, by simp [bigEndian]; omega⟩

variable {join : UInt8 → UInt8 → Nat} {bytesOf : Nat → Bytes}

theorem Joins.units_flatMap (h : Joins join bytesOf) {us : List Nat} (hus : ∀ u ∈ us, u < 0x10000) :
    units join (us.flatMap bytesOf) = (us, false) := by
  induction us with
  | nil => rfl
  | cons u us ih =>
    obtain ⟨hu, hus⟩ := List.forall_mem_cons.mp hus
    obtain ⟨a, b, hbytes, hjoin⟩ := h u hu
    rw [List.flatMap_cons, hbytes, List.cons_append, List.singleton_append, units, ih hus, hjoin]

theorem Joins.ofUtf16_utf16 (h : Joins join bytesOf) (t : Text) :
    ofUtf16 join (utf16 bytesOf t) = t := by
  have hunits : ∀ u ∈ t.flatMap unitsOf, u < 0x10000 := fun u hu => by
    obtain ⟨c, -, hc⟩ := List.mem_flatMap.mp hu
    exact lt_of_mem_unitsOf hc
  rw [ofUtf16, utf16, h.units_flatMap hunits]
  exact ofUnitsFrom_flatMap_unitsOf t

end SettingsScan.Encoding
