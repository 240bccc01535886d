import SettingsScan.Json.Stream
import SettingsScan.Proofs.Json.StringText

/-! # Values are read to their end

A value that has been read stays the same when more follows, and every text of a value is read as
that value, whatever is behind it.
-/

namespace SettingsScan.Json

variable {bytes rest more gap : Bytes} {fuel fuel' levels n : Nat} {v : Value} {b : UInt8}
  {letters : Bytes} {first : Bool}

/-! ### First bytes -/

/-- The first byte of a value is no gap, and neither a comma nor a closing bracket. -/
def StartsValue (delimited : Bool) (b : UInt8) : Prop :=
  isGapByte b = false ∧ b ≠ 0x2C ∧ b ≠ 0x5D ∧ isDelimited b = delimited

instance (delimited : Bool) (b : UInt8) : Decidable (StartsValue delimited b) :=
  inferInstanceAs (Decidable (_ ∧ _))

theorem StartsValue.notBlank {delimited : Bool} (h : StartsValue delimited b) :
    isBlankByte b = false := by
  have := h.1
  simp only [isGapByte, Bool.or_eq_false_iff] at this
  exact this.1

theorem startsValue_digit (hb : isDigitByte b) : StartsValue false b := by
  simp only [isDigitByte, Bool.and_eq_true, decide_eq_true_eq, UInt8.le_iff_toNat_le,
    UInt8.reduceToNat] at hb
  simp only [StartsValue, isGapByte, isBlankByte, isDelimited, Bool.or_eq_false_iff,
    decide_eq_false_iff_not, ne_eq, ← UInt8.toNat_inj, UInt8.reduceToNat]
  omega

/-! ### What has been read stays -/

theorem readLetters_append {w : Value} (h : readLetters letters w bytes = .ok (v, rest)) :
    readLetters letters w (bytes ++ more) = .ok (v, rest ++ more) := by
  induction letters generalizing bytes with
  | nil =>
    cases h
    rfl
  | cons a letters ih =>
    cases bytes with
    | nil => cases h
    | cons b bytes =>
      simp only [readLetters, List.cons_append] at h ⊢
      split at h
      · rename_i hab
        rw [if_pos hab]
        exact ih h
      · cases h

theorem skipBlanks_ne_nil (h : readValue fuel levels bytes = .ok (v, rest)) :
    skipBlanks bytes ≠ [] := by
  intro hn
  cases fuel with
  | zero => cases h
  | succ n =>
    rw [readValue, hn] at h
    cases h

theorem readItems_nil (fuel levels : Nat) (first : Bool) (items : List Value) :
    readItems fuel levels first items [] = .error .ended := by
  cases fuel <;> rfl

theorem readFields_nil (fuel levels : Nat) (first : Bool) (fields : List (Text × Value)) :
    readFields fuel levels first fields [] = .error .ended := by
  cases fuel <;> rfl

def readItem (fuel levels : Nat) (items : List Value) (bytes : Bytes) : Reading (Value × Bytes) :=
  match readValue fuel levels bytes with
  | .error e => .error e
  | .ok (v, rest) => readItems fuel levels false (v :: items) rest

theorem readItems_succ (fuel levels : Nat) (first : Bool) (items : List Value) (bytes : Bytes) :
    readItems (fuel + 1) levels first items bytes =
      match skipBlanks bytes with
      | [] => .error .ended
      | b :: rest =>
        if b = 0x5D then .ok (.array items.reverse, rest)
        else if first then readItem fuel levels items (b :: rest)
        else if b = 0x2C then
          if (skipBlanks rest).head? = some 0x5D then .error .trailingComma
          else readItem fuel levels items rest
        else .error .expectedDelimiter := by
  rw [readItems]
  rfl

def readField (fuel levels : Nat) (fields : List (Text × Value)) (bytes : Bytes) :
    Reading (Value × Bytes) :=
  match readKey fuel bytes with
  | .error e => .error e
  | .ok (name, rest) =>
    match readValue fuel levels rest with
    | .error e => .error e
    | .ok (v, rest) => readFields fuel levels false (putField fields name v) rest

def readFieldAt (fuel levels : Nat) (fields : List (Text × Value)) (bytes : Bytes) :
    Reading (Value × Bytes) :=
  match bytes with
  | [] => .error .ended
  | b :: rest =>
    if b ≠ 0x22 then .error (if b = 0x7D then .trailingComma else .invalidKey)
    else readField fuel levels fields rest

theorem readFields_succ (fuel levels : Nat) (first : Bool) (fields : List (Text × Value))
    (bytes : Bytes) :
    readFields (fuel + 1) levels first fields bytes =
      match skipBlanks bytes with
      | [] => .error .ended
      | b :: rest =>
        if b = 0x7D then .ok (.object fields, rest)
        else if first then readFieldAt fuel levels fields (b :: rest)
        else if b = 0x2C then readFieldAt fuel levels fields (skipBlanks rest)
        else .error .expectedDelimiter := by
  rw [readFields]
  cases skipBlanks bytes with
  | nil => rfl
  | cons b rest =>
    dsimp only
    by_cases he : b = 0x7D
    · rw [if_pos he, if_pos he]
    · rw [if_neg he, if_neg he]
      cases first with
      | true => rfl
      | false =>
        by_cases hc : b = 0x2C
        · simp only [hc, if_true, Bool.false_eq_true, if_false, readFieldAt]
          cases skipBlanks rest with
          | nil => rfl
          | cons a rest => rfl
        · simp only [hc, if_false, Bool.false_eq_true]

/-- With the greater fuel all that has been read stays when more follows. -/
structure Extends (more : Bytes) (fuel fuel' : Nat) : Prop where
  value : ∀ {levels : Nat} {bytes rest : Bytes} {v : Value},
    (rest = [] → (skipBlanks bytes).head?.any isDelimited = false → EndsNumeral more) →
    readValue fuel levels bytes = .ok (v, rest) →
    readValue fuel' levels (bytes ++ more) = .ok (v, rest ++ more)
  items : ∀ {levels : Nat} {first : Bool} {items : List Value} {bytes rest : Bytes} {v : Value},
    readItems fuel levels first items bytes = .ok (v, rest) →
    readItems fuel' levels first items (bytes ++ more) = .ok (v, rest ++ more)
  fields : ∀ {levels : Nat} {first : Bool} {fields : List (Text × Value)} {bytes rest : Bytes}
    {v : Value}, readFields fuel levels first fields bytes = .ok (v, rest) →
    readFields fuel' levels first fields (bytes ++ more) = .ok (v, rest ++ more)

namespace Extends

variable {items : List Value} {fields : List (Text × Value)}

theorem item (he : Extends more fuel fuel') (h : readItem fuel levels items bytes = .ok (v, rest)) :
    readItem fuel' levels items (bytes ++ more) = .ok (v, rest ++ more) := by
  unfold readItem at h ⊢
  split at h
  · cases h
  · rename_i w r hv
    have hr : r ≠ [] := by
      rintro rfl
      rw [readItems_nil] at h
      cases h
    rw [he.value (fun hn => absurd hn hr) hv]
    exact he.items h

theorem field (he : Extends more fuel fuel') (hf : fuel ≤ fuel')
    (h : readField fuel levels fields bytes = .ok (v, rest)) :
    readField fuel' levels fields (bytes ++ more) = .ok (v, rest ++ more) := by
  unfold readField at h ⊢
  split at h
  · cases h
  rename_i hk
  rw [readKey_append hf hk]
  dsimp only
  split at h
  · cases h
  rename_i w r hv
  have hr : r ≠ [] := by
    rintro rfl
    rw [readFields_nil] at h
    cases h
  rw [he.value (fun hn => absurd hn hr) hv]
  exact he.fields h

theorem fieldAt (he : Extends more fuel fuel') (hf : fuel ≤ fuel')
    (h : readFieldAt fuel levels fields bytes = .ok (v, rest)) :
    readFieldAt fuel' levels fields (bytes ++ more) = .ok (v, rest ++ more) := by
  cases bytes with
  | nil => cases h
  | cons b bytes =>
    simp only [readFieldAt, List.cons_append] at h ⊢
    split at h
    · cases h
    · rename_i hb
      rw [if_neg hb]
      exact he.field hf h

theorem value_succ (he : Extends more fuel fuel') (hf : fuel ≤ fuel')
    (hm : rest = [] → (skipBlanks bytes).head?.any isDelimited = false → EndsNumeral more)
    (h : readValue (fuel + 1) levels bytes = .ok (v, rest)) :
    readValue (fuel' + 1) levels (bytes ++ more) = .ok (v, rest ++ more) := by
  have number {positive : Bool} {bytes : Bytes} (hm : rest = [] → EndsNumeral more)
      (h : (readNumber positive bytes).map (fun x => (Value.number x.1, x.2)) =
        .ok (v, rest)) :
      (readNumber positive (bytes ++ more)).map (fun x => (Value.number x.1, x.2)) =
        .ok (v, rest ++ more) := by
    obtain ⟨⟨n, r⟩, hr, hv⟩ := Except.exists_of_map_eq_ok h
    cases hv
    rw [readNumber_append hr hm]
    rfl
  rw [readValue] at h
  split at h
  · cases h
  rename_i b r hb
  rw [hb] at hm
  rw [readValue, skipBlanks_append hb]
  dsimp only
  by_cases hn : b = 0x6E
  · rw [if_pos hn] at h ⊢
    exact readLetters_append h
  rw [if_neg hn] at h ⊢
  by_cases ht : b = 0x74
  · rw [if_pos ht] at h ⊢
    exact readLetters_append h
  rw [if_neg ht] at h ⊢
  by_cases hl : b = 0x66
  · rw [if_pos hl] at h ⊢
    exact readLetters_append h
  rw [if_neg hl] at h ⊢
  by_cases hs : b = 0x2D
  · rw [if_pos hs] at h ⊢
    exact number (fun he => hm he (by rw [hs]; rfl)) h
  rw [if_neg hs] at h ⊢
  by_cases hd : isDigitByte b
  · rw [if_pos hd] at h ⊢
    exact number (fun he => hm he (startsValue_digit hd).2.2.2) h
  rw [if_neg hd] at h ⊢
  by_cases hq : b = 0x22
  · rw [if_pos hq] at h ⊢
    obtain ⟨⟨t, r⟩, hr, hv⟩ := Except.exists_of_map_eq_ok h
    cases hv
    rw [readString_append hf hr]
    rfl
  rw [if_neg hq] at h ⊢
  by_cases ha : b = 0x5B
  · rw [if_pos ha] at h ⊢
    split at h
    · cases h
    · rename_i hlevels
      rw [if_neg hlevels]
      exact he.items h
  rw [if_neg ha] at h ⊢
  by_cases ho : b = 0x7B
  · rw [if_pos ho] at h ⊢
    split at h
    · cases h
    · rename_i hlevels
      rw [if_neg hlevels]
      exact he.fields h
  rw [if_neg ho] at h
  cases h

theorem items_succ (he : Extends more fuel fuel')
    (h : readItems (fuel + 1) levels first items bytes = .ok (v, rest)) :
    readItems (fuel' + 1) levels first items (bytes ++ more) = .ok (v, rest ++ more) := by
  rw [readItems_succ] at h
  split at h
  · cases h
  rename_i b r hb
  rw [readItems_succ, skipBlanks_append hb]
  dsimp only
  split at h
  · rename_i hend
    cases h
    rw [if_pos hend]
  rename_i hend
  rw [if_neg hend]
  split at h
  · rename_i hfirst
    rw [if_pos hfirst]
    exact he.item h
  rename_i hfirst
  rw [if_neg hfirst]
  split at h
  · rename_i hc
    rw [if_pos hc]
    split at h
    · cases h
    rename_i ht
    have hs : skipBlanks r ≠ [] := by
      intro hn
      unfold readItem at h
      split at h
      · cases h
      · rename_i hv
        exact skipBlanks_ne_nil hv hn
    obtain ⟨a, s, hs⟩ := List.exists_cons_of_ne_nil hs
    rw [hs] at ht
    rw [skipBlanks_append hs, if_neg (by simpa using ht)]
    exact he.item h
  · cases h

theorem fields_succ (he : Extends more fuel fuel') (hf : fuel ≤ fuel')
    (h : readFields (fuel + 1) levels first fields bytes = .ok (v, rest)) :
    readFields (fuel' + 1) levels first fields (bytes ++ more) = .ok (v, rest ++ more) := by
  rw [readFields_succ] at h
  split at h
  · cases h
  rename_i b r hb
  rw [readFields_succ, skipBlanks_append hb]
  dsimp only
  split at h
  · rename_i hend
    cases h
    rw [if_pos hend]
  rename_i hend
  rw [if_neg hend]
  split at h
  · rename_i hfirst
    rw [if_pos hfirst]
    exact he.fieldAt hf h
  rename_i hfirst
  rw [if_neg hfirst]
  split at h
  · rename_i hc
    rw [if_pos hc]
    cases hs : skipBlanks r with
    | nil =>
      rw [hs] at h
      cases h
    | cons a s =>
      rw [hs] at h
      rw [skipBlanks_append hs]
      exact he.fieldAt hf h
  · cases h

end Extends

theorem extends_of_le (more : Bytes) (hf : fuel ≤ fuel') : Extends more fuel fuel' := by
  induction fuel generalizing fuel' with
  | zero =>
    constructor
    · intro _ _ _ _ _ h
      cases h
    · intro _ _ _ _ _ _ h
      cases h
    · intro _ _ _ _ _ _ h
      cases h
  | succ n ih =>
    obtain ⟨n', rfl⟩ := Nat.exists_eq_add_one_of_ne_zero (show fuel' ≠ 0 by omega)
    have hn : n ≤ n' := by omega
    have he := ih hn
    exact ⟨he.value_succ hn, he.items_succ, he.fields_succ hn⟩

/-! ### What is written is read -/

theorem Blank.endsNumeral (h : Blank gap) (hm : EndsNumeral more) : EndsNumeral (gap ++ more) := by
  cases gap with
  | nil => exact hm
  | cons b gap =>
    have hb := h b List.mem_cons_self
    simp only [isBlankByte, Bool.or_eq_true, decide_eq_true_eq] at hb
    rcases hb with ((rfl | rfl) | rfl) | rfl <;> rfl

theorem Numeral.exists_bytes {x : Numeral} (hx : x.WellFormed) :
    ∃ b bytes, x.bytes = b :: bytes ∧ StartsValue false b := by
  obtain ⟨b, ds, hb⟩ := List.exists_cons_of_ne_nil hx.whole.1
  unfold Numeral.bytes
  split
  · exact ⟨_, _, rfl, by decide⟩
  · rw [Numeral.magnitude, hb]
    exact ⟨b, _, rfl, startsValue_digit (hx.whole.2 b (by simp [hb]))⟩

theorem WritesScalar.exists_bytes (h : WritesScalar v bytes) :
    ∃ b rest, bytes = b :: rest ∧ StartsValue v.isDelimited b := by
  cases h with
  | number hx _ => exact Numeral.exists_bytes hx
  | null => exact ⟨_, _, rfl, by decide⟩
  | true => exact ⟨_, _, rfl, by decide⟩
  | false => exact ⟨_, _, rfl, by decide⟩
  | string _ => exact ⟨_, _, rfl, show StartsValue .true 0x22 by decide⟩

/-- At the levels the text is read as the value, whatever is behind it. -/
structure IsRead (levels : Nat) (v : Value) (bytes : Bytes) : Prop where
  starts : ∃ b rest, bytes = b :: rest ∧ StartsValue v.isDelimited b
  read : ∀ {fuel : Nat} {rest : Bytes}, 2 * bytes.length ≤ fuel →
    (v.isDelimited = false → EndsNumeral rest) →
    readValue fuel levels (bytes ++ rest) = .ok (v, rest)

theorem readValue_blank (hg : Blank gap) (fuel levels : Nat) (bytes : Bytes) :
    readValue fuel levels (gap ++ bytes) = readValue fuel levels bytes := by
  cases fuel with
  | zero => rfl
  | succ n => rw [readValue, readValue, skipBlanks_blank hg]

theorem IsRead.length_pos (h : IsRead levels v bytes) : 0 < bytes.length := by
  obtain ⟨b, rest, rfl, -⟩ := h.starts
  exact Nat.succ_pos _

theorem IsRead.readValue {gap : Bytes} (h : IsRead levels v bytes) (hg : Blank gap)
    (hf : 2 * bytes.length ≤ fuel) (hm : v.isDelimited = false → EndsNumeral rest) :
    readValue fuel levels (gap ++ (bytes ++ rest)) = .ok (v, rest) := by
  rw [readValue_blank hg, h.read hf hm]

theorem readNumber_bytes {x : Numeral} (hx : x.WellFormed) {number : Number}
    (h : x.number = .ok number) (hm : EndsNumeral rest) :
    readNumber (!x.negative) (x.magnitude ++ rest) = .ok (number, rest) := by
  have hr : readNumber (!x.negative) x.magnitude = .ok (number, []) := by
    rw [Numeral.readNumber_magnitude hx, h]
    rfl
  exact readNumber_append hr fun _ => hm

theorem readValue_cons (hb : isBlankByte b = false) :
    readValue (fuel + 1) levels (b :: bytes) =
      if b = 0x6E then readLetters [0x75, 0x6C, 0x6C] .null bytes
      else if b = 0x74 then readLetters [0x72, 0x75, 0x65] (.bool true) bytes
      else if b = 0x66 then readLetters [0x61, 0x6C, 0x73, 0x65] (.bool false) bytes
      else if b = 0x2D then (readNumber false bytes).map fun (n, rest) => (.number n, rest)
      else if isDigitByte b then
        (readNumber true (b :: bytes)).map fun (n, rest) => (.number n, rest)
      else if b = 0x22 then (readString fuel bytes).map fun (t, rest) => (.string t, rest)
      else if b = 0x5B then
        if levels ≤ 1 then .error .nestedTooDeep
        else readItems fuel (levels - 1) true [] bytes
      else if b = 0x7B then
        if levels ≤ 1 then .error .nestedTooDeep
        else readFields fuel (levels - 1) true [] bytes
      else .error .expectedValue := by
  rw [readValue, skipBlanks_cons hb]

theorem readValue_digit (hb : isDigitByte b) :
    readValue (fuel + 1) levels (b :: bytes) =
      (readNumber true (b :: bytes)).map fun (n, rest) => (.number n, rest) := by
  have hn : b ≠ 0x6E := by rintro rfl; revert hb; decide
  have ht : b ≠ 0x74 := by rintro rfl; revert hb; decide
  have hl : b ≠ 0x66 := by rintro rfl; revert hb; decide
  have hs : b ≠ 0x2D := by rintro rfl; revert hb; decide
  rw [readValue_cons (startsValue_digit hb).notBlank, if_neg hn, if_neg ht, if_neg hl, if_neg hs,
    if_pos hb]

theorem readValue_minus :
    readValue (fuel + 1) levels (0x2D :: bytes) =
      (readNumber false bytes).map fun (n, rest) => (.number n, rest) :=
  readValue_cons (by decide)

theorem readValue_quote :
    readValue (fuel + 1) levels (0x22 :: bytes) =
      (readString fuel bytes).map fun (t, rest) => (.string t, rest) :=
  readValue_cons (by decide)

theorem readValue_bracket :
    readValue (fuel + 1) levels (0x5B :: bytes) =
      if levels ≤ 1 then .error .nestedTooDeep else readItems fuel (levels - 1) true [] bytes :=
  readValue_cons (by decide)

theorem readValue_brace :
    readValue (fuel + 1) levels (0x7B :: bytes) =
      if levels ≤ 1 then .error .nestedTooDeep else readFields fuel (levels - 1) true [] bytes :=
  readValue_cons (by decide)

theorem WritesScalar.isRead (h : WritesScalar v bytes) (levels : Nat) : IsRead levels v bytes := by
  refine ⟨h.exists_bytes, fun {fuel rest} hf hm => ?_⟩
  obtain ⟨k, rfl⟩ : ∃ k, fuel = k + 1 := by
    obtain ⟨b, r, rfl, -⟩ := h.exists_bytes
    refine Nat.exists_eq_add_one_of_ne_zero ?_
    rw [List.length_cons] at hf
    omega
  cases h with
  | null => exact readValue_cons (by decide)
  | true => exact readValue_cons (by decide)
  | false => exact readValue_cons (by decide)
  | @number x n hx hn =>
    have hr := readNumber_bytes hx hn (hm rfl)
    unfold Numeral.bytes
    cases hs : x.negative with
    | true =>
      rw [hs] at hr
      rw [if_pos rfl, List.cons_append, readValue_minus]
      exact congrArg _ hr
    | false =>
      rw [hs] at hr
      obtain ⟨b, ds, hb⟩ := List.exists_cons_of_ne_nil hx.whole.1
      have hd : isDigitByte b := hx.whole.2 b (by simp [hb])
      rw [if_neg (by simp)]
      rw [Numeral.magnitude, hb] at hr ⊢
      simp only [List.cons_append] at hr ⊢
      rw [readValue_digit hd]
      exact congrArg _ hr
  | @string t content ht =>
    have hr : readString k (content ++ 0x22 :: rest) = .ok (t, rest) :=
      ht.readString (by simp at hf; omega)
    rw [List.cons_append, List.append_assoc, readValue_quote]
    exact congrArg _ hr

/-! ### Items and fields -/

namespace Spaced

variable {α : Type} {part part' : α → Bytes → Prop} {s : Spaced α}

theorem Fits.mono (h : ∀ {a : α} {bytes : Bytes}, part a bytes → part' a bytes)
    (hs : s.Fits part) : s.Fits part' :=
  ⟨hs.before, h hs.text, hs.after⟩

theorem bytes_append (s : Spaced α) (more : Bytes) :
    s.bytes ++ more = s.before ++ (s.text ++ (s.after ++ more)) := by
  simp [bytes]

theorem length_bytes (s : Spaced α) :
    s.bytes.length = s.before.length + s.text.length + s.after.length := by
  simp [bytes, Nat.add_assoc]

end Spaced

theorem furtherText_cons {α : Type} (s : Spaced α) (parts : List (Spaced α)) :
    furtherText (s :: parts) = 0x2C :: (s.bytes ++ furtherText parts) := rfl

theorem endsNumeral_furtherText {α : Type} (parts : List (Spaced α))
    (hb : EndsNumeral (b :: rest)) :
    EndsNumeral (furtherText parts ++ b :: rest) := by
  cases parts with
  | nil => exact hb
  | cons s parts => rfl

variable {items : List (Spaced Value)} {fields : List (Spaced (Text × Value))}

theorem readItem_fits {s : Spaced Value} (hs : s.Fits (IsRead levels)) (hg : Blank gap)
    (hf : 2 * s.text.length ≤ fuel) (hm : EndsNumeral more) (held : List Value) :
    readItem fuel levels held (gap ++ (s.text ++ (s.after ++ more))) =
      readItems fuel levels false (s.item :: held) (s.after ++ more) := by
  rw [readItem, hs.text.readValue hg hf fun _ => hs.after.endsNumeral hm]

theorem readItems_further (hi : ∀ s ∈ items, s.Fits (IsRead levels)) (hg : Blank gap)
    (hf : 2 * (furtherText items).length < fuel) (held : List Value) (rest : Bytes) :
    readItems fuel levels false held (gap ++ (furtherText items ++ 0x5D :: rest)) =
      .ok (.array (held.reverse ++ items.map (·.item)), rest) := by
  induction items generalizing gap fuel held with
  | nil =>
    obtain ⟨k, rfl⟩ := Nat.exists_eq_add_one_of_ne_zero (show fuel ≠ 0 by omega)
    rw [readItems_succ, skipBlanks_blank hg, furtherText, List.flatMap_nil, List.nil_append,
      skipBlanks_cons (by decide)]
    simp
  | cons s items ih =>
    obtain ⟨k, rfl⟩ := Nat.exists_eq_add_one_of_ne_zero (show fuel ≠ 0 by omega)
    have hs := hi s List.mem_cons_self
    rw [furtherText_cons, List.length_cons, List.length_append, s.length_bytes] at hf
    obtain ⟨b, text, ht, hb⟩ := hs.text.starts
    have hm : EndsNumeral (furtherText items ++ 0x5D :: rest) := endsNumeral_furtherText items rfl
    rw [readItems_succ, skipBlanks_blank hg, furtherText_cons, List.cons_append,
      skipBlanks_cons (by decide), List.append_assoc, s.bytes_append]
    dsimp only
    rw [if_neg (by decide), if_neg (by decide), if_pos rfl, skipBlanks_blank hs.before, ht,
      List.cons_append, skipBlanks_cons hb.notBlank, if_neg (by simpa using hb.2.2.1),
      ← List.cons_append, ← ht, readItem_fits hs hs.before (by omega) hm,
      ih (fun s hs => hi s (List.mem_cons_of_mem _ hs)) hs.after (by omega)]
    simp

theorem readItems_listText (hi : ∀ s ∈ items, s.Fits (IsRead levels)) (hg : Blank gap)
    (hf : 2 * (listText gap items).length < fuel) (rest : Bytes) :
    readItems fuel levels true [] (listText gap items ++ 0x5D :: rest) =
      .ok (.array (items.map (·.item)), rest) := by
  obtain ⟨k, rfl⟩ := Nat.exists_eq_add_one_of_ne_zero (show fuel ≠ 0 by omega)
  cases items with
  | nil =>
    rw [readItems_succ, listText, skipBlanks_blank hg, skipBlanks_cons (by decide)]
    rfl
  | cons s items =>
    have hs := hi s List.mem_cons_self
    rw [listText, List.length_append, s.length_bytes] at hf
    obtain ⟨b, text, ht, hb⟩ := hs.text.starts
    have hlen := hs.text.length_pos
    have hm : EndsNumeral (furtherText items ++ 0x5D :: rest) := endsNumeral_furtherText items rfl
    have hread : readItem k levels [] (s.text ++ (s.after ++ (furtherText items ++ 0x5D :: rest))) =
        readItems k levels false [s.item] (s.after ++ (furtherText items ++ 0x5D :: rest)) :=
      readItem_fits hs (List.forall_mem_nil _) (by omega) hm []
    rw [readItems_succ, listText, List.append_assoc, s.bytes_append, skipBlanks_blank hs.before, ht,
      List.cons_append, skipBlanks_cons hb.notBlank]
    dsimp only
    rw [if_neg hb.2.2.1, if_pos rfl, ← List.cons_append, ← ht, hread,
      readItems_further (fun s hs => hi s (List.mem_cons_of_mem _ hs)) hs.after (by omega)]
    rfl

theorem readFieldAt_fits {s : Spaced (Text × Value)} (hs : s.Fits (WritesField (IsRead levels)))
    (hf : 2 * s.text.length ≤ fuel) (hm : EndsNumeral more) (held : List (Text × Value)) :
    readFieldAt fuel levels held (s.text ++ (s.after ++ more)) =
      readFields fuel levels false (putField held s.item.1 s.item.2) (s.after ++ more) := by
  obtain ⟨before, ⟨name, v⟩, text, after⟩ := s
  obtain ⟨hbefore, htext, hafter⟩ := hs
  cases htext with
  | @mk _ _ key gap gap' bytes hkey hg hg' hv =>
    simp only [List.length_cons, List.length_append] at hf
    simp only [List.cons_append, List.append_assoc, readFieldAt]
    rw [if_neg (by simp), readField, hkey.readKey hg (by omega)]
    dsimp only
    rw [hv.readValue hg' (by omega) fun _ => hafter.endsNumeral hm]

theorem exists_field_text {part : Value → Bytes → Prop} {s : Spaced (Text × Value)}
    (hs : s.Fits (WritesField part)) : ∃ text, s.text = 0x22 :: text := by
  obtain ⟨before, f, text, after⟩ := s
  cases hs.text
  exact ⟨_, rfl⟩

theorem readFields_further (hi : ∀ s ∈ fields, s.Fits (WritesField (IsRead levels)))
    (hg : Blank gap) (hf : 2 * (furtherText fields).length < fuel) (held : List (Text × Value))
    (rest : Bytes) :
    readFields fuel levels false held (gap ++ (furtherText fields ++ 0x7D :: rest)) =
      .ok (.object ((fields.map (·.item)).foldl (fun held f => putField held f.1 f.2) held),
        rest) := by
  induction fields generalizing gap fuel held with
  | nil =>
    obtain ⟨k, rfl⟩ := Nat.exists_eq_add_one_of_ne_zero (show fuel ≠ 0 by omega)
    rw [readFields_succ, skipBlanks_blank hg, furtherText, List.flatMap_nil, List.nil_append,
      skipBlanks_cons (by decide)]
    rfl
  | cons s fields ih =>
    obtain ⟨k, rfl⟩ := Nat.exists_eq_add_one_of_ne_zero (show fuel ≠ 0 by omega)
    have hs := hi s List.mem_cons_self
    rw [furtherText_cons, List.length_cons, List.length_append, s.length_bytes] at hf
    obtain ⟨text, ht⟩ := exists_field_text hs
    have hm : EndsNumeral (furtherText fields ++ 0x7D :: rest) := endsNumeral_furtherText fields rfl
    rw [readFields_succ, skipBlanks_blank hg, furtherText_cons, List.cons_append,
      skipBlanks_cons (by decide), List.append_assoc, s.bytes_append]
    dsimp only
    rw [if_neg (by decide), if_neg (by decide), if_pos rfl, skipBlanks_blank hs.before, ht,
      List.cons_append, skipBlanks_cons (by decide), ← List.cons_append, ← ht,
      readFieldAt_fits hs (by omega) hm,
      ih (fun s hs => hi s (List.mem_cons_of_mem _ hs)) hs.after (by omega)]
    rfl

theorem readFields_listText (hi : ∀ s ∈ fields, s.Fits (WritesField (IsRead levels)))
    (hg : Blank gap) (hf : 2 * (listText gap fields).length < fuel) (rest : Bytes) :
    readFields fuel levels true [] (listText gap fields ++ 0x7D :: rest) =
      .ok (objectOf (fields.map (·.item)), rest) := by
  obtain ⟨k, rfl⟩ := Nat.exists_eq_add_one_of_ne_zero (show fuel ≠ 0 by omega)
  cases fields with
  | nil =>
    rw [readFields_succ, listText, skipBlanks_blank hg, skipBlanks_cons (by decide)]
    rfl
  | cons s fields =>
    have hs := hi s List.mem_cons_self
    rw [listText, List.length_append, s.length_bytes] at hf
    obtain ⟨text, ht⟩ := exists_field_text hs
    have hlen : s.text.length ≠ 0 := by simp [ht]
    have hm : EndsNumeral (furtherText fields ++ 0x7D :: rest) := endsNumeral_furtherText fields rfl
    rw [readFields_succ, listText, List.append_assoc, s.bytes_append, skipBlanks_blank hs.before,
      ht, List.cons_append, skipBlanks_cons (by decide)]
    dsimp only
    rw [if_neg (by decide), if_pos rfl, ← List.cons_append, ← ht, readFieldAt_fits hs (by omega) hm,
      readFields_further (fun s hs => hi s (List.mem_cons_of_mem _ hs)) hs.after (by omega)]
    rfl

/-! ### Values -/

theorem WritesField.mono {inner inner' : Value → Bytes → Prop} {f : Text × Value}
    (hi : ∀ {v : Value} {bytes : Bytes}, inner v bytes → inner' v bytes)
    (h : WritesField inner f bytes) : WritesField inner' f bytes := by
  cases h with
  | mk hkey hg hg' hv => exact .mk hkey hg hg' (hi hv)

theorem WritesNested.isRead {inner : Value → Bytes → Prop} (hl : levels ≠ 0)
    (hi : ∀ {v : Value} {bytes : Bytes}, inner v bytes → IsRead levels v bytes)
    (h : WritesNested inner v bytes) : IsRead (levels + 1) v bytes := by
  cases h with
  | scalar h => exact h.isRead (levels + 1)
  | @array gap items hg hitems =>
    refine ⟨⟨_, _, rfl, show StartsValue .true 0x5B by decide⟩, fun {fuel rest} hf _ => ?_⟩
    simp only [List.length_cons, List.length_append, List.length_nil] at hf
    obtain ⟨k, rfl⟩ := Nat.exists_eq_add_one_of_ne_zero (show fuel ≠ 0 by omega)
    rw [List.cons_append, List.append_assoc, readValue_bracket, if_neg (by omega),
      Nat.add_sub_cancel]
    exact readItems_listText (fun s hs => (hitems s hs).mono hi) hg (by omega) rest
  | @object gap fields hg hfields =>
    refine ⟨⟨_, _, rfl, show StartsValue .true 0x7B by decide⟩, fun {fuel rest} hf _ => ?_⟩
    simp only [List.length_cons, List.length_append, List.length_nil] at hf
    obtain ⟨k, rfl⟩ := Nat.exists_eq_add_one_of_ne_zero (show fuel ≠ 0 by omega)
    rw [List.cons_append, List.append_assoc, readValue_brace, if_neg (by omega),
      Nat.add_sub_cancel]
    exact readFields_listText (fun s hs => (hfields s hs).mono (WritesField.mono hi)) hg
      (by omega) rest

/-- The text of a value is read as the value at more levels than it has. -/
theorem Writes.isRead (h : Writes n v bytes) (hl : n < levels) : IsRead levels v bytes := by
  obtain ⟨k, rfl⟩ := Nat.exists_eq_add_one_of_ne_zero (show levels ≠ 0 by omega)
  induction n generalizing v bytes k with
  | zero => exact WritesScalar.isRead h (k + 1)
  | succ n ih =>
    obtain ⟨j, rfl⟩ := Nat.exists_eq_add_one_of_ne_zero (show k ≠ 0 by omega)
    exact WritesNested.isRead (Nat.succ_ne_zero j) (fun h => ih h j (by omega)) h

end SettingsScan.Json
