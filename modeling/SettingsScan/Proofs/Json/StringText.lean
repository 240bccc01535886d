import SettingsScan.Proofs.Json.Numeral
import SettingsScan.Proofs.Text.Utf16
import SettingsScan.Proofs.Text.Utf8

/-! # Strings are read to their closing quote

A string that has been read stays the same whatever follows, and a text is read from every way to
write it.
-/

namespace SettingsScan.Json

variable {bytes rest more content gap key : Bytes} {fuel fuel' unit : Nat} {c : Char}
  {t : Text} {b : UInt8}

/-! ### Blanks -/

theorem skipBlanks_blank (h : Blank gap) (bytes : Bytes) :
    skipBlanks (gap ++ bytes) = skipBlanks bytes :=
  List.dropWhile_append_of_pos h

theorem skipBlanks_cons (hb : isBlankByte b = false) : skipBlanks (b :: bytes) = b :: bytes := by
  simp [skipBlanks, hb]

theorem skipBlanks_append (h : skipBlanks bytes = b :: rest) :
    skipBlanks (bytes ++ more) = b :: (rest ++ more) := by
  rw [skipBlanks, List.dropWhile_append]
  simp only [skipBlanks] at h
  simp [h]

/-! ### What has been read stays -/

theorem readUnit_append (h : readUnit bytes = .ok (unit, rest)) :
    readUnit (bytes ++ more) = .ok (unit, rest ++ more) := by
  unfold readUnit at h
  split at h
  · split at h
    · rename_i ha hb hc hd
      obtain ⟨rfl, rfl⟩ := Prod.mk.inj (Except.ok.inj h)
      simp only [List.cons_append, readUnit, ha, hb, hc, hd]
    · cases h
  · cases h

theorem readUnicode_append (h : readUnicode bytes = .ok (c, rest)) :
    readUnicode (bytes ++ more) = .ok (c, rest ++ more) := by
  unfold readUnicode at h ⊢
  split at h
  · cases h
  · rename_i u r hu
    rw [readUnit_append hu]
    dsimp only
    split at h
    · cases h
    · rename_i hl
      rw [if_neg hl]
      split at h
      · rename_i hh
        rw [if_pos hh]
        split at h
        · cases h
        · split at h <;> cases h
        · rename_i a b r
          rw [List.cons_append, List.cons_append]
          dsimp only
          split at h
          · rename_i hab
            rw [if_pos hab]
            split at h
            · cases h
            · rename_i v r' hv
              rw [readUnit_append hv]
              dsimp only
              split at h
              · rename_i hlow
                rw [if_pos hlow]
                obtain ⟨rfl, rfl⟩ := Prod.mk.inj (Except.ok.inj h)
                rfl
              · cases h
          · cases h
      · rename_i hh
        rw [if_neg hh]
        obtain ⟨rfl, rfl⟩ := Prod.mk.inj (Except.ok.inj h)
        rfl

theorem readEscape_append (h : readEscape bytes = .ok (c, rest)) :
    readEscape (bytes ++ more) = .ok (c, rest ++ more) := by
  cases bytes with
  | nil => cases h
  | cons b bytes =>
    simp only [readEscape, List.cons_append] at h ⊢
    by_cases hu : b = 0x75
    · subst hu
      exact readUnicode_append h
    · rw [if_neg hu] at h ⊢
      repeat' split at h
      all_goals cases h
      all_goals simp_all

theorem readStringBytes_append (hf : fuel ≤ fuel')
    (h : readStringBytes fuel bytes = .ok (content, rest)) :
    readStringBytes fuel' (bytes ++ more) = .ok (content, rest ++ more) := by
  induction fuel generalizing fuel' bytes content with
  | zero => cases h
  | succ n ih =>
    obtain ⟨n', rfl⟩ := Nat.exists_eq_add_one_of_ne_zero (show fuel' ≠ 0 by omega)
    have ih {bytes content} (h : readStringBytes n bytes = .ok (content, rest)) :
        readStringBytes n' (bytes ++ more) = .ok (content, rest ++ more) := ih (by omega) h
    cases bytes with
    | nil => cases h
    | cons b bytes =>
      simp only [readStringBytes, List.cons_append] at h ⊢
      split at h
      · rename_i hb
        cases h
        rw [if_pos hb]
      · rename_i hq
        rw [if_neg hq]
        split at h
        · rename_i hb
          rw [if_pos hb]
          split at h
          · cases h
          · rename_i he
            split at h
            · cases h
            · rename_i hs
              cases h
              rw [readEscape_append he]
              dsimp only
              rw [ih hs]
        · rename_i hb
          rw [if_neg hb]
          split at h
          · cases h
          · rename_i hl
            rw [if_neg hl]
            split at h
            · cases h
            · rename_i hs
              cases h
              rw [ih hs]

theorem readString_append (hf : fuel ≤ fuel') (h : readString fuel bytes = .ok (t, rest)) :
    readString fuel' (bytes ++ more) = .ok (t, rest ++ more) := by
  unfold readString at h ⊢
  split at h
  · cases h
  · rename_i hs
    rw [readStringBytes_append hf hs]
    dsimp only
    split at h
    · cases h
      rfl
    · cases h

theorem readKey_append (hf : fuel ≤ fuel') (h : readKey fuel bytes = .ok (t, rest)) :
    readKey fuel' (bytes ++ more) = .ok (t, rest ++ more) := by
  unfold readKey at h ⊢
  split at h
  · cases h
  · rename_i hs
    rw [readString_append hf hs]
    dsimp only
    split at h
    · cases h
    · rename_i hb
      cases h
      rw [skipBlanks_append hb]
      rfl
    · cases h

/-! ### What is written is read -/

theorem WritesUnit.readUnit (h : WritesUnit unit bytes) (more : Bytes) :
    readUnit (bytes ++ more) = .ok (unit, more) := by
  cases h with
  | digits ha hb hc hd =>
    simp only [List.cons_append, List.nil_append, Json.readUnit, ha, hb, hc, hd]

theorem readUnicode_unit (h : WritesUnit c.toNat bytes) (more : Bytes) :
    readUnicode (bytes ++ more) = .ok (c, more) := by
  rw [readUnicode, h.readUnit]
  dsimp only
  rw [if_neg (by simp [Encoding.isLowSurrogate_toNat]),
    if_neg (by simp [Encoding.isHighSurrogate_toNat]), Char.ofNat_toNat]

theorem readUnicode_pair {high low : Nat} {digits digits' : Bytes} (h : WritesUnit high digits)
    (h' : WritesUnit low digits') (hh : Encoding.isHighSurrogate high)
    (hl : Encoding.isLowSurrogate low)
    (hc : c.toNat = 0x10000 + (high - 0xD800) * 0x400 + (low - 0xDC00)) (more : Bytes) :
    readUnicode (digits ++ 0x5C :: 0x75 :: (digits' ++ more)) = .ok (c, more) := by
  have hn := Encoding.isLowSurrogate_of_isHighSurrogate hh
  rw [readUnicode, h.readUnit]
  dsimp only
  rw [if_neg (by simp [hn]), if_pos hh, if_pos ⟨rfl, rfl⟩, h'.readUnit]
  dsimp only
  rw [if_pos hl, Encoding.ofSurrogates, ← hc, Char.ofNat_toNat]

theorem readEscape_short (h : (c, b) ∈ shortEscapes) (more : Bytes) :
    readEscape (b :: more) = .ok (c, more) := by
  simp only [shortEscapes, List.mem_cons, Prod.mk.injEq, List.not_mem_nil, or_false] at h
  rcases h with ⟨rfl, rfl⟩ | ⟨rfl, rfl⟩ | ⟨rfl, rfl⟩ | ⟨rfl, rfl⟩ | ⟨rfl, rfl⟩ | ⟨rfl, rfl⟩ |
    ⟨rfl, rfl⟩ | ⟨rfl, rfl⟩ <;> rfl

theorem readStringBytes_escape (he : readEscape bytes = .ok (c, rest))
    (h : readStringBytes fuel rest = .ok (content, more)) :
    readStringBytes (fuel + 1) (0x5C :: bytes) =
      .ok (String.utf8EncodeChar c ++ content, more) := by
  simp [readStringBytes, he, h]

theorem readStringBytes_plain {plain : Bytes}
    (hp : ∀ b ∈ plain, b ≠ 0x22 ∧ b ≠ 0x5C ∧ ¬b < 0x20)
    (h : readStringBytes fuel bytes = .ok (content, rest)) :
    readStringBytes (plain.length + fuel) (plain ++ bytes) = .ok (plain ++ content, rest) := by
  induction plain with
  | nil => simpa using h
  | cons b plain ih =>
    obtain ⟨hq, hs, hc⟩ := hp b List.mem_cons_self
    have ih := ih fun c hc => hp c (List.mem_cons_of_mem b hc)
    rw [List.length_cons, Nat.add_right_comm, List.cons_append, readStringBytes, if_neg hq,
      if_neg hs, if_neg hc, ih]
    rfl

theorem WritesChar.readStringBytes {written : Bytes} (hw : WritesChar c written)
    (h : readStringBytes fuel bytes = .ok (content, rest)) :
    readStringBytes (written.length + fuel) (written ++ bytes) =
      .ok (String.utf8EncodeChar c ++ content, rest) := by
  have hlong {n : Nat} (hn : fuel + 1 ≤ n) {escape : Bytes}
      (he : readEscape (escape ++ bytes) = .ok (c, bytes)) :
      Json.readStringBytes n (0x5C :: escape ++ bytes) =
        .ok (String.utf8EncodeChar c ++ content, rest) := by
    have h : Json.readStringBytes n (0x5C :: (escape ++ bytes) ++ []) = _ :=
      readStringBytes_append hn (readStringBytes_escape he h)
    rwa [List.append_nil, List.append_nil] at h
  cases hw with
  | plain hq hs hl =>
    refine readStringBytes_plain (fun b hb => ?_) h
    have hb := Encoding.mem_utf8EncodeChar hb
    have hq : c.toNat ≠ 0x22 := fun h => hq (Char.toNat_inj.mp h)
    have hs : c.toNat ≠ 0x5C := fun h => hs (Char.toNat_inj.mp h)
    simp only [ne_eq, ← UInt8.toNat_inj, UInt8.lt_iff_toNat_lt, UInt8.reduceToNat]
    omega
  | short hm => exact hlong (by simp only [List.length_cons]; omega) (readEscape_short hm bytes)
  | unit hu => exact hlong (by simp only [List.length_cons]; omega) (readUnicode_unit hu bytes)
  | pair hu hv hh hl hc =>
    refine hlong (by simp only [List.length_cons]; omega) ?_
    have := readUnicode_pair hu hv hh hl hc bytes
    simpa [readEscape] using this

theorem WritesText.readStringBytes (hw : WritesText t bytes) (hf : bytes.length < fuel) :
    readStringBytes fuel (bytes ++ 0x22 :: rest) = .ok (Encoding.utf8 t, rest) := by
  induction hw generalizing fuel with
  | nil =>
    obtain ⟨n, rfl⟩ := Nat.exists_eq_add_one_of_ne_zero (show fuel ≠ 0 by omega)
    rfl
  | @cons c t written more hc _ ih =>
    rw [List.length_append] at hf
    have := hc.readStringBytes (ih (show more.length < fuel - written.length by omega))
    rw [Nat.add_sub_cancel' (by omega)] at this
    rw [List.append_assoc, this, Encoding.utf8_cons]

theorem WritesText.readString (hw : WritesText t bytes) (hf : bytes.length < fuel) :
    readString fuel (bytes ++ 0x22 :: rest) = .ok (t, rest) := by
  rw [Json.readString, hw.readStringBytes hf]
  dsimp only
  rw [Encoding.ofUtf8?_utf8]

theorem WritesText.readKey (hw : WritesText t key) (hg : Blank gap) (hf : key.length < fuel) :
    readKey fuel (key ++ 0x22 :: (gap ++ 0x3A :: rest)) = .ok (t, rest) := by
  rw [Json.readKey, hw.readString hf]
  dsimp only
  rw [skipBlanks_blank hg, skipBlanks_cons (by decide)]
  rfl

end SettingsScan.Json
