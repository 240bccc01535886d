import SettingsScan.Json.Printer
import SettingsScan.Proofs.Json.ArrayText

/-! # Printed values are read back

A value printed over several lines is JSON, and reading it gives the value, if its numbers are
naturals of 64 bits and the names in each of its objects are distinct.
-/

namespace SettingsScan.Json

open Encoding (utf8 utf8_append utf8_ascii)

/-! ### Strings -/

theorem hexByteValue?_hexDigit {k : Nat} (h : k < 16) :
    ∃ b, utf8 [hexDigit k] = [b] ∧ hexByteValue? b = some k := by
  have hall : ∀ k < 16, utf8 [hexDigit k] = [UInt8.ofNat (hexDigit k).toNat] ∧
      hexByteValue? (UInt8.ofNat (hexDigit k).toNat) = some k := by
    decide +kernel
  exact ⟨_, hall k h⟩

theorem writesUnit_hexDigit {n : Nat} (h : n < 32) :
    WritesUnit n (utf8 ['0', '0', hexDigit (n / 16), hexDigit (n % 16)]) := by
  obtain ⟨high, hhigh, hi⟩ := hexByteValue?_hexDigit (show n / 16 < 16 by omega)
  obtain ⟨low, hlow, hj⟩ := hexByteValue?_hexDigit (show n % 16 < 16 by omega)
  have hunit : WritesUnit (((0 * 16 + 0) * 16 + n / 16) * 16 + n % 16) [0x30, 0x30, high, low] :=
    .digits (by decide) (by decide) hi hj
  have hbytes : utf8 (['0', '0'] ++ [hexDigit (n / 16)] ++ [hexDigit (n % 16)]) =
      [0x30, 0x30, high, low] := by
    rw [utf8_append, utf8_append, hhigh, hlow]
    rfl
  have hn : ((0 * 16 + 0) * 16 + n / 16) * 16 + n % 16 = n := by omega
  rw [hn, ← hbytes] at hunit
  exact hunit

theorem writesChar_escapeChar (c : Char) : WritesChar c (utf8 (escapeChar c)) := by
  have hshort {d letter : Char} (hc : c = d) (hl : letter.toNat < 0x80)
      (h : (d, UInt8.ofNat letter.toNat) ∈ shortEscapes) : WritesChar c (utf8 ['\\', letter]) := by
    change WritesChar c (0x5C :: utf8 [letter])
    rw [utf8_ascii hl, hc]
    exact .short h
  have hcontrol {d : Char} (h : c.toNat = d.toNat) : c = d := Char.toNat_inj.mp h
  unfold escapeChar
  split
  · next h => exact hshort h (by decide) (by decide)
  split
  · next h => exact hshort h (by decide) (by decide)
  split
  · next h => exact hshort h (by decide) (by decide)
  split
  · next h => exact hshort h (by decide) (by decide)
  split
  · next h => exact hshort h (by decide) (by decide)
  split
  · next h => exact hshort (hcontrol (d := '\x08') h) (by decide) (by decide)
  split
  · next h => exact hshort (hcontrol (d := '\x0C') h) (by decide) (by decide)
  split
  · next h => exact .unit (writesUnit_hexDigit h)
  · next hquote hslash _ _ _ _ _ h =>
    have hplain : WritesChar c (String.utf8EncodeChar c) :=
      .plain hquote hslash (Nat.le_of_not_lt h)
    rwa [← List.append_nil (String.utf8EncodeChar c)] at hplain

theorem writesText_escaped (t : Text) : WritesText t (utf8 (t.flatMap escapeChar)) := by
  induction t with
  | nil => exact .nil
  | cons c t ih =>
    rw [List.flatMap_cons, utf8_append]
    exact .cons (writesChar_escapeChar c) ih

theorem utf8_quote (t : Text) :
    utf8 (quote t) = 0x22 :: (utf8 (t.flatMap escapeChar) ++ [0x22]) := by
  change [0x22] ++ utf8 (t.flatMap escapeChar ++ ['"']) = _
  rw [utf8_append]
  rfl

/-! ### Numbers -/

theorem utf8_digit {c : Char} (h : c.isDigit) :
    ∃ b, (∀ t, utf8 (c :: t) = b :: utf8 t) ∧ isDigitByte b ∧
      digitValue b = c.toNat - '0'.toNat ∧ (b = 0x30 → c = '0') := by
  simp only [Char.isDigit, Bool.and_eq_true, decide_eq_true_eq] at h
  have hl : 48 ≤ c.toNat := h.1
  have hh : c.toNat ≤ 57 := h.2
  have hb := Encoding.toNat_ofNat (show c.toNat < 256 by omega)
  refine ⟨UInt8.ofNat c.toNat, fun t => ?_, ?_, ?_, fun h => Char.toNat_inj.mp ?_⟩
  · rw [← List.singleton_append, utf8_append, utf8_ascii (by omega), List.singleton_append]
  · simp only [isDigitByte, UInt8.le_iff_toNat_le, hb, UInt8.reduceToNat, Bool.and_eq_true,
      decide_eq_true_eq]
    exact ⟨hl, hh⟩
  · rw [digitValue, hb]
    rfl
  · rw [← hb, h]
    rfl

theorem le_ofDigitChars (t : Text) (value : Nat) : value ≤ Nat.ofDigitChars 10 t value := by
  induction t generalizing value with
  | nil => exact Nat.le_refl _
  | cons c t ih =>
    rw [Nat.ofDigitChars_cons]
    exact Nat.le_trans (by omega) (ih _)

theorem takeDigits_utf8 {t : Text} (ht : ∀ c ∈ t, c.isDigit) {limit value : Nat} (count : Nat)
    (h : Nat.ofDigitChars 10 t value ≤ limit) :
    takeDigits limit value count (utf8 t) =
      (Nat.ofDigitChars 10 t value, count + t.length, []) := by
  induction t generalizing value count with
  | nil => rfl
  | cons c t ih =>
    obtain ⟨hc, ht⟩ := List.forall_mem_cons.mp ht
    obtain ⟨b, hb, hdigit, hvalue, -⟩ := utf8_digit hc
    rw [Nat.ofDigitChars_cons] at h ⊢
    have hfits : value * 10 + digitValue b ≤ limit := by
      rw [hvalue, Nat.mul_comm]
      exact Nat.le_trans (le_ofDigitChars t _) h
    rw [hb, takeDigits, if_pos ⟨hdigit, hfits⟩, hvalue, Nat.mul_comm, ih ht _ h,
      List.length_cons, Nat.add_assoc, Nat.add_comm 1]

def Numeral.ofNat (n : Nat) : Numeral :=
  { whole := utf8 (Decimal.digits n) }

theorem isDigit_digits (n : Nat) : ∀ c ∈ Decimal.digits n, c.isDigit := fun _ hc =>
  Nat.isDigit_of_mem_toDigits (by decide) (by decide) hc

theorem head?_digits {n : Nat} (hn : 0 < n) : (Decimal.digits n).head? ≠ some '0' := by
  induction n using Nat.strongRecOn with
  | _ n ih =>
    rw [Decimal.digits]
    by_cases h : n < 10
    · rw [Nat.toDigits_of_lt_base h, List.head?_cons, ne_eq, Option.some.injEq,
        Nat.digitChar_eq_zero]
      omega
    · rw [Nat.toDigits_of_base_le (by decide) (by omega),
        List.head?_append_of_ne_nil _ Nat.toDigits_ne_nil]
      exact ih (n / 10) (by omega) (by omega)

theorem Numeral.wellFormed_ofNat (n : Nat) : (Numeral.ofNat n).WellFormed := by
  obtain ⟨c, t, hct⟩ := List.exists_cons_of_ne_nil (Nat.toDigits_ne_nil (n := n) (b := 10))
  have hct : Decimal.digits n = c :: t := hct
  have hdigits := isDigit_digits n
  obtain ⟨b, hb, -, -, hzero⟩ := utf8_digit (hdigits c (hct ▸ List.mem_cons_self))
  have hwhole : (Numeral.ofNat n).whole = b :: utf8 t := by
    rw [Numeral.ofNat, hct, hb]
  refine ⟨⟨?_, ?_⟩, ?_, nofun, nofun⟩
  · rw [hwhole]
    exact List.cons_ne_nil _ _
  · intro d hd
    obtain ⟨e, he, hd⟩ := List.mem_flatMap.mp hd
    obtain ⟨b, hb, hdigit, -, -⟩ := utf8_digit (hdigits e he)
    have hbytes : utf8 [e] = [b] := hb []
    rw [utf8, List.flatMap_singleton] at hbytes
    rw [hbytes, List.mem_singleton] at hd
    rwa [hd]
  · intro h
    rw [hwhole, List.head?_cons, Option.some.injEq] at h
    rcases Nat.eq_zero_or_pos n with rfl | hn
    · rfl
    · have := head?_digits hn
      rw [hct, hzero h] at this
      exact absurd rfl this

theorem Numeral.number_ofNat {n : Nat} (h : n ≤ naturalLimit) :
    (Numeral.ofNat n).number = .ok (.natural n) := by
  have hn : Nat.ofDigitChars 10 (Decimal.digits n) 0 = n := Nat.ofDigitChars_ten_toDigits
  have htaken := takeDigits_utf8 (isDigit_digits n) 0 (hn.symm ▸ h)
  rw [hn] at htaken
  exact (number_eq htaken rfl).trans (if_pos ⟨rfl, rfl, rfl⟩)

/-! ### Lists -/

theorem blank_newline (level : Nat) : Blank (utf8 (newline level)) := by
  intro b hb
  obtain ⟨c, hc, hb⟩ := List.mem_flatMap.mp hb
  have hc : c = '\n' ∨ c = ' ' :=
    (List.mem_cons.mp hc).imp_right List.eq_of_mem_replicate
  rcases hc with rfl | rfl <;> rw [List.mem_singleton.mp hb] <;> rfl

variable {α : Type} {write : α → Text} {level n : Nat} {v : Value}

/-- The parts of a list as they are printed: each on a line of its own, and the last one in front
of the line of the closing bracket. -/
def laidOut (write : α → Text) (level : Nat) : List α → List (Spaced α)
  | [] => []
  | [a] =>
    [{ before := utf8 (newline (level + 1)), item := a, text := utf8 (write a)
       after := utf8 (newline level) }]
  | a :: more =>
    { before := utf8 (newline (level + 1)), item := a, text := utf8 (write a) } ::
      laidOut write level more

theorem map_item_laidOut (write : α → Text) (level : Nat) (parts : List α) :
    (laidOut write level parts).map (·.item) = parts := by
  induction parts using laidOut.induct with
  | case1 => rfl
  | case2 a => rfl
  | case3 a more hmore ih => rw [laidOut, List.map_cons, ih]; exact hmore

theorem fits_laidOut {part : α → Bytes → Prop} {parts : List α}
    (h : ∀ a ∈ parts, part a (utf8 (write a))) :
    ∀ s ∈ laidOut write level parts, s.Fits part := by
  induction parts using laidOut.induct with
  | case1 => exact List.forall_mem_nil _
  | case2 a =>
    exact List.forall_mem_singleton.mpr
      ⟨blank_newline _, h a List.mem_cons_self, blank_newline _⟩
  | case3 a more hmore ih =>
    obtain ⟨hpart, h⟩ := List.forall_mem_cons.mp h
    rw [laidOut]
    · exact List.forall_mem_cons.mpr ⟨⟨blank_newline _, hpart, List.forall_mem_nil _⟩, ih h⟩
    · exact hmore

theorem listText_laidOut (write : α → Text) (level : Nat) (a : α) (more : List α) :
    listText [] (laidOut write level (a :: more)) =
      utf8 (newline (level + 1) ++
        Text.joinWith (',' :: newline (level + 1)) ((a :: more).map write) ++ newline level) := by
  induction more generalizing a with
  | nil => simp [laidOut, listText, furtherText, Spaced.bytes, Text.joinWith, utf8_append]
  | cons b more ih =>
    have hfurther : furtherText (laidOut write level (b :: more)) =
        utf8 [','] ++ listText [] (laidOut write level (b :: more)) := by
      cases more <;> rfl
    have hjoin : Text.joinWith (',' :: newline (level + 1)) ((a :: b :: more).map write) =
        write a ++ ([','] ++ newline (level + 1)) ++
          Text.joinWith (',' :: newline (level + 1)) ((b :: more).map write) := rfl
    change Spaced.bytes { before := _, item := a, text := utf8 (write a) } ++ furtherText _ = _
    rw [hfurther, ih, hjoin, Spaced.bytes]
    simp only [utf8_append, List.append_nil, List.append_assoc]

theorem utf8_bracketed (opening closing : Char) (level : Nat) (parts : List α) :
    utf8 (bracketed opening closing level (parts.map write)) =
      utf8 [opening] ++ (listText [] (laidOut write level parts) ++ utf8 [closing]) := by
  cases parts with
  | nil => exact utf8_append [opening] [closing]
  | cons a more =>
    rw [listText_laidOut, ← utf8_append, ← utf8_append]
    simp [bracketed]

/-! ### Values -/

theorem prettyItems_eq_map (level : Nat) (items : List Value) :
    prettyItems level items = items.map (·.prettyAt level) := by
  induction items with
  | nil => rfl
  | cons v items ih => rw [prettyItems, ih, List.map_cons]

def fieldText (level : Nat) (f : Text × Value) : Text :=
  quote f.1 ++ ": ".toList ++ f.2.prettyAt level

theorem prettyFields_eq_map (level : Nat) (fields : List (Text × Value)) :
    prettyFields level fields = fields.map (fieldText level) := by
  induction fields with
  | nil => rfl
  | cons f fields ih => rw [prettyFields, ih, List.map_cons, fieldText]

theorem writesField_fieldText {inner : Value → Bytes → Prop} {f : Text × Value}
    (h : inner f.2 (utf8 (f.2.prettyAt level))) :
    WritesField inner f (utf8 (fieldText level f)) := by
  have hgap : Blank [0x20] := by simp [Blank, isBlankByte]
  have hfield := WritesField.mk (writesText_escaped f.1) (List.forall_mem_nil _) hgap h
  have htext : utf8 (fieldText level f) =
      0x22 :: (utf8 (f.1.flatMap escapeChar) ++ 0x22 :: ([] ++ 0x3A ::
        ([0x20] ++ utf8 (f.2.prettyAt level)))) := by
    rw [fieldText, utf8_append, utf8_append, utf8_quote, List.cons_append, List.append_assoc,
      List.cons_append, List.append_assoc]
    rfl
  rwa [htext]

theorem foldl_putField {fields : List (Text × Value)} (h : (fields.map (·.1)).Nodup)
    {held : List (Text × Value)} (hheld : ∀ g ∈ held, g.1 ∉ fields.map (·.1)) :
    fields.foldl (fun held f => putField held f.1 f.2) held = held ++ fields := by
  induction fields generalizing held with
  | nil => simp
  | cons f fields ih =>
    obtain ⟨hf, h⟩ := List.nodup_cons.mp h
    have hnew : held.any (·.1 = f.1) = false := by
      simp only [List.any_eq_false, decide_eq_true_eq]
      intro g hg heq
      exact hheld g hg (heq ▸ List.mem_cons_self)
    have hmore : ∀ g ∈ held ++ [f], g.1 ∉ fields.map (·.1) := by
      intro g hg
      rcases List.mem_append.mp hg with hg | hg
      · exact fun hmem => hheld g hg (List.mem_cons_of_mem _ hmem)
      · rwa [List.mem_singleton.mp hg]
    rw [List.foldl_cons, putField, hnew, if_neg Bool.false_ne_true, ih h hmore, List.append_assoc]
    rfl

theorem objectOf_of_nodup {fields : List (Text × Value)} (h : (fields.map (·.1)).Nodup) :
    objectOf fields = .object fields := by
  rw [objectOf, foldl_putField h (List.forall_mem_nil _), List.nil_append]

inductive Value.IsFlat : Value → Prop
  | null : IsFlat .null
  | bool (b : Bool) : IsFlat (.bool b)
  | natural {n : Nat} : n ≤ naturalLimit → IsFlat (.number (.natural n))
  | string (t : Text) : IsFlat (.string t)

inductive Value.IsNested (inner : Value → Prop) : Value → Prop
  | flat {v : Value} : v.IsFlat → IsNested inner v
  | array {items : List Value} : (∀ v ∈ items, inner v) → IsNested inner (.array items)
  | object {fields : List (Text × Value)} : (fields.map (·.1)).Nodup → (∀ f ∈ fields, inner f.2) →
      IsNested inner (.object fields)

/-- Values of so many levels at most, of naturals of 64 bits and with distinct names. -/
def Value.IsPrintable : Nat → Value → Prop
  | 0 => IsFlat
  | n + 1 => IsNested (IsPrintable n)

theorem Value.IsPrintable.succ (h : v.IsPrintable n) : v.IsPrintable (n + 1) := by
  induction n generalizing v with
  | zero => exact .flat h
  | succ n ih =>
    cases h with
    | flat h => exact .flat h
    | array h => exact .array fun v hv => ih (h v hv)
    | object hnames h => exact .object hnames fun f hf => ih (h f hf)

theorem Value.IsFlat.writes (h : v.IsFlat) (level : Nat) :
    WritesScalar v (utf8 (v.prettyAt level)) := by
  cases h with
  | null => exact .null
  | bool b => cases b with
    | true => exact .true
    | false => exact .false
  | @natural n h =>
    have hbytes : (Numeral.ofNat n).bytes = utf8 (Decimal.digits n) :=
      (List.append_nil _).trans (List.append_nil _)
    have hnumber := WritesScalar.number (Numeral.wellFormed_ofNat n) (Numeral.number_ofNat h)
    rwa [hbytes] at hnumber
  | string t =>
    rw [prettyAt, utf8_quote]
    exact .string (writesText_escaped t)

/-- What is printed is a text of the value. -/
theorem Value.IsPrintable.writes (h : v.IsPrintable n) (level : Nat) :
    Writes n v (utf8 (v.prettyAt level)) := by
  induction n generalizing v level with
  | zero => exact IsFlat.writes h level
  | succ n ih =>
    cases h with
    | flat h => exact .scalar (h.writes level)
    | @array items h =>
      have hgap : Blank [] := List.forall_mem_nil _
      have hfits : ∀ s ∈ laidOut (·.prettyAt (level + 1)) level items, s.Fits (Writes n) :=
        fits_laidOut fun v hv => ih (h v hv) (level + 1)
      have hwrites := WritesNested.array hgap hfits
      rw [map_item_laidOut] at hwrites
      rwa [prettyAt, prettyItems_eq_map, utf8_bracketed]
    | @object fields hnames h =>
      have hgap : Blank [] := List.forall_mem_nil _
      have hfits : ∀ s ∈ laidOut (fieldText (level + 1)) level fields,
          s.Fits (WritesField (Writes n)) :=
        fits_laidOut fun f hf => writesField_fieldText (ih (h f hf) (level + 1))
      have hwrites := WritesNested.object hgap hfits
      rw [map_item_laidOut, objectOf_of_nodup hnames] at hwrites
      rwa [prettyAt, prettyFields_eq_map, utf8_bracketed]

theorem Value.IsPrintable.ofWhole?_pretty (h : v.IsPrintable n) (hn : n < nestingLimit)
    {gap : Bytes} (hg : Blank gap) : Value.ofWhole? (utf8 v.pretty ++ gap) = .ok v := by
  have hends : EndsNumeral gap := by
    rw [← List.append_nil gap]
    exact hg.endsNumeral rfl
  have hread := ofBytes?_append ((h.writes 0).isRead hn) fun _ => hends
  have hrest : skipBlanks gap = [] := List.dropWhile_eq_nil_iff.mpr hg
  rw [Value.ofWhole?, pretty, hread]
  dsimp only
  rw [hrest]
  rfl

end SettingsScan.Json
