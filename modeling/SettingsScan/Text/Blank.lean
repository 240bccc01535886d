/-! # Text and blank characters

A text is a list of characters. Blank characters are those with the Unicode property
`White_Space`; trimming and splitting into words go by them.
-/

namespace SettingsScan

abbrev Text := List Char

instance : Coe String Text := ⟨String.toList⟩

/-- The ranges of code points with the property `White_Space`. -/
def blankRanges : List (Nat × Nat) :=
  [(0x09, 0x0D), (0x20, 0x20), (0x85, 0x85), (0xA0, 0xA0), (0x1680, 0x1680),
   (0x2000, 0x200A), (0x2028, 0x2029), (0x202F, 0x202F), (0x205F, 0x205F), (0x3000, 0x3000)]

def isBlank (c : Char) : Bool :=
  blankRanges.any fun (low, high) => low ≤ c.toNat && c.toNat ≤ high

/-- The blank characters of ASCII: tab, line feed, vertical tab, form feed, return and space. -/
def isAsciiBlank (c : Char) : Bool :=
  c = ' ' || ('\t' ≤ c && c ≤ '\r')

theorem isBlank_of_isAsciiBlank {c : Char} (h : isAsciiBlank c = true) : isBlank c = true := by
  simp only [isAsciiBlank, Bool.or_eq_true, decide_eq_true_eq, Bool.and_eq_true] at h
  rcases h with rfl | ⟨h₁, h₂⟩
  · decide
  · have h₁ : 9 ≤ c.toNat := h₁
    have h₂ : c.toNat ≤ 13 := h₂
    simp [isBlank, blankRanges, h₁, h₂]

namespace Text

/-- The length in bytes of the UTF-8 form. -/
def byteSize : Text → Nat
  | [] => 0
  | c :: t => c.utf8Size + byteSize t

def trimStart (t : Text) : Text :=
  t.dropWhile isBlank

def trimEnd (t : Text) : Text :=
  (t.reverse.dropWhile isBlank).reverse

def trim (t : Text) : Text :=
  trimEnd (trimStart t)

/-- The part up to the first blank character. -/
def firstWord (t : Text) : Text :=
  t.takeWhile (!isBlank ·)

/-- Cuts at the first character with the property, which belongs to neither part. -/
def cut? (p : Char → Bool) (t : Text) : Option (Text × Text) :=
  match t.dropWhile (!p ·) with
  | [] => none
  | _ :: rest => some (t.takeWhile (!p ·), rest)

/-- Cuts at the last character with the property. -/
def cutLast? (p : Char → Bool) (t : Text) : Option (Text × Text) :=
  (cut? p t.reverse).map fun (last, first) => (first.reverse, last.reverse)

/-- Splits into the pieces between the characters with the property. -/
def pieces (p : Char → Bool) : Text → List Text
  | [] => [[]]
  | c :: t =>
    if p c then [] :: pieces p t
    else match pieces p t with
      | [] => [[c]]
      | piece :: more => (c :: piece) :: more

/-- The words between blank characters. -/
def words (t : Text) : List Text :=
  (pieces isBlank t).filter (· ≠ [])

/-- What follows the given start, if the text has it. -/
def strip? (start t : Text) : Option Text :=
  if start.isPrefixOf t then some (t.drop start.length) else none

/-- Replaces every occurrence, from the left and without overlap, by one character. -/
def replacePair (first second by_ : Char) : Text → Text
  | a :: b :: t =>
    if a = first ∧ b = second then by_ :: replacePair first second by_ t
    else a :: replacePair first second by_ (b :: t)
  | t => t

def joinWith (separator : Text) : List Text → Text
  | [] => []
  | [t] => t
  | t :: more => t ++ separator ++ joinWith separator more

@[simp] theorem trimStart_nil : trimStart [] = [] := rfl

theorem byteSize_append (s t : Text) : byteSize (s ++ t) = byteSize s + byteSize t := by
  induction s with
  | nil => simp [byteSize]
  | cons c s ih => simp [byteSize, ih, Nat.add_assoc]

theorem firstWord_append_dropWhile (t : Text) :
    firstWord t ++ t.dropWhile (!isBlank ·) = t :=
  List.takeWhile_append_dropWhile

end Text

end SettingsScan
