import SettingsScan.Json.Stream

/-! # What a reader leaves

Each reader gives back the end of the bytes that it was given. So the elements of an array have been
read up to its closing bracket when they have come without a failure, and what follows the bracket
is left.
-/

namespace SettingsScan.Json

/-- What is left of the bytes, if anything is read, is their end. -/
def Leaves {α : Type} (bytes : Bytes) (r : Reading (α × Bytes)) : Prop :=
  ∀ a rest, r = .ok (a, rest) → rest <:+ bytes

variable {α β : Type} {bytes more rest : Bytes} {r : Reading (α × Bytes)} {b : UInt8}

namespace Leaves

theorem error (bytes : Bytes) (e : ReadError) : Leaves bytes (.error e : Reading (α × Bytes)) :=
  nofun

theorem ok (h : rest <:+ bytes) (a : α) : Leaves bytes (.ok (a, rest)) := by
  rintro _ _ ⟨⟩
  exact h

theorem trans (h : Leaves more r) (hs : more <:+ bytes) : Leaves bytes r :=
  fun a rest hr => (h a rest hr).trans hs

theorem cons (h : Leaves bytes r) (b : UInt8) : Leaves (b :: bytes) r :=
  h.trans (List.suffix_cons b bytes)

theorem ite {c : Prop} [Decidable c] {r r' : Reading (α × Bytes)} (h : Leaves bytes r)
    (h' : Leaves bytes r') : Leaves bytes (if c then r else r') := by
  split
  · exact h
  · exact h'

theorem map (h : Leaves bytes r) (f : α → β) :
    Leaves bytes (r.map fun (a, rest) => (f a, rest)) := by
  cases r with
  | error e => exact error bytes e
  | ok x => exact ok (h x.1 x.2 rfl) (f x.1)

end Leaves

theorem skipBlanks_suffix (bytes : Bytes) : skipBlanks bytes <:+ bytes :=
  List.dropWhile_suffix _

theorem suffix_of_skipBlanks (h : skipBlanks bytes = b :: rest) : rest <:+ bytes :=
  (List.suffix_cons b rest).trans (h ▸ skipBlanks_suffix bytes)

/-! ### Numbers -/

theorem takeDigits_suffix (limit value count : Nat) (bytes : Bytes) :
    (takeDigits limit value count bytes).2.2 <:+ bytes := by
  induction bytes generalizing value count with
  | nil => exact List.suffix_rfl
  | cons b bytes ih =>
    rw [takeDigits]
    split
    · exact (ih _ _).trans (List.suffix_cons b bytes)
    · exact List.suffix_rfl

theorem skipDigits_suffix (bytes : Bytes) : (skipDigits bytes).2 <:+ bytes :=
  List.dropWhile_suffix _

theorem leaves_floatOfParts (positive : Bool) (significand : Nat) (exponent : Int)
    (h : rest <:+ bytes) :
    Leaves bytes ((floatOfParts positive significand exponent).map (·, rest)) := by
  cases floatOfParts positive significand exponent with
  | error e => exact .error bytes e
  | ok n => exact .ok h n

theorem leaves_readExponent (positive : Bool) (significand : Nat) (exponent : Int)
    (bytes : Bytes) : Leaves bytes (readExponent positive significand exponent bytes) := by
  unfold readExponent
  split
  next raises digits hsign =>
    have hdigits : digits <:+ bytes := by
      split at hsign <;> cases hsign
      · exact List.suffix_cons _ _
      · exact List.suffix_cons _ _
      · exact List.suffix_rfl
    cases digits with
    | nil => exact .error bytes _
    | cons b digits =>
      have hrest := (takeDigits_suffix exponentLimit 0 0 (b :: digits)).trans hdigits
      refine .ite (.error bytes _) (.ite ?_ (leaves_floatOfParts _ _ _ hrest))
      exact .ite (.error bytes _) (.ok ((skipDigits_suffix _).trans hrest) _)

theorem leaves_readFloatEnd (positive : Bool) (significand : Nat) (exponent : Int)
    (bytes : Bytes) : Leaves bytes (readFloatEnd positive significand exponent bytes) := by
  unfold readFloatEnd
  split
  · exact (leaves_readExponent _ _ _ _).cons _
  · exact (leaves_readExponent _ _ _ _).cons _
  · exact leaves_floatOfParts _ _ _ List.suffix_rfl

theorem leaves_readFraction (positive : Bool) (significand : Nat) (exponent : Int)
    (bytes : Bytes) : Leaves bytes (readFraction positive significand exponent bytes) := by
  have hrest := takeDigits_suffix naturalLimit significand 0 bytes
  unfold readFraction
  dsimp only
  split
  · exact (leaves_readFloatEnd _ _ _ _).trans ((skipDigits_suffix _).trans hrest)
  · split
    · split <;> exact .error bytes _
    · exact (leaves_readFloatEnd _ _ _ _).trans hrest

theorem leaves_readNumberEnd (positive : Bool) (n : Nat) (bytes : Bytes) :
    Leaves bytes (readNumberEnd positive n bytes) := by
  unfold readNumberEnd
  split
  · exact (leaves_readFraction _ _ _ _).cons _
  · exact (leaves_readExponent _ _ _ _).cons _
  · exact (leaves_readExponent _ _ _ _).cons _
  · exact .ok List.suffix_rfl _

theorem leaves_readNumber (positive : Bool) (bytes : Bytes) :
    Leaves bytes (readNumber positive bytes) := by
  unfold readNumber
  split
  · exact .error _ _
  · split
    · exact .error _ _
    · exact (leaves_readNumberEnd _ _ _).cons _
  · next b more _ =>
    have hrest := takeDigits_suffix naturalLimit 0 0 (b :: more)
    dsimp only
    split
    · exact .error _ _
    · split
      · have hskip := (skipDigits_suffix _).trans hrest
        split
        · next h => exact ((leaves_readFraction _ _ _ _).cons _).trans (h ▸ hskip)
        · exact (leaves_readFloatEnd _ _ _ _).trans hskip
      · exact (leaves_readNumberEnd _ _ _).trans hrest

/-! ### Strings -/

theorem leaves_readLetters (letters : Bytes) (v : Value) (bytes : Bytes) :
    Leaves bytes (readLetters letters v bytes) := by
  induction letters generalizing bytes with
  | nil => exact .ok List.suffix_rfl v
  | cons a letters ih =>
    cases bytes with
    | nil => exact .error [] _
    | cons b bytes =>
      rw [readLetters]
      exact .ite ((ih bytes).cons b) (.error _ _)

theorem leaves_readUnit (bytes : Bytes) : Leaves bytes (readUnit bytes) := by
  unfold readUnit
  split
  · next a b c d rest =>
    split
    · exact .ok (List.suffix_append [a, b, c, d] rest) _
    · exact .error _ _
  · exact .error _ _

theorem leaves_readUnicode (bytes : Bytes) : Leaves bytes (readUnicode bytes) := by
  unfold readUnicode
  split
  · exact .error _ _
  · next u rest h =>
    have hrest := leaves_readUnit bytes u rest h
    split
    · exact .error _ _
    · split
      · split
        · exact .error _ _
        · split <;> exact .error _ _
        · next a b more =>
          split
          · split
            · exact .error _ _
            · next v rest hv =>
              split
              · exact .ok ((((leaves_readUnit more v rest hv).trans
                  (List.suffix_append [a, b] more))).trans hrest) _
              · exact .error _ _
          · exact .error _ _
      · exact .ok hrest _

theorem leaves_readEscape (bytes : Bytes) : Leaves bytes (readEscape bytes) := by
  unfold readEscape
  split
  · exact .error _ _
  · next b rest =>
    iterate 8 refine .ite (.ok (List.suffix_cons b rest) _) ?_
    exact .ite ((leaves_readUnicode rest).cons b) (.error _ _)

theorem leaves_readStringBytes (fuel : Nat) (bytes : Bytes) :
    Leaves bytes (readStringBytes fuel bytes) := by
  induction fuel generalizing bytes with
  | zero => exact .error _ _
  | succ fuel ih =>
    cases bytes with
    | nil => exact .error _ _
    | cons b bytes =>
      have hgo {more : Bytes} (hm : more <:+ bytes) {t rest : Bytes}
          (hr : readStringBytes fuel more = .ok (t, rest)) : rest <:+ b :: bytes :=
        ((ih more t rest hr).trans hm).trans (List.suffix_cons b bytes)
      rw [readStringBytes]
      split
      · exact .ok (List.suffix_cons b bytes) _
      · split
        · split
          · exact .error _ _
          · next c more hc =>
            split
            · exact .error _ _
            · next hr => exact .ok (hgo (leaves_readEscape bytes c more hc) hr) _
        · split
          · exact .error _ _
          · split
            · exact .error _ _
            · next hr => exact .ok (hgo List.suffix_rfl hr) _

theorem leaves_readString (fuel : Nat) (bytes : Bytes) :
    Leaves bytes (readString fuel bytes) := by
  unfold readString
  split
  · exact .error _ _
  · next content rest h =>
    split
    · exact .ok (leaves_readStringBytes fuel bytes content rest h) _
    · exact .error _ _

theorem leaves_readKey (fuel : Nat) (bytes : Bytes) : Leaves bytes (readKey fuel bytes) := by
  unfold readKey
  split
  · exact .error _ _
  · next name rest h =>
    have hrest := leaves_readString fuel bytes name rest h
    split
    · exact .error _ _
    · next hs => exact .ok ((suffix_of_skipBlanks hs).trans hrest) _
    · exact .error _ _

/-! ### Values -/

/-- Values, items and fields that are read with the fuel. -/
structure AllLeave (fuel : Nat) : Prop where
  value : ∀ levels bytes, Leaves bytes (readValue fuel levels bytes)
  items : ∀ levels first items bytes, Leaves bytes (readItems fuel levels first items bytes)
  fields : ∀ levels first fields bytes, Leaves bytes (readFields fuel levels first fields bytes)

section

variable {fuel : Nat} (h : AllLeave fuel)

include h

theorem AllLeave.readValue_succ (levels : Nat) (bytes : Bytes) :
    Leaves bytes (readValue (fuel + 1) levels bytes) := by
  rw [readValue]
  split
  · exact .error _ _
  · next b rest hs =>
    have hrest := suffix_of_skipBlanks hs
    iterate 3 refine .ite ((leaves_readLetters _ _ rest).trans hrest) ?_
    refine .ite (((leaves_readNumber false rest).map _).trans hrest) ?_
    refine .ite (((leaves_readNumber true (b :: rest)).map _).trans ?_) ?_
    · exact hs ▸ skipBlanks_suffix bytes
    refine .ite (((leaves_readString fuel rest).map _).trans hrest) ?_
    refine .ite (.ite (.error _ _) ((h.items _ _ _ rest).trans hrest)) ?_
    exact .ite (.ite (.error _ _) ((h.fields _ _ _ rest).trans hrest)) (.error _ _)

theorem AllLeave.readItems_succ (levels : Nat) (first : Bool) (items : List Value)
    (bytes : Bytes) : Leaves bytes (readItems (fuel + 1) levels first items bytes) := by
  rw [readItems]
  split
  · exact .error _ _
  · next b rest hs =>
    have hrest := suffix_of_skipBlanks hs
    have hitem {v : Value} {more left : Bytes} (hm : more <:+ bytes)
        (hv : readValue fuel levels more = .ok (v, left)) :
        Leaves bytes (readItems fuel levels false (v :: items) left) :=
      (h.items _ _ _ left).trans ((h.value _ _ v left hv).trans hm)
    refine .ite (.ok hrest _) (.ite ?_ (.ite (.ite (.error _ _) ?_) (.error _ _)))
    · split
      · exact .error _ _
      · next hv => exact hitem (hs ▸ skipBlanks_suffix bytes) hv
    · split
      · exact .error _ _
      · next hv => exact hitem hrest hv

theorem AllLeave.readFields_succ (levels : Nat) (first : Bool) (fields : List (Text × Value))
    (bytes : Bytes) : Leaves bytes (readFields (fuel + 1) levels first fields bytes) := by
  rw [readFields]
  split
  · exact .error _ _
  · next b rest hs =>
    have hrest := suffix_of_skipBlanks hs
    refine .ite (.ok hrest _) ?_
    dsimp only
    split
    · exact .error _ _
    · exact .error _ _
    · next c key hkey =>
      have hkey : key <:+ bytes := by
        refine (List.suffix_cons c key).trans ?_
        split at hkey
        · cases hkey
          exact hs ▸ skipBlanks_suffix bytes
        · split at hkey
          · rw [Except.ok.injEq] at hkey
            exact (hkey ▸ skipBlanks_suffix rest).trans hrest
          · cases hkey
      refine .ite (.error _ _) ?_
      split
      · exact .error _ _
      · next name more hn =>
        have hmore := (leaves_readKey fuel key name more hn).trans hkey
        split
        · exact .error _ _
        · next v left hv =>
          exact (h.fields _ _ _ left).trans ((h.value _ _ v left hv).trans hmore)

end

theorem allLeave (fuel : Nat) : AllLeave fuel := by
  induction fuel with
  | zero =>
    exact ⟨fun _ _ => by rw [readValue]; exact .error _ _,
      fun _ _ _ _ => by rw [readItems]; exact .error _ _,
      fun _ _ _ _ => by rw [readFields]; exact .error _ _⟩
  | succ fuel ih => exact ⟨ih.readValue_succ, ih.readItems_succ, ih.readFields_succ⟩

theorem leaves_ofBytes? (bytes : Bytes) : Leaves bytes (Value.ofBytes? bytes) :=
  (allLeave _).value _ bytes

/-! ### The elements of an array -/

theorem suffix_of_readElement {v : Value} (h : readElement bytes = .ok (v, rest)) :
    rest <:+ bytes := by
  unfold readElement at h
  split at h
  · cases h
  · next b more hs =>
    have hmore : b :: more <:+ bytes := hs ▸ skipBlanks_suffix bytes
    split at h
    · cases h
    · next w left hv =>
      have hleft := (leaves_ofBytes? (b :: more) w left hv).trans hmore
      split at h
      · cases h
        exact hleft
      · split at h
        · cases h
          exact List.nil_suffix
        · split at h
          · cases h
            exact (List.suffix_cons _ _).trans hleft
          · cases h

namespace Stream

variable {s s' : Stream} {v : Value} {values : List Value}

/-- The elements come one after the other without a failure, and behind the bracket that closes the
array the rest is left. -/
inductive Closes : Stream → List Value → Bytes → Prop
  | finished {s : Stream} {rest : Bytes} : s.next = (none, { state := .finished, bytes := rest }) →
      Closes s [] rest
  | element {s s' : Stream} {v : Value} {values : List Value} {rest : Bytes} :
      s.next = (some (.ok v), s') → Closes s' values rest → Closes s (v :: values) rest

/-- The stream has neither come to the end of the array nor failed. -/
def IsOpen (s : Stream) : Prop := s.state = .atStart ∨ s.state = .inside

/-- An open stream fails, or comes to the closing bracket, or goes on to an element, which stands
behind one more byte at least. -/
theorem next_cases (hs : s.IsOpen) :
    (∃ e rest, s.next = fail e rest) ∨
      (∃ rest, s.next = (none, { state := .finished, bytes := rest }) ∧ 0x5D :: rest <:+ s.bytes) ∨
      ∃ rest, s.next = element rest ∧ rest <:+ s.bytes ∧ rest.length < s.bytes.length := by
  obtain ⟨state, bytes⟩ := s
  have hgaps : bytes.dropWhile isGapByte <:+ bytes := List.dropWhile_suffix _
  have hbehind {b : UInt8} {more rest : Bytes} (hd : bytes.dropWhile isGapByte = b :: more)
      (hr : rest <:+ more) : rest <:+ bytes ∧ rest.length < bytes.length := by
    rw [hd] at hgaps
    have hlength := hgaps.length_le
    rw [List.length_cons] at hlength
    exact ⟨(hr.trans (List.suffix_cons b more)).trans hgaps, by have := hr.length_le; omega⟩
  rcases hs with hstate | hstate <;> cases hstate <;> unfold next <;> dsimp only
  · split
    · exact .inl ⟨_, _, rfl⟩
    · next more hd =>
      have hmore : more.dropWhile isGapByte <:+ more := List.dropWhile_suffix _
      split
      · exact .inl ⟨_, _, rfl⟩
      · next rest hr =>
        have hrest : 0x5D :: rest <:+ bytes := (hr ▸ hmore).trans (hbehind hd List.suffix_rfl).1
        exact .inr (.inl ⟨rest, rfl, hrest⟩)
      · exact .inr (.inr ⟨_, rfl, hbehind hd hmore⟩)
    · exact .inl ⟨_, _, rfl⟩
  · split
    · exact .inl ⟨_, _, rfl⟩
    · next more hd => exact .inr (.inr ⟨more, rfl, hbehind hd List.suffix_rfl⟩)
    · next rest hd => exact .inr (.inl ⟨rest, rfl, hd ▸ hgaps⟩)
    · exact .inl ⟨_, _, rfl⟩

theorem element_cases (bytes : Bytes) :
    (∃ e, element bytes = fail e bytes) ∨
      ∃ v rest, element bytes = (some (.ok v), { state := .inside, bytes := rest }) ∧
        rest <:+ bytes := by
  unfold element
  split
  · next v rest h => exact .inr ⟨v, rest, rfl, suffix_of_readElement h⟩
  · exact .inl ⟨_, rfl⟩

theorem exists_closes {fuel : Nat} (hs : s.IsOpen) (hf : s.bytes.length < fuel)
    (h : answers fuel s = values.map .ok) :
    ∃ rest, 0x5D :: rest <:+ s.bytes ∧ s.Closes values rest := by
  induction fuel generalizing s values with
  | zero => exact absurd hf (Nat.not_lt_zero _)
  | succ fuel ih =>
    have hfail {e : StreamError} {bytes : Bytes} (hn : s.next = fail e bytes) : False := by
      rw [answers, hn] at h
      obtain ⟨v, values, -, hv, -⟩ := List.map_eq_cons_iff.mp h.symm
      cases hv
    rcases next_cases hs with ⟨e, bytes, hn⟩ | ⟨rest, hn, hrest⟩ | ⟨bytes, hn, hb, hlt⟩
    · exact (hfail hn).elim
    · rw [answers, hn] at h
      obtain rfl := List.map_eq_nil_iff.mp h.symm
      exact ⟨rest, hrest, .finished hn⟩
    · rcases element_cases bytes with ⟨e, he⟩ | ⟨v, more, he, hmore⟩
      · exact (hfail (hn.trans he)).elim
      · have hn := hn.trans he
        rw [answers, hn] at h
        obtain ⟨_, values, rfl, ⟨⟩, htail⟩ := List.map_eq_cons_iff.mp h.symm
        have hlength := hmore.length_le
        obtain ⟨rest, hrest, hc⟩ := ih (.inr rfl) (by dsimp only; omega) htail.symm
        exact ⟨rest, (hrest.trans hmore).trans hb, .element hn hc⟩

theorem exists_closes_of_elements (h : elements bytes = values.map .ok) :
    ∃ front rest, bytes = front ++ 0x5D :: rest ∧ (ofBytes bytes).Closes values rest := by
  obtain ⟨rest, ⟨front, hfront⟩, hc⟩ :=
    exists_closes (s := ofBytes bytes) (.inl rfl) (Nat.lt_add_of_pos_right Nat.two_pos) h
  exact ⟨front, rest, hfront.symm, hc⟩

end Stream

end SettingsScan.Json
