import SettingsScan.Proofs.Pattern.SetTail

/-! # Reading with or without regard to letter case

Whether case is ignored changes what a part of a pattern matches, not where it ends. The one
exception is a range of letters written as escapes: ignoring case makes a set of each bound, and a
set can not bound a range.
-/

namespace SettingsScan.Pattern

variable {flags flags' : Flags} {set : CharSet} {atom first first' : Atom} {c : Char} {m : Move}
  {n : Nat} {t rest : Text}

/-! ### Flags -/

def Flags.caseless (flags : Flags) : Flags :=
  { flags with ignoreCase := false }

/-- Flags that differ at most in that the second ones ignore case. -/
structure Flags.Alike (flags flags' : Flags) : Prop where
  caseless : flags.caseless = flags'.caseless
  ignoreCase : flags.ignoreCase → flags'.ignoreCase

namespace Flags.Alike

theorem refl (flags : Flags) : flags.Alike flags :=
  ⟨rfl, id⟩

theorem verbose (h : flags.Alike flags') : flags.verbose = flags'.verbose := by
  have hv := congrArg Flags.verbose h.caseless
  exact hv

theorem swapGreed (h : flags.Alike flags') : flags.swapGreed = flags'.swapGreed := by
  have hg := congrArg Flags.swapGreed h.caseless
  exact hg

theorem skip (h : flags.Alike flags') : flags.skip = flags'.skip := by
  funext t
  rw [Flags.skip, Flags.skip, h.verbose]

theorem set? {g : Flags} {on : Bool} (h : flags.Alike flags') (hg : flags.set? c on = some g) :
    ∃ g', flags'.set? c on = some g' ∧ g.Alike g' := by
  obtain ⟨hc, hi⟩ := h
  unfold Flags.set? at hg
  split at hg
  all_goals cases hg
  all_goals
    refine ⟨_, rfl, ?_, ?_⟩
    all_goals simp_all [Flags.caseless]

end Flags.Alike

/-! ### Readers that use the flags for skipping only -/

section Congr

theorem readHexDigits_congr (h : flags.skip = flags'.skip) :
    readHexDigits flags = readHexDigits flags' := by
  funext n code t
  fun_induction readHexDigits flags n code t <;> simp_all [readHexDigits]

theorem readHexBraces_congr (h : flags.skip = flags'.skip) :
    readHexBraces flags = readHexBraces flags' := by
  funext n code t
  induction n generalizing code t with
  | zero => rfl
  | succ n ih =>
    cases t with
    | nil => rfl
    | cons c t => simp only [readHexBraces, h, ih]

theorem readHex_congr (h : flags.skip = flags'.skip) : readHex flags = readHex flags' := by
  funext n t
  simp only [readHex, h, readHexDigits_congr h, readHexBraces_congr h]

theorem readWordEdgeName_congr (h : flags.skip = flags'.skip) :
    readWordEdgeName flags = readWordEdgeName flags' := by
  funext n t
  induction n generalizing t with
  | zero => rfl
  | succ n ih =>
    cases t with
    | nil => rfl
    | cons c t => simp only [readWordEdgeName, h, ih]

theorem readWordEdge_congr (h : flags.skip = flags'.skip) :
    readWordEdge flags = readWordEdge flags' := by
  funext t
  simp only [readWordEdge, h, readWordEdgeName_congr h]

theorem dropDashes_congr (h : flags.skip = flags'.skip) : dropDashes flags = dropDashes flags' := by
  funext n t
  fun_induction dropDashes flags n t <;> simp_all [dropDashes]

theorem readDigits_congr (h : flags.skip = flags'.skip) : readDigits flags = readDigits flags' := by
  funext n value t
  fun_induction readDigits flags n value t <;> simp_all [readDigits]

theorem readCount_congr (h : flags.skip = flags'.skip) : readCount flags = readCount flags' := by
  funext t
  simp only [readCount, skipBlank, h, readDigits_congr h]

theorem readBounds_congr (h : flags.skip = flags'.skip) : readBounds flags = readBounds flags' := by
  funext t
  simp only [readBounds, h, readCount_congr h]

end Congr

/-! ### Escapes -/

inductive Atom.Alike : Atom → Atom → Prop
  | same (a : Atom) : Alike a a
  | folded (c : Char) (set : CharSet) : Alike (.char c) (.set set)

theorem Atom.alike_ofChar (h : flags.Alike flags') (c : Char) :
    (Atom.ofChar flags c).Alike (.ofChar flags' c) := by
  unfold Atom.ofChar
  cases hf : flags.ignoreCase with
  | true =>
    rw [h.ignoreCase hf]
    exact .same _
  | false =>
    rw [Bool.false_and, if_neg (by simp)]
    split
    · exact .folded c _
    · exact .same _

theorem readEscape_alike (h : flags.Alike flags') (hr : readEscape flags t = .ok (atom, rest)) :
    ∃ atom', readEscape flags' t = .ok (atom', rest) ∧ atom.Alike atom' := by
  cases t with
  | nil => cases hr
  | cons c t =>
    cases escapeForm c with
    | refused e _ hc => cases (hc flags t).symm.trans hr
    | fixed atom' hc =>
      cases (hc flags t).symm.trans hr
      exact ⟨_, hc flags' _, .same _⟩
    | code digits hc =>
      rw [hc] at hr
      obtain ⟨⟨d, u⟩, hu, hr⟩ := Except.exists_of_map_eq_ok hr
      cases hr
      rw [readHex_congr h.skip] at hu
      exact ⟨_, by rw [hc, hu]; rfl, Atom.alike_ofChar h d⟩
    | edge hc =>
      rw [hc, readWordEdge_congr h.skip, ← hc] at hr
      exact ⟨_, hr, .same _⟩

/-! ### Sets -/

theorem readSetItem_alike (h : flags.Alike flags') (hr : readSetItem flags t = .ok (atom, rest)) :
    ∃ atom', readSetItem flags' t = .ok (atom', rest) ∧ atom.Alike atom' := by
  unfold readSetItem at hr
  split at hr
  · exact readEscape_alike h hr
  · cases hr
    exact ⟨_, by simp [readSetItem], .same _⟩
  · cases hr

/-- The answer for a set when case is ignored: a set with the same text behind it, or a refused
item. -/
def Follows (answer answer' : Reading (CharSet × Text)) : Prop :=
  ∀ set rest, answer = .ok (set, rest) →
    (∃ set', answer' = .ok (set', rest)) ∨ answer' = .error .invalidSetItem

theorem Atom.Alike.alone (h : first.Alike first') (rest : Text) :
    Follows (first.alone rest) (first'.alone rest) := by
  intro set rest' hr
  cases h with
  | same => exact .inl ⟨set, hr⟩
  | folded c s =>
    cases hr
    exact .inl ⟨s, rfl⟩

theorem Atom.Alike.upTo {second second' : Atom} (h : first.Alike first')
    (h' : second.Alike second') (rest : Text) :
    Follows (first.upTo second rest) (first'.upTo second' rest) := by
  intro set rest' hr
  cases h with
  | same =>
    cases h' with
    | same => exact .inl ⟨set, hr⟩
    | folded => exact .inr (by cases first <;> rfl)
  | folded => exact .inr rfl

theorem rangeFrom_alike (h : flags.Alike flags') (hf : first.Alike first') (t : Text) :
    Follows (rangeFrom flags first t) (rangeFrom flags' first' t) := by
  have hs := h.skip
  cases ht : flags.skip t with
  | nil => simp [rangeFrom, ht, Follows]
  | cons c u =>
    have ht' := hs ▸ ht
    by_cases hc : c = '-'
    · subst hc
      cases hu : flags.skip u with
      | nil => simp [rangeFrom, ht, hu, Follows]
      | cons d v =>
        have hu' := hs ▸ hu
        by_cases hd : d = ']' ∨ d = '-'
        · rw [rangeFrom_of_dash first ht hu hd, rangeFrom_of_dash first' ht' hu' hd]
          exact hf.alone _
        · rw [rangeFrom_of_item first ht hu hd, rangeFrom_of_item first' ht' hu' hd]
          intro set rest hr
          obtain ⟨⟨second, w⟩, hw, hr⟩ := Except.exists_of_bind_eq_ok hr
          obtain ⟨second', hw', hsec⟩ := readSetItem_alike h hw
          rw [hw']
          exact hf.upTo hsec w set rest hr
    · rw [rangeFrom_of_ne first ht hc, rangeFrom_of_ne first' ht' hc]
      exact hf.alone _

theorem readSetRange_alike (h : flags.Alike flags') (t : Text) :
    Follows (readSetRange flags t) (readSetRange flags' t) := by
  intro set rest hr
  rw [readSetRange_eq] at hr
  obtain ⟨⟨first, u⟩, hu, hr⟩ := Except.exists_of_bind_eq_ok hr
  obtain ⟨first', hu', hfirst⟩ := readSetItem_alike h hu
  rw [readSetRange_eq, hu']
  exact rangeFrom_alike h hfirst u set rest hr

theorem readSetItems_alike (h : flags.Alike flags') (n : Nat) (set set' : CharSet) (t : Text) :
    Follows (readSetItems flags n set t) (readSetItems flags' n set' t) := by
  induction n generalizing set set' t with
  | zero =>
    rintro _ _ ⟨⟩
  | succ n ih =>
    have hs := h.skip
    cases ht : flags.skip t with
    | nil => simp [readSetItems, ht, Follows]
    | cons c u =>
      have ht' := hs ▸ ht
      by_cases hc : c = ']'
      · subst hc
        rw [readSetItems_of_closed ht, readSetItems_of_closed ht']
        rintro _ _ ⟨⟩
        exact .inl ⟨set', rfl⟩
      by_cases hc' : c = '['
      · subst hc'
        rw [readSetItems_of_named ht, readSetItems_of_named ht']
        cases readNamedSet? u with
        | none => rintro _ _ ⟨⟩
        | some p => exact ih _ _ _
      by_cases ho : IsOperation c u
      · rw [readSetItems_of_operation ht ho]
        rintro _ _ ⟨⟩
      rw [readSetItems_of_range ht hc hc' ho, readSetItems_of_range ht' hc hc' ho]
      intro set₁ rest hr
      obtain ⟨⟨item, v⟩, hv, hr⟩ := Except.exists_of_bind_eq_ok hr
      rcases readSetRange_alike h _ item v hv with ⟨item', hv'⟩ | hv'
      · rw [hv']
        exact ih _ _ _ _ _ hr
      · rw [hv']
        exact .inr rfl

theorem readSet_alike (h : flags.Alike flags') (t : Text) :
    Follows (readSet flags t) (readSet flags' t) := by
  have hs := h.skip
  have hfront : setFront flags t = setFront flags' t := by simp only [setFront, hs]
  have hstart (u : Text) : setStart flags u = setStart flags' u := by
    simp only [setStart, dropDashes_congr hs]
  intro set rest hr
  rw [readSet_eq, hfront] at hr
  rw [readSet_eq]
  dsimp only at hr ⊢
  rw [hstart] at hr
  obtain ⟨⟨items, u⟩, hu, hr⟩ := Except.exists_of_map_eq_ok hr
  cases hr
  rcases readSetItems_alike h _ _ _ _ _ _ hu with ⟨items', hu'⟩ | hu'
  · rw [hu']
    exact .inl ⟨_, rfl⟩
  · rw [hu']
    exact .inr rfl

/-! ### Groups -/

theorem readFlags_alike {g : Flags} {negated justNegated : Bool} {seen : List Char}
    (h : flags.Alike flags')
    (hr : readFlags flags negated justNegated seen t = .ok (g, rest)) :
    ∃ g', readFlags flags' negated justNegated seen t = .ok (g', rest) ∧ g.Alike g' := by
  induction t generalizing flags flags' negated justNegated seen with
  | nil => cases hr
  | cons c t ih =>
    unfold readFlags at hr ⊢
    split at hr
    · rename_i hc
      rw [if_pos hc]
      split at hr
      · cases hr
      · rename_i hj
        cases hr
        exact ⟨flags', if_neg hj, h⟩
    · rename_i hc
      rw [if_neg hc]
      split at hr
      · rename_i hd
        rw [if_pos hd]
        split at hr
        · cases hr
        · rename_i hn
          rw [if_neg hn]
          exact ih h hr
      · rename_i hd
        rw [if_neg hd]
        split at hr
        · cases hr
        · rename_i f hf
          obtain ⟨f', hf', hff⟩ := h.set? hf
          rw [hf']
          split at hr
          · cases hr
          · rename_i hs
            dsimp only
            rw [if_neg hs]
            exact ih hff hr

/-! ### Moves -/

inductive Move.Alike : Move → Move → Prop
  | same (m : Move) : Alike m m
  | item (a a' : Atom) : Alike (.item a) (.item a')
  | group (f f' : Flags) (h : f.Alike f') : Alike (.group f) (.group f')
  | setFlags (f f' : Flags) (h : f.Alike f') : Alike (.setFlags f) (.setFlags f')

theorem readFlagGroup_alike (h : flags.Alike flags') (hr : readFlagGroup flags t = .ok (m, rest)) :
    ∃ m', readFlagGroup flags' t = .ok (m', rest) ∧ m.Alike m' := by
  obtain ⟨⟨g, u⟩, hu, hr⟩ := Except.exists_of_bind_eq_ok hr
  obtain ⟨g', hu', hg⟩ := readFlags_alike h hu
  rw [readFlagGroup, hu']
  change ∃ m', endFlags t g' u = _ ∧ _
  change endFlags t g u = _ at hr
  unfold endFlags at hr
  split at hr
  · split at hr
    · cases hr
    · rename_i hc
      cases hr
      exact ⟨_, if_neg hc, .setFlags g g' hg⟩
  · cases hr
    exact ⟨_, by simp only [endFlags], .group g g' hg⟩
  · cases hr

theorem readOpening_alike (h : flags.Alike flags') (hr : readOpening flags t = .ok (m, rest)) :
    ∃ m', readOpening flags' t = .ok (m', rest) ∧ m.Alike m' := by
  have hmark {u : Text} (hr : readMark flags u = .ok (m, rest)) :
      ∃ m', readMark flags' u = .ok (m', rest) ∧ m.Alike m' := by
    unfold readMark at hr
    split at hr
    case h_5 => exact ⟨m, hr, .same m⟩
    case h_6 =>
      simp only [readMark]
      exact ⟨m, hr, .same m⟩
    case h_7 =>
      simp only [readMark]
      exact readFlagGroup_alike h hr
    all_goals cases hr
  unfold readOpening at hr ⊢
  rw [← h.skip]
  generalize flags.skip t = u at hr ⊢
  split at hr
  · exact hmark hr
  · exact ⟨m, hr, .same m⟩

theorem repetition_alike (h : flags.Alike flags') : repetition flags = repetition flags' := by
  funext least most t
  unfold repetition readGreed
  rw [h.swapGreed]

/-- A move is read in the same way when case is ignored, unless an item of a set is refused. -/
theorem readMove_alike (h : flags.Alike flags') (hr : readMove flags c t = .ok (m, rest)) :
    (∃ m', readMove flags' c t = .ok (m', rest) ∧ m.Alike m') ∨
      c = '[' ∧ readSet flags' t = .error .invalidSetItem := by
  unfold readMove at hr
  split at hr
  case h_1 => exact .inl (readOpening_alike h hr)
  case h_4 =>
    obtain ⟨⟨set, u⟩, hu, hr⟩ := Except.exists_of_map_eq_ok hr
    cases hr
    rcases readSet_alike h t set _ hu with ⟨set', hu'⟩ | hu'
    · exact .inl ⟨.item (.set set'), by simp only [readMove, hu']; rfl, .item _ _⟩
    · exact .inr ⟨rfl, hu'⟩
  case h_5 | h_6 | h_7 =>
    rw [repetition_alike h] at hr
    exact .inl ⟨m, hr, .same m⟩
  case h_8 =>
    rw [readBounds_congr h.skip, h.skip, repetition_alike h] at hr
    exact .inl ⟨m, hr, .same m⟩
  case h_9 =>
    obtain ⟨⟨atom, u⟩, hu, hr⟩ := Except.exists_of_map_eq_ok hr
    cases hr
    obtain ⟨atom', hu', -⟩ := readEscape_alike h hu
    exact .inl ⟨.item atom', by simp only [readMove, hu']; rfl, .item _ _⟩
  case h_13 =>
    cases hr
    exact .inl ⟨.item (.ofChar flags' c), by unfold readMove; simp only, .item _ _⟩
  all_goals
    cases hr
    exact .inl ⟨_, rfl, by constructor⟩

end SettingsScan.Pattern
