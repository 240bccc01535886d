import SettingsScan.Proofs.Pattern.SetTail

/-! # Moves with more text behind them

The move that a part of a pattern asks for, and where the part ends, do not depend on what follows
behind a closing parenthesis, as long as no comment swallows the parenthesis.
-/

namespace SettingsScan.Pattern

variable {flags : Flags} {c : Char} {m : Move} {n k : Nat} {t u rest : Text} {α : Type}

/-! ### Repetitions -/

theorem readDigits_append {value : Option Nat} (hn : t.length ≤ n) (hk : n ≤ k)
    (h : (readDigits flags n value t).2 = c :: rest) (tail : Text) :
    readDigits flags k value (t ++ tail) =
      ((readDigits flags n value t).1, c :: (rest ++ tail)) := by
  induction n generalizing k value t with
  | zero =>
    obtain rfl := List.eq_nil_of_length_eq_zero (Nat.le_zero.mp hn)
    cases h
  | succ n ih =>
    obtain ⟨k, rfl⟩ := Nat.exists_eq_add_of_lt hk
    cases t with
    | nil => cases h
    | cons d t =>
      cases hd : d.isDigit with
      | false =>
        simp only [readDigits, hd, List.cons_append] at h ⊢
        obtain ⟨rfl, rfl⟩ := List.cons.inj h
        rfl
      | true =>
        simp only [readDigits, hd, if_true, List.cons_append] at h ⊢
        have hs : flags.skip t ≠ [] := fun hu => by
          rw [hu] at h
          cases n <;> cases h
        rw [Flags.skip_append hs]
        exact ih ((flags.length_skip_le t).trans (Nat.le_of_succ_le_succ hn))
          (Nat.le_add_right n k) h

theorem skipBlank_append (h : skipBlank flags t = c :: rest) (tail : Text) :
    skipBlank flags (t ++ tail) = c :: (rest ++ tail) := by
  unfold skipBlank at h ⊢
  obtain ⟨d, u, hu⟩ := List.exists_cons_of_ne_nil (Flags.ne_nil_of_skip h)
  rw [(dropWhile_append_of_cons hu tail).1]
  rw [hu] at h
  exact Flags.skip_append_cons h tail

theorem readCount_append {count : Nat} (h : readCount flags t = .ok (count, c :: rest))
    (tail : Text) : readCount flags (t ++ tail) = .ok (count, c :: (rest ++ tail)) := by
  unfold readCount at h
  extract_lets u at h
  cases hv : readDigits flags u.length none u with
  | mk value v =>
    rw [hv] at h
    cases value with
    | none => cases h
    | some value =>
      dsimp only at h
      split at h
      · rename_i hlt
        obtain ⟨rfl, hskip⟩ := Prod.mk.inj (Except.ok.inj h)
        obtain ⟨d, w, hd⟩ : ∃ d w, v = d :: w := by
          refine List.exists_cons_of_ne_nil ?_
          rintro rfl
          simp [skipBlank] at hskip
        obtain ⟨e, x, he⟩ : ∃ e x, t.dropWhile isBlank = e :: x := by
          refine List.exists_cons_of_ne_nil fun hnil => ?_
          have hlen := length_readDigits_le flags u.length none u
          rw [hv, hd, show u = [] from hnil] at hlen
          simp at hlen
        have hdrop : (t ++ tail).dropWhile isBlank = u ++ tail := by
          rw [(dropWhile_append_of_cons he tail).1, show u = e :: x from he]
          rfl
        have hlen : u.length ≤ (u ++ tail).length := by simp
        have hrest : (readDigits flags u.length none u).2 = d :: w := by rw [hv, hd]
        have hdigits := readDigits_append (Nat.le_refl _) hlen hrest tail
        rw [hv] at hdigits
        unfold readCount
        simp only [hdrop, hdigits, if_pos hlt]
        rw [← List.cons_append, ← hd, skipBlank_append hskip]
      · cases h

def readMost (flags : Flags) (least : Nat) (t : Text) : Reading (Option Nat × Text) :=
  match t with
  | ',' :: t =>
    match flags.skip t with
    | '}' :: t => .ok (none, '}' :: t)
    | t => (readCount flags t).map fun (most, t) => (some most, t)
  | t => .ok (some least, t)

def closeBounds (least : Nat) (most : Option Nat) (t : Text) : Reading (Nat × Option Nat × Text) :=
  match t with
  | '}' :: t => if most.any (· < least) then .error .invalidRange else .ok (least, most, t)
  | _ => .error .invalidRepetition

theorem readMost_of_ne {least : Nat} (hc : c ≠ ',') :
    readMost flags least (c :: t) = .ok (some least, c :: t) := by
  simp [readMost, hc]

theorem readMost_of_count {least : Nat} (ht : flags.skip t = c :: u) (hc : c ≠ '}') :
    readMost flags least (',' :: t) =
      (readCount flags (c :: u)).map fun (most, t) => (some most, t) := by
  simp [readMost, ht, hc]

theorem readBounds_eq (flags : Flags) (t : Text) :
    readBounds flags t = readCount flags (flags.skip t) >>= fun (least, t) =>
      readMost flags least t >>= fun (most, t) => closeBounds least most t := by
  unfold readBounds
  cases readCount flags (flags.skip t) with
  | error e => rfl
  | ok p =>
    obtain ⟨least, u⟩ := p
    change _ = readMost flags least u >>= fun (most, t) => closeBounds least most t
    dsimp only [bind, Except.bind]
    cases u with
    | nil => rfl
    | cons d v =>
      by_cases hd : d = ','
      · subst hd
        cases hs : flags.skip v with
        | nil =>
          simp only [readMost, hs]
          cases readCount flags [] <;> rfl
        | cons e w =>
          by_cases he : e = '}'
          · subst he
            simp only [readMost, hs]
            rfl
          · rw [readMost_of_count hs he]
            simp [hs, he]
            cases readCount flags (e :: w) <;> rfl
      · rw [readMost_of_ne hd]
        simp [hd]
        rfl

theorem readMost_append {least : Nat} {most : Option Nat}
    (h : readMost flags least t = .ok (most, c :: rest)) (tail : Text) :
    readMost flags least (t ++ tail) = .ok (most, c :: (rest ++ tail)) := by
  cases t with
  | nil => cases h
  | cons d t =>
    by_cases hd : d = ','
    · subst hd
      cases ht : flags.skip t with
      | nil => simp [readMost, ht, readCount, readDigits, Except.map] at h
      | cons e u =>
        have ht' := Flags.skip_append_cons ht tail
        by_cases he : e = '}'
        · subst he
          simp only [readMost, ht] at h
          cases h
          simp only [readMost, List.cons_append, ht']
        · rw [readMost_of_count ht he] at h
          rw [List.cons_append, readMost_of_count ht' he]
          obtain ⟨⟨count, v⟩, hcount, h⟩ := Except.exists_of_map_eq_ok h
          obtain ⟨rfl, rfl⟩ := Prod.mk.inj h
          rw [← List.cons_append, readCount_append hcount]
          rfl
    · rw [readMost_of_ne hd] at h
      cases h
      exact readMost_of_ne hd

theorem exists_of_closeBounds {least l : Nat} {most m : Option Nat}
    (h : closeBounds least most t = .ok (l, m, rest)) :
    t = '}' :: rest ∧ ∀ r, closeBounds least most ('}' :: r) = .ok (l, m, r) := by
  unfold closeBounds at h
  split at h
  · split at h
    · cases h
    · rename_i hlt
      cases h
      exact ⟨rfl, fun r => if_neg hlt⟩
  · cases h

theorem readBounds_append {least : Nat} {most : Option Nat}
    (h : readBounds flags t = .ok (least, most, rest)) (tail : Text) :
    readBounds flags (t ++ tail) = .ok (least, most, rest ++ tail) := by
  rw [readBounds_eq] at h
  obtain ⟨⟨least', u⟩, hu, h⟩ := Except.exists_of_bind_eq_ok h
  obtain ⟨⟨most', v⟩, hv, h⟩ := Except.exists_of_bind_eq_ok h
  obtain ⟨rfl, hclose⟩ := exists_of_closeBounds h
  obtain ⟨c, w, rfl⟩ : ∃ c w, u = c :: w := by
    refine List.exists_cons_of_ne_nil ?_
    rintro rfl
    cases hv
  have hs : flags.skip t ≠ [] := fun hnil => by
    rw [hnil] at hu
    cases hu
  rw [readBounds_eq, Flags.skip_append hs, readCount_append hu]
  change readMost flags least' (c :: w ++ tail) >>= _ = _
  rw [readMost_append hv]
  exact hclose _

/-! ### Groups -/

theorem readName_append {name : Text} (h : readName t = .ok (name, rest)) (tail : Text) :
    readName (t ++ tail) = .ok (name, rest ++ tail) := by
  unfold readName at h
  split at h
  · cases h
  · cases h
  · rename_i first more drop htake
    split at h
    · cases h
    · rename_i hname
      split at h
      · rename_i d rest' hdrop
        cases h
        obtain ⟨hd, ht⟩ := dropWhile_append_of_cons hdrop tail
        simp only [readName, hd, ht, htake, if_neg hname]
      · cases h

theorem readFlags_append {flags' : Flags} {negated justNegated : Bool} {seen : List Char}
    (h : readFlags flags negated justNegated seen t = .ok (flags', rest)) (tail : Text) :
    readFlags flags negated justNegated seen (t ++ tail) = .ok (flags', rest ++ tail) := by
  fun_induction readFlags flags negated justNegated seen t with
  | case3 => 
    cases h
    simp_all [readFlags]
  | _ => simp_all [readFlags]

theorem readFlagGroup_append (h : readFlagGroup flags t = .ok (m, rest)) (tail : Text) :
    readFlagGroup flags (t ++ tail) = .ok (m, rest ++ tail) := by
  obtain ⟨⟨flags', u⟩, hu, h⟩ := Except.exists_of_bind_eq_ok h
  have hhead : (t ++ tail).head? = t.head? := by
    cases t with
    | nil => cases hu
    | cons c t => rfl
  rw [readFlagGroup, readFlags_append hu]
  change endFlags (t ++ tail) flags' (u ++ tail) = _
  change endFlags t flags' u = _ at h
  unfold endFlags at h
  split at h
  · split at h
    · cases h
    · rename_i hc
      cases h
      simp only [List.cons_append, endFlags, hhead, if_neg hc]
  · cases h
    simp only [List.cons_append, endFlags]
  · cases h

theorem readMark_of_name (hc : ∀ c ∈ t.head?, c ≠ '=' ∧ c ≠ '!') :
    readMark flags ('<' :: t) = (readName t).map fun (name, t) => (.capture (some name), t) := by
  cases t with
  | nil => rfl
  | cons c t =>
    obtain ⟨he, hx⟩ := hc c rfl
    simp [readMark, he, hx]

theorem readMark_of_flags (hc : ∀ c ∈ t.head?, c ≠ '=' ∧ c ≠ '!' ∧ c ≠ '<' ∧ c ≠ 'P') :
    readMark flags t = readFlagGroup flags t := by
  cases t with
  | nil => rfl
  | cons c t =>
    obtain ⟨he, hx, hl, hp⟩ := hc c rfl
    simp [readMark, he, hx, hl, hp]

theorem readMark_append (h : readMark flags t = .ok (m, rest)) (tail : Text) :
    readMark flags (t ++ tail) = .ok (m, rest ++ tail) := by
  unfold readMark at h
  split at h
  case h_1 | h_2 | h_3 | h_4 => cases h
  case h_5 =>
    obtain ⟨⟨name, u⟩, hu, h⟩ := Except.exists_of_map_eq_ok h
    cases h
    simp [readMark, readName_append hu, Except.map]
  case h_6 u he hx =>
    obtain ⟨⟨name, v⟩, hv, h⟩ := Except.exists_of_map_eq_ok h
    cases h
    cases u with
    | nil => cases hv
    | cons c u =>
      have hname := readName_append hv tail
      rw [List.cons_append] at hname
      rw [List.cons_append, List.cons_append, readMark_of_name, hname]
      · rfl
      · rintro c ⟨⟩
        exact ⟨fun h => he u (by rw [h]), fun h => hx u (by rw [h])⟩
  case h_7 _ he hx _ _ _ hl =>
    cases t with
    | nil => cases h
    | cons c u =>
      have hp : c ≠ 'P' := by
        rintro rfl
        cases h
      have hg := readFlagGroup_append h tail
      rw [readMark_of_flags, hg]
      rintro c ⟨⟩
      exact ⟨fun h => he u (by rw [h]), fun h => hx u (by rw [h]), fun h => hl u (by rw [h]), hp⟩

/-- The answer stays the same, but a comment may swallow what follows on its line. -/
def StaysInLine (read : Text → Reading (α × Text)) (t : Text) (a : α) (rest : Text) : Prop :=
  (∀ r, read (t ++ ')' :: r) = .ok (a, rest ++ ')' :: r)) ∨
    rest = [] ∧ ∀ r, '\n' ∉ r → read (t ++ ')' :: r) = .ok (a, [])

theorem Stays.inLine {read : Text → Reading (α × Text)} {a : α} (h : Stays read t a rest) :
    StaysInLine read t a rest := by
  refine h.imp_right fun ⟨hrest, h⟩ => ⟨hrest, fun r hr => ?_⟩
  rw [h, skipIgnored_of_not_mem hr]

theorem staysInLine_readOpening (h : readOpening flags t = .ok (m, rest)) :
    StaysInLine (readOpening flags) t m rest := by
  cases ht : flags.skip t with
  | nil =>
    have hempty : readOpening flags t = .ok (.capture none, []) := by rw [readOpening, ht]
    cases hempty.symm.trans h
    rcases flags.skip_closing t with hs | ⟨-, hs⟩
    · exact .inl fun r => by rw [readOpening, hs, ht]; rfl
    · exact .inr ⟨rfl, fun r hr => by rw [readOpening, hs, skipIgnored_of_not_mem hr]⟩
  | cons c u =>
    refine .inl fun r => ?_
    have ht' := Flags.skip_append_cons ht (')' :: r)
    by_cases hc : c = '?'
    · subst hc
      simp only [readOpening, ht] at h
      simp only [readOpening, ht']
      exact readMark_append h _
    · have hplain {t v : Text} (ht : flags.skip t = c :: v) :
          readOpening flags t = .ok (.capture none, c :: v) := by
        simp [readOpening, ht, hc]
      cases (hplain ht).symm.trans h
      exact hplain ht'

/-! ### Moves -/

theorem repetition_closing (flags : Flags) (least : Nat) (most : Option Nat) (t r : Text) :
    repetition flags least most (t ++ ')' :: r) =
      ((repetition flags least most t).1, (repetition flags least most t).2 ++ ')' :: r) := by
  unfold repetition readGreed
  cases t with
  | nil => rfl
  | cons c t =>
    by_cases hc : c = '?'
    · subst hc
      rfl
    · simp [hc]

theorem staysInLine_bounds (h : ((readBounds flags t).map fun (least, most, t) =>
      repetition flags least most (flags.skip t)) = .ok (m, rest)) :
    StaysInLine (fun t => (readBounds flags t).map fun (least, most, t) =>
      repetition flags least most (flags.skip t)) t m rest := by
  obtain ⟨⟨least, most, u⟩, hu, h⟩ := Except.exists_of_map_eq_ok h
  have hread (r : Text) : ((readBounds flags (t ++ ')' :: r)).map fun (least, most, t) =>
      repetition flags least most (flags.skip t)) =
      .ok (repetition flags least most (flags.skip (u ++ ')' :: r))) := by
    rw [readBounds_append hu]
    rfl
  dsimp only at h
  rcases flags.skip_closing u with hs | ⟨hnil, hs⟩
  · refine .inl fun r => ?_
    dsimp only
    rw [hread, hs, repetition_closing, h]
  · rw [hnil] at h
    cases h
    refine .inr ⟨rfl, fun r hr => ?_⟩
    dsimp only
    rw [hread, hs, skipIgnored_of_not_mem hr]
    rfl

theorem staysInLine_readMove (h : readMove flags c t = .ok (m, rest)) :
    StaysInLine (readMove flags c) t m rest := by
  have hrep (least : Nat) (most : Option Nat)
      (h : Except.ok (repetition flags least most t) = (.ok (m, rest) : Reading (Move × Text))) :
      StaysInLine (fun t => .ok (repetition flags least most t)) t m rest := by
    refine .inl fun r => ?_
    dsimp only
    rw [repetition_closing, Except.ok.inj h]
  unfold readMove at h
  split at h
  case h_1 => exact staysInLine_readOpening h
  case h_4 =>
    obtain ⟨⟨set, u⟩, hu, h⟩ := Except.exists_of_map_eq_ok h
    cases h
    refine .inl fun r => ?_
    have hset : readSet flags (t ++ ')' :: r) = grow r (readSet flags t) :=
      readSet_closing (by simp [hu]) r
    rw [hu] at hset
    simp only [readMove, hset]
    rfl
  case h_5 | h_6 | h_7 => exact hrep _ _ h
  case h_8 => exact staysInLine_bounds h
  case h_9 =>
    obtain ⟨⟨atom, u⟩, hu, h⟩ := Except.exists_of_map_eq_ok h
    cases h
    exact ((stays_readEscape hu).map Move.item).inLine
  case h_13 =>
    cases h
    refine .inl fun r => ?_
    unfold readMove
    simp only
  all_goals
    cases h
    exact .inl fun _ => rfl

/-- A set with a refused item is refused whatever follows. -/
theorem readMove_refused (h : readSet flags t = .error .invalidSetItem) (r : Text) :
    readMove flags '[' (t ++ ')' :: r) = .error .invalidSetItem := by
  have hset : readSet flags (t ++ ')' :: r) = grow r (readSet flags t) :=
    readSet_closing (by simp [h]) r
  rw [h] at hset
  simp only [readMove, hset]
  rfl

end SettingsScan.Pattern
