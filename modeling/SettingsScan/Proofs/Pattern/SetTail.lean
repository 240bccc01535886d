import SettingsScan.Proofs.Pattern.Tail

/-! # Sets with more text behind them

A set ends with its bracket, so what is read of it does not depend on what follows. This holds too
of a set that is refused for one of its items, as long as there is text behind the item.
-/

namespace SettingsScan.Pattern

variable {flags : Flags} {set : CharSet} {atom : Atom} {c : Char} {n k : Nat} {t u rest : Text}
  {α : Type}

/-! ### Named classes -/

theorem dropWhile_append_of_cons {p : Char → Bool} (h : t.dropWhile p = c :: u) (tail : Text) :
    (t ++ tail).dropWhile p = c :: (u ++ tail) ∧ (t ++ tail).takeWhile p = t.takeWhile p := by
  induction t with
  | nil => cases h
  | cons d t ih =>
    cases hd : p d with
    | true =>
      rw [List.dropWhile_cons_of_pos hd] at h
      obtain ⟨hdrop, htake⟩ := ih h
      simp [hd, hdrop, htake]
    | false =>
      rw [List.dropWhile_cons_of_neg (by simp [hd])] at h
      cases h
      simp [hd]

def readClass? (negated : Bool) (t : Text) : Option (CharSet × Text) :=
  match t.dropWhile (· ≠ ':') with
  | ':' :: ']' :: rest =>
    (CharSet.named? (t.takeWhile (· ≠ ':'))).map fun set =>
      (if negated then .complement set else set, rest)
  | _ => none

theorem readNamedSet?_of_head? (h : t.head? ≠ some '^') :
    readNamedSet? (':' :: t) = readClass? false t := by
  cases t with
  | nil => rfl
  | cons c t =>
    have hc : c ≠ '^' := by simpa using h
    unfold readNamedSet? readClass?
    simp only
    split <;> simp_all

theorem readClass?_append {negated : Bool} (h : readClass? negated t = some (set, rest))
    (tail : Text) : readClass? negated (t ++ tail) = some (set, rest ++ tail) := by
  unfold readClass? at h
  split at h
  · rename_i rest' hd
    obtain ⟨hdrop, htake⟩ := dropWhile_append_of_cons hd tail
    obtain ⟨set', hn, hs⟩ := Option.map_eq_some_iff.mp h
    cases hs
    simp only [readClass?, hdrop, htake, hn, List.cons_append]
    rfl
  · cases h

theorem readNamedSet?_append (h : readNamedSet? t = some (set, rest)) (tail : Text) :
    readNamedSet? (t ++ tail) = some (set, rest ++ tail) := by
  match t with
  | [] => cases h
  | c :: t =>
    by_cases hc : c = ':'
    · subst hc
      cases t with
      | nil => cases h
      | cons d t =>
        by_cases hd : d = '^'
        · subst hd
          exact readClass?_append h tail
        · have hplain (t : Text) : (d :: t).head? ≠ some '^' := by simpa using hd
          rw [readNamedSet?_of_head? (hplain t)] at h
          rw [List.cons_append, List.cons_append, readNamedSet?_of_head? (hplain _)]
          exact readClass?_append h tail
    · simp [readNamedSet?, hc] at h

/-! ### Items and ranges -/

theorem stays_readSetItem (h : readSetItem flags t = .ok (atom, rest)) :
    Stays (readSetItem flags) t atom rest := by
  unfold readSetItem at h
  split at h
  · exact stays_readEscape h
  · cases h
    exact .inl fun r => by simp [readSetItem]
  · cases h

theorem readHexDigits_ne (code : Nat) (t : Text) :
    readHexDigits flags n code t ≠ .error .invalidSetItem := by
  fun_induction readHexDigits flags n code t <;> simp_all

theorem readHexBraces_ne (code : Option Nat) (t : Text) :
    readHexBraces flags n code t ≠ .error .invalidSetItem := by
  fun_induction readHexBraces flags n code t <;> simp_all

theorem readWordEdge_ne (flags : Flags) (t : Text) :
    readWordEdge flags t ≠ .error .invalidSetItem := by
  unfold readWordEdge
  split
  · split
    · simp
    · split
      · simp
      · split
        · split <;> simp
        · simp
  · simp

theorem map_ne {β : Type} {x : Reading α} {e : PatternError} (h : x ≠ .error e) (f : α → β) :
    x.map f ≠ .error e := by
  cases x with
  | error e' => simpa [Except.map] using h
  | ok a => simp [Except.map]

theorem readSetItem_ne (flags : Flags) (t : Text) :
    readSetItem flags t ≠ .error .invalidSetItem := by
  unfold readSetItem
  split
  · rename_i t
    cases t with
    | nil => simp [readEscape]
    | cons c t =>
      cases escapeForm c with
      | refused e he hc => simpa [hc] using he
      | fixed atom hc => simp [hc]
      | code digits hc =>
        rw [hc]
        refine map_ne ?_ _
        unfold readHex
        split
        · simp
        · exact readHexBraces_ne _ _
        · exact readHexDigits_ne _ _
      | edge hc =>
        rw [hc]
        exact map_ne (readWordEdge_ne _ _) _
  · simp
  · simp

def Atom.alone (first : Atom) (rest : Text) : Reading (CharSet × Text) :=
  match first.charSet? with
  | some set => .ok (set, rest)
  | none => .error .invalidSetItem

def Atom.upTo (first second : Atom) (rest : Text) : Reading (CharSet × Text) :=
  match first, second with
  | .char low, .char high =>
    if low ≤ high then .ok (.range low high, rest) else .error .invalidRange
  | _, _ => .error .invalidSetItem

def rangeFrom (flags : Flags) (first : Atom) (t : Text) : Reading (CharSet × Text) :=
  match flags.skip t with
  | [] => .error .unclosedSet
  | '-' :: u =>
    match flags.skip u with
    | [] => .error .unclosedSet
    | ']' :: _ => first.alone (flags.skip t)
    | '-' :: _ => first.alone (flags.skip t)
    | u => readSetItem flags u >>= fun (second, rest) => first.upTo second rest
  | _ => first.alone (flags.skip t)

theorem readSetRange_eq (flags : Flags) (t : Text) :
    readSetRange flags t = readSetItem flags t >>= fun (first, t) => rangeFrom flags first t :=
  rfl

theorem rangeFrom_of_ne (first : Atom) (ht : flags.skip t = c :: u) (hc : c ≠ '-') :
    rangeFrom flags first t = first.alone (c :: u) := by
  simp [rangeFrom, ht, hc]

theorem rangeFrom_of_dash {d : Char} {v : Text} (first : Atom) (ht : flags.skip t = '-' :: u)
    (hu : flags.skip u = d :: v) (hd : d = ']' ∨ d = '-') :
    rangeFrom flags first t = first.alone ('-' :: u) := by
  rcases hd with rfl | rfl <;> simp [rangeFrom, ht, hu]

theorem rangeFrom_of_item {d : Char} {v : Text} (first : Atom) (ht : flags.skip t = '-' :: u)
    (hu : flags.skip u = d :: v) (hd : ¬ (d = ']' ∨ d = '-')) :
    rangeFrom flags first t =
      readSetItem flags (d :: v) >>= fun (second, rest) => first.upTo second rest := by
  rw [not_or] at hd
  simp [rangeFrom, ht, hu, hd]

/-- An answer that more text does not change: some of the text is left, or an item of a set is
refused. -/
def Settled (answer : Reading (α × Text)) : Prop :=
  match answer with
  | .ok (_, rest) => rest ≠ []
  | .error e => e = .invalidSetItem

def grow (r : Text) (answer : Reading (α × Text)) : Reading (α × Text) :=
  answer.map fun (a, rest) => (a, rest ++ ')' :: r)

theorem bind_closing {next : Atom → Text → Reading (CharSet × Text)}
    (h : Settled (readSetItem flags t >>= fun (atom, t) => next atom t))
    (hnext : ∀ atom u, Settled (next atom u) →
      (u = [] → ∀ v, next atom v = .error .invalidSetItem) ∧
        ∀ r, next atom (u ++ ')' :: r) = grow r (next atom u)) (r : Text) :
    (readSetItem flags (t ++ ')' :: r) >>= fun (atom, t) => next atom t) =
      grow r (readSetItem flags t >>= fun (atom, t) => next atom t) := by
  cases hu : readSetItem flags t with
  | error e =>
    rw [hu] at h
    cases (h : e = .invalidSetItem)
    exact absurd hu (readSetItem_ne flags t)
  | ok p =>
    obtain ⟨atom, u⟩ := p
    rw [hu] at h
    obtain ⟨hnil, hgrow⟩ := hnext atom u h
    rcases stays_readSetItem hu with hs | ⟨rfl, hs⟩
    · rw [hs]
      exact hgrow r
    · rw [hs]
      exact (hnil rfl _).trans (congrArg (grow r) (hnil rfl [])).symm

theorem rangeFrom_closing {first : Atom} (h : Settled (rangeFrom flags first t)) (r : Text) :
    rangeFrom flags first (t ++ ')' :: r) = grow r (rangeFrom flags first t) := by
  have halone (u : Text) : first.alone (u ++ ')' :: r) = grow r (first.alone u) := by
    unfold Atom.alone
    cases first.charSet? <;> rfl
  cases ht : flags.skip t with
  | nil => simp [rangeFrom, ht, Settled] at h
  | cons c u =>
    have ht' := Flags.skip_append_cons ht (')' :: r)
    by_cases hc : c = '-'
    · subst hc
      cases hu : flags.skip u with
      | nil => simp [rangeFrom, ht, hu, Settled] at h
      | cons d v =>
        have hu' := Flags.skip_append_cons hu (')' :: r)
        by_cases hd : d = ']' ∨ d = '-'
        · rw [rangeFrom_of_dash first ht hu hd, rangeFrom_of_dash first ht' hu' hd]
          exact halone ('-' :: u)
        · rw [rangeFrom_of_item first ht hu hd] at h ⊢
          rw [rangeFrom_of_item first ht' hu' hd]
          refine bind_closing h (fun second w hw => ⟨?_, fun r => ?_⟩) r
          · rintro rfl v
            unfold Atom.upTo at hw ⊢
            split at hw
            · split at hw
              · exact absurd rfl hw
              · cases hw
            · rfl
          · unfold Atom.upTo
            split
            · split <;> rfl
            · rfl
    · rw [rangeFrom_of_ne first ht hc, rangeFrom_of_ne first ht' hc]
      exact halone (c :: u)

theorem readSetRange_closing (h : Settled (readSetRange flags t)) (r : Text) :
    readSetRange flags (t ++ ')' :: r) = grow r (readSetRange flags t) := by
  rw [readSetRange_eq] at h
  refine bind_closing h (fun first u hu => ⟨?_, rangeFrom_closing hu⟩) r
  rintro rfl
  simp [rangeFrom, Settled] at hu

/-! ### All items -/

def IsOperation (c : Char) (t : Text) : Prop :=
  (c = '&' ∨ c = '-' ∨ c = '~') ∧ t.head? = some c

theorem isOperation_closing {r : Text} : IsOperation c (t ++ ')' :: r) ↔ IsOperation c t := by
  cases t with
  | nil =>
    constructor
    · rintro ⟨rfl | rfl | rfl, h⟩ <;> cases h
    · rintro ⟨-, h⟩
      cases h
  | cons d t => rfl

theorem readSetItems_of_closed (ht : flags.skip t = ']' :: u) :
    readSetItems flags (n + 1) set t = .ok (set, u) := by
  simp [readSetItems, ht]

theorem readSetItems_of_named (ht : flags.skip t = '[' :: u) :
    readSetItems flags (n + 1) set t =
      (readNamedSet? u).elim (.error .nestedSet) fun (named, u) =>
        readSetItems flags n (.union set named) u := by
  simp only [readSetItems, ht]
  cases readNamedSet? u <;> rfl

theorem readSetItems_of_operation (ht : flags.skip t = c :: u) (h : IsOperation c u) :
    readSetItems flags (n + 1) set t = .error .setOperation := by
  obtain ⟨hc, hu⟩ := h
  obtain ⟨v, rfl⟩ := List.head?_eq_some_iff.mp hu
  rcases hc with rfl | rfl | rfl <;> simp [readSetItems, ht]

theorem readSetItems_of_range (ht : flags.skip t = c :: u) (hc : c ≠ ']') (hc' : c ≠ '[')
    (h : ¬ IsOperation c u) :
    readSetItems flags (n + 1) set t =
      readSetRange flags (c :: u) >>= fun (item, u) =>
        readSetItems flags n (.union set item) u := by
  rw [readSetItems, ht]
  split
  all_goals rename_i heq
  case h_1 => cases heq
  case h_2 => exact absurd (List.cons.inj heq).1 hc
  case h_3 => exact absurd (List.cons.inj heq).1 hc'
  case h_4 | h_5 | h_6 =>
    obtain ⟨rfl, rfl⟩ := List.cons.inj heq
    exact absurd ⟨by simp, rfl⟩ h
  case h_7 => cases readSetRange flags (c :: u) <;> rfl

theorem readSetItems_closing
    (h : ∀ e, readSetItems flags n set t = .error e → e = .invalidSetItem) (hk : n ≤ k) (r : Text) :
    readSetItems flags k set (t ++ ')' :: r) = grow r (readSetItems flags n set t) := by
  induction n generalizing k set t with
  | zero => cases h _ rfl
  | succ n ih =>
    obtain ⟨k, rfl⟩ := Nat.exists_eq_add_of_lt hk
    have hk' : n ≤ n + k := Nat.le_add_right n k
    cases ht : flags.skip t with
    | nil => simp [readSetItems, ht] at h
    | cons c u =>
      have ht' := Flags.skip_append_cons ht (')' :: r)
      by_cases hc : c = ']'
      · subst hc
        rw [readSetItems_of_closed ht, readSetItems_of_closed ht']
        rfl
      by_cases hc' : c = '['
      · subst hc'
        rw [readSetItems_of_named ht] at h ⊢
        rw [readSetItems_of_named ht']
        cases hn : readNamedSet? u with
        | none => simp [hn] at h
        | some p =>
          rw [hn] at h
          rw [readNamedSet?_append hn]
          exact ih h hk'
      by_cases ho : IsOperation c u
      · cases h _ (readSetItems_of_operation ht ho)
      rw [readSetItems_of_range ht hc hc' ho] at h ⊢
      rw [readSetItems_of_range ht' hc hc' (isOperation_closing.not.mpr ho)]
      have hs : Settled (readSetRange flags (c :: u)) := by
        cases hr : readSetRange flags (c :: u) with
        | error e => exact h e (by rw [hr]; rfl)
        | ok p =>
          rintro hp
          have hnil : readSetItems flags n (.union set p.1) [] = .error .unclosedSet := by
            cases n <;> simp [readSetItems]
          cases h .unclosedSet (by rw [hr, ← hnil, ← hp]; rfl)
      have hg := readSetRange_closing hs r
      rw [List.cons_append] at hg
      rw [hg]
      cases hr : readSetRange flags (c :: u) with
      | error e => rfl
      | ok p =>
        rw [hr] at h
        exact ih h hk'

/-! ### The front of a set -/

theorem dropDashes_of_ne (hc : c ≠ '-') : dropDashes flags n (c :: t) = c :: t := by
  cases n <;> simp [dropDashes, hc]

theorem dropDashes_append (hn : t.length ≤ n) (hk : n ≤ k) (h : dropDashes flags n t ≠ [])
    (tail : Text) : dropDashes flags k (t ++ tail) = dropDashes flags n t ++ tail := by
  induction n generalizing k t with
  | zero =>
    obtain rfl := List.eq_nil_of_length_eq_zero (Nat.le_zero.mp hn)
    exact absurd rfl h
  | succ n ih =>
    obtain ⟨k, rfl⟩ := Nat.exists_eq_add_of_lt hk
    cases t with
    | nil => exact absurd rfl h
    | cons c t =>
      by_cases hc : c = '-'
      · subst hc
        change dropDashes flags n (flags.skip t) ≠ [] at h
        change dropDashes flags (n + k) (flags.skip (t ++ tail)) =
          dropDashes flags n (flags.skip t) ++ tail
        have hs : flags.skip t ≠ [] := fun hu => h (by rw [hu]; cases n <;> rfl)
        rw [Flags.skip_append hs]
        exact ih ((flags.length_skip_le t).trans (Nat.le_of_succ_le_succ hn))
          (Nat.le_add_right n k) h
      · rw [List.cons_append, dropDashes_of_ne hc, dropDashes_of_ne hc]
        rfl

theorem setFront_append (h : (setFront flags t).2 ≠ []) (tail : Text) :
    setFront flags (t ++ tail) = ((setFront flags t).1, (setFront flags t).2 ++ tail) := by
  unfold setFront at h ⊢
  cases ht : flags.skip t with
  | nil => simp [ht] at h
  | cons c u =>
    rw [Flags.skip_append_cons ht]
    by_cases hc : c = '^'
    · subst hc
      simp only [ht] at h ⊢
      rw [Flags.skip_append h]
    · simp [hc]

theorem setStart_append (h : (setStart flags t).2 ≠ []) (tail : Text) :
    setStart flags (t ++ tail) = ((setStart flags t).1, (setStart flags t).2 ++ tail) := by
  unfold setStart at h ⊢
  cases t with
  | nil => exact absurd rfl h
  | cons c t =>
    by_cases hc : c = ']'
    · subst hc
      rfl
    by_cases hc' : c = '-'
    · subst hc'
      have hlen : ('-' :: t).length ≤ ('-' :: t ++ tail).length := by simp
      exact congrArg (Prod.mk _) (dropDashes_append (Nat.le_refl _) hlen h tail)
    · simp [hc, hc']

theorem readSet_closing (h : ∀ e, readSet flags t = .error e → e = .invalidSetItem) (r : Text) :
    readSet flags (t ++ ')' :: r) = grow r (readSet flags t) := by
  have hitems : ∀ e, readSetItems flags ((setStart flags (setFront flags t).2).2.length + 1)
      (setStart flags (setFront flags t).2).1 (setStart flags (setFront flags t).2).2 = .error e →
      e = .invalidSetItem := by
    intro e he
    refine h e ?_
    rw [readSet_eq]
    simp only [he, Except.map]
  have hstart : (setStart flags (setFront flags t).2).2 ≠ [] := by
    intro hv
    rw [hv] at hitems
    cases hitems .unclosedSet (by simp [readSetItems])
  have hfront : (setFront flags t).2 ≠ [] := by
    intro hu
    rw [hu] at hstart
    exact hstart rfl
  rw [readSet_eq, readSet_eq]
  simp only [setFront_append hfront, setStart_append hstart]
  rw [readSetItems_closing hitems (by simp)]
  cases readSetItems .. <;> rfl

end SettingsScan.Pattern
