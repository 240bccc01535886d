import SettingsScan.Proofs.Pattern.Moves

/-! # More text behind a closing parenthesis

What has been read of a text is read in the same way when a closing parenthesis and any text follow
it. The one exception is a comment that is open at the end of the text: it swallows the parenthesis
and the rest of its line.
-/

namespace SettingsScan.Pattern

variable {flags : Flags} {atom : Atom} {c : Char} {n k : Nat} {t u rest : Text} {α : Type}

/-! ### Comments -/

theorem skipIgnored_append_cons {inComment : Bool} (h : skipIgnored inComment t = c :: u)
    (tail : Text) : skipIgnored inComment (t ++ tail) = c :: (u ++ tail) := by
  fun_induction skipIgnored inComment t <;> simp_all [skipIgnored]

theorem skipIgnored_closing {inComment : Bool} (h : skipIgnored inComment t = []) :
    (∀ r, skipIgnored inComment (t ++ ')' :: r) = ')' :: r) ∨
      ∀ r, skipIgnored inComment (t ++ ')' :: r) = skipIgnored true r := by
  fun_induction skipIgnored inComment t with
  | case1 inComment =>
    have hblank : isBlank ')' = false := by decide
    cases inComment <;> simp [skipIgnored, hblank]
  | case2 c t ih => simpa [skipIgnored] using ih h
  | case3 inComment c t hi hc ih => simpa [skipIgnored, hi, hc] using ih h
  | case4 inComment t hi hc ih => simpa [skipIgnored, hi, hc] using ih h
  | case5 => cases h

theorem skipIgnored_of_not_mem {r : Text} (h : '\n' ∉ r) : skipIgnored true r = [] := by
  induction r with
  | nil => rfl
  | cons c r ih =>
    rw [List.mem_cons, not_or] at h
    simpa [skipIgnored, Ne.symm h.1] using ih h.2

namespace Flags

theorem skip_of_verbose (h : flags.verbose = true) (t : Text) :
    flags.skip t = skipIgnored false t :=
  if_pos h

theorem skip_of_not_verbose (h : flags.verbose = false) (t : Text) : flags.skip t = t :=
  if_neg (by simp [h])

@[simp] theorem skip_nil (flags : Flags) : flags.skip [] = [] := by
  cases hv : flags.verbose with
  | true => rw [skip_of_verbose hv]; rfl
  | false => rw [skip_of_not_verbose hv]

theorem ne_nil_of_skip (h : flags.skip t = c :: u) : t ≠ [] := by
  rintro rfl
  rw [skip_nil] at h
  cases h

theorem skip_append_cons (h : flags.skip t = c :: u) (tail : Text) :
    flags.skip (t ++ tail) = c :: (u ++ tail) := by
  cases hv : flags.verbose with
  | true =>
    rw [skip_of_verbose hv] at h ⊢
    exact skipIgnored_append_cons h tail
  | false =>
    rw [skip_of_not_verbose hv] at h ⊢
    rw [h, List.cons_append]

theorem skip_append (h : flags.skip t ≠ []) (tail : Text) :
    flags.skip (t ++ tail) = flags.skip t ++ tail := by
  obtain ⟨c, u, hu⟩ := List.exists_cons_of_ne_nil h
  rw [skip_append_cons hu, hu]
  rfl

theorem skip_closing (flags : Flags) (t : Text) :
    (∀ r, flags.skip (t ++ ')' :: r) = flags.skip t ++ ')' :: r) ∨
      flags.skip t = [] ∧ ∀ r, flags.skip (t ++ ')' :: r) = skipIgnored true r := by
  cases hv : flags.verbose with
  | true =>
    simp only [skip_of_verbose hv]
    cases h : skipIgnored false t with
    | cons c u => exact .inl fun r => skipIgnored_append_cons h _
    | nil => exact (skipIgnored_closing h).imp_right fun hs => ⟨rfl, hs⟩
  | false =>
    simp only [skip_of_not_verbose hv]
    exact .inl fun _ => trivial

end Flags

/-- The answer of a reader stays the same with a parenthesis and more behind the text, unless a
comment at the end of the text is open. -/
def Stays (read : Text → Reading (α × Text)) (t : Text) (a : α) (rest : Text) : Prop :=
  (∀ r, read (t ++ ')' :: r) = .ok (a, rest ++ ')' :: r)) ∨
    rest = [] ∧ ∀ r, read (t ++ ')' :: r) = .ok (a, skipIgnored true r)

namespace Stays

variable {read : Text → Reading (α × Text)} {a : α}

theorem skip (h : Stays read (flags.skip t) a rest) (hlen : rest.length ≤ (flags.skip t).length)
    (hread : flags.skip t = [] → ∀ u, read u = .ok (a, u)) :
    Stays (fun t => read (flags.skip t)) t a rest := by
  rcases flags.skip_closing t with hs | ⟨ht, hs⟩
  · simpa only [Stays, hs] using h
  · rw [ht] at hlen
    have hrest := List.eq_nil_of_length_eq_zero (Nat.le_zero.mp hlen)
    exact .inr ⟨hrest, fun r => by simp only [hs, hread ht]⟩

theorem map {β : Type} (h : Stays read t a rest) (f : α → β) :
    Stays (fun t => (read t).map fun (a, t) => (f a, t)) t (f a) rest := by
  rcases h with h | ⟨rfl, h⟩
  · exact .inl fun r => by simp only [h]; rfl
  · exact .inr ⟨rfl, fun r => by simp only [h]; rfl⟩

end Stays

/-! ### Escapes -/

theorem stays_readHexDigits {code : Nat} (h : readHexDigits flags n code t = .ok (c, rest)) :
    Stays (readHexDigits flags n code) t c rest := by
  fun_induction readHexDigits flags n code t with
  | case1 code t c' hc =>
    obtain ⟨rfl, rfl⟩ := Prod.mk.inj (Except.ok.inj h)
    exact .inl fun r => by simp [readHexDigits, hc]
  | case2 => cases h
  | case3 => cases h
  | case4 n code c' t digit hd ih =>
    have hs : Stays (fun t => readHexDigits flags n (code * 16 + digit) (flags.skip t))
        t c rest := by
      refine (ih h).skip (length_readHexDigits h) fun ht u => ?_
      rw [ht] at h
      cases n with
      | zero => grind [readHexDigits]
      | succ n => cases h
    simpa only [Stays, List.cons_append, readHexDigits, hd] using hs
  | case5 => cases h

theorem readHexBraces_of_le {code : Option Nat} {p : Char × Text}
    (h : readHexBraces flags n code t = .ok p) (hk : n ≤ k) :
    readHexBraces flags k code t = .ok p := by
  fun_induction readHexBraces flags n code t generalizing k with
  | case1 | case2 => cases h
  | case3 n code t c' hc =>
    obtain ⟨k, rfl⟩ := Nat.exists_eq_add_of_lt hk
    simpa [readHexBraces, hc] using h
  | case4 => cases h
  | case5 n code c' t hc digit hd ih =>
    obtain ⟨k, rfl⟩ := Nat.exists_eq_add_of_lt hk
    simpa [readHexBraces, hc, hd] using ih h (by omega)
  | case6 => cases h

theorem stays_readHexBraces {code : Option Nat}
    (h : readHexBraces flags n code t = .ok (c, rest)) :
    Stays (readHexBraces flags n code) t c rest := by
  fun_induction readHexBraces flags n code t with
  | case1 | case2 => cases h
  | case3 n code t c' hc =>
    obtain ⟨rfl, rfl⟩ := Prod.mk.inj (Except.ok.inj h)
    have hp : Stays (fun t => .ok (c', t)) (flags.skip t) c' (flags.skip t) := .inl fun _ => rfl
    have hs : Stays (fun t => .ok (c', flags.skip t)) t c' (flags.skip t) :=
      hp.skip (Nat.le_refl _) fun _ _ => rfl
    simpa only [Stays, List.cons_append, readHexBraces, hc, if_true] using hs
  | case4 => cases h
  | case5 n code c' t hc digit hd ih =>
    have hs : Stays
        (fun t => readHexBraces flags n (some (code.getD 0 * 16 + digit)) (flags.skip t))
        t c rest := by
      refine (ih h).skip (length_readHexBraces h) fun ht u => ?_
      rw [ht] at h
      cases n <;> cases h
    simpa only [Stays, List.cons_append, readHexBraces, hd, if_neg hc] using hs
  | case6 => cases h

theorem stays_readHex (h : readHex flags n t = .ok (c, rest)) :
    Stays (readHex flags n) t c rest := by
  unfold readHex at h
  split at h
  · cases h
  · rename_i u ht
    have hs : Stays (fun t => readHexBraces flags (u.length + 1) none (flags.skip t)) u c rest :=
      (stays_readHexBraces h).skip (length_readHexBraces h) fun hu _ => by rw [hu] at h; cases h
    have hread (r : Text) : readHex flags n (t ++ ')' :: r) =
        readHexBraces flags ((u ++ ')' :: r).length + 1) none (flags.skip (u ++ ')' :: r)) := by
      simp only [readHex, Flags.skip_append_cons ht]
    have hlen (r : Text) : u.length + 1 ≤ (u ++ ')' :: r).length + 1 := by simp
    rcases hs with hs | ⟨hr, hs⟩
    · exact .inl fun r => (hread r).trans (readHexBraces_of_le (hs r) (hlen r))
    · exact .inr ⟨hr, fun r => (hread r).trans (readHexBraces_of_le (hs r) (hlen r))⟩
  · rename_i hnil hbrace
    obtain ⟨d, u, hu⟩ := List.exists_cons_of_ne_nil hnil
    have hd : d ≠ '{' := by
      rintro rfl
      exact hbrace u hu
    have hread (r : Text) : readHex flags n (t ++ ')' :: r) =
        readHexDigits flags n 0 (flags.skip t ++ ')' :: r) := by
      simp [readHex, hu, Flags.skip_append_cons hu, hd]
    simpa only [Stays, hread] using stays_readHexDigits h

theorem readWordEdgeName_append {name : Text} (hk : n ≤ k)
    (h : readWordEdgeName flags n t = (name, '}' :: rest)) (tail : Text) :
    readWordEdgeName flags k (t ++ tail) = (name, '}' :: (rest ++ tail)) := by
  fun_induction readWordEdgeName flags n t generalizing k name with
  | case1 n c t hc name' rest' hr ih =>
    obtain ⟨rfl, rfl⟩ := Prod.mk.inj h
    obtain ⟨k, rfl⟩ := Nat.exists_eq_add_of_lt hk
    have hs : flags.skip t ≠ [] := fun ht => by
      rw [ht] at hr
      cases n <;> cases hr
    have hu := @ih (n + k) name' (Nat.le_add_right n k) hr
    simp only [List.cons_append, readWordEdgeName, if_pos hc, Flags.skip_append hs, hu]
  | case2 n c t hc =>
    obtain ⟨rfl, ht⟩ := Prod.mk.inj h
    obtain ⟨rfl, rfl⟩ := List.cons.inj ht
    obtain ⟨k, rfl⟩ := Nat.exists_eq_add_of_lt hk
    simp [readWordEdgeName, hc]
  | case3 n t hn =>
    obtain ⟨rfl, rfl⟩ := Prod.mk.inj h
    cases n with
    | zero => cases k <;> rfl
    | succ n => exact (hn n '}' rest rfl rfl).elim

theorem readWordEdge_closing {edge : Look} (h : readWordEdge flags t = .ok (edge, rest))
    (r : Text) : readWordEdge flags (t ++ ')' :: r) = .ok (edge, rest ++ ')' :: r) := by
  unfold readWordEdge at h
  split at h
  · rename_i inner
    split at h
    · cases h
    · rename_i c body hi
      split at h
      · rename_i hc
        cases h
        simp [readWordEdge, Flags.skip_append_cons hi, hc]
      · rename_i hc
        split at h
        · rename_i name rest' hname
          have hlen : body.length + 1 ≤ (body ++ ')' :: r).length + 1 := by simp
          have hname' := readWordEdgeName_append hlen hname (')' :: r)
          rw [List.cons_append] at hname'
          simp only [List.cons_append, readWordEdge, Flags.skip_append_cons hi, if_neg hc, hname']
          split at h <;> cases h <;> rfl
        · cases h
  · rename_i ht
    cases h
    cases t with
    | nil => rfl
    | cons c t =>
      have hc : c ≠ '{' := by
        rintro rfl
        exact ht t rfl
      simp [readWordEdge, hc]

theorem stays_readEscape (h : readEscape flags t = .ok (atom, rest)) :
    Stays (readEscape flags) t atom rest := by
  cases t with
  | nil => cases h
  | cons c t =>
    cases escapeForm c with
    | refused e _ hc => cases (hc flags t).symm.trans h
    | fixed atom' hc =>
      cases (hc flags t).symm.trans h
      exact .inl fun r => hc flags _
    | code digits hc =>
      rw [hc] at h
      obtain ⟨⟨c', rest'⟩, hr, h⟩ := Except.exists_of_map_eq_ok h
      cases h
      simpa only [Stays, List.cons_append, hc] using (stays_readHex hr).map (Atom.ofChar flags)
    | edge hc =>
      rw [hc] at h
      obtain ⟨⟨edge, rest'⟩, hr, h⟩ := Except.exists_of_map_eq_ok h
      cases h
      exact .inl fun r => by rw [List.cons_append, hc, readWordEdge_closing hr]; rfl

end SettingsScan.Pattern
