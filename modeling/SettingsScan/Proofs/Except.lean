import Mathlib.Data.List.Forall2

/-! # Computations that may fail

When a composed computation gives a result, each of its steps did.
-/

namespace SettingsScan.Except

variable {ε δ α β : Type} {x : Except ε α} {a : α} {b : β}

theorem exists_of_bind_eq_ok {f : α → Except ε β} (h : x >>= f = .ok b) :
    ∃ a, x = .ok a ∧ f a = .ok b := by
  cases x with
  | error e => exact nomatch h
  | ok a => exact ⟨a, rfl, h⟩

theorem exists_of_map_eq_ok {f : α → β} (h : x.map f = .ok b) : ∃ a, x = .ok a ∧ f a = b := by
  cases x with
  | error e => cases h
  | ok a => exact ⟨a, rfl, Except.ok.inj h⟩

theorem eq_ok_of_mapError_eq_ok {f : ε → δ} (h : x.mapError f = .ok a) : x = .ok a := by
  cases x with
  | error e => exact nomatch h
  | ok b => exact congrArg _ (Except.ok.inj h)

theorem forall₂_of_mapM_eq_ok {f : α → Except ε β} {as : List α} {bs : List β}
    (h : as.mapM f = .ok bs) : List.Forall₂ (fun a b => f a = .ok b) as bs := by
  induction as generalizing bs with
  | nil =>
    cases h
    exact .nil
  | cons a as ih =>
    rw [List.mapM_cons] at h
    obtain ⟨b, hb, h⟩ := exists_of_bind_eq_ok h
    obtain ⟨bs, hbs, h⟩ := exists_of_bind_eq_ok h
    cases h
    exact .cons hb (ih hbs)

/-! ### Only the result -/

theorem toOption_map (x : Except ε α) (f : α → β) :
    (x.map f).toOption = x.toOption.map f := by
  cases x <;> rfl

theorem toOption_bind (x : Except ε α) (f : α → Except ε β) :
    (x >>= f).toOption = x.toOption.bind fun a => (f a).toOption := by
  cases x <;> rfl

theorem eq_ok_of_toOption (h : x.toOption = some a) : x = .ok a := by
  cases x with
  | error e => cases h
  | ok b => exact congrArg _ (Option.some.inj h)

/-! ### Success -/

theorem isOk_bind_iff {f : α → Except ε β} {p : Prop} (h : ∀ a, (f a).isOk ↔ p) :
    (x >>= f).isOk ↔ x.isOk ∧ p := by
  cases x with
  | error e => exact iff_of_false nofun fun hx => nomatch hx.1
  | ok a => exact (h a).trans (iff_and_self.mpr fun _ => rfl)

theorem isOk_map_iff (f : α → β) : (x.map f).isOk ↔ x.isOk := by
  cases x <;> rfl

theorem isOk_mapError_iff (f : ε → δ) : (x.mapError f).isOk ↔ x.isOk := by
  cases x <;> rfl

theorem isOk_mapM_iff {f : α → Except ε β} {as : List α} :
    (as.mapM f).isOk ↔ ∀ a ∈ as, (f a).isOk := by
  induction as with
  | nil => exact iff_of_true rfl nofun
  | cons a as ih =>
    have hmore (b : β) : (do let bs ← as.mapM f; pure (b :: bs)).isOk ↔ (as.mapM f).isOk :=
      isOk_map_iff (b :: ·)
    rw [List.mapM_cons, List.forall_mem_cons, ← ih]
    exact isOk_bind_iff hmore

end SettingsScan.Except
