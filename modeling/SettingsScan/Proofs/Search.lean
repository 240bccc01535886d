import Mathlib.Data.List.Forall2
import Mathlib.Order.Bounds.Basic

/-! # The first result of a search

Searches through a list for the first element that gives a result, and what their results have to
do with each other.
-/

namespace SettingsScan

/-! ### One search -/

section FirstResult

variable {α β γ : Type} {f g : α → Option β} {p : α → Bool} {l : List α}

theorem findSome?_cons (f : α → Option β) (x : α) (l : List α) :
    (x :: l).findSome? f = (f x).or (l.findSome? f) := by
  rw [← List.singleton_append, List.findSome?_append, List.findSome?_singleton]

theorem findSome?_flatMap (f : α → List γ) (k : γ → Option β) (l : List α) :
    (l.flatMap f).findSome? k = l.findSome? fun x => (f x).findSome? k := by
  induction l with
  | nil => rfl
  | cons x l ih => simp only [List.flatMap_cons, List.findSome?_append, ih, findSome?_cons]

theorem findSome?_congr (h : ∀ x ∈ l, f x = g x) : l.findSome? f = l.findSome? g := by
  induction l with
  | nil => rfl
  | cons x l ih =>
    rw [findSome?_cons, findSome?_cons, h x List.mem_cons_self,
      ih fun y hy => h y (List.mem_cons_of_mem x hy)]

theorem findSome?_eq_bind_find? (f : α → Option β) (l : List α) :
    l.findSome? f = (l.find? fun x => (f x).isSome).bind f := by
  induction l with
  | nil => rfl
  | cons x l ih =>
    rw [findSome?_cons, List.find?_cons]
    cases hx : f x with
    | some b => simp [hx]
    | none => simpa using ih

theorem findSome?_filter (h : ∀ x ∈ l, p x = false → f x = none) :
    (l.filter p).findSome? f = l.findSome? f := by
  induction l with
  | nil => rfl
  | cons x l ih =>
    have ih := ih fun y hy => h y (List.mem_cons_of_mem x hy)
    cases hx : p x with
    | true => rw [List.filter_cons_of_pos hx, findSome?_cons, findSome?_cons, ih]
    | false =>
      rw [List.filter_cons_of_neg (by simp [hx]), findSome?_cons, h x List.mem_cons_self hx, ih,
        Option.none_or]

end FirstResult

section OneResult

variable {α β : Type} {f : α → Option β} {l l' : List α} {b : β}

theorem findSome?_eq_some_iff_of_agree
    (ha : ∀ x ∈ l, ∀ y ∈ l, ∀ b c, f x = some b → f y = some c → b = c) :
    l.findSome? f = some b ↔ ∃ x ∈ l, f x = some b := by
  constructor
  · exact List.exists_of_findSome?_eq_some
  · rintro ⟨x, hx, hb⟩
    obtain ⟨c, hc⟩ := Option.isSome_iff_exists.mp
      (List.findSome?_isSome_iff.mpr ⟨x, hx, Option.isSome_of_eq_some hb⟩)
    obtain ⟨y, hy, hyc⟩ := List.exists_of_findSome?_eq_some hc
    rw [hc, ha x hx y hy b c hb hyc]

theorem agree_of_unique (hu : ∀ x ∈ l, ∀ y ∈ l, (f x).isSome → (f y).isSome → x = y) :
    ∀ x ∈ l, ∀ y ∈ l, ∀ b c, f x = some b → f y = some c → b = c := by
  intro x hx y hy b c hb hc
  obtain rfl := hu x hx y hy (Option.isSome_of_eq_some hb) (Option.isSome_of_eq_some hc)
  exact Option.some.inj (hb.symm.trans hc)

theorem findSome?_eq_some_iff_of_unique
    (hu : ∀ x ∈ l, ∀ y ∈ l, (f x).isSome → (f y).isSome → x = y) :
    l.findSome? f = some b ↔ ∃ x ∈ l, f x = some b :=
  findSome?_eq_some_iff_of_agree (agree_of_unique hu)

/-- Where all results are the same, the order of the elements does not matter. -/
theorem findSome?_perm_of_agree (h : l'.Perm l)
    (ha : ∀ x ∈ l, ∀ y ∈ l, ∀ b c, f x = some b → f y = some c → b = c) :
    l'.findSome? f = l.findSome? f := by
  have ha' : ∀ x ∈ l', ∀ y ∈ l', ∀ b c, f x = some b → f y = some c → b = c := fun x hx y hy =>
    ha x (h.mem_iff.mp hx) y (h.mem_iff.mp hy)
  ext b
  rw [findSome?_eq_some_iff_of_agree ha', findSome?_eq_some_iff_of_agree ha]
  exact exists_congr fun x => and_congr_left fun _ => h.mem_iff

/-- Where at most one element gives a result, the order of the elements does not matter. -/
theorem findSome?_perm (h : l'.Perm l)
    (hu : ∀ x ∈ l, ∀ y ∈ l, (f x).isSome → (f y).isSome → x = y) :
    l'.findSome? f = l.findSome? f :=
  findSome?_perm_of_agree h (agree_of_unique hu)

/-- In an ordered list the first result is that of the least element that gives one. -/
theorem findSome?_eq_some_iff_isLeast [PartialOrder α] (hl : l.Pairwise (· < ·)) :
    l.findSome? f = some b ↔ ∃ x, IsLeast {x | x ∈ l ∧ (f x).isSome} x ∧ f x = some b := by
  constructor
  · intro h
    obtain ⟨before, x, after, rfl, hx, hbefore⟩ := List.findSome?_eq_some_iff.mp h
    obtain ⟨-, hafter, -⟩ := List.pairwise_append.mp hl
    refine ⟨x, ⟨⟨by simp, Option.isSome_of_eq_some hx⟩, ?_⟩, hx⟩
    rintro y ⟨hy, hsome⟩
    rcases List.mem_append.mp hy with hy | hy
    · rw [hbefore y hy] at hsome
      cases hsome
    · rcases List.mem_cons.mp hy with rfl | hy
      · exact le_rfl
      · exact ((List.pairwise_cons.mp hafter).1 y hy).le
  · rintro ⟨x, ⟨⟨hx, -⟩, hleast⟩, hb⟩
    obtain ⟨before, after, rfl⟩ := List.append_of_mem hx
    obtain ⟨-, -, hlt⟩ := List.pairwise_append.mp hl
    refine List.findSome?_eq_some_iff.mpr ⟨before, x, after, rfl, hb, fun y hy => ?_⟩
    by_contra hsome
    have hle := hleast ⟨List.mem_append_left _ hy, Option.isSome_iff_ne_none.mpr hsome⟩
    exact (hlt y hy x List.mem_cons_self).not_ge hle

end OneResult

/-! ### Two searches -/

section TwoSearches

variable {α α' β γ : Type} {S : α → α' → Prop} {R : β → γ → Prop} {l : List α} {l' : List α'}

theorem exists_mem_of_forall₂ {b : α'} (h : List.Forall₂ S l l') (hb : b ∈ l') :
    ∃ a ∈ l, S a b := by
  induction h with
  | nil => cases hb
  | @cons a b l l' hab _ ih =>
    rcases List.mem_cons.mp hb with rfl | hb
    · exact ⟨a, List.mem_cons_self, hab⟩
    · obtain ⟨a, ha, hab⟩ := ih hb
      exact ⟨a, List.mem_cons_of_mem _ ha, hab⟩

theorem rel_or {a a' : Option β} {b b' : Option γ} (h : Option.Rel R a b)
    (h' : Option.Rel R a' b') : Option.Rel R (a.or a') (b.or b') := by
  cases h with
  | some h => exact .some h
  | none => exact h'

theorem rel_map {β' γ' : Type} {R' : β' → γ' → Prop} {f : β → β'} {g : γ → γ'} {a : Option β}
    {b : Option γ} (h : Option.Rel R a b) (hR : ∀ x y, R x y → R' (f x) (g y)) :
    Option.Rel R' (a.map f) (b.map g) := by
  cases h with
  | some h => exact .some (hR _ _ h)
  | none => exact .none

theorem rel_findSome?_of_forall₂ {f : α → Option β} {g : α' → Option γ} (h : List.Forall₂ S l l')
    (hf : ∀ a b, S a b → Option.Rel R (f a) (g b)) :
    Option.Rel R (l.findSome? f) (l'.findSome? g) := by
  induction h with
  | nil => exact .none
  | cons hab _ ih =>
    rw [findSome?_cons, findSome?_cons]
    exact rel_or (hf _ _ hab) ih

theorem rel_findSome? {f : α → Option β} {g : α → Option γ}
    (h : ∀ x ∈ l, Option.Rel R (f x) (g x)) : Option.Rel R (l.findSome? f) (l.findSome? g) :=
  rel_findSome?_of_forall₂ (List.forall₂_same.mpr h) fun _ _ => id

theorem forall₂_zipIdx (h : List.Forall₂ S l l') (k : Nat) :
    List.Forall₂ (fun a b => S a.1 b.1 ∧ a.2 = b.2) (l.zipIdx k) (l'.zipIdx k) := by
  induction h generalizing k with
  | nil => exact .nil
  | cons hab _ ih => exact .cons ⟨hab, rfl⟩ (ih (k + 1))

end TwoSearches

/-- One function gives more results than another one. The first results are the same unless one of
the others comes before all that both give. -/
theorem findSome?_eq_iff {α β : Type} {R : α → α → Prop} {f g : α → Option β} {l : List α}
    (hR : l.Pairwise R) (hasymm : ∀ x y, R x y → ¬ R y x)
    (hg : ∀ x ∈ l, (g x).isSome → f x = g x)
    (hfg : ∀ x ∈ l, ∀ y ∈ l, ∀ b, f x = some b → g y = some b → x = y) :
    l.findSome? f = l.findSome? g ↔
      ¬ ∃ x ∈ l, (f x).isSome ∧ ∀ y ∈ l, (g y).isSome → R x y := by
  induction l with
  | nil => simp
  | cons a l ih =>
    obtain ⟨ha, hR⟩ := List.pairwise_cons.mp hR
    have ih := ih hR (fun x hx => hg x (List.mem_cons_of_mem a hx)) fun x hx y hy =>
      hfg x (List.mem_cons_of_mem a hx) y (List.mem_cons_of_mem a hy)
    rw [findSome?_cons, findSome?_cons]
    cases hga : g a with
    | some b =>
      have hfa := hg a List.mem_cons_self (Option.isSome_of_eq_some hga)
      rw [hfa, hga, Option.some_or]
      refine iff_of_true rfl ?_
      rintro ⟨x, hx, -, hbefore⟩
      have hxa := hbefore a List.mem_cons_self (Option.isSome_of_eq_some hga)
      rcases List.mem_cons.mp hx with rfl | hx
      · exact hasymm x x hxa hxa
      · exact hasymm a x (ha x hx) hxa
    | none =>
      cases hfa : f a with
      | some b =>
        refine iff_of_false ?_ ?_
        · rw [Option.some_or, Option.none_or]
          intro h
          obtain ⟨y, hy, hgy⟩ := List.exists_of_findSome?_eq_some h.symm
          obtain rfl := hfg a List.mem_cons_self y (List.mem_cons_of_mem a hy) b hfa hgy
          simp [hga] at hgy
        · rw [not_not]
          refine ⟨a, List.mem_cons_self, Option.isSome_of_eq_some hfa, fun y hy hgy => ?_⟩
          rcases List.mem_cons.mp hy with rfl | hy
          · simp [hga] at hgy
          · exact ha y hy
      | none =>
        rw [Option.none_or, Option.none_or, ih]
        simp [hfa, hga]

end SettingsScan
