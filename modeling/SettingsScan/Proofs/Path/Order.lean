import Mathlib.Data.List.Basic
import SettingsScan.Report.Resource

/-! # The order of paths and resources

A path is ordered by its components, and a resource by its kind and then its path. Both orders are
the lexicographic order of a key, so they are linear up to the way a path is spelled. Which of two
resources comes first is also said without the keys.
-/

namespace SettingsScan

namespace Path

def Component.key : Component → List Nat
  | normal name => 3 :: name.map Char.toNat
  | c => [c.rank]

def key (path : Text) : List (List Nat) :=
  (components path).map Component.key

theorem compareText_eq (s t : Text) :
    compareText s t = Ord.compare (s.map Char.toNat) (t.map Char.toNat) := by
  induction s generalizing t with
  | nil => cases t <;> rfl
  | cons a s ih =>
    cases t with
    | nil => rfl
    | cons b t => rw [compareText, ih, List.map_cons, List.map_cons, List.compare_cons_cons]

theorem Component.compare_eq (a b : Component) : a.compare b = Ord.compare a.key b.key := by
  cases a with
  | normal s =>
    cases b with
    | normal t =>
      rw [Component.compare, Component.key, Component.key, List.compare_cons_cons, compareText_eq]
      rfl
    | _ => rfl
  | _ => cases b <;> rfl

theorem compareComponents_eq (s t : List Component) :
    compareComponents s t = Ord.compare (s.map Component.key) (t.map Component.key) := by
  induction s generalizing t with
  | nil => cases t <;> rfl
  | cons a s ih =>
    cases t with
    | nil => rfl
    | cons b t =>
      rw [compareComponents, ih, Component.compare_eq, List.map_cons, List.map_cons,
        List.compare_cons_cons]

theorem compare_eq (a b : Text) : compare a b = Ord.compare (key a) (key b) :=
  compareComponents_eq _ _

theorem Component.key_injective : Function.Injective Component.key := by
  intro a b h
  cases a <;> cases b <;> simp [Component.key, Component.rank] at h ⊢
  exact List.map_injective_iff.mpr (fun _ _ => Char.toNat_inj.mp) h

theorem compare_eq_eq_iff {a b : Text} : compare a b = .eq ↔ components a = components b := by
  rw [compare_eq, Std.LawfulEqCmp.compare_eq_iff_eq]
  exact (List.map_injective_iff.mpr Component.key_injective).eq_iff

theorem Component.compare_eq_eq_iff {a b : Component} : a.compare b = .eq ↔ a = b := by
  rw [Component.compare_eq, Std.LawfulEqCmp.compare_eq_iff_eq]
  exact key_injective.eq_iff

/-- The root comes first, then `.`, then `..`, and then the names by the codes of their
characters. -/
inductive Component.Before : Component → Component → Prop
  | root_current : Before root current
  | root_parent : Before root parent
  | root_normal (name : Text) : Before root (normal name)
  | current_parent : Before current parent
  | current_normal (name : Text) : Before current (normal name)
  | parent_normal (name : Text) : Before parent (normal name)
  | normal_normal {s t : Text} : List.Lex (·.toNat < ·.toNat) s t → Before (normal s) (normal t)

/-- The first different component decides, and a path comes before those below it. -/
def Before (a b : Text) : Prop :=
  List.Lex Component.Before (components a) (components b)

theorem compareText_eq_lt_iff {s t : Text} :
    compareText s t = .lt ↔ List.Lex (·.toNat < ·.toNat) s t := by
  induction s generalizing t with
  | nil => cases t <;> simp [compareText]
  | cons a s ih =>
    cases t with
    | nil => simp [compareText]
    | cons b t =>
      rw [compareText, Ordering.then_eq_lt, ih, List.cons_lex_cons_iff, Nat.compare_eq_lt,
        Nat.compare_eq_eq, Char.toNat_inj]

theorem Component.compare_eq_lt_iff {a b : Component} : a.compare b = .lt ↔ a.Before b := by
  constructor
  · intro h
    cases a <;> cases b <;> first | constructor | cases h
    exact compareText_eq_lt_iff.mp h
  · rintro (_ | _ | _ | _ | _ | _ | h)
    all_goals first | rfl | exact compareText_eq_lt_iff.mpr h

theorem compareComponents_eq_lt_iff {s t : List Component} :
    compareComponents s t = .lt ↔ List.Lex Component.Before s t := by
  induction s generalizing t with
  | nil => cases t <;> simp [compareComponents]
  | cons a s ih =>
    cases t with
    | nil => simp [compareComponents]
    | cons b t =>
      rw [compareComponents, Ordering.then_eq_lt, ih, List.cons_lex_cons_iff,
        Component.compare_eq_lt_iff, Component.compare_eq_eq_iff]

end Path

namespace Resource

def key : Resource → List (List Nat)
  | file path => [0] :: Path.key path
  | folder path => [1] :: Path.key path
  | project => [[2]]

theorem compare_eq (a b : Resource) : a.compare b = Ord.compare a.key b.key := by
  cases a with
  | file p =>
    cases b with
    | file q => rw [compare, Path.compare_eq, key, key, List.compare_cons_cons]; rfl
    | _ => rfl
  | folder p =>
    cases b with
    | folder q => rw [compare, Path.compare_eq, key, key, List.compare_cons_cons]; rfl
    | _ => rfl
  | project => cases b <;> rfl

instance : Std.TransCmp compare where
  eq_swap {a b} := by
    rw [compare_eq, compare_eq]
    exact Std.OrientedCmp.eq_swap
  isLE_trans {a b c} hab hbc := by
    rw [compare_eq] at hab hbc ⊢
    exact Std.TransCmp.isLE_trans hab hbc

/-- Two resources are the same one if they are of one kind and their paths have the same
components. -/
def Same : Resource → Resource → Prop
  | file p, file q => Path.components p = Path.components q
  | folder p, folder q => Path.components p = Path.components q
  | project, project => True
  | _, _ => False

theorem compare_eq_eq_iff {a b : Resource} : a.compare b = .eq ↔ a.Same b := by
  cases a with
  | file p =>
    cases b with
    | file q => exact Path.compare_eq_eq_iff
    | _ => simp [compare, Same, rank]
  | folder p =>
    cases b with
    | folder q => exact Path.compare_eq_eq_iff
    | _ => simp [compare, Same, rank]
  | project => cases b <;> simp [compare, Same, rank]

/-- Files come before folders and folders before the project, and those of one kind go by their
paths. -/
inductive Before : Resource → Resource → Prop
  | file_file {p q : Text} : Path.Before p q → Before (file p) (file q)
  | file_folder (p q : Text) : Before (file p) (folder q)
  | file_project (p : Text) : Before (file p) project
  | folder_folder {p q : Text} : Path.Before p q → Before (folder p) (folder q)
  | folder_project (p : Text) : Before (folder p) project

theorem compare_eq_lt_iff {a b : Resource} : a.compare b = .lt ↔ a.Before b := by
  constructor
  · intro h
    cases a <;> cases b <;> first | constructor | cases h
    all_goals exact Path.compareComponents_eq_lt_iff.mp h
  · rintro (h | _ | _ | h | _)
    all_goals first | rfl | exact Path.compareComponents_eq_lt_iff.mpr h

instance : DecidableRel Same := fun _ _ => decidable_of_iff _ compare_eq_eq_iff

theorem Same.refl (a : Resource) : a.Same a :=
  compare_eq_eq_iff.mp Std.ReflCmp.compare_self

theorem Same.symm {a b : Resource} (h : a.Same b) : b.Same a := by
  rw [← compare_eq_eq_iff] at h ⊢
  exact Std.OrientedCmp.eq_symm h

theorem Same.trans {a b c : Resource} (h : a.Same b) (h' : b.Same c) : a.Same c := by
  rw [← compare_eq_eq_iff] at h h' ⊢
  exact Std.TransCmp.eq_trans h h'

end Resource

end SettingsScan
