import SettingsScan.CommandLine
import SettingsScan.Proofs.Pattern.Opening

/-! # The form that takes an argument

The rules of a dialect are tried as one list of forms. The first characters of an argument leave
few of them, often those of one option, and none for a word that is not an option.
-/

namespace SettingsScan

open Pattern (Hint)

namespace OptionMatcher

variable {m : OptionMatcher} {input u : Text}

/-- Whether something can be taken, as far as the hints on the first characters tell. -/
def mayTake (m : OptionMatcher) (hints : List Hint) : Bool :=
  m.node.mayMatch (fun _ => true) hints

theorem lookingAt_eq_none (h : m.node.match? input = none) : m.lookingAt input = none := by
  simp [lookingAt, h]

theorem lookingAt_eq_none_of_mayTake {hints : List Hint} (h : m.mayTake hints = false)
    (hu : List.Forall₂ Hint.Fits hints u) (r : Text) : m.lookingAt (u ++ r) = none := by
  refine lookingAt_eq_none ?_
  rw [Pattern.Node.match?_eq_seek]
  exact Pattern.Node.seek_eq_none_of_mayMatch h hu rfl fun _ _ _ hk => nomatch hk

end OptionMatcher

def Dialect.forms (d : Dialect) : List (OptionMeaning × OptionMatcher) :=
  d.rules.flatMap fun rule => rule.matchers.map fun m => (rule.meaning, m)

def OptionMeaning.taken (meaning : OptionMeaning) (directory : Text) (m : OptionMatch) : Taken where
  findings := meaning.findings directory m
  taken := m.taken
  rest := m.rest

theorem Dialect.findSome?_rules (d : Dialect) (directory args : Text) :
    d.rules.findSome? (·.take? directory args) =
      d.forms.findSome? fun form => (form.2.lookingAt args).map (form.1.taken directory) := by
  rw [forms, findSome?_flatMap]
  congr 1
  funext rule
  rw [List.findSome?_map, OptionRule.take?, List.map_findSome?]
  rfl

namespace ArgumentReader

variable {d : Dialect} {directory : Text} {hints : List Hint} {u r : Text}
  {meaning : OptionMeaning} {matchers : List OptionMatcher} {m : OptionMatch}

theorem findSome?_rules_of_forms (hu : List.Forall₂ Hint.Fits hints u) :
    d.rules.findSome? (·.take? directory (u ++ r)) =
      (d.forms.filter (·.2.mayTake hints)).findSome? fun form =>
        (form.2.lookingAt (u ++ r)).map (form.1.taken directory) := by
  rw [d.findSome?_rules, findSome?_filter]
  intro form _ hf
  rw [OptionMatcher.lookingAt_eq_none_of_mayTake hf hu, Option.map_none]

/-- An argument whose first characters leave the forms of one option. -/
theorem takeOne_of_forms (responseFiles : Bool) (directory : Text) (expand : Text → Parsed)
    (hu : List.Forall₂ Hint.Fits hints u)
    (hf : d.forms.filter (·.2.mayTake hints) = matchers.map fun m => (meaning, m))
    (hm : matchers.findSome? (·.lookingAt (u ++ r)) = some m) :
    takeOne d.rules responseFiles directory expand (u ++ r) =
      { parsed := { findings := meaning.findings directory m }, taken := m.taken,
        rest := m.rest } := by
  have ht : d.rules.findSome? (·.take? directory (u ++ r)) = some (meaning.taken directory m) := by
    have hm := congrArg (Option.map (meaning.taken directory)) hm
    rw [List.map_findSome?] at hm
    rw [findSome?_rules_of_forms hu, hf, List.findSome?_map]
    exact hm
  rw [takeOne, ht]
  rfl

theorem takeOne_skip (responseFiles : Bool) (directory : Text) (expand : Text → Parsed)
    (hu : List.Forall₂ Hint.Fits hints u)
    (hf : d.forms.filter (·.2.mayTake hints) = [])
    (ha : ResponseFile.atSign.filter (·.mayTake hints) = []) :
    takeOne d.rules responseFiles directory expand (u ++ r) =
      { parsed := {}, taken := Text.firstWord (u ++ r),
        rest := (u ++ r).dropWhile (!isBlank ·) } := by
  have ht : d.rules.findSome? (·.take? directory (u ++ r)) = none := by
    rw [findSome?_rules_of_forms hu, hf, List.findSome?_nil]
  have hr : ResponseFile.recognize? ResponseFile.atSign directory (u ++ r) = none := by
    rw [ResponseFile.recognize?, ← findSome?_filter fun m _ hm =>
      OptionMatcher.lookingAt_eq_none_of_mayTake hm hu r, ha]
    rfl
  rw [takeOne, ht]
  simp only [hr, ite_self]

end ArgumentReader

end SettingsScan
