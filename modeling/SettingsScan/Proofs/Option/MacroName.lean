import SettingsScan.Option.Spelling
import SettingsScan.Proofs.Pattern.Seek

/-! # Names of macros

A name is taken as a whole, with its parameters, if what follows can not go on in the middle of
it. This is how each spelling of a definition is read up to the end of the name.
-/

namespace SettingsScan.Spelling

open Pattern (CharSet Node Place)
open Pattern.Node

theorem nameChar_iff {c : Char} :
    nameChar.contains c ↔ (48 ≤ c.toNat ∧ c.toNat ≤ 57) ∨ (65 ≤ c.toNat ∧ c.toNat ≤ 90) ∨
      c.toNat = 95 ∨ (97 ≤ c.toNat ∧ c.toNat ≤ 122) ∨ c.toNat = 36 := by
  have hle (a b : Char) : decide (a ≤ b) = decide (a.toNat ≤ b.toNat) := rfl
  simp only [nameChar, CharSet.word, CharSet.ofRanges, CharSet.contains, List.foldr_cons,
    List.foldr_nil, CharSet.single, Bool.or_eq_true, Bool.and_eq_true, decide_eq_true_eq, hle,
    Char.reduceToNat, Bool.false_eq_true, or_false]
  omega

theorem not_isBlank_of_nameChar {c : Char} (h : nameChar.contains c) : isBlank c = false := by
  have h := nameChar_iff.mp h
  simp only [isBlank, blankRanges, List.any_cons, List.any_nil, Bool.or_false, Bool.or_eq_false_iff,
    Bool.and_eq_false_iff, decide_eq_false_iff_not]
  omega

def Identifier (t : Text) : Prop :=
  t ≠ [] ∧ ∀ c ∈ t, nameChar.contains c

inductive MacroName : Text → Prop
  | word {t : Text} : Identifier t → MacroName t
  | withParameters {t list : Text} : Identifier t → (∀ c ∈ list, parameterChar.contains c) →
      MacroName (t ++ '(' :: list ++ [')'])

/-- The characters inside a name at which its first word or its parameters go on. -/
def nameGoesOn : CharSet := .union nameChar (.single '(')

theorem MacroName.exists_cons {n : Text} (h : MacroName n) :
    ∃ c t, n = c :: t ∧ nameChar.contains c := by
  cases h with
  | word h =>
    obtain ⟨c, t, rfl⟩ := List.exists_cons_of_ne_nil h.1
    exact ⟨c, t, rfl, h.2 c List.mem_cons_self⟩
  | withParameters h _ =>
    obtain ⟨c, t, rfl⟩ := List.exists_cons_of_ne_nil h.1
    exact ⟨c, _, rfl, h.2 c List.mem_cons_self⟩

variable {β : Type} {k : Place → Option β} {p : Place} {n r : Text}

theorem seek_identifier (h : Identifier n) (hp : p.rest = n ++ r)
    (hr : r.head?.any nameChar.contains = false)
    (hk : ∀ q, q.rest.head?.any nameChar.contains → k q = none) :
    identifier.seek k p = k ((p.after n r).close 1 p.passed) := by
  rw [identifier, seek_group]
  exact seek_some_one hp h.1 h.2 hr fun q hq => hk _ hq

theorem seek_parameters {list : Text} (hl : ∀ c ∈ list, parameterChar.contains c)
    (hp : p.rest = '(' :: list ++ ')' :: r) :
    (concat [char '(', many (one parameterChar), char ')']).seek k p =
      k (p.after ('(' :: list ++ [')']) r) := by
  rw [seek_concat_cons, seek_char_cons hp, seek_concat_cons, seek_many_one rfl hl (by rfl)]
  · rw [concat, seek_char_cons rfl]
    simp
  · intro q hq
    refine seek_char_eq_none fun h => ?_
    rw [h] at hq
    revert hq
    decide

theorem seek_macroName_eq_none (h : p.rest.head?.any nameChar.contains = false) :
    macroName.seek k p = none := by
  rw [macroName, seek_group, seek_seq, seek_some (productive_one _), seek_one_eq_none h]

theorem seek_identifier_eq_none (h : p.rest.head?.any nameChar.contains = false) :
    identifier.seek k p = none := by
  rw [identifier, seek_group, seek_some (productive_one _), seek_one_eq_none h]

theorem seek_macroName (h : MacroName n) (hp : p.rest = n ++ r)
    (hr : r.head?.any nameGoesOn.contains = false)
    (hk : ∀ q, q.rest.head?.any nameGoesOn.contains → k q = none) :
    macroName.seek k p = k ((p.after n r).close 1 p.passed) := by
  have goesOn {o : Option Char} (ho : o.any nameChar.contains) : o.any nameGoesOn.contains := by
    cases o with
    | none => cases ho
    | some c => exact Bool.or_eq_true_iff.mpr (.inl ho)
  -- within the word neither the parameters nor what follows the name can go on
  have stuck (q : Place) (hq : q.rest.head?.any nameChar.contains) :
      (opt (concat [char '(', many (one parameterChar), char ')'])).seek
        (fun u => k (u.close 1 p.passed)) q = none := by
    rw [seek_opt, seek_concat_cons, seek_char_eq_none,
      hk (q.close 1 p.passed) (goesOn hq), Option.none_or]
    intro h
    rw [h] at hq
    revert hq
    decide
  rw [macroName, seek_group, seek_seq]
  cases h with
  | word h =>
    rw [seek_some_one hp h.1 h.2 (r := r), seek_opt, seek_concat_cons, seek_char_eq_none,
      Option.none_or]
    · intro h
      rw [Place.rest_after] at h
      rw [h] at hr
      revert hr
      decide
    · exact Bool.eq_false_iff.mpr fun h => by simp [goesOn h] at hr
    · exact stuck
  | @withParameters t list h hl =>
    have hp : p.rest = t ++ ('(' :: list ++ ')' :: r) := by simpa using hp
    rw [seek_some_one hp h.1 h.2 (by rfl) stuck, seek_opt, seek_parameters hl rfl,
      hk ((p.after t _).close 1 p.passed) rfl, Option.or_none]
    simp

end SettingsScan.Spelling
