import SettingsScan.Proofs.Pattern.Seek

/-! # Patterns that can not match

The first characters of a text often rule a match out. The check goes through the pattern with
what is known of these characters, and allows everything behind them.
-/

namespace SettingsScan.Pattern

/-- What is known of a character: the classes it may be in. -/
abbrev Hint := CharSet → Bool

namespace Hint

def exactly (c : Char) : Hint := fun s => s.contains c

def within (cs : List Char) : CharSet → Bool
  | .empty => true
  | .range a b => a = b && cs.contains a
  | .union a b => within cs a && within cs b
  | _ => false

def noneOf (cs : List Char) : Hint := fun s => !within cs s

/-- The character is in no other classes than the hint allows. -/
def Fits (hint : Hint) (c : Char) : Prop := ∀ s : CharSet, s.contains c → hint s

variable {c : Char} {cs : List Char} {s : CharSet}

theorem fits_exactly (c : Char) : (exactly c).Fits c := fun _ h => h

theorem fits_exactly_map (t : Text) : List.Forall₂ Fits (t.map exactly) t := by
  induction t with
  | nil => exact .nil
  | cons c t ih => exact .cons (fits_exactly c) ih

theorem mem_of_within (hw : within cs s) (hc : s.contains c) : c ∈ cs := by
  induction s with
  | empty => cases hc
  | range a b =>
    simp only [within, Bool.and_eq_true, decide_eq_true_eq, List.contains_iff_mem] at hw
    obtain ⟨rfl, ha⟩ := hw
    have hca := (CharSet.contains_single a c).symm.trans hc
    obtain rfl : c = a := by simpa using hca
    exact ha
  | union a b iha ihb =>
    simp only [within, Bool.and_eq_true] at hw
    rcases Bool.or_eq_true_iff.mp hc with hc | hc
    · exact iha hw.1 hc
    · exact ihb hw.2 hc
  | complement a _ => cases hw
  | foldCase a _ => cases hw

theorem fits_noneOf (h : c ∉ cs) : (noneOf cs).Fits c := by
  intro s hs
  by_contra hw
  exact h (mem_of_within (by simpa [noneOf] using hw) hs)

end Hint

namespace Step

variable {step : Step} {p : Place}

theorem loop_of_eq_nil (h : step p = []) (least : Nat) (most : Option Nat) (greedy : Bool) :
    loop least most greedy step p = if least = 0 then [p] else [] := by
  have ht (n : Nat) : times step (n + 1) p = [] := by simp [times, h]
  have ho : oneOrMore greedy step p = [] := by simp [oneOrMore, h]
  have hu (n : Nat) : upTo greedy step n p = [p] := by
    cases n <;> cases greedy <;> simp [upTo, orStay, h]
  cases most with
  | none =>
    cases least with
    | zero => cases greedy <;> simp [loop, ho, orStay]
    | succ n =>
      cases n with
      | zero => simp [loop, times, ho]
      | succ n => simp only [loop, ht]; rfl
  | some m =>
    cases least with
    | zero => simp [loop, times, hu]
    | succ n => simp only [loop, ht]; rfl

end Step

namespace Node

variable {β : Type} {n : Node} {p : Place} {t : List Hint} {u r : Text}

/-- Whether a match is possible behind which the rest may go on, as far as the hints tell. -/
def mayMatch : Node → (List Hint → Bool) → List Hint → Bool
  | empty, k, t => k t
  | one _, _, [] => true
  | one s, k, hint :: t => hint s && k t
  | look _, k, t => k t
  | group _ n, k, t => n.mayMatch k t
  | seq a b, k, t => a.mayMatch (b.mayMatch k) t
  | alt a b, k, t => a.mayMatch k t || b.mayMatch k t
  | loop least _ _ n, k, t => least = 0 && k t || n.mayMatch (fun _ => true) t

theorem seek_eq_none_of_mayMatch {k : List Hint → Bool} {f : Place → Option β}
    (h : n.mayMatch k t = false) (ht : List.Forall₂ Hint.Fits t u) (hp : p.rest = u ++ r)
    (hf : ∀ t u q, k t = false → List.Forall₂ Hint.Fits t u → q.rest = u ++ r → f q = none) :
    n.seek f p = none := by
  induction n generalizing β k f p t u with
  | empty => exact seek_empty.trans (hf t u p h ht hp)
  | one s =>
    cases ht with
    | nil => cases h
    | @cons hint c t u hc ht =>
      rw [seek_one_cons hp]
      split
      · rename_i hs
        simp only [mayMatch, hc s hs, Bool.true_and] at h
        exact hf t u _ h ht rfl
      · rfl
  | look c =>
    rw [seek_look]
    split
    · exact hf t u p h ht hp
    · rfl
  | group i n ih =>
    rw [seek_group]
    exact ih h ht hp fun t u q hk ht hq => hf t u _ hk ht hq
  | seq a b iha ihb =>
    rw [seek_seq]
    exact iha h ht hp fun t u q hk ht hq => ihb hk ht hq hf
  | alt a b iha ihb =>
    obtain ⟨ha, hb⟩ := Bool.or_eq_false_iff.mp h
    rw [seek_alt, iha ha ht hp hf, ihb hb ht hp hf]
    rfl
  | loop least most greedy n ih =>
    obtain ⟨hk, hn⟩ := Bool.or_eq_false_iff.mp h
    have hw : n.ways p = [] := by
      rw [← List.head?_eq_none_iff, head?_ways]
      exact ih (f := some) hn ht hp fun _ _ _ hk => nomatch hk
    rw [seek, ways, Step.loop_of_eq_nil hw]
    split
    · rename_i h0
      simp only [h0, decide_true, Bool.true_and] at hk
      simpa using hf t u p hk ht hp
    · rfl

end Node

end SettingsScan.Pattern
