import SettingsScan.Proofs.Pattern.Image
import SettingsScan.Proofs.Pattern.Seek

/-! # Searching for a pattern

A search tries the pattern at one place after the other, from the left. A pattern that is tied to
the start of the text matches there or nowhere, so the search finds what a match at the start does.
-/

namespace SettingsScan.Pattern

/-! ### Other numbers for the groups -/

namespace Place

def shift (k : Nat) (p : Place) : Place :=
  { p with spans := p.spans.map fun (index, span) => (k + index, span) }

theorem shift_start (k : Nat) (t : Text) : (start t).shift k = start t := rfl

theorem isLevel_shift (k : Nat) : IsLevel (shift k) :=
  ⟨fun _ => rfl, fun _ => rfl⟩

/-- The whole match, from the start of the text, is the first group in front of the others. -/
theorem group?_shift_close (t : Text) (i : Nat) (p : Place) :
    ((p.shift 1).close 1 0).group? t (i + 1) = p.group? t i := by
  unfold group?
  rw [if_neg i.succ_ne_zero, spans_close]
  by_cases hi : i = 0
  · subst hi
    rw [if_pos rfl, List.find?_cons_of_pos (by simp)]
    rfl
  · have hne : ¬ 1 = i + 1 := fun h => hi (Nat.succ.inj h).symm
    have hspans : (p.shift 1).spans.find? (·.1 = i + 1) =
        (p.spans.find? (·.1 = i)).map fun (index, span) => (1 + index, span) := by
      have hcomm (j : Nat) : 1 + j = i + 1 ↔ j = i := by omega
      rw [shift, List.find?_map]
      simp only [Function.comp_def, hcomm]
    rw [if_neg hi, List.find?_cons_of_neg (by simpa using hne), hspans, Option.map_map]
    rfl

end Place

namespace Node

variable {β : Type} {n : Node} {k : Place → Option β} {p : Place} {t : Text}

/-- With other numbers for its groups a pattern goes the same ways. -/
theorem carries_ways_shift (k : Nat) (n : Node) :
    Step.Carries (Place.shift k) n.ways (n.shift k).ways := by
  induction n with
  | empty => exact Step.carries_stay
  | one set =>
    intro p
    cases hr : p.rest with
    | nil => rw [shift, ways_one_nil set (p.shift k) hr, ways_one_nil set p hr, List.map_nil]
    | cons c rest =>
      rw [shift, ways_one_cons set (p.shift k) c rest hr, ways_one_cons set p c rest hr,
        apply_ite (List.map (Place.shift k))]
      rfl
  | look condition =>
    intro p
    rw [shift, ways, ways, apply_ite (List.map (Place.shift k))]
    rfl
  | group index body ih =>
    intro p
    rw [shift, ways_group, ih p, ways_group, List.map_map, List.map_map]
    rfl
  | seq a b iha ihb =>
    intro p
    rw [shift, ways_seq, iha p, ihb.flatMap, ways_seq]
  | alt a b iha ihb =>
    intro p
    rw [shift, ways_alt, iha p, ihb p, ways_alt, List.map_append]
  | loop least most greedy body ih => exact ih.loop (Place.isLevel_shift k) least most

theorem match?_shift (k : Nat) (n : Node) (t : Text) :
    (n.shift k).match? t = (n.match? t).map (Place.shift k) := by
  rw [match?, ← Place.shift_start k, n.carries_ways_shift k, List.head?_map, match?]

/-! ### The places from the left -/

theorem seek_lazy_all :
    (loop 0 none false (one .all)).seek k p = (List.range (p.rest.length + 1)).findSome? fun i =>
      k (p.after (p.rest.take i) (p.rest.drop i)) := by
  induction h : p.rest generalizing p with
  | nil =>
    have hstay : p.after [] [] = p := h ▸ p.after_nil
    rw [seek_lazy (productive_one _), seek_one_nil h, Option.or_none]
    simp [hstay]
  | cons c rest ih =>
    have hstay : p.after [] (c :: rest) = p := h ▸ p.after_nil
    have hall : CharSet.all.contains c := rfl
    rw [List.length_cons, List.range_succ_eq_map, findSome?_cons, List.findSome?_map,
      List.take_zero, List.drop_zero, hstay, seek_lazy (productive_one _), seek_one_cons h,
      if_pos hall, ih (Place.rest_after p [c] rest)]
    simp only [Place.after_after]
    rfl

/-- A search finds the first match at the first place that has one. -/
theorem match?_leftmost (n : Node) (t : Text) :
    n.leftmost.match? t = (List.range (t.length + 1)).findSome? fun i =>
      ((n.shift 1).ways ((Place.start t).after (t.take i) (t.drop i))).head?.map
        (Place.close 1 i) := by
  rw [match?_eq_seek, leftmost, seek_seq, seek_lazy_all]
  refine findSome?_congr fun i hi => ?_
  have hle : i ≤ t.length := Nat.le_of_lt_succ (List.mem_range.mp hi)
  rw [← head?_ways, ways_group, List.head?_map]
  simp [Place.start, hle]

/-! ### Patterns tied to the start -/

def atStart (n : Node) : Node :=
  seq (look .textStart) n

theorem ways_atStart (n : Node) (p : Place) :
    n.atStart.ways p = if p.last = none then n.ways p else [] := by
  rw [atStart, ways_seq, ways]
  simp only [Look.holds, Option.isNone_iff_eq_none]
  split <;> simp

theorem match?_atStart (n : Node) (t : Text) : n.atStart.match? t = n.match? t := by
  rw [match?, ways_atStart, if_pos (show (Place.start t).last = none from rfl), match?]

/-- A search for a pattern that is tied to the start finds the match at the start. -/
theorem match?_leftmost_atStart (n : Node) (t : Text) :
    n.atStart.leftmost.match? t = (n.match? t).map fun q => (q.shift 1).close 1 0 := by
  have hlater : ∀ i ∈ List.range t.length, (n.atStart.shift 1).ways
      ((Place.start t).after (t.take (i + 1)) (t.drop (i + 1))) = [] := by
    intro i hi
    have hne : t.take (i + 1) ≠ [] := by
      have hlt := List.mem_range.mp hi
      rw [← List.length_pos_iff, List.length_take]
      omega
    have hlast : ((Place.start t).after (t.take (i + 1)) (t.drop (i + 1))).last ≠ none := by
      simp [Place.after, hne]
    change (n.shift 1).atStart.ways _ = []
    rw [ways_atStart, if_neg hlast]
  have hstart : ((n.atStart.shift 1).ways ((Place.start t).after [] t)).head? =
      (n.match? t).map (Place.shift 1) := by
    rw [← match?_shift, ← match?_atStart]
    rfl
  have hnone : (List.range t.length).findSome? (fun i => ((n.atStart.shift 1).ways
      ((Place.start t).after (t.take (i + 1)) (t.drop (i + 1)))).head?.map
        (Place.close 1 (i + 1))) = none :=
    List.findSome?_eq_none_iff.mpr fun i hi => by rw [hlater i hi]; rfl
  rw [match?_leftmost, List.range_succ_eq_map, findSome?_cons, List.findSome?_map,
    List.take_zero, List.drop_zero, hstart, Function.comp_def, hnone, Option.or_none, Option.map_map]
  rfl

end Node

end SettingsScan.Pattern
