import Mathlib.Data.List.TakeWhile
import SettingsScan.Proofs.Pattern.Ways
import SettingsScan.Proofs.Search

/-! # The first way that can go on

The match of a sequence is found by asking what follows at each way of its first part. Read this
way, a pattern is evaluated from the left, and a loop over a class of characters stops at the end
of their run if nothing else can go on within it.
-/

namespace SettingsScan

namespace Pattern

namespace Node

variable {β : Type} {n a b : Node} {k : Place → Option β} {p q : Place} {s : CharSet}
  {t r : Text}

/-- What the first way gives that can go on. -/
def seek (n : Node) (k : Place → Option β) (p : Place) : Option β :=
  (n.ways p).findSome? k

theorem head?_ways (n : Node) (p : Place) : (n.ways p).head? = n.seek some p := by
  unfold seek
  cases n.ways p <;> rfl

theorem match?_eq_seek (n : Node) (t : Text) : n.match? t = n.seek some (Place.start t) :=
  n.head?_ways _

theorem seek_eq_none_of_ways (h : n.ways p = []) : n.seek k p = none := by
  simp [seek, h]

theorem exists_of_seek_eq_some {x : β} (h : n.seek k p = some x) :
    ∃ q ∈ n.ways p, k q = some x :=
  List.exists_of_findSome?_eq_some h

theorem seek_eq_none (h : ∀ q, p.Reaches q → k q = none) : n.seek k p = none :=
  List.findSome?_eq_none_iff.mpr fun q hq => h q (n.forward_ways p q hq)

@[simp] theorem seek_empty : empty.seek k p = k p := by
  simp [seek, ways_empty]

theorem seek_seq : (seq a b).seek k p = a.seek (b.seek k) p := by
  rw [seek, ways_seq, findSome?_flatMap]
  rfl

theorem seek_alt : (alt a b).seek k p = (a.seek k p).or (b.seek k p) := by
  simp [seek, ways_alt]

theorem seek_group (i : Nat) :
    (group i n).seek k p = n.seek (fun q => k (q.close i p.passed)) p := by
  simp [seek, ways_group, List.findSome?_map, Function.comp_def]

theorem seek_one_cons {c : Char} (h : p.rest = c :: r) :
    (one s).seek k p = if s.contains c then k (p.after [c] r) else none := by
  unfold seek
  rw [ways_one_cons s p c r h]
  split
  · simp [Place.advance_eq_after]
  · rfl

theorem seek_one_nil (h : p.rest = []) : (one s).seek k p = none :=
  seek_eq_none_of_ways (ways_one_nil s p h)

theorem seek_one_eq_none (h : p.rest.head?.any s.contains = false) : (one s).seek k p = none := by
  cases hr : p.rest with
  | nil => exact seek_one_nil hr
  | cons c r =>
    rw [hr] at h
    rw [seek_one_cons hr, if_neg (by simpa using h)]

theorem seek_char_eq_none {c : Char} (h : p.rest.head? ≠ some c) : (char c).seek k p = none := by
  refine seek_one_eq_none ?_
  cases hr : p.rest with
  | nil => rfl
  | cons d t => simpa [hr] using h

theorem seek_char_cons {c : Char} (h : p.rest = c :: r) :
    (char c).seek k p = k (p.after [c] r) := by
  rw [char, seek_one_cons h, if_pos (by simp)]

theorem seek_look (c : Look) :
    (look c).seek k p = if c.holds p.last p.rest.head? then k p else none := by
  simp only [seek, ways]
  split <;> simp

theorem seek_concat_cons (ns : List Node) :
    (concat (n :: ns)).seek k p = n.seek ((concat ns).seek k) p := by
  cases ns with
  | nil =>
    have h : (concat []).seek k = k := funext fun q => seek_empty
    rw [h]
    rfl
  | cons m ns => exact seek_seq

theorem seek_opt : (opt n).seek k p = (n.seek k p).or (k p) := by
  rw [opt, seek, ways, Step.loop_zero_one]
  simp [Step.orStay, seek]

/-! ### Loops -/

theorem seek_many (h : Step.Productive n.ways) :
    (many n).seek k p = (n.seek ((many n).seek k) p).or (k p) := by
  rw [many, seek, ways, h.loop_eq n.forward_ways]
  simp only [Step.orStay, if_true, List.findSome?_append, findSome?_flatMap,
    List.findSome?_singleton]
  rfl

theorem seek_some (h : Step.Productive n.ways) :
    (some_ n).seek k p = n.seek ((many n).seek k) p := by
  rw [some_, seek, ways, h.loop_one_eq n.forward_ways, findSome?_flatMap]
  rfl

theorem seek_lazy (h : Step.Productive n.ways) :
    (loop 0 none false n).seek k p = (k p).or (n.seek ((loop 0 none false n).seek k) p) := by
  rw [seek, ways, h.loop_eq n.forward_ways]
  simp only [Step.orStay, Bool.false_eq_true, if_false, findSome?_cons, findSome?_flatMap]
  rfl

/-- A greedy loop goes to the end of a run if nothing can go on within it. -/
theorem seek_many_one (hp : p.rest = t ++ r) (ht : ∀ c ∈ t, s.contains c)
    (hr : r.head?.any s.contains = false)
    (hk : ∀ q, q.rest.head?.any s.contains → k q = none) :
    (many (one s)).seek k p = k (p.after t r) := by
  induction t generalizing p with
  | nil =>
    obtain rfl : p.rest = r := hp
    rw [seek_many (productive_one s), seek_one_eq_none hr, Option.none_or, Place.after_nil]
  | cons c t ih =>
    rw [seek_many (productive_one s), seek_one_cons hp, if_pos (ht c List.mem_cons_self),
      ih rfl fun d hd => ht d (List.mem_cons_of_mem c hd), Place.after_after,
      hk p (by simp [hp, ht c]), Option.or_none]
    rfl

/-- A greedy loop goes to the end of a run if what follows can go on there. -/
theorem seek_many_one_of_some {x : β} (hp : p.rest = t ++ r) (ht : ∀ c ∈ t, s.contains c)
    (hr : r.head?.any s.contains = false) (hk : k (p.after t r) = some x) :
    (many (one s)).seek k p = some x := by
  induction t generalizing p with
  | nil =>
    obtain rfl : p.rest = r := hp
    rw [Place.after_nil] at hk
    rw [seek_many (productive_one s), seek_one_eq_none hr, Option.none_or, hk]
  | cons c t ih =>
    rw [seek_many (productive_one s), seek_one_cons hp, if_pos (ht c List.mem_cons_self),
      ih rfl (fun d hd => ht d (List.mem_cons_of_mem c hd)) (by simpa using hk), Option.some_or]

/-- A greedy loop fails if nothing can go on, neither in its run nor behind it. -/
theorem seek_many_one_eq_none (hp : p.rest = t ++ r) (hr : r.head?.any s.contains = false)
    (hk : ∀ u v, t = u ++ v → k (p.after u (v ++ r)) = none) : (many (one s)).seek k p = none := by
  induction t generalizing p with
  | nil =>
    obtain rfl : p.rest = r := hp
    rw [seek_many (productive_one s), seek_one_eq_none hr, Option.none_or]
    exact hk [] [] rfl
  | cons c t ih =>
    have hkp : k p = none := by
      have := hk [] (c :: t) rfl
      rwa [← hp, Place.after_nil] at this
    rw [seek_many (productive_one s), seek_one_cons hp, hkp, Option.or_none]
    split
    · refine ih rfl fun u v huv => ?_
      simpa using hk (c :: u) v (by simp [huv])
    · rfl

theorem seek_many_one_takeWhile {x : β}
    (hk : k (p.after (p.rest.takeWhile s.contains) (p.rest.dropWhile s.contains)) = some x) :
    (many (one s)).seek k p = some x := by
  refine seek_many_one_of_some List.takeWhile_append_dropWhile.symm
    (fun c hc => List.mem_takeWhile_imp hc) ?_ hk
  cases h : p.rest.dropWhile s.contains with
  | nil => rfl
  | cons c r => simpa [h] using List.head?_dropWhile_not s.contains p.rest

theorem seek_some_one_takeWhile {x : β} (hp : p.rest.head?.any s.contains)
    (hk : k (p.after (p.rest.takeWhile s.contains) (p.rest.dropWhile s.contains)) = some x) :
    (some_ (one s)).seek k p = some x := by
  obtain ⟨c, hc, hs⟩ := (Option.any_eq_true _ _).mp hp
  obtain ⟨r, hr⟩ := List.head?_eq_some_iff.mp hc
  rw [seek_some (productive_one s), seek_one_cons hr, if_pos hs]
  refine seek_many_one_takeWhile ?_
  rw [hr, List.takeWhile_cons_of_pos hs, List.dropWhile_cons_of_pos hs] at hk
  rw [Place.after_after, Place.rest_after]
  exact hk

theorem seek_some_one (hp : p.rest = t ++ r) (hn : t ≠ []) (ht : ∀ c ∈ t, s.contains c)
    (hr : r.head?.any s.contains = false)
    (hk : ∀ q, q.rest.head?.any s.contains → k q = none) :
    (some_ (one s)).seek k p = k (p.after t r) := by
  obtain ⟨c, t, rfl⟩ := List.exists_cons_of_ne_nil hn
  rw [seek_some (productive_one s), seek_one_cons hp, if_pos (ht c List.mem_cons_self),
    seek_many_one rfl (fun d hd => ht d (List.mem_cons_of_mem c hd)) hr hk, Place.after_after]
  rfl

/-! ### Literals -/

theorem seek_literal (hp : p.rest = t ++ r) : (literal t).seek k p = k (p.after t r) := by
  induction t generalizing p with
  | nil =>
    obtain rfl : p.rest = r := hp
    exact seek_empty
  | cons c t ih =>
    rw [literal, List.map_cons, seek_concat_cons, char, seek_one_cons hp, if_pos (by simp)]
    exact (ih rfl).trans (by rw [Place.after_after]; rfl)

end Node

/-! ### Groups -/

namespace Place

variable {p q : Place} {input s r : Text} {i j o : Nat}

def In (p : Place) (input : Text) : Prop :=
  ∃ front, input = front ++ p.rest ∧ p.passed = front.length

theorem In.start (t : Text) : (start t).In t := ⟨[], rfl, rfl⟩

theorem In.after (h : p.In input) (hr : p.rest = s ++ r) : (p.after s r).In input := by
  obtain ⟨front, hi, hp⟩ := h
  exact ⟨front ++ s, by rw [hi, hr, List.append_assoc, rest_after], by simp [hp]⟩

theorem In.close (h : p.In input) (i o : Nat) : (p.close i o).In input := h

theorem In.reaches (h : p.In input) (hq : p.Reaches q) : q.In input := by
  obtain ⟨s, hr, hp, -⟩ := hq
  obtain ⟨front, hi, hf⟩ := h
  exact ⟨front ++ s, by rw [hi, hr, List.append_assoc], by simp [hp, hf]⟩

theorem In.group?_of_reaches (h : p.In input) (hi : i ≠ 0) (hq : p.Reaches q)
    (hs : p.rest = s ++ q.rest) : (q.close i p.passed).group? input i = some s := by
  obtain ⟨front, hf, hp⟩ := h
  have hlen : q.passed = p.passed + s.length := by
    have := hq.length_rest
    rw [hs, List.length_append] at this
    omega
  simp only [group?, if_neg hi, Place.close, List.find?_cons_of_pos, Option.map_some, hf, hp, hs,
    hlen, decide_true, Nat.add_sub_cancel_left, List.drop_left, List.take_left]

theorem In.group?_close (h : p.In input) (hr : p.rest = s ++ r) (hi : i ≠ 0) :
    ((p.after s r).close i p.passed).group? input i = some s :=
  h.group?_of_reaches hi (.after hr) hr

@[simp] theorem group?_close_of_ne (h : j ≠ i) :
    (p.close j o).group? input i = p.group? input i := by
  unfold group?
  split
  · rfl
  · rw [spans_close, List.find?_cons_of_neg (by simpa using h)]

@[simp] theorem group?_after (hi : i ≠ 0) : (p.after s r).group? input i = p.group? input i := by
  simp [group?, hi]

end Place

end Pattern

end SettingsScan
