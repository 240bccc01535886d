import Mathlib.Data.List.Basic
import Mathlib.Tactic.Conv
import SettingsScan.Pattern.Basic

/-! # The ways of a pattern

A way goes forward over a piece of the text. Repeating a part that always passes something needs
no bound: the ways of a loop are those of one round followed by the loop, and staying.
-/

namespace SettingsScan.Pattern

namespace Place

def after (p : Place) (piece rest : Text) : Place :=
  { p with passed := p.passed + piece.length, last := piece.getLast?.or p.last, rest }

def Reaches (p q : Place) : Prop :=
  ∃ piece, p.rest = piece ++ q.rest ∧ q.passed = p.passed + piece.length ∧
    q.last = piece.getLast?.or p.last

@[simp] theorem rest_after (p : Place) (s r : Text) : (p.after s r).rest = r := rfl

@[simp] theorem passed_after (p : Place) (s r : Text) :
    (p.after s r).passed = p.passed + s.length := rfl

@[simp] theorem spans_after (p : Place) (s r : Text) : (p.after s r).spans = p.spans := rfl

@[simp] theorem rest_close (i o : Nat) (p : Place) : (p.close i o).rest = p.rest := rfl

@[simp] theorem passed_close (i o : Nat) (p : Place) : (p.close i o).passed = p.passed := rfl

@[simp] theorem last_close (i o : Nat) (p : Place) : (p.close i o).last = p.last := rfl

@[simp] theorem spans_close (i o : Nat) (p : Place) :
    (p.close i o).spans = (i, o, p.passed) :: p.spans := rfl

@[simp] theorem rest_start (t : Text) : (start t).rest = t := rfl

theorem advance_eq_after (p : Place) (c : Char) (r : Text) : p.advance c r = p.after [c] r := rfl

theorem after_nil (p : Place) : p.after [] p.rest = p := rfl

@[simp] theorem after_after (p : Place) (s r t u : Text) :
    (p.after s r).after t u = p.after (s ++ t) u := by
  simp [after, Nat.add_assoc, List.getLast?_append, Option.or_assoc]

theorem Reaches.refl (p : Place) : p.Reaches p := ⟨[], by simp⟩

theorem Reaches.trans {p q u : Place} (h : p.Reaches q) (h' : q.Reaches u) : p.Reaches u := by
  obtain ⟨s, hs, hp, hl⟩ := h
  obtain ⟨t, ht, hp', hl'⟩ := h'
  refine ⟨s ++ t, by simp [hs, ht], by simp [hp, hp', Nat.add_assoc], ?_⟩
  rw [hl', hl, List.getLast?_append, Option.or_assoc]

theorem Reaches.after {p : Place} {s r : Text} (h : p.rest = s ++ r) : p.Reaches (p.after s r) :=
  ⟨s, h, rfl, rfl⟩

theorem Reaches.close {p q : Place} (h : p.Reaches q) (i o : Nat) : p.Reaches (q.close i o) := h

theorem Reaches.passed_le {p q : Place} (h : p.Reaches q) : p.passed ≤ q.passed := by
  obtain ⟨s, -, hp, -⟩ := h
  omega

theorem Reaches.length_rest {p q : Place} (h : p.Reaches q) :
    p.rest.length + p.passed = q.rest.length + q.passed := by
  obtain ⟨s, hs, hp, -⟩ := h
  simp [hs, hp]
  omega

end Place

namespace Step

/-- All ways go forward. -/
def Forward (step : Step) : Prop := ∀ p, ∀ q ∈ step p, p.Reaches q

def Productive (step : Step) : Prop := ∀ p, ∀ q ∈ step p, p.passed < q.passed

variable {step next : Step} {greedy : Bool} {p q : Place} {ways : List Place} {P : Place → Prop}

theorem mem_orStay : q ∈ orStay greedy ways p ↔ q ∈ ways ∨ q = p := by
  unfold orStay
  split
  · simp
  · simp [or_comm]

/-! ### What every round keeps -/

def Keeps (P : Place → Prop) (step : Step) : Prop := ∀ p, P p → ∀ q ∈ step p, P q

theorem keeps_stay (P : Place → Prop) : Keeps P (fun p => [p]) := fun _ hp _ hq =>
  List.mem_singleton.mp hq ▸ hp

theorem Keeps.orStay (h : Keeps P step) : Keeps P fun p => orStay greedy (step p) p := by
  intro p hp q hq
  rcases mem_orStay.mp hq with hq | rfl
  · exact h p hp q hq
  · exact hp

theorem Keeps.flatMap (h : Keeps P step) (h' : Keeps P next) :
    Keeps P fun p => (step p).flatMap next := by
  intro p hp q hq
  obtain ⟨u, hu, hq⟩ := List.mem_flatMap.mp hq
  exact h' u (h p hp u hu) q hq

theorem Keeps.more (h : Keeps P step) (n : Nat) : Keeps P (more greedy step n) := by
  induction n with
  | zero => exact keeps_stay P
  | succ n ih =>
    have hround : Keeps P fun p => (step p).filter (p.passed < ·.passed) := fun p hp q hq =>
      h p hp q (List.mem_filter.mp hq).1
    exact (hround.flatMap ih).orStay

theorem Keeps.oneOrMore (h : Keeps P step) : Keeps P (oneOrMore greedy step) := by
  intro p hp q hq
  obtain ⟨u, hu, hq⟩ := List.mem_flatMap.mp hq
  split at hq
  · exact List.mem_singleton.mp hq ▸ h p hp u hu
  · exact h.more _ u (h p hp u hu) q hq

theorem Keeps.times (h : Keeps P step) (n : Nat) : Keeps P (times step n) := by
  induction n with
  | zero => exact keeps_stay P
  | succ n ih => exact h.flatMap ih

theorem Keeps.upTo (h : Keeps P step) (n : Nat) : Keeps P (upTo greedy step n) := by
  induction n with
  | zero => exact keeps_stay P
  | succ n ih => exact (h.flatMap ih).orStay

theorem Keeps.loop (h : Keeps P step) (least : Nat) (most : Option Nat) :
    Keeps P (loop least most greedy step) := by
  cases most with
  | none =>
    cases least with
    | zero => exact h.oneOrMore.orStay
    | succ n => exact (h.times n).flatMap h.oneOrMore
  | some m => cases least <;> exact (h.times _).flatMap (h.upTo _)

theorem forward_iff_keeps : Forward step ↔ ∀ o : Place, Keeps o.Reaches step :=
  ⟨fun h _ p hp q hq => hp.trans (h p q hq), fun h p q hq => h p p (.refl p) q hq⟩

/-! ### Loops that always pass something -/

theorem more_succ (n : Nat) : more greedy step (n + 1) p =
    orStay greedy (((step p).filter (p.passed < ·.passed)).flatMap (more greedy step n)) p := rfl

theorem loop_zero_none :
    loop 0 none greedy step p = orStay greedy (oneOrMore greedy step p) p := rfl

theorem loop_succ_none (n : Nat) :
    loop (n + 1) none greedy step p = (times step n p).flatMap (oneOrMore greedy step) := rfl

theorem loop_zero_one : loop 0 (some 1) greedy step p = orStay greedy (step p) p := by
  simp [loop, times, upTo]

/-- More rounds than there are characters left change nothing. -/
theorem more_of_le (h : Forward step) {n : Nat} (hn : p.rest.length ≤ n) :
    more greedy step n p = more greedy step p.rest.length p := by
  induction n using Nat.strongRecOn generalizing p with
  | ind n ih =>
    -- both sides unfold once; the rounds inside start at places with less text in front
    have round (k : Nat) (hk : p.rest.length ≤ k) (hkn : k ≤ n) : more greedy step k p =
        orStay greedy (((step p).filter (p.passed < ·.passed)).flatMap fun q =>
          more greedy step q.rest.length q) p := by
      cases k with
      | zero =>
        have he : (step p).filter (p.passed < ·.passed) = [] := by
          refine List.filter_eq_nil_iff.mpr fun q hq => ?_
          have := (h p q hq).length_rest
          simp only [decide_eq_true_eq]
          omega
        simp [more, he, orStay]
      | succ k =>
        rw [more_succ]
        congr 1
        refine List.flatMap_congr fun q hq => ih k (by omega) ?_
        obtain ⟨hq, hlt⟩ := List.mem_filter.mp hq
        have := (h p q hq).length_rest
        simp only [decide_eq_true_eq] at hlt
        omega
    rw [round n hn n.le_refl, round _ (Nat.le_refl _) hn]

theorem Productive.oneOrMore_eq (hp : Productive step) (p : Place) :
    oneOrMore greedy step p = (step p).flatMap fun q => more greedy step q.rest.length q := by
  refine List.flatMap_congr fun q hq => if_neg ?_
  have := hp p q hq
  omega

theorem Productive.loop_eq_more (hp : Productive step) (h : Forward step) (p : Place) :
    loop 0 none greedy step p = more greedy step p.rest.length p := by
  rw [← more_of_le h (Nat.le_succ p.rest.length), more_succ, loop_zero_none, hp.oneOrMore_eq,
    List.filter_eq_self.mpr fun q hq => by simpa using hp p q hq]
  congr 1
  refine List.flatMap_congr fun q hq => (more_of_le h ?_).symm
  have := (h p q hq).length_rest
  have := hp p q hq
  omega

/-- Rounds without a least number are one round and such rounds again, or staying. -/
theorem Productive.loop_eq (hp : Productive step) (h : Forward step) (p : Place) :
    loop 0 none greedy step p =
      orStay greedy ((step p).flatMap (loop 0 none greedy step)) p := by
  rw [loop_zero_none, hp.oneOrMore_eq]
  congr 1
  exact List.flatMap_congr fun q _ => (hp.loop_eq_more h q).symm

theorem Productive.loop_one_eq (hp : Productive step) (h : Forward step) (p : Place) :
    loop 1 none greedy step p = (step p).flatMap (loop 0 none greedy step) := by
  rw [loop_succ_none, times, List.flatMap_singleton, hp.oneOrMore_eq]
  exact List.flatMap_congr fun q _ => (hp.loop_eq_more h q).symm

end Step

namespace Node

variable {p q : Place} {t : Text}

/-- What passing a character and closing a group keep is kept by every way. -/
theorem keeps_ways {P : Place → Prop}
    (hafter : ∀ (p : Place) c r, p.rest = c :: r → P p → P (p.after [c] r))
    (hclose : ∀ (p q : Place) i, P p → P q → P (q.close i p.passed)) (n : Node) :
    Step.Keeps P n.ways := by
  induction n with
  | empty => exact Step.keeps_stay P
  | one set =>
    intro p hp q hq
    cases hr : p.rest with
    | nil => simp [ways_one_nil set p hr] at hq
    | cons c r =>
      rw [ways_one_cons set p c r hr] at hq
      split at hq
      · rw [List.mem_singleton.mp hq, Place.advance_eq_after]
        exact hafter p c r hr hp
      · cases hq
  | look condition =>
    intro p hp q hq
    simp only [ways] at hq
    split at hq
    · exact List.mem_singleton.mp hq ▸ hp
    · cases hq
  | group index body ih =>
    intro p hp q hq
    obtain ⟨u, hu, rfl⟩ := List.mem_map.mp hq
    exact hclose p u index hp (ih p hp u hu)
  | seq a b iha ihb => exact iha.flatMap ihb
  | alt a b iha ihb =>
    intro p hp q hq
    rcases List.mem_append.mp hq with hq | hq
    · exact iha p hp q hq
    · exact ihb p hp q hq
  | loop least most greedy body ih => exact ih.loop least most

theorem forward_ways (n : Node) : Step.Forward n.ways :=
  Step.forward_iff_keeps.mpr fun _ =>
    n.keeps_ways (fun _ _ _ hr h => h.trans (.after hr)) fun _ _ i _ h => h.close i _

theorem productive_one (s : CharSet) : Step.Productive (one s).ways := by
  intro p q hq
  cases hr : p.rest with
  | nil => simp [ways_one_nil s p hr] at hq
  | cons c r =>
    rw [ways_one_cons s p c r hr] at hq
    split at hq
    · rw [List.mem_singleton.mp hq]
      exact Nat.lt_succ_self _
    · cases hq

theorem productive_seq {a : Node} (h : Step.Productive a.ways) (b : Node) :
    Step.Productive (seq a b).ways := by
  intro p q hq
  obtain ⟨u, hu, hq⟩ := List.mem_flatMap.mp hq
  exact Nat.lt_of_lt_of_le (h p u hu) (b.forward_ways u q hq).passed_le

theorem productive_alt {a b : Node} (ha : Step.Productive a.ways) (hb : Step.Productive b.ways) :
    Step.Productive (alt a b).ways := by
  intro p q hq
  rcases List.mem_append.mp hq with hq | hq
  · exact ha p q hq
  · exact hb p q hq

variable {n : Node} {ns ms : List Node} {r : Text}

theorem mem_ways_concat_cons :
    q ∈ (concat (n :: ns)).ways p ↔ ∃ u ∈ n.ways p, q ∈ (concat ns).ways u := by
  cases ns with
  | nil =>
    change q ∈ n.ways p ↔ ∃ u ∈ n.ways p, q ∈ [u]
    simp
  | cons m ns => exact List.mem_flatMap

theorem mem_ways_one {s : CharSet} :
    q ∈ (one s).ways p ↔ ∃ c r, p.rest = c :: r ∧ s.contains c ∧ q = p.after [c] r := by
  cases h : p.rest with
  | nil => simp [ways_one_nil s p h]
  | cons c r =>
    rw [ways_one_cons s p c r h, Place.advance_eq_after]
    by_cases hc : s.contains c
    · simp [hc]
    · rw [if_neg hc]
      refine ⟨nofun, ?_⟩
      rintro ⟨d, r', hd, hs, -⟩
      exact absurd ((List.cons.inj hd).1 ▸ hs) hc

theorem mem_ways_chars :
    q ∈ (concat (t.map char ++ ns)).ways p ↔
      ∃ r, p.rest = t ++ r ∧ q ∈ (concat ns).ways (p.after t r) := by
  induction t generalizing p with
  | nil => simp [Place.after_nil]
  | cons c t ih =>
    rw [List.map_cons, List.cons_append, mem_ways_concat_cons]
    constructor
    · rintro ⟨u, hu, hq⟩
      obtain ⟨d, r, hr, hd, rfl⟩ := mem_ways_one.mp hu
      obtain rfl : d = c := by simpa using hd
      obtain ⟨r', hr', hq⟩ := ih.mp hq
      rw [Place.rest_after] at hr'
      exact ⟨r', by rw [hr, hr']; rfl, by rwa [Place.after_after] at hq⟩
    · rintro ⟨r, hr, hq⟩
      refine ⟨p.after [c] (t ++ r), mem_ways_one.mpr ⟨c, t ++ r, hr, by simp, rfl⟩, ?_⟩
      exact ih.mpr ⟨r, rfl, by rwa [Place.after_after]⟩

theorem mem_ways_literal :
    q ∈ (literal t).ways p ↔ ∃ r, p.rest = t ++ r ∧ q = p.after t r := by
  rw [literal, ← List.append_nil (t.map char), mem_ways_chars]
  simp [concat, ways_empty]

theorem mem_ways_concat_append :
    q ∈ (concat (ns ++ ms)).ways p ↔ ∃ u ∈ (concat ns).ways p, q ∈ (concat ms).ways u := by
  induction ns generalizing p with
  | nil => simp [concat, ways_empty]
  | cons n ns ih =>
    simp only [List.cons_append, mem_ways_concat_cons, ih]
    constructor
    · rintro ⟨u, hu, v, hv, hq⟩
      exact ⟨v, ⟨u, hu, hv⟩, hq⟩
    · rintro ⟨v, ⟨u, hu, hv⟩, hq⟩
      exact ⟨u, hu, v, hv, hq⟩

theorem mem_ways_many_one {s : CharSet} :
    q ∈ (many (one s)).ways p ↔
      ∃ t r, p.rest = t ++ r ∧ (∀ c ∈ t, s.contains c) ∧ q = p.after t r := by
  have hloop (p : Place) : (many (one s)).ways p =
      Step.orStay true (((one s).ways p).flatMap (many (one s)).ways) p :=
    (productive_one s).loop_eq (forward_ways _) p
  induction h : p.rest generalizing p with
  | nil =>
    rw [hloop, ways_one_nil s p h, Step.mem_orStay]
    simp [h ▸ p.after_nil]
  | cons c rest ih =>
    simp only [hloop p, Step.mem_orStay, List.mem_flatMap, mem_ways_one, h]
    constructor
    · rintro (⟨u, ⟨d, r, hr, hd, rfl⟩, hq⟩ | rfl)
      · obtain ⟨rfl, rfl⟩ := List.cons.inj hr
        obtain ⟨t, r, rfl, ht, rfl⟩ := (ih rfl).mp hq
        exact ⟨c :: t, r, rfl, List.forall_mem_cons.mpr ⟨hd, ht⟩, by rw [Place.after_after]; rfl⟩
      · exact ⟨[], c :: rest, rfl, by simp, h ▸ q.after_nil.symm⟩
    · rintro ⟨t, r, hr, ht, rfl⟩
      cases t with
      | nil => exact .inr (by rw [← hr.trans (List.nil_append r), ← h, p.after_nil])
      | cons d t =>
        obtain ⟨rfl, rfl⟩ := List.cons.inj hr
        obtain ⟨hc, ht⟩ := List.forall_mem_cons.mp ht
        refine .inl ⟨p.after [c] (t ++ r), ⟨c, t ++ r, rfl, hc, rfl⟩, ?_⟩
        exact (ih rfl).mpr ⟨t, r, rfl, ht, by rw [Place.after_after]; rfl⟩

theorem exists_piece_of_match? {n : Node} (h : n.match? t = some q) :
    ∃ piece, t = piece ++ q.rest ∧ q.passed = piece.length ∧ q.last = piece.getLast? := by
  obtain ⟨piece, hr, hp, hl⟩ := n.forward_ways _ q (List.mem_of_mem_head? h)
  exact ⟨piece, hr, by simpa [Place.start] using hp, by simpa [Place.start] using hl⟩

end Node

end SettingsScan.Pattern
