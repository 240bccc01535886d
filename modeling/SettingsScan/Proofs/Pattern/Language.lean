import Mathlib.Algebra.Order.Monoid.Unbundled.Pow
import Mathlib.Computability.Language
import Mathlib.Order.CompletePartialOrder
import SettingsScan.Proofs.Pattern.Ways

/-! # The language of a pattern

A pattern stands for a set of texts: what it can pass. Whatever the order of its ways, each passes
a text of the language, and a pattern that does not look around passes every text of its language.
-/

namespace SettingsScan.Pattern

open scoped Computability

theorem isUpper_iff {c : Char} : c.isUpper ↔ 65 ≤ c.toNat ∧ c.toNat ≤ 90 :=
  decide_eq_true_iff

theorem isLower_iff {c : Char} : c.isLower ↔ 97 ≤ c.toNat ∧ c.toNat ≤ 122 :=
  Bool.and_eq_true_iff.trans (and_congr decide_eq_true_iff decide_eq_true_iff)

theorem not_isLower_toUpper (c : Char) : ¬ c.toUpper.isLower := by
  rw [isLower_iff]
  by_cases h : 97 ≤ c.val.toNat ∧ c.val.toNat ≤ 122
  · have hnat : c.toUpper.toNat = (c.val + ('A'.val - 'a'.val)).toNat := by
      rw [show c.toUpper = _ from dif_pos h]
      rfl
    rw [UInt32.toNat_add, show ('A'.val - 'a'.val).toNat = 2 ^ 32 - 32 from rfl] at hnat
    omega
  · rwa [show c.toUpper = c from dif_neg h]

theorem CharSet.contains_foldCase {a : Char} (ha : a.isLower) (c : Char) :
    (foldCase (single a)).contains c = decide (c.toLower = a) := by
  rw [contains, contains_single, contains_single, swapCase, ← Bool.decide_or]
  refine decide_eq_decide.mpr ?_
  split
  · next h =>
    refine or_iff_right ?_
    rintro rfl
    have hlow := isLower_iff.mp ha
    have hup := isUpper_iff.mp h
    omega
  · next h =>
    have hl : c.toLower = c := dif_neg fun h' => h (isUpper_iff.mpr h')
    rw [hl]
    split
    · refine or_iff_left ?_
      rintro rfl
      exact not_isLower_toUpper c ha
    · exact or_self_iff

namespace Node

/-- The texts that the pattern can pass where its conditions hold. -/
def language : Node → Language Char
  | empty => 1
  | one set => {t | ∃ c, set.contains c ∧ t = [c]}
  | look _ => 1
  | group _ body => body.language
  | seq a b => a.language * b.language
  | alt a b => a.language + b.language
  | loop least none _ body => body.language ^ least * body.language∗
  | loop least (some most) _ body =>
    body.language ^ least * (1 + body.language) ^ (most - least)

/-- Whether the pattern does without conditions on the characters around a place. -/
def isFree : Node → Bool
  | empty => true
  | one _ => true
  | look _ => false
  | group _ body => body.isFree
  | seq a b => a.isFree && b.isFree
  | alt a b => a.isFree && b.isFree
  | loop _ _ _ body => body.isFree

end Node

namespace Step

def Within (step : Step) (l : Language Char) : Prop :=
  ∀ p, ∀ q ∈ step p, ∃ t ∈ l, p.rest = t ++ q.rest

/-- Every text of the language is passed by some way. -/
def Covers (step : Step) (l : Language Char) : Prop :=
  ∀ p, ∀ t ∈ l, ∀ r, p.rest = t ++ r → ∃ q ∈ step p, q.rest = r

variable {step next : Step} {l m : Language Char} {greedy : Bool} {p q : Place} {r t : Text}

/-! ### Nothing else is passed -/

theorem Within.mono (h : Within step l) (hl : ∀ t ∈ l, t ∈ m) : Within step m := by
  intro p q hq
  obtain ⟨t, ht, hp⟩ := h p q hq
  exact ⟨t, hl t ht, hp⟩

theorem within_stay : Within (fun p => [p]) 1 := by
  intro p q hq
  rw [List.mem_singleton.mp hq]
  exact ⟨[], Language.nil_mem_one, rfl⟩

theorem Within.orStay (h : Within step l) :
    Within (fun p => orStay greedy (step p) p) (1 + l) := by
  intro p q hq
  rcases mem_orStay.mp hq with hq | rfl
  · obtain ⟨t, ht, hp⟩ := h p q hq
    exact ⟨t, .inr ht, hp⟩
  · exact ⟨[], .inl Language.nil_mem_one, rfl⟩

theorem Within.flatMap (h : Within step l) (h' : Within next m) :
    Within (fun p => (step p).flatMap next) (l * m) := by
  intro p q hq
  obtain ⟨u, hu, hq⟩ := List.mem_flatMap.mp hq
  obtain ⟨s, hs, hp⟩ := h p u hu
  obtain ⟨t, ht, hu⟩ := h' u q hq
  exact ⟨s ++ t, Language.append_mem_mul hs ht, by rw [hp, hu, List.append_assoc]⟩

theorem Within.times (h : Within step l) (n : Nat) : Within (times step n) (l ^ n) := by
  induction n with
  | zero => exact within_stay
  | succ n ih =>
    rw [pow_succ']
    exact h.flatMap ih

theorem Within.upTo (h : Within step l) (n : Nat) : Within (upTo greedy step n) ((1 + l) ^ n) := by
  induction n with
  | zero => exact within_stay
  | succ n ih =>
    have hone : (1 : Language Char) ≤ (1 + l) ^ n := one_le_pow_of_one_le' le_sup_left n
    rw [pow_succ', add_mul, one_mul]
    exact (h.flatMap ih).orStay.mono fun _ ht => add_le_add_left hone _ ht

theorem Within.more (h : Within step l) (n : Nat) : Within (more greedy step n) l∗ := by
  induction n with
  | zero =>
    refine within_stay.mono ?_
    rintro _ rfl
    exact Language.nil_mem_kstar l
  | succ n ih =>
    have hround : Within (fun p => (step p).filter (p.passed < ·.passed)) l := by
      intro p q hq
      exact h p q (List.mem_filter.mp hq).1
    rw [← Language.one_add_self_mul_kstar_eq_kstar]
    exact (hround.flatMap ih).orStay

theorem Within.oneOrMore (h : Within step l) : Within (oneOrMore greedy step) (l * l∗) := by
  intro p q hq
  obtain ⟨u, hu, hq⟩ := List.mem_flatMap.mp hq
  obtain ⟨s, hs, hp⟩ := h p u hu
  split at hq
  · rw [List.mem_singleton.mp hq]
    exact ⟨s, Language.mem_mul.mpr ⟨s, hs, [], Language.nil_mem_kstar l, List.append_nil s⟩, hp⟩
  · obtain ⟨t, ht, hu⟩ := h.more _ u q hq
    exact ⟨s ++ t, Language.append_mem_mul hs ht, by rw [hp, hu, List.append_assoc]⟩

theorem Within.loop (h : Within step l) (least : Nat) (most : Option Nat) :
    Within (loop least most greedy step)
      (match most with
        | none => l ^ least * l∗
        | some m => l ^ least * (1 + l) ^ (m - least)) := by
  cases most with
  | none =>
    cases least with
    | zero =>
      rw [pow_zero, one_mul, ← Language.one_add_self_mul_kstar_eq_kstar]
      exact h.oneOrMore.orStay
    | succ n =>
      rw [pow_succ, mul_assoc]
      exact (h.times n).flatMap h.oneOrMore
  | some m =>
    cases least <;> exact (h.times _).flatMap (h.upTo _)

/-! ### Everything is passed -/

theorem covers_stay : Covers (fun p => [p]) 1 := by
  rintro p t rfl r hp
  exact ⟨p, List.mem_singleton_self p, hp⟩

theorem Covers.orStay (h : Covers step l) :
    Covers (fun p => orStay greedy (step p) p) (1 + l) := by
  rintro p t (rfl | ht) r hp
  · exact ⟨p, mem_orStay.mpr (.inr rfl), hp⟩
  · obtain ⟨q, hq, hr⟩ := h p t ht r hp
    exact ⟨q, mem_orStay.mpr (.inl hq), hr⟩

theorem Covers.flatMap (h : Covers step l) (h' : Covers next m) :
    Covers (fun p => (step p).flatMap next) (l * m) := by
  rintro p t ht r hp
  obtain ⟨a, ha, b, hb, rfl⟩ := Language.mem_mul.mp ht
  obtain ⟨u, hu, hr⟩ := h p a ha (b ++ r) (by rw [hp, List.append_assoc])
  obtain ⟨q, hq, hr⟩ := h' u b hb r hr
  exact ⟨q, List.mem_flatMap.mpr ⟨u, hu, hq⟩, hr⟩

theorem Covers.times (h : Covers step l) (n : Nat) : Covers (times step n) (l ^ n) := by
  induction n with
  | zero => exact covers_stay
  | succ n ih =>
    rw [pow_succ']
    exact h.flatMap ih

theorem exists_pieces_of_mem_pow {n : Nat} (ht : t ∈ (1 + l) ^ n) :
    ∃ pieces : List Text, t = pieces.flatten ∧ pieces.length ≤ n ∧ ∀ s ∈ pieces, s ∈ l := by
  obtain ⟨pieces, rfl, hn, hl⟩ := Language.mem_pow.mp ht
  refine ⟨pieces.filter fun s => !s.isEmpty, (List.flatten_filter_not_isEmpty).symm,
    hn ▸ List.length_filter_le _ _, fun s hs => ?_⟩
  obtain ⟨hs, hne⟩ := List.mem_filter.mp hs
  rcases hl s hs with rfl | hs
  · cases hne
  · exact hs

theorem Covers.upTo (h : Covers step l) (n : Nat) : Covers (upTo greedy step n) ((1 + l) ^ n) := by
  intro p t ht r hp
  obtain ⟨pieces, rfl, hn, hl⟩ := exists_pieces_of_mem_pow ht
  clear ht
  induction n generalizing pieces p with
  | zero =>
    obtain rfl := List.length_eq_zero_iff.mp (Nat.le_zero.mp hn)
    exact ⟨p, List.mem_singleton_self p, hp⟩
  | succ n ih =>
    cases pieces with
    | nil => exact ⟨p, mem_orStay.mpr (.inr rfl), hp⟩
    | cons s pieces =>
      obtain ⟨hs, hl⟩ := List.forall_mem_cons.mp hl
      obtain ⟨u, hu, hr⟩ := h p s hs (pieces.flatten ++ r) (by simp [hp])
      obtain ⟨q, hq, hqr⟩ := ih u pieces hr (Nat.le_of_succ_le_succ hn) hl
      exact ⟨q, mem_orStay.mpr (.inl (List.mem_flatMap.mpr ⟨u, hu, hq⟩)), hqr⟩

/-- Rounds over pieces that are not empty, with enough fuel for the rest. -/
theorem Covers.exists_mem_more (h : Covers step l) (hf : Forward step) {pieces : List Text}
    (hl : ∀ s ∈ pieces, s ∈ l ∧ s ≠ []) {n : Nat} (hn : p.rest.length ≤ n)
    (hp : p.rest = pieces.flatten ++ r) : ∃ q ∈ more greedy step n p, q.rest = r := by
  induction n generalizing pieces p with
  | zero =>
    cases pieces with
    | nil => exact ⟨p, List.mem_singleton_self p, hp⟩
    | cons s pieces =>
      have hs : 0 < s.length := List.length_pos_iff.mpr (hl s List.mem_cons_self).2
      rw [hp, List.flatten_cons, List.append_assoc, List.length_append] at hn
      omega
  | succ n ih =>
    cases pieces with
    | nil => exact ⟨p, mem_orStay.mpr (.inr rfl), hp⟩
    | cons s pieces =>
      obtain ⟨hs, hne⟩ := hl s List.mem_cons_self
      have hpos : 0 < s.length := List.length_pos_iff.mpr hne
      obtain ⟨u, hu, hr⟩ := h p s hs (pieces.flatten ++ r) (by simp [hp])
      have hlen := (hf p u hu).length_rest
      have hsplit : p.rest.length = s.length + u.rest.length := by simp [hp, hr]
      obtain ⟨q, hq, hqr⟩ := ih (fun t ht => hl t (List.mem_cons_of_mem s ht)) (by omega) hr
      refine ⟨q, mem_orStay.mpr (.inl (List.mem_flatMap.mpr ⟨u, ?_, hq⟩)), hqr⟩
      exact List.mem_filter.mpr ⟨hu, by simpa using by omega⟩

/-- A first piece and more of them: the first one may be taken as not empty. -/
theorem exists_pieces (ht : t ∈ l * l∗) : t = [] ∧ [] ∈ l ∨
    ∃ (s : Text) (pieces : List Text),
      t = s ++ pieces.flatten ∧ s ∈ l ∧ s ≠ [] ∧ ∀ u ∈ pieces, u ∈ l ∧ u ≠ [] := by
  obtain ⟨s, hs, b, hb, rfl⟩ := Language.mem_mul.mp ht
  obtain ⟨pieces, rfl, hl⟩ := Language.mem_kstar_iff_exists_nonempty.mp hb
  cases s with
  | cons c s => exact .inr ⟨c :: s, pieces, rfl, hs, List.cons_ne_nil c s, hl⟩
  | nil =>
    cases pieces with
    | nil => exact .inl ⟨rfl, hs⟩
    | cons u pieces =>
      obtain ⟨⟨hu, hne⟩, hl⟩ := List.forall_mem_cons.mp hl
      exact .inr ⟨u, pieces, rfl, hu, hne, hl⟩

theorem Covers.oneOrMore (h : Covers step l) (hf : Forward step) :
    Covers (oneOrMore greedy step) (l * l∗) := by
  intro p t ht r hp
  rcases exists_pieces ht with ⟨rfl, hl⟩ | ⟨s, pieces, rfl, hs, hne, hl⟩
  · obtain ⟨u, hu, hr⟩ := h p [] hl r hp
    have hlen := (hf p u hu).length_rest
    have hstay : u.passed = p.passed := by
      rw [hp, hr] at hlen
      simpa using hlen.symm
    exact ⟨u, List.mem_flatMap.mpr ⟨u, hu, by simp [hstay]⟩, hr⟩
  · have hpos : 0 < s.length := List.length_pos_iff.mpr hne
    obtain ⟨u, hu, hr⟩ := h p s hs (pieces.flatten ++ r) (by rw [hp, List.append_assoc])
    have hlen := (hf p u hu).length_rest
    have hsplit : p.rest.length = s.length + u.rest.length := by simp [hp, hr]
    obtain ⟨q, hq, hqr⟩ := h.exists_mem_more hf hl u.rest.length.le_refl hr
    refine ⟨q, List.mem_flatMap.mpr ⟨u, hu, ?_⟩, hqr⟩
    rwa [if_neg (by omega)]

theorem Covers.loop (h : Covers step l) (hf : Forward step) (least : Nat) (most : Option Nat) :
    Covers (loop least most greedy step)
      (match most with
        | none => l ^ least * l∗
        | some m => l ^ least * (1 + l) ^ (m - least)) := by
  cases most with
  | none =>
    cases least with
    | zero =>
      rw [pow_zero, one_mul, ← Language.one_add_self_mul_kstar_eq_kstar]
      exact (h.oneOrMore hf).orStay
    | succ n =>
      rw [pow_succ, mul_assoc]
      exact (h.times n).flatMap (h.oneOrMore hf)
  | some m =>
    cases least <;> exact (h.times _).flatMap (h.upTo _)

end Step

namespace Node

variable {n : Node} {p q : Place} {t r : Text}

theorem within_language (n : Node) : Step.Within n.ways n.language := by
  induction n with
  | empty => exact Step.within_stay
  | one set =>
    intro p q hq
    cases hp : p.rest with
    | nil => simp [ways_one_nil set p hp] at hq
    | cons c r =>
      rw [ways_one_cons set p c r hp] at hq
      split at hq
      · rename_i hc
        rw [List.mem_singleton.mp hq]
        exact ⟨[c], ⟨c, hc, rfl⟩, rfl⟩
      · cases hq
  | look condition =>
    intro p q hq
    simp only [ways] at hq
    split at hq
    · exact Step.within_stay p q hq
    · cases hq
  | group index body ih =>
    intro p q hq
    obtain ⟨u, hu, rfl⟩ := List.mem_map.mp hq
    exact ih p u hu
  | seq a b iha ihb => exact iha.flatMap ihb
  | alt a b iha ihb =>
    intro p q hq
    rcases List.mem_append.mp hq with hq | hq
    · exact iha.mono (fun _ ht => .inl ht) p q hq
    · exact ihb.mono (fun _ ht => .inr ht) p q hq
  | loop least most greedy body ih =>
    cases most <;> exact ih.loop least _

theorem covers_language (h : n.isFree) : Step.Covers n.ways n.language := by
  induction n with
  | empty => exact Step.covers_stay
  | one set =>
    rintro p t ⟨c, hc, rfl⟩ r hp
    exact ⟨p.advance c r, by simp [ways_one_cons set p c r hp, hc], rfl⟩
  | look condition => cases h
  | group index body ih =>
    intro p t ht r hp
    obtain ⟨q, hq, hr⟩ := ih h p t ht r hp
    exact ⟨q.close index p.passed, List.mem_map.mpr ⟨q, hq, rfl⟩, hr⟩
  | seq a b iha ihb =>
    obtain ⟨ha, hb⟩ := Bool.and_eq_true_iff.mp h
    exact (iha ha).flatMap (ihb hb)
  | alt a b iha ihb =>
    obtain ⟨ha, hb⟩ := Bool.and_eq_true_iff.mp h
    rintro p t (ht | ht) r hp
    · obtain ⟨q, hq, hr⟩ := iha ha p t ht r hp
      exact ⟨q, List.mem_append_left _ hq, hr⟩
    · obtain ⟨q, hq, hr⟩ := ihb hb p t ht r hp
      exact ⟨q, List.mem_append_right _ hq, hr⟩
  | loop least most greedy body ih =>
    cases most <;> exact (ih h).loop body.forward_ways least _

/-! ### The languages of the parts of a pattern -/

variable {a b : Node} {s : CharSet} {u : Text}

theorem mem_language_one : t ∈ (one s).language ↔ ∃ c, s.contains c ∧ t = [c] := Iff.rfl

theorem mem_language_char {c : Char} : t ∈ (char c).language ↔ t = [c] := by
  simp [char, mem_language_one]

theorem mem_language_seq :
    t ∈ (seq a b).language ↔ ∃ u ∈ a.language, ∃ v ∈ b.language, u ++ v = t :=
  Language.mem_mul

theorem mem_language_concat_cons {ns : List Node} :
    t ∈ (concat (n :: ns)).language ↔
      ∃ u ∈ n.language, ∃ v ∈ (concat ns).language, u ++ v = t := by
  cases ns with
  | nil =>
    change t ∈ n.language ↔ ∃ u ∈ n.language, ∃ v ∈ (1 : Language Char), u ++ v = t
    simp [Language.mem_one]
  | cons m ns => exact mem_language_seq

theorem mem_language_opt : t ∈ (opt n).language ↔ t = [] ∨ t ∈ n.language := by
  change t ∈ n.language ^ 0 * (1 + n.language) ^ (1 - 0) ↔ _
  rw [pow_zero, one_mul, pow_one, Language.mem_add, Language.mem_one]

theorem mem_language_many :
    t ∈ (many n).language ↔
      ∃ pieces : List Text, t = pieces.flatten ∧ ∀ p ∈ pieces, p ∈ n.language := by
  change t ∈ n.language ^ 0 * n.language∗ ↔ _
  rw [pow_zero, one_mul, Language.mem_kstar]

theorem mem_language_many_one : t ∈ (many (one s)).language ↔ ∀ c ∈ t, s.contains c := by
  rw [mem_language_many]
  constructor
  · rintro ⟨pieces, rfl, h⟩ c hc
    obtain ⟨p, hp, hc⟩ := List.mem_flatten.mp hc
    obtain ⟨d, hd, rfl⟩ := h p hp
    exact List.mem_singleton.mp hc ▸ hd
  · intro h
    refine ⟨t.map fun c => [c], by rw [← List.flatMap_def, List.flatMap_singleton'], fun p hp => ?_⟩
    obtain ⟨c, hc, rfl⟩ := List.mem_map.mp hp
    exact ⟨c, h c hc, rfl⟩

theorem mem_language_some_one :
    t ∈ (some_ (one s)).language ↔ t ≠ [] ∧ ∀ c ∈ t, s.contains c := by
  change t ∈ (one s).language ^ 1 * (one s).language∗ ↔ _
  have hmany (v : Text) : v ∈ (one s).language∗ ↔ ∀ c ∈ v, s.contains c := by
    rw [← mem_language_many_one]
    change _ ↔ v ∈ (one s).language ^ 0 * (one s).language∗
    rw [pow_zero, one_mul]
  rw [pow_one, Language.mem_mul]
  constructor
  · rintro ⟨u, ⟨c, hc, rfl⟩, v, hv, rfl⟩
    exact ⟨by simp, List.forall_mem_cons.mpr ⟨hc, (hmany v).mp hv⟩⟩
  · rintro ⟨hne, h⟩
    obtain ⟨c, v, rfl⟩ := List.exists_cons_of_ne_nil hne
    obtain ⟨hc, hv⟩ := List.forall_mem_cons.mp h
    exact ⟨[c], ⟨c, hc, rfl⟩, v, (hmany v).mpr hv, rfl⟩

theorem mem_language_literal : t ∈ (literal u).language ↔ t = u := by
  induction u generalizing t with
  | nil => exact Language.mem_one t
  | cons c u ih =>
    rw [literal, List.map_cons, mem_language_concat_cons]
    constructor
    · rintro ⟨v, hv, w, hw, rfl⟩
      rw [mem_language_char.mp hv, ih.mp hw]
      rfl
    · rintro rfl
      exact ⟨[c], mem_language_char.mpr rfl, u, ih.mpr rfl, rfl⟩

theorem mem_language_letters {word : Text} (hw : ∀ a ∈ word, a.isLower) :
    t ∈ (concat (word.map fun a => one (.foldCase (.single a)))).language ↔
      t.map Char.toLower = word := by
  induction word generalizing t with
  | nil => exact (Language.mem_one t).trans List.map_eq_nil_iff.symm
  | cons a word ih =>
    obtain ⟨ha, hw⟩ := List.forall_mem_cons.mp hw
    rw [List.map_cons, mem_language_concat_cons]
    simp only [mem_language_one, CharSet.contains_foldCase ha, decide_eq_true_eq, ih hw]
    constructor
    · rintro ⟨_, ⟨c, hc, rfl⟩, r, hr, rfl⟩
      rw [List.singleton_append, List.map_cons, hc, hr]
    · intro h
      obtain ⟨c, r, rfl, hc, hr⟩ := List.map_eq_cons_iff.mp h
      exact ⟨[c], ⟨c, hc, rfl⟩, r, hr, rfl⟩

theorem mem_language_concat_if {p : Bool} {ns : List Node} :
    t ∈ (concat ((if p then [n] else []) ++ ns)).language ↔
      ∃ u, (if p then u ∈ n.language else u = []) ∧ ∃ v ∈ (concat ns).language, u ++ v = t := by
  cases p with
  | true => exact mem_language_concat_cons
  | false => simp

theorem isFree_concat (ns : List Node) : (concat ns).isFree = ns.all isFree := by
  induction ns with
  | nil => rfl
  | cons n ns ih =>
    cases ns with
    | nil => simp [concat]
    | cons m ns => rw [List.all_cons, ← ih]; rfl

/-! ### Characters that are in no text of the language -/

def avoids (cs : List Char) : Node → Bool
  | empty => true
  | one set => cs.all (!set.contains ·)
  | look _ => true
  | group _ body => body.avoids cs
  | seq a b => a.avoids cs && b.avoids cs
  | alt a b => a.avoids cs && b.avoids cs
  | loop _ _ _ body => body.avoids cs

def without (cs : List Char) : Language Char :=
  {t | ∀ c ∈ t, c ∉ cs}

theorem one_le_without (cs : List Char) : 1 ≤ without cs := by
  rintro _ rfl
  exact fun c hc => nomatch hc

theorem kstar_without_le (cs : List Char) : (without cs)∗ ≤ without cs := by
  refine kstar_le_of_mul_le_left (one_le_without cs) ?_
  rintro _ ⟨s, hs, t, ht, rfl⟩
  exact List.forall_mem_append.mpr ⟨hs, ht⟩

theorem language_le_without {cs : List Char} (h : n.avoids cs) : n.language ≤ without cs := by
  have pow {l : Language Char} (hl : l ≤ without cs) (k : Nat) : l ^ k ≤ (without cs)∗ :=
    pow_le_kstar.trans (kstar_mono hl)
  have mul {l m : Language Char} (hl : l ≤ (without cs)∗) (hm : m ≤ (without cs)∗) :
      l * m ≤ without cs :=
    (mul_le_mul' hl hm).trans ((kstar_mul_kstar _).trans_le (kstar_without_le cs))
  induction n with
  | empty => exact one_le_without cs
  | one set =>
    rintro _ ⟨c, hc, rfl⟩ a ha
    obtain rfl := List.mem_singleton.mp ha
    intro hcs
    simpa [hc] using List.all_eq_true.mp h a hcs
  | look condition => exact one_le_without cs
  | group index body ih => exact ih h
  | seq a b iha ihb =>
    obtain ⟨ha, hb⟩ := Bool.and_eq_true_iff.mp h
    exact mul ((iha ha).trans le_kstar) ((ihb hb).trans le_kstar)
  | alt a b iha ihb =>
    obtain ⟨ha, hb⟩ := Bool.and_eq_true_iff.mp h
    exact sup_le (iha ha) (ihb hb)
  | loop least most greedy body ih =>
    cases most with
    | none => exact mul (pow (ih h) least) (kstar_mono (ih h))
    | some most => exact mul (pow (ih h) least) (pow (sup_le (one_le_without cs) (ih h)) _)

end Node

end SettingsScan.Pattern
