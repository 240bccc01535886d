import SettingsScan.Proofs.Pattern.Seek
import SettingsScan.Proofs.Text.Words

/-! # Matches in front of a seam

A text is continued behind its last word. A pattern that stays within the words it knows takes the
same of the longer text, but perhaps for one blank character behind the seam. The check goes through
the pattern with what is known of the place it has come to.
-/

namespace SettingsScan

/-- The characters that a pattern may look for to go beyond a word. -/
def specials : List Char := ['"', '\'', '\\', '(']

def isPlain (c : Char) : Bool := !isBlank c && !specials.contains c

namespace Pattern

/-- What is known of a place in a text: what has been passed of its first word; that it is behind
a blank character and in front of a word; nothing; that the match ends there. -/
inductive Knowledge where
  | exactly (passed : Text)
  | parted
  | unknown
  | ended
  deriving DecidableEq

namespace Knowledge

def push (c : Char) : Knowledge → Knowledge
  | exactly t => exactly (t ++ [c])
  | ended => ended
  | _ => unknown

def forget : Knowledge → Knowledge
  | exactly _ => unknown
  | κ => κ

end Knowledge

/-- Whether a blank character may be passed: behind a word after which there is another one, or
between blank characters in front of a word. -/
def crosses (detached : List Text) (k : Knowledge → Bool) : Knowledge → Bool
  | .exactly t => detached.contains t && k .parted
  | .parted => k .parted
  | _ => false

namespace CharSet

def hasNoBlank (s : CharSet) : Bool := asciiBlanks.all (!s.contains ·)

def passes (detached : List Text) (k : Knowledge → Bool) (κ : Knowledge) : CharSet → Bool
  | empty => true
  | union a b => a.passes detached k κ && b.passes detached k κ
  | range low high =>
    if low = high ∧ low ∈ specials then true
    else if low = high then if isAsciiBlank low then crosses detached k κ else k (κ.push low)
    else if '\t' ≤ low ∧ high ≤ '\r' then crosses detached k κ
    else (range low high).hasNoBlank && k .unknown
  | complement s => (complement s).hasNoBlank && k .unknown
  | foldCase s => (foldCase s).hasNoBlank && k .unknown

def repeats (detached : List Text) (k : Knowledge → Bool) (κ : Knowledge) (s : CharSet) : Bool :=
  s.passes detached (fun κ =>
    k κ.forget && s.passes detached (fun κ' => κ'.forget = κ.forget) κ.forget) κ

end CharSet

namespace Node

/-- Whether a match stays in front of the seam, but perhaps for the blank character that ends an
argument. -/
def isSealed (detached : List Text) : Node → (Knowledge → Bool) → Knowledge → Bool
  | empty, k, κ => k κ
  | one s, k, κ => κ ≠ .ended && s.passes detached k κ
  | look _, _, _ => false
  | group _ n, k, κ => κ ≠ .ended && n.isSealed detached (fun κ => κ ≠ .ended && k κ) κ
  | seq a b, k, κ => a.isSealed detached (b.isSealed detached k) κ
  | alt a b, k, κ =>
    if a = one .space ∧ b = look .textEnd then κ ≠ .ended && k .ended
    else a.isSealed detached k κ && b.isSealed detached k κ
  | loop least most greedy n, k, κ =>
    if least = 0 ∧ most = some 1 ∧ greedy then k κ && n.isSealed detached k κ
    else κ ≠ .ended && least ≤ 1 && most = none && greedy &&
      match n with
      | one s => (least = 1 || k κ) && s.repeats detached k κ
      | _ => false

end Node

/-- The text in front of a seam: its words are plain, and the last one is none of the given. -/
structure BeforeSeam (detached : List Text) (u : Text) : Prop where
  chars : ∀ c ∈ u, isAsciiBlank c ∨ isPlain c
  last : ∀ t ∈ detached, ∀ gap : Text, gap.all isBlank → u ≠ t ++ gap

def AfterSeam (tail : Text) : Prop := ∀ c ∈ tail.head?, isAsciiBlank c

def Knowledge.Holds (u : Text) (p : Place) : Knowledge → Prop
  | exactly t => u = t ++ p.rest
  | parted => p.rest.all isBlank = false
  | _ => True

namespace Place

structure At (u : Text) (κ : Knowledge) (p : Place) : Prop where
  inside : p.In u
  spans : ∀ span ∈ p.spans, span.2.2 ≤ u.length
  holds : κ.Holds u p

def extend (p : Place) (tail : Text) : Place := { p with rest := p.rest ++ tail }

@[simp] theorem rest_extend (p : Place) (tail : Text) : (p.extend tail).rest = p.rest ++ tail := rfl

@[simp] theorem passed_extend (p : Place) (tail : Text) : (p.extend tail).passed = p.passed := rfl

def OverSeam (tail : Text) (p p' : Place) : Prop :=
  p.rest = [] ∧ ∃ b rest, tail = b :: rest ∧ isAsciiBlank b ∧ p' = p.after [b] rest

/-- Places in the two texts at which the check has come to the same knowledge. -/
structure Matches (u tail : Text) (κ : Knowledge) (p p' : Place) : Prop where
  left : p.At u κ
  right : p' = p.extend tail ∨ κ = .ended ∧ p.OverSeam tail p'

end Place

variable {detached : List Text} {u tail r : Text} {κ : Knowledge} {k : Knowledge → Bool}
  {p p' q : Place} {s : CharSet} {c : Char} {n : Node}

/-! ### Single characters -/

namespace Place

theorem At.mem (hp : p.At u κ) (hc : c ∈ p.rest) : c ∈ u := by
  obtain ⟨front, rfl, -⟩ := hp.inside
  exact List.mem_append_right front hc

theorem At.forget (hp : p.At u κ) : p.At u κ.forget := by
  refine ⟨hp.inside, hp.spans, ?_⟩
  cases κ with
  | exactly t => trivial
  | parted => exact hp.holds
  | unknown => trivial
  | ended => trivial

theorem At.after (hp : p.At u κ) (hr : p.rest = c :: r) {κ' : Knowledge}
    (h : κ'.Holds u (p.after [c] r)) : (p.after [c] r).At u κ' :=
  ⟨hp.inside.after hr, hp.spans, h⟩

theorem At.push (hp : p.At u κ) (hr : p.rest = c :: r) : (p.after [c] r).At u (κ.push c) := by
  refine hp.after hr ?_
  cases κ with
  | exactly t =>
    have hu : u = t ++ p.rest := hp.holds
    change u = (t ++ [c]) ++ r
    rw [hu, hr, List.append_assoc]
    rfl
  | parted => trivial
  | unknown => trivial
  | ended => trivial

end Place

/-- In front of a blank character that may be passed there is another word. -/
theorem not_blank_of_crosses (hu : BeforeSeam detached u) (h : crosses detached k κ)
    (hp : p.At u κ) : p.rest.all isBlank = false := by
  cases κ with
  | exactly t =>
    simp only [crosses, Bool.and_eq_true, List.contains_iff_mem] at h
    have hut : u = t ++ p.rest := hp.holds
    by_contra hb
    exact hu.last t h.1 p.rest (by simpa using hb) hut
  | parted => exact hp.holds
  | unknown => cases h
  | ended => cases h

theorem parted_of_crosses (hu : BeforeSeam detached u) (h : crosses detached k κ)
    (hp : p.At u κ) (hr : p.rest = c :: r) (hc : isAsciiBlank c) :
    k .parted ∧ (p.after [c] r).At u .parted := by
  have hb := not_blank_of_crosses hu h hp
  rw [hr, List.all_cons, isBlank_of_isAsciiBlank hc, Bool.true_and] at hb
  refine ⟨?_, hp.after hr hb⟩
  cases κ with
  | exactly t =>
    simp only [crosses, Bool.and_eq_true] at h
    exact h.2
  | parted => exact h
  | unknown => cases h
  | ended => cases h

theorem CharSet.isAsciiBlank_of_range {low high : Char} (hl : '\t' ≤ low) (hh : high ≤ '\r')
    (hc : (CharSet.range low high).contains c) : isAsciiBlank c := by
  simp only [CharSet.contains, Bool.and_eq_true, decide_eq_true_eq] at hc
  simp [isAsciiBlank, Char.le_trans hl hc.1, Char.le_trans hc.2 hh]

theorem not_special_of_word (hc : isAsciiBlank c ∨ isPlain c) : c ∉ specials := by
  rcases hc with hc | hc
  · intro hm
    have hall : specials.all (!isAsciiBlank ·) := by decide
    have hn := List.all_eq_true.mp hall c hm
    rw [hc] at hn
    cases hn
  · simp only [isPlain, Bool.and_eq_true, Bool.not_eq_true', List.contains_eq_mem,
      decide_eq_false_iff_not] at hc
    exact hc.2

/-- A character that passes is a blank one where these may be passed, or a part of a word. -/
theorem CharSet.passes_cases (h : s.passes detached k κ) (hs : s.contains c)
    (hc : isAsciiBlank c ∨ isPlain c) :
    isAsciiBlank c ∧ crosses detached k κ ∨
      isAsciiBlank c = false ∧ (k (κ.push c) ∨ k .unknown) := by
  have free {s : CharSet} (h : s.hasNoBlank && k .unknown) (hs : s.contains c) :
      isAsciiBlank c = false ∧ (k (κ.push c) ∨ k .unknown) := by
    obtain ⟨hb, hk⟩ := Bool.and_eq_true_iff.mp h
    refine ⟨?_, .inr hk⟩
    by_contra hc
    have := List.all_eq_true.mp hb c (mem_asciiBlanks (by simpa using hc))
    rw [hs] at this
    cases this
  induction s with
  | empty => cases hs
  | union a b iha ihb =>
    obtain ⟨ha, hb⟩ := Bool.and_eq_true_iff.mp h
    rcases Bool.or_eq_true_iff.mp hs with hs | hs
    · exact iha ha hs
    · exact ihb hb hs
  | complement s _ => exact .inr (free h hs)
  | foldCase s _ => exact .inr (free h hs)
  | range low high =>
    unfold CharSet.passes at h
    by_cases heq : low = high
    · subst heq
      obtain rfl : c = low := by simpa using (CharSet.contains_single low c).symm.trans hs
      rw [if_neg (by simp [not_special_of_word hc]), if_pos rfl] at h
      split at h
      · rename_i hb
        exact .inl ⟨hb, h⟩
      · rename_i hb
        exact .inr ⟨by simpa using hb, .inl h⟩
    · rw [if_neg (by simp [heq]), if_neg heq] at h
      split at h
      · rename_i hr
        exact .inl ⟨CharSet.isAsciiBlank_of_range hr.1 hr.2 hs, h⟩
      · exact .inr (free h hs)

/-! ### Results in the two texts -/

namespace Node

variable {α β : Type} {R : α → β → Prop} {f : Place → Option α} {g : Place → Option β}

theorem seek_one_sealed (hu : BeforeSeam detached u) (ht : AfterSeam tail)
    (h : s.passes detached k κ) (hp : p.At u κ)
    (hf : ∀ κ q, k κ → q.At u κ → q.rest.length < p.rest.length →
      Option.Rel R (f q) (g (q.extend tail))) :
    Option.Rel R ((one s).seek f p) ((one s).seek g (p.extend tail)) := by
  cases hr : p.rest with
  | nil =>
    rw [seek_one_nil hr, seek_one_eq_none]
    · exact .none
    · cases htail : tail with
      | nil => simp [hr]
      | cons b r =>
        have hb : isAsciiBlank b := ht b (by simp [htail])
        simp only [Place.rest_extend, hr, List.nil_append, List.head?_cons, Option.any_some]
        by_contra hs
        rcases CharSet.passes_cases h (by simpa using hs) (.inl hb) with ⟨-, hc⟩ | ⟨hn, -⟩
        · have := not_blank_of_crosses hu hc hp
          rw [hr] at this
          cases this
        · rw [hb] at hn
          cases hn
  | cons c r =>
    have hre : (p.extend tail).rest = c :: (r ++ tail) := by simp [hr]
    rw [hr] at hf
    rw [seek_one_cons hr, seek_one_cons hre]
    split
    · rename_i hs
      rcases CharSet.passes_cases h hs (hu.chars c (hp.mem (by simp [hr]))) with
        ⟨hc, hcross⟩ | ⟨-, hk | hk⟩
      · obtain ⟨hk, hat⟩ := parted_of_crosses hu hcross hp hr hc
        exact hf .parted _ hk hat (by simp)
      · exact hf _ _ hk (hp.push hr) (by simp)
      · exact hf .unknown _ hk (hp.after hr trivial) (by simp)
    · exact .none

theorem seek_many_sealed (hu : BeforeSeam detached u) (ht : AfterSeam tail) (hk : k κ)
    (h : s.passes detached (fun κ' => κ'.forget = κ) κ) (hp : p.At u κ)
    (hf : ∀ κ q, k κ → q.At u κ → Option.Rel R (f q) (g (q.extend tail))) :
    Option.Rel R ((many (one s)).seek f p) ((many (one s)).seek g (p.extend tail)) := by
  induction hl : p.rest.length using Nat.strongRecOn generalizing p with
  | ind l ih =>
    rw [seek_many (productive_one s), seek_many (productive_one s)]
    refine rel_or ?_ (hf κ p hk hp)
    refine seek_one_sealed hu ht h hp fun κ' q hκ hq hlt => ?_
    obtain rfl : κ'.forget = κ := by simpa using hκ
    exact ih q.rest.length (hl ▸ hlt) hq.forget rfl

end Node

theorem Place.Matches.eq_extend (h : p.Matches u tail κ p') (hκ : κ ≠ .ended) :
    p' = p.extend tail := by
  rcases h.right with h | ⟨h, -⟩
  · exact h
  · exact absurd h hκ

/-- The end of an argument takes a blank character, behind the seam if it is there. -/
theorem Node.seek_argumentEnd_sealed {α β : Type} {R : α → β → Prop} {f : Place → Option α}
    {g : Place → Option β} (ht : AfterSeam tail) (hp : p.At u κ)
    (hf : ∀ q q', q.Matches u tail .ended q' → Option.Rel R (f q) (g q')) :
    Option.Rel R ((alt (one .space) (look .textEnd)).seek f p)
      ((alt (one .space) (look .textEnd)).seek g (p.extend tail)) := by
  have hend : p.At u .ended := ⟨hp.inside, hp.spans, trivial⟩
  rw [seek_alt, seek_alt, seek_look, seek_look]
  cases hr : p.rest with
  | nil =>
    have holds (last : Option Char) : Look.textEnd.holds last ([] : Text).head? := rfl
    rw [seek_one_nil hr, Option.none_or, if_pos (holds _)]
    cases htail : tail with
    | nil =>
      have hre : (p.extend []).rest = [] := by simp [hr]
      rw [seek_one_nil hre, Option.none_or, hre, if_pos (holds _)]
      exact hf p _ ⟨hend, .inl (by rw [htail])⟩
    | cons b r =>
      have hb : isAsciiBlank b := ht b (by simp [htail])
      have hre : (p.extend (b :: r)).rest = b :: r := by simp [hr]
      rw [seek_one_cons hre, if_pos (by rwa [CharSet.contains_space]), hre,
        if_neg (show ¬Look.textEnd.holds _ (b :: r).head? by simp [Look.holds]), Option.or_none]
      exact hf p _ ⟨hend, .inr ⟨rfl, hr, b, r, htail, hb, rfl⟩⟩
  | cons c r =>
    have hre : (p.extend tail).rest = c :: (r ++ tail) := by simp [hr]
    have holds (last : Option Char) (t : Text) : ¬Look.textEnd.holds last (c :: t).head? := by
      simp [Look.holds]
    rw [seek_one_cons hr, seek_one_cons hre, if_neg (holds _ _), hre, if_neg (holds _ _),
      Option.or_none, Option.or_none]
    split
    · exact hf _ _ ⟨hp.after hr trivial, .inl rfl⟩
    · exact .none

namespace Node

variable {α β : Type} {R : α → β → Prop} {f : Place → Option α} {g : Place → Option β}

/-- A pattern that is sealed gives the same in both texts, if what goes on does. -/
theorem seek_sealed (hu : BeforeSeam detached u) (ht : AfterSeam tail)
    (h : n.isSealed detached k κ) (hp : p.Matches u tail κ p')
    (hf : ∀ κ q q', k κ → q.Matches u tail κ q' → Option.Rel R (f q) (g q')) :
    Option.Rel R (n.seek f p) (n.seek g p') := by
  induction n generalizing k κ p p' f g with
  | empty =>
    rw [seek_empty, seek_empty]
    exact hf κ p p' h hp
  | one s =>
    simp only [isSealed, Bool.and_eq_true, decide_eq_true_eq] at h
    rw [hp.eq_extend h.1]
    exact seek_one_sealed hu ht h.2 hp.left fun κ q hk hq _ => hf κ q _ hk ⟨hq, .inl rfl⟩
  | look c => cases h
  | group i n ih =>
    simp only [isSealed, Bool.and_eq_true, decide_eq_true_eq] at h
    rw [seek_group, seek_group, hp.eq_extend h.1]
    refine ih h.2 ⟨hp.left, .inl rfl⟩ fun κ' q q' hk hq => ?_
    simp only [Bool.and_eq_true, decide_eq_true_eq] at hk
    rw [hq.eq_extend hk.1]
    refine hf κ' _ _ hk.2 ⟨⟨hq.left.inside, ?_, hq.left.holds⟩, .inl rfl⟩
    obtain ⟨front, hfront, hpassed⟩ := hq.left.inside
    refine List.forall_mem_cons.mpr ⟨?_, hq.left.spans⟩
    simp [hfront, hpassed]
  | seq a b iha ihb =>
    rw [seek_seq, seek_seq]
    exact iha h hp fun κ q q' hk hq => ihb hk hq hf
  | alt a b iha ihb =>
    unfold isSealed at h
    split at h
    · rename_i hab
      obtain ⟨rfl, rfl⟩ := hab
      simp only [Bool.and_eq_true, decide_eq_true_eq] at h
      rw [hp.eq_extend h.1]
      exact seek_argumentEnd_sealed ht hp.left fun q q' hq => hf .ended q q' h.2 hq
    · obtain ⟨ha, hb⟩ := Bool.and_eq_true_iff.mp h
      rw [seek_alt, seek_alt]
      exact rel_or (iha ha hp hf) (ihb hb hp hf)
  | loop least most greedy n ih =>
    unfold isSealed at h
    split at h
    · rename_i hopt
      obtain ⟨rfl, rfl, rfl⟩ := hopt
      obtain ⟨hk, hn⟩ := Bool.and_eq_true_iff.mp h
      change Option.Rel R ((opt n).seek f p) ((opt n).seek g p')
      rw [seek_opt, seek_opt]
      exact rel_or (ih hn hp hf) (hf κ p p' hk hp)
    · simp only [Bool.and_eq_true, decide_eq_true_eq] at h
      obtain ⟨⟨⟨⟨hκ, hleast⟩, rfl⟩, rfl⟩, hone⟩ := h
      split at hone
      · rename_i s
        obtain ⟨hstay, hs⟩ := Bool.and_eq_true_iff.mp hone
        rw [hp.eq_extend hκ]
        have hfirst : Option.Rel R ((one s).seek ((many (one s)).seek f) p)
            ((one s).seek ((many (one s)).seek g) (p.extend tail)) := by
          refine seek_one_sealed hu ht hs hp.left fun κ' q hk hq _ => ?_
          obtain ⟨hk, hs⟩ := Bool.and_eq_true_iff.mp hk
          exact seek_many_sealed hu ht hk hs hq.forget fun κ q hk hq => hf κ q _ hk ⟨hq, .inl rfl⟩
        obtain rfl | rfl : least = 0 ∨ least = 1 := by omega
        · change Option.Rel R ((many (one s)).seek f p) ((many (one s)).seek g (p.extend tail))
          rw [seek_many (productive_one s), seek_many (productive_one s)]
          exact rel_or hfirst (hf κ p _ (by simpa using hstay) ⟨hp.left, .inl rfl⟩)
        · change Option.Rel R ((some_ (one s)).seek f p) ((some_ (one s)).seek g (p.extend tail))
          rw [seek_some (productive_one s), seek_some (productive_one s)]
          exact hfirst
      · cases hone

/-- The match in the text in front of the seam is the one in the longer text. -/
theorem match?_sealed (hu : BeforeSeam detached u) (ht : AfterSeam tail)
    (h : n.isSealed detached (fun _ => true) (.exactly [])) :
    Option.Rel (fun q q' => ∃ κ, q.Matches u tail κ q') (n.match? u) (n.match? (u ++ tail)) := by
  have hp : (Place.start u).Matches u tail (.exactly []) (Place.start (u ++ tail)) :=
    ⟨⟨.start u, by simp [Place.start], rfl⟩, .inl rfl⟩
  rw [match?_eq_seek, match?_eq_seek]
  exact seek_sealed hu ht h hp fun κ q q' _ hq => .some ⟨κ, hq⟩

end Node

theorem Place.Matches.group?_eq (h : p.Matches u tail κ p') {i : Nat} (hi : i ≠ 0) :
    p'.group? (u ++ tail) i = p.group? u i := by
  have hspans : p'.spans = p.spans := by
    rcases h.right with rfl | ⟨-, -, b, r, -, -, rfl⟩ <;> rfl
  unfold Place.group?
  rw [if_neg hi, if_neg hi, hspans]
  cases hfind : p.spans.find? (·.1 = i) with
  | none => rfl
  | some span =>
    obtain ⟨j, opened, closed⟩ := span
    have hclosed : closed ≤ u.length := h.left.spans _ (List.mem_of_find?_eq_some hfind)
    simp only [Option.map_some, Option.some.injEq]
    rcases Nat.lt_or_ge opened closed with hlt | hge
    · rw [List.drop_append_of_le_length (by omega),
        List.take_append_of_le_length (by rw [List.length_drop]; omega)]
    · rw [Nat.sub_eq_zero_of_le hge, List.take_zero, List.take_zero]

end Pattern

end SettingsScan
