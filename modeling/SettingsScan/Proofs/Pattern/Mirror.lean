import SettingsScan.Proofs.Pattern.Image

/-! # Patterns with the separators exchanged

The mirror image of a text has a backslash for each slash and a slash for each backslash. A
pattern whose sets tell the two apart only where one of them stands alone has a mirror image too:
it matches the mirrored text in the mirrored ways, in the same order.
-/

namespace SettingsScan

def otherSeparator (c : Char) : Char :=
  if c = '/' then '\\' else if c = '\\' then '/' else c

theorem otherSeparator_eq_iff {c d : Char} : otherSeparator c = d ↔ c = otherSeparator d := by
  grind [otherSeparator]

def Text.mirror (t : Text) : Text :=
  t.map otherSeparator

namespace Pattern

namespace CharSet

/-- The other separator where one stands alone, and else the set as it is. -/
def mirror (s : CharSet) : CharSet :=
  if s = single '/' then single '\\' else if s = single '\\' then single '/' else s

/-- Whether the set is one separator alone, has both, or has none. -/
def isFair (s : CharSet) : Bool :=
  s = single '/' || s = single '\\' || s.contains '/' == s.contains '\\'

/-- A set with both separators, or with none, does not see that they are exchanged. -/
theorem contains_otherSeparator {s : CharSet} (h : s.contains '/' = s.contains '\\') (c : Char) :
    s.contains (otherSeparator c) = s.contains c := by
  unfold otherSeparator
  split
  · next hc => rw [hc, h]
  · split
    · next hc => rw [hc, h]
    · rfl

theorem contains_mirror {s : CharSet} (h : s.isFair) (c : Char) :
    s.mirror.contains (otherSeparator c) = s.contains c := by
  unfold mirror
  split
  · next hs =>
    rw [hs, contains_single, contains_single]
    exact decide_eq_decide.mpr otherSeparator_eq_iff
  · next hslash =>
    split
    · next hs =>
      rw [hs, contains_single, contains_single]
      exact decide_eq_decide.mpr otherSeparator_eq_iff
    · next hback =>
      refine contains_otherSeparator ?_ c
      simpa [isFair, hslash, hback] using h

end CharSet

namespace Look

variable {last next : Option Char}

theorem any_word_map_otherSeparator (o : Option Char) :
    (o.map otherSeparator).any CharSet.word.contains = o.any CharSet.word.contains := by
  cases o with
  | none => rfl
  | some c => exact CharSet.contains_otherSeparator (by decide) c

theorem map_otherSeparator_beq {a : Char} (h : otherSeparator a = a) (o : Option Char) :
    (o.map otherSeparator == some a) = (o == some a) := by
  cases o with
  | none => rfl
  | some c => simp [Option.some_beq_some, otherSeparator_eq_iff, h]

theorem holds_otherSeparator (look : Look) (last next : Option Char) :
    look.holds (last.map otherSeparator) (next.map otherSeparator) = look.holds last next := by
  have hfeed := map_otherSeparator_beq (a := '\n') (by decide)
  have hreturn := map_otherSeparator_beq (a := '\r') (by decide)
  cases look <;>
    simp only [holds, any_word_map_otherSeparator, hfeed, hreturn, bne, Option.isNone_map]

end Look

namespace Place

def mirror (p : Place) : Place :=
  { p with last := p.last.map otherSeparator, rest := p.rest.mirror }

theorem mirror_start (t : Text) : (start t).mirror = start t.mirror := rfl

theorem mirror_advance (p : Place) (c : Char) (rest : Text) :
    (p.advance c rest).mirror = p.mirror.advance (otherSeparator c) rest.mirror := rfl

theorem isLevel_mirror : IsLevel mirror :=
  ⟨fun _ => rfl, fun _ => List.length_map otherSeparator⟩

theorem group?_mirror (t : Text) (index : Nat) (p : Place) :
    p.mirror.group? t.mirror index = (p.group? t index).map Text.mirror := by
  unfold group?
  split
  · exact congrArg some List.map_take.symm
  · change Option.map _ (p.spans.find? _) = _
    cases p.spans.find? (·.1 = index) with
    | none => rfl
    | some span => simp only [Option.map_some, Text.mirror, List.map_take, List.map_drop]

end Place

namespace Node

def mirror : Node → Node
  | empty => empty
  | one set => one set.mirror
  | look condition => look condition
  | group index body => group index body.mirror
  | seq a b => seq a.mirror b.mirror
  | alt a b => alt a.mirror b.mirror
  | loop least most greedy body => loop least most greedy body.mirror

def isFair : Node → Bool
  | empty => true
  | one set => set.isFair
  | look _ => true
  | group _ body => body.isFair
  | seq a b => a.isFair && b.isFair
  | alt a b => a.isFair && b.isFair
  | loop _ _ _ body => body.isFair

/-- The ways of the mirror image are the mirror images of the ways. -/
theorem mirrors_ways (n : Node) (h : n.isFair) :
    Step.Carries Place.mirror n.ways n.mirror.ways := by
  induction n with
  | empty => exact fun _ => rfl
  | one set =>
    intro p
    cases hr : p.rest with
    | nil =>
      have hm : p.mirror.rest = [] := by rw [Place.mirror, hr]; rfl
      rw [mirror, ways_one_nil _ _ hm, ways_one_nil _ _ hr]
      rfl
    | cons c rest =>
      have hm : p.mirror.rest = otherSeparator c :: Text.mirror rest := by rw [Place.mirror, hr]; rfl
      rw [mirror, ways_one_cons _ _ _ _ hm, ways_one_cons _ _ _ _ hr, CharSet.contains_mirror h,
        ← Place.mirror_advance, apply_ite (List.map Place.mirror)]
      rfl
  | look condition =>
    intro p
    have hnext : p.mirror.rest.head? = p.rest.head?.map otherSeparator := List.head?_map
    rw [mirror, ways, hnext, Place.mirror, Look.holds_otherSeparator, ways,
      apply_ite (List.map Place.mirror)]
    rfl
  | group index body ih =>
    intro p
    rw [mirror, ways_group, ih h p, ways_group, List.map_map, List.map_map]
    rfl
  | seq a b iha ihb =>
    obtain ⟨ha, hb⟩ := Bool.and_eq_true_iff.mp h
    intro p
    rw [mirror, ways_seq, iha ha p, (ihb hb).flatMap, ways_seq]
  | alt a b iha ihb =>
    obtain ⟨ha, hb⟩ := Bool.and_eq_true_iff.mp h
    intro p
    rw [mirror, ways_alt, iha ha p, ihb hb p, ways_alt, List.map_append]
  | loop least most greedy body ih => exact (ih h).loop Place.isLevel_mirror least most

theorem match?_mirror {n : Node} (h : n.isFair) (t : Text) :
    n.mirror.match? t.mirror = (n.match? t).map Place.mirror := by
  rw [match?, ← Place.mirror_start, n.mirrors_ways h, List.head?_map, match?]

end Node

end Pattern

end SettingsScan
