import SettingsScan.Proofs.Pattern.Ways

/-! # Images of places

Places can be mapped to places of another text, or to places with other groups. A step and its
image do the same if the image leads from mapped places to the mapped ones. As long as the map
leaves alone how much has been passed and how much follows, this goes from a round to its loops.
-/

namespace SettingsScan.Pattern

/-- As much has been passed at the image of a place, and as much follows. -/
structure Place.IsLevel (f : Place → Place) : Prop where
  passed : ∀ p, (f p).passed = p.passed
  length_rest : ∀ p, (f p).rest.length = p.rest.length

namespace Step

/-- The second step leads from images to the images of what the first one gives. -/
def Carries (f : Place → Place) (step image : Step) : Prop :=
  ∀ p : Place, image (f p) = (step p).map f

variable {f : Place → Place} {step image next nextImage : Step} {greedy : Bool}

theorem orStay_map (f : Place → Place) (greedy : Bool) (ways : List Place) (p : Place) :
    orStay greedy (ways.map f) (f p) = (orStay greedy ways p).map f := by
  unfold orStay
  split
  · rw [List.map_append, List.map_singleton]
  · rw [List.map_cons]

theorem carries_stay : Carries f (fun p => [p]) fun p => [p] := fun _ => rfl

theorem Carries.flatMap (h : Carries f next nextImage) (ways : List Place) :
    (ways.map f).flatMap nextImage = (ways.flatMap next).map f := by
  rw [List.flatMap_map, List.map_flatMap]
  exact congrArg (ways.flatMap ·) (funext h)

theorem Carries.more (h : Carries f step image) (hf : Place.IsLevel f) (n : Nat) :
    Carries f (more greedy step n) (more greedy image n) := by
  induction n with
  | zero => exact carries_stay
  | succ n ih =>
    intro p
    have hround : (image (f p)).filter ((f p).passed < ·.passed) =
        ((step p).filter (p.passed < ·.passed)).map f := by
      rw [h p, List.filter_map]
      refine congrArg (List.map f) (List.filter_congr fun q _ => ?_)
      simp only [Function.comp_apply, hf.passed]
    rw [more_succ, hround, ih.flatMap, orStay_map, more_succ]

theorem Carries.oneOrMore (h : Carries f step image) (hf : Place.IsLevel f) :
    Carries f (oneOrMore greedy step) (oneOrMore greedy image) := by
  intro p
  rw [Step.oneOrMore, h p, Step.oneOrMore, List.flatMap_map, List.map_flatMap]
  congr 1
  funext q
  rw [hf.passed, hf.passed, hf.length_rest]
  split
  · rfl
  · exact h.more hf _ q

theorem Carries.times (h : Carries f step image) (n : Nat) :
    Carries f (times step n) (times image n) := by
  induction n with
  | zero => exact carries_stay
  | succ n ih =>
    intro p
    rw [Step.times, h p, ih.flatMap, Step.times]

theorem Carries.upTo (h : Carries f step image) (n : Nat) :
    Carries f (upTo greedy step n) (upTo greedy image n) := by
  induction n with
  | zero => exact carries_stay
  | succ n ih =>
    intro p
    rw [Step.upTo, h p, ih.flatMap, orStay_map, Step.upTo]

theorem Carries.loop (h : Carries f step image) (hf : Place.IsLevel f) (least : Nat)
    (most : Option Nat) : Carries f (loop least most greedy step) (loop least most greedy image) := by
  intro p
  match least, most with
  | 0, none => rw [loop_zero_none, h.oneOrMore hf, orStay_map, loop_zero_none]
  | n + 1, none => rw [loop_succ_none, h.times, (h.oneOrMore hf).flatMap, loop_succ_none]
  | n, some m => simp only [Step.loop]; rw [h.times, (h.upTo _).flatMap]

end Step

end SettingsScan.Pattern
