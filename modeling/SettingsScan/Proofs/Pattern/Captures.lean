import SettingsScan.Proofs.Pattern.Language
import SettingsScan.Proofs.Pattern.Seek

/-! # What a group captures

A group captures a text of its body, in whatever round of a loop it was closed last.
-/

namespace SettingsScan.Pattern

namespace Node

def bodies (index : Nat) : Node → List Node
  | empty | one _ | look _ => []
  | group i n => (if i = index then [n] else []) ++ n.bodies index
  | seq a b | alt a b => a.bodies index ++ b.bodies index
  | loop _ _ _ n => n.bodies index

variable {n : Node} {p q : Place} {input s t : Text} {i : Nat} {l : Language Char}

/-- A place in the text where the group, if it was closed, covers a text of the language. -/
structure Captured (input : Text) (i : Nat) (l : Language Char) (p : Place) : Prop where
  inside : p.In input
  mem : ∀ s, p.group? input i = some s → s ∈ l

theorem keeps_captured (hi : i ≠ 0) (hl : ∀ body ∈ n.bodies i, ∀ s ∈ body.language, s ∈ l) :
    Step.Keeps (Captured input i l) n.ways := by
  induction n with
  | empty => exact Step.keeps_stay _
  | one set =>
    intro p hp q hq
    obtain ⟨c, r, hr, -, rfl⟩ := mem_ways_one.mp hq
    refine ⟨hp.inside.after hr, fun s hs => hp.mem s ?_⟩
    rwa [Place.group?_after hi] at hs
  | look condition =>
    intro p hp q hq
    rw [ways] at hq
    split at hq
    · exact List.mem_singleton.mp hq ▸ hp
    · cases hq
  | group j n ih =>
    intro p hp q hq
    obtain ⟨u, hu, rfl⟩ := List.mem_map.mp hq
    have hcaptured := ih (fun body hb => hl body (List.mem_append_right _ hb)) p hp u hu
    refine ⟨hcaptured.inside.close j p.passed, fun s hs => ?_⟩
    obtain rfl | hj := eq_or_ne i j
    · obtain ⟨t, ht, hrest⟩ := n.within_language p u hu
      rw [hp.inside.group?_of_reaches hi (n.forward_ways p u hu) hrest] at hs
      cases hs
      exact hl n (by simp [bodies]) s ht
    · rw [Place.group?_close_of_ne hj.symm] at hs
      exact hcaptured.mem s hs
  | seq a b iha ihb =>
    exact (iha fun body hb => hl body (List.mem_append_left _ hb)).flatMap
      (ihb fun body hb => hl body (List.mem_append_right _ hb))
  | alt a b iha ihb =>
    intro p hp q hq
    rcases List.mem_append.mp hq with hq | hq
    · exact iha (fun body hb => hl body (List.mem_append_left _ hb)) p hp q hq
    · exact ihb (fun body hb => hl body (List.mem_append_right _ hb)) p hp q hq
  | loop least most greedy n ih => exact (ih hl).loop least most

/-- What a group of a match covers is a text of one of its bodies. -/
theorem exists_body_of_match? (hi : i ≠ 0) (h : n.match? input = some q)
    (hs : q.group? input i = some s) : ∃ body ∈ n.bodies i, s ∈ body.language := by
  let captures : Language Char := {s | ∃ body ∈ n.bodies i, s ∈ body.language}
  have hstart : Captured input i captures (Place.start input) := by
    refine ⟨.start input, fun s hs => ?_⟩
    simp [Place.group?, Place.start, hi] at hs
  have hl : ∀ body ∈ n.bodies i, ∀ s ∈ body.language, s ∈ captures := fun body hb s hs =>
    show ∃ body ∈ n.bodies i, s ∈ body.language from ⟨body, hb, hs⟩
  exact (keeps_captured hi hl _ hstart q (List.mem_of_mem_head? h)).mem s hs

/-! ### Pieces of what was passed -/

def EndsWithin (p : Place) : Prop :=
  ∀ span ∈ p.spans, span.2.2 ≤ p.passed

theorem keeps_endsWithin (n : Node) : Step.Keeps EndsWithin n.ways := by
  refine n.keeps_ways (fun p c r _ hp => ?_) fun p q i _ hq => ?_
  · exact fun span hspan => (hp span hspan).trans (Nat.le_add_right _ _)
  · exact List.forall_mem_cons.mpr ⟨le_rfl, hq⟩

theorem group?_infix_of_match? (h : n.match? input = some q) (hs : q.group? input i = some s) :
    s <:+: input.take q.passed := by
  have hstart : EndsWithin (Place.start input) := List.forall_mem_nil _
  have hq : EndsWithin q := keeps_endsWithin n _ hstart q (List.mem_of_mem_head? h)
  unfold Place.group? at hs
  split at hs
  · cases hs
    exact List.infix_rfl
  · obtain ⟨⟨j, opened, closed⟩, hspan, rfl⟩ := Option.map_eq_some_iff.mp hs
    have hclosed : closed ≤ q.passed := hq _ (List.mem_of_find?_eq_some hspan)
    dsimp only
    rw [← List.drop_take]
    exact (List.drop_suffix _ _).isInfix.trans (List.take_prefix_take_left hclosed).isInfix

end Node

end SettingsScan.Pattern
