import SettingsScan.CommandLine
import SettingsScan.Proofs.Pattern.Edge
import SettingsScan.Proofs.Text.Words

/-! # What one argument takes

Whatever recognises the argument at the front of a text, a rule, a reference or the skip, takes
a piece that is not empty and ends at the edge of a word.
-/

namespace SettingsScan

open Text (EdgeBetween)

namespace OptionMatcher

variable {m : OptionMatcher} {input : Text} {found : OptionMatch}

theorem exists_place_of_lookingAt (h : m.lookingAt input = some found) :
    ∃ place, m.node.match? input = some place ∧
      place.group? input m.nameGroup = some found.name ∧ place.passed ≠ 0 ∧
      found.taken = input.take place.passed ∧ found.rest = place.rest := by
  unfold lookingAt at h
  split at h
  · cases h
  · rename_i place hp
    split at h
    · cases h
    · rename_i name hname
      dsimp only at h
      split at h
      · cases h
      · rename_i h0
        obtain rfl := Option.some.inj h
        exact ⟨place, hp, hname, h0, rfl, rfl⟩

theorem cut_of_lookingAt (h : m.lookingAt input = some found) :
    found.taken ≠ [] ∧ found.taken ++ found.rest = input ∧
      (m.node.endsAtEdge → EdgeBetween found.taken found.rest) := by
  obtain ⟨place, hp, -, h0, ht, hr⟩ := exists_place_of_lookingAt h
  obtain ⟨piece, rfl, hl, hlast⟩ := Pattern.Node.exists_piece_of_match? hp
  rw [hl, List.take_left' rfl] at ht
  rw [ht, hr]
  refine ⟨by rintro rfl; exact h0 (by simpa using hl), rfl, fun he => ?_⟩
  rcases Pattern.Node.atEdge_of_endsAtEdge he hp with h | h | h
  · exact .inr (.inl h)
  · obtain ⟨c, hc, hb⟩ := (Option.any_eq_true _ _).mp h
    exact .inr (.inr ((Option.any_eq_true _ _).mpr ⟨c, hc, isBlank_of_isAsciiBlank hb⟩))
  · obtain ⟨c, hc, hb⟩ := (Option.any_eq_true _ _).mp h
    exact .inl ((Option.any_eq_true _ _).mpr ⟨c, hlast ▸ hc, isBlank_of_isAsciiBlank hb⟩)

end OptionMatcher

theorem OptionRule.exists_matcher_of_findSome? {rules : List OptionRule} {directory input : Text}
    {taken : Taken} (h : rules.findSome? (·.take? directory input) = some taken) :
    ∃ rule ∈ rules, ∃ m ∈ rule.matchers, ∃ found, m.lookingAt input = some found ∧
      taken = { findings := rule.meaning.findings directory found, taken := found.taken,
                rest := found.rest } := by
  obtain ⟨rule, hr, ht⟩ := List.exists_of_findSome?_eq_some h
  obtain ⟨found, hf, rfl⟩ := Option.map_eq_some_iff.mp ht
  obtain ⟨m, hm, hl⟩ := List.exists_of_findSome?_eq_some hf
  exact ⟨rule, hr, m, hm, found, hl, rfl⟩

/-- Every spelling of every dialect ends at an edge. -/
theorem Dialect.endsAtEdge_of_mem {d : Dialect} {rule : OptionRule} {m : OptionMatcher}
    (hr : rule ∈ d.rules) (hm : m ∈ rule.matchers) : m.node.endsAtEdge := by
  have h : ∀ rule ∈ d.rules, ∀ m ∈ rule.matchers, m.node.endsAtEdge := by
    cases d <;> decide
  exact h rule hr m hm

theorem ResponseFile.endsAtEdge_of_mem {m : OptionMatcher} (hm : m ∈ atSign) :
    m.node.endsAtEdge := by
  have h : ∀ m ∈ atSign, m.node.endsAtEdge := by decide
  exact h m hm

/-- The segment takes a piece from the front of the text, up to the edge of a word. -/
structure Segment.Cuts (s : Segment) (text : Text) : Prop where
  taken_ne_nil : s.taken ≠ []
  append_eq : s.taken ++ s.rest = text
  edge : EdgeBetween s.taken s.rest

namespace ArgumentReader

theorem skip_cuts {rest : Text} (hn : rest ≠ []) (hb : rest.head?.any isBlank = false)
    (parsed : Parsed) :
    Segment.Cuts { parsed, taken := rest.firstWord, rest := rest.dropWhile (!isBlank ·) } rest := by
  obtain ⟨c, t, rfl⟩ := List.exists_cons_of_ne_nil hn
  refine ⟨?_, Text.firstWord_append_dropWhile _, ?_⟩
  · simp [Text.firstWord, show isBlank c = false from hb]
  · cases h : (c :: t).dropWhile (!isBlank ·) with
    | nil => exact .inr (.inl rfl)
    | cons d r =>
      have := List.head?_dropWhile_not (!isBlank ·) (c :: t)
      exact .inr (.inr (by simpa [h] using this))

theorem takeOne_cuts (d : Dialect) (responseFiles : Bool) (directory : Text)
    (expand : Text → Parsed) {rest : Text} (hn : rest ≠ [])
    (hb : rest.head?.any isBlank = false) :
    (takeOne d.rules responseFiles directory expand rest).Cuts rest := by
  unfold takeOne
  split
  · rename_i found hf
    obtain ⟨rule, hr, matcher, hmem, m, hl, rfl⟩ := OptionRule.exists_matcher_of_findSome? hf
    obtain ⟨h0, ha, he⟩ := OptionMatcher.cut_of_lookingAt hl
    exact ⟨h0, ha, he (Dialect.endsAtEdge_of_mem hr hmem)⟩
  · dsimp only
    split
    · rename_i reference hf
      split at hf
      · obtain ⟨m, hm, rfl⟩ := Option.map_eq_some_iff.mp hf
        obtain ⟨matcher, hmem, hl⟩ := List.exists_of_findSome?_eq_some hm
        obtain ⟨h0, ha, he⟩ := OptionMatcher.cut_of_lookingAt hl
        exact ⟨h0, ha, he (ResponseFile.endsAtEdge_of_mem hmem)⟩
      · cases hf
    · exact skip_cuts hn hb {}

end ArgumentReader

end SettingsScan
