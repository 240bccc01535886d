import SettingsScan.Proofs.Option.Cut
import SettingsScan.Proofs.Pattern.Captures
import SettingsScan.Proofs.Pattern.Grouped
import SettingsScan.Proofs.Pattern.Leftmost
import SettingsScan.Proofs.Text.Utf8

/-! # Matchers stay at the front

A matcher searches the text for its pattern, which is pasted behind an anchor. The group around it
keeps alternatives and flags of the pattern away from the anchor, so the search finds what the
pattern itself matches at the front, or nothing.
-/

namespace SettingsScan.OptionMatcher

open Pattern (Node Place State)

variable {pattern input : Text} {node n : Node} {nameGroup : Nat} {valueGroup : Option Nat}
  {shellEscaped : Bool} {m : OptionMatcher} {found : OptionMatch}

def anchorState : State where
  items := [.ofAtom (.look .textStart)]

theorem read?_anchored (pattern : Text) :
    ({} : State).read? (anchored pattern) = anchorState.read? (Pattern.grouped false pattern) :=
  State.read?_step rfl rfl rfl

theorem node_level_attach (q : State) :
    (anchorState.attach q).level.node = q.level.node.atStart := by
  rw [State.level_of_branches rfl (by simp [State.attach, anchorState])]
  simp only [State.attach, anchorState, Pattern.Draft.shift_zero]
  rfl

/-- What is pasted behind the anchor is the pattern as it is read alone. -/
theorem ofText_anchored (h : Pattern.ofText pattern = .ok node)
    (ha : Pattern.ofText (anchored pattern) = .ok n) : n = node.atStart := by
  obtain ⟨q, hq, hcomplete, rfl⟩ := Pattern.ofText_eq_ok_iff.mp h
  obtain ⟨s, hs, hanchored, rfl⟩ := Pattern.ofText_eq_ok_iff.mp ha
  rw [read?_anchored, ← List.append_nil (Pattern.grouped false pattern)] at hs
  obtain ⟨depth, closed, hr⟩ := State.reaches_of_read? hq
  cases closed with
  | false =>
    -- the pattern ends in a comment, which leaves the group open
    have hbreaks : Pattern.Breaks (Pattern.grouped false pattern) := Pattern.breaks_of_reaches hr
    exact absurd hanchored.outer (hbreaks anchorState [] s rfl List.not_mem_nil hs)
  | true =>
    have hjoins : Pattern.Joins (Pattern.grouped false pattern) q (depth + 1) :=
      Pattern.joins_of_reaches hr hcomplete.outer
    by_cases hadmits : anchorState.Admits (depth + 1) q.names
    · rw [hjoins.reads anchorState [] rfl hadmits, State.read?_nil] at hs
      cases hs
      exact node_level_attach q
    · cases hs.symm.trans (hjoins.refuses anchorState [] rfl hadmits)

/-- The matcher does what the pattern does that is tried at the front. -/
theorem lookingAt_of_ofText (h : Pattern.ofText pattern = .ok node)
    (hm : ofText pattern nameGroup valueGroup shellEscaped = .ok m) (input : Text) :
    m.lookingAt input =
      lookingAt { node, nameGroup, valueGroup, shellEscaped } input := by
  obtain ⟨n, hn, hm⟩ := Except.exists_of_map_eq_ok hm
  subst hm
  obtain rfl := ofText_anchored h hn
  unfold lookingAt
  rw [Node.match?_leftmost_atStart]
  cases node.match? input with
  | none => rfl
  | some q =>
    simp only [Option.map_some, Place.group?_shift_close, Option.bind_map, Function.comp_def]
    rfl

/-! ### What is taken -/

theorem value_of_lookingAt {place : Place} (h : m.lookingAt input = some found)
    (hplace : m.node.match? input = some place) :
    found.value = m.valueGroup.bind fun group => (place.group? input group).map fun value =>
      if m.shellEscaped then unescapeQuotes value else value := by
  unfold lookingAt at h
  rw [hplace] at h
  dsimp only at h
  split at h
  · cases h
  · split at h
    · cases h
    · rw [← Option.some.inj h]

theorem exists_piece_of_value {value : Text} (h : m.lookingAt input = some found)
    (hvalue : found.value = some value) :
    ∃ piece, piece <:+: found.taken ∧
      value = if m.shellEscaped then unescapeQuotes piece else piece := by
  obtain ⟨place, hplace, -, -, htaken, -⟩ := exists_place_of_lookingAt h
  rw [value_of_lookingAt h hplace] at hvalue
  obtain ⟨group, -, hgroup⟩ := Option.bind_eq_some_iff.mp hvalue
  obtain ⟨piece, hpiece, rfl⟩ := Option.map_eq_some_iff.mp hgroup
  exact ⟨piece, htaken ▸ Node.group?_infix_of_match? hplace hpiece, rfl⟩

/-- Whatever the pattern and the groups are, what a matcher takes is what the pattern itself matches
at the front of the text: some bytes of it, up to the end of a character. The name is a piece of
them, and so is the value, the quotes of which may have been escaped. -/
theorem lookingAt_anchored (hnode : Pattern.ofText pattern = .ok node)
    (hm : ofText pattern nameGroup valueGroup shellEscaped = .ok m)
    (h : m.lookingAt input = some found) :
    let consumed := found.taken.byteSize
    (∃ place, node.match? input = some place ∧ place.passed = found.taken.length ∧
      place.rest = found.rest) ∧
    found.taken ++ found.rest = input ∧
    0 < consumed ∧ consumed ≤ input.byteSize ∧
    (Encoding.utf8 input).take consumed = Encoding.utf8 found.taken ∧
    (Encoding.utf8 input).drop consumed = Encoding.utf8 found.rest ∧
    found.name <:+: found.taken ∧
    ∀ value, found.value = some value → ∃ piece, piece <:+: found.taken ∧
      value = if shellEscaped then unescapeQuotes piece else piece := by
  rw [lookingAt_of_ofText hnode hm] at h
  obtain ⟨hne, hcut, -⟩ := cut_of_lookingAt h
  obtain ⟨place, hplace, hname, -, htaken, hrest⟩ := exists_place_of_lookingAt h
  have hpassed : place.passed = found.taken.length := by
    obtain ⟨piece, hinput, hlength, -⟩ := Node.exists_piece_of_match? hplace
    rw [htaken, hinput, hlength, List.take_left]
  have hbytes := Encoding.take_utf8_append found.taken found.rest
  have hsize := Text.byteSize_append found.taken found.rest
  rw [hcut] at hbytes hsize
  exact ⟨⟨place, hplace, hpassed, hrest.symm⟩, hcut, Text.byteSize_pos hne, by omega, hbytes.1,
    hbytes.2, htaken ▸ Node.group?_infix_of_match? hplace hname, fun value hv =>
    exists_piece_of_value h hv⟩

/-- A branch that matches at the start of a later line does not matter. -/
theorem lookingAt_anchored_multiLine :
    let pattern : Text := "(?m)^b|(?i:-d)(é+)=(\\S+)".toList
    let node : Node := .alt (.concat [.look .lineStart, .char 'b'])
      (.concat [.concat [.char '-', .one (.foldCase (.single 'd'))], .group 1 (.some_ (.char 'é')),
        .char '=', .group 2 (.some_ (.one (.complement .space)))])
    let m : OptionMatcher :=
      { node := node.atStart.leftmost, nameGroup := 2, valueGroup := some 3, shellEscaped := true }
    let input : Text := "-Déé=\\\"x\\\" y\nb".toList
    let found : OptionMatch :=
      { name := "éé".toList, value := some "\"x\"".toList, taken := "-Déé=\\\"x\\\"".toList
        rest := " y\nb".toList }
    Pattern.ofText pattern = .ok node ∧ ofText pattern 1 (some 2) true = .ok m ∧
      m.lookingAt input = some found ∧
      (∃ place, node.match? input = some place ∧ place.passed = 10 ∧ place.rest = found.rest) ∧
      (Encoding.utf8 input).take 12 = Encoding.utf8 found.taken ∧ found.name <:+: found.taken := by
  intro pattern node m input found
  have hnode : Pattern.ofText pattern = .ok node := by decide +kernel
  have hm : ofText pattern 1 (some 2) true = .ok m := by decide +kernel
  have hfound : m.lookingAt input = some found := by decide +kernel
  obtain ⟨hplace, -, -, -, hbytes, -, hname, -⟩ := lookingAt_anchored hnode hm hfound
  exact ⟨hnode, hm, hfound, hplace, hbytes, hname⟩

/-- A text that is no pattern alone can close the group, and the search goes on behind the front. -/
example : (ofText "a)|(b".toList 1 none false).toOption.bind (·.lookingAt "xb c".toList) =
    some { name := ['b'], value := none, taken := "xb".toList, rest := " c".toList } := by
  decide +kernel

end SettingsScan.OptionMatcher
