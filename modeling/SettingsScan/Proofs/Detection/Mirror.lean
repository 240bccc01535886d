import SettingsScan.Detection.Detector
import SettingsScan.Proofs.Pattern.Mirror

/-! # Tool patterns with the separators exchanged

The mirror image of a tool's patterns finds, on the mirror image of a line, the mirror image of
what the patterns find.
-/

namespace SettingsScan

def ToolMatch.mirror (m : ToolMatch) : ToolMatch where
  command := m.command.mirror
  arguments := m.arguments.mirror

namespace ToolPatterns

def mirror (patterns : ToolPatterns) : ToolPatterns where
  quoted := patterns.quoted.mirror
  unquoted := patterns.unquoted.mirror

def isFair (patterns : ToolPatterns) : Bool :=
  patterns.quoted.isFair && patterns.unquoted.isFair

theorem matchWith?_mirror {n : Pattern.Node} (h : n.isFair) (line : Text) :
    matchWith? n.mirror line.mirror = (matchWith? n line).map ToolMatch.mirror := by
  rw [matchWith?, Pattern.Node.match?_mirror h, matchWith?]
  cases n.match? line with
  | none => rfl
  | some place =>
    simp only [Option.map_some, Option.bind_some, Pattern.Place.group?_mirror]
    cases place.group? line 1 <;> rfl

theorem match?_mirror {patterns : ToolPatterns} (h : patterns.isFair) (line : Text) :
    patterns.mirror.match? line.mirror = (patterns.match? line).map ToolMatch.mirror := by
  obtain ⟨hq, hu⟩ := Bool.and_eq_true_iff.mp h
  rw [match?, mirror, matchWith?_mirror hq, matchWith?_mirror hu, match?, Option.map_or]

end ToolPatterns

end SettingsScan
