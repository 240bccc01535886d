import SettingsScan.Proofs.Config.Validation
import SettingsScan.Proofs.Detection.ToolPath

/-! # A recognised line is split without loss

The texts of a name, a version suffix and an extension stand in groups of their own, inside of the
group for the command. Whatever they spell, the pattern stays tied to the start of the line, and the
command, the blank character behind it and the arguments are the whole line.
-/

namespace SettingsScan

open Pattern

def pathQuote (quoted : Bool) : Text :=
  if quoted then ['"'] else []

theorem node_pathDone (quoted : Bool) (s : State) :
    (pathDone quoted s).level.node =
      ToolPatterns.pathNode (pathQuote quoted) s.level.node := by
  rw [State.level_of_branches rfl (length_pathDone_le quoted s)]
  cases quoted <;> rfl

variable {quoted : Bool} {parts : List PatternPart} {style : PathStyle} {n : Node}

theorem Composes.exists_pathNode (h : Composes quoted parts) (hne : parts ≠ [])
    (hb : ∀ p ∈ parts, WellGrouped p.text)
    (ho : ofText (pathText quoted style (parts.flatMap PatternPart.written)) = .ok n) :
    ∃ path, n = ToolPatterns.pathNode (pathQuote quoted) path := by
  obtain ⟨s, hs, -, rfl⟩ := ofText_eq_ok_iff.mp ho
  have hstart := amongParts_pathStart quoted style
  have hnames : ((pathStart quoted style).names :: parts.map (·.state.names)).Pairwise
      List.Disjoint :=
    List.pairwise_cons.mpr ⟨fun _ _ => List.disjoint_nil_left _, h.names⟩
  have hread := (PatternPart.read?_flatMap (fun p hp => ⟨hb p hp, h.closed p hp⟩) hstart
    (pathEnd quoted)).1 hnames
  rw [read?_pathText hne, hread,
    (PatternPart.amongParts_addAll hstart parts).read?_pathEnd] at hs
  cases hs
  exact ⟨_, node_pathDone quoted _⟩

namespace ToolPatterns

variable {patterns : ToolPatterns} {line name : Text} {m : ToolMatch} {quote : Text} {path : Node}

theorem exists_of_ofName (h : ofName style name = .ok patterns) :
    ofText (pathText true style name) = .ok patterns.quoted ∧
      ofText (pathText false style name) = .ok patterns.unquoted := by
  obtain ⟨quoted, hq, h⟩ := Except.exists_of_bind_eq_ok h
  obtain ⟨unquoted, hu, h⟩ := Except.exists_of_bind_eq_ok h
  cases h
  exact ⟨hq, hu⟩

theorem exists_blank_of_matchWith? (h : matchWith? (pathNode quote path) line = some m) :
    ∃ b, isAsciiBlank b ∧ line = quote ++ m.command ++ quote ++ b :: m.arguments := by
  obtain ⟨q, hq, hm⟩ := Option.bind_eq_some_iff.mp h
  obtain ⟨command, hc, rfl⟩ := Option.map_eq_some_iff.mp hm
  obtain ⟨command', -, b, hb, hgroup, hline⟩ := group?_of_mem_ways (List.mem_of_mem_head? hq)
  rw [hc] at hgroup
  cases hgroup
  exact ⟨b, hb, hline⟩

end ToolPatterns

namespace Detector

variable {name line : Text} {extension version : Option Text} {reader : ArgumentReader}
  {d : Detector} {method : DetectionMethod} {patterns : ToolPatterns} {m : ToolMatch}

def suffix? (extension version : Option Text) : DetectionMethod → Option (List PatternPart)
  | .basename => some []
  | .withVersion => version.map fun v => [⟨v, false⟩]
  | .withExtension => extension.map fun e => [⟨e, true⟩]
  | .withVersionAndExtension =>
    version.bind fun v => extension.map fun e => [⟨v, false⟩, ⟨e, true⟩]

theorem sublist_parts_of_suffix? {suffix : List PatternPart} (tool : ToolSpec)
    (h : suffix? tool.extension version method = some suffix) :
    (⟨tool.name, false⟩ :: suffix).Sublist (tool.parts version) := by
  cases method with
  | basename =>
    cases h
    simp [ToolSpec.parts]
  | withVersion =>
    obtain ⟨v, rfl, rfl⟩ := Option.map_eq_some_iff.mp h
    simp [ToolSpec.parts]
  | withExtension =>
    obtain ⟨e, he, rfl⟩ := Option.map_eq_some_iff.mp h
    simp [ToolSpec.parts, he]
  | withVersionAndExtension =>
    obtain ⟨v, rfl, h⟩ := Option.bind_eq_some_iff.mp h
    obtain ⟨e, he, rfl⟩ := Option.map_eq_some_iff.mp h
    simp [ToolSpec.parts, he]

/-- The patterns for a method are composed of the name and of what the method tries behind it. -/
theorem exists_suffix_of_ofPatterns
    (h : ofPatterns name extension version style reader = .ok d)
    (hp : d.patterns? method = some patterns) :
    ∃ suffix, suffix? extension version method = some suffix ∧
      ToolPatterns.ofName style ((⟨name, false⟩ :: suffix).flatMap PatternPart.written) =
        .ok patterns := by
  unfold ofPatterns at h
  extract_lets base compile at h
  have hcompile {suffix : Option Text} (hs : compile suffix = .ok (some patterns)) :
      ∃ t, suffix = some t ∧ ToolPatterns.ofName style (base ++ t) = .ok patterns := by
    cases suffix with
    | none => cases hs
    | some t =>
      obtain ⟨_, hname, he⟩ := Except.exists_of_map_eq_ok hs
      cases he
      exact ⟨t, rfl, hname⟩
  obtain ⟨plain, hplain, h⟩ := Except.exists_of_bind_eq_ok h
  obtain ⟨versioned, hversioned, h⟩ := Except.exists_of_bind_eq_ok h
  obtain ⟨extended, hextended, h⟩ := Except.exists_of_bind_eq_ok h
  obtain ⟨both, hboth, h⟩ := Except.exists_of_bind_eq_ok h
  cases h
  cases method with
  | basename =>
    cases hp
    refine ⟨[], rfl, ?_⟩
    rw [List.flatMap_singleton]
    exact hplain
  | withVersion =>
    obtain rfl : versioned = some patterns := hp
    obtain ⟨t, ht, hname⟩ := hcompile hversioned
    obtain ⟨v, rfl, rfl⟩ := Option.map_eq_some_iff.mp ht
    refine ⟨[⟨v, false⟩], rfl, ?_⟩
    rw [List.flatMap_cons, List.flatMap_singleton]
    exact hname
  | withExtension =>
    obtain rfl : extended = some patterns := hp
    obtain ⟨t, ht, hname⟩ := hcompile hextended
    obtain ⟨e, rfl, rfl⟩ := Option.map_eq_some_iff.mp ht
    refine ⟨[⟨e, true⟩], rfl, ?_⟩
    rw [List.flatMap_cons, List.flatMap_singleton, ← extensionText_eq]
    exact hname
  | withVersionAndExtension =>
    obtain rfl : both = some patterns := hp
    obtain ⟨t, ht, hname⟩ := hcompile hboth
    split at ht
    · cases ht
      refine ⟨[⟨_, false⟩, ⟨_, true⟩], rfl, ?_⟩
      rw [List.flatMap_cons, List.flatMap_cons, List.flatMap_singleton, ← extensionText_eq]
      exact hname
    · cases ht

theorem exists_pathNode_of_ofPatterns
    (h : ofPatterns name extension version style reader = .ok d) (hn : compiles name)
    (hv : ∀ v ∈ version, compiles v) (he : ∀ e ∈ extension, compiles e)
    (hp : d.patterns? method = some patterns) :
    ∃ quoted unquoted, patterns.quoted = ToolPatterns.pathNode ['"'] quoted ∧
      patterns.unquoted = ToolPatterns.pathNode [] unquoted := by
  let tool : ToolSpec := { name, family := reader.family, extension }
  have hb : ∀ p ∈ tool.parts version, WellGrouped p.text := by
    simp only [tool, ToolSpec.parts, List.forall_mem_cons, List.forall_mem_append, List.mem_map,
      Option.mem_toList, forall_exists_index, and_imp, forall_apply_eq_imp_iff₂]
    exact ⟨wellGrouped_of_compiles hn, fun v hm => wellGrouped_of_compiles (hv v hm),
      fun e hm => wellGrouped_of_compiles (he e hm)⟩
  have hall : Composes true (tool.parts version) :=
    (isOk_ofPatterns_iff_composes tool hb).mp (congrArg Except.isOk h)
  obtain ⟨suffix, hsuffix, hname⟩ := exists_suffix_of_ofPatterns h hp
  obtain ⟨hquoted, hunquoted⟩ := ToolPatterns.exists_of_ofName hname
  have hsub := sublist_parts_of_suffix? tool hsuffix
  have hparts := hall.sublist hsub
  have hne := List.cons_ne_nil (PatternPart.mk name false) suffix
  have hgrouped : ∀ p ∈ ⟨name, false⟩ :: suffix, WellGrouped p.text := fun p hp =>
    hb p (hsub.subset hp)
  obtain ⟨quoted, hq⟩ := hparts.exists_pathNode hne hgrouped hquoted
  obtain ⟨unquoted, hu⟩ := hparts.unquoted.exists_pathNode hne hgrouped hunquoted
  exact ⟨quoted, unquoted, hq, hu⟩

/-- The command that a detector finds, one blank character and the arguments are the whole line,
perhaps with the command in double quotes, whatever the texts of the tool spell. -/
theorem match?_splits (h : ofPatterns name extension version style reader = .ok d)
    (hn : compiles name) (hv : ∀ v ∈ version, compiles v) (he : ∀ e ∈ extension, compiles e)
    (hm : d.match? line method = some m) :
    ∃ b, isAsciiBlank b ∧ (line = m.command ++ b :: m.arguments ∨
      line = '"' :: (m.command ++ '"' :: b :: m.arguments)) := by
  obtain ⟨patterns, hp, hm⟩ := Option.bind_eq_some_iff.mp hm
  obtain ⟨quoted, unquoted, hq, hu⟩ := exists_pathNode_of_ofPatterns h hn hv he hp
  rw [ToolPatterns.match?, hq, hu] at hm
  rcases Option.or_eq_some_iff.mp hm with hm | ⟨-, hm⟩
  · obtain ⟨b, hb, hline⟩ := ToolPatterns.exists_blank_of_matchWith? hm
    exact ⟨b, hb, .inr (by simpa using hline)⟩
  · obtain ⟨b, hb, hline⟩ := ToolPatterns.exists_blank_of_matchWith? hm
    exact ⟨b, hb, .inl (by simpa using hline)⟩

theorem match?_splits_quoted_command :
    let name : Text := "(?i)(arm|avr)-gcc".toList
    let version : Text := "-?\\d+(\\.\\d+)*".toList
    let extension : Text := "(exe|bat)".toList
    let line : Text := "\"C:/x y/ARM-gcc-8.1.exe\" -c a.c".toList
    ∃ d m, ofPatterns name (some extension) (some version) .posix { family := .gcc } = .ok d ∧
      compiles name ∧ (∀ v ∈ some version, compiles v) ∧ (∀ e ∈ some extension, compiles e) ∧
      d.match? line .withVersionAndExtension = some m ∧
      ∃ b, isAsciiBlank b ∧ (line = m.command ++ b :: m.arguments ∨
        line = '"' :: (m.command ++ '"' :: b :: m.arguments)) := by
  intro name version extension line
  have hn : compiles name := by decide +kernel
  have hv : ∀ v ∈ some version, compiles v := by
    rintro v ⟨⟩
    decide +kernel
  have he : ∀ e ∈ some extension, compiles e := by
    rintro e ⟨⟩
    decide +kernel
  have hmatch : ((ofPatterns name (some extension) (some version) .posix
      { family := .gcc }).toOption.bind (·.match? line .withVersionAndExtension)) =
        some { command := "C:/x y/ARM-gcc-8.1.exe".toList, arguments := "-c a.c".toList } := by
    decide +kernel
  obtain ⟨d, hd, hm⟩ := Option.bind_eq_some_iff.mp hmatch
  have hd := Except.eq_ok_of_toOption hd
  exact ⟨d, _, hd, hn, hv, he, hm, match?_splits hd hn hv he hm⟩

end Detector

end SettingsScan
