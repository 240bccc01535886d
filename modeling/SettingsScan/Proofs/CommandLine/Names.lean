import SettingsScan.Proofs.CommandLine.Segments

/-! # Paths are pieces of the text

Every path among the settings is the one that a piece of the command line stands for, as long as no
response file contributes settings.
-/

namespace SettingsScan

theorem OptionMatcher.name_infix {m : OptionMatcher} {input : Text} {found : OptionMatch}
    (h : m.lookingAt input = some found) : found.name <:+: input := by
  obtain ⟨place, -, hname, -⟩ := exists_place_of_lookingAt h
  unfold Pattern.Place.group? at hname
  split at hname
  · rw [← Option.some.inj hname]
    exact (List.take_prefix _ _).isInfix
  · obtain ⟨span, -, hspan⟩ := Option.map_eq_some_iff.mp hname
    rw [← hspan]
    exact (List.take_prefix _ _).isInfix.trans (List.drop_suffix _ _).isInfix

/-- A setting for a path names one that a piece of the text stands for. -/
def Setting.IsPiece (directory text : Text) (s : Setting) : Prop :=
  s.kind ≠ .macroDefine → s.kind ≠ .macroUndefine →
    ∃ name, name <:+: text ∧ s.name = Path.resolve directory name

theorem Setting.IsPiece.mono {directory t u : Text} {s : Setting} (h : s.IsPiece directory t)
    (ht : t <:+: u) : s.IsPiece directory u := by
  intro hd hu
  obtain ⟨name, hn, hs⟩ := h hd hu
  exact ⟨name, hn.trans ht, hs⟩

theorem OptionMeaning.isPiece (meaning : OptionMeaning) {directory text : Text} {m : OptionMatch}
    (hm : m.name <:+: text) :
    ∀ s ∈ (meaning.findings directory m).settings, s.IsPiece directory text := by
  intro s hs
  cases meaning with
  | builtinArgument => cases hs
  | macroDefine =>
    obtain rfl := List.mem_singleton.mp hs
    exact fun hd => absurd rfl hd
  | macroUndefine =>
    obtain rfl := List.mem_singleton.mp hs
    exact fun _ hu => absurd rfl hu
  | includePath | systemIncludePath | includeFile | macroFile =>
    obtain rfl := List.mem_singleton.mp hs
    exact fun _ _ => ⟨m.name, hm, rfl⟩

namespace ArgumentReader

variable {d : Dialect} {responseFiles : Bool} {directory : Text} {expand : Text → Parsed}

theorem takeOne_isPiece (he : ∀ path, (expand path).findings.settings = []) (rest : Text) :
    ∀ s ∈ (takeOne d.rules responseFiles directory expand rest).parsed.findings.settings,
      s.IsPiece directory rest := by
  refine takeOne_forall (fun found hfound => ?_) fun path => by simp [he]
  obtain ⟨rule, -, matcher, -, m, hlooking, rfl⟩ := OptionRule.exists_matcher_of_findSome? hfound
  exact rule.meaning.isPiece (OptionMatcher.name_infix hlooking)

/-- Every setting for a path that is read from a text is a piece of the text. -/
theorem takeText_isPiece (he : ∀ path, (expand path).findings.settings = []) (text : Text) :
    ∀ s ∈ (takeText d responseFiles directory expand text).findings.settings,
      s.IsPiece directory text :=
  takeText_forall (fun hs hsuffix => hs.mono hsuffix.isInfix) (takeOne_isPiece he) text

end ArgumentReader

end SettingsScan
