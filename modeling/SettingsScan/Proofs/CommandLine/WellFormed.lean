import SettingsScan.Proofs.CommandLine.Segments
import SettingsScan.Proofs.Option.MacroName
import SettingsScan.Proofs.Path.Absolute
import SettingsScan.Proofs.Pattern.Captures

/-! # Settings are well formed

Whatever the text and its files are, the names of macros are spelled as such, paths are absolute,
and only definitions have a value.
-/

namespace SettingsScan

open Pattern (CharSet Node)
open Pattern.Node
open Spelling

def isNameChar (c : Char) : Bool := c.isAlphanum || c = '_' || c = '$'

def IsNameWord (t : Text) : Prop := t ≠ [] ∧ ∀ c ∈ t, isNameChar c

/-- What every setting of a command line is like. -/
structure Setting.WellFormed (s : Setting) : Prop where
  readOnly : s.readOnly
  not_builtIn : s.builtIn = false
  definition : s.kind = .macroDefine → ∃ word, IsNameWord word ∧
    (s.name = word ∨ ∃ list : Text, s.name = word ++ '(' :: list ++ [')'] ∧
      ∀ c ∈ list, isNameChar c ∨ c = ',' ∨ c = ' ')
  undefinition : s.kind = .macroUndefine → IsNameWord s.name
  value : s.kind ≠ .macroDefine → s.value = none
  path : s.kind ≠ .macroDefine → s.kind ≠ .macroUndefine → Path.isAbsolute s.name

/-! ### Names of macros -/

namespace Spelling

def macroBody : Node :=
  seq (some_ (one nameChar)) (opt (concat [char '(', many (one parameterChar), char ')']))

theorem contains_nameChar (c : Char) : nameChar.contains c = isNameChar c := by
  have hunderscore : c = '_' ↔ c.toNat = 95 := Char.toNat_inj.symm
  have hdollar : c = '$' ↔ c.toNat = 36 := Char.toNat_inj.symm
  have halphanum : c.isAlphanum = (c.isUpper || c.isLower || c.isDigit) := rfl
  rw [Bool.eq_iff_iff, nameChar_iff]
  simp only [isNameChar, halphanum, Bool.or_eq_true, Pattern.isUpper_iff, Pattern.isLower_iff,
    Char.isDigit_iff_toNat, hunderscore, hdollar, decide_eq_true_eq, Char.reduceToNat]
  omega

theorem identifier_iff {t : Text} : Identifier t ↔ IsNameWord t := by
  simp only [Identifier, IsNameWord, contains_nameChar]

theorem mem_language_macroBody {t : Text} : t ∈ macroBody.language ↔ MacroName t := by
  have hlist {v : Text} :
      v ∈ (concat [char '(', many (one parameterChar), char ')']).language ↔
        ∃ list : Text, (∀ c ∈ list, parameterChar.contains c) ∧ v = '(' :: list ++ [')'] := by
    simp only [mem_language_concat_cons, mem_language_char, mem_language_many_one]
    constructor
    · rintro ⟨_, rfl, _, ⟨list, hlist, _, ⟨_, rfl, _, rfl, rfl⟩, rfl⟩, rfl⟩
      exact ⟨list, hlist, by simp⟩
    · rintro ⟨list, hlist, rfl⟩
      exact ⟨_, rfl, _, ⟨list, hlist, _, ⟨_, rfl, [], rfl, rfl⟩, rfl⟩, by simp⟩
  rw [macroBody, mem_language_seq]
  simp only [mem_language_some_one, mem_language_opt, hlist]
  constructor
  · rintro ⟨word, hword, _, rfl | ⟨list, hl, rfl⟩, rfl⟩
    · rw [List.append_nil]
      exact .word hword
    · rw [← List.append_assoc]
      exact .withParameters hword hl
  · intro h
    cases h with
    | word hword => exact ⟨t, hword, [], .inl rfl, List.append_nil t⟩
    | @withParameters word list hword hl =>
      exact ⟨word, hword, _, .inr ⟨list, hl, rfl⟩, by simp⟩

theorem MacroName.exists_word {t : Text} (h : MacroName t) : ∃ word, IsNameWord word ∧
    (t = word ∨ ∃ list : Text, t = word ++ '(' :: list ++ [')'] ∧
      ∀ c ∈ list, isNameChar c ∨ c = ',' ∨ c = ' ') := by
  cases h with
  | word h => exact ⟨t, identifier_iff.mp h, .inl rfl⟩
  | @withParameters word list h hlist =>
    refine ⟨word, identifier_iff.mp h, .inr ⟨list, rfl, fun c hc => ?_⟩⟩
    have hc := hlist c hc
    simpa [parameterChar, contains_nameChar] using hc

end Spelling

/-! ### Settings of one option -/

variable {d : Dialect} {rule : OptionRule} {m : OptionMatcher} {input directory : Text}
  {found : OptionMatch}

theorem OptionMatcher.exists_body_of_lookingAt (h : m.lookingAt input = some found)
    (hname : m.nameGroup = 1) : ∃ body ∈ m.node.bodies 1, found.name ∈ body.language := by
  obtain ⟨place, hplace, hgroup, -⟩ := exists_place_of_lookingAt h
  rw [hname] at hgroup
  exact exists_body_of_match? (by decide) hplace hgroup

theorem Dialect.bodies_of_mem (hr : rule ∈ d.rules) (hm : m ∈ rule.matchers) :
    m.nameGroup = 1 ∧
      (rule.meaning = .macroDefine → ∀ body ∈ m.node.bodies 1, body = macroBody) ∧
      (rule.meaning = .macroUndefine → ∀ body ∈ m.node.bodies 1, body = some_ (one nameChar)) := by
  have h : ∀ rule ∈ d.rules, ∀ m ∈ rule.matchers, m.nameGroup = 1 ∧
      (rule.meaning = .macroDefine → ∀ body ∈ m.node.bodies 1, body = macroBody) ∧
      (rule.meaning = .macroUndefine →
        ∀ body ∈ m.node.bodies 1, body = some_ (one nameChar)) := by
    cases d <;> decide +kernel
  exact h rule hr m hm

theorem Setting.wellFormed_path {kind : SettingKind} (hd : kind ≠ .macroDefine)
    (hu : kind ≠ .macroUndefine) (h : Path.isRooted directory) (name : Text) :
    (Setting.path kind (Path.resolve directory name)).WellFormed where
  readOnly := rfl
  not_builtIn := rfl
  definition := fun hk => absurd hk hd
  undefinition := fun hk => absurd hk hu
  value := fun _ => rfl
  path := fun _ _ => Path.isAbsolute_resolve_of_isRooted h name

theorem OptionRule.wellFormed_findings (hr : rule ∈ d.rules) (hm : m ∈ rule.matchers)
    (hl : m.lookingAt input = some found) (hd : Path.isRooted directory) :
    ∀ s ∈ (rule.meaning.findings directory found).settings, s.WellFormed := by
  intro s hs
  obtain ⟨hgroup, hdefine, hundefine⟩ := Dialect.bodies_of_mem hr hm
  obtain ⟨body, hbody, hname⟩ := m.exists_body_of_lookingAt hl hgroup
  cases hmeaning : rule.meaning with
  | macroDefine =>
    rw [hmeaning] at hs
    obtain rfl := List.mem_singleton.mp hs
    rw [hdefine hmeaning body hbody, mem_language_macroBody] at hname
    exact ⟨rfl, rfl, fun _ => hname.exists_word, nofun, fun hk => absurd rfl hk,
      fun hk => absurd rfl hk⟩
  | macroUndefine =>
    rw [hmeaning] at hs
    obtain rfl := List.mem_singleton.mp hs
    rw [hundefine hmeaning body hbody, mem_language_some_one] at hname
    exact ⟨rfl, rfl, nofun, fun _ => identifier_iff.mp hname, fun _ => rfl,
      fun _ hk => absurd rfl hk⟩
  | includePath | systemIncludePath | includeFile | macroFile =>
    rw [hmeaning] at hs
    obtain rfl := List.mem_singleton.mp hs
    exact Setting.wellFormed_path (by decide) (by decide) hd found.name
  | builtinArgument =>
    rw [hmeaning] at hs
    cases hs

/-! ### Settings of a command line -/

namespace ArgumentReader

/-- All settings that are read in a directory below the root are well formed. -/
theorem read_wellFormed (reader : ArgumentReader) (hd : directory.head? = some '/') (args : Text)
    (contents : Contents) :
    ∀ s ∈ (reader.read directory args contents).findings.settings, s.WellFormed := by
  refine readWith_forall (fun rest found h => ?_) reader.responseFiles contents depthLimit args
  obtain ⟨rule, hr, m, hm, found, hl, rfl⟩ := OptionRule.exists_matcher_of_findSome? h
  exact OptionRule.wellFormed_findings hr hm hl (by simpa [Path.isRooted] using hd)

/-- A definition that is quoted with its parameters, and the options of a file. -/
theorem read_wellFormed_response_file :
    let reader : ArgumentReader := { family := .gcc }
    let contents : Contents := fun path =>
      if path = "/src/more".toList then some "-I../inc -UOLD".toUTF8.toList else none
    let args := "-D'F(x, y)=x' -DG @more".toList
    let settings := (reader.read "/src".toList args contents).findings.settings
    "/src".toList.head? = some '/' ∧
      settings.map (·.name) = ["F(x, y)".toList, "G".toList, "/inc".toList, "OLD".toList] ∧
      ∀ s ∈ settings, s.WellFormed := by
  intro reader contents args settings
  have hd : "/src".toList.head? = some '/' := by decide
  exact ⟨hd, by decide +kernel, read_wellFormed reader hd args contents⟩

end ArgumentReader

end SettingsScan
