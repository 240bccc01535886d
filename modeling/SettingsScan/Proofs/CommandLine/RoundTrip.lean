import SettingsScan.Proofs.CommandLine.Segments
import SettingsScan.Proofs.Option.Value

/-! # Written settings are read back

Settings that are written in any of their spellings, with blank characters and words that are not
options between them, are read from the command line as they are, in order.
-/

namespace SettingsScan

open Pattern (Hint Node)
open Pattern.Node (literal)
open Spelling
open Text (escape)

/-- The kind of setting that a path behind the option gives. -/
def OptionMeaning.pathKind? : OptionMeaning → Option SettingKind
  | includePath => some .includePath
  | systemIncludePath => some .systemIncludePath
  | includeFile => some .includeFile
  | macroFile => some .macroFile
  | _ => none

def OptionMeaning.matchers (meaning : OptionMeaning) (option : Node) (separation : Separation) :
    List OptionMatcher :=
  match meaning with
  | macroDefine => Spelling.macroDefine option
  | macroUndefine => Spelling.macroUndefine option
  | _ => pathOperand option separation

/-- An option that gives a setting, and how its operand is separated from it. -/
structure Switch where
  text : Text
  meaning : OptionMeaning
  separation : Separation := .optional

def Dialect.switches : Dialect → List Switch
  | msvc => ['-', '/'].flatMap fun sign =>
    [{ text := sign :: "D".toList, meaning := .macroDefine },
     { text := sign :: "U".toList, meaning := .macroUndefine },
     { text := sign :: "I".toList, meaning := .includePath },
     { text := sign :: "external:I".toList, meaning := .systemIncludePath },
     { text := sign :: "imsvc".toList, meaning := .systemIncludePath },
     { text := sign :: "FI".toList, meaning := .includeFile }]
  | _ =>
    [{ text := "-D", meaning := .macroDefine },
     { text := "-U", meaning := .macroUndefine },
     { text := "-I", meaning := .includePath },
     { text := "-isystem", meaning := .systemIncludePath },
     { text := "-iquote", meaning := .includePath },
     { text := "-idirafter", meaning := .systemIncludePath },
     { text := "-include", meaning := .includeFile, separation := .required },
     { text := "-imacros", meaning := .macroFile, separation := .required }]

/-- The text stands for the setting behind an option of the given meaning. -/
inductive Writes (directory : Text) : OptionMeaning → Text → Setting → Prop
  | bare {name : Text} : MacroName name →
      Writes directory .macroDefine name (.define name none)
  | plain {name value : Text} : MacroName name → (∀ c ∈ value, isAsciiBlank c = false) →
      value.head? ≠ some '"' → value.head? ≠ some '\'' → value.head? ≠ some '\\' →
      Writes directory .macroDefine (name ++ '=' :: value) (.define name (some value))
  | singleQuoted {name value : Text} : MacroName name → '\'' ∉ value →
      Writes directory .macroDefine (name ++ '=' :: '\'' :: (value ++ ['\'']))
        (.define name (some value))
  | doubleQuoted {name value : Text} : MacroName name → '\\' ∉ value →
      Writes directory .macroDefine (name ++ '=' :: '"' :: (escape (· = '"') value ++ ['"']))
        (.define name (some value))
  | wholeBare {name : Text} {quote : Char} : MacroName name → Quote quote →
      Writes directory .macroDefine (quote :: (name ++ [quote])) (.define name none)
  | whole {name value : Text} {quote : Char} : MacroName name → Quote quote → quote ∉ value →
      Writes directory .macroDefine (quote :: (name ++ '=' :: (value ++ [quote])))
        (.define name (some value))
  | undefine {name : Text} : Identifier name →
      Writes directory .macroUndefine name (.undefine name)
  | path {meaning : OptionMeaning} {kind : SettingKind} {path : Text} :
      meaning.pathKind? = some kind → path ≠ [] → (∀ c ∈ path, isAsciiBlank c = false) →
      path.head? ≠ some '"' → path.head? ≠ some '\'' →
      Writes directory meaning path (.path kind (Path.resolve directory path))
  | quotedPath {meaning : OptionMeaning} {kind : SettingKind} {path : Text} {quote : Char} :
      meaning.pathKind? = some kind → Quote quote → quote ∉ path →
      Writes directory meaning (quote :: (path ++ [quote]))
        (.path kind (Path.resolve directory path))

/-- The command line writes the settings, in order, with words between them that are not
options. -/
inductive Renders (d : Dialect) (directory : Text) : Text → List Setting → Prop
  | done {gap : Text} : (∀ c ∈ gap, isAsciiBlank c) → Renders d directory gap []
  | setting {gap separator body tail : Text} {switch : Switch} {s : Setting}
      {settings : List Setting} : (∀ c ∈ gap, isAsciiBlank c) → switch ∈ d.switches →
      (∀ c ∈ separator, isAsciiBlank c) → (switch.separation = .required → separator ≠ []) →
      Writes directory switch.meaning body s → atEnd tail → Renders d directory tail settings →
      Renders d directory (gap ++ (switch.text ++ separator ++ (body ++ tail))) (s :: settings)
  | word {gap word tail : Text} {settings : List Setting} : (∀ c ∈ gap, isAsciiBlank c) →
      word ≠ [] → (∀ c ∈ word, isBlank c = false) →
      (∀ c, word.head? = some c → c ∉ ['-', '/', '@']) → atEnd tail →
      Renders d directory tail settings → Renders d directory (gap ++ (word ++ tail)) settings

/-! ### The forms of an option -/

namespace Switch

def node (d : Dialect) (switch : Switch) : Node :=
  match d with
  | .msvc => .seq Dialect.dashOrSlash (literal (switch.text.drop 1))
  | _ => literal switch.text

def matchers (d : Dialect) (switch : Switch) : List OptionMatcher :=
  switch.meaning.matchers (switch.node d) switch.separation

variable {d : Dialect} {switch : Switch}

theorem forms_of_mem (h : switch ∈ d.switches) :
    d.forms.filter (·.2.mayTake (switch.text.map Hint.exactly)) =
      (switch.matchers d).map fun m => (switch.meaning, m) := by
  have hall : ∀ switch ∈ d.switches,
      d.forms.filter (·.2.mayTake (switch.text.map Hint.exactly)) =
        (switch.matchers d).map fun m => (switch.meaning, m) := by
    cases d <;> decide +kernel
  exact hall switch h

theorem head?_text_of_mem (h : switch ∈ d.switches) :
    switch.text.head? = some '-' ∨ switch.text.head? = some '/' := by
  have hall : ∀ switch ∈ d.switches,
      switch.text.head? = some '-' ∨ switch.text.head? = some '/' := by
    cases d <;> decide
  exact hall switch h

theorem exists_cons_of_mem (h : switch ∈ d.switches) :
    ∃ c t, switch.text = c :: t ∧ isBlank c = false := by
  rcases head?_text_of_mem h with h | h
  · obtain ⟨t, ht⟩ := List.head?_eq_some_iff.mp h
    exact ⟨_, t, ht, by decide⟩
  · obtain ⟨t, ht⟩ := List.head?_eq_some_iff.mp h
    exact ⟨_, t, ht, by decide⟩

theorem separation_of_mem (h : switch ∈ d.switches) (hk : switch.meaning.pathKind? = none) :
    switch.separation = .optional := by
  have hall : ∀ switch ∈ d.switches, switch.meaning.pathKind? = none →
      switch.separation = .optional := by
    cases d <;> decide
  exact hall switch h hk

theorem spells_of_mem (h : switch ∈ d.switches) : Spells (switch.node d) switch.text := by
  have hh := head?_text_of_mem h
  have hn : switch.text ≠ [] := by
    intro hn
    simp [hn] at hh
  cases d with
  | msvc =>
    obtain ⟨c, t, ht⟩ := List.exists_cons_of_ne_nil hn
    rw [ht] at hh
    have hs := spells_dashOrSlash (show c = '-' ∨ c = '/' by simpa using hh) t
    rw [node, ht]
    exact hs
  | gcc => exact spells_literal hn
  | cc => exact spells_literal hn
  | nvcc => exact spells_literal hn

end Switch

namespace OptionMeaning

variable {meaning : OptionMeaning} {kind : SettingKind}

theorem matchers_of_pathKind? (h : meaning.pathKind? = some kind) (option : Node)
    (separation : Separation) :
    meaning.matchers option separation = pathOperand option separation := by
  cases meaning <;> first | rfl | cases h

theorem findings_of_pathKind? (h : meaning.pathKind? = some kind) (directory : Text)
    (m : OptionMatch) :
    meaning.findings directory m = .ofSetting (.path kind (Path.resolve directory m.name)) := by
  cases meaning <;> cases h <;> rfl

end OptionMeaning

theorem Dialect.forms_of_word (d : Dialect) :
    d.forms.filter (·.2.mayTake [Hint.noneOf ['-', '/', '@']]) = [] := by
  cases d <;> decide +kernel

theorem ResponseFile.atSign_of_word :
    atSign.filter (·.mayTake [Hint.noneOf ['-', '/', '@']]) = [] := by
  decide

/-! ### One option -/

namespace Writes

variable {directory front body tail : Text} {meaning : OptionMeaning} {s : Setting} {option : Node}
  {separation : Separation}

theorem findings_define (directory : Text) (name : Text) (value : Option Text) (m : OptionMatch)
    (hn : m.name = name) (hv : m.value = value) :
    OptionMeaning.macroDefine.findings directory m = .ofSetting (.define name value) := by
  rw [OptionMeaning.findings, hn, hv]

theorem map_reading (h : Writes directory meaning body s)
    (hs : meaning.pathKind? = none → separation = .optional)
    (hi : Introduces option separation front) (ht : atEnd tail) :
    ∃ name value rest,
      ((meaning.matchers option separation).findSome? (·.lookingAt (front ++ (body ++ tail)))).map
        OptionMatch.reading = some (name, value, rest) ∧
      (∀ m : OptionMatch, m.name = name → m.value = value →
        meaning.findings directory m = .ofSetting s) ∧
      (rest = tail ∨ rest = tail.drop 1) := by
  cases h with
  | bare hn =>
    obtain rfl := hs rfl
    exact ⟨_, _, _, map_reading_macroDefine_bare hi hn ht, findings_define _ _ _, .inr rfl⟩
  | @plain name value hn hb hd hq hbs =>
    obtain rfl := hs rfl
    have hread := map_reading_macroDefine_value hi hn (value ++ tail)
    rw [readValue_plain hb hd hq hbs ht] at hread
    rw [List.append_assoc, List.cons_append]
    exact ⟨_, _, _, hread, findings_define _ _ _, .inl rfl⟩
  | @singleQuoted name value hn hv =>
    obtain rfl := hs rfl
    have hread := map_reading_macroDefine_value hi hn ('\'' :: (value ++ '\'' :: tail))
    rw [readValue_singleQuoted hv ht] at hread
    simp only [List.append_assoc, List.cons_append, List.nil_append]
    exact ⟨_, _, _, hread, findings_define _ _ _, .inr rfl⟩
  | @doubleQuoted name value hn hv =>
    obtain rfl := hs rfl
    have hread := map_reading_macroDefine_value hi hn
      ('"' :: (escape (· = '"') value ++ '"' :: tail))
    rw [readValue_doubleQuoted hv ht] at hread
    simp only [List.append_assoc, List.cons_append, List.nil_append]
    exact ⟨_, _, _, hread, findings_define _ _ _, .inr rfl⟩
  | @wholeBare name quote hn hq =>
    obtain rfl := hs rfl
    have hread := map_reading_macroDefine_whole hi hq (quote :: (name ++ quote :: tail)) rfl
      fun p hp hin hsp => readAt_whole_bare hq.ne.1 hn hin ht hq.ne.2.1 hsp hp
    simp only [List.append_assoc, List.cons_append, List.nil_append]
    exact ⟨_, _, _, hread, findings_define _ _ _, .inr rfl⟩
  | @whole name value quote hn hq hv =>
    obtain rfl := hs rfl
    have hread := map_reading_macroDefine_whole hi hq
      (quote :: (name ++ '=' :: (value ++ quote :: tail))) rfl
      fun p hp hin _ => readAt_whole_value hq.ne.1 hn hin ht hv hp
    simp only [List.append_assoc, List.cons_append, List.nil_append]
    exact ⟨_, _, _, hread, findings_define _ _ _, .inr rfl⟩
  | @undefine name hn =>
    obtain rfl := hs rfl
    refine ⟨_, _, _, map_reading_macroUndefine hi hn ht, fun m h _ => ?_, .inr rfl⟩
    rw [OptionMeaning.findings, h]
  | path hk h0 hb hd hq =>
    have hread := map_reading_pathOperand hi (body ++ tail) (by
      obtain ⟨c, t, rfl⟩ := List.exists_cons_of_ne_nil h0
      exact hb c List.mem_cons_self)
    rw [readPath_plain h0 hb hd hq ht] at hread
    rw [OptionMeaning.matchers_of_pathKind? hk]
    refine ⟨_, _, _, hread, fun m h _ => ?_, .inl rfl⟩
    rw [OptionMeaning.findings_of_pathKind? hk, h]
  | @quotedPath _ kind file quote hk hq hv =>
    have hread := map_reading_pathOperand hi (quote :: (file ++ quote :: tail)) hq.ne.2.2
    rw [readPath_quoted hq hv ht] at hread
    rw [OptionMeaning.matchers_of_pathKind? hk]
    simp only [List.append_assoc, List.cons_append, List.nil_append]
    refine ⟨_, _, _, hread, fun m h _ => ?_, .inr rfl⟩
    rw [OptionMeaning.findings_of_pathKind? hk, h]

end Writes

/-! ### The whole command line -/

namespace ArgumentReader

variable {d : Dialect} {responseFiles : Bool} {directory : Text} {expand : Text → Parsed}
  {text tail : Text} {settings : List Setting}

theorem takeText_of_atEnd {rest : Text} (ht : atEnd tail)
    (h : rest = tail ∨ rest = tail.drop 1) :
    takeText d responseFiles directory expand rest =
      takeText d responseFiles directory expand tail := by
  rcases h with rfl | rfl
  · rfl
  · cases tail with
    | nil => rfl
    | cons c t =>
      have hc : [c].all isBlank := by simpa using isBlank_of_isAsciiBlank ht
      exact (takeText_gap_append hc t).symm

theorem all_isBlank {gap : Text} (h : ∀ c ∈ gap, isAsciiBlank c) : gap.all isBlank :=
  List.all_eq_true.mpr fun c hc => isBlank_of_isAsciiBlank (h c hc)

theorem dropWhile_word {word : Text} (hw : ∀ c ∈ word, isBlank c = false) (ht : atEnd tail) :
    (word ++ tail).dropWhile (!isBlank ·) = tail := by
  cases tail with
  | nil => rw [List.append_nil, List.dropWhile_eq_nil_iff.mpr fun c hc => by simp [hw c hc]]
  | cons a tail => exact Text.dropWhile_append_cons hw (isBlank_of_isAsciiBlank ht)

/-- The text that an option of the table starts gives its setting and what is read behind it. -/
theorem takeText_of_reading {switch : Switch} {t name rest : Text} {value : Option Text}
    {s : Setting} (responseFiles : Bool) (expand : Text → Parsed) (hm : switch ∈ d.switches)
    (hr : ((switch.matchers d).findSome? (·.lookingAt (switch.text ++ t))).map
      OptionMatch.reading = some (name, value, rest))
    (hf : ∀ m : OptionMatch, m.name = name → m.value = value →
      switch.meaning.findings directory m = .ofSetting s) :
    takeText d responseFiles directory expand (switch.text ++ t) =
      { findings := .ofSetting s } ++ takeText d responseFiles directory expand rest := by
  obtain ⟨c, u, htext, hc⟩ := Switch.exists_cons_of_mem hm
  have hh : (switch.text ++ t).head?.any isBlank = false := by
    rw [htext]
    exact hc
  have hn : switch.text ++ t ≠ [] := by simp [htext]
  obtain ⟨m, hm', hmr⟩ := Option.map_eq_some_iff.mp hr
  cases hmr
  have hone := takeOne_of_forms responseFiles directory expand
    (Hint.fits_exactly_map switch.text) (Switch.forms_of_mem hm) hm'
  rw [takeText_next d responseFiles directory expand hn hh, hone, hf m rfl rfl]

theorem takeText_renders (responseFiles : Bool) (expand : Text → Parsed)
    (h : Renders d directory text settings) :
    takeText d responseFiles directory expand text = { findings := { settings } } := by
  induction h with
  | done hg => exact takeText_gap (all_isBlank hg)
  | @setting gap separator body tail switch s settings hg hm hsep hreq hw ht _ ih =>
    obtain ⟨name, value, rest, hread, hfind, hrest⟩ :=
      hw.map_reading (Switch.separation_of_mem hm)
        ((Switch.spells_of_mem hm).introduces hsep hreq) ht
    rw [List.append_assoc] at hread
    rw [takeText_gap_append (all_isBlank hg), List.append_assoc,
      takeText_of_reading responseFiles expand hm hread hfind, takeText_of_atEnd ht hrest, ih]
    rfl
  | @word gap word tail settings hg hn hw hf ht _ ih =>
    obtain ⟨c, w, rfl⟩ := List.exists_cons_of_ne_nil hn
    have hone := takeOne_skip responseFiles directory expand
      (List.Forall₂.cons (Hint.fits_noneOf (hf c rfl)) .nil) (Dialect.forms_of_word d)
      ResponseFile.atSign_of_word (r := w ++ tail)
    have hnext := takeText_next d responseFiles directory expand
      (show c :: w ++ tail ≠ [] by simp) (hw c List.mem_cons_self)
    rw [takeText_gap_append (all_isBlank hg), hnext]
    rw [List.singleton_append, ← List.cons_append] at hone
    rw [hone, dropWhile_word hw ht, ih]
    rfl

/-- Reading gives the settings that are written, and nothing else. -/
theorem read_renders (reader : ArgumentReader) (contents : Contents)
    (h : Renders reader.family.dialect directory text settings) :
    reader.read directory text contents =
      { findings := { settings, builtinArguments := [] }, requested := [] } := by
  rw [read, readWith_eq]
  exact takeText_renders _ _ h

theorem read_renders_whole_definition :
    let text : Text := "-D 'A=x y' b.c".toList
    let settings := [Setting.define "A".toList (some "x y".toList)]
    Renders .gcc "/p".toList text settings ∧
      ArgumentReader.read { family := .gcc } "/p".toList text (fun _ => none) =
        { findings := { settings, builtinArguments := [] }, requested := [] } := by
  intro text settings
  have hgap : ∀ c ∈ ([] : Text), isAsciiBlank c := by simp
  have hseparator : ∀ c ∈ " ".toList, isAsciiBlank c := List.all_eq_true.mp (by decide)
  have hblank : ∀ c ∈ "b.c".toList, isBlank c = false := by
    rintro c (_ | ⟨_, _ | ⟨_, _ | ⟨_, ⟨⟩⟩⟩⟩) <;> rfl
  have hhead : ∀ c, "b.c".toList.head? = some c → c ∉ ['-', '/', '@'] := by
    rintro c ⟨⟩
    decide
  have hword : Renders .gcc "/p".toList (" ".toList ++ ("b.c".toList ++ [])) [] :=
    .word hseparator (by decide) hblank hhead rfl (.done hgap)
  have hname : MacroName "A".toList := .word ⟨by decide, List.all_eq_true.mp (by decide)⟩
  have hwrites : Writes "/p".toList .macroDefine
      ('\'' :: ("A".toList ++ '=' :: ("x y".toList ++ ['\'']))) (.define _ (some "x y".toList)) :=
    .whole hname (.inr rfl) (by decide)
  have hswitch : { text := "-D", meaning := .macroDefine } ∈ Dialect.gcc.switches :=
    List.mem_cons_self
  have h : Renders .gcc "/p".toList text settings :=
    .setting hgap hswitch hseparator (by decide) hwrites rfl hword
  exact ⟨h, read_renders { family := .gcc } (fun _ => none) h⟩

end ArgumentReader

end SettingsScan
