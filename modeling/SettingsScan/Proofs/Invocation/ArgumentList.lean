import SettingsScan.Proofs.CommandLine.RoundTrip
import SettingsScan.Proofs.Detection.PlainGcc
import SettingsScan.Proofs.Invocation.Survival

/-! # Definitions in a list of arguments

An entry of a compilation database gives its arguments one by one. They are joined to a command
line, which is read like any other; the definitions among them come through as far as their values
survive.
-/

namespace SettingsScan.Entry

open ArgumentReader (takeText)
open Json (Value)
open Pattern (Hint)
open Spelling
open Text (escape isQuote)

def definitionArguments (definitions : List (Text × Text)) (file : Text) : List Text :=
  "gcc".toList :: ((definitions.map fun x => "-D".toList ++ (x.1 ++ '=' :: x.2)) ++
    ["-c".toList, file])

def definitionsText : List (Text × Text) → Text → Text
  | [], file => "-c".toList ++ ' ' :: file
  | (name, value) :: more, file =>
    "-D".toList ++ (name ++ '=' :: (writeValue value ++ ' ' :: definitionsText more file))

/-- Every value survives in front of what is joined behind it. -/
def allSurvive : List (Text × Text) → Text → Bool
  | [], _ => true
  | (_, value) :: more, file =>
    survives value (' ' :: definitionsText more file) && allSurvive more file

/-- The settings of an entry: those that are read from the arguments on its command line by the
tool it is attributed to. -/
def settings? (r : Registry) (e : Expander) (contents : Contents) (entry : Value) :
    Option (List Setting) :=
  match toInvocation entry with
  | .error _ => none
  | .ok invocation => (r.detect e invocation.line).map fun found =>
    (found.detector.reader.read invocation.directory found.arguments contents).findings.settings

variable {name value file t : Text} {definitions : List (Text × Text)}

/-! ### The joined line -/

theorem escapeQuotes_eq (t : Text) : escapeQuotes t = escape isQuote t := by
  unfold escapeQuotes escape
  congr
  funext c
  by_cases h : c = '"' ∨ c = '\''
  · simp [isQuote, h]
  · simp only [not_or] at h
    simp [isQuote, h]

theorem Identifier.any_isBlank (h : Identifier name) : name.any isBlank = false :=
  List.any_eq_false.mpr fun c hc => by simp [not_isBlank_of_nameChar (h.2 c hc)]

theorem Identifier.any_isQuote (h : Identifier name) : name.any isQuote = false := by
  refine List.any_eq_false.mpr fun c hc hq => ?_
  have hn := h.2 c hc
  rcases isQuote_iff.mp hq with rfl | rfl
  · exact absurd hn (by decide)
  · exact absurd hn (by decide)

theorem Identifier.not_mem_equals (h : Identifier name) : '=' ∉ name :=
  fun hm => absurd (h.2 '=' hm) (by decide)

theorem writeArgument_of_no_blank (hb : t.any isBlank = false) :
    writeArgument t = escape isQuote t := by
  rw [writeArgument, escapeQuotes_eq]
  simp [hb]

theorem writeArgument_plain (hb : t.any isBlank = false) (hq : t.any isQuote = false) :
    writeArgument t = t := by
  rw [writeArgument_of_no_blank hb, escape_of_any_eq_false hq]

theorem not_mem_of_any_isQuote (h : t.any isQuote = false) {c : Char} (hc : isQuote c) : c ∉ t :=
  fun hm => List.any_eq_false.mp h c hm hc

/-- The argument starts with a dash and a letter of one byte, and goes on: the letter is not put in
quotes. -/
def hasOptionLetter : Text → Bool
  | '-' :: letter :: _ :: _ => letter.utf8Size = 1
  | _ => false

theorem mem_take_of_hasOptionLetter (h : hasOptionLetter t) : '-' ∈ t.take 2 := by
  unfold hasOptionLetter at h
  split at h
  · exact List.mem_cons_self
  · cases h

/-- Without an equals sign, the quotes are put behind the letter of an option, or around all. -/
theorem writeArgument_of_no_equals (hb : t.any isBlank) (hq : t.any isQuote = false)
    (he : '=' ∉ t) :
    writeArgument t =
      if hasOptionLetter t then t.take 2 ++ '"' :: (t.drop 2 ++ ['"'])
      else '"' :: (t ++ ['"']) := by
  have hcut : Text.cut? (· = '=') t = none :=
    Text.cut?_eq_none fun c hc => decide_eq_false fun heq => he (heq ▸ hc)
  rw [writeArgument, escapeQuotes_eq, escape_of_any_eq_false hq]
  simp only [hb, Bool.not_true, Bool.false_eq_true, if_false, hcut]
  unfold hasOptionLetter
  split
  · simp only [decide_eq_true_eq]
    split <;> simp
  · simp

/-- With an equals sign, the quotes are put around the value behind the first one. -/
theorem writeArgument_of_equals {front : Text} (value : Text) (hq : front.any isQuote = false)
    (he : '=' ∉ front) (hb : (front ++ '=' :: value).any isBlank) :
    writeArgument (front ++ '=' :: value) =
      (front ++ ['=']) ++ '"' :: (escape isQuote value ++ ['"']) := by
  rw [writeArgument, escapeQuotes_eq, Text.escape_append, Text.escape_cons_neg (by rfl),
    escape_of_any_eq_false hq]
  simp only [hb, Bool.not_true, Bool.false_eq_true, if_false, Text.cut?_closing he]
  simp

theorem writeArgument_definition (hn : Identifier name) (value : Text) :
    writeArgument ("-D".toList ++ (name ++ '=' :: value)) =
      "-D".toList ++ (name ++ '=' :: writeValue value) := by
  have hq : ("-D".toList ++ name).any isQuote = false := by
    rw [List.any_append, Identifier.any_isQuote hn]
    rfl
  have he : '=' ∉ "-D".toList ++ name := by
    rw [List.mem_append]
    exact not_or.mpr ⟨by decide, Identifier.not_mem_equals hn⟩
  have hblank : (("-D".toList ++ name) ++ '=' :: value).any isBlank = value.any isBlank := by
    rw [List.any_append, List.any_append, Identifier.any_isBlank hn]
    rfl
  rw [← List.append_assoc, writeValue]
  cases hb : value.any isBlank with
  | false =>
    rw [writeArgument_of_no_blank (hblank.trans hb), Text.escape_append,
      escape_of_any_eq_false hq, Text.escape_cons_neg (by rfl)]
    simp
  | true =>
    rw [writeArgument_of_equals value hq he (hblank.trans hb)]
    simp

/-- Arguments with characters are not joined to a blank line. -/
theorem all_isBlank_writeArgument (h : t ≠ []) : (writeArgument t).all isBlank = false := by
  have not_all {c : Char} {u : Text} (hc : c ∈ u) (hb : isBlank c = false) :
      u.all isBlank = false :=
    List.all_eq_false.mpr ⟨c, hc, by simp [hb]⟩
  cases hb : t.any isBlank with
  | false =>
    obtain ⟨c, u, rfl⟩ := List.exists_cons_of_ne_nil h
    have hc : isBlank c = false := Text.forall_eq_false hb c List.mem_cons_self
    rw [writeArgument_of_no_blank hb]
    refine not_all (c := c) ?_ hc
    cases hq : isQuote c with
    | true => simp [Text.escape_cons_pos hq]
    | false => simp [Text.escape_cons_neg hq]
  | true =>
    -- some quotes are put
    unfold writeArgument
    simp only [hb, Bool.not_true, Bool.false_eq_true, if_false]
    refine not_all (c := '"') ?_ (by rfl)
    split
    · simp
    · split
      · split <;> simp
      · simp

theorem joinArguments_cons (t : Text) (ts : List Text) :
    joinArguments (t :: ts) = writeArgument t ++ ts.flatMap (' ' :: writeArgument ·) := by
  induction ts generalizing t with
  | nil => simp [joinArguments, Text.joinWith]
  | cons u ts ih =>
    have hjoin : joinArguments (t :: u :: ts) =
        writeArgument t ++ [' '] ++ joinArguments (u :: ts) := rfl
    rw [hjoin, ih u, List.flatMap_cons]
    simp

theorem joinArguments_definitions (hn : ∀ x ∈ definitions, Identifier x.1)
    (hb : file.any isBlank = false) (hq : file.any isQuote = false) :
    joinArguments (definitionArguments definitions file) =
      "gcc ".toList ++ definitionsText definitions file := by
  have hgcc : writeArgument "gcc".toList = "gcc".toList := writeArgument_plain (by rfl) (by rfl)
  have hc : writeArgument "-c".toList = "-c".toList := writeArgument_plain (by rfl) (by rfl)
  rw [definitionArguments, joinArguments_cons, hgcc]
  suffices h : ((definitions.map fun x => "-D".toList ++ (x.1 ++ '=' :: x.2)) ++
      ["-c".toList, file]).flatMap (' ' :: writeArgument ·) =
        ' ' :: definitionsText definitions file by
    rw [h]
    rfl
  induction definitions with
  | nil =>
    rw [List.map_nil, List.nil_append, List.flatMap_cons, List.flatMap_singleton, hc,
      writeArgument_plain hb hq]
    rfl
  | cons x more ih =>
    rw [List.map_cons, List.cons_append, List.flatMap_cons,
      ih fun y hy => hn y (List.mem_cons_of_mem _ hy),
      writeArgument_definition (hn x List.mem_cons_self), definitionsText]
    simp

theorem mapM_argument (ts : List Text) : (ts.map Value.string).mapM argument = .ok ts := by
  induction ts with
  | nil => rfl
  | cons t ts ih =>
    rw [List.map_cons, List.mapM_cons, ih]
    rfl

/-! ### Reading it -/

section Reading

variable {responseFiles : Bool} {directory : Text} {expand : Text → Parsed}

theorem takeText_space (t : Text) :
    takeText .gcc responseFiles directory expand (' ' :: t) =
      takeText .gcc responseFiles directory expand t :=
  ArgumentReader.takeText_gap_append (show [' '].all isBlank from rfl) t

theorem takeText_definition (hn : Identifier name) (value t : Text) :
    takeText .gcc responseFiles directory expand
        ("-D".toList ++ (name ++ '=' :: (writeValue value ++ t))) =
      { findings := .ofSetting (.define name (some (readValue (writeValue value ++ t)).1)) } ++
        takeText .gcc responseFiles directory expand (readValue (writeValue value ++ t)).2 := by
  have hm : { text := "-D", meaning := .macroDefine } ∈ Dialect.gcc.switches := List.mem_cons_self
  have hi := (Switch.spells_of_mem hm).introduces (show ∀ c ∈ ([] : Text), isAsciiBlank c by simp)
    (show Separation.optional = .required → ([] : Text) ≠ [] by simp)
  have hr := map_reading_macroDefine_value hi (.word hn) (writeValue value ++ t)
  rw [List.append_nil] at hr
  exact ArgumentReader.takeText_of_reading responseFiles expand hm hr
    fun m h h' => Writes.findings_define directory _ _ m h h'

theorem takeText_compile (file : Text) :
    takeText .gcc responseFiles directory expand ("-c".toList ++ ' ' :: file) =
      takeText .gcc responseFiles directory expand file := by
  have hf : Dialect.gcc.forms.filter (·.2.mayTake ("-c ".toList.map Hint.exactly)) = [] := by
    decide +kernel
  have ha : ResponseFile.atSign.filter (·.mayTake ("-c ".toList.map Hint.exactly)) = [] := by
    decide
  have hone := ArgumentReader.takeOne_skip responseFiles directory expand
    (Hint.fits_exactly_map "-c ".toList) hf ha (r := file)
  have hrest : ("-c ".toList ++ file).dropWhile (!isBlank ·) = ' ' :: file := rfl
  have hnext := ArgumentReader.takeText_next .gcc responseFiles directory expand
    (show "-c ".toList ++ file ≠ [] by simp) (by rfl)
  rw [hone, hrest] at hnext
  exact hnext.trans (takeText_space file)

/-- All definitions are read as they were given if and only if their values survive and the file
does not look like an option. -/
theorem settings_takeText_iff (hn : ∀ x ∈ definitions, Identifier x.1) :
    (takeText .gcc responseFiles directory expand
        (definitionsText definitions file)).findings.settings =
      definitions.map (fun x => .define x.1 (some x.2)) ↔
    allSurvive definitions file ∧
      (takeText .gcc responseFiles directory expand file).findings.settings = [] := by
  induction definitions with
  | nil =>
    rw [definitionsText, takeText_compile, allSurvive]
    simp
  | cons x more ih =>
    obtain ⟨name, value⟩ := x
    have ih := ih fun y hy => hn y (List.mem_cons_of_mem _ hy)
    have hname : Identifier name := hn (name, value) List.mem_cons_self
    have hr : (' ' :: definitionsText more file).head? = some ' ' := rfl
    rw [definitionsText, takeText_definition hname, allSurvive]
    cases hs : survives value (' ' :: definitionsText more file) with
    | true =>
      obtain ⟨r, hread, hrest⟩ := readValue_of_survives hr hs
      have htail : takeText .gcc responseFiles directory expand r =
          takeText .gcc responseFiles directory expand (definitionsText more file) :=
        (ArgumentReader.takeText_of_atEnd (by rfl) hrest).trans (takeText_space _)
      rw [hread, htail, Bool.true_and, ← ih]
      simp [Findings.ofSetting]
    | false =>
      have hne := readValue_ne_of_not_survives hr hs
      simp [Findings.ofSetting, Setting.define, hne]

end Reading

variable {options : DetectionOptions} {r : Registry} {fields : List (Text × Value)}
  {directory source : Text}

theorem toInvocation_of_arguments {arguments : List Text}
    (ha : fields.lookup "arguments".toList = some (.array (arguments.map .string)))
    (hc : textField .text (fields.lookup "command".toList) = .ok none)
    (hd : fields.lookup "directory".toList = some (.string directory))
    (hf : fields.lookup "file".toList = some (.string source))
    (hl : (joinArguments arguments).all isBlank = false) :
    toInvocation (.object fields) =
      .ok { directory, line := joinArguments arguments, file := some source } := by
  have hlist : listField (some (.array (arguments.map .string))) = .ok (some arguments) := by
    rw [listField, mapM_argument]
    rfl
  have htext (expected : FieldType) (t : Text) :
      textField expected (some (.string t)) = .ok (some t) := rfl
  simp only [toInvocation, ha, hc, hd, hf, hlist, htext, bind, Except.bind, pure, Except.pure, hl,
    Bool.false_eq_true, if_false]

theorem settings?_of_arguments (h : Registry.ofTools options [] = .ok r) (e : Expander)
    (contents : Contents)
    (ha : fields.lookup "arguments".toList =
      some (.array ((definitionArguments definitions file).map .string)))
    (hc : textField .text (fields.lookup "command".toList) = .ok none)
    (hd : fields.lookup "directory".toList = some (.string directory))
    (hf : fields.lookup "file".toList = some (.string source))
    (hn : ∀ x ∈ definitions, Identifier x.1)
    (hb : file.any isBlank = false) (hq : file.any isQuote = false) :
    settings? r e contents (.object fields) =
      some (ArgumentReader.read { family := .gcc } directory (definitionsText definitions file)
        contents).findings.settings := by
  have hjoin := joinArguments_definitions hn hb hq
  have hl : (joinArguments (definitionArguments definitions file)).all isBlank = false := by
    rw [hjoin]
    rfl
  obtain ⟨d, hdet, hreader, harg⟩ := Registry.detect_gcc h e (definitionsText definitions file)
  rw [settings?, toInvocation_of_arguments ha hc hd hf hl]
  simp only [hjoin, hdet, Option.map_some, hreader, harg]

/-- The settings of an entry are the definitions in its arguments if and only if their values
survive and the file does not read like an option. -/
theorem settings?_eq_definitions_iff (h : Registry.ofTools options [] = .ok r) (e : Expander)
    (contents : Contents)
    (ha : fields.lookup "arguments".toList =
      some (.array ((definitionArguments definitions file).map .string)))
    (hc : textField .text (fields.lookup "command".toList) = .ok none)
    (hd : fields.lookup "directory".toList = some (.string directory))
    (hf : fields.lookup "file".toList = some (.string source))
    (hn : ∀ x ∈ definitions, Identifier x.1)
    (hb : file.any isBlank = false) (hq : file.any isQuote = false) :
    settings? r e contents (.object fields) =
        some (definitions.map fun x => .define x.1 (some x.2)) ↔
      allSurvive definitions file ∧
        (ArgumentReader.read { family := .gcc } directory file contents).findings.settings = [] := by
  rw [settings?_of_arguments h e contents ha hc hd hf hn hb hq, Option.some_inj]
  simp only [ArgumentReader.read, ArgumentReader.readWith_eq]
  exact settings_takeText_iff hn

def definitionFields (directory : Text) (definitions : List (Text × Text)) (file : Text) :
    List (Text × Value) :=
  [("arguments".toList, .array ((definitionArguments definitions file).map .string)),
   ("directory".toList, .string directory), ("file".toList, .string file)]

theorem identifier_singleton (h : Identifier name) (value : Text) :
    ∀ x ∈ [(name, value)], Identifier x.1 := by
  intro x hx
  rw [List.mem_singleton.mp hx]
  exact h

theorem settings?_eq_definitions_iff_blank_value :
    ∃ r, Registry.ofTools {} [] = .ok r ∧
      settings? r (fun _ => none) (fun _ => none)
          (.object (definitionFields "/p".toList [("A".toList, "b \"c\"".toList)] "f.c".toList)) =
        some [.define "A".toList (some "b \"c\"".toList)] := by
  obtain ⟨r, h⟩ := Registry.exists_ofTools_builtin
  have ha : (definitionFields "/p".toList [("A".toList, "b \"c\"".toList)] "f.c".toList).lookup
      "arguments".toList = some (.array ((definitionArguments
        [("A".toList, "b \"c\"".toList)] "f.c".toList).map .string)) := rfl
  have hn : Identifier "A".toList := ⟨by decide, List.all_eq_true.mp (by decide)⟩
  exact ⟨r, h, (settings?_eq_definitions_iff h _ _ ha rfl rfl rfl
    (identifier_singleton hn _) (by decide) (by decide)).mpr
      ⟨by decide +kernel, by decide +kernel⟩⟩

/-- A quote inside a value without blank characters keeps its backslash. -/
theorem settings?_of_quote_inside :
    ∃ r, Registry.ofTools {} [] = .ok r ∧
      settings? r (fun _ => none) (fun _ => none)
          (.object (definitionFields "/p".toList [("A".toList, "a\"b".toList)] "f.c".toList)) =
        some [.define "A".toList (some "a\\\"b".toList)] ∧
      [Setting.define "A".toList (some "a\\\"b".toList)] ≠
        [.define "A".toList (some "a\"b".toList)] := by
  obtain ⟨r, h⟩ := Registry.exists_ofTools_builtin
  have ha : (definitionFields "/p".toList [("A".toList, "a\"b".toList)] "f.c".toList).lookup
      "arguments".toList = some (.array ((definitionArguments
        [("A".toList, "a\"b".toList)] "f.c".toList).map .string)) := rfl
  refine ⟨r, h, ?_, by decide⟩
  have hn : Identifier "A".toList := ⟨by decide, List.all_eq_true.mp (by decide)⟩
  rw [settings?_of_arguments h _ _ ha rfl rfl rfl (identifier_singleton hn _) (by decide)
    (by decide)]
  decide +kernel

end SettingsScan.Entry
