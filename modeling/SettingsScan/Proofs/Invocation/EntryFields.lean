import SettingsScan.Invocation.Entry
import SettingsScan.Proofs.Except

/-! # What the fields of an entry amount to

Four fields of an entry are looked at. Each may be absent, of a wrong type, or given; what comes out
is told from that alone, and of several things that are wrong only the first one is reported.
-/

namespace SettingsScan.Entry

open Json (Value)

variable {fields : List (Text × Value)}

/-- The value of a field; null is none. -/
def given? (fields : List (Text × Value)) (name : String) : Option Value :=
  match fields.lookup name.toList with
  | some .null => none
  | v => v

def fieldNames : List Text := ["file", "directory", "command", "arguments"]

/-- The file, the directory or the command is given and not a string, or the arguments are given and
not a list of strings. -/
inductive HasWrongField (fields : List (Text × Value)) : Prop
  | text {name : String} {v : Value} (hn : name ∈ ["file", "directory", "command"])
      (hv : given? fields name = some v) (hs : ∀ t, v ≠ .string t)
  | list {v : Value} (hv : given? fields "arguments" = some v)
      (hs : ∀ texts : List Text, v ≠ .array (texts.map .string))

/-- The command line of an entry: the command, or else the joined arguments. -/
inductive Line (fields : List (Text × Value)) : Text → Prop
  | command {t : Text} (h : given? fields "command" = some (.string t)) :
      Line fields (t.dropWhile isBlank)
  | arguments {texts : List Text} (hc : given? fields "command" = none)
      (h : given? fields "arguments" = some (.array (texts.map .string))) :
      Line fields (joinArguments texts)

/-- The result is the right one for an object with the fields. -/
structure Answers (fields : List (Text × Value)) (result : Except EntryError Invocation) :
    Prop where
  object : result ≠ .error .notAnObject
  invalidField : (∃ expected found, result = .error (.invalidField expected found)) ↔
    HasWrongField fields
  missingDirectory : result = .error .missingDirectory ↔
    ¬ HasWrongField fields ∧ given? fields "directory" = none
  missingFile : result = .error .missingFile ↔
    ¬ HasWrongField fields ∧ given? fields "directory" ≠ none ∧ given? fields "file" = none
  missingCommand : result = .error .missingCommand ↔
    ¬ HasWrongField fields ∧ given? fields "directory" ≠ none ∧ given? fields "file" ≠ none ∧
      given? fields "command" = none ∧ given? fields "arguments" = none
  emptyCommand : result = .error .emptyCommand ↔
    ¬ HasWrongField fields ∧ given? fields "directory" ≠ none ∧ given? fields "file" ≠ none ∧
      ∃ line, Line fields line ∧ ∀ c ∈ line, isBlank c
  invocation : ∀ invocation, result = .ok invocation ↔
    ¬ HasWrongField fields ∧ given? fields "directory" = some (.string invocation.directory) ∧
      (∃ file, given? fields "file" = some (.string file) ∧ invocation.file = some file) ∧
      Line fields invocation.line ∧ ∃ c ∈ invocation.line, ¬ isBlank c

/-! ### One field -/

theorem textField_cases (fields : List (Text × Value)) (name : String) (expected : FieldType) :
    (∃ t : Option Text, given? fields name = t.map .string ∧
      textField expected (fields.lookup name.toList) = .ok t) ∨
    ∃ v, given? fields name = some v ∧ (∀ t, v ≠ .string t) ∧
      textField expected (fields.lookup name.toList) = .error (.invalidField expected v) := by
  unfold given?
  match fields.lookup name.toList with
  | none | some .null => exact .inl ⟨none, rfl, rfl⟩
  | some (.string t) => exact .inl ⟨some t, rfl, rfl⟩
  | some (.bool _) | some (.number _) | some (.array _) | some (.object _) =>
    exact .inr ⟨_, rfl, nofun, rfl⟩

theorem mapM_argument_cases (items : List Value) :
    (∃ texts : List Text, items = texts.map .string ∧ items.mapM argument = .ok texts) ∨
    (∀ texts : List Text, items ≠ texts.map .string) ∧
      ∃ found, items.mapM argument = .error (.invalidField .text found) := by
  induction items with
  | nil => exact .inl ⟨[], rfl, rfl⟩
  | cons v items ih =>
    cases v with
    | string t =>
      obtain ⟨texts, rfl, htexts⟩ | ⟨hne, found, hfound⟩ := ih
      · exact .inl ⟨t :: texts, rfl, by rw [List.mapM_cons, htexts]; rfl⟩
      · refine .inr ⟨?_, found, by rw [List.mapM_cons, hfound]; rfl⟩
        rintro (_ | ⟨t', texts⟩) heq
        · cases heq
        · exact hne texts (List.cons.inj heq).2
    | null | bool | number | array | object =>
      refine .inr ⟨?_, _, by rw [List.mapM_cons]; rfl⟩
      rintro (_ | ⟨t, texts⟩) heq
      · cases heq
      · cases (List.cons.inj heq).1

theorem listField_cases (fields : List (Text × Value)) (name : String) :
    (∃ texts : Option (List Text),
      given? fields name = texts.map (fun texts => .array (texts.map .string)) ∧
      listField (fields.lookup name.toList) = .ok texts) ∨
    ∃ v, given? fields name = some v ∧ (∀ texts : List Text, v ≠ .array (texts.map .string)) ∧
      ∃ expected found,
        listField (fields.lookup name.toList) = .error (.invalidField expected found) := by
  unfold given?
  match fields.lookup name.toList with
  | none | some .null => exact .inl ⟨none, rfl, rfl⟩
  | some (.array items) =>
    obtain ⟨texts, rfl, htexts⟩ | ⟨hne, found, hfound⟩ := mapM_argument_cases items
    · exact .inl ⟨some texts, rfl, by rw [listField, htexts]; rfl⟩
    · refine .inr ⟨_, rfl, fun texts h => ?_, .text, found, by rw [listField, hfound]; rfl⟩
      exact hne texts (Value.array.inj h)
  | some (.bool _) | some (.number _) | some (.string _) | some (.object _) =>
    exact .inr ⟨_, rfl, nofun, .list, _, rfl⟩

/-! ### All fields -/

/-- What the fields hold when none of them is wrong. -/
structure Texts where
  arguments : Option (List Text)
  command : Option Text
  directory : Option Text
  file : Option Text

namespace Texts

variable {x : Texts}

structure Of (x : Texts) (fields : List (Text × Value)) : Prop where
  arguments : given? fields "arguments" = x.arguments.map fun texts => .array (texts.map .string)
  command : given? fields "command" = x.command.map .string
  directory : given? fields "directory" = x.directory.map .string
  file : given? fields "file" = x.file.map .string

theorem Of.not_hasWrongField (h : x.Of fields) : ¬ HasWrongField fields := by
  have text {v : Value} {t : Option Text} (ht : t.map .string = some v)
      (hs : ∀ t, v ≠ .string t) : False := by
    obtain ⟨t, -, rfl⟩ := Option.map_eq_some_iff.mp ht
    exact hs t rfl
  rintro (⟨hn, hv, hs⟩ | ⟨hv, hs⟩)
  · simp only [List.mem_cons, List.not_mem_nil, or_false] at hn
    obtain rfl | rfl | rfl := hn
    · exact text (h.file.symm.trans hv) hs
    · exact text (h.directory.symm.trans hv) hs
    · exact text (h.command.symm.trans hv) hs
  · obtain ⟨texts, -, rfl⟩ := Option.map_eq_some_iff.mp (h.arguments.symm.trans hv)
    exact hs texts rfl

def line? (x : Texts) : Option Text :=
  match x.command with
  | some command => some command.trimStart
  | none => x.arguments.map joinArguments

theorem Of.line_iff (h : x.Of fields) (line : Text) : Line fields line ↔ x.line? = some line := by
  have hc := h.command
  have ha := h.arguments
  constructor
  · rintro (hv | ⟨hn, hv⟩)
    · obtain ⟨t, ht, heq⟩ := Option.map_eq_some_iff.mp (hc.symm.trans hv)
      obtain rfl := Value.string.inj heq
      simp [line?, ht, Text.trimStart]
    · obtain ⟨texts, ht, heq⟩ := Option.map_eq_some_iff.mp (ha.symm.trans hv)
      obtain rfl := List.map_injective_iff.mpr (fun _ _ => Value.string.inj) (Value.array.inj heq)
      simp [line?, Option.map_eq_none_iff.mp (hc.symm.trans hn), ht]
  · intro hl
    cases hx : x.command with
    | some t =>
      rw [line?, hx] at hl
      obtain rfl := Option.some.inj hl
      exact .command (by rw [hc, hx]; rfl)
    | none =>
      rw [line?, hx] at hl
      obtain ⟨texts, ht, rfl⟩ := Option.map_eq_some_iff.mp hl
      exact .arguments (by rw [hc, hx]; rfl) (by rw [ha, ht]; rfl)

theorem Of.line?_eq_none_iff (h : x.Of fields) :
    x.line? = none ↔ given? fields "command" = none ∧ given? fields "arguments" = none := by
  rw [h.command, h.arguments, line?]
  cases x.command <;> simp

def invocation (x : Texts) : Except EntryError Invocation :=
  match x.directory, x.file, x.line? with
  | none, _, _ => .error .missingDirectory
  | some _, none, _ => .error .missingFile
  | some _, some _, none => .error .missingCommand
  | some directory, some file, some line =>
    if line.all isBlank then .error .emptyCommand else .ok { directory, line, file := some file }

theorem Of.answers (h : x.Of fields) : Answers fields x.invocation := by
  have hn := h.not_hasWrongField
  have hline := h.line_iff
  have hnone := h.line?_eq_none_iff
  unfold invocation
  cases hd : x.directory with
  | none => constructor <;> simp [hn, h.directory, hd]
  | some directory =>
    cases hf : x.file with
    | none => constructor <;> simp [hn, h.directory, h.file, hd, hf]
    | some file =>
      cases hl : x.line? with
      | none =>
        have hgiven := hnone.mp hl
        constructor <;> simp [hn, h.directory, h.file, hd, hf, hline, hl, hgiven]
      | some line =>
        have hgiven := mt hnone.mpr (hl ▸ Option.some_ne_none line)
        change Answers fields (if line.all isBlank then _ else _)
        split
        · rename_i hb
          have hblank : ∀ c ∈ line, isBlank c = true := List.all_eq_true.mp hb
          constructor
          case emptyCommand => simpa [hn, h.directory, h.file, hd, hf, hline, hl] using hblank
          case invocation =>
            refine fun _ => iff_of_false nofun ?_
            rintro ⟨-, -, -, hread, c, hc, hcb⟩
            obtain rfl := Option.some.inj (hl.symm.trans ((hline _).mp hread))
            exact hcb (hblank c hc)
          all_goals simp [hn, h.directory, h.file, hd, hf, hgiven]
        · rename_i hb
          have hsome : ∃ c ∈ line, ¬ isBlank c := by simpa using hb
          constructor
          case emptyCommand => simpa [hn, h.directory, h.file, hd, hf, hline, hl] using hsome
          case invocation =>
            rintro ⟨directory', line', file'⟩
            simp only [hline, hl, h.directory, h.file, hd, hf]
            constructor
            · rintro ⟨⟩
              exact ⟨hn, rfl, ⟨file, rfl, rfl⟩, rfl, hsome⟩
            · rintro ⟨-, ⟨⟩, ⟨_, ⟨⟩, rfl⟩, ⟨⟩, -⟩
              rfl
          all_goals simp [hn, h.directory, h.file, hd, hf, hgiven]

end Texts

/-- Either all fields are read, or one is wrong and nothing else is looked at. -/
theorem toInvocation_cases (fields : List (Text × Value)) :
    (∃ x : Texts, x.Of fields ∧ toInvocation (.object fields) = x.invocation) ∨
    HasWrongField fields ∧
      ∃ expected found, toInvocation (.object fields) = .error (.invalidField expected found) := by
  obtain ⟨arguments, ha, hra⟩ | ⟨v, hv, hs, expected, found, hra⟩ :=
    listField_cases fields "arguments"
  swap
  · exact .inr ⟨.list hv hs, expected, found, by simp only [toInvocation, hra]; rfl⟩
  obtain ⟨command, hc, hrc⟩ | ⟨v, hv, hs, hrc⟩ := textField_cases fields "command" .text
  swap
  · exact .inr ⟨.text (by simp) hv hs, .text, v, by simp only [toInvocation, hra, hrc]; rfl⟩
  obtain ⟨directory, hd, hrd⟩ | ⟨v, hv, hs, hrd⟩ := textField_cases fields "directory" .path
  swap
  · exact .inr ⟨.text (by simp) hv hs, .path, v, by simp only [toInvocation, hra, hrc, hrd]; rfl⟩
  obtain ⟨file, hf, hrf⟩ | ⟨v, hv, hs, hrf⟩ := textField_cases fields "file" .path
  swap
  · exact .inr ⟨.text (by simp) hv hs, .path, v, by
      simp only [toInvocation, hra, hrc, hrd, hrf]; rfl⟩
  refine .inl ⟨⟨arguments, command, directory, file⟩, ⟨ha, hc, hd, hf⟩, ?_⟩
  simp only [toInvocation, hra, hrc, hrd, hrf]
  match directory, file, command, arguments with
  | none, _, _, _ | some _, none, _, _ | some _, some _, none, none => rfl
  | some _, some _, some _, _ | some _, some _, none, some _ => rfl

theorem toInvocation_object (fields : List (Text × Value)) :
    Answers fields (toInvocation (.object fields)) := by
  obtain ⟨x, hx, h⟩ | ⟨hw, expected, found, h⟩ := toInvocation_cases fields
  · rw [h]
    exact hx.answers
  · rw [h]
    constructor <;> simp [hw]

/-! ### Other fields -/

theorem lookup_filter {names : List Text} {name : Text} (hn : name ∈ names)
    (fields : List (Text × Value)) :
    (fields.filter (·.1 ∈ names)).lookup name = fields.lookup name := by
  induction fields with
  | nil => rfl
  | cons f fields ih =>
    by_cases hf : f.1 ∈ names
    · rw [List.filter_cons_of_pos (by simpa using hf), List.lookup_cons, List.lookup_cons, ih]
    · have hne : (name == f.1) = false := beq_eq_false_iff_ne.mpr fun h => hf (h ▸ hn)
      rw [List.filter_cons_of_neg (by simpa using hf), List.lookup_cons, hne, ih]

theorem toInvocation_filter (fields : List (Text × Value)) :
    toInvocation (.object (fields.filter (·.1 ∈ fieldNames))) = toInvocation (.object fields) := by
  have hlookup (name : Text) (hn : name ∈ fieldNames) := lookup_filter hn fields
  simp only [toInvocation]
  rw [hlookup "arguments" (by decide), hlookup "command" (by decide),
    hlookup "directory" (by decide), hlookup "file" (by decide)]

/-- Every entry is answered as its fields say: that it is not an object is told of exactly those
that are none, and of an object only the fields that are looked at matter. -/
theorem toInvocation_answers :
    (∀ entry : Value, toInvocation entry = .error .notAnObject ↔
      ∀ fields, entry ≠ .object fields) ∧
    ∀ fields : List (Text × Value),
      Answers fields (toInvocation (.object fields)) ∧
      toInvocation (.object (fields.filter (·.1 ∈ fieldNames))) =
        toInvocation (.object fields) := by
  refine ⟨fun entry => ?_, fun fields => ⟨toInvocation_object fields, toInvocation_filter fields⟩⟩
  cases entry with
  | object fields =>
    exact iff_of_false (toInvocation_object fields).object fun h => h fields rfl
  | null | bool | number | string | array => exact iff_of_true rfl nofun

-- Null is no command.
example :
    (toInvocation (.object [("arguments".toList, .array [.string "cc".toList]),
      ("command".toList, .null), ("directory".toList, .string "/p".toList),
      ("file".toList, .string "f.c".toList)])).toOption =
        some { directory := "/p", line := "cc", file := some "f.c".toList } := by
  decide +kernel

end SettingsScan.Entry
