import SettingsScan.Program.Run
import SettingsScan.Proofs.Except
import SettingsScan.Proofs.FileSystem.Write
import SettingsScan.Proofs.Invocation.Accounting
import SettingsScan.Proofs.Json.Rest

/-! # A run in stages

A run goes through its stages one after the other, each with the file system as it is by then. It
reads the input before it opens the report file, a build log to its last line and a database to the
bracket that closes it. So a failure up to there changes nothing, and the report may replace the
input.
-/

namespace SettingsScan.Program

inductive Stage where
  | begun
  | configured (c : Config)
  | prepared (p : Processor)
  | scanned (r : Report)
  | opened (r : Report) (handle : FileSystem.Handle)
  | ended (ending : Ending)

/-- What a scan of the input deposits, and the state that it ends in. All entries of a database are
scanned up to the bracket that closes it, and all lines of a build log. -/
inductive Scanned (s : Surroundings) (p : Processor) : Input → Yield → ProcessorState → Prop
  | database {file : Text} {front rest : Bytes} {entries : List Json.Value}
      {progress : Database.Progress} :
      s.read file = .ok (front ++ 0x5D :: rest) →
      (Json.Stream.ofBytes (front ++ 0x5D :: rest)).Closes entries rest →
      Database.scanFrom p 0 {} (entries.map .ok) = (progress, none) →
      Scanned s p (.database file) progress.yield progress.state
  | buildLog {file : Text} {directory : Option Text} {bytes : Bytes} {lines : List Bytes}
      {progress : BuildLog.Progress} :
      (if file = standardStream then bytes = s.standardInput else s.read file = .ok bytes) →
      BuildLog.IsLines bytes lines →
      BuildLog.scanLines p {} ((directory.map (Path.join s.directory)).getD s.directory)
        (lines.map Encoding.ofUtf8) = progress →
      Scanned s p (.buildLog file directory) progress.yield progress.state

namespace Answer

variable {α β : Type} {a : Answer α} {next : α → Answer β} {b : β}

theorem result_andThen (a : Answer α) (next : α → Answer β) :
    (a.andThen next).result = a.result.bind fun given => (next given).result := by
  rw [andThen]
  cases a.result <;> rfl

end Answer

section Scans

variable {s : Surroundings} {p : Processor} {input : Input} {r : Report}

theorem exists_map_ok_of_scanFrom {index : Nat} {progress after : Database.Progress}
    {answers : List (Except Json.StreamError Json.Value)}
    (h : Database.scanFrom p index progress answers = (after, none)) :
    ∃ entries : List Json.Value, answers = entries.map .ok := by
  induction answers generalizing index progress with
  | nil => exact ⟨[], rfl⟩
  | cons answer answers ih =>
    cases answer with
    | error e => cases h
    | ok entry =>
      obtain ⟨entries, rfl⟩ := ih h
      exact ⟨entry :: entries, rfl⟩

theorem exists_scanned (h : (scanInput s p input).result = .ok r) :
    ∃ yield state, Scanned s p input yield state ∧ r = reportOf yield state := by
  cases input with
  | database file =>
    rw [scanInput, scanDatabase] at h
    cases hread : s.read file with
    | error reason =>
      rw [hread] at h
      cases h
    | ok bytes =>
      rw [hread] at h
      cases hscan : Database.scan p {} bytes with
      | mk progress failure =>
        simp only [hscan] at h
        cases failure with
        | some error => cases h
        | none =>
          cases h
          obtain ⟨entries, helements⟩ := exists_map_ok_of_scanFrom hscan
          obtain ⟨front, rest, rfl, hcloses⟩ := Json.Stream.exists_closes_of_elements helements
          rw [Database.scan, helements] at hscan
          exact ⟨_, _, .database hread hcloses hscan, rfl⟩
  | buildLog file directory =>
    rw [scanInput, Answer.result_andThen] at h
    obtain ⟨bytes, hbytes, h⟩ := Except.exists_of_bind_eq_ok h
    have hread : if file = standardStream then bytes = s.standardInput
        else s.read file = .ok bytes := by
      rw [logBytes] at hbytes
      split at hbytes
      · next hf =>
        rw [if_pos hf]
        exact (Except.ok.inj hbytes).symm
      · next hf =>
        rw [if_neg hf]
        cases hr : s.read file with
        | ok content =>
          rw [hr] at hbytes
          exact congrArg _ (Except.ok.inj hbytes)
        | error reason =>
          rw [hr] at hbytes
          cases reason <;> cases hbytes
    refine ⟨_, _, .buildLog hread (BuildLog.isLines_byteLines bytes) rfl, ?_⟩
    cases directory <;> exact (Except.ok.inj h).symm

end Scans

namespace Machine

variable {m now : Machine} {a : Arguments} {r : Report} {stage : Stage}

def step (a : Arguments) : Machine × Stage → Machine × Stage
  | (m, .begun) =>
    match (configuration m.surroundings a.config).result with
    | .error reason => (m, .ended (.failed reason))
    | .ok c => (m, .configured c)
  | (m, .configured c) =>
    match processor m.surroundings c with
    | .error reason => (m, .ended (.failed reason))
    | .ok p => (m, .prepared p)
  | (m, .prepared p) =>
    match (scanInput m.surroundings p a.input).result with
    | .error reason => (m, .ended (.failed reason))
    | .ok r => (m, .scanned r)
  | (m, .scanned r) =>
    if a.output = standardStream then (m, .ended (.done (r.text ++ ['\n'])))
    else
      match m.files.create a.output with
      | .error _ => (m, .ended (.failed (.createReport a.output)))
      | .ok (handle, files) => ({ m with files }, .opened r handle)
  | (m, .opened r handle) =>
    match m.files.fill (Encoding.utf8 (r.text ++ ['\n'])) handle with
    | none => (m, .ended (.failed (.writeReport a.output)))
    | some files => ({ m with files }, .ended (.done []))
  | (m, .ended ending) => (m, .ended ending)

def after (m : Machine) (a : Arguments) : Nat → Machine × Stage
  | 0 => (m, .begun)
  | n + 1 => step a (m.after a n)

/-- The processor that the configuration of the machine asks for. -/
def Prepares (m : Machine) (a : Arguments) (p : Processor) : Prop :=
  ∃ c, (configuration m.surroundings a.config).result = .ok c ∧
    processor m.surroundings c = .ok p

/-- The report of all that a scan of the input deposits, as the input is on the machine. -/
def Reports (m : Machine) (a : Arguments) (r : Report) : Prop :=
  ∃ (p : Processor) (yield : Yield) (state : ProcessorState) (store : Store),
    m.Prepares a p ∧ Scanned m.surroundings p a.input yield state ∧ store.Holds yield.deposits ∧
    r = { resources := store.resources, requests := store.requests
          diagnostics := store.diagnostics, statistics := state.statistics }

/-- Before the given step the report was known, and nothing had changed by then. -/
def KnownBefore (m : Machine) (a : Arguments) (n : Nat) (r : Report) : Prop :=
  m.Reports a r ∧ ∃ k < n, m.after a k = (m, .scanned r)

/-- What can be said after so many steps of a run that began on the machine. -/
def Reached (m : Machine) (a : Arguments) (n : Nat) : Machine × Stage → Prop
  | (now, .begun) => now = m
  | (now, .configured c) => now = m ∧ (configuration m.surroundings a.config).result = .ok c
  | (now, .prepared p) => now = m ∧ m.Prepares a p
  | (now, .scanned r) => now = m ∧ m.Reports a r
  | (now, .opened r handle) => m.KnownBefore a n r ∧ a.output ≠ standardStream ∧
      m.files.create a.output = .ok (handle, now.files)
  | (now, .ended (.done text)) => ∃ r, m.KnownBefore a n r ∧
      if a.output = standardStream then text = r.text ++ ['\n'] ∧ now.files = m.files
      else text = [] ∧ m.files.Replaced a.output (Encoding.utf8 (r.text ++ ['\n'])) now.files
  | (now, .ended _) => now.files = m.files

theorem KnownBefore.succ {n : Nat} (h : m.KnownBefore a n r) : m.KnownBefore a (n + 1) r := by
  obtain ⟨hr, k, hk, hscanned⟩ := h
  exact ⟨hr, k, Nat.lt_succ_of_lt hk, hscanned⟩

theorem Reached.step {n : Nat} {x : Machine × Stage} (hx : m.after a n = x)
    (h : m.Reached a n x) : m.Reached a (n + 1) (step a x) := by
  obtain ⟨now, stage⟩ := x
  cases stage with
  | begun =>
    obtain rfl : now = m := h
    rw [Machine.step]
    cases hc : (configuration now.surroundings a.config).result with
    | error reason => exact rfl
    | ok c => exact ⟨rfl, hc⟩
  | configured c =>
    obtain ⟨rfl, hc⟩ := h
    rw [Machine.step]
    cases hp : processor now.surroundings c with
    | error reason => exact rfl
    | ok p => exact ⟨rfl, c, hc, hp⟩
  | prepared p =>
    obtain ⟨rfl, hp⟩ := h
    rw [Machine.step]
    cases hr : (scanInput now.surroundings p a.input).result with
    | error reason => exact rfl
    | ok r =>
      obtain ⟨yield, state, hs, rfl⟩ := exists_scanned hr
      exact ⟨rfl, p, yield, state, _, hp, hs, Store.holds_addAll yield.deposits, rfl⟩
  | scanned r =>
    obtain ⟨rfl, hr⟩ := h
    have hknown : now.KnownBefore a (n + 1) r := ⟨hr, n, Nat.lt_succ_self n, hx⟩
    rw [Machine.step]
    split
    · next ho => exact ⟨r, hknown, by rw [if_pos ho]; exact ⟨rfl, rfl⟩⟩
    · next ho =>
      split
      · exact rfl
      · next handle files hcreate => exact ⟨hknown, ho, hcreate⟩
  | opened r handle =>
    obtain ⟨hknown, ho, hcreate⟩ := h
    rw [Machine.step]
    split
    · next hfill => exact FileSystem.eq_of_create_of_fill hcreate hfill
    · next files hfill =>
      refine ⟨r, hknown.succ, ?_⟩
      rw [if_neg ho]
      refine ⟨rfl, FileSystem.replaced_of_write ?_⟩
      rw [FileSystem.write_of_create hcreate, hfill]
      rfl
  | ended ending =>
    cases ending with
    | refused reason => exact h
    | failed reason => exact h
    | done text =>
      obtain ⟨r, hknown, hdone⟩ := h
      exact ⟨r, hknown.succ, hdone⟩

theorem reached_after (m : Machine) (a : Arguments) (n : Nat) : m.Reached a n (m.after a n) := by
  induction n with
  | zero => exact rfl
  | succ n ih => exact ih.step rfl

theorem result_report (s : Surroundings) (a : Arguments) :
    (report s a).result = (configuration s a.config).result.bind fun c =>
      (processor s c).bind fun p => (scanInput s p a.input).result := by
  rw [report, Answer.result_andThen]
  congr 1
  funext c
  cases processor s c <;> rfl

theorem step_step_scanned (m : Machine) (a : Arguments) (r : Report) :
    step a (step a (m, .scanned r)) =
      ({ m with files := (m.deliver a.output r).2 }, .ended (m.deliver a.output r).1) := by
  rw [deliver, step, written]
  split
  · rfl
  · cases hcreate : m.files.create a.output with
    | error reason =>
      rw [FileSystem.write_eq, hcreate]
      rfl
    | ok opened =>
      obtain ⟨handle, files⟩ := opened
      rw [FileSystem.write_of_create hcreate]
      change step a ({ m with files }, .opened r handle) = _
      rw [step]
      cases hfill : files.fill (Encoding.utf8 (r.text ++ ['\n'])) handle with
      | none =>
        obtain rfl := FileSystem.eq_of_create_of_fill hcreate hfill
        rfl
      | some filled => rfl

theorem run_of_error {words : List Text} {reason : Failure} (h : Arguments.read words = .ok a)
    (hr : (report m.surroundings a).result = .error reason) :
    m.run words = (.failed reason, m.files) := by
  simp only [run, h, hr]

theorem run_of_ok {words : List Text} (h : Arguments.read words = .ok a)
    (hr : (report m.surroundings a).result = .ok r) : m.run words = m.deliver a.output r := by
  simp only [run, h, hr]

/-- A run is the five steps to its end. -/
theorem after_five {words : List Text} (h : Arguments.read words = .ok a) :
    m.after a 5 = ({ m with files := (m.run words).2 }, .ended (m.run words).1) := by
  have hreport := result_report m.surroundings a
  change step a (step a (step a (step a (step a (m, .begun))))) = _
  rw [step]
  cases hc : (configuration m.surroundings a.config).result with
  | error reason =>
    rw [hc] at hreport
    rw [run_of_error h hreport]
    rfl
  | ok c =>
    rw [hc] at hreport
    change step a (step a (step a (step a (m, .configured c)))) = _
    rw [step]
    cases hp : processor m.surroundings c with
    | error reason =>
      rw [Except.bind, hp] at hreport
      rw [run_of_error h hreport]
      rfl
    | ok p =>
      rw [Except.bind, hp] at hreport
      change step a (step a (step a (m, .prepared p))) = _
      rw [step]
      cases hs : (scanInput m.surroundings p a.input).result with
      | error reason =>
        rw [run_of_error h (hreport.trans hs)]
        rfl
      | ok r =>
        rw [run_of_ok h (hreport.trans hs)]
        exact step_step_scanned m a r

/-- The files of a run change when the report is known, and not before. -/
theorem exists_knownBefore_of_files_ne {n : Nat} (h : m.after a n = (now, stage))
    (hne : now.files ≠ m.files) :
    ∃ r, m.KnownBefore a n r ∧
      ((∃ handle, stage = .opened r handle) ∨ stage = .ended (.done [])) := by
  have hr := reached_after m a n
  rw [h] at hr
  match stage with
  | .begun => exact absurd (congrArg files hr) hne
  | .configured c => exact absurd (congrArg files hr.1) hne
  | .prepared p => exact absurd (congrArg files hr.1) hne
  | .scanned r => exact absurd (congrArg files hr.1) hne
  | .opened r handle => exact ⟨r, hr.1, .inl ⟨handle, rfl⟩⟩
  | .ended (.refused reason) => exact absurd hr hne
  | .ended (.failed reason) => exact absurd hr hne
  | .ended (.done text) =>
    obtain ⟨r, hknown, hr⟩ := hr
    split at hr
    · exact absurd hr.2 hne
    · exact ⟨r, hknown, .inr (by rw [hr.1])⟩

/-- A run that fails before the report file is open changes nothing. A run that succeeds has
written the text of the report of all that the scan deposits and a line feed to the report file,
and changed nothing else. Whenever a file has changed, the input had been read before, as it was at
the start: a build log to its last line, a database to its closing bracket. -/
theorem run_changes_report_only (m : Machine) (words : List Text) :
    (∀ reason, (m.run words).1 = .refused reason → (m.run words).2 = m.files) ∧
    (∀ reason, (m.run words).1 = .failed reason → (∀ file, reason ≠ .writeReport file) →
      (m.run words).2 = m.files) ∧
    ∀ a, Arguments.read words = .ok a →
      m.after a 5 = ({ m with files := (m.run words).2 }, .ended (m.run words).1) ∧
      (∀ n now stage, m.after a n = (now, stage) → now.files ≠ m.files →
        ∃ r, m.Reports a r ∧ (∃ k < n, m.after a k = (m, .scanned r)) ∧
          ((∃ handle, stage = .opened r handle) ∨ stage = .ended (.done []))) ∧
      ∀ text, (m.run words).1 = .done text → ∃ r, m.Reports a r ∧
        (∃ k < 5, m.after a k = (m, .scanned r)) ∧
        if a.output = standardStream then text = r.text ++ ['\n'] ∧ (m.run words).2 = m.files
        else text = [] ∧
          m.files.Replaced a.output (Encoding.utf8 (r.text ++ ['\n'])) (m.run words).2 := by
  have hreached {a : Arguments} (ha : Arguments.read words = .ok a) :
      m.Reached a 5 ({ m with files := (m.run words).2 }, .ended (m.run words).1) :=
    after_five ha ▸ reached_after m a 5
  cases ha : Arguments.read words with
  | error refusal =>
    have hrun : m.run words = (.refused refusal, m.files) := by simp only [run, ha]
    rw [hrun]
    exact ⟨fun _ _ => rfl, fun _ _ _ => rfl, fun _ h => nomatch h⟩
  | ok a =>
    refine ⟨fun reason h => ?_, fun reason h _ => ?_, ?_⟩
    · have hr := hreached ha
      rw [h] at hr
      exact hr
    · have hr := hreached ha
      rw [h] at hr
      exact hr
    · rintro _ ⟨⟩
      refine ⟨after_five ha, fun n now stage hn hne => ?_, fun text h => ?_⟩
      · obtain ⟨r, ⟨hr, hscanned⟩, hstage⟩ := exists_knownBefore_of_files_ne hn hne
        exact ⟨r, hr, hscanned, hstage⟩
      · have hr := hreached ha
        rw [h] at hr
        obtain ⟨r, ⟨hr, hscanned⟩, hdone⟩ := hr
        exact ⟨r, hr, hscanned, hdone⟩

/-- A machine with a database of one command and one malformed entry, and more behind it. -/
def withDatabase : Machine where
  files :=
    { current := ["p".toList]
      entries := [(["p".toList, "db.json".toList], .file (Encoding.utf8 (List.flatten
        ["[\x7b\"directory\": \"/p\", \"file\": \"a.c\", ".toList,
         "\"command\": \"gcc -DA a.c\"\x7d, []] ]".toList])))] }

def databaseReport : Text :=
  Text.joinWith ['\n'] <| List.map String.toList
    ["\x7b", "  \"resources\": [", "    \x7b", "      \"resource\": \x7b",
    "        \"file\": \"/p/a.c\"", "      \x7d,", "      \"language\": \"c\",",
    "      \"entries\": [", "        \x7b", "          \"kind\": \"macro-define\",",
    "          \"name\": \"A\",", "          \"read_only\": true,",
    "          \"built_in\": false", "        \x7d", "      ]", "    \x7d", "  ],",
    "  \"builtin_detection\": [", "    \x7b", "      \"command\": \"gcc\",",
    "      \"language\": \"c\",", "      \"detection\": \"gcc\",", "      \"arguments\": []",
    "    \x7d", "  ],", "  \"diagnostics\": [", "    \x7b", "      \"location\": \"entry 2\",",
    "      \"message\": \"Entry is not a JSON object\"", "    \x7d", "  ],",
    "  \"statistics\": \x7b", "    \"lines_read\": 2,", "    \"commands_recognized\": 1,",
    "    \"lines_without_detector\": 0,", "    \"malformed_entries\": 1,",
    "    \"outside_of_project\": 0,", "    \"settings_entries\": 1", "  \x7d", "\x7d"]

/-- The report replaces the database that it was made from. -/
theorem run_changes_report_only_same_file :
    let words : List Text := ["database", "-i", "db.json", "-o", "db.json"]
    let a : Arguments := { input := .database "db.json", output := "db.json" }
    (withDatabase.run words).1 = .done [] ∧
    (withDatabase.run words).2.read "db.json" = .ok (Encoding.utf8 (databaseReport ++ ['\n'])) ∧
    ∃ r, withDatabase.Reports a r ∧
      (∃ k < 5, withDatabase.after a k = (withDatabase, .scanned r)) ∧
      withDatabase.files.Replaced "db.json" (Encoding.utf8 (r.text ++ ['\n']))
        (withDatabase.run words).2 := by
  intro words a
  have hdone : (withDatabase.run words).1 = .done [] := by decide +kernel
  have hread : Arguments.read words = .ok a := by decide +kernel
  have hcontent : (withDatabase.run words).2.read "db.json" =
      .ok (Encoding.utf8 (databaseReport ++ ['\n'])) := by decide +kernel
  obtain ⟨-, -, h⟩ := run_changes_report_only withDatabase words
  obtain ⟨-, -, h⟩ := h a hread
  obtain ⟨r, hr, hscanned, hout⟩ := h [] hdone
  rw [if_neg (by decide)] at hout
  exact ⟨hdone, hcontent, r, hr, hscanned, hout.2⟩

end Machine

end SettingsScan.Program
