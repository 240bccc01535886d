import Mathlib.Data.List.Range
import SettingsScan.Invocation.Database
import SettingsScan.Proofs.Detection.PlainGcc
import SettingsScan.Proofs.Invocation.LogLines
import SettingsScan.Proofs.Json.ArrayText
import SettingsScan.Proofs.Report.Store

/-! # The counters account for every line

Whatever is read, each entry of a database is counted once as malformed, without a detector or
recognised, and each line of a build log once as blank, a directory change, without a detector or
recognised. The counters agree with what was deposited.
-/

namespace SettingsScan

namespace Deposit

def entries? : Deposit → Option (List Setting)
  | settings _ _ entries => some entries
  | _ => none

end Deposit

/-- The counters of commands and settings agree with the deposits. -/
structure Balanced (s : Statistics) (deposits : List Deposit) : Prop where
  outside_le : s.outsideOfProject ≤ s.commandsRecognized
  calls : (deposits.filterMap Deposit.entries?).length =
    s.commandsRecognized - s.outsideOfProject
  entries : s.settingsEntries =
    ((deposits.filterMap Deposit.entries?).map List.length).foldr (· + ·) 0

/-! ### One invocation -/

namespace Statistics

def countOutcome (s : Statistics) (outcome : Outcome) (entries : Nat) : Statistics :=
  match outcome with
  | .noDetector => { s with linesWithoutDetector := s.linesWithoutDetector + 1 }
  | .outsideOfProject =>
    { s with
      commandsRecognized := s.commandsRecognized + 1
      outsideOfProject := s.outsideOfProject + 1 }
  | .recognized =>
    { s with
      commandsRecognized := s.commandsRecognized + 1
      settingsEntries := s.settingsEntries + entries }

end Statistics

namespace Processor

/-- What an invocation deposits is one group of settings and a request, or nothing. -/
inductive Deposits : Outcome → Nat → List Deposit → Prop
  | noDetector : Deposits .noDetector 0 []
  | outside : Deposits .outsideOfProject 0 []
  | recognized {resource : Resource} {language : Option Language} {entries : List Setting}
      {requests : List BuiltinRequest} :
      Deposits .recognized entries.length
        (.settings resource language entries :: requests.map .builtin)

theorem exists_builtinDeposits (found : Detection) (language : Option Language)
    (arguments : List Text) :
    ∃ requests : List BuiltinRequest,
      builtinDeposits found language arguments = requests.map .builtin := by
  unfold builtinDeposits
  dsimp only
  split
  · exact ⟨[], rfl⟩
  · exact ⟨[_], rfl⟩

theorem process_account (p : Processor) (state : ProcessorState) (invocation : Invocation) :
    ∃ entries, Deposits (p.process state invocation).1 entries
        (p.process state invocation).2.1.deposits ∧
      (p.process state invocation).2.2.statistics =
        state.statistics.countOutcome (p.process state invocation).1 entries := by
  unfold process
  dsimp only
  cases (state.memory.detect p.registry p.expander invocation.line).found with
  | none => exact ⟨0, .noDetector, rfl⟩
  | some found =>
    dsimp only
    split
    · exact ⟨0, .outside, rfl⟩
    · obtain ⟨requests, h⟩ := exists_builtinDeposits found
        (found.detector.reader.language.or
          ((source? invocation found.arguments).bind Language.ofFileName?))
        (found.detector.reader.read invocation.directory found.arguments
          p.contents).findings.builtinArguments
      refine ⟨_, ?_, rfl⟩
      simp only [record, h]
      exact .recognized

theorem process_statistics (p : Processor) (memory : DetectionMemory) (s s' : Statistics)
    (invocation : Invocation) :
    (p.process { memory, statistics := s } invocation).1 =
      (p.process { memory, statistics := s' } invocation).1 ∧
    (p.process { memory, statistics := s } invocation).2.1 =
      (p.process { memory, statistics := s' } invocation).2.1 ∧
    (p.process { memory, statistics := s } invocation).2.2.memory =
      (p.process { memory, statistics := s' } invocation).2.2.memory := by
  unfold process
  dsimp only
  cases (memory.detect p.registry p.expander invocation.line).found with
  | none => exact ⟨rfl, rfl, rfl⟩
  | some found =>
    dsimp only
    split <;> exact ⟨rfl, rfl, rfl⟩

variable {outcome : Outcome} {n : Nat} {deposits : List Deposit}

theorem Deposits.diagnostics (h : Deposits outcome n deposits) :
    deposits.filterMap Deposit.diagnostic? = [] := by
  cases h with
  | noDetector => rfl
  | outside => rfl
  | recognized => simp [Deposit.diagnostic?]

theorem Deposits.entries (h : Deposits outcome n deposits) :
    deposits.filterMap Deposit.entries? = [] ∧ outcome ≠ .recognized ∧ n = 0 ∨
      ∃ entries, deposits.filterMap Deposit.entries? = [entries] ∧ outcome = .recognized ∧
        n = entries.length := by
  cases h with
  | noDetector => exact .inl ⟨rfl, by decide, rfl⟩
  | outside => exact .inl ⟨rfl, by decide, rfl⟩
  | @recognized resource language entries requests =>
    exact .inr
      ⟨entries, by simp [Deposit.entries?, List.filterMap_map, Function.comp_def], rfl, rfl⟩

end Processor

namespace Balanced

variable {s : Statistics} {deposits more : List Deposit} {outcome : Outcome} {n : Nat}

theorem of_eq (h : Balanced s deposits) (s' : Statistics)
    (hr : s'.commandsRecognized = s.commandsRecognized)
    (ho : s'.outsideOfProject = s.outsideOfProject)
    (he : s'.settingsEntries = s.settingsEntries) : Balanced s' deposits := by
  constructor
  · rw [hr, ho]; exact h.outside_le
  · rw [hr, ho]; exact h.calls
  · rw [he]; exact h.entries

theorem silent (h : Balanced s deposits) (more : List Deposit)
    (hm : more.filterMap Deposit.entries? = []) :
    Balanced s (deposits ++ more) := by
  constructor
  · exact h.outside_le
  · rw [List.filterMap_append, hm, List.append_nil]; exact h.calls
  · rw [List.filterMap_append, hm, List.append_nil]; exact h.entries

theorem countOutcome (h : Balanced s deposits) (hd : Processor.Deposits outcome n more) :
    Balanced (s.countOutcome outcome n) (deposits ++ more) := by
  have ho := h.outside_le
  have hc := h.calls
  rcases hd.entries with ⟨hm, hne, -⟩ | ⟨entries, hm, rfl, rfl⟩
  · refine silent ?_ more hm
    cases outcome with
    | recognized => exact absurd rfl hne
    | noDetector => exact h.of_eq _ rfl rfl rfl
    | outsideOfProject =>
      constructor
      · exact Nat.succ_le_succ ho
      · simp only [Statistics.countOutcome, hc]; omega
      · exact h.entries
  · have hsum (l : List Nat) (k : Nat) :
        (l ++ [k]).foldr (· + ·) 0 = l.foldr (· + ·) 0 + k := by
      induction l with
      | nil => simp
      | cons x l ih => simp only [List.cons_append, List.foldr_cons, ih, Nat.add_assoc]
    constructor
    · simp only [Statistics.countOutcome]; omega
    · simp only [Statistics.countOutcome, List.filterMap_append, hm, List.length_append, hc,
        List.length_singleton]
      omega
    · rw [List.filterMap_append, hm, List.map_append, List.map_singleton, hsum, ← h.entries]
      rfl

end Balanced

/-! ### Databases -/

namespace Database

open Json (Value StreamError)

/-- What a scan makes of an entry. -/
abbrev Fate := Except EntryError Outcome

def Fate.isMalformed : Fate → Bool
  | .error _ => true
  | .ok _ => false

def Fate.isUndetected : Fate → Bool
  | .error _ => false
  | .ok outcome => outcome = .noDetector

def Fate.isRecognized : Fate → Bool
  | .error _ => false
  | .ok outcome => outcome ≠ .noDetector

/-- An entry with a diagnostic: a malformed one, or one without a detector. -/
def Fate.isReported (f : Fate) : Bool := f.isMalformed || f.isUndetected

def fate (p : Processor) (memory : DetectionMemory) (entry : Value) : Fate :=
  (Entry.toInvocation entry).map fun invocation => (p.process { memory } invocation).1

def memoryAfter (p : Processor) (memory : DetectionMemory) (entry : Value) : DetectionMemory :=
  match Entry.toInvocation entry with
  | .ok invocation => (p.process { memory } invocation).2.2.memory
  | .error _ => memory

def fates (p : Processor) : DetectionMemory → List Value → List Fate
  | _, [] => []
  | memory, entry :: more => fate p memory entry :: fates p (memoryAfter p memory entry) more

/-- The entries in front of the first failure. -/
def entriesRead : List (Except StreamError Value) → List Value
  | .ok entry :: more => entry :: entriesRead more
  | _ => []

/-- The counters after some entries and the diagnostics on them. -/
structure Counted (fates : List Fate) (progress : Progress) : Prop where
  read : progress.state.statistics.linesRead = fates.length
  malformed : progress.state.statistics.malformedEntries = fates.countP Fate.isMalformed
  undetected : progress.state.statistics.linesWithoutDetector = fates.countP Fate.isUndetected
  recognized : progress.state.statistics.commandsRecognized = fates.countP Fate.isRecognized
  diagnostics : (progress.yield.deposits.filterMap Deposit.diagnostic?).map (·.location) =
    ((fates.zipIdx.filter (·.1.isReported)).map (·.2)).map location
  balanced : Balanced progress.state.statistics progress.yield.deposits

variable {before : List Fate} {progress : Progress}

/-- One more fate, with what it adds to the counters and the deposits. -/
theorem Counted.add {f : Fate} {state : ProcessorState} {more : List Deposit}
    {requested : List Text} (h : Counted before progress)
    (hl : state.statistics.linesRead = progress.state.statistics.linesRead + 1)
    (hm : state.statistics.malformedEntries =
      progress.state.statistics.malformedEntries + if f.isMalformed then 1 else 0)
    (hu : state.statistics.linesWithoutDetector =
      progress.state.statistics.linesWithoutDetector + if f.isUndetected then 1 else 0)
    (hr : state.statistics.commandsRecognized =
      progress.state.statistics.commandsRecognized + if f.isRecognized then 1 else 0)
    (hd : (more.filterMap Deposit.diagnostic?).map (·.location) =
      if f.isReported then [location before.length] else [])
    (hb : Balanced state.statistics (progress.yield.deposits ++ more)) :
    Counted (before ++ [f])
      { state, yield := progress.yield ++ { deposits := more, requested } } := by
  have hc (q : Fate → Bool) :
      (before ++ [f]).countP q = before.countP q + if q f then 1 else 0 := by
    rw [List.countP_append, List.countP_singleton]
  constructor
  · rw [hl, h.read, List.length_append, List.length_singleton]
  · rw [hm, h.malformed, hc]
  · rw [hu, h.undetected, hc]
  · rw [hr, h.recognized, hc]
  · rw [Yield.deposits_append, List.filterMap_append, List.map_append, h.diagnostics, hd,
      List.zipIdx_append, List.filter_append, List.map_append, List.map_append]
    congr 1
    cases hf : f.isReported <;> simp [hf]
  · exact hb

theorem Counted.scanEntry (h : Counted before progress) (p : Processor) (entry : Value) :
    Counted (before ++ [fate p progress.state.memory entry])
      { state := (scanEntry p before.length progress.state entry).2
        yield := progress.yield ++ (scanEntry p before.length progress.state entry).1 } ∧
    (scanEntry p before.length progress.state entry).2.memory =
      memoryAfter p progress.state.memory entry := by
  obtain ⟨⟨memory, s⟩, yield⟩ := progress
  unfold Database.scanEntry fate memoryAfter
  cases hi : Entry.toInvocation entry with
  | error e =>
    have hb := (h.balanced.of_eq
      { s with linesRead := s.linesRead + 1, malformedEntries := s.malformedEntries + 1 }
      rfl rfl rfl).silent (diagnosticAt before.length e.message).deposits rfl
    exact ⟨h.add rfl rfl rfl rfl rfl hb, rfl⟩
  | ok invocation =>
    have hm := p.process_statistics memory { s with linesRead := s.linesRead + 1 } {} invocation
    obtain ⟨entries, hd, hs⟩ :=
      p.process_account { memory, statistics := { s with linesRead := s.linesRead + 1 } } invocation
    dsimp only [Except.map] at hm ⊢
    rw [← hm.1, ← hm.2.2]
    generalize p.process { memory, statistics := { s with linesRead := s.linesRead + 1 } }
      invocation = result at hd hs ⊢
    obtain ⟨outcome, ⟨deposits, requested⟩, ⟨memory', s'⟩⟩ := result
    dsimp only at hd hs ⊢
    subst hs
    have hb := (h.balanced.of_eq { s with linesRead := s.linesRead + 1 } rfl rfl
      rfl).countOutcome hd
    refine ⟨?_, rfl⟩
    split
    · rename_i ho
      subst ho
      cases hd
      rw [List.append_nil] at hb
      exact h.add rfl rfl rfl rfl rfl
        (hb.silent (diagnosticAt before.length (noDetectorMessage invocation.line)).deposits rfl)
    · rename_i ho
      have hdiag := congrArg (List.map (·.location)) hd.diagnostics
      cases outcome with
      | noDetector => exact absurd rfl ho
      | outsideOfProject => exact h.add rfl rfl rfl rfl hdiag hb
      | recognized => exact h.add rfl rfl rfl rfl hdiag hb

theorem Counted.scanFrom (h : Counted before progress) (p : Processor)
    (answers : List (Except StreamError Value)) :
    Counted (before ++ fates p progress.state.memory (entriesRead answers))
      (scanFrom p before.length progress answers).1 := by
  induction answers generalizing before progress with
  | nil => simpa [entriesRead, fates, Database.scanFrom] using h
  | cons answer more ih =>
    cases answer with
    | error e => simpa [entriesRead, fates, Database.scanFrom] using h
    | ok entry =>
      obtain ⟨ha, hm⟩ := h.scanEntry p entry
      have := ih ha
      rw [List.append_assoc, List.length_append, List.length_singleton, hm] at this
      exact this

/-- The account of a scan: the counters, the places of the diagnostics, and the deposits. -/
structure Accounts (p : Processor) (memory : DetectionMemory)
    (answers : List (Except StreamError Value)) (progress : Progress) : Prop where
  read : progress.state.statistics.linesRead = (entriesRead answers).length
  total : progress.state.statistics.linesRead =
    progress.state.statistics.malformedEntries +
      progress.state.statistics.linesWithoutDetector +
      progress.state.statistics.commandsRecognized
  malformed : progress.state.statistics.malformedEntries =
    (fates p memory (entriesRead answers)).countP Fate.isMalformed
  undetected : progress.state.statistics.linesWithoutDetector =
    (fates p memory (entriesRead answers)).countP Fate.isUndetected
  /-- The diagnostics belong to the malformed and the undetected entries, in order. -/
  reported : ∃ indices : List Nat, indices.Pairwise (· < ·) ∧
    (∀ i, i ∈ indices ↔ ∃ f, (fates p memory (entriesRead answers))[i]? = some f ∧ f.isReported) ∧
    (progress.yield.deposits.filterMap Deposit.diagnostic?).map (·.location) =
      indices.map location
  balanced : Balanced progress.state.statistics progress.yield.deposits

end Database

/-! ### Build logs -/

namespace BuildLog

/-- Scans lines that were read. If reading breaks off, these are the lines in front of the
failure. -/
def scanLines (p : Processor) (state : ProcessorState) (directory : Text) (lines : List Text) :
    Progress :=
  lines.foldl (scanLine p) { directories := { start := directory }, state }

/-- The counters after some lines. A log has no diagnostics. -/
structure Accounts (lines : List Text) (progress : Progress) : Prop where
  read : progress.state.statistics.linesRead = lines.length
  total : progress.state.statistics.linesRead =
    progress.state.statistics.commandsRecognized +
      progress.state.statistics.linesWithoutDetector +
      lines.countP (·.all isBlank) + lines.countP (IsMessage ·)
  diagnostics : progress.yield.deposits.filterMap Deposit.diagnostic? = []
  balanced : Balanced progress.state.statistics progress.yield.deposits

variable {before : List Text} {progress : Progress}

theorem Accounts.scanLine (h : Accounts before progress) (p : Processor) (line : Text) :
    Accounts (before ++ [line]) (scanLine p progress line) := by
  obtain ⟨directories, ⟨memory, s⟩, yield⟩ := progress
  have hr := h.read
  have ht := h.total
  have hblank : (before ++ [line]).countP (·.all isBlank) = before.countP (·.all isBlank) +
      if classify line = .blank then 1 else 0 := by
    simp only [List.countP_append, List.countP_singleton, classify_eq_blank_iff]
  have hmessage : (before ++ [line]).countP (IsMessage ·) = before.countP (IsMessage ·) +
      if IsMessage line then 1 else 0 := by
    simp only [List.countP_append, List.countP_singleton, decide_eq_true_eq]
  have hlength : (before ++ [line]).length = before.length + 1 := List.length_append
  have hread := h.balanced.of_eq { s with linesRead := s.linesRead + 1 } rfl rfl rfl
  dsimp only at hr ht
  unfold BuildLog.scanLine
  cases hk : classify line with
  | blank | directoryChange =>
    have hkind : (if classify line = .blank then 1 else 0) + (if IsMessage line then 1 else 0) =
        1 := by simp [isMessage_iff, hk]
    constructor
    · rw [hlength, ← hr]
    · dsimp only
      omega
    · exact h.diagnostics
    · exact hread
  | command command =>
    have hkind : (if classify line = .blank then 1 else 0) + (if IsMessage line then 1 else 0) =
        0 := by simp [isMessage_iff, hk]
    dsimp only
    obtain ⟨entries, hdep, hs⟩ := p.process_account
      { memory, statistics := { s with linesRead := s.linesRead + 1 } }
      { directory := directories.current, line := command }
    generalize p.process { memory, statistics := { s with linesRead := s.linesRead + 1 } }
      { directory := directories.current, line := command } = result at hdep hs ⊢
    obtain ⟨outcome, more, ⟨memory', s'⟩⟩ := result
    dsimp only at hdep hs ⊢
    subst hs
    constructor
    · rw [hlength]
      cases outcome <;> simp only [Statistics.countOutcome, hr]
    · cases outcome <;> simp only [Statistics.countOutcome] <;> omega
    · rw [Yield.deposits_append, List.filterMap_append, h.diagnostics, hdep.diagnostics]
      rfl
    · exact hread.countOutcome hdep

theorem Accounts.foldl (h : Accounts before progress) (p : Processor) (lines : List Text) :
    Accounts (before ++ lines) (lines.foldl (BuildLog.scanLine p) progress) := by
  induction lines generalizing before progress with
  | nil => rwa [List.append_nil]
  | cons line lines ih =>
    have := ih (h.scanLine p line)
    rwa [List.append_assoc, List.singleton_append] at this

end BuildLog

end SettingsScan
