import SettingsScan.Proofs.Invocation.ArrayScan

/-! # Malformed entries are inert

Two databases are scanned from the same state, and one has malformed entries put in anywhere. The
scans run in step: an inserted entry adds to two counters and is reported at its own place, and
everything else comes out as without it.
-/

namespace SettingsScan

namespace ProcessorState

def skip (state : ProcessorState) (n : Nat) : ProcessorState :=
  { state with statistics :=
      { state.statistics with
        linesRead := state.statistics.linesRead + n
        malformedEntries := state.statistics.malformedEntries + n } }

theorem skip_skip (state : ProcessorState) (m n : Nat) :
    (state.skip m).skip n = state.skip (m + n) := by
  simp only [skip, Nat.add_assoc]

end ProcessorState

namespace Database

open Json (Value StreamError)

/-- An entry of a database with insertions: one of the original database, or a malformed one that
was put in. -/
inductive Placed where
  | kept (entry : Value)
  | inserted (entry : Value) (reason : EntryError)
      (malformed : Entry.toInvocation entry = .error reason)

namespace Placed

def entry : Placed → Value
  | kept entry => entry
  | inserted entry _ _ => entry

def kept? : Placed → Option Value
  | kept entry => some entry
  | inserted _ _ _ => none

def originals (placed : List Placed) : List Value :=
  placed.filterMap kept?

def insertions (placed : List Placed) : Nat :=
  placed.countP fun entry => entry.kept?.isNone

/-- What is said about each entry, when what is said about the original ones is known. -/
def weave : List Placed → List (Option Text) → List (Option Text)
  | [], _ => []
  | kept _ :: more, reports => reports.head?.join :: weave more reports.tail
  | inserted _ reason _ :: more, reports => some reason.message :: weave more reports

end Placed

open Placed (originals insertions weave)

/-- What a reader yields that gets these values, and then perhaps fails. -/
def answersOfValues (values : List Value) (failure : Option StreamError) :
    List (Except StreamError Value) :=
  values.map .ok ++ failure.toList.map .error

def reportAt (index : Nat) (report : Option Text) : Yield :=
  match report with
  | some message => diagnosticAt index message
  | none => {}

/-- The diagnostics on entries from the given index on, one for each that something is said
about. -/
def diagnosticsFrom : Nat → List (Option Text) → List Diagnostic
  | _, [] => []
  | index, report :: more =>
    report.toList.map (fun message => { location := location index, message }) ++
      diagnosticsFrom (index + 1) more

variable {p : Processor} {state : ProcessorState} {entry : Value}

/-! ### One entry -/

theorem process_skip (p : Processor) (state : ProcessorState) (n : Nat)
    (invocation : Invocation) :
    p.process (state.skip n) invocation =
      ((p.process state invocation).1, (p.process state invocation).2.1,
        (p.process state invocation).2.2.skip n) := by
  let s := state.statistics
  obtain ⟨hread, hmalformed⟩ := p.counters_process state invocation
  refine (p.process_counted state.memory s (s.linesRead + n) (s.malformedEntries + n)
    invocation).trans ?_
  rw [ProcessorState.skip, hread, hmalformed]

theorem scanEntry_malformed {reason : EntryError} (h : Entry.toInvocation entry = .error reason)
    (p : Processor) (index : Nat) (state : ProcessorState) :
    scanEntry p index state entry = (reportAt index (some reason.message), state.skip 1) := by
  rw [scanEntry, h]
  rfl

/-- What comes of an entry, apart from where it stands and how many malformed entries there were:
the calls and the report, and the state behind it. -/
theorem exists_scanEntry (p : Processor) (state : ProcessorState) (entry : Value) :
    ∃ (calls : Yield) (report : Option Text) (after : ProcessorState),
      calls.deposits.filterMap Deposit.diagnostic? = [] ∧
      ∀ index n, scanEntry p index (state.skip n) entry =
        (calls ++ reportAt index report, after.skip n) := by
  cases h : Entry.toInvocation entry with
  | error reason =>
    refine ⟨{}, some reason.message, state.skip 1, rfl, fun index n => ?_⟩
    rw [scanEntry_malformed h, ProcessorState.skip_skip, ProcessorState.skip_skip, Nat.add_comm]
    rfl
  | ok invocation =>
    -- the entry is counted first
    let counted : ProcessorState :=
      { state with statistics :=
          { state.statistics with linesRead := state.statistics.linesRead + 1 } }
    have hcounted (n : Nat) :
        { state.skip n with statistics :=
            { (state.skip n).statistics with
              linesRead := (state.skip n).statistics.linesRead + 1 } } = counted.skip n := by
      simp only [counted, ProcessorState.skip, Nat.add_right_comm]
    obtain ⟨entries, hd, -⟩ := p.process_account counted invocation
    have hscan (index n : Nat) : scanEntry p index (state.skip n) entry =
        (if (p.process counted invocation).1 = .noDetector then
            (p.process counted invocation).2.1 ++
              diagnosticAt index (noDetectorMessage invocation.line)
          else (p.process counted invocation).2.1,
          (p.process counted invocation).2.2.skip n) := by
      rw [scanEntry, h]
      dsimp only
      rw [hcounted, process_skip]
    refine ⟨(p.process counted invocation).2.1,
      if (p.process counted invocation).1 = .noDetector then
        some (noDetectorMessage invocation.line) else none,
      (p.process counted invocation).2.2, hd.diagnostics, fun index n => ?_⟩
    rw [hscan]
    split
    · rfl
    · exact congrArg (·, _) (Yield.append_empty _).symm

theorem filterMap_reportAt (index : Nat) (report : Option Text) :
    (reportAt index report).deposits.filterMap Deposit.diagnostic? =
      report.toList.map fun message => { location := location index, message } := by
  cases report <;> rfl

theorem filter_reportAt (index : Nat) (report : Option Text) :
    (reportAt index report).deposits.filter (·.diagnostic?.isNone) = [] := by
  cases report <;> rfl

theorem requested_reportAt (index : Nat) (report : Option Text) :
    (reportAt index report).requested = [] := by
  cases report <;> rfl

/-! ### Two scans in step -/

/-- What two scans add, one of the original entries and one with the insertions, when they come
to the entries from the given indices on. -/
structure Inert (placed : List Placed) (i j : Nat) (plain longer : Yield) : Prop where
  calls : longer.deposits.filter (·.diagnostic?.isNone) =
    plain.deposits.filter (·.diagnostic?.isNone)
  requested : longer.requested = plain.requested
  diagnostics : ∃ reports : List (Option Text), reports.length = (originals placed).length ∧
    plain.deposits.filterMap Deposit.diagnostic? = diagnosticsFrom i reports ∧
    longer.deposits.filterMap Deposit.diagnostic? = diagnosticsFrom j (weave placed reports)

variable {placed : List Placed} {i j : Nat} {plain longer : Yield}

theorem Inert.nil (i j : Nat) : Inert [] i j {} {} :=
  ⟨rfl, rfl, [], rfl, rfl, rfl⟩

theorem Inert.kept (h : Inert placed (i + 1) (j + 1) plain longer) (entry : Value)
    {calls : Yield} (hc : calls.deposits.filterMap Deposit.diagnostic? = [])
    (report : Option Text) :
    Inert (.kept entry :: placed) i j (calls ++ reportAt i report ++ plain)
      (calls ++ reportAt j report ++ longer) := by
  obtain ⟨hcalls, hrequested, reports, hlength, hplain, hlonger⟩ := h
  constructor
  · simp only [Yield.deposits_append, List.filter_append, filter_reportAt, hcalls]
  · simp only [Yield.requested_append, requested_reportAt, hrequested]
  · refine ⟨report :: reports, congrArg (· + 1) hlength, ?_, ?_⟩
    · simp only [Yield.deposits_append, List.filterMap_append, hc, filterMap_reportAt, hplain,
        diagnosticsFrom, List.nil_append]
    · simp only [Yield.deposits_append, List.filterMap_append, hc, filterMap_reportAt, hlonger,
        diagnosticsFrom, weave, List.head?_cons, Option.join_some, List.tail_cons, List.nil_append]

theorem Inert.inserted (h : Inert placed i (j + 1) plain longer) (entry : Value)
    {reason : EntryError} (he : Entry.toInvocation entry = .error reason) :
    Inert (.inserted entry reason he :: placed) i j plain
      (reportAt j (some reason.message) ++ longer) := by
  obtain ⟨hcalls, hrequested, reports, hlength, hplain, hlonger⟩ := h
  constructor
  · simp only [Yield.deposits_append, List.filter_append, filter_reportAt, hcalls, List.nil_append]
  · simp only [Yield.requested_append, requested_reportAt, hrequested, List.nil_append]
  · refine ⟨reports, hlength, hplain, ?_⟩
    simp only [Yield.deposits_append, List.filterMap_append, filterMap_reportAt, hlonger,
      diagnosticsFrom, weave]

/-- The scans come to the same state but for the counters of the insertions, and to the same
failure. -/
theorem exists_scanFrom (p : Processor) (placed : List Placed) (failure : Option StreamError)
    (i j n : Nat) (state : ProcessorState) (before before' : Yield) :
    ∃ (after : ProcessorState) (plain longer : Yield), Inert placed i j plain longer ∧
      scanFrom p i { state, yield := before } (answersOfValues (originals placed) failure) =
        ({ state := after, yield := before ++ plain }, failure) ∧
      scanFrom p j { state := state.skip n, yield := before' }
          (answersOfValues (placed.map Placed.entry) failure) =
        ({ state := after.skip (n + insertions placed), yield := before' ++ longer },
          failure) := by
  induction placed generalizing i j n state before before' with
  | nil =>
    refine ⟨state, {}, {}, .nil i j, ?_⟩
    rw [Yield.append_empty, Yield.append_empty]
    cases failure <;> exact ⟨rfl, rfl⟩
  | cons entry placed ih =>
    cases entry with
    | kept entry =>
      obtain ⟨calls, report, next, hc, hentry⟩ := exists_scanEntry p state entry
      obtain ⟨after, plain, longer, hinert, hplain, hlonger⟩ :=
        ih (i + 1) (j + 1) n next (before ++ (calls ++ reportAt i report))
          (before' ++ (calls ++ reportAt j report))
      refine ⟨after, _, _, hinert.kept entry hc report, ?_, ?_⟩
      · have hstep : scanEntry p i state entry = (calls ++ reportAt i report, next) :=
          hentry i 0
        rw [Yield.append_assoc] at hplain
        refine Eq.trans ?_ hplain
        change scanFrom p i _ (.ok entry :: answersOfValues (originals placed) failure) = _
        rw [scanFrom, hstep]
      · rw [Yield.append_assoc] at hlonger
        refine Eq.trans ?_ hlonger
        change scanFrom p j _
          (.ok entry :: answersOfValues (placed.map Placed.entry) failure) = _
        rw [scanFrom, hentry j n]
    | inserted entry reason he =>
      obtain ⟨after, plain, longer, hinert, hplain, hlonger⟩ :=
        ih i (j + 1) (n + 1) state before (before' ++ reportAt j (some reason.message))
      refine ⟨after, _, _, hinert.inserted entry he, hplain, ?_⟩
      have hcount : insertions (.inserted entry reason he :: placed) = 1 + insertions placed :=
        (List.countP_cons_of_pos rfl).trans (Nat.add_comm _ _)
      rw [hcount, ← Nat.add_assoc, ← Yield.append_assoc]
      refine Eq.trans ?_ hlonger
      change scanFrom p j _
        (.ok entry :: answersOfValues (placed.map Placed.entry) failure) = _
      rw [scanFrom, scanEntry_malformed he, ProcessorState.skip_skip]

/-- Malformed entries that are put in anywhere are inert. The scan makes the same calls in the
same order, asks for the same files, remembers the same detections and ends with the same failure,
if any. Only the counters of entries read and of malformed ones grow, by the number of insertions.
Each diagnostic moves to the new place of its entry, and each insertion has one at its own. -/
theorem scanFrom_inserted (p : Processor) (state : ProcessorState) (placed : List Placed)
    (failure : Option StreamError) :
    let plain := scanFrom p 0 { state } (answersOfValues (originals placed) failure)
    let longer := scanFrom p 0 { state } (answersOfValues (placed.map Placed.entry) failure)
    longer.1.yield.deposits.filter (·.diagnostic?.isNone) =
        plain.1.yield.deposits.filter (·.diagnostic?.isNone) ∧
      longer.1.yield.requested = plain.1.yield.requested ∧
      longer.1.state.memory = plain.1.state.memory ∧
      longer.1.state.statistics =
        { plain.1.state.statistics with
          linesRead := plain.1.state.statistics.linesRead + insertions placed
          malformedEntries := plain.1.state.statistics.malformedEntries + insertions placed } ∧
      longer.2 = plain.2 ∧
      ∃ reports : List (Option Text), reports.length = (originals placed).length ∧
        plain.1.yield.deposits.filterMap Deposit.diagnostic? = diagnosticsFrom 0 reports ∧
        longer.1.yield.deposits.filterMap Deposit.diagnostic? =
          diagnosticsFrom 0 (weave placed reports) := by
  obtain ⟨after, plain, longer, hinert, hplain, hlonger⟩ :=
    exists_scanFrom p placed failure 0 0 0 state {} {}
  have hlonger : scanFrom p 0 { state } (answersOfValues (placed.map Placed.entry) failure) =
      ({ state := after.skip (insertions placed), yield := longer }, failure) := by
    rw [Nat.zero_add] at hlonger
    exact hlonger
  have hplain : scanFrom p 0 { state } (answersOfValues (originals placed) failure) =
      ({ state := after, yield := plain }, failure) := hplain
  simp only [hplain, hlonger]
  exact ⟨hinert.calls, hinert.requested, rfl, rfl, trivial, hinert.diagnostics⟩

/-- An array is put in between a command and a line without a detector, whose diagnostic moves. -/
theorem scanFrom_inserted_between :
    let fields (line : Text) : Value := .object [("directory".toList, .string "/p"),
      ("file".toList, .string "a.c"), ("command".toList, .string line)]
    let placed : List Placed := [.kept (fields "gcc -DA -c a.c".toList),
      .inserted (.array []) .notAnObject rfl, .kept (fields "ls -l".toList)]
    ∃ r, Registry.ofTools {} [] = .ok r ∧
      let p : Processor := { registry := r, expander := fun _ => none, contents := fun _ => none }
      let plain := scanFrom p 0 {} (answersOfValues (originals placed) none)
      let longer := scanFrom p 0 {} (answersOfValues (placed.map Placed.entry) none)
      longer.1.yield.deposits.filter (·.diagnostic?.isNone) =
          plain.1.yield.deposits.filter (·.diagnostic?.isNone) ∧
        longer.1.state.memory = plain.1.state.memory ∧
        longer.1.state.statistics =
          { linesRead := 3, malformedEntries := 1, commandsRecognized := 1,
            linesWithoutDetector := 1, settingsEntries := 1 } ∧
        plain.1.yield.deposits.filterMap Deposit.diagnostic? =
          [{ location := "entry 2", message := "No compiler detected: ls -l" }] ∧
        longer.1.yield.deposits.filterMap Deposit.diagnostic? =
          [{ location := "entry 2", message := "Entry is not a JSON object" },
            { location := "entry 3", message := "No compiler detected: ls -l" }] := by
  intro fields placed
  have hruns : (Registry.ofTools {} []).toOption.map (fun r =>
      let p : Processor := { registry := r, expander := fun _ => none, contents := fun _ => none }
      let plain := (scanFrom p 0 {} (answersOfValues (originals placed) none)).1
      let longer := (scanFrom p 0 {} (answersOfValues (placed.map Placed.entry) none)).1
      (plain.state.statistics, plain.yield.deposits.filterMap Deposit.diagnostic?,
        longer.yield.deposits.filterMap Deposit.diagnostic?)) =
      some ({ linesRead := 2, commandsRecognized := 1, linesWithoutDetector := 1,
              settingsEntries := 1 },
        [{ location := "entry 2", message := "No compiler detected: ls -l" }],
        [{ location := "entry 2", message := "Entry is not a JSON object" },
          { location := "entry 3", message := "No compiler detected: ls -l" }]) := by
    decide +kernel
  obtain ⟨r, hr, hruns⟩ := Option.map_eq_some_iff.mp hruns
  obtain ⟨hstatistics, hdiagnostics⟩ := Prod.mk.inj hruns
  obtain ⟨hplain, hlonger⟩ := Prod.mk.inj hdiagnostics
  refine ⟨r, Except.eq_ok_of_toOption hr, ?_⟩
  intro p plain longer
  obtain ⟨hcalls, -, hmemory, hgrown, -⟩ := scanFrom_inserted p {} placed none
  have hgrown : longer.1.state.statistics = _ := hgrown
  rw [hstatistics] at hgrown
  exact ⟨hcalls, hmemory, hgrown, hplain, hlonger⟩

end Database

end SettingsScan
