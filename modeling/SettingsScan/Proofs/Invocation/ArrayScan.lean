import SettingsScan.Proofs.Detection.PlainGcc
import SettingsScan.Proofs.Invocation.Accounting
import SettingsScan.Proofs.Json.ArrayText

/-! # Scanning the text of an array

A scan gives the invocations of the entries to the processor, in order, and counts the others as
malformed. It comes to the end of the array unless an entry takes the comma or the bracket behind
it along.
-/

namespace SettingsScan

namespace Yield

variable (a b c : Yield)

theorem append_empty : a ++ {} = a :=
  congrArg₂ Yield.mk (List.append_nil _) (List.append_nil _)

theorem append_assoc : a ++ b ++ c = a ++ (b ++ c) :=
  congrArg₂ Yield.mk (List.append_assoc ..) (List.append_assoc ..)

end Yield

namespace Processor

/-- Processes the invocations one after the other. -/
def processAll (p : Processor) (state : ProcessorState) (invocations : List Invocation) :
    Yield × ProcessorState :=
  invocations.foldl (fun done invocation =>
    let (_, yield, state) := p.process done.2 invocation
    (done.1 ++ yield, state)) ({}, state)

theorem processAll_append_singleton (p : Processor) (state : ProcessorState)
    (invocations : List Invocation) (invocation : Invocation) :
    p.processAll state (invocations ++ [invocation]) =
      ((p.processAll state invocations).1 ++
        (p.process (p.processAll state invocations).2 invocation).2.1,
        (p.process (p.processAll state invocations).2 invocation).2.2) := by
  rw [processAll, List.foldl_append]
  rfl

theorem process_counted (p : Processor) (memory : DetectionMemory) (s : Statistics)
    (read malformed : Nat) (invocation : Invocation) :
    p.process
      { memory, statistics := { s with linesRead := read, malformedEntries := malformed } }
      invocation =
      let (outcome, yield, state) := p.process { memory, statistics := s } invocation
      (outcome, yield, { state with statistics :=
        { state.statistics with linesRead := read, malformedEntries := malformed } }) := by
  unfold process
  dsimp only
  cases (memory.detect p.registry p.expander invocation.line).found with
  | none => rfl
  | some found =>
    dsimp only
    split <;> rfl

theorem counters_process (p : Processor) (state : ProcessorState) (invocation : Invocation) :
    (p.process state invocation).2.2.statistics.linesRead = state.statistics.linesRead ∧
      (p.process state invocation).2.2.statistics.malformedEntries =
        state.statistics.malformedEntries := by
  let s := state.statistics
  have h := p.process_counted state.memory s s.linesRead s.malformedEntries invocation
  exact ⟨congrArg (·.2.2.statistics.linesRead) h,
    congrArg (·.2.2.statistics.malformedEntries) h⟩

end Processor

namespace Database

open Json (Value StreamError Blank Spaced ArrayText)

/-- The invocations of the entries that have one. -/
def invocations (entries : List Value) : List Invocation :=
  entries.filterMap fun entry => (Entry.toInvocation entry).toOption

def isMalformed (entry : Value) : Bool := (Entry.toInvocation entry).toOption.isNone

/-- What a scan has come to when all the entries have been handled: the processor has got the
invocations in order, and nothing else but the counters of entries and the diagnostics differ. -/
structure Handled (p : Processor) (memory : DetectionMemory) (entries : List Value)
    (progress : Progress) : Prop where
  deposits : progress.yield.deposits.filter (·.diagnostic?.isNone) =
    (p.processAll { memory } (invocations entries)).1.deposits
  requested : progress.yield.requested =
    (p.processAll { memory } (invocations entries)).1.requested
  remembered : progress.state.memory = (p.processAll { memory } (invocations entries)).2.memory
  statistics : progress.state.statistics =
    { (p.processAll { memory } (invocations entries)).2.statistics with
      linesRead := entries.length
      malformedEntries := entries.countP isMalformed }

variable {p : Processor} {memory : DetectionMemory} {entries : List Value} {progress : Progress}

theorem handled_nil (p : Processor) (memory : DetectionMemory) :
    Handled p memory [] { state := { memory } } := ⟨rfl, rfl, rfl, rfl⟩

theorem invocations_append_singleton (entries : List Value) (entry : Value) :
    invocations (entries ++ [entry]) =
      invocations entries ++ (Entry.toInvocation entry).toOption.toList := by
  rw [invocations, List.filterMap_append]
  cases h : (Entry.toInvocation entry).toOption <;> simp [h, invocations]

theorem scanEntry_toInvocation (p : Processor) (index : Nat) (memory : DetectionMemory)
    (s : Statistics) (read malformed : Nat) {entry : Value} {invocation : Invocation}
    (he : Entry.toInvocation entry = .ok invocation) :
    ∃ diagnostics : List Diagnostic, scanEntry p index
        { memory, statistics := { s with linesRead := read, malformedEntries := malformed } }
        entry =
      ((p.process { memory, statistics := s } invocation).2.1 ++
          { deposits := diagnostics.map .diagnostic },
        { memory := (p.process { memory, statistics := s } invocation).2.2.memory
          statistics :=
            { (p.process { memory, statistics := s } invocation).2.2.statistics with
              linesRead := read + 1, malformedEntries := malformed } }) := by
  have hp := p.process_counted memory s (read + 1) malformed invocation
  unfold scanEntry
  rw [he]
  dsimp only at hp ⊢
  rw [hp]
  dsimp only
  split
  · exact ⟨[{ location := location index, message := noDetectorMessage invocation.line }], rfl⟩
  · exact ⟨[], congrArg (·, _) (Yield.append_empty _).symm⟩

theorem filter_deposits (p : Processor) (state : ProcessorState) (invocation : Invocation) :
    (p.process state invocation).2.1.deposits.filter (·.diagnostic?.isNone) =
      (p.process state invocation).2.1.deposits := by
  obtain ⟨entries, hd, -⟩ := p.process_account state invocation
  rw [List.filter_eq_self]
  intro d hmem
  rw [Option.isNone_iff_eq_none]
  exact List.filterMap_eq_nil_iff.mp hd.diagnostics d hmem

theorem Handled.scanEntry (h : Handled p memory entries progress) (entry : Value) :
    Handled p memory (entries ++ [entry])
      { state := (scanEntry p entries.length progress.state entry).2
        yield := progress.yield ++ (scanEntry p entries.length progress.state entry).1 } := by
  obtain ⟨⟨memory', s⟩, ⟨deposits, requested⟩⟩ := progress
  obtain ⟨hd, hr, hm, hs⟩ := h
  have hi := invocations_append_singleton entries entry
  have hc : (entries ++ [entry]).countP isMalformed =
      entries.countP isMalformed + if isMalformed entry then 1 else 0 := by
    rw [List.countP_append, List.countP_singleton]
  have hl : (entries ++ [entry]).length = entries.length + 1 := List.length_append
  dsimp only at hd hr hm hs
  subst hr hm hs
  cases he : Entry.toInvocation entry with
  | error e =>
    have hmalformed : isMalformed entry = true := by rw [isMalformed, he]; rfl
    rw [he] at hi
    rw [hmalformed] at hc
    have hi : invocations (entries ++ [entry]) = invocations entries := hi.trans (List.append_nil _)
    unfold Database.scanEntry
    rw [he]
    constructor
    · rw [hi, ← hd]
      simp [diagnosticAt, Deposit.diagnostic?]
    · rw [hi]
      simp [diagnosticAt]
    · rw [hi]
    · rw [hi, hc, hl]
      rfl
  | ok invocation =>
    have hmalformed : isMalformed entry = false := by rw [isMalformed, he]; rfl
    rw [he] at hi
    rw [hmalformed] at hc
    have hi : invocations (entries ++ [entry]) = invocations entries ++ [invocation] := hi
    obtain ⟨diagnostics, hscan⟩ := scanEntry_toInvocation p entries.length
      (p.processAll { memory } (invocations entries)).2.memory
      (p.processAll { memory } (invocations entries)).2.statistics entries.length
      (entries.countP isMalformed) he
    have hpure : (diagnostics.map Deposit.diagnostic).filter (·.diagnostic?.isNone) = [] := by
      simp [Deposit.diagnostic?]
    rw [hscan]
    constructor
    · rw [hi, p.processAll_append_singleton]
      simp only [Yield.deposits_append, List.filter_append, hd, hpure, filter_deposits,
        List.append_nil]
    · rw [hi, p.processAll_append_singleton]
      simp only [Yield.requested_append, List.append_nil]
    · rw [hi, p.processAll_append_singleton]
    · rw [hi, p.processAll_append_singleton, hl, hc]
      rfl

theorem Handled.scanFrom (h : Handled p memory entries progress) (more : List Value)
    (failure : Option StreamError) :
    Handled p memory (entries ++ more) (scanFrom p entries.length progress
        (more.map .ok ++ failure.toList.map .error)).1 ∧
      (scanFrom p entries.length progress
        (more.map .ok ++ failure.toList.map .error)).2 = failure := by
  induction more generalizing entries progress with
  | nil =>
    rw [List.append_nil]
    cases failure with
    | none => exact ⟨h, rfl⟩
    | some e => exact ⟨h, rfl⟩
  | cons entry more ih =>
    have := ih (h.scanEntry entry)
    rw [List.append_assoc, List.length_append, List.length_singleton] at this
    exact this

/-! ### The text of an array -/

variable {x : ArrayText} {trail : Bytes}

/-- A scan of the text of an array handles the entries up to the first one that takes the comma or
the bracket behind it along. It gets to all of them without a failure if and only if each number,
`true`, `false` and `null` is followed by a blank. -/
theorem scan_completes_iff (p : Processor) (memory : DetectionMemory) (hx : x.WellFormed)
    (ht : Blank trail) :
    Handled p memory ((Json.upToTight x.items).map (·.item))
      (scan p { memory } (x.bytes ++ trail)).1 ∧
    (scan p { memory } (x.bytes ++ trail)).2 = Json.tightFailure? x.items ∧
    ((scan p { memory } (x.bytes ++ trail)).2 = none ∧
        Handled p memory x.values (scan p { memory } (x.bytes ++ trail)).1 ↔
      ∀ s ∈ x.items, s.item.isDelimited ∨ s.after ≠ []) := by
  have hscan : Handled p memory ((Json.upToTight x.items).map (·.item))
        (scan p { memory } (x.bytes ++ trail)).1 ∧
      (scan p { memory } (x.bytes ++ trail)).2 = Json.tightFailure? x.items := by
    have h := (handled_nil p memory).scanFrom ((Json.upToTight x.items).map (·.item))
      (Json.tightFailure? x.items)
    rw [List.map_map] at h
    rw [scan, Json.Stream.elements_eq_answersOf hx fun _ => ht]
    exact h
  refine ⟨hscan.1, hscan.2, ?_⟩
  simp only [← Spaced.isTight_eq_false_iff]
  rw [hscan.2, Json.tightFailure?_eq_none_iff]
  constructor
  · rintro ⟨h, -⟩
    exact h
  · intro h
    refine ⟨h, ?_⟩
    rw [ArrayText.values, ← Json.upToTight_eq_self h]
    exact hscan.1

theorem scan_completes_null_blank :
    let x : ArrayText := { items :=
      [{ item := .null, text := [0x6E, 0x75, 0x6C, 0x6C], after := [0x20] },
        { item := .array [], text := [0x5B, 0x5D] }] }
    ∃ r, Registry.ofTools {} [] = .ok r ∧ x.WellFormed ∧ Blank [0x0A] ∧
      (scan { registry := r, expander := fun _ => none, contents := fun _ => none } {}
        (x.bytes ++ [0x0A])).2 = none ∧
      Handled { registry := r, expander := fun _ => none, contents := fun _ => none } {}
        [.null, .array []]
        (scan { registry := r, expander := fun _ => none, contents := fun _ => none } {}
          (x.bytes ++ [0x0A])).1 := by
  intro x
  obtain ⟨r, h⟩ := Registry.exists_ofTools_builtin
  have hnull : Json.Writes (Json.nestingLimit - 1) .null [0x6E, 0x75, 0x6C, 0x6C] :=
    Json.WritesNested.scalar .null
  have harray : Json.Writes (Json.nestingLimit - 1) (.array []) [0x5B, 0x5D] :=
    Json.WritesNested.array (List.forall_mem_nil _) (List.forall_mem_nil _)
  have hx : x.WellFormed := by
    refine ⟨List.forall_mem_nil _, List.forall_mem_nil _, fun s hs => ?_⟩
    simp only [x, List.mem_cons, List.not_mem_nil, or_false] at hs
    rcases hs with rfl | rfl
    · exact ⟨by simp [Blank], hnull, by simp [Blank, Json.isBlankByte]⟩
    · exact ⟨by simp [Blank], harray, by simp [Blank]⟩
  have ht : Blank [0x0A] := by simp [Blank, Json.isBlankByte]
  have hloose : ∀ s ∈ x.items, s.item.isDelimited ∨ s.after ≠ [] := by
    simp [x, Value.isDelimited]
  exact ⟨r, h, hx, ht, (scan_completes_iff
    { registry := r, expander := fun _ => none, contents := fun _ => none } {} hx ht).2.2.mpr
      hloose⟩

/-- Where `null` takes the comma along, the scan fails in front of the entry behind it. -/
theorem scan_null_and_entry :
    let bytes := Encoding.utf8
      "[null, \x7b\"file\":\"a.c\",\"directory\":\"/p\",\"command\":\"gcc -DX -c a.c\"\x7d]".toList
    let invocation : Invocation :=
      { directory := "/p".toList, line := "gcc -DX -c a.c".toList, file := "a.c".toList }
    ∃ r, Registry.ofTools {} [] = .ok r ∧
      (match Value.ofWhole? bytes with
        | .ok (.array entries) => entries.map fun entry => (Entry.toInvocation entry).toOption
        | _ => []) = [none, some invocation] ∧
      (scan { registry := r, expander := fun _ => none, contents := fun _ => none } {} bytes).2 =
        some .expectedDelimiter ∧
      (scan { registry := r, expander := fun _ => none, contents := fun _ => none } {}
        bytes).1.state.statistics = { linesRead := 1, malformedEntries := 1 } := by
  intro bytes invocation
  obtain ⟨r, h⟩ := Registry.exists_ofTools_builtin
  have he : (Json.Stream.elements bytes).map (·.map isMalformed) =
      [.ok true, .error .expectedDelimiter] := by decide +kernel
  obtain ⟨first, second, hl, hf, hs⟩ : ∃ first second,
      Json.Stream.elements bytes = [first, second] ∧
      first.map isMalformed = .ok true ∧ second.map isMalformed = .error .expectedDelimiter := by
    simpa [List.map_eq_cons_iff] using he
  cases first with
  | error e => cases hf
  | ok entry =>
    cases second with
    | ok entry => cases hs
    | error e =>
      cases hs
      have hm : isMalformed entry := Except.ok.inj hf
      cases hi : Entry.toInvocation entry with
      | ok invocation =>
        rw [isMalformed, hi] at hm
        cases hm
      | error e =>
        refine ⟨r, h, by decide +kernel, ?_, ?_⟩
        · rw [scan, hl]
          rfl
        · rw [scan, hl, scanFrom, scanEntry, hi]
          rfl

end Database

end SettingsScan
