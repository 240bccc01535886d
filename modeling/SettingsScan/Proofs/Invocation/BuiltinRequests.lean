import SettingsScan.Proofs.CommandLine.BuiltinArguments
import SettingsScan.Proofs.Invocation.ProjectFilter

/-! # Requests for built-in settings

Every request has a method that says how to ask. A command of the family `cc` is asked about unless
an option in the style of `cl` is among its built-in arguments: all other ones start with a dash.
-/

namespace SettingsScan

open Pattern (Hint)

def slashRules : List OptionRule := Dialect.standardRules (Pattern.Node.char '/')

def OptionRule.sign (rule : OptionRule) : Char :=
  if rule ∈ slashRules then '/' else '-'

theorem Dialect.mayTake_cc {rule : OptionRule} {m : OptionMatcher} (hr : rule ∈ Dialect.cc.rules)
    (hb : rule.meaning = .builtinArgument) (hm : m ∈ rule.matchers) :
    m.mayTake [Hint.noneOf [rule.sign]] = false := by
  have h : ∀ rule ∈ Dialect.cc.rules, rule.meaning = .builtinArgument → ∀ m ∈ rule.matchers,
      m.mayTake [Hint.noneOf [rule.sign]] = false := by
    decide +kernel
  exact h rule hr hb m hm

theorem BuiltinMethod.resolve_gccIfDashPrefixed_ne_none_iff (arguments : List Text) :
    resolve .gccIfDashPrefixed arguments ≠ .none ↔
      ∀ argument ∈ arguments, argument.head? = some '-' := by
  simp [resolve]

namespace ArgumentReader

variable {reader : ArgumentReader} {directory args rest argument : Text} {contents : Contents}
  {calls : List Call}

theorem head?_of_take? {rule : OptionRule} {taken : Taken} (hr : rule ∈ Dialect.cc.rules)
    (hb : rule.meaning = .builtinArgument) (ht : rule.take? directory rest = some taken) :
    rest.head? = some rule.sign := by
  obtain ⟨m, hm, -⟩ := Option.map_eq_some_iff.mp ht
  obtain ⟨matcher, hmem, hl⟩ := List.exists_of_findSome?_eq_some hm
  obtain ⟨hne, hcut, -⟩ := OptionMatcher.cut_of_lookingAt hl
  cases rest with
  | nil => simp [hne] at hcut
  | cons c r =>
    by_contra hc
    have hfits : List.Forall₂ Hint.Fits [Hint.noneOf [rule.sign]] [c] :=
      .cons (Hint.fits_noneOf (by simpa using hc)) .nil
    have hnone := OptionMatcher.lookingAt_eq_none_of_mayTake (Dialect.mayTake_cc hr hb hmem) hfits r
    cases hl.symm.trans hnone

/-- A built-in argument starts with a dash if and only if it is not one in the style of `cl`. -/
theorem head?_of_forwarded? {rule : OptionRule} (hcc : reader.family = .cc)
    (hne : argument ≠ []) (hfront : argument <+: rest)
    (hr : reader.rule? directory rest = some rule)
    (h : reader.forwarded? directory rest = some argument) :
    argument.head? = some '-' ↔ rule ∉ slashRules := by
  obtain ⟨rule', taken, hr', hm, ht, -⟩ := exists_rule_of_forwarded? h
  obtain rfl := Option.some.inj (hr.symm.trans hr')
  have hmem : rule ∈ Dialect.cc.rules := by
    have hmem := List.mem_of_find?_eq_some hr
    rwa [hcc] at hmem
  have hhead : argument.head? = rest.head? := by
    obtain ⟨c, t, rfl⟩ := List.exists_cons_of_ne_nil hne
    obtain ⟨r, rfl⟩ := hfront
    rfl
  rw [hhead, head?_of_take? hmem hm ht, OptionRule.sign]
  split
  · rename_i hslash
    exact iff_of_false (by decide) (not_not.mpr hslash)
  · rename_i hslash
    exact iff_of_true rfl hslash

theorem isSome_forwarded? {rule : OptionRule} (hr : reader.rule? directory rest = some rule)
    (hs : rule ∈ slashRules) : (reader.forwarded? directory rest).isSome := by
  obtain ⟨taken, ht⟩ := exists_take?_of_rule? hr
  have hm : rule.meaning = .builtinArgument := by
    obtain rfl := List.mem_singleton.mp hs
    rfl
  rw [forwarded?, hr, Option.bind_some, if_pos hm, ht]
  rfl

theorem Forwards.forall_head?_iff (h : reader.Forwards directory args contents calls)
    (hcc : reader.family = .cc) :
    (∀ argument ∈ (reader.read directory args contents).findings.builtinArguments,
      argument.head? = some '-') ↔
    ∀ call ∈ calls, ∀ rule, reader.rule? directory call.rest = some rule → rule ∉ slashRules := by
  have hhead {call : Call} {rule : OptionRule} {argument : Text} (hc : call ∈ calls)
      (hr : reader.rule? directory call.rest = some rule)
      (hf : reader.forwarded? directory call.rest = some argument) :
      argument.head? = some '-' ↔ rule ∉ slashRules := by
    obtain ⟨hne, hfront, -⟩ := h.cut call hc argument hf
    exact head?_of_forwarded? hcc hne hfront hr hf
  rw [h.builtinArguments_eq]
  simp only [List.mem_filterMap, forall_exists_index, and_imp]
  constructor
  · intro hall call hc rule hr hs
    obtain ⟨argument, hf⟩ := Option.isSome_iff_exists.mp (isSome_forwarded? hr hs)
    exact (hhead hc hr hf).mp (hall argument call hc hf) hs
  · intro hall argument call hc hf
    obtain ⟨rule, -, hr, -⟩ := exists_rule_of_forwarded? hf
    exact (hhead hc hr hf).mpr (hall call hc rule hr)

end ArgumentReader

namespace Processor

variable {p : Processor} {state : ProcessorState} {invocation : Invocation} {found : Detection}
  {request : BuiltinRequest} {language : Option Language} {arguments : List Text}

theorem mem_builtinDeposits_iff :
    .builtin request ∈ builtinDeposits found language arguments ↔
      request = { command := found.command, language, arguments,
                  method := found.detector.reader.family.builtinMethod.resolve arguments } ∧
        request.method ≠ .none := by
  unfold builtinDeposits
  dsimp only
  split
  · rename_i hm
    refine iff_of_false List.not_mem_nil ?_
    rintro ⟨rfl, hne⟩
    exact hne hm
  · rename_i hm
    rw [List.mem_singleton, Deposit.builtin.injEq]
    exact (and_iff_left_of_imp fun h => h ▸ hm).symm

theorem mem_record_iff {source : Option Text} :
    .builtin request ∈ (p.record invocation found source).1.deposits ↔
      .builtin request ∈ builtinDeposits found
        (found.detector.reader.language.or (source.bind Language.ofFileName?))
        (found.detector.reader.read invocation.directory found.arguments
          p.contents).findings.builtinArguments := by
  simp [record]

theorem mem_process_iff
    (h : (state.memory.detect p.registry p.expander invocation.line).found = some found)
    (hr : (p.process state invocation).1 = .recognized) :
    ∃ language, ∀ request, .builtin request ∈ (p.process state invocation).2.1.deposits ↔
      .builtin request ∈ builtinDeposits found language
        (found.detector.reader.read invocation.directory found.arguments
          p.contents).findings.builtinArguments := by
  cases ho : p.isOutside (source? invocation found.arguments) with
  | true =>
    rw [process_outside h ho] at hr
    cases hr
  | false =>
    rw [process_recognized h ho]
    exact ⟨_, fun request => mem_record_iff⟩

theorem method_of_mem_process
    (h : .builtin request ∈ (p.process state invocation).2.1.deposits) :
    request.method ≠ .none ∧ request.method ≠ .gccIfDashPrefixed := by
  cases hf : (state.memory.detect p.registry p.expander invocation.line).found with
  | none => simp [process_undetected hf] at h
  | some found =>
    cases ho : p.isOutside (source? invocation found.arguments) with
    | true => simp [process_outside hf ho] at h
    | false =>
      rw [process_recognized hf ho] at h
      obtain ⟨rfl, hne⟩ := mem_builtinDeposits_iff.mp (mem_record_iff.mp h)
      exact ⟨hne, BuiltinMethod.resolve_ne_gccIfDashPrefixed _ _⟩

theorem method_of_mem_processAll {invocations : List Invocation}
    (h : .builtin request ∈ (p.processAll state invocations).1.deposits) :
    request.method ≠ .none ∧ request.method ≠ .gccIfDashPrefixed := by
  induction invocations using List.reverseRecOn with
  | nil => cases h
  | append_singleton invocations invocation ih =>
    rw [processAll_append_singleton, Yield.deposits_append, List.mem_append] at h
    rcases h with h | h
    · exact ih h
    · exact method_of_mem_process h

theorem mem_requests_addAll_iff {deposits : List Deposit} :
    request ∈ (Store.addAll {} deposits).requests ↔ .builtin request ∈ deposits := by
  rw [(Store.holds_addAll deposits).requests, List.mem_eraseDups, List.mem_filterMap]
  constructor
  · rintro ⟨d, hd, hr⟩
    cases d with
    | builtin r =>
      obtain rfl := Option.some.inj hr
      exact hd
    | settings | diagnostic => cases hr
  · exact fun h => ⟨_, h, rfl⟩

/-- Built-in arguments are passed on as they are written, piece by piece, in the order in which the
arguments and the files are read. A request that is recorded has all of them and a method, and
a command of the family `cc` has a request if and only if none of them is in the style of `cl`. -/
theorem builtin_requests (p : Processor) (state : ProcessorState) :
    (∀ (reader : ArgumentReader) (directory args : Text) (contents : Contents),
      ∃ calls, reader.Forwards directory args contents calls) ∧
    (∀ invocations, ∀ request ∈
        (Store.addAll {} (p.processAll state invocations).1.deposits).requests,
      request.method ≠ .none ∧ request.method ≠ .gccIfDashPrefixed) ∧
    ∀ (invocation : Invocation) (found : Detection),
      (state.memory.detect p.registry p.expander invocation.line).found = some found →
      (p.process state invocation).1 = .recognized →
      let reader := found.detector.reader
      let deposits := (p.process state invocation).2.1.deposits
      (∀ request, .builtin request ∈ deposits → request.arguments =
        (reader.read invocation.directory found.arguments
          p.contents).findings.builtinArguments) ∧
      (reader.family = .cc → ∀ calls,
        reader.Forwards invocation.directory found.arguments p.contents calls →
        ((∃ request, .builtin request ∈ deposits) ↔
          ∀ call ∈ calls, ∀ rule, reader.rule? invocation.directory call.rest = some rule →
            rule ∉ slashRules)) := by
  refine ⟨ArgumentReader.exists_forwards, fun invocations request h => ?_, ?_⟩
  · exact method_of_mem_processAll (mem_requests_addAll_iff.mp h)
  · intro invocation found hf hr reader deposits
    obtain ⟨language, hmem⟩ := mem_process_iff hf hr
    refine ⟨fun request h => ?_, fun hcc calls h => ?_⟩
    · obtain ⟨rfl, -⟩ := mem_builtinDeposits_iff.mp ((hmem request).mp h)
      rfl
    · rw [← h.forall_head?_iff hcc, ← BuiltinMethod.resolve_gccIfDashPrefixed_ne_none_iff]
      have hmethod : found.detector.reader.family.builtinMethod = .gccIfDashPrefixed := by
        rw [show found.detector.reader.family = .cc from hcc]
        rfl
      constructor
      · rintro ⟨request, h⟩
        obtain ⟨rfl, hne⟩ := mem_builtinDeposits_iff.mp ((hmem request).mp h)
        rwa [hmethod] at hne
      · intro hne
        refine ⟨_, (hmem _).mpr (mem_builtinDeposits_iff.mpr ⟨rfl, ?_⟩)⟩
        rwa [hmethod]

theorem builtin_requests_file :
    ∃ r, Registry.ofTools {} [] = .ok r ∧
      let p : Processor :=
        { registry := r, expander := fun _ => none
          contents := fun path =>
            if path = "/p/f".toList then some [47, 115, 116, 100, 58, 99, 49, 49] else none }
      let invocation : Invocation := { directory := "/p", line := "cc -ansi @f -c a.c" }
      let detected := DetectionMemory.detect {} r (fun _ => none) invocation.line
      ∃ found calls, detected.found = some found ∧
        let reader := found.detector.reader
        (p.process {} invocation).1 = .recognized ∧ reader.family = .cc ∧
        reader.Forwards invocation.directory found.arguments p.contents calls ∧
        ((∃ request, .builtin request ∈ (p.process {} invocation).2.1.deposits) ↔
          ∀ call ∈ calls, ∀ rule, reader.rule? invocation.directory call.rest = some rule →
            rule ∉ slashRules) := by
  obtain ⟨r, hr⟩ := Registry.exists_ofTools_builtin
  refine ⟨r, hr, ?_⟩
  intro p invocation detected
  have hfamily : (Registry.ofTools {} []).toOption.map (fun r =>
      (DetectionMemory.detect {} r (fun _ => none) invocation.line).found.map
        (·.detector.reader.family)) = some (some .cc) := by
    decide +kernel
  rw [hr] at hfamily
  obtain ⟨found, hf, hcc⟩ := Option.map_eq_some_iff.mp (Option.some.inj hfamily)
  have hrecognized : (p.process {} invocation).1 = .recognized := by
    rw [process_recognized hf rfl]
  obtain ⟨calls, hcalls⟩ := (builtin_requests p {}).1 found.detector.reader invocation.directory
    found.arguments p.contents
  exact ⟨found, calls, hf, hrecognized, hcc, hcalls,
    ((builtin_requests p {}).2.2 invocation found hf hrecognized).2 hcc calls hcalls⟩

end Processor

end SettingsScan
