import Mathlib.Data.List.DropRight
import SettingsScan.Proofs.CommandLine.Inlining

/-! # Where built-in arguments come from

Reading arguments means to take one after the other, and to read a referenced file where its
reference stands. The arguments for the query of built-in settings are pieces of the texts that are
read, each from a place where an argument is taken, in the order of these places.
-/

namespace SettingsScan

/-- A place where one argument is taken: what is left of the text there, and the file of the text if
it is not the command line. -/
structure Call where
  file : Option Text
  rest : Text
  deriving DecidableEq, Repr

namespace Call

variable {call : Call} {file : Option Text} {text text' : Text} {requested requested' : List Text}
  {contents : Contents}

/-- The place is in the text, or else in the text of a file that was asked for. -/
def StandsIn (call : Call) (file : Option Text) (text : Text) (requested : List Text)
    (contents : Contents) : Prop :=
  call.file = file ∧ call.rest <:+ text ∨
    ∃ path ∈ requested, call.file = some path ∧
      ∃ t, ResponseFile.load contents path = some t ∧ call.rest <:+ t

theorem StandsIn.mono (h : call.StandsIn file text requested contents) (ht : text <:+ text')
    (hr : requested ⊆ requested') : call.StandsIn file text' requested' contents := by
  rcases h with ⟨hfile, hrest⟩ | ⟨path, hpath, h⟩
  · exact .inl ⟨hfile, hrest.trans ht⟩
  · exact .inr ⟨path, hr hpath, h⟩

end Call

def ResponseFile.Target.path? : Target → Option Text
  | .inline => none
  | .file path => some path

namespace ArgumentReader

variable {reader : ArgumentReader} {directory : Text} {contents : Contents} {levels : Nat}
  {file : Option Text} {text rest argument path t : Text} {calls : List Call}

def rule? (reader : ArgumentReader) (directory rest : Text) : Option OptionRule :=
  reader.family.dialect.rules.find? fun rule => (rule.take? directory rest).isSome

/-- The built-in argument at the front: what a rule for one takes, without blank characters at the
end. -/
def forwarded? (reader : ArgumentReader) (directory rest : Text) : Option Text :=
  (reader.rule? directory rest).bind fun rule =>
    if rule.meaning = .builtinArgument then (rule.take? directory rest).map (·.taken.trimEnd)
    else none

def reference? (reader : ArgumentReader) (directory rest : Text) : Option Text :=
  if (reader.rule? directory rest).isSome || !reader.responseFiles then none
  else (ResponseFile.recognize? ResponseFile.atSign directory rest).bind (·.target.path?)

/-- The file that is read for what stands at the front, and its text. -/
def opened? (reader : ArgumentReader) (directory : Text) (contents : Contents) :
    Nat → Text → Option (Text × Text)
  | 0, _ => none
  | _ + 1, rest => (reader.reference? directory rest).bind fun path =>
    (ResponseFile.load contents path).map (path, ·)

def behind (reader : ArgumentReader) (directory rest : Text) : Text :=
  (takeOne reader.family.dialect.rules reader.responseFiles directory (fun _ => {}) rest).rest

/-- With so many levels of files left, the text of the file is read by these calls, from left to
right. Those for a file that is read on the way stand behind the call for its reference. -/
inductive Reads (reader : ArgumentReader) (directory : Text) (contents : Contents) :
    Nat → Option Text → Text → List Call → Prop
  | done {levels : Nat} {file : Option Text} {text : Text} (hn : text.trimStart = []) :
      Reads reader directory contents levels file text []
  | argument {levels : Nat} {file : Option Text} {text : Text} {calls : List Call}
      (hn : text.trimStart ≠ [])
      (hx : reader.opened? directory contents levels text.trimStart = none)
      (more : Reads reader directory contents levels file (reader.behind directory text.trimStart)
        calls) :
      Reads reader directory contents levels file text ({ file, rest := text.trimStart } :: calls)
  | reference {levels : Nat} {file : Option Text} {text path t : Text} {inner calls : List Call}
      (hn : text.trimStart ≠ [])
      (hx : reader.opened? directory contents (levels + 1) text.trimStart = some (path, t))
      (inside : Reads reader directory contents levels (some path) t inner)
      (more : Reads reader directory contents (levels + 1) file
        (reader.behind directory text.trimStart) calls) :
      Reads reader directory contents (levels + 1) file text
        ({ file, rest := text.trimStart } :: inner ++ calls)

/-! ### One argument -/

theorem exists_take?_of_rule? {rule : OptionRule} (h : reader.rule? directory rest = some rule) :
    ∃ taken, rule.take? directory rest = some taken := by
  unfold rule? at h
  have hsome := List.find?_some h
  exact Option.isSome_iff_exists.mp hsome

theorem builtinArguments_of_take? {rule : OptionRule} {taken : Taken}
    (h : rule.take? directory rest = some taken) :
    taken.findings.builtinArguments =
      if rule.meaning = .builtinArgument then [taken.taken.trimEnd] else [] := by
  obtain ⟨m, -, rfl⟩ := Option.map_eq_some_iff.mp h
  cases rule.meaning <;> rfl

theorem parsed_takeOne (reader : ArgumentReader) (directory rest : Text) (expand : Text → Parsed) :
    let parsed :=
      (takeOne reader.family.dialect.rules reader.responseFiles directory expand rest).parsed
    parsed.findings.builtinArguments = (reader.forwarded? directory rest).toList ++
      ((reader.reference? directory rest).map (expand · |>.findings.builtinArguments)).getD [] ∧
    parsed.requested =
      ((reader.reference? directory rest).map (expand · |>.requested)).getD [] := by
  have hfirst := findSome?_eq_bind_find? (·.take? directory rest) reader.family.dialect.rules
  rw [← rule?] at hfirst
  unfold takeOne forwarded? reference?
  cases hr : reader.rule? directory rest with
  | some rule =>
    obtain ⟨taken, ht⟩ := exists_take?_of_rule? hr
    rw [hr, Option.bind_some, ht] at hfirst
    have hbuiltin := builtinArguments_of_take? ht
    by_cases hm : rule.meaning = .builtinArgument <;> simp [hfirst, hbuiltin, ht, hm]
  | none =>
    rw [hr, Option.bind_none] at hfirst
    simp only [hfirst]
    cases reader.responseFiles with
    | false => exact ⟨rfl, rfl⟩
    | true =>
      cases ResponseFile.recognize? ResponseFile.atSign directory rest with
      | none => exact ⟨rfl, rfl⟩
      | some reference =>
        obtain ⟨target, taken, rest⟩ := reference
        cases target <;> exact ⟨rfl, rfl⟩

theorem forwarded?_of_reference? (h : reader.reference? directory rest = some path) :
    reader.forwarded? directory rest = none := by
  unfold reference? at h
  split at h
  · cases h
  · rename_i hr
    simp only [Bool.or_eq_true, not_or, Option.not_isSome_iff_eq_none] at hr
    rw [forwarded?, hr.1, Option.bind_none]

theorem rest_takeOne (expand : Text → Parsed) :
    (takeOne reader.family.dialect.rules reader.responseFiles directory expand rest).rest =
      reader.behind directory rest := by
  obtain ⟨findings, reference, taken, r, h⟩ :=
    takeOne_expand reader.family.dialect.rules reader.responseFiles directory rest
  rw [behind, h, h]

theorem exists_rule_of_forwarded? (h : reader.forwarded? directory rest = some argument) :
    ∃ rule taken, reader.rule? directory rest = some rule ∧ rule.meaning = .builtinArgument ∧
      rule.take? directory rest = some taken ∧ argument = taken.taken.trimEnd := by
  obtain ⟨rule, hrule, h⟩ := Option.bind_eq_some_iff.mp h
  split at h
  · rename_i hm
    obtain ⟨taken, ht, rfl⟩ := Option.map_eq_some_iff.mp h
    exact ⟨rule, taken, hrule, hm, ht, rfl⟩
  · cases h

/-- A built-in argument is a piece at the front that is not empty and ends in front of blank
characters. -/
theorem cut_of_forwarded? (hb : rest.head?.any isBlank = false)
    (h : reader.forwarded? directory rest = some argument) :
    argument ≠ [] ∧ argument <+: rest ∧ ∀ c ∈ argument.getLast?, isBlank c = false := by
  obtain ⟨rule, taken, -, -, ht, rfl⟩ := exists_rule_of_forwarded? h
  obtain ⟨m, hm, rfl⟩ := Option.map_eq_some_iff.mp ht
  obtain ⟨matcher, -, hl⟩ := List.exists_of_findSome?_eq_some hm
  obtain ⟨hne, hcut, -⟩ := OptionMatcher.cut_of_lookingAt hl
  refine ⟨?_, (List.rdropWhile_prefix isBlank m.taken).trans ⟨m.rest, hcut⟩, fun c hc => ?_⟩
  · intro hnil
    obtain ⟨c, t, hct⟩ := List.exists_cons_of_ne_nil hne
    have hblank := List.rdropWhile_eq_nil_iff.mp hnil c (by simp [hct])
    rw [← hcut, hct] at hb
    simp [hblank] at hb
  · obtain ⟨hlast, rfl⟩ := List.mem_getLast?_eq_getLast hc
    exact Bool.eq_false_iff.mpr (List.rdropWhile_last_not isBlank m.taken hlast)

theorem builtinArguments_of_not_opened
    (hx : reader.opened? directory contents levels rest = none) :
    (takeOne reader.family.dialect.rules reader.responseFiles directory
      (expandAt reader.family.dialect reader.responseFiles directory contents levels)
      rest).parsed.findings.builtinArguments = (reader.forwarded? directory rest).toList := by
  rw [(parsed_takeOne reader directory rest _).1]
  cases hr : reader.reference? directory rest with
  | none => simp
  | some path =>
    cases levels with
    | zero => simp [expandAt]
    | succ levels =>
      rw [opened?, hr, Option.bind_some, Option.map_eq_none_iff] at hx
      simp [expandAt, hx]

theorem parsed_of_opened
    (hx : reader.opened? directory contents (levels + 1) rest = some (path, t)) :
    let inner :=
      readWith reader.family.dialect.rules reader.responseFiles directory contents levels t
    let parsed := (takeOne reader.family.dialect.rules reader.responseFiles directory
      (expandAt reader.family.dialect reader.responseFiles directory contents (levels + 1))
      rest).parsed
    reader.forwarded? directory rest = none ∧ ResponseFile.load contents path = some t ∧
      parsed.findings.builtinArguments = inner.findings.builtinArguments ∧
      parsed.requested = path :: inner.requested := by
  obtain ⟨path', hr, hx⟩ := Option.bind_eq_some_iff.mp hx
  obtain ⟨t', hload, hpair⟩ := Option.map_eq_some_iff.mp hx
  obtain ⟨rfl, rfl⟩ := Prod.mk.inj hpair
  have hnone := forwarded?_of_reference? hr
  obtain ⟨hbuiltin, hrequested⟩ := parsed_takeOne reader directory rest
    (expandAt reader.family.dialect reader.responseFiles directory contents (levels + 1))
  refine ⟨hnone, hload, ?_, ?_⟩
  · rw [hbuiltin, hr, hnone]
    simp [expandAt, hload]
  · rw [hrequested, hr]
    simp [expandAt, hload]

/-- A text is read by its first argument and what is left behind it. -/
theorem readWith_step (contents : Contents) (levels : Nat) (hn : text.trimStart ≠ []) :
    let read := readWith reader.family.dialect.rules reader.responseFiles directory contents levels
    read text =
      (takeOne reader.family.dialect.rules reader.responseFiles directory
        (expandAt reader.family.dialect reader.responseFiles directory contents levels)
        text.trimStart).parsed ++
      read (reader.behind directory text.trimStart) := by
  obtain ⟨gap, rest, rfl, hg, hb⟩ := text.exists_gap
  rw [Text.trimStart_gap hg hb] at hn ⊢
  dsimp only
  rw [readWith_eq, readWith_eq, takeText_gap_next hg hn hb, rest_takeOne]

theorem behind_suffix (hn : text.trimStart ≠ []) :
    reader.behind directory text.trimStart <:+ text := by
  obtain ⟨gap, rest, rfl, hg, hb⟩ := text.exists_gap
  rw [Text.trimStart_gap hg hb] at hn ⊢
  have hcuts := takeOne_cuts reader.family.dialect reader.responseFiles directory (fun _ => {})
    hn hb
  have hsuffix := List.suffix_append
    (takeOne reader.family.dialect.rules reader.responseFiles directory (fun _ => {}) rest).taken
    (reader.behind directory rest)
  rw [behind, hcuts.append_eq] at hsuffix
  exact hsuffix.trans (List.suffix_append gap rest)

/-! ### All calls -/

theorem exists_reads (reader : ArgumentReader) (directory : Text) (contents : Contents)
    (levels : Nat) (file : Option Text) (text : Text) :
    ∃ calls, reader.Reads directory contents levels file text calls := by
  induction levels using Nat.strongRecOn generalizing file text with
  | ind levels ih =>
    induction text using
      argumentInduction reader.family.dialect reader.responseFiles directory (fun _ => {}) with
    | @gap gap hg => exact ⟨[], .done (by simpa using Text.trimStart_gap (t := []) hg rfl)⟩
    | @next gap rest hg hn hb more =>
      obtain ⟨calls, hcalls⟩ := more
      have htrim := Text.trimStart_gap hg hb
      rw [← htrim] at hn hcalls
      cases hx : reader.opened? directory contents levels (gap ++ rest).trimStart with
      | none => exact ⟨_, .argument hn hx hcalls⟩
      | some opened =>
        obtain ⟨path, t⟩ := opened
        cases levels with
        | zero => cases hx
        | succ levels =>
          obtain ⟨inner, hinner⟩ := ih levels (Nat.lt_succ_self levels) (some path) t
          exact ⟨_, .reference hn hx hinner hcalls⟩

theorem Reads.unique {calls' : List Call}
    (h : reader.Reads directory contents levels file text calls)
    (h' : reader.Reads directory contents levels file text calls') : calls = calls' := by
  induction h generalizing calls' with
  | done hn =>
    cases h' with
    | done _ => rfl
    | argument hn' => exact absurd hn hn'
    | reference hn' => exact absurd hn hn'
  | argument hn hx _ ih =>
    cases h' with
    | done hn' => exact absurd hn' hn
    | argument _ _ more => rw [ih more]
    | reference _ hx' => cases hx.symm.trans hx'
  | reference hn hx _ _ ihi ihm =>
    cases h' with
    | done hn' => exact absurd hn' hn
    | argument _ hx' => cases hx.symm.trans hx'
    | reference _ hx' inside more =>
      obtain ⟨rfl, rfl⟩ := Prod.mk.inj (Option.some.inj (hx.symm.trans hx'))
      rw [ihi inside, ihm more]

/-- The built-in arguments are those at the places of the calls, in order. -/
theorem Reads.builtinArguments_eq (h : reader.Reads directory contents levels file text calls) :
    (readWith reader.family.dialect.rules reader.responseFiles directory contents levels
      text).findings.builtinArguments =
      calls.filterMap fun call => reader.forwarded? directory call.rest := by
  induction h with
  | @done levels file text hn =>
    have hblank : text.all isBlank := List.all_eq_true.mpr (List.dropWhile_eq_nil_iff.mp hn)
    rw [readWith_eq, takeText_gap hblank]
    rfl
  | @argument levels file text calls hn hx _ ih =>
    rw [readWith_step contents levels hn, Parsed.findings_append,
      Findings.builtinArguments_append, builtinArguments_of_not_opened hx, ih, List.filterMap_cons]
    cases reader.forwarded? directory text.trimStart <;> rfl
  | @reference levels file text path t inner calls hn hx _ _ ihi ihm =>
    obtain ⟨hnone, -, hbuiltin, -⟩ := parsed_of_opened hx
    rw [readWith_step contents (levels + 1) hn, Parsed.findings_append,
      Findings.builtinArguments_append, hbuiltin, ihi, ihm, ← List.filterMap_append,
      List.cons_append, List.filterMap_cons, hnone]

theorem Reads.standsIn (h : reader.Reads directory contents levels file text calls) :
    ∀ call ∈ calls, call.StandsIn file text
      (readWith reader.family.dialect.rules reader.responseFiles directory contents levels
        text).requested contents := by
  induction h with
  | done _ => simp
  | @argument levels file text calls hn hx _ ih =>
    rw [readWith_step contents levels hn]
    refine List.forall_mem_cons.mpr ⟨.inl ⟨rfl, List.dropWhile_suffix _⟩, fun call hc => ?_⟩
    exact (ih call hc).mono (behind_suffix hn) (List.subset_append_right _ _)
  | @reference levels file text path t inner calls hn hx _ _ ihi ihm =>
    obtain ⟨-, hload, -, hrequested⟩ := parsed_of_opened hx
    rw [readWith_step contents (levels + 1) hn, Parsed.requested_append, hrequested,
      List.cons_append]
    refine List.forall_mem_cons.mpr ⟨.inl ⟨rfl, List.dropWhile_suffix _⟩, fun call hc => ?_⟩
    rcases List.mem_append.mp hc with hc | hc
    · rcases ihi call hc with ⟨hfile, hrest⟩ | ⟨path', hpath', h⟩
      · exact .inr ⟨path, by simp, hfile, t, hload, hrest⟩
      · exact .inr ⟨path', by simp [hpath'], h⟩
    · exact (ihm call hc).mono (behind_suffix hn) (List.subset_append_right _ _)

theorem Reads.head?_rest (h : reader.Reads directory contents levels file text calls) :
    ∀ call ∈ calls, call.rest.head?.any isBlank = false := by
  have htrim (text : Text) : text.trimStart.head?.any isBlank = false := by
    obtain ⟨gap, rest, rfl, hg, hb⟩ := text.exists_gap
    rw [Text.trimStart_gap hg hb, hb]
  induction h with
  | done _ => simp
  | argument _ _ _ ih => exact List.forall_mem_cons.mpr ⟨htrim _, ih⟩
  | reference _ _ _ _ ihi ihm =>
    exact List.forall_mem_cons.mpr ⟨htrim _, List.forall_mem_append.mpr ⟨ihi, ihm⟩⟩

/-- The calls are those of reading the arguments of a command. The built-in arguments are found at
their places, in order; each is cut from the front of what is left there, which is the end of the
command line or of a file that was asked for. -/
structure Forwards (reader : ArgumentReader) (directory args : Text) (contents : Contents)
    (calls : List Call) : Prop where
  reads_iff : ∀ calls', reader.Reads directory contents depthLimit none args calls' ↔ calls' = calls
  builtinArguments_eq : (reader.read directory args contents).findings.builtinArguments =
    calls.filterMap fun call => reader.forwarded? directory call.rest
  cut : ∀ call ∈ calls, ∀ argument, reader.forwarded? directory call.rest = some argument →
    argument ≠ [] ∧ argument <+: call.rest ∧ ∀ c ∈ argument.getLast?, isBlank c = false
  standsIn : ∀ call ∈ calls,
    call.StandsIn none args (reader.read directory args contents).requested contents

theorem exists_forwards (reader : ArgumentReader) (directory args : Text) (contents : Contents) :
    ∃ calls, reader.Forwards directory args contents calls := by
  obtain ⟨calls, h⟩ := exists_reads reader directory contents depthLimit none args
  refine ⟨calls, fun calls' => ⟨fun h' => h'.unique h, fun heq => heq ▸ h⟩,
    h.builtinArguments_eq, fun call hc argument => ?_, h.standsIn⟩
  exact cut_of_forwarded? (h.head?_rest call hc)

end ArgumentReader

end SettingsScan
