import SettingsScan.Proofs.Detection.Precedence

/-! # Asking for short names

The table of expansions spares the expander: over any lines it is asked once for each token that is
needed, and for no other one. Where a token is needed, its answer is used, also when it comes from
the table.
-/

namespace SettingsScan

namespace Registry

variable {r : Registry} {line token : Text}

/-- The detection of the line needs the expansion of the token: the line begins with it, and no
detector knows the line as it is written. -/
structure Expands (r : Registry) (line token : Text) : Prop where
  windowsPaths : r.options.windowsPaths
  shortFileNames : r.options.shortFileNames
  unmatched : ∀ style, r.scan style line = none
  tilde : '~' ∈ token
  first : ∃ rest, FirstToken line token rest

theorem asked?_iff_expands : r.asked? line = some token ↔ r.Expands line token := by
  unfold asked?
  split
  · rename_i hw
    refine iff_of_false nofun fun h => ?_
    simp [scanWritten, h.unmatched] at hw
  · rename_i hw
    rw [shortToken?_eq_some_iff]
    constructor
    · rintro ⟨hp, hn, ht, hfirst⟩
      simp only [scanWritten, hp, if_true, Bool.not_eq_true, Option.isSome_eq_false_iff,
        Option.isNone_iff_eq_none, Option.or_eq_none_iff] at hw
      exact ⟨hp, hn, fun style => by cases style <;> simp [hw], ht, hfirst⟩
    · rintro ⟨hp, hn, -, ht, hfirst⟩
      exact ⟨hp, hn, ht, hfirst⟩

end Registry

namespace DetectionMemory

variable {options : DetectionOptions} {tools : List ToolSpec} {r : Registry} {e e' : Expander}
  {m : DetectionMemory} {line token : Text} {lines : List Text}

def outcomes (m : DetectionMemory) (r : Registry) (e : Expander) : List Text → List Outcome
  | [] => []
  | line :: lines => m.detect r e line :: (m.detect r e line).memory.outcomes r e lines

/-- The tokens that the expander is asked for, one after the other. -/
def calls (m : DetectionMemory) (r : Registry) (e : Expander) (lines : List Text) : List Text :=
  (m.outcomes r e lines).filterMap (·.asked)

def tokens (m : DetectionMemory) : List Text := m.shortNames.map Prod.fst

theorem calls_cons (m : DetectionMemory) (r : Registry) (e : Expander) (line : Text)
    (lines : List Text) : m.calls r e (line :: lines) =
      (m.detect r e line).asked.toList ++ (m.detect r e line).memory.calls r e lines := by
  unfold calls
  rw [outcomes, List.filterMap_cons]
  cases (m.detect r e line).asked <;> rfl

theorem mem_tokens_iff : token ∈ m.tokens ↔ m.shortNames.lookup token ≠ none := by
  rw [← Option.isSome_iff_ne_none, List.lookup_isSome_iff, tokens, List.mem_map]
  exact exists_congr fun entry => and_congr_right fun _ => by rw [beq_iff_eq, eq_comm]

def detectM {M : Type → Type} [Monad M] (m : DetectionMemory) (r : Registry)
    (expander : Text → M (Option Text)) (line : Text) :
    M (Option Detection × DetectionMemory) :=
  match m.tryLast r line with
  | some found => pure (some found, m)
  | none =>
    match r.scanWritten line with
    | some found => pure (some found, m.remember (some found))
    | none =>
      match r.shortToken? line with
      | none => pure (none, m.remember none)
      | some token =>
        match m.shortNames.lookup token with
        | some long =>
          let found := long.bind (r.scanExpanded line)
          pure (found, m.remember found)
        | none => do
          let long ← expander token
          let found := long.bind (r.scanExpanded line)
          pure (found, { m with shortNames := (token, long) :: m.shortNames }.remember found)

def answersM {M : Type → Type} [Monad M] (m : DetectionMemory) (r : Registry)
    (expander : Text → M (Option Text)) : List Text → M (List (Option Detection))
  | [] => pure []
  | line :: lines => do
    let (found, m) ← m.detectM r expander line
    let more ← m.answersM r expander lines
    pure (found :: more)

/-! ### One line -/

theorem run_detectM_logged (m : DetectionMemory) (r : Registry) (e : Expander) (line : Text)
    (log : List Text) :
    (m.detectM r (Registry.logged e) line).run log =
      (((m.detect r e line).found, (m.detect r e line).memory),
        (m.detect r e line).asked.toList ++ log) := by
  unfold detectM detect
  cases m.tryLast r line with
  | some found => rfl
  | none =>
    cases r.scanWritten line with
    | some found => rfl
    | none =>
      cases r.shortToken? line with
      | none => rfl
      | some token =>
        dsimp only
        cases m.shortNames.lookup token <;> rfl

theorem tryLast_eq_none_of_asked? (hr : Registry.ofTools options tools = .ok r)
    (h : r.asked? line = some token) (m : DetectionMemory) : m.tryLast r line = none := by
  refine Option.eq_none_iff_forall_ne_some.mpr fun found hf => ?_
  obtain ⟨pair, -, hp⟩ := Option.bind_eq_some_iff.mp (tryLast_eq.symm.trans hf)
  have hs := Registry.scanWritten_isSome_of_tryPair hr (Option.isSome_of_eq_some hp)
  rw [Registry.asked?, hs] at h
  cases h

/-- A line that needs no expansion asks for none. -/
theorem asked_detect_of_asked? (h : r.asked? line = none) :
    (m.detect r e line).asked = none ∧ (m.detect r e line).memory.tokens = m.tokens := by
  unfold detect
  unfold Registry.asked? at h
  cases m.tryLast r line with
  | some found => exact ⟨rfl, rfl⟩
  | none =>
    cases hw : r.scanWritten line with
    | some found => exact ⟨rfl, rfl⟩
    | none =>
      simp only [hw, Option.isSome_none, Bool.false_eq_true, if_false] at h
      rw [h]
      exact ⟨rfl, rfl⟩

/-- A line that needs an expansion asks for it if it is not known, and uses what is answered. -/
theorem detect_of_asked? (hr : Registry.ofTools options tools = .ok r) (hm : m.Faithful e)
    (h : r.asked? line = some token) :
    (m.detect r e line).found = (e token).bind (r.scanExpanded line) ∧
    (m.detect r e line).asked = (if token ∈ m.tokens then none else some token) ∧
    (m.detect r e line).memory.tokens =
      if token ∈ m.tokens then m.tokens else token :: m.tokens := by
  have hl := tryLast_eq_none_of_asked? hr h m
  unfold Registry.asked? at h
  unfold detect
  split at h
  · cases h
  · rename_i hw
    rw [hl, Option.not_isSome_iff_eq_none.mp hw, h]
    dsimp only
    split
    · rename_i long ht
      have hknown : token ∈ m.tokens := mem_tokens_iff.mpr (ht ▸ Option.some_ne_none long)
      rw [if_pos hknown, if_pos hknown]
      exact ⟨by rw [hm.lookup ht], rfl, rfl⟩
    · rename_i ht
      have hnew : token ∉ m.tokens := fun hk => mem_tokens_iff.mp hk ht
      rw [if_neg hnew, if_neg hnew]
      exact ⟨rfl, rfl, rfl⟩

/-- Asked for is what is needed and not known, and from then on it is known. -/
theorem asked_detect (hr : Registry.ofTools options tools = .ok r) (hm : m.Faithful e)
    (line token : Text) :
    ((m.detect r e line).asked = some token ↔ r.asked? line = some token ∧ token ∉ m.tokens) ∧
    (token ∈ (m.detect r e line).memory.tokens ↔
      r.asked? line = some token ∨ token ∈ m.tokens) := by
  cases ha : r.asked? line with
  | none =>
    obtain ⟨hasked, htokens⟩ := asked_detect_of_asked? (m := m) (e := e) ha
    simp [hasked, htokens]
  | some t =>
    obtain ⟨-, hasked, htokens⟩ := detect_of_asked? hr hm ha
    rw [hasked, htokens, Option.some.injEq]
    split
    · rename_i hk
      exact ⟨iff_of_false nofun fun h => h.2 (h.1 ▸ hk), (or_iff_right_of_imp (· ▸ hk)).symm⟩
    · rename_i hk
      rw [Option.some.injEq, List.mem_cons, eq_comm (a := token)]
      exact ⟨(and_iff_left_of_imp (· ▸ hk)).symm, Iff.rfl⟩

/-- The outcome depends on no answer that is not asked for. -/
theorem detect_congr (h : ∀ token ∈ (m.detect r e line).asked, e' token = e token) :
    m.detect r e' line = m.detect r e line := by
  unfold detect at h ⊢
  cases hl : m.tryLast r line with
  | some found => rfl
  | none =>
    cases hw : r.scanWritten line with
    | some found => rfl
    | none =>
      cases ht : r.shortToken? line with
      | none => rfl
      | some token =>
        cases hk : m.shortNames.lookup token with
        | some long => simp only [hk]
        | none =>
          simp only [hl, hw, ht, hk] at h
          simp only [hk, h token rfl]

/-! ### All lines -/

/-- The calls are those that an expander can count itself. -/
theorem run_answersM_logged (m : DetectionMemory) (r : Registry) (e : Expander)
    (lines log : List Text) :
    (m.answersM r (Registry.logged e) lines).run log =
      ((m.outcomes r e lines).map (·.found), (m.calls r e lines).reverse ++ log) := by
  induction lines generalizing m log with
  | nil => rfl
  | cons line lines ih =>
    have hmore := ih (m.detect r e line).memory ((m.detect r e line).asked.toList ++ log)
    have hcalls : (m.calls r e (line :: lines)).reverse ++ log =
        ((m.detect r e line).memory.calls r e lines).reverse ++
          ((m.detect r e line).asked.toList ++ log) := by
      rw [calls_cons]
      cases (m.detect r e line).asked <;> simp
    rw [answersM, StateT.run_bind, run_detectM_logged, hcalls]
    exact congrArg (fun run => ((m.detect r e line).found :: run.1, run.2)) hmore

theorem mem_calls_iff (hr : Registry.ofTools options tools = .ok r) (hm : m.Faithful e) :
    token ∈ m.calls r e lines ↔ token ∉ m.tokens ∧ ∃ line ∈ lines, r.asked? line = some token := by
  induction lines generalizing m with
  | nil => simp [calls, outcomes]
  | cons line lines ih =>
    obtain ⟨hasked, htokens⟩ := asked_detect hr hm line token
    rw [calls_cons, List.mem_append, Option.mem_toList, ih (hm.detect r line).2.2, hasked, htokens,
      List.exists_mem_cons_iff]
    tauto

theorem nodup_calls (hr : Registry.ofTools options tools = .ok r) (hm : m.Faithful e) :
    (m.calls r e lines).Nodup := by
  induction lines generalizing m with
  | nil => exact List.nodup_nil
  | cons line lines ih =>
    have hnext := (hm.detect r line).2.2
    rw [calls_cons]
    refine List.nodup_append.mpr ⟨by cases (m.detect r e line).asked <;> simp, ih hnext, ?_⟩
    rintro token ht _ hlater rfl
    obtain ⟨hasked, htokens⟩ := asked_detect hr hm line token
    have hneeded := (hasked.mp (Option.mem_toList.mp ht)).1
    exact ((mem_calls_iff hr hnext).mp hlater).1 (htokens.mpr (.inl hneeded))

theorem outcomes_congr (h : ∀ token ∈ m.calls r e lines, e' token = e token) :
    m.outcomes r e' lines = m.outcomes r e lines := by
  induction lines generalizing m with
  | nil => rfl
  | cons line lines ih =>
    rw [calls_cons, List.forall_mem_append] at h
    have hline : m.detect r e' line = m.detect r e line :=
      detect_congr fun token ht => h.1 token (Option.mem_toList.mpr ht)
    rw [outcomes, outcomes, hline, ih h.2]

theorem found_outcomes (hr : Registry.ofTools options tools = .ok r) (hm : m.Faithful e) :
    List.Forall₂ (fun line outcome =>
      (∀ token, outcome.asked = some token → r.Expands line token) ∧
      ∀ token, r.Expands line token → outcome.found = (e token).bind (r.scanExpanded line))
      lines (m.outcomes r e lines) := by
  induction lines generalizing m with
  | nil => exact .nil
  | cons line lines ih =>
    refine .cons ⟨fun token h => ?_, fun token h => ?_⟩ (ih (hm.detect r line).2.2)
    · exact Registry.asked?_iff_expands.mp ((asked_detect hr hm line token).1.mp h).1
    · exact (detect_of_asked? hr hm (Registry.asked?_iff_expands.mpr h)).1

/-- Over any lines, the expander is asked once for each token that is needed. On every line it is
asked for no other token than the one that the line needs, and the answer is the one that is used,
whether it is a name or none. No other answers of the expander matter. -/
theorem expander_asked_once (hr : Registry.ofTools options tools = .ok r) (e : Expander)
    (lines : List Text) :
    let calls := calls {} r e lines
    (answersM {} r (Registry.logged e) lines).run [] =
      ((outcomes {} r e lines).map (·.found), calls.reverse) ∧
    calls.Nodup ∧
    (∀ token, token ∈ calls ↔ ∃ line ∈ lines, r.Expands line token) ∧
    List.Forall₂ (fun line outcome =>
      (∀ token, outcome.asked = some token → r.Expands line token) ∧
      ∀ token, r.Expands line token → outcome.found = (e token).bind (r.scanExpanded line))
      lines (outcomes {} r e lines) ∧
    outcomes {} r (fun token => if token ∈ calls then e token else none) lines =
      outcomes {} r e lines := by
  have hm : Faithful {} e := by simp [Faithful]
  refine ⟨?_, nodup_calls hr hm, fun token => ?_, found_outcomes hr hm, outcomes_congr ?_⟩
  · rw [run_answersM_logged, List.append_nil]
  · rw [mem_calls_iff hr hm]
    simp [tokens, Registry.asked?_iff_expands]
  · exact fun token h => if_pos h

theorem expander_asked_once_unknown :
    ∃ r, Registry.ofTools { windowsPaths := true } [] = .ok r ∧
      let lines := ["C:\\TOOLS~1\\unknown.exe -c a.c".toList,
        "C:\\TOOLS~1\\unknown.exe -c b.c".toList]
      let unknown : Expander := fun _ => none
      let calls := calls {} r unknown lines
      calls = ["C:\\TOOLS~1\\unknown.exe".toList] ∧
      (answersM {} r (Registry.logged unknown) lines).run [] =
        ((outcomes {} r unknown lines).map (·.found), calls.reverse) ∧
      calls.Nodup ∧
      (∀ token, token ∈ calls ↔ ∃ line ∈ lines, r.Expands line token) ∧
      List.Forall₂ (fun line outcome =>
        (∀ token, outcome.asked = some token → r.Expands line token) ∧
        ∀ token, r.Expands line token → outcome.found = (unknown token).bind (r.scanExpanded line))
        lines (outcomes {} r unknown lines) ∧
      outcomes {} r (fun token => if token ∈ calls then unknown token else none) lines =
        outcomes {} r unknown lines := by
  have hcalls : ((Registry.ofTools { windowsPaths := true } []).toOption.map fun r =>
      calls {} r (fun _ => none) ["C:\\TOOLS~1\\unknown.exe -c a.c".toList,
        "C:\\TOOLS~1\\unknown.exe -c b.c".toList]) =
      some ["C:\\TOOLS~1\\unknown.exe".toList] := by
    decide +kernel
  cases h : Registry.ofTools { windowsPaths := true } [] with
  | error err => rw [h] at hcalls; cases hcalls
  | ok r =>
    rw [h] at hcalls
    exact ⟨r, rfl, Option.some.inj hcalls, expander_asked_once h _ _⟩

end DetectionMemory

end SettingsScan
