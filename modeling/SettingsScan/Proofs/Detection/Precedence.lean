import Mathlib.Data.Prod.Lex
import SettingsScan.Proofs.Detection.History
import SettingsScan.Proofs.Detection.Scan

/-! # The least candidate

A detection goes through up to four stages, and a stage through all methods and detectors. What it
finds is the least of all candidates, by the stage, the method and the place of the detector. A long
name is asked for once at most, when the line as it is written has no candidate.
-/

namespace SettingsScan

/-- The stages of a detection: the line as it is written, against the detectors of either style,
and the line with a long name, against those of either style. -/
inductive Stage where
  | posix
  | windows
  | expandedWindows
  | expandedPosix
  deriving DecidableEq, Repr

/-- The line with the long name of its first token, in quotes if there are blank characters. -/
inductive Rewritten (r : Registry) (e : Expander) (line : Text) : Text → Prop
  | intro {token rest long : Text} : r.options.windowsPaths → r.options.shortFileNames →
      FirstToken line token rest → '~' ∈ token → e token = some long →
      Rewritten r e line (if long.any isBlank then '"' :: long ++ '"' :: rest else long ++ rest)

namespace Stage

def all : List Stage := [posix, windows, expandedWindows, expandedPosix]

def rank : Stage → Nat
  | posix => 0
  | windows => 1
  | expandedWindows => 2
  | expandedPosix => 3

def style : Stage → PathStyle
  | posix | expandedPosix => .posix
  | windows | expandedWindows => .windows

inductive Tries (r : Registry) (e : Expander) (line : Text) : Stage → Text → Prop
  | posix : Tries r e line .posix line
  | windows : r.options.windowsPaths → Tries r e line .windows line
  | expandedWindows {text : Text} : Rewritten r e line text → Tries r e line .expandedWindows text
  | expandedPosix {text : Text} : Rewritten r e line text → Tries r e line .expandedPosix text

def text? (s : Stage) (r : Registry) (e : Expander) (line : Text) : Option Text :=
  match s with
  | posix => some line
  | windows => if r.options.windowsPaths then some line else none
  | expandedWindows | expandedPosix =>
    (r.shortToken? line).bind fun token => (e token).map (Registry.withLongName line)

end Stage

/-- A detector and a method that may recognise a line at a stage. -/
structure Candidate where
  stage : Stage
  method : DetectionMethod
  index : Nat
  deriving Repr

namespace Candidate

/-- Stages count first, then methods, then the places of the detectors. -/
def key (c : Candidate) : Nat ×ₗ Nat ×ₗ Nat :=
  toLex (c.stage.rank, toLex (c.method.rank, c.index))

theorem key_injective : Function.Injective key := by
  have hstage : ∀ s t : Stage, s.rank = t.rank → s = t := by
    intro s t
    cases s <;> cases t <;> decide
  have hmethod : ∀ m n : DetectionMethod, m.rank = n.rank → m = n := by
    intro m n
    cases m <;> cases n <;> decide
  rintro ⟨s, m, i⟩ ⟨t, n, j⟩ h
  simp only [key, EmbeddingLike.apply_eq_iff_eq, Prod.mk.injEq] at h
  obtain ⟨hs, hm, rfl⟩ := h
  rw [hstage s t hs, hmethod m n hm]

instance : LinearOrder Candidate := LinearOrder.lift' key key_injective

/-- The detector at the place recognises the text of the stage with the method, and this is the
detection. -/
def Gives (r : Registry) (e : Expander) (line : Text) (c : Candidate) (d : Detection) : Prop :=
  ∃ text, c.stage.Tries r e line text ∧ r.Matches text d ∧
    d.id = { style := c.stage.style, index := c.index } ∧ d.method = c.method

def all (r : Registry) (e : Expander) (line : Text) : Set Candidate :=
  {c | ∃ d, c.Gives r e line d}

def give? (r : Registry) (e : Expander) (line : Text) (c : Candidate) : Option Detection :=
  (c.stage.text? r e line).bind fun text =>
    r.tryPair text ({ style := c.stage.style, index := c.index }, c.method)

end Candidate

variable {r : Registry} {e e' : Expander} {line text token : Text} {s : Stage} {c : Candidate}
  {d : Detection}

/-! ### Stages -/

theorem Registry.shortToken?_eq_some_iff :
    r.shortToken? line = some token ↔ r.options.windowsPaths ∧ r.options.shortFileNames ∧
      '~' ∈ token ∧ ∃ rest, FirstToken line token rest := by
  simp only [firstToken_iff, shortToken?]
  generalize splitToken line = parts
  obtain ⟨token', rest⟩ := parts
  dsimp only
  split
  · rename_i h
    simp only [Bool.and_eq_true, List.contains_iff_mem] at h
    obtain ⟨⟨hw, hs⟩, ht⟩ := h
    constructor
    · rintro ⟨⟩
      exact ⟨hw, hs, ht, rest, rfl⟩
    · rintro ⟨-, -, -, rest', heq⟩
      rw [(Prod.mk.inj heq).1]
  · rename_i h
    refine iff_of_false nofun ?_
    rintro ⟨hw, hs, ht, rest', heq⟩
    obtain ⟨rfl, -⟩ := Prod.mk.inj heq
    exact h (by simp [hw, hs, ht])

theorem rewritten_iff :
    Rewritten r e line text ↔ ∃ token long, r.shortToken? line = some token ∧
      e token = some long ∧ text = Registry.withLongName line long := by
  constructor
  · rintro ⟨hw, hs, htoken, ht, hlong⟩
    refine ⟨_, _, Registry.shortToken?_eq_some_iff.mpr ⟨hw, hs, ht, _, htoken⟩, hlong, ?_⟩
    rw [Registry.withLongName, firstToken_iff.mp htoken]
  · rintro ⟨token, long, htoken, hlong, rfl⟩
    obtain ⟨hw, hs, ht, rest, htoken⟩ := Registry.shortToken?_eq_some_iff.mp htoken
    rw [Registry.withLongName, firstToken_iff.mp htoken]
    exact .intro hw hs htoken ht hlong

theorem Stage.tries_iff : s.Tries r e line text ↔ s.text? r e line = some text := by
  have hexpanded : Rewritten r e line text ↔ ((r.shortToken? line).bind fun token =>
      (e token).map (Registry.withLongName line)) = some text := by
    simp only [rewritten_iff, Option.bind_eq_some_iff, Option.map_eq_some_iff]
    constructor
    · rintro ⟨token, long, htoken, hlong, rfl⟩
      exact ⟨token, htoken, long, hlong, rfl⟩
    · rintro ⟨token, htoken, long, hlong, rfl⟩
      exact ⟨token, long, htoken, hlong, rfl⟩
  cases s with
  | posix =>
    constructor
    · rintro ⟨⟩
      rfl
    · rintro ⟨⟩
      exact .posix
  | windows =>
    change _ ↔ (if r.options.windowsPaths then some line else none) = some text
    constructor
    · intro h
      cases h with
      | windows hw => rw [if_pos hw]
    · intro h
      obtain ⟨hw, heq⟩ := Option.ite_none_right_eq_some.mp h
      cases heq
      exact .windows hw
  | expandedWindows =>
    refine Iff.trans ⟨fun h => ?_, .expandedWindows⟩ hexpanded
    cases h
    assumption
  | expandedPosix =>
    refine Iff.trans ⟨fun h => ?_, .expandedPosix⟩ hexpanded
    cases h
    assumption

theorem Registry.detect_eq_stages :
    r.detect e line = Stage.all.findSome? fun s => (s.text? r e line).bind (r.scan s.style) := by
  simp only [Stage.all, findSome?_cons, List.findSome?_nil, Option.or_none, Stage.text?,
    Stage.style, Option.bind_some, detect, scanWritten, Option.or_assoc]
  congr 2
  · split <;> rfl
  · cases r.shortToken? line with
    | none => rfl
    | some token => cases h : e token <;> simp [h, scanExpanded]

/-! ### Candidates -/

theorem Registry.tryPair_eq_some_iff {pair : DetectorId × DetectionMethod} :
    r.tryPair line pair = some d ↔ r.Matches line d ∧ d.id = pair.1 ∧ d.method = pair.2 := by
  constructor
  · intro h
    obtain ⟨hpair, hmatches⟩ := matches_of_tryPair h
    exact ⟨hmatches, congrArg Prod.fst hpair, congrArg Prod.snd hpair⟩
  · rintro ⟨⟨hget, hmatch⟩, hid, hmethod⟩
    rw [tryPair, ← hid, ← hmethod, hget, Option.bind_some, hmatch]
    rfl

namespace Candidate

theorem gives_iff : c.Gives r e line d ↔ c.give? r e line = some d := by
  simp only [Gives, give?, Stage.tries_iff, Option.bind_eq_some_iff, Registry.tryPair_eq_some_iff]

theorem lt_of_triedBefore {s : Stage} {m n : DetectionMethod} {i j : Nat}
    (h : Registry.TriedBefore (i, m) (j, n)) : Candidate.mk s m i < Candidate.mk s n j := by
  refine Prod.Lex.toLex_lt_toLex.mpr (.inr ⟨rfl, Prod.Lex.toLex_lt_toLex.mpr ?_⟩)
  rcases h with h | ⟨hm, h⟩
  · exact .inl h
  · exact .inr ⟨congrArg DetectionMethod.rank hm, h⟩

/-- All candidates there may be, in the order in which they are tried. -/
def tried (r : Registry) : List Candidate :=
  Stage.all.flatMap fun s => (r.pairs s.style).map fun pair => ⟨s, pair.2, pair.1.index⟩

theorem pairwise_tried (r : Registry) : (tried r).Pairwise (· < ·) := by
  have hrank : Stage.all.Pairwise fun s t => s.rank < t.rank := by decide
  refine List.pairwise_flatMap.mpr ⟨fun s _ => ?_, hrank.imp fun {s t} hst => ?_⟩
  · exact List.pairwise_map.mpr (Registry.pairwise_pairs.imp lt_of_triedBefore)
  · intro p hp q hq
    obtain ⟨_, -, rfl⟩ := List.mem_map.mp hp
    obtain ⟨_, -, rfl⟩ := List.mem_map.mp hq
    exact Prod.Lex.toLex_lt_toLex.mpr (.inl hst)

theorem mem_tried_of_give? (h : c.give? r e line = some d) : c ∈ tried r := by
  obtain ⟨text, -, htry⟩ := Option.bind_eq_some_iff.mp h
  obtain ⟨⟨hget, -⟩, hid, -⟩ := Registry.tryPair_eq_some_iff.mp htry
  rw [hid] at hget
  have hstage : c.stage ∈ Stage.all := by cases c.stage <;> decide
  refine List.mem_flatMap.mpr ⟨c.stage, hstage, List.mem_map.mpr ⟨_, Registry.mem_pairs.mpr
    (List.getElem?_eq_some_iff.mp hget).1, rfl⟩⟩

end Candidate

open Candidate

theorem Registry.detect_eq_findSome? :
    r.detect e line = (tried r).findSome? (give? r e line) := by
  rw [detect_eq_stages, tried, findSome?_flatMap]
  refine findSome?_congr fun s _ => ?_
  rw [List.findSome?_map]
  cases htext : s.text? r e line with
  | none =>
    rw [Option.bind_none, List.findSome?_eq_none_iff.mpr]
    intro pair _
    simp [give?, htext]
  | some text =>
    rw [Option.bind_some, scan_eq_findSome?]
    refine findSome?_congr fun pair hpair => ?_
    obtain ⟨⟨style, index⟩, method⟩ := pair
    obtain rfl := style_of_mem_pairs hpair
    simp [give?, htext]

/-! ### The least candidate -/

namespace Registry

structure InOrder (r : Registry) (options : DetectionOptions) (tools : List ToolSpec) : Prop where
  options_eq : r.options = options
  posix : List.Forall₂ (fun tool d => build options .posix tool = .ok d) tools r.posix
  windows : List.Forall₂ (fun tool d => build options .windows tool = .ok d)
    (tools.filter fun tool => options.windowsPaths && tool.windowsPaths) r.windows

variable {options : DetectionOptions} {tools : List ToolSpec}

theorem inOrder_of_ofTools (h : ofTools options tools = .ok r) :
    r.InOrder options (tools ++ builtinTools) := by
  obtain ⟨ho, hp, hw⟩ := mapM_of_ofTools h
  exact ⟨ho, Except.forall₂_of_mapM_eq_ok hp, Except.forall₂_of_mapM_eq_ok hw⟩

theorem detect_eq_some_iff : r.detect e line = some d ↔
    ∃ c, IsLeast (Candidate.all r e line) c ∧ c.Gives r e line d := by
  have hset : {c | c ∈ tried r ∧ (c.give? r e line).isSome} = Candidate.all r e line := by
    ext c
    simp only [Candidate.all, Set.mem_ofPred_eq, Option.isSome_iff_exists, gives_iff]
    exact and_iff_right_of_imp fun ⟨d, hd⟩ => mem_tried_of_give? hd
  rw [detect_eq_findSome?, findSome?_eq_some_iff_isLeast (pairwise_tried r), hset]
  simp only [gives_iff]

theorem stage_eq_none_iff : (s.text? r e line).bind (r.scan s.style) = none ↔
    ∀ c ∈ Candidate.all r e line, c.stage ≠ s := by
  constructor
  · rintro h c ⟨d, hd⟩ rfl
    obtain ⟨text, htext, htry⟩ := Option.bind_eq_some_iff.mp (gives_iff.mp hd)
    rw [htext, Option.bind_some] at h
    have hscan := scan_isSome_of_tryPair (Option.isSome_of_eq_some htry)
    rw [h] at hscan
    cases hscan
  · intro h
    refine Option.eq_none_iff_forall_ne_some.mpr fun d hd => ?_
    obtain ⟨text, htext, hscan⟩ := Option.bind_eq_some_iff.mp hd
    rw [scan_eq_findSome?] at hscan
    obtain ⟨⟨id, method⟩, hpair, htry⟩ := List.exists_of_findSome?_eq_some hscan
    have hid : id = { style := s.style, index := id.index } :=
      congrArg (DetectorId.mk · id.index) (style_of_mem_pairs hpair)
    rw [hid] at htry
    have hgives : (Candidate.mk s method id.index).Gives r e line d :=
      gives_iff.mpr (Option.bind_eq_some_iff.mpr ⟨text, htext, htry⟩)
    exact h _ ⟨d, hgives⟩ rfl

theorem detect_eq_none_iff : r.detect e line = none ↔ Candidate.all r e line = ∅ := by
  rw [detect_eq_stages, List.findSome?_eq_none_iff]
  simp only [stage_eq_none_iff]
  constructor
  · intro h
    refine Set.eq_empty_of_forall_notMem fun c hc => ?_
    exact h c.stage (by cases c.stage <;> decide) c hc rfl
  · intro h s _ c hc
    rw [h] at hc
    cases hc

theorem scanWritten_eq_none_iff (e : Expander) : r.scanWritten line = none ↔
    ∀ c ∈ Candidate.all r e line, c.stage ≠ .posix ∧ c.stage ≠ .windows := by
  have hwindows : (if r.options.windowsPaths then r.scan .windows line else none) =
      (Stage.windows.text? r e line).bind (r.scan Stage.windows.style) := by
    rw [Stage.text?]
    split <;> rfl
  rw [scanWritten, Option.or_eq_none_iff, hwindows, stage_eq_none_iff]
  refine Iff.trans (and_congr_left' (stage_eq_none_iff (s := .posix) (e := e))) ?_
  exact ⟨fun h c hc => ⟨h.1 c hc, h.2 c hc⟩,
    fun h => ⟨fun c hc => (h c hc).1, fun c hc => (h c hc).2⟩⟩

/-! ### Questions to the expander -/

/-- The detection of a line with an expander that has effects. -/
def detectM {m : Type → Type} [Monad m] (r : Registry) (expander : Text → m (Option Text))
    (line : Text) : m (Option Detection) :=
  match r.scanWritten line with
  | some d => pure (some d)
  | none =>
    match r.shortToken? line with
    | some token => do
      let long ← expander token
      pure (long.bind (r.scanExpanded line))
    | none => pure none

/-- The expander keeps the tokens that it is asked for, the latest one in front. -/
def logged (e : Expander) (token : Text) : StateM (List Text) (Option Text) := do
  modify (token :: ·)
  pure (e token)

theorem run_detectM_logged (r : Registry) (e : Expander) (line : Text) :
    (r.detectM (logged e) line).run [] = (r.detect e line, (r.asked? line).toList) := by
  unfold detectM detect asked?
  cases r.scanWritten line with
  | some d => rfl
  | none => cases r.shortToken? line <;> rfl

theorem detect_expander_congr (h : ∀ token, r.asked? line = some token → e' token = e token) :
    r.detect e' line = r.detect e line := by
  unfold asked? at h
  unfold detect
  cases hw : r.scanWritten line with
  | some d => rfl
  | none =>
    rw [hw, if_neg (by simp)] at h
    cases ht : r.shortToken? line with
    | none => rfl
    | some token => rw [Option.bind_some, Option.bind_some, h token ht]

theorem asked?_eq_some_iff (e : Expander) : r.asked? line = some token ↔
    (∀ c ∈ Candidate.all r e line, c.stage ≠ .posix ∧ c.stage ≠ .windows) ∧
      r.options.windowsPaths ∧ r.options.shortFileNames ∧ '~' ∈ token ∧
      ∃ rest, FirstToken line token rest := by
  rw [← shortToken?_eq_some_iff, ← scanWritten_eq_none_iff, asked?]
  cases r.scanWritten line <;> simp

/-- The detection of a line is what its least candidate gives, and the detectors of the given tools
are in front of the built-in ones. At most one question is asked, and only when the line as it is
written has no candidate; no other answer of the expander matters. -/
theorem ofTools_detect_least (h : ofTools options tools = .ok r) (e : Expander) (line : Text) :
    r.InOrder options (tools ++ builtinTools) ∧
      (r.detect e line = none ↔ Candidate.all r e line = ∅) ∧
      (∀ d, r.detect e line = some d ↔
        ∃ c, IsLeast (Candidate.all r e line) c ∧ c.Gives r e line d) ∧
      ∃ questions : List Text,
        (r.detectM (logged e) line).run [] = (r.detect e line, questions) ∧
        questions.length ≤ 1 ∧
        (∀ token, token ∈ questions ↔
          (∀ c ∈ Candidate.all r e line, c.stage ≠ .posix ∧ c.stage ≠ .windows) ∧
            r.options.windowsPaths ∧ r.options.shortFileNames ∧ '~' ∈ token ∧
            ∃ rest, FirstToken line token rest) ∧
        ∀ e', (∀ token ∈ questions, e' token = e token) → r.detect e' line = r.detect e line := by
  refine ⟨inOrder_of_ofTools h, detect_eq_none_iff, fun d => detect_eq_some_iff,
    (r.asked? line).toList, run_detectM_logged r e line, ?_, fun token => ?_,
    fun e' h => detect_expander_congr fun token ht => h token (Option.mem_toList.mpr ht)⟩
  · cases r.asked? line <;> simp
  · rw [Option.mem_toList]
    exact asked?_eq_some_iff e

/-- A given tool is found by the long name of its file, in front of the cross compiler of that
name. -/
theorem ofTools_detect_least_short_name :
    let tools : List ToolSpec :=
      [{ name := "my-gcc".toList, family := .clang, extension := some "exe".toList }]
    let e : Expander := fun token =>
      if token = "C:\\MY-GCC~1.EXE".toList then some "C:\\my tools\\my-gcc.exe".toList else none
    let line := "C:\\MY-GCC~1.EXE -c a.c".toList
    ∃ r, ofTools { windowsPaths := true } tools = .ok r ∧
      ((r.detect e line).map fun d => (d.id, d.method, d.command, d.arguments)) =
        some ({ style := .windows, index := 0 }, .withExtension,
          "C:\\my tools\\my-gcc.exe".toList, "-c a.c".toList) ∧
      r.InOrder { windowsPaths := true } (tools ++ builtinTools) ∧
      (r.detect e line = none ↔ Candidate.all r e line = ∅) ∧
      (∀ d, r.detect e line = some d ↔
        ∃ c, IsLeast (Candidate.all r e line) c ∧ c.Gives r e line d) ∧
      ∃ questions : List Text,
        (r.detectM (logged e) line).run [] = (r.detect e line, questions) ∧
        questions.length ≤ 1 ∧
        (∀ token, token ∈ questions ↔
          (∀ c ∈ Candidate.all r e line, c.stage ≠ .posix ∧ c.stage ≠ .windows) ∧
            r.options.windowsPaths ∧ r.options.shortFileNames ∧ '~' ∈ token ∧
            ∃ rest, FirstToken line token rest) ∧
        ∀ e', (∀ token ∈ questions, e' token = e token) → r.detect e' line = r.detect e line := by
  intro tools e line
  have hfound : ((ofTools { windowsPaths := true } tools).toOption.map fun r =>
      (r.detect e line).map fun d => (d.id, d.method, d.command, d.arguments)) =
      some (some ({ style := .windows, index := 0 }, .withExtension,
        "C:\\my tools\\my-gcc.exe".toList, "-c a.c".toList)) := by
    decide +kernel
  obtain ⟨r, hr, hfound⟩ := Option.map_eq_some_iff.mp hfound
  have hr := Except.eq_ok_of_toOption hr
  exact ⟨r, hr, hfound, ofTools_detect_least hr e line⟩

end Registry

end SettingsScan
