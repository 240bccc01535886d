import SettingsScan.Config.Validation

/-! # The problems of a configuration

What can be wrong with a configuration is said fault by fault, without regard to a search. The
checks find all faults and nothing else: one pass over the tools those of their patterns and names,
and another one the repeated names.
-/

namespace SettingsScan

open Pattern (compiles)

/-- When something is looked for: in which pass, and how far in it. -/
structure Turn where
  pass : Nat
  step : Nat
  deriving DecidableEq, Repr

def Turn.Before (p q : Turn) : Prop :=
  p.pass < q.pass ∨ p.pass = q.pass ∧ p.step < q.step

inductive Fault where
  | versionPattern
  | emptyName (index : Nat)
  | namePattern (index : Nat)
  | extensionPattern (index : Nat)
  | repeatedName (index : Nat)
  deriving DecidableEq, Repr

namespace Fault

def problem : Fault → Problem
  | versionPattern => .invalidPattern "detection.version_suffix.pattern"
  | emptyName index => .emptyText (DetectionConfig.toolField index "name")
  | namePattern index => .invalidPattern (DetectionConfig.toolField index "name")
  | extensionPattern index => .invalidPattern (DetectionConfig.toolField index "extension")
  | repeatedName index => .repeatedTool index

/-- The version suffix, the tools by index with the name in front of the extension, and behind all
of them the repeated names by index. -/
def turn : Fault → Turn
  | versionPattern => ⟨0, 0⟩
  | emptyName index => ⟨1, 2 * index⟩
  | namePattern index => ⟨1, 2 * index⟩
  | extensionPattern index => ⟨1, 2 * index + 1⟩
  | repeatedName index => ⟨2, index⟩

/-- The configuration has the fault. -/
def In (d : DetectionConfig) : Fault → Prop
  | versionPattern => d.versionSuffix.enabled ∧ ¬ compiles d.versionSuffix.pattern
  | emptyName index => ∃ t, d.tools[index]? = some t ∧ t.name = []
  | namePattern index => ∃ t, d.tools[index]? = some t ∧ t.name ≠ [] ∧ ¬ compiles t.name
  | extensionPattern index => ∃ t, d.tools[index]? = some t ∧ ∃ e ∈ t.extension, ¬ compiles e
  | repeatedName index => ∃ t, d.tools[index]? = some t ∧
    ∃ earlier < index, ∃ t', d.tools[earlier]? = some t' ∧ t'.name = t.name

/-- The faults that the next check can find. -/
def Next (p q : Turn) (faults : List Fault) : Prop :=
  ∀ f : Fault, f.turn.Before q ↔ f.turn.Before p ∨ f ∈ faults

theorem next_version : Next ⟨0, 0⟩ ⟨1, 0⟩ [versionPattern] := by
  intro f
  cases f <;> simp [turn, Turn.Before]

theorem next_name (index : Nat) :
    Next ⟨1, 2 * index⟩ ⟨1, 2 * index + 1⟩ [emptyName index, namePattern index] := by
  intro f
  cases f <;> simp [turn, Turn.Before] <;> omega

theorem next_extension (index : Nat) :
    Next ⟨1, 2 * index + 1⟩ ⟨1, 2 * (index + 1)⟩ [extensionPattern index] := by
  intro f
  cases f <;> simp [turn, Turn.Before]
  all_goals omega

theorem next_repeated (index : Nat) :
    Next ⟨2, index⟩ ⟨2, index + 1⟩ [repeatedName index] := by
  intro f
  cases f <;> simp [turn, Turn.Before]
  omega

end Fault

namespace DetectionConfig

open Fault (Next)

variable {d : DetectionConfig} {found : List Problem} {faults : List Fault} {p q : Turn}
  {f : Fault} {t : ToolSpec} {index : Nat}

/-! ### What is found up to a turn -/

/-- Found are the faults that come before the turn, in order. -/
def Found (d : DetectionConfig) (p : Turn) (found : List Problem) : Prop :=
  ∃ faults : List Fault, faults.Pairwise (·.turn.Before ·.turn) ∧
    (∀ f, f ∈ faults ↔ f.In d ∧ f.turn.Before p) ∧ found = faults.map Fault.problem

namespace Found

theorem empty (d : DetectionConfig) : Found d ⟨0, 0⟩ [] := by
  refine ⟨[], .nil, fun f => ?_, rfl⟩
  simp [Turn.Before]

theorem skip (h : Found d p found) (hn : Next p q faults) (hf : ∀ f ∈ faults, ¬ f.In d) :
    Found d q found := by
  obtain ⟨before, hsorted, hmem, hfound⟩ := h
  refine ⟨before, hsorted, fun f => ?_, hfound⟩
  rw [hmem, hn]
  constructor
  · exact fun ⟨hd, hp⟩ => ⟨hd, .inl hp⟩
  · rintro ⟨hd, hp | hm⟩
    · exact ⟨hd, hp⟩
    · exact absurd hd (hf f hm)

theorem add (h : Found d p found) (hn : Next p q faults) (hm : f ∈ faults)
    (hp : ¬ f.turn.Before p) (hf : ∀ g ∈ faults, g.In d ↔ g = f) :
    Found d q (found ++ [f.problem]) := by
  obtain ⟨before, hsorted, hmem, rfl⟩ := h
  refine ⟨before ++ [f], ?_, fun g => ?_, by simp⟩
  · refine List.pairwise_append.mpr ⟨hsorted, List.pairwise_singleton _ _, fun g hg g' hg' => ?_⟩
    obtain rfl := List.mem_singleton.mp hg'
    obtain ⟨-, hlt⟩ := (hmem g).mp hg
    simp only [Turn.Before] at hp hlt ⊢
    omega
  · rw [List.mem_append, List.mem_singleton, hmem, hn]
    constructor
    · rintro (⟨hg, hlt⟩ | rfl)
      · exact ⟨hg, .inl hlt⟩
      · exact ⟨(hf g hm).mpr rfl, .inr hm⟩
    · rintro ⟨hg, hlt | hc⟩
      · exact .inl ⟨hg, hlt⟩
      · exact .inr ((hf g hc).mp hg)

end Found

theorem collect_checkPattern (found : List Problem) (field pattern : Text) :
    collect found (checkPattern field pattern) =
      if compiles pattern then found else found ++ [.invalidPattern field] := by
  unfold checkPattern
  split <;> rfl

/-! ### The checks one by one -/

theorem Found.checkVersion (h : Found d ⟨0, 0⟩ found) : Found d ⟨1, 0⟩ (d.checkVersion found) := by
  rw [DetectionConfig.checkVersion, collect_checkPattern]
  split
  · rename_i henabled
    split
    · rename_i hc
      exact h.skip Fault.next_version (by simp [Fault.In, hc])
    · rename_i hc
      exact h.add Fault.next_version List.mem_cons_self (by simp [Turn.Before])
        (by simp [Fault.In, henabled, hc])
  · rename_i henabled
    exact h.skip Fault.next_version (by simp [Fault.In, henabled])

theorem Found.checkName (h : Found d ⟨1, 2 * index⟩ found) (ht : d.tools[index]? = some t) :
    Found d ⟨1, 2 * index + 1⟩ (checkName index t found) := by
  have hn := Fault.next_name index
  rw [DetectionConfig.checkName, collect_checkPattern]
  split
  · rename_i hname
    have hname : t.name = [] := by simpa using hname
    exact h.add hn (f := .emptyName index) (by simp) (by simp [Fault.turn, Turn.Before])
      (by simp [Fault.In, ht, hname])
  · rename_i hname
    have hname : t.name ≠ [] := by simpa using hname
    split
    · rename_i hc
      exact h.skip hn (by simp [Fault.In, ht, hname, hc])
    · rename_i hc
      exact h.add hn (f := .namePattern index) (by simp) (by simp [Fault.turn, Turn.Before])
        (by simp [Fault.In, ht, hname, hc])

theorem Found.checkExtension (h : Found d ⟨1, 2 * index + 1⟩ found)
    (ht : d.tools[index]? = some t) :
    Found d ⟨1, 2 * (index + 1)⟩ (checkExtension index t found) := by
  have hn := Fault.next_extension index
  unfold DetectionConfig.checkExtension
  split
  · rename_i e he
    rw [collect_checkPattern]
    split
    · rename_i hc
      exact h.skip hn (by simp [Fault.In, ht, he, hc])
    · rename_i hc
      exact h.add hn List.mem_cons_self (by simp [Fault.turn, Turn.Before])
        (by simp [Fault.In, ht, he, hc])
  · rename_i he
    exact h.skip hn (by simp [Fault.In, ht, he])

/-! ### The passes over the tools -/

variable {before rest : List ToolSpec}

theorem getElem?_length (hd : d.tools = before ++ t :: rest) :
    d.tools[before.length]? = some t := by
  rw [hd, List.getElem?_append_right (Nat.le_refl _), Nat.sub_self, List.getElem?_cons_zero]

theorem Found.checkTools (h : Found d ⟨1, 2 * before.length⟩ found)
    (hd : d.tools = before ++ rest) :
    Found d ⟨1, 2 * d.tools.length⟩ ((rest.zipIdx before.length).foldl checkTool found) := by
  induction rest generalizing before found with
  | nil => simpa [hd] using h
  | cons t rest ih =>
    have ht := getElem?_length hd
    have hstep : Found d ⟨1, 2 * (before ++ [t]).length⟩ (checkTool found (t, before.length)) := by
      rw [List.length_append]
      exact (h.checkName ht).checkExtension ht
    simpa using ih hstep (by simpa using hd)

theorem Found.behindTools (h : Found d ⟨1, 2 * d.tools.length⟩ found) : Found d ⟨2, 0⟩ found := by
  obtain ⟨before, hsorted, hmem, hfound⟩ := h
  refine ⟨before, hsorted, fun f => (hmem f).trans (and_congr_right fun hf => ?_), hfound⟩
  cases f with
  | versionPattern => simp [Fault.turn, Turn.Before]
  | repeatedName index => simp [Fault.turn, Turn.Before]
  | emptyName index | namePattern index | extensionPattern index =>
    obtain ⟨t, ht, -⟩ := hf
    have hi := (List.getElem?_eq_some_iff.mp ht).1
    simp [Fault.turn, Turn.Before]
    omega

/-- The search for repeated names, when it has come to some tools. -/
structure NameSearch.At (d : DetectionConfig) (before : List ToolSpec) (s : NameSearch) : Prop where
  seen : ∀ name, name ∈ s.seen ↔ ∃ t ∈ before, t.name = name
  found : Found d ⟨2, before.length⟩ s.found

theorem in_repeatedName_iff (hd : d.tools = before ++ t :: rest) :
    Fault.In d (.repeatedName before.length) ↔ ∃ t' ∈ before, t'.name = t.name := by
  have hearlier {i : Nat} (hi : i < before.length) : d.tools[i]? = before[i]? := by
    rw [hd, List.getElem?_append_left hi]
  simp only [Fault.In, getElem?_length hd, Option.some.injEq, exists_eq_left']
  constructor
  · rintro ⟨i, hi, t', ht', hname⟩
    exact ⟨t', List.mem_of_getElem? (hearlier hi ▸ ht'), hname⟩
  · rintro ⟨t', hm, hname⟩
    obtain ⟨i, hi⟩ := List.mem_iff_getElem?.mp hm
    have hlt := (List.getElem?_eq_some_iff.mp hi).1
    exact ⟨i, hlt, t', (hearlier hlt).trans hi, hname⟩

theorem NameSearch.At.next {s : NameSearch} (h : s.At d before)
    (hd : d.tools = before ++ t :: rest) : (s.next (t, before.length)).At d (before ++ [t]) := by
  have hn := Fault.next_repeated before.length
  have hmem : s.seen.any (· = t.name) ↔ t.name ∈ s.seen := by simp
  have hrepeated : Fault.In d (.repeatedName before.length) ↔ s.seen.any (· = t.name) :=
    ((in_repeatedName_iff hd).trans (h.seen t.name).symm).trans hmem.symm
  unfold NameSearch.next
  split
  · rename_i hseen
    refine ⟨fun name => ?_, ?_⟩
    · rw [h.seen]
      simp only [List.mem_append, List.mem_singleton, or_and_right, exists_or, exists_eq_left]
      refine (or_iff_left_of_imp ?_).symm
      rintro rfl
      exact (h.seen t.name).mp (hmem.mp hseen)
    · rw [List.length_append]
      exact h.found.add hn List.mem_cons_self (by simp [Fault.turn, Turn.Before])
        (List.forall_mem_singleton.mpr (iff_of_true (hrepeated.mpr hseen) rfl))
  · rename_i hseen
    refine ⟨fun name => ?_, ?_⟩
    · rw [List.mem_cons, h.seen]
      simp only [List.mem_append, List.mem_singleton, or_and_right, exists_or, exists_eq_left]
      rw [or_comm, eq_comm]
    · rw [List.length_append]
      exact h.found.skip hn (List.forall_mem_singleton.mpr (mt hrepeated.mp hseen))

theorem NameSearch.At.foldl {s : NameSearch} (h : s.At d before) (hd : d.tools = before ++ rest) :
    ((rest.zipIdx before.length).foldl NameSearch.next s).At d d.tools := by
  induction rest generalizing before s with
  | nil => simpa [hd] using h
  | cons t rest ih => simpa using ih (h.next hd) (by simpa using hd)

theorem found_problems (d : DetectionConfig) : Found d ⟨2, d.tools.length⟩ d.problems := by
  have hd : d.tools = [] ++ d.tools := rfl
  have hversion : Found d ⟨1, 2 * ([] : List ToolSpec).length⟩ (d.checkVersion []) :=
    (Found.empty d).checkVersion
  have hnames : NameSearch.At d []
      { found := d.tools.zipIdx.foldl checkTool (d.checkVersion []) } :=
    ⟨by simp, (hversion.checkTools hd).behindTools⟩
  exact (hnames.foldl hd).found

theorem exists_faults (d : DetectionConfig) :
    ∃ faults : List Fault, faults.Pairwise (·.turn.Before ·.turn) ∧
      (∀ f, f ∈ faults ↔ f.In d) ∧ d.problems = faults.map Fault.problem := by
  obtain ⟨faults, hsorted, hmem, hfound⟩ := found_problems d
  refine ⟨faults, hsorted, fun f => (hmem f).trans (and_iff_left_of_imp fun hf => ?_), hfound⟩
  cases f with
  | repeatedName index =>
    obtain ⟨t, ht, -⟩ := hf
    have hi := (List.getElem?_eq_some_iff.mp ht).1
    simpa [Fault.turn, Turn.Before] using hi
  | _ => simp [Fault.turn, Turn.Before]

end DetectionConfig

namespace Config

/-- The result of validation is made of all faults of the configuration and nothing else, in the
order of their turns: nothing, the only problem, or a list of two problems or more. -/
theorem validate_faults (c : Config) :
    ∃ faults : List Fault, faults.Pairwise (·.turn.Before ·.turn) ∧
      (∀ f, f ∈ faults ↔ f.In c.detection) ∧
      (c.validate = .ok () ↔ faults = []) ∧
      (∀ problem, c.validate = .error (.single problem) ↔ ∃ f, faults = [f] ∧ problem = f.problem) ∧
      ∀ problems, c.validate = .error (.multiple problems) ↔
        2 ≤ faults.length ∧ problems = faults.map Fault.problem := by
  obtain ⟨faults, hsorted, hmem, hproblems⟩ := c.detection.exists_faults
  refine ⟨faults, hsorted, hmem, ?_⟩
  rw [validate, hproblems]
  match faults with
  | [] => simp
  | [f] => simp [eq_comm]
  | f :: g :: more => simp [eq_comm]

-- A tool without a name and with a bad extension, and a name that is there already.
example :
    DetectionConfig.problems { tools :=
      [{ name := "my-gcc", family := .gcc },
       { name := [], family := .gcc, extension := some "ex(" },
       { name := "my-gcc", family := .gcc }] } =
      [.emptyText "detection.tools[1].name", .invalidPattern "detection.tools[1].extension",
       .repeatedTool 2] := by
  decide +kernel

end Config

end SettingsScan
