import SettingsScan.Proofs.Invocation.Accounting

/-! # The directories of a build log

Messages about entering and leaving directories are paired like brackets. A command is examined
in the directory of the innermost message in front of it that is still open, and in the directory
where the build was started if none is.
-/

namespace SettingsScan

/-- The whole stack of directories, the innermost one first. -/
def DirectoryStack.toList (s : DirectoryStack) : List Text :=
  s.entered ++ [s.start]

namespace BuildLog

abbrev entering (directory : Text) : LineKind := .directoryChange (.entering directory)

abbrev leaving : LineKind := .directoryChange .leaving

/-! ### Which messages belong together -/

/-- Each directory that is entered in the lines is left in them, and the other way round. -/
inductive Paired : List LineKind → Prop
  | nil : Paired []
  | cons {kind : LineKind} {kinds : List LineKind} :
      (∀ change, kind ≠ .directoryChange change) → Paired kinds → Paired (kind :: kinds)
  | pair {inner more : List LineKind} (directory : Text) :
      Paired inner → Paired more → Paired (entering directory :: inner ++ leaving :: more)

/-- The first line of these that leaves more than was entered in them closes a message in front. -/
def Closes (kinds : List LineKind) : Prop :=
  ∃ inner rest, kinds = inner ++ leaving :: rest ∧ Paired inner

/-- The line with the number is a message about entering the directory, and none of the lines
closes it. -/
def IsOpen (kinds : List LineKind) (i : Nat) (directory : Text) : Prop :=
  ∃ before after, kinds = before ++ entering directory :: after ∧ before.length = i ∧
    ¬ Closes after

def IsInnermost (kinds : List LineKind) (i : Nat) (directory : Text) : Prop :=
  IsOpen kinds i directory ∧ ∀ j d, IsOpen kinds j d → j ≤ i

/-- The directory of the innermost open message, or the one where the build was started. -/
def WorksIn (start : Text) (kinds : List LineKind) (directory : Text) : Prop :=
  (∃ i, IsInnermost kinds i directory) ∨ (∀ i d, ¬ IsOpen kinds i d) ∧ directory = start

variable {kinds inner rest before after : List LineKind} {kind : LineKind} {d e start : Text}
  {i n : Nat} {opened : List (Nat × Text)}

theorem Paired.append (h : Paired inner) (h' : Paired rest) : Paired (inner ++ rest) := by
  induction h with
  | nil => exact h'
  | cons hk _ ih => exact .cons hk ih
  | @pair inner more d hi _ _ ih =>
    rw [List.append_assoc]
    exact .pair d hi ih

theorem Paired.concat_pair (h : Paired kinds) (hi : Paired inner) (d : Text) :
    Paired (kinds ++ entering d :: inner ++ [leaving]) := by
  rw [List.append_assoc]
  exact h.append (.pair d hi .nil)

/-! ### The open messages as a stack -/

def track (n : Nat) (opened : List (Nat × Text)) : LineKind → List (Nat × Text)
  | .directoryChange (.entering d) => (n, d) :: opened
  | .directoryChange .leaving => opened.tail
  | _ => opened

def openingsFrom (n : Nat) (opened : List (Nat × Text)) : List LineKind → List (Nat × Text)
  | [] => opened
  | kind :: kinds => openingsFrom (n + 1) (track n opened kind) kinds

def openings (kinds : List LineKind) : List (Nat × Text) :=
  openingsFrom 0 [] kinds

theorem leaving_or_entering_or (kind : LineKind) :
    kind = leaving ∨ (∃ d, kind = entering d) ∨ ∀ change, kind ≠ .directoryChange change := by
  match kind with
  | .directoryChange .leaving => exact .inl rfl
  | .directoryChange (.entering d) => exact .inr (.inl ⟨d, rfl⟩)
  | .blank => exact .inr (.inr nofun)
  | .command _ => exact .inr (.inr nofun)

theorem track_of_ne (h : ∀ change, kind ≠ .directoryChange change) :
    track n opened kind = opened := by
  cases kind with
  | directoryChange change => exact absurd rfl (h change)
  | blank => rfl
  | command line => rfl

theorem openingsFrom_append (n : Nat) (opened : List (Nat × Text)) (kinds rest : List LineKind) :
    openingsFrom n opened (kinds ++ rest) =
      openingsFrom (n + kinds.length) (openingsFrom n opened kinds) rest := by
  induction kinds generalizing n opened with
  | nil => rfl
  | cons kind kinds ih =>
    rw [List.cons_append, openingsFrom, ih, openingsFrom, List.length_cons, Nat.add_right_comm,
      Nat.add_assoc]

theorem openings_append (kinds rest : List LineKind) :
    openings (kinds ++ rest) = openingsFrom kinds.length (openings kinds) rest := by
  rw [openings, openingsFrom_append, Nat.zero_add, openings]

theorem Paired.openingsFrom_eq (h : Paired kinds) (n : Nat) (opened : List (Nat × Text)) :
    openingsFrom n opened kinds = opened := by
  induction h generalizing n opened with
  | nil => rfl
  | cons hk _ ih => rw [openingsFrom, track_of_ne hk, ih]
  | pair d _ _ ih ih' =>
    rw [List.cons_append, openingsFrom, openingsFrom_append, ih, openingsFrom, ih']
    rfl

/-- The lines keep what was on the stack. -/
def Keeps (kinds : List LineKind) : Prop :=
  ∀ n opened, opened <:+ openingsFrom n opened kinds

theorem Paired.keeps (h : Paired kinds) : Keeps kinds := fun n opened => by
  rw [h.openingsFrom_eq]

theorem Keeps.append (h : Keeps kinds) (h' : Keeps rest) : Keeps (kinds ++ rest) :=
  fun n opened => by
  rw [openingsFrom_append]
  exact (h n opened).trans (h' _ _)

theorem keeps_entering (d : Text) : Keeps [entering d] := fun _ _ => List.suffix_cons _ _

/-- Lines that close a message in front of them do not keep it. -/
theorem Keeps.not_closes (h : Keeps kinds) : ¬ Closes kinds := by
  rintro ⟨inner, rest, rfl, hi⟩
  -- what follows starts from the empty stack, whatever the message was
  have hrun (x : Nat × Text) :
      [x] <:+ openingsFrom (inner.length + 1) [] rest := by
    have hx := h 0 [x]
    rwa [openingsFrom_append, hi.openingsFrom_eq, openingsFrom, Nat.zero_add] at hx
  have heq := List.suffix_of_suffix_length_le (hrun (0, [])) (hrun (1, [])) le_rfl
  exact absurd (heq.eq_of_length rfl) (by simp)

/-- Lines that close nothing in front of them keep it. -/
theorem closes_or_keeps (kinds : List LineKind) : Closes kinds ∨ Keeps kinds := by
  induction hn : kinds.length using Nat.strongRecOn generalizing kinds with
  | ind n ih =>
    subst hn
    rcases kinds with - | ⟨kind, rest⟩
    · exact .inr Paired.nil.keeps
    have hrest := ih _ (Nat.lt_succ_self _) rest rfl
    rcases leaving_or_entering_or kind with rfl | ⟨d, rfl⟩ | hk
    · exact .inl ⟨[], rest, rfl, .nil⟩
    · rcases hrest with ⟨inner, more, rfl, hi⟩ | hkeep
      · -- the message is closed, and what follows the closing line may close one more
        rcases ih _ (by simp; omega) more rfl with ⟨inner', more, rfl, hi'⟩ | hkeep
        · exact .inl ⟨entering d :: inner ++ leaving :: inner', more, by simp, .pair d hi hi'⟩
        · have hpair := (Paired.pair d hi .nil).keeps.append hkeep
          simpa using Or.inr hpair
      · exact .inr ((keeps_entering d).append hkeep)
    · rcases hrest with ⟨inner, more, rfl, hi⟩ | hkeep
      · exact .inl ⟨kind :: inner, more, rfl, .cons hk hi⟩
      · exact .inr ((Paired.cons hk .nil).keeps.append hkeep)

/-- The lines behind the innermost message on the stack are paired. -/
theorem exists_of_openings_eq_cons (h : openings kinds = (i, d) :: opened) :
    ∃ before inner, kinds = before ++ entering d :: inner ∧ before.length = i ∧
      openings before = opened ∧ Paired inner := by
  induction hn : kinds.length using Nat.strongRecOn generalizing kinds i d opened with
  | ind n ih =>
    subst hn
    rcases List.eq_nil_or_concat kinds with rfl | ⟨kinds, kind, rfl⟩
    · cases h
    rw [List.concat_eq_append] at h ih ⊢
    rw [openings_append] at h
    rcases leaving_or_entering_or kind with rfl | ⟨e, rfl⟩ | hk
    · -- the message that is left was the innermost one, and (i, d) was the next
      obtain ⟨⟨k, e⟩, hk⟩ : ∃ x, openings kinds = x :: (i, d) :: opened := by
        change (openings kinds).tail = _ at h
        cases ho : openings kinds with
        | nil =>
          rw [ho] at h
          cases h
        | cons x more =>
          rw [ho, List.tail_cons] at h
          exact ⟨x, congrArg (x :: ·) h⟩
      obtain ⟨before, inner, rfl, -, hb, hinner⟩ := ih _ (by simp) hk rfl
      obtain ⟨before, inner', rfl, rfl, hb, hinner'⟩ := ih _ (by simp) hb rfl
      refine ⟨before, inner' ++ entering e :: inner ++ [leaving], by simp, rfl, hb, ?_⟩
      exact hinner'.concat_pair hinner e
    · obtain ⟨hi, rfl⟩ := List.cons.inj h
      obtain ⟨rfl, rfl⟩ := Prod.mk.inj hi
      exact ⟨kinds, [], rfl, rfl, rfl, .nil⟩
    · rw [openingsFrom, track_of_ne hk, openingsFrom] at h
      obtain ⟨before, inner, rfl, rfl, hb, hinner⟩ := ih _ (by simp) h rfl
      exact ⟨before, inner ++ [kind], by simp, rfl, hb, hinner.append (.cons hk .nil)⟩

/-- The stack holds the open messages. -/
theorem isOpen_iff_mem : IsOpen kinds i d ↔ (i, d) ∈ openings kinds := by
  constructor
  · rintro ⟨before, after, rfl, rfl, hopen⟩
    have hk := (closes_or_keeps after).resolve_left hopen
    rw [openings_append, openingsFrom]
    exact (hk _ _).subset List.mem_cons_self
  · intro h
    suffices hs : ∃ before after, kinds = before ++ entering d :: after ∧ before.length = i ∧
        Keeps after by
      obtain ⟨before, after, hkinds, hi, hk⟩ := hs
      exact ⟨before, after, hkinds, hi, hk.not_closes⟩
    induction hn : kinds.length using Nat.strongRecOn generalizing kinds with
    | ind n ih =>
      subst hn
      obtain ⟨⟨j, e⟩, opened, hopened⟩ := List.exists_cons_of_ne_nil (List.ne_nil_of_mem h)
      obtain ⟨before, inner, rfl, rfl, hb, hinner⟩ := exists_of_openings_eq_cons hopened
      rw [hopened] at h
      rcases List.mem_cons.mp h with h | h
      · obtain ⟨rfl, rfl⟩ := Prod.mk.inj h
        exact ⟨before, inner, rfl, rfl, hinner.keeps⟩
      · obtain ⟨before, after, rfl, hi, hk⟩ := ih _ (by simp) (hb ▸ h) rfl
        exact ⟨before, after ++ entering e :: inner, by simp, hi,
          hk.append ((keeps_entering e).append hinner.keeps)⟩

/-- The innermost message comes last. -/
theorem pairwise_openings (kinds : List LineKind) :
    (openings kinds).Pairwise (fun x y => y.1 < x.1) ∧
      ∀ x ∈ openings kinds, x.1 < kinds.length := by
  induction kinds using List.reverseRecOn with
  | nil => exact ⟨.nil, nofun⟩
  | append_singleton kinds kind ih =>
    obtain ⟨hp, hl⟩ := ih
    rw [openings_append, openingsFrom, openingsFrom]
    have hlong {x : Nat × Text} (hx : x ∈ openings kinds) : x.1 < (kinds ++ [kind]).length := by
      rw [List.length_append]
      exact Nat.lt_add_right _ (hl x hx)
    rcases leaving_or_entering_or kind with rfl | ⟨e, rfl⟩ | hk
    · exact ⟨hp.tail, fun x hx => hlong (List.mem_of_mem_tail hx)⟩
    · refine ⟨.cons hl hp, fun x hx => ?_⟩
      rcases List.mem_cons.mp hx with rfl | hx
      · simp
      · exact hlong hx
    · rw [track_of_ne hk]
      exact ⟨hp, fun x hx => hlong hx⟩

theorem isInnermost_iff : IsInnermost kinds i d ↔ (openings kinds).head? = some (i, d) := by
  obtain ⟨hp, -⟩ := pairwise_openings kinds
  simp only [IsInnermost, isOpen_iff_mem]
  cases ho : openings kinds with
  | nil => simp
  | cons x opened =>
    rw [ho] at hp
    obtain ⟨hlast, -⟩ := List.pairwise_cons.mp hp
    constructor
    · rintro ⟨hmem, hmax⟩
      rcases List.mem_cons.mp hmem with rfl | hmem
      · rfl
      · have := hmax x.1 x.2 List.mem_cons_self
        have := hlast _ hmem
        omega
    · intro h
      obtain rfl := Option.some.inj h
      refine ⟨List.mem_cons_self, fun j e hj => ?_⟩
      rcases List.mem_cons.mp hj with hj | hj
      · exact (Prod.mk.inj hj).1.le
      · exact (hlast _ hj).le

theorem worksIn_iff :
    WorksIn start kinds d ↔ ((openings kinds).map (·.2) ++ [start]).head? = some d := by
  simp only [WorksIn, isInnermost_iff, isOpen_iff_mem]
  cases openings kinds with
  | nil => simp [eq_comm]
  | cons x opened =>
    obtain ⟨j, e⟩ := x
    constructor
    · rintro (⟨i, h⟩ | ⟨h, -⟩)
      · simpa using congrArg (Option.map (·.2)) h
      · exact absurd List.mem_cons_self (h j e)
    · intro h
      obtain rfl : e = d := by simpa using h
      exact .inl ⟨j, rfl⟩

theorem isOpen_leaving_iff :
    IsOpen (kinds ++ [leaving]) i d ↔ IsOpen kinds i d ∧ ¬ IsInnermost kinds i d := by
  rw [isInnermost_iff, isOpen_iff_mem, isOpen_iff_mem, openings_append]
  change (i, d) ∈ (openings kinds).tail ↔ _
  obtain ⟨hp, -⟩ := pairwise_openings kinds
  cases ho : openings kinds with
  | nil => simp
  | cons x opened =>
    rw [ho] at hp
    obtain ⟨hlast, -⟩ := List.pairwise_cons.mp hp
    rw [List.tail_cons, List.mem_cons, List.head?_cons, Option.some.injEq]
    constructor
    · intro h
      refine ⟨.inr h, ?_⟩
      rintro rfl
      exact absurd (hlast _ h) (Nat.lt_irrefl _)
    · rintro ⟨rfl | h, hne⟩
      · exact absurd rfl hne
      · exact h

theorem worksIn_entering_iff : WorksIn start (kinds ++ [entering d]) e ↔ e = d := by
  rw [worksIn_iff, openings_append]
  exact Option.some_inj.trans eq_comm

/-! ### The run of a scan -/

variable {p : Processor} {state : ProcessorState} {progress : Progress} {line : Text}
  {lines : List Text}

/-- The directories during a scan are those of the open messages, above the first one. -/
theorem directories_scanLines :
    (scanLines p state start lines).directories =
      { start, entered := (openings (lines.map classify)).map (·.2) } := by
  induction lines using List.reverseRecOn with
  | nil => rfl
  | append_singleton lines line ih =>
    rw [scanLines, List.foldl_concat, ← scanLines, scanLine, List.map_append, List.map_singleton,
      openings_append, openingsFrom, openingsFrom]
    cases classify line with
    | blank => exact ih
    | command text => exact ih
    | directoryChange change =>
      simp only [ih]
      cases change with
      | entering d => rfl
      | leaving => exact congrArg (DirectoryStack.mk start) List.map_tail.symm

/-- What is formed for a line behind others: a command is to be examined in the directory that it
works in. -/
def Forms (start : Text) (before : List LineKind) (formed : Option Invocation) : LineKind → Prop
  | .command line => ∃ d, (∀ e, WorksIn start before e ↔ e = d) ∧
      formed = some { directory := d, line }
  | _ => formed = none

def examine (p : Processor) (done : ProcessorState × Yield) (formed : Option Invocation) :
    ProcessorState × Yield :=
  let s := done.1.statistics
  let state := { done.1 with statistics := { s with linesRead := s.linesRead + 1 } }
  match formed with
  | none => (state, done.2)
  | some invocation =>
    let (_, yield, state) := p.process state invocation
    (state, done.2 ++ yield)

theorem exists_forms_scanLine (p : Processor) (progress : Progress) {kinds : List LineKind}
    (h : ∀ e, WorksIn start kinds e ↔ e = progress.directories.current) (line : Text) :
    ∃ formed, Forms start kinds formed (classify line) ∧
      ((scanLine p progress line).state, (scanLine p progress line).yield) =
        examine p (progress.state, progress.yield) formed := by
  rw [scanLine]
  cases classify line with
  | blank => exact ⟨none, rfl, rfl⟩
  | directoryChange change => exact ⟨none, rfl, rfl⟩
  | command text => exact ⟨_, ⟨_, h, rfl⟩, rfl⟩

theorem exists_forms_scanLines (p : Processor) (state : ProcessorState) (start : Text)
    (lines : List Text) :
    ∃ formed : List (Option Invocation), formed.length = lines.length ∧
      (∀ before line after, lines = before ++ line :: after →
        ∃ o, formed[before.length]? = some o ∧ Forms start (before.map classify) o (classify line)) ∧
      ((scanLines p state start lines).state, (scanLines p state start lines).yield) =
        formed.foldl (examine p) (state, {}) := by
  induction lines using List.reverseRecOn with
  | nil => exact ⟨[], rfl, by simp, rfl⟩
  | append_singleton lines line ih =>
    obtain ⟨formed, hlength, hforms, hrun⟩ := ih
    have hcurrent (e : Text) : WorksIn start (lines.map classify) e ↔
        e = (scanLines p state start lines).directories.current := by
      rw [directories_scanLines, worksIn_iff, DirectoryStack.current]
      cases openings (lines.map classify) <;> simp [eq_comm]
    obtain ⟨o, ho, hline⟩ := exists_forms_scanLine p (scanLines p state start lines) hcurrent line
    refine ⟨formed ++ [o], by simp [hlength], fun before next after h => ?_, ?_⟩
    · rcases List.eq_nil_or_concat after with rfl | ⟨after, last, rfl⟩
      · obtain ⟨rfl, hnext⟩ := List.append_inj' h rfl
        obtain rfl := List.singleton_inj.mp hnext
        exact ⟨o, by simp [← hlength], ho⟩
      · rw [List.concat_eq_append, ← List.cons_append, ← List.append_assoc] at h
        obtain ⟨rfl, -⟩ := List.append_inj' h rfl
        obtain ⟨o', ho', hf⟩ := hforms before next after rfl
        exact ⟨o', by rw [List.getElem?_append_left (by simp [hlength]), ho'], hf⟩
    · rw [scanLines, List.foldl_concat, ← scanLines, List.foldl_concat, ← hrun, hline]

theorem isOpen_concat_iff (h : ∀ change, kind ≠ .directoryChange change) :
    IsOpen (kinds ++ [kind]) i d ↔ IsOpen kinds i d := by
  rw [isOpen_iff_mem, isOpen_iff_mem, openings_append, openingsFrom, track_of_ne h, openingsFrom]

/-- Every command of a log is examined in the directory of the innermost message that is open in
front of it. The stack holds the open messages above the directory where the build was started. A
message about leaving closes the innermost open message, if there is one, a message about entering
leads to its path, and no other line changes what is open. -/
theorem scan_directories (p : Processor) (state : ProcessorState) (start : Text) (bytes : Bytes) :
    (∃ (lines : List Bytes) (formed : List (Option Invocation)), IsLines bytes lines ∧
      formed.length = lines.length ∧
      (∀ before line after, lines.map Encoding.ofUtf8 = before ++ line :: after →
        ∃ o, formed[before.length]? = some o ∧ Forms start (before.map classify) o (classify line)) ∧
      ((scan p state start bytes).state, (scan p state start bytes).yield) =
        formed.foldl (examine p) (state, {})) ∧
    (∀ line kind, classify line = kind ↔ IsKind line kind) ∧
    (∀ before : List Text, ∃ opened : List (Nat × Text),
      opened.Pairwise (fun x y => y.1 < x.1) ∧
      (∀ i d, (i, d) ∈ opened ↔ IsOpen (before.map classify) i d) ∧
      (scanLines p state start before).directories.toList = opened.map (·.2) ++ [start]) ∧
    (∀ (before : List Text) line, Announces line .leaving → ∀ i d,
      IsOpen ((before ++ [line]).map classify) i d ↔
        IsOpen (before.map classify) i d ∧ ¬ IsInnermost (before.map classify) i d) ∧
    (∀ (before : List Text) line path, Announces line (.entering path) → ∀ d,
      WorksIn start ((before ++ [line]).map classify) d ↔ d = path) ∧
    ∀ (before : List Text) line, ¬ IsMessage line → ∀ i d,
      IsOpen ((before ++ [line]).map classify) i d ↔ IsOpen (before.map classify) i d := by
  refine ⟨?_, fun line kind => isKind_iff.symm, fun before => ?_, fun before line hline i d => ?_,
    fun before line path hline d => ?_, fun before line hline i d => ?_⟩
  · obtain ⟨formed, hlength, hforms, hrun⟩ :=
      exists_forms_scanLines p state start (BuildLog.lines bytes)
    rw [BuildLog.lines, List.length_map] at hlength
    exact ⟨byteLines bytes, formed, isLines_byteLines bytes, hlength, hforms, hrun⟩
  · obtain ⟨hp, -⟩ := pairwise_openings (before.map classify)
    refine ⟨_, hp, fun i d => isOpen_iff_mem.symm, ?_⟩
    rw [DirectoryStack.toList, directories_scanLines]
  · rw [List.map_append, List.map_singleton, classify_eq_directoryChange_iff.mpr hline]
    exact isOpen_leaving_iff
  · rw [List.map_append, List.map_singleton, classify_eq_directoryChange_iff.mpr hline]
    exact worksIn_entering_iff
  · rw [List.map_append, List.map_singleton]
    exact isOpen_concat_iff fun change hc => hline (isMessage_iff.mpr ⟨change, hc⟩)

/-- Behind a message about leaving, the command is examined in the outer directory, whose path has
quotes and blanks of its own. The first message closes nothing. -/
theorem scan_directories_behind_leaving :
    let before := ["make: Leaving directory '/q'",
      " gmake[12]: Entering directory \x60/p/it's \"a\" '\" \t",
      "make[13]: Entering directory '/p/lib'",
      "make[13]: Leaving directory '/p/lib'"].map String.toList
    let log := Encoding.utf8 (Text.joinWith ['\n'] (before ++ ["gcc -c a.c".toList]))
    let p : Processor :=
      { registry := { posix := [], windows := [], options := {} }, expander := fun _ => none,
        contents := fun _ => none }
    ∃ formed : List (Option Invocation), formed.length = 5 ∧
      formed[4]? = some (some { directory := "/p/it's \"a\" '", line := "gcc -c a.c" }) ∧
      ((scan p {} "/p".toList log).state, (scan p {} "/p".toList log).yield) =
        formed.foldl (examine p) ({}, {}) := by
  intro before log p
  obtain ⟨⟨lines, formed, hlines, hlength, hforms, hrun⟩, -⟩ :=
    scan_directories p {} "/p".toList log
  have htexts : lines.map Encoding.ofUtf8 = before ++ ["gcc -c a.c".toList] := by
    rw [← isLines_iff.mp hlines]
    decide +kernel
  have hworks : WorksIn "/p".toList (before.map classify) "/p/it's \"a\" '" :=
    worksIn_iff.mpr (by decide +kernel)
  have hcommand : classify "gcc -c a.c".toList = .command "gcc -c a.c" := by decide +kernel
  obtain ⟨o, ho, hform⟩ := hforms before _ [] htexts
  rw [hcommand] at hform
  obtain ⟨d, hd, rfl⟩ := hform
  rw [(hd _).mp hworks]
  have hcount : formed.length = (before ++ ["gcc -c a.c".toList]).length := by
    rw [hlength, ← htexts, List.length_map]
  exact ⟨formed, hcount, ho, hrun⟩

end BuildLog

end SettingsScan
