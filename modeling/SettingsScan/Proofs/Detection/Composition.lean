import Mathlib.Algebra.Order.BigOperators.Group.List
import SettingsScan.Detection.Detector
import SettingsScan.Proofs.Pattern.Grouped

/-! # Patterns composed for one tool

The patterns of a tool are composed of its name, the version suffix and its extension, each in a
group of its own. Texts that are patterns alone compose to a pattern if each of their groups can be
closed, no two of them name a group alike, and the whole is neither nested too deep nor too large.
-/

namespace SettingsScan

open Pattern

/-- A text that stands in a group of its own in the patterns of a tool. -/
structure PatternPart where
  text : Text
  /-- An extension stands behind a dot, in any letter case. -/
  isExtension : Bool
  deriving DecidableEq, Repr

namespace PatternPart

def written (p : PatternPart) : Text :=
  if p.isExtension then '\\' :: '.' :: grouped true p.text else grouped false p.text

def group? (p : PatternPart) : Option State :=
  groupState? p.isExtension p.text

def state (p : PatternPart) : State :=
  p.group?.getD {}

def lead (p : PatternPart) : List Draft :=
  if p.isExtension then [.ofAtom (.char '.')] else []

def nesting (p : PatternPart) : Nat :=
  p.state.level.nesting

def size (p : PatternPart) : Nat :=
  p.state.level.size + Draft.totalSize p.lead + p.state.tableSize

def addTo (p : PatternPart) (s : State) : State :=
  { s with items := p.lead ++ s.items }.attach p.state

end PatternPart

/-- The bytes for the directory, the quotes and the blank behind the tool. -/
def pathSize (quoted : Bool) : Nat :=
  if quoted then 528 else 472

/-- The parts can stand together behind the directory of a tool, in quotes or not. -/
structure Composes (quoted : Bool) (parts : List PatternPart) : Prop where
  closed : ∀ p ∈ parts, p.group?.isSome
  names : (parts.map (·.state.names)).Pairwise List.Disjoint
  nesting : ∀ p ∈ parts, p.nesting + 3 ≤ nestingLimit
  size : pathSize quoted + (parts.map (·.size)).sum ≤ sizeLimit

namespace Composes

variable {quoted : Bool} {parts parts' : List PatternPart}

theorem sublist (h : Composes quoted parts) (hs : parts'.Sublist parts) :
    Composes quoted parts' where
  closed p hp := h.closed p (hs.subset hp)
  names := h.names.sublist (hs.map _)
  nesting p hp := h.nesting p (hs.subset hp)
  size := by
    have hsum := (hs.map (·.size)).sum_le_sum (fun _ _ => Nat.zero_le _)
    exact (Nat.add_le_add_left hsum _).trans h.size

theorem unquoted (h : Composes true parts) : Composes false parts where
  closed := h.closed
  names := h.names
  nesting := h.nesting
  size := by
    have hsize := h.size
    simp only [pathSize, if_true] at hsize
    simp only [pathSize, Bool.false_eq_true, if_false]
    omega

theorem iff : Composes quoted parts ↔
    (∀ p ∈ parts, p.group?.isSome) ∧
      (parts.map (·.state.names)).Pairwise (fun names names' => ∀ n ∈ names, n ∉ names') ∧
      (∀ p ∈ parts, p.nesting + 3 ≤ nestingLimit) ∧
      pathSize quoted + (parts.map (·.size)).sum ≤ sizeLimit :=
  ⟨fun h => ⟨h.closed, h.names, h.nesting, h.size⟩, fun ⟨hc, hn, hd, hk⟩ => ⟨hc, hn, hd, hk⟩⟩

instance : Decidable (Composes quoted parts) :=
  decidable_of_iff' _ iff

end Composes

/-! ### The parts -/

def quoteItems (quoted : Bool) : List Draft :=
  if quoted then [.ofAtom (.char '"')] else []

/-- The group of the tool, which is suspended while one of its parts is read. -/
def pathFrame (quoted : Bool) : Frame where
  flags := {}
  capture := some 1
  branches := []
  items := quoteItems quoted ++ [.ofAtom (.look .textStart)]

structure AmongParts (quoted : Bool) (s : State) : Prop where
  flags : s.flags = {}
  branches : s.branches = []
  outer : s.outer = [pathFrame quoted]

theorem AmongParts.length_outer {quoted : Bool} {s : State} (h : AmongParts quoted s) :
    s.outer.length = 1 := by
  rw [h.outer]
  rfl

namespace PatternPart

variable {quoted : Bool} {p : PatternPart} {s s₁ : State} {rest : Text}

theorem amongParts_addTo (h : AmongParts quoted s) (p : PatternPart) :
    AmongParts quoted (p.addTo s) :=
  ⟨h.flags, h.branches, h.outer⟩

theorem read?_written (hs : s.flags = {}) :
    s.read? (p.written ++ rest) =
      ({ s with items := p.lead ++ s.items } : State).read?
        (grouped p.isExtension p.text ++ rest) := by
  have hv : s.flags.verbose = false := by rw [hs]
  obtain ⟨text, isExtension⟩ := p
  cases isExtension with
  | false => rfl
  | true =>
    have hm (t : Text) : readMove s.flags '\\' ('.' :: t) = .ok (.item (.char '.'), t) := by
      rw [hs]
      rfl
    exact State.read?_cons hv (hm _)

theorem reads (h : WellGrouped p.text) (hp : p.group?.isSome) (hs : AmongParts quoted s)
    (rest : Text) :
    (p.state.names.Disjoint s.names → s.read? (p.written ++ rest) = (p.addTo s).read? rest) ∧
      (¬ p.state.names.Disjoint s.names → s.read? (p.written ++ rest) = none) := by
  obtain ⟨q, hq⟩ := Option.isSome_iff_exists.mp hp
  have hstate : p.state = q := by rw [state, hq]; rfl
  rw [read?_written hs.flags, addTo, hstate]
  exact read?_of_groupState? (s := { s with items := p.lead ++ s.items }) h hq hs.flags
    hs.length_outer

theorem breaks (h : WellGrouped p.text) (hp : p.group? = none) (hs : AmongParts quoted s)
    (hline : '\n' ∉ rest) (hr : s.read? (p.written ++ rest) = some s₁) : s₁.outer ≠ [] := by
  rw [read?_written hs.flags] at hr
  exact outer_ne_nil_of_groupState? (s := { s with items := p.lead ++ s.items }) h hp hs.flags
    hs.length_outer hline hr

end PatternPart

/-! ### Behind the directory -/

def directoryItem (quoted : Bool) (style : PathStyle) : Draft :=
  let set := if quoted then .complement (.union .empty (.single '"')) else .complement .space
  let separator := match style with
    | .posix => '/'
    | .windows => '\\'
  .loop 0 (some 1) true
    (.concat [.loop 0 none true (.ofAtom (.set set)), .ofAtom (.char separator)])

/-- In front of the parts. -/
def pathStart (quoted : Bool) (style : PathStyle) : State where
  items := [directoryItem quoted style]
  outer := [pathFrame quoted]
  groups := 1

theorem amongParts_pathStart (quoted : Bool) (style : PathStyle) :
    AmongParts quoted (pathStart quoted style) :=
  ⟨rfl, rfl, rfl⟩

def pathText (quoted : Bool) (style : PathStyle) (name : Text) : Text :=
  if quoted then ToolPatterns.quotedText style name else ToolPatterns.unquotedText style name

def pathEnd (quoted : Bool) : Text :=
  if quoted then ")\"\\s" else ")\\s"

def pathOpening (quoted : Bool) (style : PathStyle) : Text :=
  (if quoted then "^\"((?:[^\"]*" else "^((?:\\S*").toList ++ style.separator ++ ")?".toList

theorem pathText_eq (quoted : Bool) (style : PathStyle) (name : Text) :
    pathText quoted style name = pathOpening quoted style ++ (name ++ pathEnd quoted) := by
  unfold pathText pathOpening pathEnd ToolPatterns.quotedText ToolPatterns.unquotedText
  cases quoted <;>
    simp only [Bool.false_eq_true, ↓reduceIte] <;>
    exact List.append_assoc _ _ _

theorem read?_pathOpening {c : Char} (hc : c ≠ '?') (quoted : Bool) (style : PathStyle) (t : Text) :
    ({} : State).read? (pathOpening quoted style ++ c :: t) =
      (pathStart quoted style).read? (c :: t) := by
  have hgreed : repetition {} 0 (some 1) (c :: t) = (.loop 0 (some 1) true, c :: t) := by
    simp [repetition, readGreed, hc]
  have hloop {s : State} (hs : s.flags = {}) {item : Draft} {items : List Draft}
      (hi : s.items = item :: items) : s.read? ('?' :: c :: t) =
        ({ s with items := .loop 0 (some 1) true item :: items } : State).read? (c :: t) := by
    have hm : readMove s.flags '?' (c :: t) = .ok (.loop 0 (some 1) true, c :: t) := by
      rw [hs]
      exact congrArg _ hgreed
    exact State.read?_step (by rw [hs]) hm (by simp only [State.move?, hi])
  cases quoted <;> cases style <;>
    simp only [pathOpening, PathStyle.separator, String.reduceToList, List.cons_append,
      List.nil_append, Bool.false_eq_true, ↓reduceIte]
  -- One move after the other; only the last one looks at what follows it.
  · iterate 7 refine Eq.trans (State.read?_step rfl rfl rfl) ?_
    exact hloop rfl rfl
  · iterate 7 refine Eq.trans (State.read?_step rfl rfl rfl) ?_
    exact hloop rfl rfl
  · iterate 8 refine Eq.trans (State.read?_step rfl rfl rfl) ?_
    exact hloop rfl rfl
  · iterate 8 refine Eq.trans (State.read?_step rfl rfl rfl) ?_
    exact hloop rfl rfl

/-- Behind the whole pattern. -/
def pathDone (quoted : Bool) (s : State) : State where
  items := .ofAtom (.set .space) ::
    (quoteItems quoted ++ .capture 1 s.level :: (pathFrame quoted).items)
  groups := s.groups
  names := s.names

theorem AmongParts.read?_pathEnd {quoted : Bool} {s : State} (h : AmongParts quoted s) :
    s.read? (pathEnd quoted) = some (pathDone quoted s) := by
  obtain ⟨flags, branches, items, outer, groups, names⟩ := s
  obtain ⟨hf, hb, ho⟩ := h
  dsimp only at hf hb ho
  subst hf hb ho
  cases quoted <;> simp only [pathEnd, String.reduceToList, Bool.false_eq_true, ↓reduceIte]
  · iterate 2 refine Eq.trans (State.read?_step rfl rfl rfl) ?_
    exact State.read?_nil _
  · iterate 3 refine Eq.trans (State.read?_step rfl rfl rfl) ?_
    exact State.read?_nil _

/-! ### Nesting and size -/

def aroundSize (quoted : Bool) : Nat :=
  if quoted then 320 else 256

/-- The bytes for what has been read of the group under way. -/
def contentSize (s : State) : Nat :=
  Draft.totalSize s.items + s.tableSize

theorem length_pathDone_le (quoted : Bool) (s : State) :
    2 ≤ (pathDone quoted s).items.length := by
  simp [pathDone]
  omega

theorem size_pathDone {quoted : Bool} {s : State} (hb : s.branches = [])
    (hl : 2 ≤ s.items.length) :
    (pathDone quoted s).size = aroundSize quoted + contentSize s := by
  have hcapture : (Draft.capture 1 s.level).size = 64 + Draft.totalSize s.items :=
    congrArg (64 + ·) (State.size_level hb hl)
  have hquote : Draft.totalSize (quoteItems quoted) = if quoted then 32 else 0 := by
    cases quoted <;> rfl
  have hspace : (Draft.ofAtom (.set .space)).size = 48 := rfl
  have hstart : Draft.totalSize [.ofAtom (.look .textStart)] = 32 := rfl
  have htable : (pathDone quoted s).tableSize = s.tableSize := rfl
  have hlevel : (pathDone quoted s).level.size =
      144 + 2 * Draft.totalSize (quoteItems quoted) + Draft.totalSize s.items := by
    rw [State.size_level rfl (length_pathDone_le quoted s)]
    simp only [pathDone, pathFrame, Draft.totalSize_append, Draft.totalSize_cons, hstart,
      hcapture, hspace]
    omega
  rw [State.size, hlevel, htable, hquote, aroundSize, contentSize, stateSize]
  split <;> omega

theorem nesting_pathDone_le_iff {quoted : Bool} {s : State} (hb : s.branches = [])
    (hl : 2 ≤ s.items.length) :
    (pathDone quoted s).level.nesting ≤ nestingLimit ↔
      ∀ item ∈ s.items, item.nesting + 3 ≤ nestingLimit := by
  have hquote : ∀ item ∈ quoteItems quoted, item.nesting ≤ 49 := by
    cases quoted <;> simp [quoteItems, Draft.ofAtom]
  have hbody : (Draft.capture 1 s.level).nesting ≤ 49 ↔ s.level.nesting ≤ 47 + 1 :=
    Nat.add_le_add_iff_right
  rw [show nestingLimit = 49 + 1 from rfl,
    State.nesting_level_le_iff rfl (length_pathDone_le quoted s)]
  simp only [pathDone, pathFrame, List.forall_mem_cons, List.forall_mem_append, hbody,
    State.nesting_level_le_iff hb hl, Draft.ofAtom, Nat.zero_le, true_and, and_iff_right hquote]
  simp

theorem complete_pathDone_iff {quoted : Bool} {s : State} (hb : s.branches = [])
    (hl : 2 ≤ s.items.length) :
    (pathDone quoted s).Complete ↔ (∀ item ∈ s.items, item.nesting + 3 ≤ nestingLimit) ∧
      aroundSize quoted + contentSize s ≤ sizeLimit := by
  rw [← nesting_pathDone_le_iff hb hl, ← size_pathDone hb hl]
  constructor
  · rintro ⟨-, hn, hc⟩
    exact ⟨hn, hc⟩
  · rintro ⟨hn, hc⟩
    exact ⟨rfl, hn, hc⟩

namespace PatternPart

variable {quoted : Bool} {s : State} {parts : List PatternPart}

theorem nesting_addTo_le_iff (p : PatternPart) {n : Nat} :
    (∀ item ∈ (p.addTo s).items, item.nesting ≤ n) ↔
      p.nesting ≤ n ∧ ∀ item ∈ s.items, item.nesting ≤ n := by
  have hlead : ∀ item ∈ p.lead, item.nesting ≤ n := by
    unfold lead
    split <;> simp [Draft.ofAtom]
  simp only [addTo, State.attach, List.forall_mem_cons, List.forall_mem_append, nesting,
    and_iff_right hlead]
  rfl

theorem contentSize_addTo (p : PatternPart) :
    contentSize (p.addTo s) = p.size + contentSize s := by
  have hitems : Draft.totalSize (p.addTo s).items =
      p.state.level.size + (Draft.totalSize p.lead + Draft.totalSize s.items) := by
    simp [addTo, State.attach, Draft.shift]
  rw [contentSize, hitems, addTo, State.tableSize_attach, size, contentSize]
  change _ + (p.state.tableSize + s.tableSize) = _
  omega

theorem pairwise_addTo {p : PatternPart} {names : List (List Text)} :
    (s.names :: p.state.names :: names).Pairwise List.Disjoint ↔
      p.state.names.Disjoint s.names ∧ ((p.addTo s).names :: names).Pairwise List.Disjoint := by
  have hnames : (p.addTo s).names = p.state.names ++ s.names := rfl
  have hcomm : s.names.Disjoint p.state.names ↔ p.state.names.Disjoint s.names :=
    List.disjoint_comm
  simp only [List.pairwise_cons, List.forall_mem_cons, hnames, hcomm, List.disjoint_append_left,
    forall_and]
  tauto

def addAll (s : State) (parts : List PatternPart) : State :=
  parts.foldl (fun s p => p.addTo s) s

theorem addAll_cons (s : State) (p : PatternPart) (parts : List PatternPart) :
    addAll s (p :: parts) = addAll (p.addTo s) parts :=
  rfl

theorem read?_flatMap (hparts : ∀ p ∈ parts, WellGrouped p.text ∧ p.group?.isSome)
    (hs : AmongParts quoted s) (rest : Text) :
    ((s.names :: parts.map (·.state.names)).Pairwise List.Disjoint →
        s.read? (parts.flatMap written ++ rest) = (addAll s parts).read? rest) ∧
      (¬ (s.names :: parts.map (·.state.names)).Pairwise List.Disjoint →
        s.read? (parts.flatMap written ++ rest) = none) := by
  induction parts generalizing s with
  | nil => simp [addAll]
  | cons p parts ih =>
    obtain ⟨⟨hb, hp⟩, hparts⟩ := List.forall_mem_cons.mp hparts
    obtain ⟨hread, hnone⟩ := reads hb hp hs (parts.flatMap written ++ rest)
    obtain ⟨ihread, ihnone⟩ := ih hparts (amongParts_addTo hs p)
    rw [List.map_cons, pairwise_addTo, List.flatMap_cons, List.append_assoc]
    refine ⟨fun ⟨hp, hn⟩ => (hread hp).trans (ihread hn), fun hn => ?_⟩
    by_cases hp : p.state.names.Disjoint s.names
    · exact (hread hp).trans (ihnone fun h => hn ⟨hp, h⟩)
    · exact hnone hp

theorem amongParts_addAll (h : AmongParts quoted s) (parts : List PatternPart) :
    AmongParts quoted (addAll s parts) := by
  induction parts generalizing s with
  | nil => exact h
  | cons p parts ih => exact ih (amongParts_addTo h p)

theorem length_addAll_le (s : State) (parts : List PatternPart) :
    s.items.length + parts.length ≤ (addAll s parts).items.length := by
  induction parts generalizing s with
  | nil => exact le_rfl
  | cons p parts ih =>
    have hlen : s.items.length + 1 ≤ (p.addTo s).items.length := by
      simp [addTo, State.attach]
    have hall := ih (p.addTo s)
    rw [List.length_cons, addAll_cons]
    omega

theorem nesting_addAll_le_iff (s : State) (parts : List PatternPart) {n : Nat} :
    (∀ item ∈ (addAll s parts).items, item.nesting ≤ n) ↔
      (∀ p ∈ parts, p.nesting ≤ n) ∧ ∀ item ∈ s.items, item.nesting ≤ n := by
  induction parts generalizing s with
  | nil => simp [addAll]
  | cons p parts ih =>
    rw [addAll_cons, ih, nesting_addTo_le_iff, List.forall_mem_cons]
    tauto

theorem contentSize_addAll (s : State) (parts : List PatternPart) :
    contentSize (addAll s parts) = (parts.map (·.size)).sum + contentSize s := by
  induction parts generalizing s with
  | nil => simp [addAll]
  | cons p parts ih =>
    rw [addAll_cons, ih, contentSize_addTo, List.map_cons, List.sum_cons]
    omega

theorem exists_cons_of_flatMap (h : parts ≠ []) :
    ∃ c t, c ≠ '?' ∧ parts.flatMap written = c :: t := by
  obtain ⟨⟨text, isExtension⟩, parts, rfl⟩ := List.exists_cons_of_ne_nil h
  cases isExtension with
  | false => exact ⟨'(', _, by decide, rfl⟩
  | true => exact ⟨'\\', _, by decide, rfl⟩

end PatternPart

/-! ### The whole pattern -/

section

variable {quoted : Bool} {parts : List PatternPart} {p : PatternPart}

theorem read?_pathText (h : parts ≠ []) (quoted : Bool) (style : PathStyle) :
    ({} : State).read? (pathText quoted style (parts.flatMap PatternPart.written)) =
      (pathStart quoted style).read? (parts.flatMap PatternPart.written ++ pathEnd quoted) := by
  obtain ⟨c, t, hc, ht⟩ := PatternPart.exists_cons_of_flatMap h
  rw [pathText_eq, ht]
  exact read?_pathOpening hc quoted style (t ++ pathEnd quoted)

theorem complete_addAll_iff (h : parts ≠ []) (quoted : Bool) (style : PathStyle) :
    (pathDone quoted (PatternPart.addAll (pathStart quoted style) parts)).Complete ↔
      (∀ p ∈ parts, p.nesting + 3 ≤ nestingLimit) ∧
        pathSize quoted + (parts.map (·.size)).sum ≤ sizeLimit := by
  have hlen : 2 ≤ (PatternPart.addAll (pathStart quoted style) parts).items.length := by
    have hparts := List.length_pos_iff.mpr h
    have hall := PatternPart.length_addAll_le (pathStart quoted style) parts
    have hstart : (pathStart quoted style).items.length = 1 := rfl
    omega
  have hdirectory : ∀ item ∈ (pathStart quoted style).items, item.nesting ≤ 47 := by
    cases quoted <;> cases style <;> decide
  have hsize : aroundSize quoted + contentSize (pathStart quoted style) = pathSize quoted := by
    cases quoted <;> cases style <;> rfl
  rw [complete_pathDone_iff (PatternPart.amongParts_addAll (amongParts_pathStart quoted style)
    parts).branches hlen, PatternPart.contentSize_addAll, ← hsize]
  have hnesting (n : Nat) : n + 3 ≤ nestingLimit ↔ n ≤ 47 := Nat.add_le_add_iff_right
  simp only [hnesting, PatternPart.nesting_addAll_le_iff, and_iff_left hdirectory]
  refine and_congr_right fun _ => ?_
  rw [← Nat.add_assoc, Nat.add_right_comm]

theorem not_isOk_ofText_pathText (hb : ∀ q ∈ parts ++ [p], WellGrouped q.text)
    (hc : ∀ q ∈ parts, q.group?.isSome) (hp : p.group? = none) (quoted : Bool) (style : PathStyle) :
    ¬ (ofText (pathText quoted style ((parts ++ [p]).flatMap PatternPart.written))).isOk := by
  rw [isOk_ofText_iff, read?_pathText (by simp)]
  rintro ⟨s, hs, hdone⟩
  have hstart := amongParts_pathStart quoted style
  obtain ⟨hread, hnone⟩ := PatternPart.read?_flatMap
    (fun q hq => ⟨hb q (List.mem_append_left _ hq), hc q hq⟩) hstart (p.written ++ pathEnd quoted)
  rw [List.flatMap_append, List.flatMap_singleton, List.append_assoc] at hs
  by_cases hnames : ((pathStart quoted style).names :: parts.map (·.state.names)).Pairwise
      List.Disjoint
  · have hall := PatternPart.amongParts_addAll hstart parts
    have hline : '\n' ∉ pathEnd quoted := by cases quoted <;> decide
    exact PatternPart.breaks (hb p (by simp)) hp hall hline ((hread hnames).symm.trans hs)
      hdone.outer
  · cases hs.symm.trans (hnone hnames)

/-- A pattern with parts that can be closed, but perhaps for the last one. -/
theorem isOk_ofText_pathText_iff (hb : ∀ q ∈ parts ++ [p], WellGrouped q.text)
    (hc : ∀ q ∈ parts, q.group?.isSome) (quoted : Bool) (style : PathStyle) :
    (ofText (pathText quoted style ((parts ++ [p]).flatMap PatternPart.written))).isOk ↔
      Composes quoted (parts ++ [p]) := by
  cases hp : p.group? with
  | none =>
    refine iff_of_false (not_isOk_ofText_pathText hb hc hp quoted style) fun h => ?_
    have hclosed := h.closed p (by simp)
    rw [hp] at hclosed
    cases hclosed
  | some q =>
    have hne : parts ++ [p] ≠ [] := by simp
    have hstart := amongParts_pathStart quoted style
    have hclosed : ∀ q ∈ parts ++ [p], q.group?.isSome := by
      simpa [hp, or_imp, forall_and] using hc
    have hfresh : ((pathStart quoted style).names :: (parts ++ [p]).map (·.state.names)).Pairwise
        List.Disjoint ↔ ((parts ++ [p]).map (·.state.names)).Pairwise List.Disjoint :=
      List.pairwise_cons.trans (and_iff_right fun _ _ => List.disjoint_nil_left _)
    obtain ⟨hread, hnone⟩ := PatternPart.read?_flatMap
      (fun q hq => ⟨hb q hq, hclosed q hq⟩) hstart (pathEnd quoted)
    rw [hfresh] at hread hnone
    rw [isOk_ofText_iff, read?_pathText hne]
    by_cases hnames : ((parts ++ [p]).map (·.state.names)).Pairwise List.Disjoint
    · rw [hread hnames,
        (PatternPart.amongParts_addAll hstart (parts ++ [p])).read?_pathEnd]
      simp only [Option.some.injEq, exists_eq_left', complete_addAll_iff hne]
      exact ⟨fun ⟨hn, hk⟩ => ⟨hclosed, hnames, hn, hk⟩, fun h => ⟨h.nesting, h.size⟩⟩
    · rw [hnone hnames]
      exact iff_of_false (by simp) fun h => hnames h.names

end

end SettingsScan
