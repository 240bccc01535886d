import Mathlib.Data.List.Forall2
import SettingsScan.Proofs.Pattern.LetterCase
import SettingsScan.Proofs.Pattern.MoveTail

/-! # A pattern as a part of another one

The text of a pattern is read inside of a group as it is read alone: what it adds is the same, but
for the numbers of its groups. It takes room for its groups, and its group names have to be new.
-/

namespace SettingsScan.Pattern

/-! ### Numbers of groups -/

namespace Node

@[simp] theorem matchesEmpty_shift (k : Nat) (n : Node) :
    (n.shift k).matchesEmpty = n.matchesEmpty := by
  induction n <;> simp_all [shift, matchesEmpty]

@[simp] theorem shift_zero (n : Node) : n.shift 0 = n := by
  induction n <;> simp_all [shift]

theorem shift_concat (k : Nat) (ns : List Node) :
    (concat ns).shift k = concat (ns.map (shift k)) := by
  induction ns with
  | nil => rfl
  | cons n ns ih =>
    cases ns with
    | nil => rfl
    | cons m ns => exact congrArg (seq _) ih

theorem shift_choice (k : Nat) (ns : List Node) :
    (choice ns).shift k = choice (ns.map (shift k)) := by
  induction ns with
  | nil => rfl
  | cons n ns ih =>
    cases ns with
    | nil => rfl
    | cons m ns => exact congrArg (alt _) ih

end Node

namespace Draft

def shift (k : Nat) (draft : Draft) : Draft :=
  { draft with node := draft.node.shift k }

@[simp] theorem shift_zero (draft : Draft) : draft.shift 0 = draft := by
  simp [shift]

theorem deepest_shift (k : Nat) (items : List Draft) :
    deepest (items.map (shift k)) = deepest items :=
  List.foldl_map

theorem totalSize_shift (k : Nat) (items : List Draft) :
    totalSize (items.map (shift k)) = totalSize items := by
  induction items with
  | nil => rfl
  | cons item items ih => exact congrArg (item.size + ·) ih

theorem map_node_shift (k : Nat) (items : List Draft) :
    (items.map (shift k)).map (·.node) = (items.map (·.node)).map (Node.shift k) := by
  rw [List.map_map, List.map_map]
  rfl

theorem shift_ofAtom (k : Nat) (atom : Atom) : (ofAtom atom).shift k = ofAtom atom := by
  cases atom <;> rfl

theorem concat_of_two (a b : Draft) (items : List Draft) :
    concat (a :: b :: items) =
      { node := .concat ((a :: b :: items).map (·.node))
        nesting := deepest (a :: b :: items) + 1
        size := totalSize (a :: b :: items) } :=
  rfl

theorem choice_of_two (a b : Draft) (branches : List Draft) :
    choice (a :: b :: branches) =
      { node := .choice ((a :: b :: branches).map (·.node))
        nesting := deepest (a :: b :: branches) + 1
        size := splitSize (branches.length + 2) + totalSize (a :: b :: branches) + stateSize } :=
  rfl

theorem shift_concat (k : Nat) (items : List Draft) :
    (concat items).shift k = concat (items.map (shift k)) := by
  match items with
  | [] => rfl
  | [item] => rfl
  | a :: b :: items =>
    rw [List.map_cons, List.map_cons, concat_of_two, concat_of_two, ← List.map_cons (f := shift k),
      ← List.map_cons, shift, Node.shift_concat, map_node_shift, deepest_shift, totalSize_shift]

theorem shift_choice (k : Nat) (branches : List Draft) :
    (choice branches).shift k = choice (branches.map (shift k)) := by
  match branches with
  | [] => rfl
  | [branch] => rfl
  | a :: b :: branches =>
    rw [List.map_cons, List.map_cons, choice_of_two, choice_of_two, ← List.map_cons,
      ← List.map_cons, List.length_map, shift, Node.shift_choice, map_node_shift, deepest_shift,
      totalSize_shift]

theorem loopSize_shift (k least : Nat) (most : Option Nat) (body : Draft) :
    loopSize least most (body.shift k) = loopSize least most body := by
  cases most <;> simp only [loopSize, shift, Node.matchesEmpty_shift]

theorem shift_loop (k least : Nat) (most : Option Nat) (greedy : Bool) (body : Draft) :
    (loop least most greedy body).shift k = loop least most greedy (body.shift k) := by
  unfold loop
  rw [loopSize_shift]
  split
  · rfl
  · split <;> rfl

end Draft

def Frame.shift (k : Nat) (frame : Frame) : Frame :=
  { frame with
    capture := frame.capture.map (k + ·)
    branches := frame.branches.map (.shift k)
    items := frame.items.map (.shift k) }

namespace State

variable {s s' context : State} {m : Move} {k : Nat}

/-- The state inside of a group whose reading has been started. -/
def within (s context : State) : State :=
  { flags := s.flags
    branches := s.branches.map (.shift context.groups)
    items := s.items.map (.shift context.groups)
    outer := s.outer.map (.shift context.groups) ++ context.outer
    groups := context.groups + s.groups
    names := s.names ++ context.names }

/-- There is room for so many groups inside of the open ones, and the names are new. -/
structure Admits (context : State) (depth : Nat) (names : List Text) : Prop where
  room : depth + context.outer.length ≤ nestingLimit
  names : names.Disjoint context.names

abbrev Fits (s context : State) : Prop :=
  context.Admits s.outer.length s.names

theorem level_within (s context : State) :
    (s.within context).level = s.level.shift context.groups := by
  unfold level
  rw [Draft.shift_choice, List.map_reverse, List.map_cons, Draft.shift_concat, List.map_reverse]
  rfl

theorem toOption_enter (s : State) (flags : Flags) (capture : Option Nat) :
    (s.enter flags capture).toOption =
      if s.outer.length < nestingLimit then
        some { s with
          flags
          branches := []
          items := []
          outer := { flags := s.flags, capture, branches := s.branches, items := s.items } ::
            s.outer }
      else none := by
  unfold enter
  split
  · rw [if_neg (by omega)]
    rfl
  · rw [if_pos (by omega)]
    rfl

theorem enter_within {flags : Flags} {capture : Option Nat}
    (h : (s.enter flags capture).toOption = some s') (hf : s'.Fits context) :
    ((s.within context).enter flags (capture.map (context.groups + ·))).toOption =
      some (s'.within context) := by
  rw [toOption_enter] at h ⊢
  split at h
  · cases h
    have hroom := hf.room
    rw [if_pos (by simp [within] at hroom ⊢; omega)]
    rfl
  · cases h

theorem enter_within_eq_none {flags : Flags} {capture : Option Nat}
    (h : (s.enter flags capture).toOption = some s') (hs : s.Fits context)
    (hf : ¬ s'.Fits context) (k : Option Nat) :
    ((s.within context).enter flags k).toOption = none := by
  rw [toOption_enter] at h ⊢
  split at h
  · cases h
    rw [if_neg]
    intro hroom
    refine hf ⟨?_, hs.names⟩
    simp [within] at hroom ⊢
    omega
  · cases h

theorem names_enter {flags : Flags} {capture : Option Nat}
    (h : (s.enter flags capture).toOption = some s') : s'.names = s.names := by
  rw [toOption_enter] at h
  split at h
  · cases h
    rfl
  · cases h

theorem exists_of_close (h : s.close.toOption = some s') : ∃ frame outer body,
    s.outer = frame :: outer ∧
      s' = { s with
        flags := frame.flags
        branches := frame.branches
        items := body :: frame.items
        outer } ∧
      body = match frame.capture with
        | some index => .capture index s.level
        | none => s.level := by
  unfold close at h
  cases ho : s.outer with
  | nil =>
    rw [ho] at h
    cases h
  | cons frame outer =>
    rw [ho] at h
    cases h
    exact ⟨frame, outer, _, rfl, rfl, rfl⟩

theorem close_within (h : s.close.toOption = some s') :
    (s.within context).close.toOption = some (s'.within context) := by
  obtain ⟨frame, outer, body, ho, rfl, rfl⟩ := exists_of_close h
  have how : (s.within context).outer =
      frame.shift context.groups :: (outer.map (.shift context.groups) ++ context.outer) := by
    rw [within, ho]
    rfl
  unfold close
  rw [how]
  cases hc : frame.capture with
  | none =>
    simp only [Frame.shift, hc, Option.map_none, level_within]
    rfl
  | some index =>
    simp only [Frame.shift, hc, Option.map_some, level_within]
    rfl

def number (s : State) (name : Option Text) : State :=
  { s with groups := s.groups + 1, names := name.toList ++ s.names }

theorem move?_capture_of_new {name : Option Text} (h : name.toList.Disjoint s.names) :
    s.move? (.capture name) =
      ((s.number name).enter s.flags (some (s.groups + 1))).toOption := by
  cases name with
  | none => rfl
  | some name =>
    have hn : name ∉ s.names := by simpa using h
    simp [move?, hn, number]

theorem move?_capture_of_known {name : Option Text} (h : ¬ name.toList.Disjoint s.names) :
    s.move? (.capture name) = none := by
  cases name with
  | none => simp at h
  | some name =>
    have hn : name ∈ s.names := by simpa using h
    simp [move?, hn]

theorem number_within (s context : State) (name : Option Text) :
    (s.within context).number name = (s.number name).within context := by
  simp [number, within, Nat.add_assoc]

/-- A move inside of the group has the same effect, if what it opens fits in. -/
theorem move?_within (h : s.move? m = some s') (hf : s'.Fits context) :
    (s.within context).move? m = some (s'.within context) := by
  cases m with
  | item atom =>
    cases h
    simp [move?, push, within, Draft.shift_ofAtom]
  | bar =>
    cases h
    simp [move?, within, Draft.shift_concat]
  | close => exact close_within h
  | capture name =>
    by_cases hn : name.toList.Disjoint s.names
    · rw [move?_capture_of_new hn] at h
      have hnew : name.toList.Disjoint (s.within context).names := by
        have hnames := hf.names
        rw [names_enter h] at hnames
        exact List.disjoint_append_right.mpr ⟨hn, (List.disjoint_append_left.mp hnames).1⟩
      rw [move?_capture_of_new hnew, number_within]
      exact enter_within h hf
    · rw [move?_capture_of_known hn] at h
      cases h
  | group flags => exact enter_within h hf
  | setFlags flags =>
    cases h
    rfl
  | loop least most greedy =>
    cases hi : s.items with
    | nil => simp [move?, hi] at h
    | cons item items =>
      simp only [move?, hi] at h
      cases h
      simp [move?, within, hi, Draft.shift_loop]

/-- A move that opens what does not fit in is refused. -/
theorem move?_within_eq_none (h : s.move? m = some s') (hs : s.Fits context)
    (hf : ¬ s'.Fits context) : (s.within context).move? m = none := by
  cases m with
  | item atom | bar | setFlags =>
    cases h
    exact absurd ⟨hs.room, hs.names⟩ hf
  | close =>
    obtain ⟨frame, outer, body, ho, rfl, -⟩ := exists_of_close h
    have hroom := hs.room
    simp only [ho, List.length_cons] at hroom
    refine absurd ⟨?_, hs.names⟩ hf
    dsimp only
    omega
  | capture name =>
    by_cases hnew : name.toList.Disjoint (s.within context).names
    · obtain ⟨hn, hcontext⟩ := List.disjoint_append_right.mp hnew
      rw [move?_capture_of_new hn] at h
      rw [move?_capture_of_new hnew, number_within]
      have hnumber : (s.number name).Fits context :=
        ⟨hs.room, List.disjoint_append_left.mpr ⟨hcontext, hs.names⟩⟩
      exact enter_within_eq_none h hnumber hf _
    · exact move?_capture_of_known hnew
  | group flags => exact enter_within_eq_none h hs hf _
  | loop least most greedy =>
    cases hi : s.items with
    | nil => simp [move?, hi] at h
    | cons item items =>
      simp only [move?, hi] at h
      cases h
      exact absurd ⟨hs.room, hs.names⟩ hf

end State

/-! ### Letter case -/

structure Frame.Alike (frame frame' : Frame) : Prop where
  flags : frame.flags.Alike frame'.flags
  items : frame.items.length = frame'.items.length

namespace State

variable {s s' s₁ : State} {m m' : Move}

/-- States in which the same moves are possible, but for letter case. -/
structure Alike (s s' : State) : Prop where
  flags : s.flags.Alike s'.flags
  items : s.items.length = s'.items.length
  outer : List.Forall₂ Frame.Alike s.outer s'.outer
  names : s.names = s'.names

namespace Alike

theorem start {flags : Flags} (h : Flags.Alike {} flags) : Alike {} { flags } :=
  ⟨h, rfl, .nil, rfl⟩

theorem number (h : s.Alike s') (name : Option Text) : (s.number name).Alike (s'.number name) :=
  ⟨h.flags, h.items, h.outer, congrArg (name.toList ++ ·) h.names⟩

theorem enter {flags flags' : Flags} {capture capture' : Option Nat} (h : s.Alike s')
    (hf : flags.Alike flags') (hs : (s.enter flags capture).toOption = some s₁) :
    ∃ s₁', (s'.enter flags' capture').toOption = some s₁' ∧ s₁.Alike s₁' := by
  rw [toOption_enter] at hs ⊢
  split at hs
  · rename_i hroom
    cases hs
    rw [if_pos (List.Forall₂.length_eq h.outer ▸ hroom)]
    exact ⟨_, rfl, hf, rfl, .cons ⟨h.flags, h.items⟩ h.outer, h.names⟩
  · cases hs

theorem close (h : s.Alike s') (hs : s.close.toOption = some s₁) :
    ∃ s₁', s'.close.toOption = some s₁' ∧ s₁.Alike s₁' := by
  obtain ⟨frame, outer, body, ho, rfl, -⟩ := exists_of_close hs
  have houter := h.outer
  rw [ho] at houter
  unfold State.close
  generalize s'.outer = outer' at houter
  cases houter with
  | cons hframe houter =>
    exact ⟨_, rfl, hframe.flags, congrArg (· + 1) hframe.items, houter, h.names⟩

theorem move? (h : s.Alike s') (hm : m.Alike m') (hs : s.move? m = some s₁) :
    ∃ s₁', s'.move? m' = some s₁' ∧ s₁.Alike s₁' := by
  cases hm with
  | item a a' =>
    cases hs
    exact ⟨_, rfl, h.flags, congrArg (· + 1) h.items, h.outer, h.names⟩
  | group f f' hf => exact h.enter hf hs
  | setFlags f f' hf =>
    cases hs
    exact ⟨_, rfl, hf, h.items, h.outer, h.names⟩
  | same =>
    cases m with
    | item atom =>
      cases hs
      exact ⟨_, rfl, h.flags, congrArg (· + 1) h.items, h.outer, h.names⟩
    | bar =>
      cases hs
      exact ⟨_, rfl, h.flags, rfl, h.outer, h.names⟩
    | close => exact h.close hs
    | capture name =>
      by_cases hn : name.toList.Disjoint s.names
      · rw [move?_capture_of_new hn] at hs
        rw [move?_capture_of_new (h.names ▸ hn)]
        exact (h.number name).enter h.flags hs
      · rw [move?_capture_of_known hn] at hs
        cases hs
    | group flags => exact h.enter (.refl flags) hs
    | setFlags flags =>
      cases hs
      exact ⟨_, rfl, .refl flags, h.items, h.outer, h.names⟩
    | loop least most greedy =>
      obtain ⟨item, items, hi⟩ : ∃ item items, s.items = item :: items := by
        cases hi : s.items with
        | nil => simp [State.move?, hi] at hs
        | cons item items => exact ⟨item, items, rfl⟩
      obtain ⟨item', items', hi'⟩ : ∃ item items, s'.items = item :: items := by
        have hlen := h.items
        rw [hi] at hlen
        exact List.exists_cons_of_length_eq_add_one hlen.symm
      have hlen := h.items
      simp only [State.move?, hi] at hs
      cases hs
      simp only [State.move?, hi']
      refine ⟨_, rfl, h.flags, ?_, h.outer, h.names⟩
      rwa [hi, hi'] at hlen

end Alike

theorem names_subset_of_move? (h : s.move? m = some s₁) : s.names ⊆ s₁.names := by
  cases m with
  | item | bar | setFlags =>
    cases h
    exact List.Subset.refl _
  | close =>
    obtain ⟨frame, outer, body, ho, rfl, -⟩ := exists_of_close h
    exact List.Subset.refl _
  | capture name =>
    by_cases hn : name.toList.Disjoint s.names
    · rw [move?_capture_of_new hn] at h
      rw [names_enter h]
      exact List.subset_append_right _ _
    · rw [move?_capture_of_known hn] at h
      cases h
  | group flags =>
    rw [names_enter h]
    exact List.Subset.refl _
  | loop least most greedy =>
    cases hi : s.items with
    | nil => simp [move?, hi] at h
    | cons item items =>
      simp only [move?, hi] at h
      cases h
      exact List.Subset.refl _

/-! ### Running through a text inside of a group -/

/-- Inside of a group, what is left of its text leads from one state to the other, if the group
admits its groups and their names. The text is given by what follows the closing parenthesis;
if it is not closed, it ends in a comment. -/
structure Reaches (s : State) (text : Text → Text) (q : State) (depth : Nat) (closed : Bool) :
    Prop where
  room : s.outer.length ≤ depth
  names : s.names ⊆ q.names
  reads : ∀ context r, s.Fits context → (closed = false → '\n' ∉ r) →
    context.Admits depth q.names → (s.within context).read? (text r) =
      (q.within context).read? (if closed then ')' :: r else [])
  refuses : ∀ context r, s.Fits context → (closed = false → '\n' ∉ r) →
    ¬ context.Admits depth q.names → (s.within context).read? (text r) = none

/-- The text is refused inside of any group. -/
def Refuses (s : State) (t : Text) : Prop :=
  ∀ context r, s.Fits context → (s.within context).read? (t ++ ')' :: r) = none

theorem read?_of_skip {t u : Text} (h : s.flags.skip t = s.flags.skip u) :
    s.read? t = s.read? u := by
  cases hu : s.flags.skip u with
  | nil => rw [read?_of_skip_eq_nil (h.trans hu), read?_of_skip_eq_nil hu]
  | cons c v => rw [read?_of_skip_eq_cons (h.trans hu), read?_of_skip_eq_cons hu]

theorem read?_nil (s : State) : s.read? [] = some s :=
  read?_of_skip_eq_nil (Flags.skip_nil _)

theorem skip_paren (flags : Flags) (r : Text) : flags.skip (')' :: r) = ')' :: r := by
  cases hv : flags.verbose with
  | false => exact Flags.skip_of_not_verbose hv _
  | true =>
    rw [Flags.skip_of_verbose hv]
    rfl

theorem reaches_of_skip {t : Text} (h : s.flags.skip t = []) :
    ∃ closed, s.Reaches (t ++ ')' :: ·) s s.outer.length closed := by
  rcases s.flags.skip_closing t with ht | ⟨-, ht⟩
  · refine ⟨true, le_rfl, List.Subset.refl _, fun context r _ _ _ => ?_, fun _ _ hs _ hn => ?_⟩
    · refine read?_of_skip ?_
      change s.flags.skip _ = s.flags.skip _
      rw [ht, h, if_pos rfl, skip_paren]
      rfl
    · exact absurd hs hn
  · refine ⟨false, le_rfl, List.Subset.refl _, fun context r _ hr _ => ?_, fun _ _ hs _ hn => ?_⟩
    · refine read?_of_skip ?_
      change s.flags.skip _ = s.flags.skip _
      rw [ht, skipIgnored_of_not_mem (hr rfl)]
      simp
    · exact absurd hs hn

/-- A move that opens what does not fit in ends the reading. -/
theorem bind_move?_within {context : State} {read : State → Option State}
    (hs : s.move? m = some s₁) (hf : s.Fits context)
    (h : s₁.Fits context → read (s₁.within context) = none) :
    ((s.within context).move? m).bind read = none := by
  by_cases hf₁ : s₁.Fits context
  · rw [move?_within hs hf₁]
    exact h hf₁
  · rw [move?_within_eq_none hs hf hf₁]
    rfl

theorem reaches_of_move {c : Char} {t u : Text} {next : Text → Text} {q : State} {depth : Nat}
    {closed : Bool} (ht : s.flags.skip t = c :: u) (hs : s.move? m = some s₁)
    (hm : ∀ r, (closed = false → '\n' ∉ r) →
      readMove s.flags c (u ++ ')' :: r) = .ok (m, next r))
    (hq : s₁.Reaches next q depth closed) :
    s.Reaches (t ++ ')' :: ·) q (max s.outer.length depth) closed := by
  have hread {context : State} {r : Text} (hr : closed = false → '\n' ∉ r) :
      (s.within context).read? (t ++ ')' :: r) =
        ((s.within context).move? m).bind (·.read? (next r)) :=
    read?_of_readMove (s := s.within context) (Flags.skip_append_cons ht _) (hm r hr)
  have hnames : s.names ⊆ q.names := fun n hn => hq.names (names_subset_of_move? hs hn)
  have hfits {context : State} (h : context.Admits depth q.names) : s₁.Fits context :=
    ⟨(Nat.add_le_add_right hq.room _).trans h.room, fun n hn => h.names (hq.names hn)⟩
  refine ⟨le_max_left _ _, hnames, fun context r hf hr ha => ?_, fun context r hf hr ha => ?_⟩
  · have ha : context.Admits depth q.names :=
      ⟨(Nat.add_le_add_right (le_max_right _ _) _).trans ha.room, ha.names⟩
    rw [hread hr, move?_within hs (hfits ha)]
    exact hq.reads context r (hfits ha) hr ha
  · have ha : ¬ context.Admits depth q.names := fun h =>
      ha ⟨by have := h.room; have := hf.room; omega, h.names⟩
    rw [hread hr]
    exact bind_move?_within hs hf fun hf₁ => hq.refuses context r hf₁ hr ha

theorem refuses_of_move {c : Char} {t u v : Text} (ht : s.flags.skip t = c :: u)
    (hs : s.move? m = some s₁)
    (hm : ∀ r, readMove s.flags c (u ++ ')' :: r) = .ok (m, v ++ ')' :: r))
    (hq : s₁.Refuses v) : s.Refuses t := by
  intro context r hf
  rw [read?_of_readMove (s := s.within context) (Flags.skip_append_cons ht _) (hm r)]
  exact bind_move?_within hs hf fun hf₁ => hq context r hf₁

theorem refuses_of_set {t u : Text} (ht : s.flags.skip t = '[' :: u)
    (hu : readSet s.flags u = .error .invalidSetItem) : s.Refuses t := by
  intro context r _
  have hrefused : readMove (s.within context).flags '[' (u ++ ')' :: r) = .error .invalidSetItem :=
    readMove_refused hu r
  rw [read?_of_skip_eq_cons (s := s.within context) (Flags.skip_append_cons ht _), hrefused]
  rfl

/-- A move behind which a comment swallows the parenthesis is the last one. -/
theorem reaches_of_swallowed {c : Char} {t u : Text} (ht : s.flags.skip t = c :: u)
    (hs : s.move? m = some s₁)
    (hm : ∀ r, '\n' ∉ r → readMove s.flags c (u ++ ')' :: r) = .ok (m, [])) :
    s.Reaches (t ++ ')' :: ·) s₁ (max s.outer.length s₁.outer.length) false := by
  have hend : s₁.Reaches (fun _ => []) s₁ s₁.outer.length false :=
    ⟨le_rfl, List.Subset.refl _, fun _ _ _ _ _ => rfl, fun _ _ hf _ hn => absurd hf hn⟩
  exact reaches_of_move ht hs (fun r hr => hm r (hr rfl)) hend

/-- A text that is read alone leads to the same state inside of a group. -/
theorem reaches_of_read? {t : Text} (h : s.read? t = some s₁) :
    ∃ depth closed, s.Reaches (t ++ ')' :: ·) s₁ depth closed := by
  induction hn : t.length using Nat.strong_induction_on generalizing s t with
  | h n ih =>
    subst hn
    cases ht : s.flags.skip t with
    | nil =>
      rw [read?_of_skip_eq_nil ht] at h
      cases h
      exact ⟨_, reaches_of_skip ht⟩
    | cons c u =>
      rw [read?_of_skip_eq_cons ht] at h
      obtain ⟨⟨m, v⟩, hm, h⟩ := Option.bind_eq_some_iff.mp h
      obtain ⟨s₂, hs, h⟩ := Option.bind_eq_some_iff.mp h
      have hm := Except.eq_ok_of_toOption hm
      rcases staysInLine_readMove hm with hstays | ⟨rfl, hstays⟩
      · have hlen := (length_readMove hm).trans_lt (length_lt_of_skip ht)
        obtain ⟨depth, closed, hr⟩ := ih _ hlen h rfl
        exact ⟨_, closed, reaches_of_move ht hs (fun r _ => hstays r) hr⟩
      · rw [read?_nil] at h
        cases h
        exact ⟨_, false, reaches_of_swallowed ht hs hstays⟩

/-- A text that is read alone is read inside of a group, where letter case may be ignored, unless
an item of a set is refused for that. -/
theorem reaches_or_refuses {t : Text} (h : s.read? t = some s₁) (ha : s.Alike s') :
    (∃ q depth closed, s₁.Alike q ∧ s'.Reaches (t ++ ')' :: ·) q depth closed) ∨ s'.Refuses t := by
  induction hn : t.length using Nat.strong_induction_on generalizing s s' t with
  | h n ih =>
    subst hn
    cases ht : s.flags.skip t with
    | nil =>
      rw [read?_of_skip_eq_nil ht] at h
      cases h
      obtain ⟨closed, hr⟩ := reaches_of_skip (ha.flags.skip ▸ ht)
      exact .inl ⟨s', _, closed, ha, hr⟩
    | cons c u =>
      rw [read?_of_skip_eq_cons ht] at h
      obtain ⟨⟨m, v⟩, hm, h⟩ := Option.bind_eq_some_iff.mp h
      obtain ⟨s₂, hs, h⟩ := Option.bind_eq_some_iff.mp h
      have hm := Except.eq_ok_of_toOption hm
      have ht' : s'.flags.skip t = c :: u := ha.flags.skip ▸ ht
      rcases readMove_alike ha.flags hm with ⟨m', hm', hmm⟩ | ⟨rfl, hu⟩
      · obtain ⟨s₂', hs', hss⟩ := ha.move? hmm hs
        rcases staysInLine_readMove hm' with hstays | ⟨rfl, hstays⟩
        · have hlen := (length_readMove hm).trans_lt (length_lt_of_skip ht)
          rcases ih _ hlen h hss rfl with ⟨q, depth, closed, hq, hr⟩ | hr
          · exact .inl ⟨q, _, closed, hq, reaches_of_move ht' hs' (fun r _ => hstays r) hr⟩
          · exact .inr (refuses_of_move ht' hs' hstays hr)
        · rw [read?_nil] at h
          cases h
          exact .inl ⟨s₂', _, false, hss, reaches_of_swallowed ht' hs' hstays⟩
      · exact .inr (refuses_of_set ht' hu)

end State

end SettingsScan.Pattern
