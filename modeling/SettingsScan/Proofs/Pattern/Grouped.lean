import Mathlib.Algebra.Order.Ring.Nat
import SettingsScan.Proofs.Pattern.Embedding

/-! # A pattern in a group of its own

A text that is a pattern alone is put into a group in a longer pattern. Either the group adds what
the text says, wherever it stands, or the group is never closed or never read.
-/

namespace SettingsScan.Pattern

/-! ### The nesting and the size of a group -/

theorem Draft.deepest_le_iff {parts : List Draft} {n : Nat} :
    Draft.deepest parts ≤ n ↔ ∀ part ∈ parts, part.nesting ≤ n := by
  have hfold (m : Nat) : parts.foldl (fun n part => max n part.nesting) m ≤ n ↔
      m ≤ n ∧ ∀ part ∈ parts, part.nesting ≤ n := by
    induction parts generalizing m with
    | nil => simp
    | cons part parts ih => simp [ih, and_assoc]
  rw [Draft.deepest, hfold, and_iff_right (Nat.zero_le n)]

namespace Draft

@[simp] theorem totalSize_cons (item : Draft) (items : List Draft) :
    totalSize (item :: items) = item.size + totalSize items :=
  rfl

@[simp] theorem totalSize_append (items items' : List Draft) :
    totalSize (items ++ items') = totalSize items + totalSize items' := by
  induction items with
  | nil => exact (Nat.zero_add _).symm
  | cons item items ih => rw [List.cons_append, totalSize_cons, totalSize_cons, ih, Nat.add_assoc]

theorem totalSize_reverse (items : List Draft) : totalSize items.reverse = totalSize items := by
  induction items with
  | nil => rfl
  | cons item items ih =>
    rw [List.reverse_cons, totalSize_append, ih, totalSize_cons, Nat.add_comm]
    rfl

end Draft

namespace State

variable {s : State} {n : Nat}

theorem level_of_branches (hb : s.branches = []) (hl : 2 ≤ s.items.length) :
    s.level =
      { node := .concat (s.items.reverse.map (·.node))
        nesting := Draft.deepest s.items.reverse + 1
        size := Draft.totalSize s.items.reverse } := by
  have hlen : 2 ≤ s.items.reverse.length := by rwa [List.length_reverse]
  rw [level, hb]
  change Draft.concat s.items.reverse = _
  match h : s.items.reverse, hlen with
  | a :: b :: items, _ => exact Draft.concat_of_two a b items

theorem nesting_level_le_iff (hb : s.branches = []) (hl : 2 ≤ s.items.length) :
    s.level.nesting ≤ n + 1 ↔ ∀ item ∈ s.items, item.nesting ≤ n := by
  rw [level_of_branches hb hl]
  simp [Draft.deepest_le_iff]

theorem size_level (hb : s.branches = []) (hl : 2 ≤ s.items.length) :
    s.level.size = Draft.totalSize s.items := by
  rw [level_of_branches hb hl]
  exact Draft.totalSize_reverse s.items

end State

/-! ### Compiling -/

namespace State

variable {s s₁ : State} {c : Char} {m : Move} {t rest : Text}

structure Complete (s : State) : Prop where
  outer : s.outer = []
  nesting : s.level.nesting ≤ nestingLimit
  size : s.size ≤ sizeLimit

end State

theorem ofText_eq_ok_iff {t : Text} {n : Node} :
    ofText t = .ok n ↔ ∃ s, ({} : State).read? t = some s ∧ s.Complete ∧ s.level.node = n := by
  unfold ofText State.read?
  cases State.readAll t.length {} t with
  | error e => simp [Except.toOption]
  | ok s =>
    have hc : s.Complete ↔
        s.outer = [] ∧ s.level.nesting ≤ nestingLimit ∧ s.size ≤ sizeLimit :=
      ⟨fun h => ⟨h.outer, h.nesting, h.size⟩, fun ⟨ho, hn, hk⟩ => ⟨ho, hn, hk⟩⟩
    simp only [Except.toOption, Option.some.injEq, exists_eq_left', hc, ← not_lt]
    split_ifs with ho hn hk <;> simp_all

theorem isOk_ofText_iff {t : Text} :
    (ofText t).isOk ↔ ∃ s, ({} : State).read? t = some s ∧ s.Complete := by
  have hok : (ofText t).isOk ↔ ∃ n, ofText t = .ok n := by
    cases ofText t <;> simp [Except.isOk, Except.toBool]
  rw [hok]
  constructor
  · rintro ⟨n, hn⟩
    obtain ⟨s, hs, hc, -⟩ := ofText_eq_ok_iff.mp hn
    exact ⟨s, hs, hc⟩
  · rintro ⟨s, hs, hc⟩
    exact ⟨_, ofText_eq_ok_iff.mpr ⟨s, hs, hc, rfl⟩⟩

/-- As many rounds as the machine has room for, and one more. -/
example : (ofText "a{327676}".toList).isOk ∧ ¬ (ofText "a{327677}".toList).isOk := by
  decide +kernel

namespace State

variable {s s₁ q : State} {c : Char} {m : Move} {t text rest : Text} {depth : Nat}

theorem read?_cons (hv : s.flags.verbose = false) (hm : readMove s.flags c t = .ok (m, rest)) :
    s.read? (c :: t) = (s.move? m).bind (·.read? rest) :=
  read?_of_readMove (Flags.skip_of_not_verbose hv _) hm

theorem read?_step (hv : s.flags.verbose = false)
    (hm : readMove s.flags c t = .ok (m, rest)) (hs : s.move? m = some s₁) :
    s.read? (c :: t) = s₁.read? rest := by
  rw [read?_cons hv hm, hs]
  rfl

/-- The state with one more group, in which the other state has been read. -/
def attach (s q : State) : State :=
  { s with
    items := q.level.shift s.groups :: s.items
    groups := s.groups + q.groups
    names := q.names ++ s.names }

theorem namesSize_append (names names' : List Text) :
    namesSize (names ++ names') = namesSize names + namesSize names' := by
  induction names with
  | nil => exact (Nat.zero_add _).symm
  | cons name names ih => simp only [List.cons_append, namesSize, ih, Nat.add_assoc]

theorem tableSize_attach (s q : State) :
    (s.attach q).tableSize = q.tableSize + s.tableSize := by
  simp only [tableSize, attach, namesSize_append, Nat.add_mul]
  omega

theorem attach_start (q : State) :
    State.attach {} q = { items := [q.level], groups := q.groups, names := q.names } := by
  simp [attach]

theorem attach_attach (s q : State) : s.attach (State.attach {} q) = s.attach q := by
  rw [attach_start]
  rfl

def inside (s : State) (flags : Flags) : State :=
  { s with
    flags
    branches := []
    items := []
    outer := { flags := s.flags, capture := none, branches := s.branches, items := s.items } ::
      s.outer }

theorem within_inside (s : State) (flags : Flags) :
    ({ flags } : State).within (s.inside flags) = s.inside flags := by
  simp [within, inside]

theorem admits_inside {flags : Flags} {names : List Text} :
    (s.inside flags).Admits depth names ↔ s.Admits (depth + 1) names := by
  have hlen : (s.inside flags).outer.length = s.outer.length + 1 := rfl
  constructor
  · rintro ⟨hroom, hnames⟩
    exact ⟨by omega, hnames⟩
  · rintro ⟨hroom, hnames⟩
    exact ⟨by omega, hnames⟩

theorem move?_group (s : State) (flags : Flags) :
    s.move? (.group flags) =
      if s.outer.length < nestingLimit then some (s.inside flags) else none :=
  toOption_enter s flags none

theorem read?_closing {flags : Flags} (ho : q.outer = []) :
    (q.within (s.inside flags)).read? (')' :: rest) = (s.attach q).read? rest := by
  rw [read?_of_readMove (skip_paren _ rest) rfl]
  change ((q.within (s.inside flags)).close.toOption).bind (·.read? rest) = _
  have how : (q.within (s.inside flags)).outer = (s.inside flags).outer := by
    rw [within, ho]
    rfl
  unfold close
  rw [how]
  simp only [inside, level_within]
  rfl

end State

/-! ### Groups -/

/-- The text in a group of its own, which may ignore letter case. -/
def grouped (ignoreCase : Bool) (t : Text) : Text :=
  (if ignoreCase then "(?i:" else "(?:") ++ t ++ [')']

/-- The text leads from any state to the one with another group, if that one is admitted. -/
structure Joins (text : Text) (q : State) (depth : Nat) : Prop where
  reads : ∀ (s : State) rest, s.flags = {} → s.Admits depth q.names →
    s.read? (text ++ rest) = (s.attach q).read? rest
  refuses : ∀ (s : State) rest, s.flags = {} → ¬ s.Admits depth q.names →
    s.read? (text ++ rest) = none

/-- The text leaves a group open, whatever follows it on its last line. -/
def Breaks (text : Text) : Prop :=
  ∀ (s : State) rest s₁, s.flags = {} → '\n' ∉ rest → s.read? (text ++ rest) = some s₁ →
    s₁.outer ≠ []

/-- The text is a pattern as far as its groups go. -/
def WellGrouped (t : Text) : Prop :=
  ∃ s, ({} : State).read? t = some s ∧ s.outer = []

theorem read?_grouped {s : State} (hs : s.flags = {}) (ignoreCase : Bool) (t rest : Text) :
    s.read? (grouped ignoreCase t ++ rest) =
      if s.outer.length < nestingLimit then
        (({ flags := { ignoreCase } } : State).within (s.inside { ignoreCase })).read?
          (t ++ ')' :: rest)
      else none := by
  have hv : s.flags.verbose = false := by rw [hs]
  have hread : s.read? (grouped ignoreCase t ++ rest) =
      (s.move? (.group { ignoreCase })).bind (·.read? (t ++ ')' :: rest)) := by
    cases ignoreCase with
    | false =>
      have hm : readMove s.flags '(' ('?' :: ':' :: (t ++ ')' :: rest)) =
          .ok (.group {}, t ++ ')' :: rest) := by rw [hs]; rfl
      rw [← State.read?_cons hv hm]
      simp [grouped]
    | true =>
      have hm : readMove s.flags '(' ('?' :: 'i' :: ':' :: (t ++ ')' :: rest)) =
          .ok (.group { ignoreCase := true }, t ++ ')' :: rest) := by rw [hs]; rfl
      rw [← State.read?_cons hv hm]
      simp [grouped]
  rw [hread, State.move?_group, State.within_inside]
  split <;> rfl

section

variable {ignoreCase : Bool} {s q : State} {t : Text} {depth : Nat}

theorem fits_inside (h : s.outer.length < nestingLimit) (flags : Flags) :
    ({ flags } : State).Fits (s.inside flags) :=
  ⟨by simpa [State.inside, Nat.succ_le_iff] using h, by simp⟩

theorem joins_of_reaches
    (h : ({ flags := { ignoreCase } } : State).Reaches (t ++ ')' :: ·) q depth true)
    (hq : q.outer = []) : Joins (grouped ignoreCase t) q (depth + 1) where
  reads s rest hs ha := by
    have hroom : s.outer.length < nestingLimit := by
      have := ha.room
      omega
    rw [read?_grouped hs, if_pos hroom,
      h.reads _ rest (fits_inside hroom _) nofun (State.admits_inside.mpr ha)]
    exact State.read?_closing hq
  refuses s rest hs ha := by
    rw [read?_grouped hs]
    split
    · rename_i hroom
      exact h.refuses _ rest (fits_inside hroom _) nofun (ha ∘ State.admits_inside.mp)
    · rfl

/-- Behind a comment that is not ended, the groups around the text stay open. -/
theorem breaks_of_reaches
    (h : ({ flags := { ignoreCase } } : State).Reaches (t ++ ')' :: ·) q depth false) :
    Breaks (grouped ignoreCase t) := by
  intro s rest s₁ hs hline hread
  rw [read?_grouped hs] at hread
  split at hread
  · rename_i hroom
    by_cases ha : (s.inside { ignoreCase }).Admits depth q.names
    · have hend := h.reads _ rest (fits_inside hroom _) (fun _ => hline) ha
      cases hread.symm.trans (hend.trans (State.read?_nil _))
      simp [State.within, State.inside]
    · have hnone := h.refuses _ rest (fits_inside hroom _) (fun _ => hline) ha
      cases hread.symm.trans hnone
  · cases hread

theorem breaks_of_refuses (h : ({ flags := { ignoreCase } } : State).Refuses t) :
    Breaks (grouped ignoreCase t) := by
  intro s rest s₁ hs _ hread
  rw [read?_grouped hs] at hread
  split at hread
  · rename_i hroom
    cases hread.symm.trans (h _ rest (fits_inside hroom _))
  · cases hread

/-- Either the group adds the same everywhere, or nothing with it is a pattern. -/
theorem WellGrouped.joins_or_breaks (h : WellGrouped t) (ignoreCase : Bool) :
    (∃ q depth, Joins (grouped ignoreCase t) q depth) ∨ Breaks (grouped ignoreCase t) := by
  obtain ⟨s₁, hs₁, ho⟩ := h
  have hstart : State.Alike {} { flags := { ignoreCase } } := .start ⟨rfl, nofun⟩
  rcases State.reaches_or_refuses hs₁ hstart with ⟨q, depth, closed, hq, hr⟩ | hr
  · have houter := hq.outer
    rw [ho] at houter
    cases closed with
    | true => exact .inl ⟨q, _, joins_of_reaches hr (List.forall₂_nil_left_iff.mp houter)⟩
    | false => exact .inr (breaks_of_reaches hr)
  · exact .inr (breaks_of_refuses hr)

end

/-! ### What a group adds -/

/-- The state behind the group in another group, if that one can be closed. -/
def groupState? (ignoreCase : Bool) (t : Text) : Option State :=
  (({} : State).read? (grouped false (grouped ignoreCase t))).filter (·.outer.isEmpty)

theorem read?_grouped_start (t : Text) :
    ({} : State).read? (grouped false t) = (({} : State).inside {}).read? (t ++ [')']) := by
  have h := read?_grouped (s := {}) rfl false t []
  rw [List.append_nil, if_pos (by decide), State.within_inside] at h
  exact h

section

variable {ignoreCase : Bool} {s s₁ q : State} {t rest : Text} {depth : Nat}

theorem Breaks.groupState?_eq_none (h : Breaks (grouped ignoreCase t)) :
    groupState? ignoreCase t = none := by
  rw [groupState?, Option.filter_eq_none_iff, read?_grouped_start]
  intro s hs
  simpa using h _ _ s rfl (by decide) hs

theorem Joins.groupState?_eq (h : Joins (grouped ignoreCase t) q depth) :
    groupState? ignoreCase t =
      if depth < nestingLimit then some (State.attach {} q) else none := by
  rw [groupState?, read?_grouped_start]
  split
  · rename_i hdepth
    have hclose : (State.attach (State.inside {} {}) q).read? [')'] = some (State.attach {} q) := by
      have hq : State.attach (State.inside {} {}) q =
          (State.attach {} q).within (State.inside {} {}) := by
        simp [State.attach, State.within, State.inside]
      rw [hq, State.read?_closing rfl, State.attach_attach, State.read?_nil]
    rw [h.reads (State.inside {} {}) _ rfl ⟨hdepth, List.disjoint_nil_right _⟩, hclose]
    rfl
  · rename_i hdepth
    rw [h.refuses (State.inside {} {}) _ rfl (fun ha => hdepth ha.room)]
    rfl

theorem read?_of_groupState? (h : WellGrouped t) (hq : groupState? ignoreCase t = some q)
    (hs : s.flags = {}) (ho : s.outer.length = 1) :
    (q.names.Disjoint s.names →
      s.read? (grouped ignoreCase t ++ rest) = (s.attach q).read? rest) ∧
    (¬ q.names.Disjoint s.names → s.read? (grouped ignoreCase t ++ rest) = none) := by
  rcases h.joins_or_breaks ignoreCase with ⟨q', depth, hj⟩ | hb
  · rw [hj.groupState?_eq] at hq
    split at hq
    · rename_i hdepth
      cases hq
      have hnames : (State.attach {} q').names = q'.names := by rw [State.attach_start]
      rw [State.attach_attach, hnames]
      have hroom : depth + s.outer.length ≤ nestingLimit := by omega
      exact ⟨fun hn => hj.reads s rest hs ⟨hroom, hn⟩,
        fun hn => hj.refuses s rest hs fun ha => hn ha.names⟩
    · cases hq
  · rw [hb.groupState?_eq_none] at hq
    cases hq

/-- The group stays open, if it does so alone. -/
theorem outer_ne_nil_of_groupState? (h : WellGrouped t) (hq : groupState? ignoreCase t = none)
    (hs : s.flags = {}) (ho : s.outer.length = 1) (hline : '\n' ∉ rest)
    (hr : s.read? (grouped ignoreCase t ++ rest) = some s₁) : s₁.outer ≠ [] := by
  rcases h.joins_or_breaks ignoreCase with ⟨q, depth, hj⟩ | hb
  · rw [hj.groupState?_eq] at hq
    split at hq
    · cases hq
    · rename_i hdepth
      have hrefused := hj.refuses s rest hs fun ha => by
        have hroom := ha.room
        omega
      cases hr.symm.trans hrefused
  · exact hb s rest s₁ hs hline hr

end

end SettingsScan.Pattern
