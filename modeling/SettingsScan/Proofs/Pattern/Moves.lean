import Mathlib.Data.List.TakeWhile
import SettingsScan.Pattern.Reader
import SettingsScan.Proofs.Except

/-! # The moves of the reader

Each part of a pattern is read without regard to what came before it but for the flags, and asks
for one move, which changes the state without regard to the text. A run through a text is a
sequence of such moves.
-/

namespace SettingsScan.Pattern

/-- What one part of a pattern asks for. -/
inductive Move where
  | item (atom : Atom)
  | bar
  | close
  | capture (name : Option Text)
  | group (flags : Flags)
  | setFlags (flags : Flags)
  | loop (least : Nat) (most : Option Nat) (greedy : Bool)
  deriving DecidableEq, Repr

/-! ### Reading a move -/

/-- What follows the flags in a text: they are for a group of their own, or for the rest of the
group that they stand in. -/
def endFlags (t : Text) (flags : Flags) : Text → Reading (Move × Text)
  | ')' :: rest => if t.head? = some ')' then .error .emptyFlags else .ok (.setFlags flags, rest)
  | _ :: rest => .ok (.group flags, rest)
  | [] => .error .unclosedFlags

theorem endFlags_of_ne {c : Char} (hc : c ≠ ')') (t : Text) (flags : Flags) (rest : Text) :
    endFlags t flags (c :: rest) = .ok (.group flags, rest) := by
  simp only [endFlags]

def readFlagGroup (flags : Flags) (t : Text) : Reading (Move × Text) :=
  readFlags flags false false [] t >>= fun (flags, rest) => endFlags t flags rest

def readMark (flags : Flags) (t : Text) : Reading (Move × Text) :=
  match t with
  | '=' :: _ => .error .lookAround
  | '!' :: _ => .error .lookAround
  | '<' :: '=' :: _ => .error .lookAround
  | '<' :: '!' :: _ => .error .lookAround
  | 'P' :: '<' :: t => (readName t).map fun (name, t) => (.capture (some name), t)
  | '<' :: t => (readName t).map fun (name, t) => (.capture (some name), t)
  | t => readFlagGroup flags t

def readOpening (flags : Flags) (t : Text) : Reading (Move × Text) :=
  match flags.skip t with
  | '?' :: t => readMark flags t
  | t => .ok (.capture none, t)

def repetition (flags : Flags) (least : Nat) (most : Option Nat) (t : Text) : Move × Text :=
  let (greedy, t) := readGreed flags t
  (.loop least most greedy, t)

def readMove (flags : Flags) (c : Char) (t : Text) : Reading (Move × Text) :=
  match c with
  | '(' => readOpening flags t
  | ')' => .ok (.close, t)
  | '|' => .ok (.bar, t)
  | '[' => (readSet flags t).map fun (set, t) => (.item (.set set), t)
  | '?' => .ok (repetition flags 0 (some 1) t)
  | '*' => .ok (repetition flags 0 none t)
  | '+' => .ok (repetition flags 1 none t)
  | '{' => (readBounds flags t).map fun (least, most, t) =>
      repetition flags least most (flags.skip t)
  | '\\' => (readEscape flags t).map fun (atom, t) => (.item atom, t)
  | '.' => .ok (.item (.set flags.dot), t)
  | '^' => .ok (.item (.look flags.lineStart), t)
  | '$' => .ok (.item (.look flags.lineEnd), t)
  | c => .ok (.item (.ofChar flags c), t)

attribute [grind →] Except.exists_of_map_eq_ok Except.exists_of_bind_eq_ok

/-! ### Escapes -/

theorem swapCase_of_not_isAlphanum {c : Char} (h : c.isAlphanum = false) : swapCase c = c := by
  have halpha : c.isAlphanum = (c.isUpper || c.isLower || c.isDigit) := rfl
  simp only [halpha, Bool.or_eq_false_iff] at h
  simp [swapCase, h]

/-- A character that can be escaped is no letter, so ignoring case does not matter. -/
theorem Atom.ofChar_of_isEscapable {c : Char} (h : isEscapable c) (flags : Flags) :
    Atom.ofChar flags c = .char c := by
  have hs : swapCase c = c := by
    simp only [isEscapable, Bool.or_eq_true, Bool.and_eq_true, Bool.not_eq_true'] at h
    rcases h with h | h
    · have hmeta : "\\.+*?()|[]\x7b\x7d^$#&-~".toList.all (fun c => swapCase c == c) := by decide
      exact eq_of_beq (List.all_eq_true.mp hmeta c (List.contains_iff_mem.mp h))
    · exact swapCase_of_not_isAlphanum h.1.1.2
  simp [Atom.ofChar, hs]

/-- What the character behind a backslash asks for, whatever follows it. -/
inductive EscapeForm (c : Char) : Prop where
  | refused (e : PatternError) (he : e ≠ .invalidSetItem)
      (h : ∀ flags t, readEscape flags (c :: t) = .error e)
  | fixed (atom : Atom) (h : ∀ flags t, readEscape flags (c :: t) = .ok (atom, t))
  | code (digits : Nat) (h : ∀ flags t, readEscape flags (c :: t) =
      (readHex flags digits t).map fun (c, t) => (.ofChar flags c, t))
  | edge (h : ∀ flags t, readEscape flags (c :: t) =
      (readWordEdge flags t).map fun (edge, t) => (.look edge, t))

theorem escapeForm (c : Char) : EscapeForm c := by
  by_cases hd : c.isDigit
  · exact .refused .backReference (by decide) fun flags t => by simp [readEscape, hd]
  by_cases he : isEscapable c
  · exact .fixed (.char c) fun flags t => by
      simp [readEscape, hd, he, Atom.ofChar_of_isEscapable he]
  by_cases hc : c ∈ "pPxuUdswDSWaftnrvAzbB<>".toList
  · simp only [String.reduceToList, List.mem_cons, List.not_mem_nil, or_false] at hc
    rcases hc with rfl | rfl | rfl | rfl | rfl | rfl | rfl | rfl | rfl | rfl | rfl | rfl | rfl |
      rfl | rfl | rfl | rfl | rfl | rfl | rfl | rfl | rfl | rfl
    all_goals first
      | exact .refused _ (by decide) fun _ _ => rfl
      | exact .fixed _ fun _ _ => rfl
      | exact .code _ fun _ _ => rfl
      | exact .edge fun _ _ => rfl
  · refine .refused .unknownEscape (by decide) fun flags t => ?_
    simp only [readEscape, if_neg hd, if_neg he]
    split
    all_goals first | rfl | exact absurd (by decide) hc

/-! ### Sets -/

def setFront (flags : Flags) (t : Text) : Bool × Text :=
  match flags.skip t with
  | '^' :: t => (true, flags.skip t)
  | t => (false, t)

def setStart (flags : Flags) (t : Text) : CharSet × Text :=
  match t, dropDashes flags t.length t with
  | ']' :: t, _ => (.single ']', t)
  | '-' :: _, rest => (.single '-', rest)
  | t, _ => (.empty, t)

theorem readSet_eq (flags : Flags) (t : Text) :
    readSet flags t =
      let (negated, t) := setFront flags t
      let (initial, t) := setStart flags t
      (readSetItems flags (t.length + 1) initial t).map fun (set, rest) =>
        (if negated then .complement (flags.fold set) else flags.fold set, rest) := by
  have items (initial : CharSet) (items : Text) (f : CharSet × Text → CharSet × Text) :
      (readSetItems flags (items.length + 1) initial items >>= fun p => .ok (f p)) =
        (readSetItems flags (items.length + 1) initial items).map f := by
    cases readSetItems .. <;> rfl
  unfold readSet
  extract_lets u
  split
  rename_i negated v hv
  have hfront : setFront flags t = (negated, v) := hv
  simp only [hfront, setStart]
  split
  case h_3 =>
    simp only
    exact items _ _ _
  all_goals exact items _ _ _

/-! ### What is left of the text -/

section Length

variable {flags flags' : Flags} {set set' : CharSet} {atom : Atom} {c : Char} {m : Move} {n : Nat}
  {t rest : Text}

theorem length_skipIgnored_le (inComment : Bool) (t : Text) :
    (skipIgnored inComment t).length ≤ t.length := by
  fun_induction skipIgnored inComment t <;> grind

@[grind! .]
theorem Flags.length_skip_le (flags : Flags) (t : Text) : (flags.skip t).length ≤ t.length := by
  unfold skip
  split
  · exact length_skipIgnored_le false t
  · exact Nat.le_refl _

@[grind →]
theorem length_readHexDigits {code : Nat} (h : readHexDigits flags n code t = .ok (c, rest)) :
    rest.length ≤ t.length := by
  fun_induction readHexDigits flags n code t <;> grind

@[grind →]
theorem length_readHexBraces {code : Option Nat}
    (h : readHexBraces flags n code t = .ok (c, rest)) : rest.length ≤ t.length := by
  fun_induction readHexBraces flags n code t <;> grind

@[grind →]
theorem length_readHex (h : readHex flags n t = .ok (c, rest)) : rest.length ≤ t.length := by
  grind [readHex]

@[grind! .]
theorem length_readWordEdgeName_le (flags : Flags) (n : Nat) (t : Text) :
    (readWordEdgeName flags n t).2.length ≤ t.length := by
  fun_induction readWordEdgeName flags n t <;> grind

@[grind →]
theorem length_readWordEdge {edge : Look} (h : readWordEdge flags t = .ok (edge, rest)) :
    rest.length ≤ t.length := by
  unfold readWordEdge at h
  grind

@[grind →]
theorem length_readEscape (h : readEscape flags t = .ok (atom, rest)) :
    rest.length ≤ t.length := by
  cases t with
  | nil => cases h
  | cons c t =>
    cases escapeForm c with
    | refused e _ hc => cases (hc flags t).symm.trans h
    | fixed atom' hc => cases (hc flags t).symm.trans h; simp
    | code digits hc =>
      rw [hc flags t] at h
      grind
    | edge hc =>
      rw [hc flags t] at h
      grind

@[grind →]
theorem length_readNamedSet (h : readNamedSet? t = some (set, rest)) :
    rest.length ≤ t.length := by
  unfold readNamedSet? at h
  split at h
  · split at h
    rename_i u _ negated v hv
    have hlen : v.length ≤ u.length := by grind
    have hdrop := List.length_dropWhile_le (· ≠ ':') v
    split at h
    · obtain ⟨_, -, h⟩ := Option.map_eq_some_iff.mp h
      grind
    · cases h
  · cases h

@[grind →]
theorem length_readSetItem (h : readSetItem flags t = .ok (atom, rest)) :
    rest.length ≤ t.length := by
  unfold readSetItem at h
  grind

@[grind →]
theorem length_readSetRange (h : readSetRange flags t = .ok (set, rest)) :
    rest.length ≤ t.length := by
  obtain ⟨⟨first, u⟩, hu, h⟩ := Except.exists_of_bind_eq_ok h
  grind

@[grind →]
theorem length_readSetItems (h : readSetItems flags n set t = .ok (set', rest)) :
    rest.length ≤ t.length := by
  fun_induction readSetItems flags n set t <;> grind

@[grind! .]
theorem length_dropDashes_le (flags : Flags) (n : Nat) (t : Text) :
    (dropDashes flags n t).length ≤ t.length := by
  fun_induction dropDashes flags n t <;> grind

@[grind! .]
theorem length_setFront_le (flags : Flags) (t : Text) :
    (setFront flags t).2.length ≤ t.length := by
  unfold setFront
  grind

@[grind! .]
theorem length_setStart_le (flags : Flags) (t : Text) :
    (setStart flags t).2.length ≤ t.length := by
  unfold setStart
  grind

@[grind →]
theorem length_readSet (h : readSet flags t = .ok (set, rest)) : rest.length ≤ t.length := by
  rw [readSet_eq] at h
  grind

@[grind! .]
theorem length_readDigits_le (flags : Flags) (n : Nat) (value : Option Nat) (t : Text) :
    (readDigits flags n value t).2.length ≤ t.length := by
  fun_induction readDigits flags n value t <;> grind

@[grind →]
theorem length_readCount {count : Nat} (h : readCount flags t = .ok (count, rest)) :
    rest.length ≤ t.length := by
  unfold readCount skipBlank at h
  grind [List.length_dropWhile_le]

@[grind →]
theorem length_readBounds {least : Nat} {most : Option Nat}
    (h : readBounds flags t = .ok (least, most, rest)) : rest.length ≤ t.length := by
  unfold readBounds at h
  grind

@[grind →]
theorem length_readName {name : Text} (h : readName t = .ok (name, rest)) :
    rest.length ≤ t.length := by
  unfold readName at h
  grind [List.length_dropWhile_le]

@[grind →]
theorem length_readFlags {negated justNegated : Bool} {seen : List Char}
    (h : readFlags flags negated justNegated seen t = .ok (flags', rest)) :
    rest.length ≤ t.length := by
  fun_induction readFlags flags negated justNegated seen t <;> grind

@[grind →]
theorem length_readFlagGroup (h : readFlagGroup flags t = .ok (m, rest)) :
    rest.length ≤ t.length := by
  obtain ⟨⟨flags', u⟩, hu, h⟩ := Except.exists_of_bind_eq_ok h
  unfold endFlags at h
  grind

@[grind →]
theorem length_readMark (h : readMark flags t = .ok (m, rest)) : rest.length ≤ t.length := by
  unfold readMark at h
  grind

@[grind →]
theorem length_readOpening (h : readOpening flags t = .ok (m, rest)) :
    rest.length ≤ t.length := by
  unfold readOpening at h
  grind

@[grind! .]
theorem length_repetition_le (flags : Flags) (least : Nat) (most : Option Nat) (t : Text) :
    (repetition flags least most t).2.length ≤ t.length := by
  unfold repetition readGreed
  grind

theorem length_readMove (h : readMove flags c t = .ok (m, rest)) : rest.length ≤ t.length := by
  unfold readMove at h
  grind

end Length

namespace State

variable {s s' : State} {c : Char} {t rest : Text} {fuel : Nat} {m : Move}

/-- The state behind a move; no state where the move is not possible. -/
def move? (s : State) : Move → Option State
  | .item atom => some (s.push (.ofAtom atom))
  | .bar => some { s with branches := .concat s.items.reverse :: s.branches, items := [] }
  | .close => s.close.toOption
  | .capture name =>
    if name.any s.names.contains then none
    else ({ s with groups := s.groups + 1, names := name.toList ++ s.names }.enter s.flags
      (some (s.groups + 1))).toOption
  | .group flags => (s.enter flags none).toOption
  | .setFlags flags => some { s with flags }
  | .loop least most greedy =>
    match s.items with
    | [] => none
    | item :: items => some { s with items := .loop least most greedy item :: items }

theorem openNamed_eq (s : State) (t : Text) :
    (s.openNamed t).toOption =
      ((readName t).map fun (name, t) => (Move.capture (some name), t)).toOption.bind
        fun (m, t) => (s.move? m).map (·, t) := by
  rw [openNamed, Except.toOption_bind, Except.toOption_map]
  cases (readName t).toOption with
  | none => rfl
  | some p =>
    obtain ⟨name, t⟩ := p
    simp only [Option.bind_some, Option.map_some, move?, Option.any_some]
    split
    · rfl
    · simp only [Except.toOption_bind]
      exact Option.map_eq_bind.symm

theorem openGroup_eq (s : State) (t : Text) :
    (s.openGroup t).toOption =
      (readOpening s.flags t).toOption.bind fun (m, t) => (s.move? m).map (·, t) := by
  unfold openGroup readOpening
  generalize s.flags.skip t = u
  split
  case h_5 => exact openNamed_eq s _
  case h_6 =>
    simp only [readMark]
    exact openNamed_eq s _
  case h_7 =>
    simp only [readMark]
    rw [Except.toOption_bind, readFlagGroup, Except.toOption_bind, Option.bind_assoc]
    refine Option.bind_congr fun p _ => ?_
    obtain ⟨flags, rest⟩ := p
    cases rest with
    | nil => rfl
    | cons c rest =>
      by_cases hc : c = ')'
      · subst hc
        simp only [endFlags]
        split <;> rfl
      · simp only [endFlags_of_ne hc]
        exact Except.toOption_map _ _
  case h_8 =>
    simp only
    exact Except.toOption_map _ _
  all_goals rfl

theorem repeated_eq (s : State) (least : Nat) (most : Option Nat) (t : Text) :
    (s.repeated least most t).toOption =
      (s.move? (repetition s.flags least most t).1).map
        (·, (repetition s.flags least most t).2) := by
  unfold repeated
  simp only [repetition, move?]
  cases s.items <;> rfl

/-- A step is reading a move and making it. -/
theorem step_eq (s : State) (c : Char) (t : Text) :
    (s.step c t).toOption =
      (readMove s.flags c t).toOption.bind fun (m, t) => (s.move? m).map (·, t) := by
  have item {α : Type} (x : Reading (α × Text)) (atom : α → Atom) :
      (x.map fun (a, t) => (s.push (.ofAtom (atom a)), t)).toOption =
        (x.map fun (a, t) => (Move.item (atom a), t)).toOption.bind
          fun (m, t) => (s.move? m).map (·, t) := by
    cases x <;> rfl
  unfold step readMove
  split
  case h_1 => exact openGroup_eq s t
  case h_2 => exact Except.toOption_map _ _
  case h_4 => exact item _ .set
  case h_5 | h_6 | h_7 => exact repeated_eq s _ _ t
  case h_8 =>
    cases hs : s.items with
    | nil => cases readBounds s.flags t <;> simp [move?, repetition, hs] <;> rfl
    | cons item items =>
      simp only [List.isEmpty_cons, Bool.false_eq_true, if_false, Except.toOption_bind]
      cases readBounds s.flags t with
      | error e => rfl
      | ok p => exact repeated_eq s _ _ _
  case h_9 => exact item _ id
  case h_13 =>
    simp only
    rfl
  all_goals rfl

/-! ### Running through a text -/

theorem length_lt_of_skip (h : s.flags.skip t = c :: rest) : rest.length < t.length := by
  have hle := s.flags.length_skip_le t
  rw [h] at hle
  exact hle

theorem length_step (h : s.step c t = .ok (s', rest)) : rest.length ≤ t.length := by
  have hs := step_eq s c t
  rw [h] at hs
  obtain ⟨⟨m, u⟩, hm, hu⟩ := Option.bind_eq_some_iff.mp hs.symm
  obtain ⟨s'', -, hu⟩ := Option.map_eq_some_iff.mp hu
  cases hu
  exact length_readMove (Except.eq_ok_of_toOption hm)

theorem readAll_eq_of_le (h : t.length ≤ fuel) : readAll fuel s t = readAll t.length s t := by
  induction fuel using Nat.strong_induction_on generalizing s t with
  | h fuel ih =>
    cases hs : s.flags.skip t with
    | nil => unfold readAll; simp only [hs]
    | cons c u =>
      have hu := length_lt_of_skip hs
      obtain ⟨n, hn⟩ : ∃ n, t.length = n + 1 := ⟨t.length - 1, by omega⟩
      obtain ⟨fuel, rfl⟩ : ∃ k, fuel = k + 1 := ⟨fuel - 1, by omega⟩
      rw [hn, readAll, readAll, hs]
      dsimp only
      split
      · rename_i s' v hv
        have hlen := length_step hv
        rw [ih fuel (by omega) (by omega), ih n (by omega) (by omega)]
      · rfl

/-- The state behind a text. -/
def read? (s : State) (t : Text) : Option State :=
  (readAll t.length s t).toOption

theorem read?_of_skip_eq_nil (h : s.flags.skip t = []) : s.read? t = some s := by
  unfold read? readAll
  simp only [h]
  rfl

theorem read?_of_skip_eq_cons (h : s.flags.skip t = c :: rest) :
    s.read? t = (readMove s.flags c rest).toOption.bind fun (m, t) =>
      (s.move? m).bind (·.read? t) := by
  have hrest := length_lt_of_skip h
  obtain ⟨n, hn⟩ : ∃ n, t.length = n + 1 := ⟨t.length - 1, by omega⟩
  have hbind : s.read? t = (s.step c rest).toOption.bind fun (s', v) => s'.read? v := by
    rw [read?, hn, readAll, h]
    dsimp only
    cases hv : s.step c rest with
    | error e => rfl
    | ok p =>
      have hlen := length_step hv
      exact congrArg Except.toOption (readAll_eq_of_le (by omega))
  rw [hbind, step_eq, Option.bind_assoc]
  refine Option.bind_congr fun p _ => ?_
  exact Option.bind_map

theorem read?_of_readMove {u : Text} (h : s.flags.skip t = c :: u)
    (hm : readMove s.flags c u = .ok (m, rest)) :
    s.read? t = (s.move? m).bind (·.read? rest) := by
  rw [read?_of_skip_eq_cons h, hm]
  rfl

end State

end SettingsScan.Pattern
