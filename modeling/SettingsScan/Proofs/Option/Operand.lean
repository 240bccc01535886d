import SettingsScan.Proofs.Option.Forms
import SettingsScan.Proofs.Option.MacroName
import SettingsScan.Proofs.Option.Quoting

/-! # Operands of options

The spellings of an option start with the option and a gap. What they read is decided at the
place behind these, by what each of them has there.
-/

namespace SettingsScan

open Pattern (CharSet Node Place)
open Pattern.Node

def OptionMatch.reading (m : OptionMatch) : Text × Option Text × Text :=
  (m.name, m.value, m.rest)

namespace Spelling

/-- The option and the gap behind it take exactly this front of an argument. -/
def Introduces (option : Node) (separation : Separation) (front : Text) : Prop :=
  front ≠ [] ∧ ∀ {β : Type} {k : Place → Option β} {p : Place} {body : Text},
    p.rest = front ++ body → body.head?.any isAsciiBlank = false →
    (∀ q, q.rest.head?.any isAsciiBlank → k q = none) →
      option.seek (separation.node.seek k) p = k (p.after front body)

/-- The option takes exactly this text. -/
def Spells (option : Node) (text : Text) : Prop :=
  text ≠ [] ∧ ∀ {β : Type} {k : Place → Option β} {p : Place} {r : Text},
    p.rest = text ++ r → option.seek k p = k (p.after text r)

theorem spells_literal {t : Text} (h : t ≠ []) : Spells (literal t) t :=
  ⟨h, fun hp => seek_literal hp⟩

theorem spells_dashOrSlash {sign : Char} (hs : sign = '-' ∨ sign = '/') (t : Text) :
    Spells (seq Dialect.dashOrSlash (literal t)) (sign :: t) := by
  refine ⟨by simp, fun {β k p r} hp => ?_⟩
  rw [seek_seq, Dialect.dashOrSlash, seek_one_cons hp, if_pos (by simpa using hs), seek_literal rfl,
    Place.after_after]
  rfl

structure Operand where
  parts : List Node
  valueGroup : Option Nat := none
  shellEscaped : Bool := false

namespace Operand

def matcher (option : Node) (separation : Separation) (o : Operand) : OptionMatcher where
  node := concat (option :: separation.node :: o.parts)
  valueGroup := o.valueGroup
  shellEscaped := o.shellEscaped

def valueAt (o : Operand) (input : Text) (q : Place) : Option Text :=
  o.valueGroup.bind fun group => (q.group? input group).map fun value =>
    if o.shellEscaped then OptionMatcher.unescapeQuotes value else value

def readAt (o : Operand) (input : Text) (p : Place) : Option (Text × Option Text × Text) :=
  ((concat o.parts).seek some p).bind fun q =>
    (q.group? input 1).map fun name => (name, o.valueAt input q, q.rest)

variable {o : Operand} {input name : Text} {p q : Place}

theorem readAt_of_seek (h : (concat o.parts).seek some p = some q)
    (hn : q.group? input 1 = some name) :
    o.readAt input p = some (name, o.valueAt input q, q.rest) := by
  rw [readAt, h, Option.bind_some, hn, Option.map_some]

theorem readAt_eq_none (h : (concat o.parts).seek some p = none) : o.readAt input p = none := by
  rw [readAt, h, Option.bind_none]

/-- A matcher that goes on with the operand at a place reads what the operand does there. -/
theorem map_reading_lookingAt {m : OptionMatcher} (hname : m.nameGroup = 1)
    (hvalue : m.valueGroup = o.valueGroup) (hescaped : m.shellEscaped = o.shellEscaped)
    (hm : m.node.match? input = (concat o.parts).seek some p) (hp : p.passed ≠ 0) :
    (m.lookingAt input).map OptionMatch.reading = o.readAt input p := by
  simp only [OptionMatcher.lookingAt, hm, readAt, hname, hvalue, hescaped]
  cases hq : (concat o.parts).seek some p with
  | none => rfl
  | some q =>
    obtain ⟨u, hu, hq⟩ := exists_of_seek_eq_some hq
    cases hq
    have hle := ((concat o.parts).forward_ways p q hu).passed_le
    have h0 : q.passed ≠ 0 := by omega
    cases hn : q.group? input 1 with
    | none => simp [hn]
    | some name =>
      simp only [hn, if_neg h0, Option.bind_some, Option.map_some, OptionMatch.reading, valueAt]

end Operand

/-- No match starts in front of such a character. -/
def Stuck (s : Char → Bool) (n : Node) : Prop :=
  ∀ q, q.rest.head?.any s → n.seek some q = none

section Stuck

variable {s : Char → Bool} {parts : List Node} {c : Char}

theorem stuck_char (hc : s c = false) (parts : List Node) : Stuck s (concat (char c :: parts)) := by
  intro q hq
  rw [seek_concat_cons, seek_char_eq_none]
  intro hh
  rw [hh] at hq
  rw [show s c = true from hq] at hc
  cases hc

theorem nameChar_of_isAsciiBlank (c : Char) (h : isAsciiBlank c) : nameChar.contains c = false := by
  cases hn : nameChar.contains c with
  | false => rfl
  | true =>
    have := isBlank_of_isAsciiBlank h
    rw [not_isBlank_of_nameChar hn] at this
    cases this

theorem nameGoesOn_of_isAsciiBlank (c : Char) (h : isAsciiBlank c) :
    nameGoesOn.contains c = false := by
  rw [nameGoesOn, CharSet.contains_union, nameChar_of_isAsciiBlank c h, Bool.false_or,
    CharSet.contains_single, decide_eq_false_iff_not]
  rintro rfl
  revert h
  decide

theorem any_eq_false {o : Option Char} {r : Char → Bool} (h : ∀ c, s c → r c = false)
    (ho : o.any s) : o.any r = false := by
  obtain ⟨c, rfl, hc⟩ := (Option.any_eq_true _ _).mp ho
  exact h c hc

theorem stuck_macroName (parts : List Node) :
    Stuck isAsciiBlank (concat (macroName :: parts)) := by
  intro q hq
  rw [seek_concat_cons,
    seek_macroName_eq_none (any_eq_false nameChar_of_isAsciiBlank hq)]

theorem stuck_identifier (parts : List Node) :
    Stuck isAsciiBlank (concat (identifier :: parts)) := by
  intro q hq
  rw [seek_concat_cons,
    seek_identifier_eq_none (any_eq_false nameChar_of_isAsciiBlank hq)]

theorem any_of_atEnd {t : Text} (hs : ∀ c, isAsciiBlank c → s c = false) (h : atEnd t) :
    t.head?.any s = false := by
  cases t with
  | nil => rfl
  | cons c t => exact hs c h

theorem stuck_argumentEnd (hs : ∀ c, isAsciiBlank c → s c = false) :
    Stuck s (concat [argumentEnd]) := by
  intro q hq
  rw [concat, seek_argumentEnd, if_neg]
  intro he
  rw [any_of_atEnd hs he] at hq
  cases hq

end Stuck

variable {option : Node} {separation : Separation} {front gap text : Text}

theorem Spells.introduces (h : Spells option text) (hg : ∀ c ∈ gap, isAsciiBlank c)
    (hs : separation = .required → gap ≠ []) : Introduces option separation (text ++ gap) := by
  refine ⟨by simp [h.1], fun {β k p body} hp hb hk => ?_⟩
  have hc : CharSet.space.contains = isAsciiBlank := funext CharSet.contains_space
  rw [h.2 (hp.trans (List.append_assoc ..)), ← Place.after_after p text (gap ++ body)]
  cases separation with
  | optional => exact seek_many_one rfl (by simpa [hc] using hg) (by rw [hc, hb]) (by rwa [hc])
  | required =>
    exact seek_some_one rfl (hs rfl) (by simpa [hc] using hg) (by rw [hc, hb]) (by rwa [hc])

/-- What a spelling reads is decided at the place behind the option. -/
theorem Introduces.exists_place (h : Introduces option separation front) (body : Text)
    (hb : body.head?.any isAsciiBlank = false) :
    ∃ p, p.rest = body ∧ p.In (front ++ body) ∧ p.spans = [] ∧ ∀ operands : List Operand,
      (∀ o ∈ operands, Stuck isAsciiBlank (concat o.parts)) →
      ((operands.map (·.matcher option separation)).findSome? (·.lookingAt (front ++ body))).map
        OptionMatch.reading = operands.findSome? (·.readAt (front ++ body) p) := by
  refine ⟨(Place.start (front ++ body)).after front body, rfl, (Place.In.start _).after rfl, rfl,
    ?_⟩
  intro operands hk
  rw [List.map_findSome?, List.findSome?_map]
  refine findSome?_congr fun o ho => ?_
  have hm : (o.matcher option separation).node.match? (front ++ body) =
      (concat o.parts).seek some ((Place.start (front ++ body)).after front body) := by
    have hseq : (concat (separation.node :: o.parts)).seek some =
        separation.node.seek ((concat o.parts).seek some) := funext fun q => seek_concat_cons _
    rw [match?_eq_seek, Operand.matcher, seek_concat_cons, hseq]
    exact h.2 rfl hb (hk o ho)
  refine Operand.map_reading_lookingAt rfl rfl rfl hm ?_
  have hpos := List.length_pos_iff.mpr h.1
  simp only [Place.passed_after, Place.start]
  omega

end Spelling

end SettingsScan
