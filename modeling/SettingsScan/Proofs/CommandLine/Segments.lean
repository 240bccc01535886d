import SettingsScan.Proofs.Option.Cut

/-! # A text of arguments is taken apart completely

The bound on the number of steps is never reached: the arguments of a text are read one after the
other up to its end. Each character belongs to a gap of blank characters or to one segment, and no
word is cut in two.
-/

namespace SettingsScan

namespace Parsed

@[simp] theorem append_empty (p : Parsed) : p ++ {} = p := by
  obtain ⟨⟨settings, arguments⟩, requested⟩ := p
  change Parsed.mk ⟨settings ++ [], arguments ++ []⟩ (requested ++ []) = _
  simp only [List.append_nil]

@[simp] theorem empty_append (p : Parsed) : {} ++ p = p := rfl

end Parsed

/-- A segment and the gap in front of it. -/
structure Piece where
  gap : Text
  segment : Segment

namespace Piece

def text (p : Piece) : Text := p.gap ++ p.segment.taken

def parsed (pieces : List Piece) : Parsed :=
  pieces.foldr (fun p rest => p.segment.parsed ++ rest) {}

/-- The pieces of a text in front of a last gap: each segment is what is taken where the
ones in front of it have ended. -/
inductive Splits (take : Text → Segment) : Text → List Piece → Text → Prop
  | done {gap : Text} : gap.all isBlank → Splits take gap [] gap
  | next {gap rest : Text} {pieces : List Piece} {last : Text} : gap.all isBlank →
      rest ≠ [] → rest.head?.any isBlank = false → (take rest).Cuts rest →
      Splits take (take rest).rest pieces last →
      Splits take (gap ++ rest) ({ gap, segment := take rest } :: pieces) last

variable {take : Text → Segment} {text last : Text} {pieces : List Piece}

theorem Splits.eq_append (h : Splits take text pieces last) :
    text = pieces.flatMap Piece.text ++ last ∧ last.all isBlank := by
  induction h with
  | done hg => exact ⟨rfl, hg⟩
  | next _ _ _ hc _ ih =>
    refine ⟨?_, ih.2⟩
    rw [List.flatMap_cons, Piece.text, List.append_assoc, List.append_assoc, ← ih.1, hc.append_eq]

theorem Splits.gap_of_mem (h : Splits take text pieces last) :
    ∀ p ∈ pieces, p.gap.all isBlank := by
  induction h with
  | done _ => simp
  | next hg _ _ _ _ ih => exact List.forall_mem_cons.mpr ⟨hg, ih⟩

theorem Splits.words_eq (h : Splits take text pieces last) :
    text.words = pieces.flatMap fun p => p.segment.taken.words := by
  induction h with
  | done hg => simpa using Text.words_gap hg []
  | next hg _ _ hc _ ih =>
    have he := hc.edge.words_append
    rw [hc.append_eq, ih] at he
    rw [Text.words_gap hg, he, List.flatMap_cons]

end Piece

namespace ArgumentReader

variable {rules : List OptionRule} {responseFiles : Bool} {directory : Text}
  {expand : Text → Parsed} {d : Dialect} {text gap rest : Text}

theorem takeAll_gap (n : Nat) (hg : gap.all isBlank) :
    takeAll rules responseFiles directory expand n gap = {} := by
  cases n with
  | zero => rfl
  | succ n =>
    have h := Text.trimStart_gap (t := []) hg rfl
    rw [List.append_nil] at h
    rw [takeAll, h]

theorem takeAll_succ (n : Nat) (hg : gap.all isBlank) (hn : rest ≠ [])
    (hb : rest.head?.any isBlank = false) :
    takeAll rules responseFiles directory expand (n + 1) (gap ++ rest) =
      (takeOne rules responseFiles directory expand rest).parsed ++
        takeAll rules responseFiles directory expand n
          (takeOne rules responseFiles directory expand rest).rest := by
  rw [takeAll, Text.trimStart_gap hg hb]
  cases rest with
  | nil => exact absurd rfl hn
  | cons c t => rfl

theorem length_rest_takeOne_lt (d : Dialect) (responseFiles : Bool) (directory : Text)
    (expand : Text → Parsed) (hn : rest ≠ []) (hb : rest.head?.any isBlank = false) :
    (takeOne d.rules responseFiles directory expand rest).rest.length < rest.length := by
  have hc := takeOne_cuts d responseFiles directory expand hn hb
  have hl := congrArg List.length hc.append_eq
  have := List.length_pos_iff.mpr hc.taken_ne_nil
  simp only [List.length_append] at hl
  omega

/-- Induction over the arguments of a text, each behind a gap. -/
@[elab_as_elim]
theorem argumentInduction (d : Dialect) (responseFiles : Bool) (directory : Text)
    (expand : Text → Parsed) {motive : Text → Prop}
    (gap : ∀ {gap : Text}, gap.all isBlank → motive gap)
    (next : ∀ {gap rest : Text}, gap.all isBlank → rest ≠ [] → rest.head?.any isBlank = false →
      motive (takeOne d.rules responseFiles directory expand rest).rest → motive (gap ++ rest))
    (text : Text) : motive text := by
  induction hl : text.length using Nat.strongRecOn generalizing text with
  | ind n ih =>
    obtain ⟨g, rest, rfl, hg, hb⟩ := text.exists_gap
    by_cases hn : rest = []
    · rw [hn, List.append_nil]
      exact gap hg
    · have hlt := length_rest_takeOne_lt d responseFiles directory expand hn hb
      rw [List.length_append] at hl
      exact next hg hn hb (ih _ (by omega) _ rfl)

theorem takeAll_of_le {n m : Nat} (hn : text.length ≤ n) (hm : text.length ≤ m) :
    takeAll d.rules responseFiles directory expand n text =
      takeAll d.rules responseFiles directory expand m text := by
  induction n generalizing m text with
  | zero =>
    obtain rfl : text = [] := List.eq_nil_of_length_eq_zero (by omega)
    rw [takeAll_gap 0 rfl, takeAll_gap m rfl]
  | succ n ih =>
    obtain ⟨gap, rest, rfl, hg, hb⟩ := text.exists_gap
    cases hr : rest with
    | nil => rw [List.append_nil, takeAll_gap _ hg, takeAll_gap _ hg]
    | cons c t =>
      have hne : rest ≠ [] := by simp [hr]
      have hlt := length_rest_takeOne_lt d responseFiles directory expand hne hb
      rw [← hr]
      simp only [List.length_append] at hn hm
      obtain ⟨m, rfl⟩ : ∃ k, m = k + 1 := ⟨m - 1, by omega⟩
      rw [takeAll_succ n hg hne hb, takeAll_succ m hg hne hb]
      congr 1
      exact ih (by omega) (by omega)

def takeText (d : Dialect) (responseFiles : Bool) (directory : Text) (expand : Text → Parsed)
    (text : Text) : Parsed :=
  takeAll d.rules responseFiles directory expand text.length text

theorem takeText_gap (hg : gap.all isBlank) :
    takeText d responseFiles directory expand gap = {} :=
  takeAll_gap _ hg

theorem takeText_gap_next (hg : gap.all isBlank) (hn : rest ≠ [])
    (hb : rest.head?.any isBlank = false) :
    takeText d responseFiles directory expand (gap ++ rest) =
      (takeOne d.rules responseFiles directory expand rest).parsed ++
        takeText d responseFiles directory expand
          (takeOne d.rules responseFiles directory expand rest).rest := by
  have hlt := length_rest_takeOne_lt d responseFiles directory expand hn hb
  rw [takeText, takeAll_of_le (Nat.le_refl _) (Nat.le_succ _), takeAll_succ _ hg hn hb]
  congr 1
  refine takeAll_of_le ?_ (Nat.le_refl _)
  simp only [List.length_append]
  omega

theorem takeText_next (d : Dialect) (responseFiles : Bool) (directory : Text)
    (expand : Text → Parsed) (hn : rest ≠ []) (hb : rest.head?.any isBlank = false) :
    takeText d responseFiles directory expand rest =
      (takeOne d.rules responseFiles directory expand rest).parsed ++
        takeText d responseFiles directory expand
          (takeOne d.rules responseFiles directory expand rest).rest :=
  takeText_gap_next (show ([] : Text).all isBlank from rfl) hn hb

theorem takeText_gap_append (hg : gap.all isBlank) (t : Text) :
    takeText d responseFiles directory expand (gap ++ t) =
      takeText d responseFiles directory expand t := by
  obtain ⟨inner, rest, rfl, hi, hb⟩ := t.exists_gap
  have hall : (gap ++ inner).all isBlank := by rw [List.all_append, hg, hi]; rfl
  by_cases hn : rest = []
  · rw [hn, List.append_nil, takeText_gap hi, takeText_gap hall]
  · rw [← List.append_assoc, takeText_gap_next hall hn hb, takeText_gap_next hi hn hb]

theorem exists_splits (d : Dialect) (responseFiles : Bool) (directory : Text)
    (expand : Text → Parsed) (text : Text) :
    ∃ pieces last,
      Piece.Splits (takeOne d.rules responseFiles directory expand) text pieces last ∧
      takeText d responseFiles directory expand text = Piece.parsed pieces := by
  induction text using argumentInduction d responseFiles directory expand with
  | @gap gap hg => exact ⟨[], gap, .done hg, takeText_gap hg⟩
  | @next gap rest hg hn hb ih =>
    obtain ⟨pieces, last, hs, hp⟩ := ih
    refine ⟨_, last, .next hg hn hb (takeOne_cuts d _ _ _ hn hb) hs, ?_⟩
    rw [takeText_gap_next hg hn hb, hp]
    rfl

/-- What holds of every setting that a rule finds and of those that files contribute holds of the
settings of one argument. -/
theorem takeOne_forall {P : Setting → Prop}
    (hrules : ∀ found, d.rules.findSome? (·.take? directory rest) = some found →
      ∀ s ∈ found.findings.settings, P s)
    (he : ∀ path, ∀ s ∈ (expand path).findings.settings, P s) :
    ∀ s ∈ (takeOne d.rules responseFiles directory expand rest).parsed.findings.settings, P s := by
  unfold takeOne
  split
  · rename_i found hfound
    exact hrules found hfound
  · dsimp only
    split
    · rename_i reference _
      cases reference.target with
      | inline => simp
      | file path => exact he path
    · simp

/-- What holds of the settings of one argument holds of those of all arguments, if it is a property
of the text that the argument stands in. -/
theorem takeText_forall {P : Text → Setting → Prop}
    (hmono : ∀ {t u s}, P t s → t <:+ u → P u s)
    (hone : ∀ rest, ∀ s ∈
      (takeOne d.rules responseFiles directory expand rest).parsed.findings.settings, P rest s)
    (text : Text) :
    ∀ s ∈ (takeText d responseFiles directory expand text).findings.settings, P text s := by
  induction text using argumentInduction d responseFiles directory expand with
  | gap hg =>
    rw [takeText_gap hg]
    simp
  | @next gap rest hg hn hb ih =>
    rw [takeText_gap_next hg hn hb]
    intro s hs
    rcases List.mem_append.mp hs with hs | hs
    · exact hmono (hone rest s hs) (List.suffix_append gap rest)
    · have hcuts := takeOne_cuts d responseFiles directory expand hn hb
      have hsuffix := List.suffix_append
        (takeOne d.rules responseFiles directory expand rest).taken
        (takeOne d.rules responseFiles directory expand rest).rest
      rw [hcuts.append_eq] at hsuffix
      exact hmono (ih s hs) (hsuffix.trans (List.suffix_append gap rest))

/-- What a reference to a file contributes with so many levels left. -/
def expandAt (d : Dialect) (responseFiles : Bool) (directory : Text) (contents : Contents) :
    Nat → Text → Parsed
  | 0, _ => {}
  | levels + 1, path =>
    { requested := [path] } ++
      match ResponseFile.load contents path with
      | some text => readWith d.rules responseFiles directory contents levels text
      | none => {}

theorem readWith_eq (d : Dialect) (responseFiles : Bool) (directory : Text)
    (contents : Contents) (levels : Nat) (text : Text) :
    readWith d.rules responseFiles directory contents levels text =
      takeText d responseFiles directory
        (expandAt d responseFiles directory contents levels) text := by
  cases levels <;> rfl

/-- What holds of every setting that a rule finds holds of all settings, in whatever file they
are. -/
theorem readWith_forall {P : Setting → Prop}
    (hrules : ∀ rest found, d.rules.findSome? (·.take? directory rest) = some found →
      ∀ s ∈ found.findings.settings, P s)
    (responseFiles : Bool) (contents : Contents) (levels : Nat) (text : Text) :
    ∀ s ∈ (readWith d.rules responseFiles directory contents levels text).findings.settings,
      P s := by
  have hread {expand : Text → Parsed} (he : ∀ path, ∀ s ∈ (expand path).findings.settings, P s)
      (text : Text) :
      ∀ s ∈ (takeText d responseFiles directory expand text).findings.settings, P s :=
    takeText_forall (P := fun _ => P) (fun hs _ => hs)
      (fun rest => takeOne_forall (hrules rest) he) text
  induction levels generalizing text with
  | zero =>
    rw [readWith_eq]
    exact hread (fun path => by simp [expandAt]) text
  | succ levels ih =>
    rw [readWith_eq]
    refine hread (fun path => ?_) text
    rw [expandAt, Parsed.findings_append, Findings.settings_append, List.nil_append]
    cases ResponseFile.load contents path with
    | none => simp
    | some text => exact ih text

/-- One argument takes at least one character and no more than there is, up to the edge of a
word. All arguments together, with blank characters in the gaps, are the whole text, and its
words are theirs. -/
theorem consumption_total (family : ToolFamily) (responseFiles : Bool) (directory : Text)
    (contents : Contents) (levels : Nat) :
    let take := takeOne family.dialect.rules responseFiles directory
      (expandAt family.dialect responseFiles directory contents levels)
    (∀ rest : Text, rest ≠ [] → rest.head?.any isBlank = false →
      0 < (take rest).taken.byteSize ∧ (take rest).taken.byteSize ≤ rest.byteSize ∧
      (take rest).taken ++ (take rest).rest = rest ∧
      Text.EdgeBetween (take rest).taken (take rest).rest) ∧
    ∀ text : Text, ∃ pieces last, Piece.Splits take text pieces last ∧
      text = pieces.flatMap Piece.text ++ last ∧
      (∀ p ∈ pieces, p.gap.all isBlank) ∧ last.all isBlank ∧
      text.words = (pieces.flatMap fun p => p.segment.taken.words) ∧
      readWith family.dialect.rules responseFiles directory contents levels text =
        Piece.parsed pieces := by
  intro take
  constructor
  · intro rest hn hb
    have hc : (take rest).Cuts rest := takeOne_cuts family.dialect _ _ _ hn hb
    have hs : (take rest).taken.byteSize + (take rest).rest.byteSize = rest.byteSize := by
      rw [← Text.byteSize_append, hc.append_eq]
    exact ⟨Text.byteSize_pos hc.taken_ne_nil, by omega, hc.append_eq, hc.edge⟩
  · intro text
    obtain ⟨pieces, last, hs, hp⟩ := exists_splits family.dialect responseFiles directory
      (expandAt family.dialect responseFiles directory contents levels) text
    exact ⟨pieces, last, hs, hs.eq_append.1, hs.gap_of_mem, hs.eq_append.2, hs.words_eq,
      (readWith_eq ..).trans hp⟩

theorem consumption_total_cyclic_reference :
    let take := takeOne ToolFamily.gcc.dialect.rules true "/p".toList
      (expandAt ToolFamily.gcc.dialect true "/p".toList (fun _ => some [64, 102]) depthLimit)
    let rest : Text := "@f -DA=1".toList
    rest ≠ [] ∧ rest.head?.any isBlank = false ∧
      0 < (take rest).taken.byteSize ∧ (take rest).taken.byteSize ≤ rest.byteSize := by
  have hn : "@f -DA=1".toList ≠ [] := by decide
  have hb : "@f -DA=1".toList.head?.any isBlank = false := by decide
  have h := (consumption_total .gcc true "/p".toList (fun _ => some [64, 102]) depthLimit).1
    _ hn hb
  exact ⟨hn, hb, h.1, h.2.1⟩

end ArgumentReader

end SettingsScan
