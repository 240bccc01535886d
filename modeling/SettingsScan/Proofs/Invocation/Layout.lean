import SettingsScan.Proofs.Invocation.ArrayScan
import SettingsScan.Proofs.Invocation.LogLines
import SettingsScan.Proofs.Text.Utf8

/-! # The layout of a build log

A scan does what the kinds of the lines ask for; how many lines there are only counts. Blank lines,
blank characters around a line, a progress mark in front of it and the way it ends do not change
the kinds of the lines that are not blank, so the scan of a log comes out the same in every layout.
-/

namespace SettingsScan

namespace ProcessorState

def setRead (state : ProcessorState) (n : Nat) : ProcessorState :=
  { state with statistics := { state.statistics with linesRead := n } }

end ProcessorState

theorem Processor.process_setRead (p : Processor) (state : ProcessorState) (n : Nat)
    (invocation : Invocation) :
    p.process (state.setRead n) invocation =
      ((p.process state invocation).1, (p.process state invocation).2.1,
        (p.process state invocation).2.2.setRead n) := by
  let s := state.statistics
  obtain ⟨-, hmalformed⟩ := p.counters_process state invocation
  refine (p.process_counted state.memory s n s.malformedEntries invocation).trans ?_
  rw [ProcessorState.setRead, ← hmalformed]

namespace BuildLog

open Encoding (ofUtf8 utf8)

/-! ### What the lines do -/

def Progress.setRead (progress : Progress) (n : Nat) : Progress :=
  { progress with state := progress.state.setRead n }

/-- What comes of a line of the kind, the count of lines apart. -/
def act (p : Processor) (progress : Progress) : LineKind → Progress
  | .blank => progress
  | .directoryChange change =>
    { progress with directories := progress.directories.apply change }
  | .command line =>
    let (_, yield, state) :=
      p.process progress.state { directory := progress.directories.current, line }
    { progress with state, yield := progress.yield ++ yield }

def kinds (lines : List Text) : List LineKind :=
  (lines.map classify).filter (· ≠ .blank)

variable {p : Processor} {state : ProcessorState} {progress : Progress}

theorem scanLine_eq_act (line : Text) : scanLine p progress line =
    act p (progress.setRead (progress.state.statistics.linesRead + 1)) (classify line) := by
  rw [scanLine]
  cases classify line <;> rfl

theorem act_setRead (n : Nat) (kind : LineKind) :
    act p (progress.setRead n) kind = (act p progress kind).setRead n := by
  cases kind with
  | blank => rfl
  | directoryChange change => rfl
  | command line =>
    simp only [act, Progress.setRead, p.process_setRead]

theorem foldl_act_setRead (n : Nat) (kinds : List LineKind) :
    kinds.foldl (act p) (progress.setRead n) = (kinds.foldl (act p) progress).setRead n := by
  induction kinds generalizing progress with
  | nil => rfl
  | cons kind kinds ih => rw [List.foldl_cons, act_setRead, ih, List.foldl_cons]

theorem foldl_act_filter (kinds : List LineKind) :
    (kinds.filter (· ≠ .blank)).foldl (act p) progress = kinds.foldl (act p) progress := by
  rw [List.foldl_filter]
  congr 1
  funext progress kind
  cases kind <;> rfl

theorem foldl_scanLine (lines : List Text) :
    lines.foldl (scanLine p) progress = ((lines.map classify).foldl (act p) progress).setRead
      (progress.state.statistics.linesRead + lines.length) := by
  induction lines generalizing progress with
  | nil => rfl
  | cons line lines ih =>
    rw [List.foldl_cons, ih, scanLine_eq_act, act_setRead, foldl_act_setRead]
    change Progress.setRead _ (_ + 1 + lines.length) = _
    rw [Nat.add_assoc, Nat.add_comm 1]
    rfl

/-- A scan does what the lines that are not blank ask for, and counts all lines. -/
theorem scanLines_eq (start : Text) (lines : List Text) :
    scanLines p state start lines =
      ((kinds lines).foldl (act p) { directories := { start }, state }).setRead
        (state.statistics.linesRead + lines.length) := by
  rw [scanLines, foldl_scanLine, kinds, foldl_act_filter]

/-! ### Progress marks -/

open Pattern (CharSet Place)
open Pattern.Node
open FileName (IsNumber)

/-- A progress mark with blank characters behind it, as `[3/12] `. -/
structure Mark where
  done : Text
  total : Text
  gap : Text
  done_number : IsNumber done
  total_number : IsNumber total
  gap_ne_nil : gap ≠ []
  gap_blank : ∀ c ∈ gap, isAsciiBlank c
  gap_one_line : '\n' ∉ gap

def Mark.word (m : Mark) : Text := '[' :: m.done ++ '/' :: m.total ++ [']']

def Mark.text (m : Mark) : Text := m.word ++ m.gap

variable {t : Text} (m : Mark)

theorem Mark.word_not_blank : ∀ c ∈ m.word, isAsciiBlank c = false := by
  intro c hc
  simp only [word, List.cons_append, List.append_assoc, List.mem_cons, List.mem_append,
    List.not_mem_nil, or_false] at hc
  rcases hc with rfl | hc | rfl | hc | rfl
  · decide
  · exact m.done_number.not_blank c hc
  · decide
  · exact m.total_number.not_blank c hc
  · decide

theorem dropProgress_mark (ht : t.head?.any isAsciiBlank = false) :
    dropProgress (m.text ++ t) = t := by
  have hdigits {n : Text} (hn : IsNumber n) : ∀ c ∈ n, CharSet.digit.contains c := hn.2
  have hgap : ∀ c ∈ m.gap, CharSet.space.contains c := fun c hc =>
    (CharSet.contains_space c).trans (m.gap_blank c hc)
  have hfirst : m.gap.head?.any CharSet.space.contains := by
    obtain ⟨c, gap, hc⟩ := List.exists_cons_of_ne_nil m.gap_ne_nil
    rw [hc] at hgap ⊢
    exact hgap c List.mem_cons_self
  have hstop {d : Char} (hd : CharSet.digit.contains d = false) {ns : List Pattern.Node} (q : Place)
      (hq : q.rest.head?.any CharSet.digit.contains) :
      (concat (char d :: ns)).seek (some : Place → Option Place) q = none := by
    rw [seek_concat_cons]
    refine seek_char_eq_none fun h => ?_
    rw [h, Option.any_some, hd] at hq
    cases hq
  have htext : (Place.start (m.text ++ t)).rest =
      '[' :: (m.done ++ '/' :: (m.total ++ ']' :: (m.gap ++ t))) := by
    simp [Mark.text, Mark.word]
  have hmatch : ∃ q, progressMark.match? (m.text ++ t) = some q ∧ q.rest = t := by
    rw [match?_eq_seek, progressMark, seek_concat_cons, seek_char_cons htext, seek_concat_cons,
      seek_some_one rfl m.done_number.1 (hdigits m.done_number) (by rfl) (hstop (by rfl)),
      seek_concat_cons, seek_char_cons rfl, seek_concat_cons,
      seek_some_one rfl m.total_number.1 (hdigits m.total_number) (by rfl) (hstop (by rfl)),
      seek_concat_cons, seek_char_cons rfl]
    refine ⟨_, seek_some_one_takeWhile ?_ rfl, ?_⟩
    · rwa [Place.rest_after, List.head?_append_of_ne_nil _ m.gap_ne_nil]
    · rw [Place.rest_after, Place.rest_after, List.dropWhile_append_of_pos hgap]
      cases t with
      | nil => rfl
      | cons c t =>
        refine List.dropWhile_cons_of_neg ?_
        rw [CharSet.contains_space]
        simpa using ht
  obtain ⟨q, hq, hrest⟩ := hmatch
  rw [dropProgress, hq]
  exact hrest

theorem dropProgress_of_none (h : progressMark.match? t = none) : dropProgress t = t := by
  rw [dropProgress, h]

theorem change?_mark : DirectoryStack.change? (m.text ++ t) = none := by
  rw [Option.eq_none_iff_forall_ne_some]
  intro change h
  obtain ⟨message, htext, -⟩ := DirectoryStack.change?_eq_some_iff.mp h
  obtain ⟨c, gap, hgap⟩ := List.exists_cons_of_ne_nil m.gap_ne_nil
  have hc : isAsciiBlank c := m.gap_blank c (hgap ▸ List.mem_cons_self)
  have hcut := congrArg (Text.cut? isAsciiBlank) htext
  rw [DirectoryStack.Message.text, Text.cut?_append_cons message.sender_not_blank (by decide),
    Mark.text, hgap, List.append_assoc m.word, List.cons_append,
    Text.cut?_append_cons m.word_not_blank hc, Option.some.injEq, Prod.mk.injEq] at hcut
  obtain ⟨-, hlast⟩ := List.append_inj' hcut.1 rfl
  exact absurd hlast (by decide)

/-! ### Rows -/

def IsGap (gap : Text) : Prop :=
  gap.all isBlank ∧ '\n' ∉ gap

instance (gap : Text) : Decidable (IsGap gap) :=
  inferInstanceAs (Decidable (_ ∧ _))

/-- A line without layout: there are no blank characters around it, and it is neither a message
about directories nor behind a mark. -/
structure IsPlain (line : Bytes) : Prop where
  one_line : 0x0A ∉ line
  ne_nil : ofUtf8 line ≠ []
  trimmed : (ofUtf8 line).trim = ofUtf8 line
  no_message : DirectoryStack.change? (ofUtf8 line) = none
  no_mark : progressMark.match? (ofUtf8 line) = none

/-- A row of a log: blank characters only, or a line with blank characters around it and perhaps a
mark in front. -/
inductive Row where
  | blank (gap : Text)
  | command (front : Text) (mark : Option Mark) (line : Bytes) (back : Text)

namespace Row

variable {row : Row}

def IsLaidOut : Row → Prop
  | blank gap => IsGap gap
  | command front _ _ back => IsGap front ∧ IsGap back

def markText (mark : Option Mark) : Text :=
  mark.elim [] Mark.text

def bytes : Row → Bytes
  | blank gap => utf8 gap
  | command front mark line back => utf8 (front ++ markText mark) ++ line ++ utf8 back

def line? : Row → Option Bytes
  | blank _ => none
  | command _ _ line _ => some line

def kind (row : Row) : LineKind :=
  row.line?.elim .blank (.command ∘ ofUtf8)

/-- The row with a carriage return at its end. -/
def withReturn : Row → Row
  | blank gap => blank (gap ++ ['\r'])
  | command front mark line back => command front mark line (back ++ ['\r'])

theorem bytes_withReturn (row : Row) : row.withReturn.bytes = row.bytes ++ [0x0D] := by
  have hutf8 (gap : Text) : utf8 (gap ++ ['\r']) = utf8 gap ++ [0x0D] :=
    Encoding.utf8_append gap ['\r']
  cases row with
  | blank gap => exact hutf8 gap
  | command front mark line back =>
    simp only [withReturn, bytes, hutf8, List.append_assoc]

theorem line?_withReturn (row : Row) : row.withReturn.line? = row.line? := by
  cases row <;> rfl

theorem IsLaidOut.withReturn (h : row.IsLaidOut) : row.withReturn.IsLaidOut := by
  have hgap {gap : Text} (h : IsGap gap) : IsGap (gap ++ ['\r']) := by
    refine ⟨?_, by simpa using h.2⟩
    rw [List.all_append, h.1]
    rfl
  cases row with
  | blank gap => exact hgap h
  | command front mark line back => exact ⟨h.1, hgap h.2⟩

theorem classify_between {front back : Text} {line : Bytes} (hf : IsGap front)
    (mark : Option Mark) (hline : IsPlain line) (hb : IsGap back) :
    classify (front ++ markText mark ++ ofUtf8 line ++ back) = .command (ofUtf8 line) := by
  have hhead := hline.trimmed ▸ (ofUtf8 line).head?_trim
  have hlast := hline.trimmed ▸ (ofUtf8 line).getLast?_trim
  have hfirst : (markText mark ++ ofUtf8 line).head?.any isBlank = false := by
    cases mark with
    | none => exact hhead
    | some m => rfl
  have htrim : Text.trim (front ++ markText mark ++ ofUtf8 line ++ back) =
      markText mark ++ ofUtf8 line := by
    rw [List.append_assoc front]
    refine Text.trim_between hf.1 hb.1 hfirst ?_
    rwa [List.getLast?_append_of_ne_nil _ hline.ne_nil]
  have hmessage : DirectoryStack.change? (markText mark ++ ofUtf8 line) = none := by
    cases mark with
    | none => exact hline.no_message
    | some m => exact change?_mark m
  have hascii : (ofUtf8 line).head?.any isAsciiBlank = false := by
    cases ht : ofUtf8 line with
    | nil => rfl
    | cons c t =>
      rw [ht] at hhead
      exact Bool.eq_false_iff.mpr fun hc =>
        Bool.eq_false_iff.mp hhead (isBlank_of_isAsciiBlank hc)
  have hdrop : dropProgress (markText mark ++ ofUtf8 line) = ofUtf8 line := by
    cases mark with
    | none => exact dropProgress_of_none hline.no_mark
    | some m => exact dropProgress_mark m hascii
  have hempty : (markText mark ++ ofUtf8 line).isEmpty = false := by
    simp [hline.ne_nil]
  rw [classify, htrim, if_neg (by rw [hempty]; exact Bool.false_ne_true), hmessage, hdrop]

/-- A row is taken for the line in it. -/
theorem classify_bytes (h : row.IsLaidOut) (hline : ∀ line ∈ row.line?, IsPlain line) :
    classify (ofUtf8 row.bytes) = row.kind := by
  cases row with
  | blank gap =>
    have htrim := Text.trim_gap h.1 []
    rw [List.append_nil] at htrim
    rw [bytes, Encoding.ofUtf8_utf8, classify, htrim]
    rfl
  | command front mark line back =>
    rw [bytes, Encoding.ofUtf8_utf8_append]
    exact classify_between h.1 mark (hline line rfl) h.2

theorem not_mem_bytes (h : row.IsLaidOut) (hline : ∀ line ∈ row.line?, IsPlain line) :
    0x0A ∉ row.bytes := by
  have hutf8 {t : Text} (ht : '\n' ∉ t) : 0x0A ∉ utf8 t := by
    intro hmem
    rcases Encoding.mem_utf8 hmem with ⟨c, hc, heq⟩ | hlarge
    · have hc' : c = '\n' := by rw [← Char.ofNat_toNat c, ← heq]; rfl
      exact ht (hc' ▸ hc)
    · simp at hlarge
  have hmark (mark : Option Mark) : '\n' ∉ markText mark := by
    cases mark with
    | none => exact List.not_mem_nil
    | some m =>
      intro hmem
      rcases List.mem_append.mp hmem with hword | hgap
      · exact absurd (m.word_not_blank _ hword) (by decide)
      · exact m.gap_one_line hgap
  cases row with
  | blank gap => exact hutf8 h.2
  | command front mark line back =>
    simp only [bytes, List.mem_append, not_or]
    refine ⟨⟨hutf8 ?_, (hline line rfl).one_line⟩, hutf8 h.2.2⟩
    rw [List.mem_append, not_or]
    exact ⟨h.1.2, hmark mark⟩

end Row

/-! ### Logs -/

/-- The bytes of a log with the rows. A row ends in a line feed, perhaps behind a carriage return;
behind the last row the end may be missing. -/
inductive IsLog : List Row → Bytes → Prop
  | nil : IsLog [] []
  | last (row : Row) : IsLog [row] row.bytes
  | lineFeed (row : Row) {rows : List Row} {bytes : Bytes} (more : IsLog rows bytes) :
      IsLog (row :: rows) (row.bytes ++ 0x0A :: bytes)
  | returnLineFeed (row : Row) {rows : List Row} {bytes : Bytes} (more : IsLog rows bytes) :
      IsLog (row :: rows) (row.bytes ++ 0x0D :: 0x0A :: bytes)

def plainLog (lines : List Bytes) : Bytes :=
  lines.flatMap (· ++ [0x0A])

variable {row : Row} {rows : List Row} {bytes : Bytes}

theorem isLog_plainLog (lines : List Bytes) :
    IsLog (lines.map (Row.command [] none · [])) (plainLog lines) := by
  induction lines with
  | nil => exact .nil
  | cons line lines ih =>
    have h := IsLog.lineFeed (Row.command [] none line []) ih
    simpa [plainLog, Row.bytes, Row.markText, utf8] using h

theorem kinds_nil : kinds [] = [] := rfl

theorem kinds_cons (t : Text) (ts : List Text) :
    kinds (t :: ts) = [classify t].filter (· ≠ .blank) ++ kinds ts := by
  rw [kinds, List.map_cons, ← List.singleton_append, List.filter_append, ← kinds]

theorem filter_kind (row : Row) :
    [row.kind].filter (· ≠ .blank) = row.line?.toList.map (.command ∘ ofUtf8) := by
  cases row <;> rfl

theorem filterMap_line?_cons (row : Row) (rows : List Row) :
    (row :: rows).filterMap Row.line? = row.line?.toList ++ rows.filterMap Row.line? := by
  cases row <;> rfl

theorem kinds_row (h : row.IsLaidOut) (hline : ∀ line ∈ row.line?, IsPlain line) (rest : Bytes) :
    kinds (lines (row.bytes ++ 0x0A :: rest)) =
      row.line?.toList.map (.command ∘ ofUtf8) ++ kinds (lines rest) := by
  rw [lines, byteLines_append_cons (Row.not_mem_bytes h hline), List.map_cons, kinds_cons,
    Row.classify_bytes h hline, filter_kind, ← lines]

/-- What the rows of a log ask for are the lines in them. -/
theorem IsLog.kinds_lines (hlog : IsLog rows bytes)
    (hrows : ∀ row ∈ rows, row.IsLaidOut ∧ ∀ line ∈ row.line?, IsPlain line) :
    kinds (lines bytes) = (rows.filterMap Row.line?).map (.command ∘ ofUtf8) := by
  induction hlog with
  | nil => rfl
  | last row =>
    obtain ⟨hrow, hline⟩ := hrows row List.mem_cons_self
    have hlast : kinds (lines row.bytes) = [row.kind].filter (· ≠ .blank) := by
      by_cases hempty : row.bytes = []
      · -- no byte is left for a line, and a row without bytes is blank
        rw [← Row.classify_bytes hrow hline, hempty]
        rfl
      · rw [lines, byteLines_of_not_mem (Row.not_mem_bytes hrow hline) hempty,
          List.map_singleton, kinds_cons, Row.classify_bytes hrow hline, kinds_nil,
          List.append_nil]
    rw [hlast, filter_kind, filterMap_line?_cons, List.filterMap_nil, List.append_nil]
  | lineFeed row more ih =>
    obtain ⟨⟨hrow, hline⟩, hrows⟩ := List.forall_mem_cons.mp hrows
    rw [kinds_row hrow hline, ih hrows, filterMap_line?_cons, List.map_append]
  | @returnLineFeed row rows bytes more ih =>
    obtain ⟨⟨hrow, hline⟩, hrows⟩ := List.forall_mem_cons.mp hrows
    rw [← row.line?_withReturn] at hline
    have hbytes : row.bytes ++ 0x0D :: 0x0A :: bytes = row.withReturn.bytes ++ 0x0A :: bytes := by
      rw [row.bytes_withReturn, List.append_assoc]
      rfl
    rw [hbytes, kinds_row hrow.withReturn hline, ih hrows, row.line?_withReturn,
      filterMap_line?_cons, List.map_append]

/-- The layout of a log does not matter: blank characters around its lines, progress marks in front
of them, blank rows and the way the rows end change the count of lines only. What is deposited and
asked for comes in the same order, and the other counters, the directories and what detection
remembers are the same. -/
theorem scan_layout (p : Processor) (state : ProcessorState) (directory : Text)
    {lines : List Bytes} (hlines : ∀ line ∈ lines, IsPlain line)
    (hrows : ∀ row ∈ rows, row.IsLaidOut) (hbare : rows.filterMap Row.line? = lines)
    (hlog : IsLog rows bytes) :
    scan p state directory bytes = (scan p state directory (plainLog lines)).setRead
      (state.statistics.linesRead + (BuildLog.lines bytes).length) := by
  subst hbare
  have hdecorated := hlog.kinds_lines fun row hrow =>
    ⟨hrows row hrow, fun line hl => hlines line (List.mem_filterMap.mpr ⟨row, hrow, hl⟩)⟩
  have hplain := (isLog_plainLog (rows.filterMap Row.line?)).kinds_lines <| by
    intro row hrow
    obtain ⟨line, hl, rfl⟩ := List.mem_map.mp hrow
    refine ⟨⟨⟨rfl, List.not_mem_nil⟩, rfl, List.not_mem_nil⟩, fun line' hl' => ?_⟩
    rw [← Option.some.inj hl']
    exact hlines line hl
  have hsame : kinds (BuildLog.lines bytes) =
      kinds (BuildLog.lines (plainLog (rows.filterMap Row.line?))) := by
    rw [hdecorated, hplain, List.filterMap_map]
    exact congrArg _ List.filterMap_some.symm
  have hscan (log : Bytes) : scan p state directory log =
      scanLines p state directory (BuildLog.lines log) := rfl
  rw [hscan, hscan, scanLines_eq, scanLines_eq, hsame]
  rfl

theorem scan_layout_two_commands :
    let lines := [utf8 "gcc -DX -c a.c".toList, utf8 "gcc ".toList ++ [0xFF]]
    let bytes := utf8 " [3/12]\t gcc -DX -c a.c\u00A0\r\n\u2003\ngcc ".toList ++ [0xFF]
    ∃ r, Registry.ofTools {} [] = .ok r ∧
      let p : Processor := { registry := r, expander := fun _ => none, contents := fun _ => none }
      (∀ line ∈ lines, IsPlain line) ∧
      scan p {} "/p".toList bytes =
        (scan p {} "/p".toList (plainLog lines)).setRead 3 := by
  intro lines bytes
  obtain ⟨r, hr⟩ := Registry.exists_ofTools_builtin
  refine ⟨r, hr, ?_⟩
  intro p
  let mark : Mark :=
    { done := "3".toList, total := "12".toList, gap := "\t ".toList
      done_number := by decide, total_number := by decide, gap_ne_nil := by decide
      gap_blank := List.all_eq_true.mp (by decide), gap_one_line := by decide }
  let first := Row.command " ".toList mark (utf8 "gcc -DX -c a.c".toList) ['\u00A0']
  let last := Row.command [] none (utf8 "gcc ".toList ++ [0xFF]) []
  have hlines : ∀ line ∈ lines, IsPlain line := by
    simp only [lines, List.forall_mem_cons]
    refine ⟨⟨?_, ?_, ?_, ?_, ?_⟩, ⟨?_, ?_, ?_, ?_, ?_⟩, nofun⟩ <;> decide +kernel
  have hrows : ∀ row ∈ [first, .blank ['\u2003'], last], row.IsLaidOut := by
    simp only [first, last, List.forall_mem_cons, Row.IsLaidOut]
    refine ⟨?_, ?_, ?_, nofun⟩ <;> decide
  have hlog : IsLog [first, .blank ['\u2003'], last] bytes := by
    have h := IsLog.returnLineFeed first (.lineFeed (.blank ['\u2003']) (.last last))
    have hbytes : bytes = first.bytes ++ 0x0D :: 0x0A ::
        ((Row.blank ['\u2003']).bytes ++ 0x0A :: last.bytes) := by decide +kernel
    rwa [hbytes]
  have hcount : (BuildLog.lines bytes).length = 3 := by decide +kernel
  exact ⟨hlines, by rw [scan_layout p {} "/p".toList hlines hrows rfl hlog, hcount]⟩

end BuildLog

end SettingsScan
