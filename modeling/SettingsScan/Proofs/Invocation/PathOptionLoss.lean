import SettingsScan.Proofs.CommandLine.Names
import SettingsScan.Proofs.Invocation.PathOption
import SettingsScan.Proofs.Invocation.ToolCall

/-! # Path options that get lost

A path option in a list of arguments is read as it was given exactly if it survives the quotes that
are put when the arguments are joined. Otherwise a quote is read as a part of the path, or stands in
the middle of the switch, which is then no option any more.
-/

namespace SettingsScan

open ArgumentReader (depthLimit expandAt takeText)
open Pattern (Hint)
open Spelling
open Text (isQuote)

/-! ### Names below a drive -/

namespace Path

/-- A working directory for which no name is normalised. -/
def drive : Text := ['C', ':', '\\']

variable {a b : Text} {c : Char}

theorem resolve_drive (name : Text) :
    resolve drive name = if isAbsolute name then name else drive ++ name := by
  unfold resolve
  congr 1

/-- Two names stand for the same path if they are equal up to the drive. -/
theorem eq_or_of_resolve_drive (h : resolve drive a = resolve drive b) :
    a = b ∨ a = drive ++ b ∨ b = drive ++ a := by
  rw [resolve_drive, resolve_drive] at h
  split at h <;> split at h
  · exact .inl h
  · exact .inr (.inl h)
  · exact .inr (.inr h.symm)
  · exact .inl (List.append_cancel_left h)

theorem mem_of_resolve_drive (h : resolve drive a = resolve drive b) (hc : c ∉ drive)
    (hm : c ∈ a) : c ∈ b := by
  rcases eq_or_of_resolve_drive h with rfl | rfl | rfl
  · exact hm
  · exact (List.mem_append.mp hm).resolve_left hc
  · exact List.mem_append_right drive hm

theorem not_isBlank_of_mem_drive (h : c ∈ drive) : isBlank c = false :=
  Text.forall_eq_false (show drive.any isBlank = false by decide) c h

/-- A name that stands for the same path as a text does not lie behind a blank character of it. -/
theorem length_lt_of_resolve_drive {front back : Text} {blank : Char} (hb : isBlank blank)
    (h : resolve drive a = resolve drive (front ++ blank :: back)) : back.length < a.length := by
  have hlong (t : Text) : back.length < (t ++ (front ++ blank :: back)).length := by
    simp only [List.length_append, List.length_cons]
    omega
  rcases eq_or_of_resolve_drive h with rfl | rfl | h
  · exact hlong []
  · exact hlong drive
  · rcases List.append_eq_append_iff.mp h with ⟨x, hx, hrest⟩ | ⟨x, rfl, rfl⟩
    · cases x with
      | nil =>
        rw [List.nil_append] at hrest
        simp [← hrest]
      | cons c x =>
        obtain rfl := (List.cons.inj hrest).1
        have hd := not_isBlank_of_mem_drive (c := blank) (by simp [hx])
        rw [hb] at hd
        cases hd
    · simp only [List.length_append, List.length_cons]
      omega

end Path

namespace PathOption

variable {d : Dialect} {o : PathOption d} {switch : Switch} {responseFiles : Bool}
  {directory gap body front back : Text} {expand : Text → Parsed}

/-! ### A quote within the path -/

theorem takeText_unquoted (responseFiles : Bool) (directory : Text) (expand : Text → Parsed)
    (hg : ∀ c ∈ gap, isAsciiBlank c) (hreq : o.switch.separation = .required → gap ≠ [])
    (hn : body ≠ []) (hb : body.head?.any isAsciiBlank = false)
    (hd : body.head? ≠ some '"') (hs : body.head? ≠ some '\'') :
    takeText d responseFiles directory expand (o.switch.text ++ (gap ++ body)) =
      { findings := .ofSetting (.path o.kind
          (Path.resolve directory (body.takeWhile (!isAsciiBlank ·)))) } ++
        takeText d responseFiles directory expand (body.dropWhile (!isAsciiBlank ·)) := by
  have hread := map_reading_pathOperand ((Switch.spells_of_mem o.mem).introduces hg hreq) body hb
  have hpath : readPath body =
      some (body.takeWhile (!isAsciiBlank ·), body.dropWhile (!isAsciiBlank ·)) := by
    simp [readPath, enclosed?_eq_none hd, enclosed?_eq_none hs, hn]
  rw [← OptionMeaning.matchers_of_pathKind? o.pathKind?, List.append_assoc, hpath] at hread
  refine ArgumentReader.takeText_of_reading responseFiles expand o.mem hread fun m hm _ => ?_
  rw [OptionMeaning.findings_of_pathKind? o.pathKind?, hm]

/-- The operand is written with quotes around its end only, behind a character that is not
blank. -/
structure QuotedInside (o : PathOption d) (gap front back : Text) : Prop where
  written_eq : o.written = [' '] ++ (o.switch.text ++ (gap ++ (front ++ '"' :: (back ++ ['"']))))
  gap_blank : ∀ c ∈ gap, isAsciiBlank c
  gap_ne_nil : o.switch.separation = .required → gap ≠ []
  operand_eq : o.operand = front ++ back
  front_not_blank : ∃ c ∈ front, isAsciiBlank c = false

theorem exists_quotedInside_of_equals (hb : o.operand.any isBlank) (he : '=' ∈ o.operand) :
    ∃ gap front back, o.QuotedInside gap front back := by
  obtain ⟨front, back, ho, hf⟩ := List.eq_append_cons_of_mem he
  have hop : o.operand = (front ++ ['=']) ++ back := by simp [ho]
  have hquote : front.any isQuote = false ∧ back.any isQuote = false := by
    have hq := o.operand_isQuote
    rw [ho, List.any_append, List.any_cons, Bool.or_eq_false_iff, Bool.or_eq_false_iff] at hq
    exact ⟨hq.1, hq.2.2⟩
  have hfront : ∃ c ∈ front ++ ['='], isAsciiBlank c = false := ⟨'=', by simp, by decide⟩
  cases hg : o.glued with
  | false =>
    refine ⟨[' '], front ++ ['='], back, ?_, by simp [isAsciiBlank], by simp, hop, hfront⟩
    rw [written_separate hg, ho, Entry.writeArgument_of_equals back hquote.1 hf (ho ▸ hb),
      Entry.escape_of_any_eq_false hquote.2]
  | true =>
    refine ⟨[], front ++ ['='], back, ?_, by simp, separator_ne_nil hg, hop, hfront⟩
    have hblank := o.any_isBlank_glued.trans hb
    have hfront : (o.switch.text ++ front).any isQuote = false := by
      rw [List.any_append, o.switch_text.2.1, hquote.1]
      rfl
    have he : '=' ∉ o.switch.text ++ front := by
      rw [List.mem_append]
      exact not_or.mpr ⟨o.switch_text.2.2, hf⟩
    rw [ho, ← List.append_assoc] at hblank
    rw [written_glued hg, ho, ← List.append_assoc,
      Entry.writeArgument_of_equals back hfront he hblank, Entry.escape_of_any_eq_false hquote.2]
    simp

theorem exists_quotedInside_of_letter (hb : o.operand.any isBlank) (he : '=' ∉ o.operand)
    (hg : o.glued = false) (hl : Entry.hasOptionLetter o.operand) :
    ∃ gap front back, o.QuotedInside gap front back := by
  refine ⟨[' '], o.operand.take 2, o.operand.drop 2, ?_, by simp [isAsciiBlank], by simp,
    (List.take_append_drop 2 o.operand).symm, '-', Entry.mem_take_of_hasOptionLetter hl, by decide⟩
  rw [written_separate hg, Entry.writeArgument_of_no_equals hb o.operand_isQuote he, if_pos hl]

/-- The path that is read ends in front of a blank character, or goes on over the first quote. -/
theorem QuotedInside.exists_name (h : o.QuotedInside gap front back) (responseFiles : Bool)
    (directory : Text) (expand : Text → Parsed) :
    ∃ name settings, (takeText d responseFiles directory expand o.written).findings.settings =
        .path o.kind (Path.resolve directory name) :: settings ∧
      (∀ c ∈ name, isAsciiBlank c = false) ∧
      ((∀ c ∈ o.operand, isAsciiBlank c = false) → '"' ∈ name) := by
  obtain ⟨hw, hg, hreq, ho, hf⟩ := h
  rcases Text.cut?_cases (!isAsciiBlank ·) front with
    ⟨-, hall⟩ | ⟨s, c, t, rfl, hc, hs, -⟩
  · obtain ⟨c, hc, hb⟩ := hf
    simpa [hb] using hall c hc
  have hc : isAsciiBlank c = false := by simpa using hc
  have hblank : ∀ a ∈ gap ++ s, isAsciiBlank a := by
    intro a ha
    rcases List.mem_append.mp ha with ha | ha
    · exact hg a ha
    · simpa using hs a ha
  have hquote {q : Char} (hq : isQuote q) : c ≠ q := by
    rintro rfl
    exact Entry.not_mem_of_any_isQuote o.operand_isQuote hq (by simp [ho])
  have hline : o.written = [' '] ++ (o.switch.text ++
      ((gap ++ s) ++ c :: (t ++ '"' :: (back ++ ['"'])))) := by simp [hw]
  rw [hline, ArgumentReader.takeText_gap_append (by rfl), takeText_unquoted responseFiles directory
    expand hblank (fun hr => List.append_ne_nil_of_left_ne_nil (hreq hr) s) (List.cons_ne_nil _ _)
    hc (by simpa using hquote (by decide)) (by simpa using hquote (by decide))]
  refine ⟨_, _, rfl, fun a ha => by simpa using List.mem_takeWhile_imp ha, fun hop => ?_⟩
  have hplain : ∀ b ∈ c :: t, !isAsciiBlank b := by
    intro b hb
    have hmem : b ∈ o.operand := ho ▸ List.mem_append_left back (List.mem_append_right s hb)
    simp [hop b hmem]
  rw [← List.cons_append, List.takeWhile_append_of_pos hplain,
    List.takeWhile_cons_of_pos (by decide)]
  simp

theorem QuotedInside.settings_ne (h : o.QuotedInside gap front back) (responseFiles : Bool)
    (expand : Text → Parsed) :
    (takeText d responseFiles Path.drive expand o.written).findings.settings ≠
      [o.setting Path.drive] := by
  obtain ⟨name, settings, hread, hname, hquote⟩ := h.exists_name responseFiles Path.drive expand
  rw [hread]
  intro hs
  have heq : Path.resolve Path.drive name = Path.resolve Path.drive o.operand :=
    congrArg Setting.name (List.cons.inj hs).1
  by_cases hop : ∃ b ∈ o.operand, isAsciiBlank b
  · obtain ⟨b, hb, hblank⟩ := hop
    have hdrive : b ∉ Path.drive := fun hd => by
      have hnot := Path.not_isBlank_of_mem_drive hd
      rw [isBlank_of_isAsciiBlank hblank] at hnot
      cases hnot
    have hnot := hname b (Path.mem_of_resolve_drive heq.symm hdrive hb)
    rw [hblank] at hnot
    cases hnot
  · have hmem := hquote fun b hb => Bool.eq_false_iff.mpr fun hblank => hop ⟨b, hb, hblank⟩
    exact Entry.not_mem_of_any_isQuote o.operand_isQuote (by decide)
      (Path.mem_of_resolve_drive heq (by decide) hmem)

/-! ### A quote within the switch -/

/-- What stands in front of the rest of a switch when its quotes are not put behind it. -/
def lead (text : Text) : Text :=
  if Entry.hasOptionLetter text then text.take 2 ++ ['"'] else ['"']

theorem forms_of_lead (h : switch ∈ d.switches) :
    d.forms.filter (·.2.mayTake ((lead switch.text).map Hint.exactly)) = [] ∧
      ResponseFile.atSign.filter (·.mayTake ((lead switch.text).map Hint.exactly)) = [] := by
  have hall : ∀ switch ∈ d.switches,
      d.forms.filter (·.2.mayTake ((lead switch.text).map Hint.exactly)) = [] ∧
        ResponseFile.atSign.filter (·.mayTake ((lead switch.text).map Hint.exactly)) = [] := by
    cases d <;> decide +kernel
  exact hall switch h

theorem hasOptionLetter_append {text : Text} (hn : text ≠ [])
    (h : text.head? = some '-' → 2 < text.length) (t : Text) :
    Entry.hasOptionLetter (text ++ t) = Entry.hasOptionLetter text := by
  match text with
  | [] => exact absurd rfl hn
  | [c] =>
    have hc : c ≠ '-' := fun hc => absurd (h (by rw [hc]; rfl)) (by simp)
    simp [Entry.hasOptionLetter, hc]
  | [c, letter] =>
    have hc : c ≠ '-' := fun hc => absurd (h (by rw [hc]; rfl)) (by simp)
    simp [Entry.hasOptionLetter, hc]
  | c :: letter :: b :: text =>
    by_cases hc : c = '-'
    · rw [hc]
      rfl
    · simp [Entry.hasOptionLetter, hc]

theorem lead_spec (o : PathOption d) :
    2 ≤ o.switch.text.length ∧ lead o.switch.text ≠ [] ∧
      (lead o.switch.text).any isBlank = false := by
  have hall : ∀ switch ∈ d.switches, 2 ≤ switch.text.length ∧ lead switch.text ≠ [] ∧
      (lead switch.text).any isBlank = false := by
    cases d <;> decide
  exact hall o.switch o.mem

theorem written_lead (hg : o.glued) (hb : o.operand.any isBlank) (he : '=' ∉ o.operand)
    (hl : ¬ (o.switch.text.head? = some '-' ∧ o.switch.text.length = 2)) :
    ∃ more, (∀ c ∈ more, isBlank c = false) ∧
      o.written = [' '] ++ (lead o.switch.text ++ (more ++ (o.operand ++ ['"']))) := by
  obtain ⟨hlen, -⟩ := o.lead_spec
  have hswitch := Text.forall_eq_false o.switch_text.1
  have hletter := hasOptionLetter_append o.switch_ne_nil
    (fun hd => lt_of_le_of_ne hlen fun h => hl ⟨hd, h.symm⟩) o.operand
  rw [written_glued hg, Entry.writeArgument_of_no_equals (o.any_isBlank_glued.trans hb)
    o.any_isQuote_glued (o.equals_not_mem_glued he), hletter, lead]
  split
  · refine ⟨o.switch.text.drop 2, fun c hc => hswitch c (List.mem_of_mem_drop hc), ?_⟩
    rw [List.take_append_of_le_length hlen, List.drop_append_of_le_length hlen]
    simp
  · exact ⟨o.switch.text, hswitch, by simp⟩

/-- The first word is no option then. What is read stands behind the first blank character of the
operand. -/
theorem takeText_written_glued (responseFiles : Bool) (directory : Text) (expand : Text → Parsed)
    (hg : o.glued) (hb : o.operand.any isBlank) (he : '=' ∉ o.operand)
    (hl : ¬ (o.switch.text.head? = some '-' ∧ o.switch.text.length = 2)) :
    ∃ front blank back, o.operand = front ++ blank :: back ∧ isBlank blank ∧
      takeText d responseFiles directory expand o.written =
        takeText d responseFiles directory expand (back ++ ['"']) := by
  rcases Text.cut?_cases isBlank o.operand with ⟨-, hall⟩ | ⟨front, blank, back, ho, hblank, hf, -⟩
  · obtain ⟨c, hc, hcb⟩ := List.any_eq_true.mp hb
    rw [hall c hc] at hcb
    cases hcb
  refine ⟨front, blank, back, ho, hblank, ?_⟩
  obtain ⟨more, hmore, hw⟩ := written_lead hg hb he hl
  obtain ⟨-, hlead, hblanks⟩ := o.lead_spec
  have hleadb := Text.forall_eq_false hblanks
  obtain ⟨hforms, hat⟩ := forms_of_lead o.mem
  have hone := ArgumentReader.takeOne_skip responseFiles directory expand
    (Hint.fits_exactly_map (lead o.switch.text)) hforms hat (r := more ++ (o.operand ++ ['"']))
  have hrest : (lead o.switch.text ++ (more ++ (o.operand ++ ['"']))).dropWhile (!isBlank ·) =
      [blank] ++ (back ++ ['"']) := by
    have hword : ∀ c ∈ lead o.switch.text ++ (more ++ front), !isBlank c := by
      simp only [List.mem_append]
      rintro c (hc | hc | hc)
      · simp [hleadb c hc]
      · simp [hmore c hc]
      · simp [hf c hc]
    have hline : lead o.switch.text ++ (more ++ (o.operand ++ ['"'])) =
        (lead o.switch.text ++ (more ++ front)) ++ blank :: (back ++ ['"']) := by
      simp [ho]
    rw [hline, List.dropWhile_append_of_pos hword, List.dropWhile_cons_of_neg (by simp [hblank])]
    rfl
  have hhead (t : Text) : (lead o.switch.text ++ t).head?.any isBlank = false := by
    obtain ⟨c, u, hc⟩ := List.exists_cons_of_ne_nil hlead
    rw [hc]
    exact hleadb c (by simp [hc])
  rw [hw, ArgumentReader.takeText_gap_append (by rfl), ArgumentReader.takeText_next d responseFiles
    directory expand (List.append_ne_nil_of_left_ne_nil hlead _) (hhead _), hone, hrest,
    ArgumentReader.takeText_gap_append (by simpa using hblank), Parsed.empty_append]

/-- The operand is not a piece of what is left of it. -/
theorem settings_ne_of_quote_in_switch (responseFiles : Bool)
    (hexpand : ∀ path, (expand path).findings.settings = []) (hg : o.glued)
    (hb : o.operand.any isBlank) (he : '=' ∉ o.operand)
    (hl : ¬ (o.switch.text.head? = some '-' ∧ o.switch.text.length = 2)) :
    (takeText d responseFiles Path.drive expand o.written).findings.settings ≠
      [o.setting Path.drive] := by
  obtain ⟨front, blank, back, ho, hblank, htake⟩ :=
    takeText_written_glued responseFiles Path.drive expand hg hb he hl
  rw [htake]
  intro hs
  obtain ⟨name, hname, heq⟩ := ArgumentReader.takeText_isPiece hexpand (back ++ ['"'])
    (o.setting Path.drive) (hs ▸ List.mem_singleton_self _) o.kind_ne.1 o.kind_ne.2
  have heq : Path.resolve Path.drive name = Path.resolve Path.drive o.operand := heq.symm
  have hquote : '"' ∉ name := fun hm => Entry.not_mem_of_any_isQuote o.operand_isQuote (by decide)
    (Path.mem_of_resolve_drive heq (by decide) hm)
  have hne : name ≠ back ++ ['"'] := fun h => hquote (by simp [h])
  have hlen := Path.length_lt_of_resolve_drive hblank (ho ▸ heq)
  have hle := hname.length_le
  rw [List.length_append, List.length_singleton] at hle
  exact hne (hname.eq_of_length_le (by rw [List.length_append, List.length_singleton]; omega))

/-! ### Options that do not survive -/

/-- An option that does not survive is not read as it was given, in some working directory. -/
theorem settings_ne_of_not_survives (responseFiles : Bool)
    (hexpand : ∀ path, (expand path).findings.settings = []) (h : ¬ o.Survives) :
    (takeText d responseFiles Path.drive expand o.written).findings.settings ≠
      [o.setting Path.drive] := by
  obtain ⟨hb, h⟩ := not_or.mp h
  have hb : o.operand.any isBlank := by simpa using hb
  by_cases he : '=' ∈ o.operand
  · obtain ⟨gap, front, back, hinside⟩ := exists_quotedInside_of_equals hb he
    exact hinside.settings_ne responseFiles expand
  have h := not_and.mp h he
  cases hg : o.glued with
  | false =>
    rw [if_neg (by simp [hg]), Bool.not_eq_false] at h
    obtain ⟨gap, front, back, hinside⟩ := exists_quotedInside_of_letter hb he hg h
    exact hinside.settings_ne responseFiles expand
  | true =>
    rw [if_pos hg] at h
    exact settings_ne_of_quote_in_switch responseFiles hexpand hg hb he h

end PathOption

/-! ### Entries -/

namespace Entry

open Json (Value)

/-- The fields of an entry with a list of arguments, and no command that would be preferred. -/
structure ListsArguments (fields : List (Text × Value)) (directory source : Text)
    (arguments : List Text) : Prop where
  arguments : fields.lookup "arguments".toList = some (.array (arguments.map .string))
  command : textField .text (fields.lookup "command".toList) = .ok none
  directory : fields.lookup "directory".toList = some (.string directory)
  file : fields.lookup "file".toList = some (.string source)

def argumentFields (directory source : Text) (arguments : List Text) : List (Text × Value) :=
  [("arguments".toList, .array (arguments.map .string)),
   ("directory".toList, .string directory), ("file".toList, .string source)]

theorem listsArguments_argumentFields (directory source : Text) (arguments : List Text) :
    ListsArguments (argumentFields directory source arguments) directory source arguments :=
  ⟨rfl, rfl, rfl, rfl⟩

variable {r : Registry} {e : Expander} {d : Dialect} {tool directory source : Text}
  {given : List (PathOption d)} {fields : List (Text × Value)}

theorem joinArguments_pathOptions (tool : Text) (given : List (PathOption d)) :
    joinArguments (tool :: given.flatMap (·.arguments)) =
      writeArgument tool ++ given.flatMap PathOption.written := by
  rw [joinArguments_cons, List.flatMap_assoc]
  rfl

theorem exists_settings?_eq (hcalls : r.Calls e (writeArgument tool) d) (hne : given ≠ [])
    (hentry : ListsArguments fields directory source (tool :: given.flatMap (·.arguments)))
    (contents : Contents) :
    ∃ responseFiles, settings? r e contents (.object fields) =
      some (takeText d responseFiles directory
        (expandAt d responseFiles directory contents depthLimit)
        (given.flatMap PathOption.written)).findings.settings := by
  obtain ⟨o, more, rfl⟩ := List.exists_cons_of_ne_nil hne
  obtain ⟨t, ht⟩ := o.exists_written_cons
  have hwritten : (o :: more).flatMap PathOption.written =
      ' ' :: (t ++ more.flatMap PathOption.written) := by
    rw [List.flatMap_cons, ht]
    rfl
  obtain ⟨found, hdetect, hdialect, harguments⟩ := hcalls (t ++ more.flatMap PathOption.written)
  rw [← hwritten, ← joinArguments_pathOptions] at hdetect
  have hline : (joinArguments (tool :: (o :: more).flatMap (·.arguments))).all isBlank = false := by
    rw [joinArguments_pathOptions, List.flatMap_cons, List.all_append, List.all_append,
      o.all_isBlank_written]
    simp
  refine ⟨found.detector.reader.responseFiles, ?_⟩
  rw [settings?, toInvocation_of_arguments hentry.arguments hentry.command hentry.directory
    hentry.file hline]
  dsimp only
  rw [hdetect, Option.map_some, harguments, ArgumentReader.read, ArgumentReader.readWith_eq,
    hdialect, hwritten]
  exact congrArg (fun parsed : Parsed => some parsed.findings.settings)
    (ArgumentReader.takeText_gap_append (show [' '].all isBlank from rfl) _).symm

/-- A path of a built-in tool calls that tool. The settings of an entry that calls a tool with path
options are these paths, in order, whichever of the options are chosen and in whatever working
directory, if and only if all options survive. -/
theorem settings?_pathOptions_iff {options : DetectionOptions} (hv : options.UsualVersions) :
    ∃ r, Registry.ofTools options [] = .ok r ∧
      (∀ (e : Expander) (t : BuiltinTool) (tool : Text), t ∈ BuiltinTool.all →
        t.IsWritten options.versionSuffix.isSome tool →
        r.Calls e (writeArgument tool) t.family.dialect) ∧
      ∀ (e : Expander) (tool : Text) (d : Dialect) (given : List (PathOption d)),
        r.Calls e (writeArgument tool) d →
        ((∀ o ∈ given, o.Survives) ↔
          ∀ chosen : List (PathOption d), chosen.Sublist given → chosen ≠ [] →
            ∀ (fields : List (Text × Value)) (directory source : Text) (contents : Contents),
              ListsArguments fields directory source (tool :: chosen.flatMap (·.arguments)) →
              settings? r e contents (.object fields) =
                some (chosen.map (·.setting directory))) := by
  obtain ⟨r, hr, -, h⟩ := Registry.exists_ofTools hv
  refine ⟨r, hr, fun e t tool ht hp => h.calls e ht hp, fun e tool d given hcalls => ?_⟩
  constructor
  · intro hs chosen hsub hne fields directory source contents hentry
    obtain ⟨responseFiles, heq⟩ := exists_settings?_eq hcalls hne hentry contents
    have hrenders := PathOption.renders_flatMap_written (fun o ho => hs o (hsub.subset ho))
      directory
    rw [heq, ArgumentReader.takeText_renders _ _ hrenders]
  · intro hread o ho
    by_contra hs
    have hentry := listsArguments_argumentFields Path.drive [] (tool :: [o].flatMap (·.arguments))
    have hsettings := hread [o] (List.singleton_sublist.mpr ho) (List.cons_ne_nil o []) _ _ _
      (fun _ => none) hentry
    obtain ⟨responseFiles, heq⟩ := exists_settings?_eq hcalls (List.cons_ne_nil o []) hentry
      fun _ => none
    rw [heq, List.flatMap_singleton] at hsettings
    exact PathOption.settings_ne_of_not_survives responseFiles (fun _ => rfl) hs
      (Option.some.inj hsettings)

theorem isWritten_gcc (versions : Bool) :
    BuiltinTool.IsWritten ⟨"gcc", false, .gcc, none⟩ versions "gcc".toList :=
  ⟨by decide, .inl ⟨by decide, .basename, nofun, "gcc".toList, [], [], rfl, rfl, rfl, rfl⟩⟩

def systemOption (glued : Bool) : PathOption .gcc where
  switch := { text := "-isystem", meaning := .systemIncludePath }
  kind := .systemIncludePath
  operand := "/opt/my inc"
  glued := glued
  mem := by simp [Dialect.switches]
  pathKind? := rfl
  optional _ := rfl
  operand_ne_nil := by decide
  operand_isQuote := by decide

/-- Apart from the switch, a directory with blank characters is read as it was given. -/
theorem settings?_pathOptions_iff_blank_operand :
    ∃ r, Registry.ofTools {} [] = .ok r ∧
      settings? r (fun _ => none) (fun _ => none) (.object (argumentFields "/p".toList "f.c".toList
          ["gcc".toList, "-isystem".toList, "/opt/my inc".toList])) =
        some [.path .systemIncludePath "/opt/my inc".toList] := by
  have hv : DetectionOptions.UsualVersions {} := .inl rfl
  obtain ⟨r, hr, hcalls, h⟩ := settings?_pathOptions_iff hv
  have hgcc := hcalls (fun _ => none) _ _ List.mem_cons_self (isWritten_gcc false)
  have hs : ∀ o ∈ [systemOption false], o.Survives :=
    List.forall_mem_singleton.mpr (.inr ⟨by decide, by decide⟩)
  exact ⟨r, hr, (h _ _ _ _ hgcc).mp hs _ (List.Sublist.refl _) (List.cons_ne_nil _ _) _ _ _ _
    (listsArguments_argumentFields ..)⟩

/-- Glued to the switch, it is lost: the quotes are put behind the first letter. -/
theorem settings?_of_blank_glued :
    ∃ r, Registry.ofTools {} [] = .ok r ∧
      settings? r (fun _ => none) (fun _ => none) (.object (argumentFields "/p".toList "f.c".toList
          ["gcc".toList, "-isystem/opt/my inc".toList])) ≠
        some [.path .systemIncludePath "/opt/my inc".toList] := by
  have hv : DetectionOptions.UsualVersions {} := .inl rfl
  obtain ⟨r, hr, -, h⟩ := Registry.exists_ofTools hv
  have hgcc := h.calls (fun _ => none) List.mem_cons_self (isWritten_gcc false)
  obtain ⟨responseFiles, heq⟩ := exists_settings?_eq hgcc (List.cons_ne_nil (systemOption true) [])
    (listsArguments_argumentFields "/p".toList "f.c".toList _) fun _ => none
  refine ⟨r, hr, fun hs => ?_⟩
  have hs := Option.some.inj (heq.symm.trans hs)
  revert hs
  cases responseFiles <;> decide +kernel

end Entry

end SettingsScan
