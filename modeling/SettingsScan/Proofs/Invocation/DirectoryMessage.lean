import SettingsScan.Invocation.BuildLog
import SettingsScan.Proofs.Detection.FileName
import SettingsScan.Proofs.Pattern.Language
import SettingsScan.Proofs.Pattern.Seek

/-! # Messages about directories

The lines that change the directory are those of the form `PROG[n]: Entering directory 'path'`. A
line has this form in one way only as far as its verb and its path go: the path ends at the last
quote, in front of blank characters, whatever quotes and blanks it has itself.
-/

namespace SettingsScan

open Pattern (CharSet Node Place)
open Pattern.Node
open FileName (IsNumber)

namespace DirectoryStack

structure Message where
  program : Text
  level : Text
  enters : Bool
  opening : Char
  path : Text
  closing : Char
  gap : Text
  program_not_blank : ∀ c ∈ program, isAsciiBlank c = false
  level_eq : level = [] ∨ ∃ n, IsNumber n ∧ level = '[' :: n ++ [']']
  opening_mem : opening ∈ ['\x60', '\'', '"']
  path_one_line : '\n' ∉ path
  closing_mem : closing ∈ ['\'', '"']
  gap_blank : ∀ c ∈ gap, isAsciiBlank c

def verb (enters : Bool) : Text :=
  if enters then "Entering" else "Leaving"

namespace Message

def sender (m : Message) : Text :=
  m.program ++ "make".toList ++ m.level ++ [':']

def quoted (m : Message) : Text :=
  m.opening :: m.path ++ m.closing :: m.gap

def text (m : Message) : Text :=
  m.sender ++ ' ' :: (verb m.enters ++ " directory ".toList ++ m.quoted)

def change (m : Message) : Change :=
  if m.enters then .entering m.path else .leaving

variable {m m' : Message}

theorem sender_not_blank (m : Message) : ∀ c ∈ m.sender, isAsciiBlank c = false := by
  intro c hc
  simp only [sender, List.mem_append] at hc
  rcases hc with ((hc | hc) | hc) | hc
  · exact m.program_not_blank c hc
  · exact Text.forall_eq_false (by decide) c hc
  · rcases m.level_eq with hl | ⟨n, hn, hl⟩
    · simp [hl] at hc
    · rw [hl] at hc
      simp only [List.cons_append, List.mem_cons, List.mem_append, List.not_mem_nil, or_false] at hc
      rcases hc with rfl | hc | rfl
      · decide
      · exact hn.not_blank c hc
      · decide
  · exact Text.forall_eq_false (by decide) c hc

theorem not_isAsciiBlank_closing (m : Message) : isAsciiBlank m.closing = false := by
  have h := m.closing_mem
  simp only [List.mem_cons, List.not_mem_nil, or_false] at h
  rcases h with h | h <;> rw [h] <;> decide

theorem change_eq_of_text_eq (h : m.text = m'.text) : m.change = m'.change := by
  have hcut := congrArg (Text.cut? isAsciiBlank) h
  rw [text, text, Text.cut?_append_cons m.sender_not_blank (by decide),
    Text.cut?_append_cons m'.sender_not_blank (by decide), Option.some.injEq,
    Prod.mk.injEq] at hcut
  obtain ⟨-, hrest⟩ := hcut
  obtain ⟨henters, hquoted⟩ : m.enters = m'.enters ∧ m.quoted = m'.quoted := by
    -- the verbs differ in their first letters
    cases he : m.enters <;> cases he' : m'.enters <;> rw [he, he'] at hrest
    · exact ⟨rfl, List.append_cancel_left hrest⟩
    · simp [verb] at hrest
    · simp [verb] at hrest
    · exact ⟨rfl, List.append_cancel_left hrest⟩
  have hlast (m : Message) : (m.path ++ [m.closing]).getLast?.any isAsciiBlank = false := by
    simp [m.not_isAsciiBlank_closing]
  have hpath : (m.path ++ [m.closing]) ++ m.gap = (m'.path ++ [m'.closing]) ++ m'.gap := by
    simpa using (List.cons.inj hquoted).2
  obtain ⟨hpath, -⟩ :=
    Text.append_inj_of_getLast? hpath (hlast m) (hlast m') m.gap_blank m'.gap_blank
  rw [change, change, henters, List.append_inj_left' hpath rfl]

end Message

/-! ### The parts of the pattern -/

def senderNodes : List Node :=
  [many (one Spelling.notBlank), literal "make",
   opt (concat [char '[', some_ (one .digit), char ']']), literal ": "]

def oneOf (cs : List Char) : Node :=
  one (CharSet.ofRanges (cs.map fun c => (c, c)))

def pathNodes : List Node :=
  [group 1 (alt (literal "Entering") (literal "Leaving")), literal " directory ",
   oneOf ['\x60', '\'', '"'], group 2 (many (one .notNewline)), oneOf ['\'', '"'],
   Spelling.blanks, look .textEnd]

theorem message_eq : message = concat (senderNodes ++ pathNodes) := rfl

variable {line input t : Text} {p q : Place}

theorem mem_ways_oneOf {cs : List Char} :
    q ∈ (oneOf cs).ways p ↔ ∃ c r, p.rest = c :: r ∧ c ∈ cs ∧ q = p.after [c] r := by
  have hcontains (c : Char) :
      (CharSet.ofRanges (cs.map fun c => (c, c))).contains c = decide (c ∈ cs) := by
    induction cs with
    | nil => rfl
    | cons d cs ih =>
      have hunion : CharSet.ofRanges ((d :: cs).map fun c => (c, c)) =
        .union (.single d) (CharSet.ofRanges (cs.map fun c => (c, c))) := rfl
      rw [hunion, CharSet.contains_union, ih, CharSet.contains_single]
      simp
  simp only [oneOf, mem_ways_one, hcontains, decide_eq_true_eq]

theorem mem_language_sender : t ∈ (concat senderNodes).language ↔
    ∃ program level, (∀ c ∈ program, isAsciiBlank c = false) ∧
      (level = [] ∨ ∃ n, IsNumber n ∧ level = '[' :: n ++ [']']) ∧
      t = program ++ "make".toList ++ level ++ ": ".toList := by
  have hprogram (u : Text) : u ∈ (many (one Spelling.notBlank)).language ↔
      ∀ c ∈ u, isAsciiBlank c = false := by
    rw [mem_language_many_one]
    simp [Spelling.notBlank, CharSet.contains_space]
  have hempty (u : Text) : u ∈ (concat []).language ↔ u = [] := Language.mem_one u
  have hlevel (u : Text) :
      u ∈ (opt (concat [char '[', some_ (one .digit), char ']'])).language ↔
        u = [] ∨ ∃ n, IsNumber n ∧ u = '[' :: n ++ [']'] := by
    rw [mem_language_opt]
    refine or_congr_right ?_
    simp only [mem_language_concat_cons, mem_language_char, mem_language_some_one, hempty]
    constructor
    · rintro ⟨_, rfl, _, ⟨n, hn, _, ⟨_, rfl, _, rfl, rfl⟩, rfl⟩, rfl⟩
      exact ⟨n, hn, by simp⟩
    · rintro ⟨n, hn, rfl⟩
      exact ⟨_, rfl, _, ⟨n, hn, _, ⟨_, rfl, _, rfl, rfl⟩, rfl⟩, by simp⟩
  simp only [senderNodes, mem_language_concat_cons, hprogram, hlevel, mem_language_literal, hempty]
  constructor
  · rintro ⟨program, hp, _, ⟨_, rfl, _, ⟨level, hl, _, ⟨_, rfl, _, rfl, rfl⟩, rfl⟩, rfl⟩, rfl⟩
    exact ⟨program, level, hp, hl, by simp⟩
  · rintro ⟨program, level, hp, hl, rfl⟩
    exact ⟨program, hp, _, ⟨_, rfl, _, ⟨level, hl, _, ⟨_, rfl, _, rfl, rfl⟩, rfl⟩, rfl⟩, by simp⟩

theorem mem_ways_verb : q ∈ (alt (literal "Entering") (literal "Leaving")).ways p ↔
    ∃ enters r, p.rest = verb enters ++ r ∧ q = p.after (verb enters) r := by
  rw [ways_alt, List.mem_append, mem_ways_literal, mem_ways_literal, Bool.exists_bool, or_comm]
  rfl

theorem mem_ways_textEnd : q ∈ (look .textEnd).ways p ↔ p.rest = [] ∧ q = p := by
  cases h : p.rest <;> simp [ways, Pattern.Look.holds, h]

theorem exists_of_mem_ways_path (hp : p.In input) (hq : q ∈ (concat pathNodes).ways p) :
    ∃ enters opening path closing gap,
      p.rest = verb enters ++ " directory ".toList ++ (opening :: path ++ closing :: gap) ∧
      opening ∈ ['\x60', '\'', '"'] ∧ '\n' ∉ path ∧ closing ∈ ['\'', '"'] ∧
      (∀ c ∈ gap, isAsciiBlank c) ∧
      q.group? input 1 = some (verb enters) ∧ q.group? input 2 = some path := by
  simp only [pathNodes, mem_ways_concat_cons, ways_group, List.mem_map, mem_ways_verb,
    mem_ways_literal, mem_ways_oneOf, Spelling.blanks, Spelling.blank, mem_ways_many_one,
    mem_ways_textEnd] at hq
  obtain ⟨_, ⟨_, ⟨enters, r, hr, rfl⟩, rfl⟩, _, ⟨s, hs, rfl⟩, v, ⟨opening, t, ht, ho, hv⟩, _,
    ⟨_, ⟨path, w, hw, hpath, rfl⟩, rfl⟩, _, ⟨closing, x, hx, hc, rfl⟩, _, ⟨gap, y, hy, hgap, rfl⟩,
    _, ⟨hend, rfl⟩, hq⟩ := hq
  obtain rfl := List.mem_singleton.mp hq
  have hin : v.In input := by
    rw [hv]
    exact (((hp.after hr).close 1 p.passed).after hs).after ht
  have hverb : v.group? input 1 = some (verb enters) := by
    rw [hv, Place.group?_after one_ne_zero, Place.group?_after one_ne_zero]
    exact hp.group?_close hr one_ne_zero
  have hnewline : '\n' ∉ path := fun h => by simpa [CharSet.notNewline] using hpath _ h
  refine ⟨enters, opening, path, closing, gap, ?_, ho, hnewline, hc, fun c hc => ?_, ?_, ?_⟩
  · simp only [Place.rest_after, Place.rest_close] at hs ht hx hy hend
    obtain rfl : v.rest = t := by rw [hv, Place.rest_after]
    rw [hr, hs, ht, hw, hx, hy, hend]
    simp
  · exact CharSet.contains_space c ▸ hgap c hc
  · simpa using hverb
  · rw [Place.group?_after two_ne_zero, Place.group?_after two_ne_zero]
    exact hin.group?_close hw two_ne_zero

theorem exists_mem_ways_path {enters : Bool} {opening closing : Char} {path gap : Text}
    (hp : p.rest = verb enters ++ " directory ".toList ++ (opening :: path ++ closing :: gap))
    (ho : opening ∈ ['\x60', '\'', '"']) (hpath : '\n' ∉ path) (hc : closing ∈ ['\'', '"'])
    (hgap : ∀ c ∈ gap, isAsciiBlank c) : ∃ q, q ∈ (concat pathNodes).ways p := by
  have hpath : ∀ c ∈ path, CharSet.notNewline.contains c := by
    intro c hc
    simpa [CharSet.notNewline] using ne_of_mem_of_not_mem hc hpath
  have hgap : ∀ c ∈ gap, CharSet.space.contains c := fun c hc =>
    (CharSet.contains_space c).trans (hgap c hc)
  simp only [pathNodes, mem_ways_concat_cons, ways_group, List.mem_map, mem_ways_verb,
    mem_ways_literal, mem_ways_oneOf, Spelling.blanks, Spelling.blank, mem_ways_many_one,
    mem_ways_textEnd]
  rw [List.append_assoc] at hp
  exact ⟨_, _, ⟨_, ⟨enters, _, hp, rfl⟩, rfl⟩, _, ⟨_, rfl, rfl⟩, _, ⟨opening, _, rfl, ho, rfl⟩, _,
    ⟨_, ⟨path, _, rfl, hpath, rfl⟩, rfl⟩, _, ⟨closing, _, rfl, hc, rfl⟩, _,
    ⟨gap, [], (List.append_nil gap).symm, hgap, rfl⟩, _, ⟨rfl, rfl⟩, List.mem_singleton_self _⟩

/-! ### The messages are told from the other lines -/

/-- A match is a message, with its verb and its path in the groups. -/
theorem exists_message_of_mem_ways (hq : q ∈ message.ways (Place.start line)) :
    ∃ m : Message, m.text = line ∧ q.group? line 1 = some (verb m.enters) ∧
      q.group? line 2 = some m.path := by
  rw [message_eq, mem_ways_concat_append] at hq
  obtain ⟨u, hu, hq⟩ := hq
  obtain ⟨front, hfront, hline⟩ := (concat senderNodes).within_language _ u hu
  obtain ⟨program, level, hprogram, hlevel, rfl⟩ := mem_language_sender.mp hfront
  have hin := (Place.In.start line).reaches (forward_ways _ _ u hu)
  obtain ⟨enters, opening, path, closing, gap, hrest, ho, hpath, hc, hgap, hverb, hgroup⟩ :=
    exists_of_mem_ways_path hin hq
  refine ⟨⟨program, level, enters, opening, path, closing, gap, hprogram, hlevel, ho, hpath, hc,
    hgap⟩, ?_, hverb, hgroup⟩
  rw [Place.rest_start, hrest] at hline
  simp [hline, Message.text, Message.sender, Message.quoted]

theorem Message.exists_mem_ways (m : Message) : ∃ q, q ∈ message.ways (Place.start m.text) := by
  have hsender : m.sender ++ [' '] ∈ (concat senderNodes).language :=
    mem_language_sender.mpr ⟨m.program, m.level, m.program_not_blank, m.level_eq, by
      simp [Message.sender]⟩
  obtain ⟨u, hu, hrest⟩ := covers_language (by decide) (Place.start m.text) _ hsender
    (verb m.enters ++ " directory ".toList ++ m.quoted) (by simp [Message.text])
  obtain ⟨q, hq⟩ := exists_mem_ways_path hrest m.opening_mem m.path_one_line m.closing_mem
    m.gap_blank
  exact ⟨q, message_eq ▸ mem_ways_concat_append.mpr ⟨u, hu, hq⟩⟩

theorem change?_eq_some_iff {change : Change} :
    change? line = some change ↔ ∃ m : Message, m.text = line ∧ m.change = change := by
  have hfirst {q : Place} (h : message.match? line = some q) :
      ∃ m : Message, m.text = line ∧ change? line = some m.change := by
    obtain ⟨m, hm, hverb, hpath⟩ := exists_message_of_mem_ways (List.mem_of_mem_head? h)
    refine ⟨m, hm, ?_⟩
    rw [change?, h, Option.bind_some, hverb, hpath, Message.change]
    cases m.enters <;> rfl
  constructor
  · intro h
    obtain ⟨q, hq, -⟩ := Option.bind_eq_some_iff.mp h
    obtain ⟨m, hm, hc⟩ := hfirst hq
    exact ⟨m, hm, Option.some.inj (hc.symm.trans h)⟩
  · rintro ⟨m, rfl, rfl⟩
    obtain ⟨q, hq⟩ := m.exists_mem_ways
    obtain ⟨q, hq⟩ := Option.isSome_iff_exists.mp
      (List.isSome_head?.mpr (List.ne_nil_of_mem hq))
    obtain ⟨m', hm, hc⟩ := hfirst hq
    rw [hc, Message.change_eq_of_text_eq hm]

/-- Trimming takes blank characters from the ends of a message, but not from its path. -/
theorem Message.exists_text_eq_trim (m : Message) {front back : Text} (hf : front.all isBlank)
    (hb : back.all isBlank) :
    ∃ m' : Message, m'.text = Text.trim (front ++ m.text ++ back) ∧ m'.change = m.change := by
  let body := "ake".toList ++ m.level ++ ": ".toList ++ verb m.enters ++ " directory ".toList ++
    m.opening :: m.path
  have hprogram : ∀ c ∈ m.program.trimStart, isAsciiBlank c = false := fun c hc =>
    m.program_not_blank c ((List.dropWhile_suffix isBlank).subset hc)
  refine ⟨{ m with program := m.program.trimStart, gap := [], program_not_blank := hprogram,
                   gap_blank := nofun }, ?_, rfl⟩
  have hclosing : isBlank m.closing = false := by
    have h := m.closing_mem
    simp only [List.mem_cons, List.not_mem_nil, or_false] at h
    rcases h with h | h <;> rw [h] <;> decide
  have hgap : (m.gap ++ back).all isBlank := by
    rw [List.all_append, hb, Bool.and_true, List.all_eq_true]
    exact fun c hc => isBlank_of_isAsciiBlank (m.gap_blank c hc)
  have hstart : Text.trimStart (front ++ m.program) = m.program.trimStart :=
    List.dropWhile_append_of_pos fun c hc => List.all_eq_true.mp hf c hc
  have hline : front ++ m.text ++ back =
      (front ++ m.program) ++ 'm' :: (body ++ m.closing :: (m.gap ++ back)) := by
    simp [Message.text, sender, quoted, body]
  rw [hline, Text.trim, Text.trimStart_append_cons (by decide), hstart, ← List.cons_append,
    ← List.append_assoc, Text.trimEnd_append_cons hclosing hgap]
  simp [Message.text, sender, quoted, body]

end DirectoryStack

namespace BuildLog

open DirectoryStack (Message)

variable {line : Text} {change : DirectoryStack.Change}

theorem classify_eq_directoryChange_iff : classify line = .directoryChange change ↔
    ∃ (front back : Text) (m : Message), front.all isBlank ∧ back.all isBlank ∧
      line = front ++ m.text ++ back ∧ m.change = change := by
  have hclassify : classify line = .directoryChange change ↔
      ∃ m : Message, m.text = line.trim ∧ m.change = change := by
    rw [← DirectoryStack.change?_eq_some_iff, classify]
    split
    · next h =>
      rw [List.isEmpty_iff.mp h, show DirectoryStack.change? [] = none by decide]
      exact iff_of_false nofun nofun
    · cases DirectoryStack.change? line.trim <;> simp
  rw [hclassify]
  constructor
  · rintro ⟨m, hm, hc⟩
    obtain ⟨front, back, hline, hf, hb⟩ := line.exists_trim
    exact ⟨front, back, m, hf, hb, hm ▸ hline, hc⟩
  · rintro ⟨front, back, m, hf, hb, rfl, rfl⟩
    exact m.exists_text_eq_trim hf hb

end BuildLog

end SettingsScan
