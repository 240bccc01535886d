import SettingsScan.Option.Spelling
import SettingsScan.Proofs.Detection.FileName
import SettingsScan.Proofs.Pattern.Language
import SettingsScan.Proofs.Pattern.Seek

/-! # Tools at the front of a line

The patterns of a tool take what stands in front of the first blank character, or between the first
two double quotes, if it ends with a file name of the tool.
-/

namespace SettingsScan

open Pattern (Node CharSet Place)
open Pattern.Node
open Spelling (blank notBlank)

namespace ToolPatterns

def pathNode (quote : Text) (path : Node) : Node :=
  concat (.look .textStart ::
    (quote.map char ++ group 1 path :: (quote.map char ++ [blank])))

variable {quote line : Text} {path : Node} {m : ToolMatch} {q : Place}

theorem mem_ways_pathNode :
    q ∈ (pathNode quote path).ways (Place.start line) ↔
      ∃ r, line = quote ++ r ∧ ∃ u ∈ path.ways ((Place.start line).after quote r),
        ∃ b rest, u.rest = quote ++ b :: rest ∧ isAsciiBlank b ∧
          q = (u.close 1 ((Place.start line).after quote r).passed).after (quote ++ [b]) rest := by
  have hlook (u : Place) : u ∈ (look .textStart).ways (Place.start line) ↔ u = Place.start line :=
    List.mem_singleton
  have hblank (u : Place) : q ∈ (concat [blank]).ways u ↔
      ∃ b r, u.rest = b :: r ∧ isAsciiBlank b ∧ q = u.after [b] r := by
    rw [concat, blank, mem_ways_one]
    simp only [CharSet.contains_space]
  simp only [pathNode, mem_ways_concat_cons, hlook, exists_eq_left, mem_ways_chars, hblank,
    ways_group, List.mem_map]
  constructor
  · rintro ⟨r, hr, u', ⟨u, hu, rfl⟩, r', hr', b, rest, hrest, hb, rfl⟩
    obtain rfl : r' = b :: rest := hrest
    exact ⟨r, hr, u, hu, b, rest, hr', hb, by rw [Place.after_after]⟩
  · rintro ⟨r, hr, u, hu, b, rest, hrest, hb, rfl⟩
    exact ⟨r, hr, _, ⟨u, hu, rfl⟩, b :: rest, hrest, b, rest, rfl, hb, by rw [Place.after_after]⟩

theorem group?_of_mem_ways (hq : q ∈ (pathNode quote path).ways (Place.start line)) :
    ∃ command ∈ path.language, ∃ b, isAsciiBlank b ∧ q.group? line 1 = some command ∧
      line = quote ++ command ++ quote ++ b :: q.rest := by
  obtain ⟨r, rfl, u, hu, b, rest, hrest, hb, rfl⟩ := mem_ways_pathNode.mp hq
  obtain ⟨command, hc, hr⟩ := path.within_language _ u hu
  have hin := (Place.In.start (quote ++ r)).after rfl
  have hgroup := hin.group?_of_reaches one_ne_zero (path.forward_ways _ u hu) hr
  refine ⟨command, hc, b, hb, by rw [Place.group?_after one_ne_zero, hgroup], ?_⟩
  rw [Place.rest_after] at hr
  rw [hr, hrest]
  simp

/-- The end of the path can be told by a character that is not in it. -/
theorem path_unique {p : Char → Bool} {s t u v : Text} {b c : Char}
    (hp : ∀ b, isAsciiBlank b → (quote ++ [b]).head?.any p)
    (hs : ∀ a ∈ s, p a = false) (ht : ∀ a ∈ t, p a = false)
    (hb : isAsciiBlank b) (hc : isAsciiBlank c)
    (h : quote ++ s ++ quote ++ b :: u = quote ++ t ++ quote ++ c :: v) : s = t ∧ u = v := by
  have cut {s u : Text} {b : Char} (hs : ∀ a ∈ s, p a = false) (hb : isAsciiBlank b) :
      Text.cut? p (s ++ (quote ++ b :: u)) = some (s, (quote ++ b :: u).tail) := by
    obtain ⟨a, ha, hpa⟩ := (Option.any_eq_true _ _).mp (hp b hb)
    obtain ⟨r, hr⟩ := List.head?_eq_some_iff.mp ha
    have hq : quote ++ b :: u = a :: (r ++ u) := by
      rw [← List.singleton_append, ← List.append_assoc, hr, List.cons_append]
    rw [hq, Text.cut?_append_cons hs hpa, List.tail_cons]
  have h : s ++ (quote ++ b :: u) = t ++ (quote ++ c :: v) := by simpa using h
  have hcut := congrArg (Text.cut? p) h
  rw [cut hs hb, cut ht hc] at hcut
  obtain ⟨rfl, -⟩ := Prod.mk.inj (Option.some.inj hcut)
  have htail := List.append_cancel_left (List.append_cancel_left h)
  exact ⟨rfl, (List.cons.inj htail).2⟩

/-- The pattern takes the front of a line of the right form. -/
theorem matchWith?_eq_some_iff {p : Char → Bool} (hf : path.isFree)
    (hp : ∀ b, isAsciiBlank b → (quote ++ [b]).head?.any p)
    (hc : ∀ t ∈ path.language, ∀ c ∈ t, p c = false) :
    matchWith? (pathNode quote path) line = some m ↔
      m.command ∈ path.language ∧ ∃ b, isAsciiBlank b ∧
        line = quote ++ m.command ++ quote ++ b :: m.arguments := by
  constructor
  · intro h
    obtain ⟨q, hq, h⟩ := Option.bind_eq_some_iff.mp h
    obtain ⟨command, hcommand, rfl⟩ := Option.map_eq_some_iff.mp h
    obtain ⟨t, ht, b, hb, hg, hl⟩ := group?_of_mem_ways (List.mem_of_mem_head? hq)
    obtain rfl := Option.some.inj (hg.symm.trans hcommand)
    exact ⟨ht, b, hb, hl⟩
  · rintro ⟨hm, b, hb, hl⟩
    have hl' : line = quote ++ (m.command ++ (quote ++ b :: m.arguments)) := by simp [hl]
    obtain ⟨u, hu, hrest⟩ := covers_language hf ((Place.start line).after quote _) _ hm _ rfl
    have hway := mem_ways_pathNode.mpr ⟨_, hl', u, hu, b, m.arguments, hrest, hb, rfl⟩
    -- some way takes the path, so that the first way does
    obtain ⟨q, hq⟩ := Option.isSome_iff_exists.mp
      (List.isSome_head?.mpr (List.ne_nil_of_mem hway))
    obtain ⟨t, ht, c, hblank, hg, hlt⟩ := group?_of_mem_ways (List.mem_of_mem_head? hq)
    obtain ⟨rfl, harg⟩ := path_unique hp (hc _ hm) (hc t ht) hb hblank (hl.symm.trans hlt)
    rw [matchWith?, Node.match?, hq, Option.bind_some, hg, Option.map_some, ← harg]

def inDirectory (directory : CharSet) (name : Node) : Node :=
  seq (opt (seq (many (one directory)) (char '/'))) name

theorem mem_language_inDirectory {directory : CharSet} {name : Node} {t : Text}
    (hd : directory.contains '/')
    (hn : ∀ s ∈ name.language, '/' ∉ s ∧ ∀ c ∈ s, directory.contains c) :
    t ∈ (inDirectory directory name).language ↔
      t.lastSegment ∈ name.language ∧ ∀ c ∈ t, directory.contains c := by
  rw [inDirectory, mem_language_seq]
  simp only [mem_language_opt, mem_language_seq, mem_language_many_one, mem_language_char]
  constructor
  · rintro ⟨front, rfl | ⟨d, hdir, slash, rfl, rfl⟩, s, hs, rfl⟩
    · obtain ⟨hslash, hchars⟩ := hn s hs
      exact ⟨by rwa [List.nil_append, Text.lastSegment_of_not_mem hslash], hchars⟩
    · obtain ⟨hslash, hchars⟩ := hn s hs
      rw [List.append_assoc, List.singleton_append, Text.lastSegment_append d hslash]
      refine ⟨hs, fun c hc => ?_⟩
      rcases List.mem_append.mp hc with hc | hc
      · exact hdir c hc
      · rcases List.mem_cons.mp hc with rfl | hc
        · exact hd
        · exact hchars c hc
  · rintro ⟨hs, hchars⟩
    rcases t.eq_lastSegment_or with ht | ⟨d, ht⟩
    · exact ⟨[], .inl rfl, t.lastSegment, hs, ht.symm⟩
    · refine ⟨d ++ ['/'], .inr ⟨d, fun c hc => ?_, ['/'], rfl, rfl⟩, t.lastSegment, hs, ?_⟩
      · exact hchars c (ht ▸ List.mem_append_left _ hc)
      · rw [List.append_assoc, List.singleton_append, ← ht]

end ToolPatterns

/-! ### The patterns of the built-in tools -/

namespace BuiltinTool

open FileName

def targetSet : CharSet :=
  .complement (.union (.union (.union (.union .empty .space) (.single '"')) (.single '/'))
    (.single '\\'))

def nameNode (t : BuiltinTool) : Node :=
  if t.cross then concat (some_ (one targetSet) :: char '-' :: t.stem.map char)
  else literal t.stem

def versionNode : Node :=
  concat [opt (char '-'), some_ (one .digit),
    many (group 2 (seq (char '.') (some_ (one .digit))))]

def extensionNode : Node :=
  concat (char '.' :: "exe".toList.map fun c => one (.foldCase (.single c)))

def fileNameNode (t : BuiltinTool) (m : DetectionMethod) : Node :=
  concat (t.nameNode :: ((if m.hasVersion then [versionNode] else []) ++
    if m.hasExtension then [extensionNode] else []))

def notQuote : CharSet := .complement (.union .empty (.single '"'))

def patterns (t : BuiltinTool) (m : DetectionMethod) : ToolPatterns where
  quoted := ToolPatterns.pathNode ['"'] (ToolPatterns.inDirectory notQuote (t.fileNameNode m))
  unquoted := ToolPatterns.pathNode [] (ToolPatterns.inDirectory notBlank (t.fileNameNode m))

def patterns? (t : BuiltinTool) (versions : Bool) (m : DetectionMethod) : Option ToolPatterns :=
  if m.hasVersion && !versions then none else some (t.patterns m)

variable {t : BuiltinTool} {m : DetectionMethod} {name : Text}

theorem contains_targetSet (c : Char) : targetSet.contains c = isTargetChar c := by
  simp [targetSet, isTargetChar, CharSet.contains_space, CharSet.contains]

theorem mem_language_nameNode : name ∈ t.nameNode.language ↔ t.Names name := by
  unfold nameNode Names
  split
  · have hstem : concat (char '-' :: t.stem.map char) = literal ('-' :: t.stem) := rfl
    rw [mem_language_concat_cons, hstem]
    simp only [mem_language_some_one, mem_language_literal, contains_targetSet]
    constructor
    · rintro ⟨target, ⟨hne, htarget⟩, _, rfl, rfl⟩
      exact ⟨target, hne, htarget, rfl⟩
    · rintro ⟨target, hne, htarget, rfl⟩
      exact ⟨target, ⟨hne, htarget⟩, _, rfl, rfl⟩
  · exact mem_language_literal

theorem mem_language_number : name ∈ (some_ (one .digit)).language ↔ IsNumber name :=
  mem_language_some_one

theorem mem_language_versionNode : name ∈ versionNode.language ↔ IsVersion name := by
  have hpart (p : Text) : p ∈ (group 2 (seq (char '.') (some_ (one .digit)))).language ↔
      ∃ n, IsNumber n ∧ p = '.' :: n := by
    change p ∈ (seq (char '.') (some_ (one .digit))).language ↔ _
    rw [mem_language_seq]
    simp only [mem_language_char, mem_language_number]
    constructor
    · rintro ⟨_, rfl, n, hn, rfl⟩
      exact ⟨n, hn, rfl⟩
    · rintro ⟨n, hn, rfl⟩
      exact ⟨_, rfl, n, hn, rfl⟩
  have hmany (p : Text) :
      p ∈ (many (group 2 (seq (char '.') (some_ (one .digit))))).language ↔
        ∃ more : List Text, (∀ n ∈ more, IsNumber n) ∧ p = more.flatMap ('.' :: ·) := by
    rw [mem_language_many]
    simp only [hpart]
    constructor
    · rintro ⟨pieces, rfl, h⟩
      refine ⟨pieces.map List.tail, ?_, ?_⟩
      · intro n hn
        obtain ⟨p, hp, rfl⟩ := List.mem_map.mp hn
        obtain ⟨k, hk, rfl⟩ := h p hp
        exact hk
      · rw [List.flatMap_map, List.flatMap_def]
        congr 1
        refine (List.map_id pieces).symm.trans (List.map_congr_left fun p hp => ?_)
        obtain ⟨n, -, rfl⟩ := h p hp
        rfl
    · rintro ⟨more, h, rfl⟩
      refine ⟨more.map ('.' :: ·), List.flatMap_def, fun p hp => ?_⟩
      obtain ⟨n, hn, rfl⟩ := List.mem_map.mp hp
      exact ⟨n, h n hn, rfl⟩
  have hseq : versionNode = seq (opt (char '-')) (seq (some_ (one .digit))
      (many (group 2 (seq (char '.') (some_ (one .digit)))))) := rfl
  simp only [hseq, mem_language_seq, mem_language_opt, mem_language_char, mem_language_number,
    hmany]
  constructor
  · rintro ⟨dash, hdash, _, ⟨first, hfirst, _, ⟨more, hmore, rfl⟩, rfl⟩, rfl⟩
    exact ⟨dash, first, more, hdash, hfirst, hmore, (List.append_assoc ..).symm⟩
  · rintro ⟨dash, first, more, hdash, hfirst, hmore, rfl⟩
    exact ⟨dash, hdash, _, ⟨first, hfirst, _, ⟨more, hmore, rfl⟩, rfl⟩,
      (List.append_assoc ..).symm⟩

theorem mem_language_extensionNode : name ∈ extensionNode.language ↔ IsExe name := by
  have hlower : ∀ c ∈ "exe".toList, c.isLower := List.all_eq_true.mp (by decide)
  rw [extensionNode, mem_language_concat_cons]
  simp only [mem_language_char]
  constructor
  · rintro ⟨_, rfl, letters, hl, rfl⟩
    exact ⟨letters, (mem_language_letters hlower).mp hl, rfl⟩
  · rintro ⟨letters, hl, rfl⟩
    exact ⟨_, rfl, letters, (mem_language_letters hlower).mpr hl, rfl⟩

theorem mem_language_fileNameNode :
    name ∈ (t.fileNameNode m).language ↔ t.HasFileName true m name := by
  have hempty (u : Text) : u ∈ (concat []).language ↔ u = [] := Language.mem_one u
  rw [fileNameNode, ← List.append_nil (if m.hasExtension then _ else _), mem_language_concat_cons]
  simp only [mem_language_concat_if, mem_language_nameNode, mem_language_versionNode,
    mem_language_extensionNode, hempty]
  constructor
  · rintro ⟨base, hbase, _, ⟨version, hversion, _, ⟨extension, hextension, _, rfl, rfl⟩, rfl⟩, rfl⟩
    exact ⟨fun _ => rfl, base, version, extension, hbase, hversion, hextension, by simp⟩
  · rintro ⟨-, base, version, extension, hbase, hversion, hextension, rfl⟩
    exact ⟨base, hbase, _, ⟨version, hversion, _, ⟨extension, hextension, _, rfl, rfl⟩, rfl⟩,
      by simp⟩

theorem isFree_fileNameNode (t : BuiltinTool) (m : DetectionMethod) :
    (t.fileNameNode m).isFree := by
  have hchars (u : Text) : (u.map char).all isFree := by simp [isFree, char]
  have hname : t.nameNode.isFree := by
    unfold nameNode
    split
    · rw [isFree_concat]
      exact hchars _
    · rw [literal, isFree_concat]
      exact hchars _
  have hversion : versionNode.isFree := by decide
  have hextension : extensionNode.isFree := by decide
  rw [fileNameNode, isFree_concat]
  cases m <;> simp [DetectionMethod.hasVersion, DetectionMethod.hasExtension, hname, hversion,
    hextension]

/-! ### What the patterns take -/

/-- A line starts with a path of the tool, and a blank character follows: the last segment of the
path is a file name of the tool. -/
def Recognizes (t : BuiltinTool) (versions : Bool) (m : DetectionMethod) (line : Text)
    (found : ToolMatch) : Prop :=
  t.HasFileName versions m found.command.lastSegment ∧
    (∀ c ∈ found.command, isAsciiBlank c = false) ∧
    ∃ b, isAsciiBlank b ∧ line = found.command ++ b :: found.arguments

def RecognizesQuoted (t : BuiltinTool) (versions : Bool) (m : DetectionMethod) (line : Text)
    (found : ToolMatch) : Prop :=
  t.HasFileName versions m found.command.lastSegment ∧ '"' ∉ found.command ∧
    ∃ b, isAsciiBlank b ∧ line = '"' :: found.command ++ '"' :: b :: found.arguments

variable {line : Text} {found : ToolMatch} {versions : Bool}

/-- What the patterns take is a path of the right characters that ends with a file name. -/
theorem matchWith?_pathNode {quote : Text} {directory : CharSet} {p : Char → Bool} (ht : t ∈ all)
    (hd : directory.contains '/') (hn : ∀ c, isTargetChar c → directory.contains c)
    (hp : ∀ b, isAsciiBlank b → (quote ++ [b]).head?.any p)
    (hc : ∀ c, directory.contains c = !p c) :
    ToolPatterns.matchWith? (ToolPatterns.pathNode quote
        (ToolPatterns.inDirectory directory (t.fileNameNode m))) line = some found ↔
      t.HasFileName true m found.command.lastSegment ∧ (∀ c ∈ found.command, p c = false) ∧
        ∃ b, isAsciiBlank b ∧
          line = quote ++ found.command ++ quote ++ b :: found.arguments := by
  have hpath {path : Text} :
      path ∈ (ToolPatterns.inDirectory directory (t.fileNameNode m)).language ↔
        t.HasFileName true m path.lastSegment ∧ ∀ c ∈ path, p c = false := by
    rw [ToolPatterns.mem_language_inDirectory hd, mem_language_fileNameNode]
    · simp only [hc, Bool.not_eq_true']
    · intro s hs
      have hchars := (mem_language_fileNameNode.mp hs).isTargetChar ht
      exact ⟨fun h => absurd (hchars _ h) (by decide), fun c h => hn c (hchars c h)⟩
  have hfree : (ToolPatterns.inDirectory directory (t.fileNameNode m)).isFree :=
    isFree_fileNameNode t m
  rw [ToolPatterns.matchWith?_eq_some_iff hfree hp fun s hs => (hpath.mp hs).2, hpath, and_assoc]

theorem matchWith?_unquoted (ht : t ∈ all) :
    ToolPatterns.matchWith? (t.patterns m).unquoted line = some found ↔
      t.Recognizes true m line found := by
  have hset (c : Char) : notBlank.contains c = !isAsciiBlank c := by
    rw [notBlank, CharSet.contains_complement, CharSet.contains_space]
  rw [patterns, matchWith?_pathNode ht (by decide) ?_ (by simp) hset]
  · simp [Recognizes]
  · intro c hc
    simp only [isTargetChar, Bool.and_eq_true] at hc
    rw [hset, hc.1.1.1]

theorem matchWith?_quoted (ht : t ∈ all) :
    ToolPatterns.matchWith? (t.patterns m).quoted line = some found ↔
      t.RecognizesQuoted true m line found := by
  have hset (c : Char) : notQuote.contains c = !decide (c = '"') := by
    simp [notQuote, CharSet.contains]
  rw [patterns, matchWith?_pathNode ht (by decide) ?_ (by simp) hset]
  · have hquote (t : Text) : (∀ c ∈ t, decide (c = '"') = false) ↔ '"' ∉ t := by
      simp only [decide_eq_false_iff_not]
      exact List.forall_mem_ne'
    simp only [RecognizesQuoted, hquote, List.nil_append, List.append_assoc, List.cons_append]
  · intro c hc
    rw [hset, Bool.not_eq_true', decide_eq_false_iff_not]
    rintro rfl
    cases hc

theorem hasFileName_iff :
    t.HasFileName versions m name ↔ (m.hasVersion → versions) ∧ t.HasFileName true m name := by
  simp [HasFileName]

/-- The quotes are tried first. -/
theorem match?_eq_some_iff (ht : t ∈ all) :
    (t.patterns? versions m).bind (·.match? line) = some found ↔
      t.RecognizesQuoted versions m line found ∨
        (∀ f, ¬ t.RecognizesQuoted versions m line f) ∧ t.Recognizes versions m line found := by
  unfold patterns?
  by_cases hv : m.hasVersion → versions
  · have hq (f : ToolMatch) :
        t.RecognizesQuoted versions m line f ↔ t.RecognizesQuoted true m line f := by
      rw [RecognizesQuoted, hasFileName_iff, and_iff_right hv, RecognizesQuoted]
    have hu (f : ToolMatch) : t.Recognizes versions m line f ↔ t.Recognizes true m line f := by
      rw [Recognizes, hasFileName_iff, and_iff_right hv, Recognizes]
    have hnone : ToolPatterns.matchWith? (t.patterns m).quoted line = none ↔
        ∀ f, ¬ t.RecognizesQuoted true m line f := by
      rw [Option.eq_none_iff_forall_ne_some]
      exact forall_congr' fun f => not_congr (matchWith?_quoted ht)
    rw [if_neg (by simpa using hv), Option.bind_some, ToolPatterns.match?, Option.or_eq_some_iff,
      matchWith?_quoted ht, matchWith?_unquoted ht, hnone]
    simp only [hq, hu]
  · have hn (name : Text) : ¬ t.HasFileName versions m name := fun h => hv h.1
    simp [RecognizesQuoted, Recognizes, hn, show m.hasVersion && !versions from by simpa using hv]

/-! ### One path at the start of a line -/

variable {u : BuiltinTool} {w : Bool} {n : DetectionMethod} {found' : ToolMatch}

theorem Recognizes.eq_of_line {command arguments : Text} {b : Char}
    (h : t.Recognizes versions m line found) (hc : ∀ c ∈ command, isAsciiBlank c = false)
    (hb : isAsciiBlank b) (hl : line = command ++ b :: arguments) :
    found = { command, arguments } := by
  obtain ⟨-, hc', b', hb', hl'⟩ := h
  have hcut := Text.cut?_append_cons (t := found.arguments) hc' hb'
  rw [← hl', hl, Text.cut?_append_cons hc hb] at hcut
  obtain ⟨rfl, rfl⟩ := Prod.mk.inj (Option.some.inj hcut)
  rfl

theorem recognizes_path_iff {path arguments : Text} {b : Char}
    (hp : ∀ c ∈ path, isAsciiBlank c = false) (hb : isAsciiBlank b) :
    t.Recognizes versions m (path ++ b :: arguments) found ↔
      t.HasFileName versions m path.lastSegment ∧ found = { command := path, arguments } := by
  constructor
  · intro h
    obtain rfl := h.eq_of_line hp hb rfl
    exact ⟨h.1, rfl⟩
  · rintro ⟨hname, rfl⟩
    exact ⟨hname, hp, b, hb, rfl⟩

theorem recognizesQuoted_path_iff {path arguments : Text} {b : Char} (hq : '"' ∉ path)
    (hb : isAsciiBlank b) :
    t.RecognizesQuoted versions m ('"' :: path ++ '"' :: b :: arguments) found ↔
      t.HasFileName versions m path.lastSegment ∧ found = { command := path, arguments } := by
  constructor
  · rintro ⟨hname, hc, b', -, hl⟩
    have hl : path ++ '"' :: b :: arguments = found.command ++ '"' :: b' :: found.arguments := by
      simpa using hl
    have hcut := congrArg (Text.cut? (· = '"')) hl
    rw [Text.cut?_closing hq, Text.cut?_closing hc] at hcut
    obtain ⟨hcommand, hrest⟩ := Prod.mk.inj (Option.some.inj hcut)
    obtain ⟨-, hrest⟩ := List.cons.inj hrest
    obtain ⟨command, rest⟩ := found
    obtain rfl : path = command := hcommand
    obtain rfl : arguments = rest := hrest
    exact ⟨hname, rfl⟩
  · rintro ⟨hname, rfl⟩
    exact ⟨hname, hq, b, hb, rfl⟩

theorem Recognizes.eq_found (h : t.Recognizes versions m line found)
    (h' : u.Recognizes w n line found') : found = found' := by
  obtain ⟨-, hc, b, hb, hl⟩ := h'
  exact h.eq_of_line hc hb hl

theorem Recognizes.unique (h : t.Recognizes versions m line found)
    (h' : u.Recognizes w n line found') (ht : t ∈ all) (hu : u ∈ all) : t = u ∧ m = n := by
  obtain rfl := h.eq_found h'
  exact h.1.unique ht hu h'.1

theorem not_recognizesQuoted (hl : line.head? ≠ some '"') :
    ¬ t.RecognizesQuoted versions m line found := by
  rintro ⟨-, -, b, -, rfl⟩
  exact hl rfl

end BuiltinTool

end SettingsScan
