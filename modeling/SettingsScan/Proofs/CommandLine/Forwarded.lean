import SettingsScan.Proofs.CommandLine.RoundTrip

/-! # Forwarded options with a quoted operand

An option that is forwarded as it is written ends where its pattern ends. The pattern for a system
root behind an equals sign knows about quotes; behind a blank character the operand is a word, and a
quoted path with a blank character in it is cut there.
-/

namespace SettingsScan

open Pattern (CharSet Hint Node Place)
open Pattern.Node
open Spelling

/-- Tried where the option is written, the pattern can only go on behind all of it. -/
structure Pattern.Node.Covers (n : Node) (option tail : Text) : Prop where
  seek_eq : ∀ {β : Type} {k : Place → Option β} {p : Place}, p.rest = option ++ tail →
    (∀ q, atEnd q.rest = false → k q = none) → n.seek k p = k (p.after option tail)

variable {n : Node} {option tail word path : Text} {quote : Char}

def OptionMatch.forwarded (option tail : Text) : OptionMatch where
  name := option
  value := none
  taken := option ++ tail.take 1
  rest := tail.drop 1

theorem Pattern.Node.Covers.exists_place (h : n.Covers option tail) (ht : atEnd tail) :
    ∃ q, (seq (group 1 n) argumentEnd).match? (option ++ tail) = some q ∧
      q.group? (option ++ tail) 1 = some option ∧
      q.passed = (option ++ tail.take 1).length ∧ q.rest = tail.drop 1 := by
  refine ⟨(((Place.start (option ++ tail)).after option tail).close 1 0).after (tail.take 1)
    (tail.drop 1), ?_, ?_, ?_, rfl⟩
  · rw [match?_eq_seek, seek_seq, seek_group, h.seek_eq rfl]
    · rw [seek_argumentEnd, Place.rest_close, Place.rest_after, if_pos ht]
      rfl
    · intro q hq
      rw [seek_argumentEnd, Place.rest_close, if_neg (by simp [hq])]
  · rw [Place.group?_after (by decide)]
    exact (Place.In.start _).group?_close rfl (by decide)
  · simp [Place.start]

theorem Pattern.Node.Covers.lookingAt (h : n.Covers option tail) (hn : option ≠ [])
    (ht : atEnd tail) :
    OptionMatcher.lookingAt { node := seq (group 1 n) argumentEnd } (option ++ tail) =
      some (.forwarded option tail) := by
  obtain ⟨q, hmatch, hgroup, hpassed, hrest⟩ := h.exists_place ht
  have htake : (option ++ tail).take (option ++ tail.take 1).length = option ++ tail.take 1 := by
    have hsplit : option ++ tail = option ++ tail.take 1 ++ tail.drop 1 := by
      rw [List.append_assoc, List.take_append_drop]
    rw [hsplit, List.take_left]
  simp only [OptionMatcher.lookingAt, hmatch, hgroup, hpassed, htake, hrest]
  rw [if_neg (by simp [hn])]
  rfl

/-! ### The spellings of a system root -/

def standardSpelling : Node :=
  concat [char '-', opt (char '-'), literal "std=", Dialect.operand]

def quotedSpelling (quote : Char) : Node :=
  concat [literal "--sysroot=", char quote, many (one (.complement (.single quote))), char quote]

def plainSpelling : Node := seq (literal "--sysroot=") Dialect.operand

def wordSpelling (lead : Text) (separator : Node) : Node :=
  concat [literal lead, separator, Dialect.operand]

theorem covers_quoted (h : quote ∉ path) (tail : Text) :
    (quotedSpelling quote).Covers ("--sysroot=".toList ++ quote :: (path ++ [quote])) tail := by
  refine ⟨fun {β k p} hp _ => ?_⟩
  have hrest : p.rest = "--sysroot=".toList ++ quote :: (path ++ quote :: tail) := by simp [hp]
  rw [quotedSpelling, seek_concat_cons, seek_literal hrest, seek_concat_cons, seek_char_cons rfl,
    seek_concat_cons, concat, (runs_quoted quote).seek_eq fun q hq => seek_char_eq_none hq,
    Place.rest_after, Text.cut?_closing h tail, Option.bind_some]
  refine (seek_char_cons rfl).trans ?_
  simp [Place.after_after]

theorem seek_operand_eq_none {β : Type} {k : Place → Option β} {p : Place}
    (h : p.rest.head?.any CharSet.space.contains) : Dialect.operand.seek k p = none := by
  rw [Dialect.operand, seek_some (productive_one _), seek_one_eq_none]
  obtain ⟨c, hc, hs⟩ := (Option.any_eq_true _ _).mp h
  simp [hc, notBlank, hs]

theorem head?_word_any_space (hn : word ≠ []) (hw : ∀ c ∈ word, isAsciiBlank c = false)
    (tail : Text) : (word ++ tail).head?.any CharSet.space.contains = false := by
  obtain ⟨c, t, rfl⟩ := List.exists_cons_of_ne_nil hn
  simpa [CharSet.contains_space] using hw c List.mem_cons_self

/-- The operand is the word, if nothing can go on in the middle of a word. -/
theorem seek_operand {β : Type} {k : Place → Option β} {p : Place} (hp : p.rest = word ++ tail)
    (hn : word ≠ []) (hw : ∀ c ∈ word, isAsciiBlank c = false) (ht : atEnd tail)
    (hk : ∀ q, atEnd q.rest = false → k q = none) :
    Dialect.operand.seek k p = k (p.after word tail) := by
  have hword : ∀ c ∈ word, notBlank.contains c := by
    intro c hc
    simp [notBlank, CharSet.contains_space, hw c hc]
  have htail : tail.head?.any notBlank.contains = false := by
    cases tail with
    | nil => rfl
    | cons c t => simpa [notBlank, CharSet.contains_space, atEnd] using ht
  rw [Dialect.operand, seek_some_one hp hn hword htail]
  intro q hq
  apply hk
  cases hr : q.rest with
  | nil => simp [hr] at hq
  | cons c r => simpa [hr, notBlank, CharSet.contains_space, atEnd] using hq

theorem covers_word {separator : Node} (lead : Text)
    (hs : separator = some_ blank ∨ separator = many blank) (hn : word ≠ [])
    (hw : ∀ c ∈ word, isAsciiBlank c = false) (ht : atEnd tail) :
    (wordSpelling lead separator).Covers (lead ++ ' ' :: word) tail := by
  refine ⟨fun {β k p} hp hk => ?_⟩
  have hrest : p.rest = lead ++ ([' '] ++ (word ++ tail)) := by simp [hp]
  have hspace : ∀ c ∈ [' '], CharSet.space.contains c := by
    simp [CharSet.contains_space, isAsciiBlank]
  have hhead := head?_word_any_space hn hw tail
  have hseparator {q : Place} (hq : q.rest = [' '] ++ (word ++ tail)) :
      separator.seek (Dialect.operand.seek k) q =
        Dialect.operand.seek k (q.after [' '] (word ++ tail)) := by
    rcases hs with rfl | rfl
    · exact seek_some_one hq (by simp) hspace hhead fun u hu => seek_operand_eq_none hu
    · exact seek_many_one hq hspace hhead fun u hu => seek_operand_eq_none hu
  rw [wordSpelling, seek_concat_cons, seek_literal hrest, seek_concat_cons, concat, hseparator rfl,
    seek_operand rfl hn hw ht hk]
  simp [Place.after_after]

theorem lookingAt_standard_eq_none (t : Text) :
    OptionMatcher.lookingAt { node := seq (group 1 standardSpelling) argumentEnd }
      ("--sysroot".toList ++ t) = none := by
  have hname {β : Type} (k : Place → Option β) {p : Place} {u r : Text}
      (hu : u = "-".toList ∨ u = "sy".toList) (hp : p.rest = u ++ r) :
      (concat [literal "std=", Dialect.operand]).seek k p = none := by
    rcases hu with rfl | rfl
    · exact seek_eq_none_of_mayMatch (k := fun _ => true) (by decide) (Hint.fits_exactly_map _) hp
        fun _ _ _ hk => nomatch hk
    · exact seek_eq_none_of_mayMatch (k := fun _ => true) (by decide) (Hint.fits_exactly_map _) hp
        fun _ _ _ hk => nomatch hk
  have hfirst : (Place.start ("--sysroot".toList ++ t)).rest = '-' :: ("-sysroot".toList ++ t) :=
    rfl
  have hsecond : "-sysroot".toList ++ t = '-' :: ("sysroot".toList ++ t) := rfl
  apply OptionMatcher.lookingAt_eq_none
  rw [match?_eq_seek, seek_seq, seek_group, standardSpelling, seek_concat_cons,
    seek_char_cons hfirst, seek_concat_cons, seek_opt, hname _ (.inl rfl) hsecond, Option.or_none,
    seek_char_cons hsecond]
  exact hname _ (.inr rfl) rfl

theorem findSome?_behind_standard {t : Text} {m : OptionMatch}
    (h : OptionMatcher.lookingAt { node := seq (group 1 n) argumentEnd } ("--sysroot".toList ++ t) =
      some m) (more : List Node) :
    (verbatim (standardSpelling :: n :: more)).findSome? (·.lookingAt ("--sysroot".toList ++ t)) =
      some m := by
  rw [verbatim, List.map_cons, List.findSome?_cons, lookingAt_standard_eq_none, List.map_cons,
    List.findSome?_cons, h]

/-! ### Arguments that start with a system root -/

def sysrootLeads : List Text := ["--sysroot=", "--sysroot ", "-isysroot "]

namespace ArgumentReader

variable {lead start : Text} {spellings : List Node}

/-- A forwarded option whose first characters leave only a few patterns. -/
theorem takeText_forwarded {d : Dialect} (responseFiles : Bool) (directory : Text)
    (expand : Text → Parsed) (hf : d.forms.filter (·.2.mayTake (start.map Hint.exactly)) =
      (verbatim spellings).map fun m => (.builtinArgument, m))
    (hs : start <+: option) (hb : start.head?.any (!isBlank ·))
    (hm : (verbatim spellings).findSome? (·.lookingAt (option ++ tail)) =
      some (.forwarded option tail)) :
    takeText d responseFiles directory expand (option ++ tail) =
      { findings := .ofBuiltinArgument (Text.trimEnd (option ++ tail.take 1)) } ++
        takeText d responseFiles directory expand (tail.drop 1) := by
  obtain ⟨operand, rfl⟩ := hs
  obtain ⟨c, t, rfl⟩ : ∃ c t, start = c :: t := by
    cases start with
    | nil => cases hb
    | cons c t => exact ⟨c, t, rfl⟩
  rw [List.append_assoc] at hm
  have hone :=
    takeOne_of_forms responseFiles directory expand (Hint.fits_exactly_map (c :: t)) hf hm
  rw [takeText_next d responseFiles directory expand (by simp) (by simpa using hb),
    List.append_assoc, hone]
  rfl

theorem forms_of_quoted (hq : Quote quote) :
    Dialect.gcc.forms.filter (·.2.mayTake (("--sysroot=".toList ++ [quote]).map Hint.exactly)) =
      (verbatim [standardSpelling, quotedSpelling quote, plainSpelling]).map
        fun m => (.builtinArgument, m) := by
  rcases hq with rfl | rfl <;> decide +kernel

theorem takeText_quoted (responseFiles : Bool) (directory : Text) (expand : Text → Parsed)
    (hq : Quote quote) (hp : quote ∉ path) (ht : atEnd tail) :
    takeText .gcc responseFiles directory expand
        ("--sysroot=".toList ++ quote :: (path ++ [quote]) ++ tail) =
      { findings := .ofBuiltinArgument
          (Text.trimEnd ("--sysroot=".toList ++ quote :: (path ++ [quote]) ++ tail.take 1)) } ++
        takeText .gcc responseFiles directory expand (tail.drop 1) := by
  have hm := (covers_quoted hp tail).lookingAt (by simp) ht
  have hfirst := findSome?_behind_standard (t := '=' :: (quote :: (path ++ [quote]) ++ tail)) hm
    [plainSpelling]
  exact takeText_forwarded responseFiles directory expand (forms_of_quoted hq)
    ⟨path ++ [quote], by simp⟩ rfl hfirst

theorem takeText_word (responseFiles : Bool) (directory : Text) (expand : Text → Parsed)
    (hl : lead = "--sysroot".toList ∨ lead = "-isysroot".toList) (hn : word ≠ [])
    (hw : ∀ c ∈ word, isAsciiBlank c = false) (ht : atEnd tail) :
    takeText .gcc responseFiles directory expand (lead ++ ' ' :: word ++ tail) =
      { findings := .ofBuiltinArgument (Text.trimEnd (lead ++ ' ' :: word ++ tail.take 1)) } ++
        takeText .gcc responseFiles directory expand (tail.drop 1) := by
  rcases hl with rfl | rfl
  · have hf : Dialect.gcc.forms.filter (·.2.mayTake ("--sysroot ".toList.map Hint.exactly)) =
        (verbatim [standardSpelling, wordSpelling "--sysroot" (some_ blank)]).map
          fun m => (.builtinArgument, m) := by
      decide +kernel
    have hm := (covers_word "--sysroot".toList (.inl rfl) hn hw ht).lookingAt (by simp) ht
    have hfirst := findSome?_behind_standard (t := ' ' :: word ++ tail) hm []
    exact takeText_forwarded responseFiles directory expand hf ⟨word, by simp⟩ rfl hfirst
  · have hf : Dialect.gcc.forms.filter (·.2.mayTake ("-isysroot ".toList.map Hint.exactly)) =
        (verbatim [wordSpelling "-isysroot" (many blank)]).map
          fun m => (.builtinArgument, m) := by
      decide +kernel
    have hm := (covers_word "-isysroot".toList (.inr rfl) hn hw ht).lookingAt (by simp) ht
    refine takeText_forwarded responseFiles directory expand hf ⟨word, by simp⟩ rfl ?_
    rw [verbatim, List.map_singleton, List.findSome?_singleton, hm]

/-! ### Quoted system roots -/

theorem exists_tail (option : Text) (words : List Text) :
    ∃ tail, Text.joinWith [' '] (option :: words) = option ++ tail ∧ atEnd tail ∧
      (tail.take 1).all isBlank ∧ tail.drop 1 = Text.joinWith [' '] words := by
  cases words with
  | nil => exact ⟨[], (List.append_nil _).symm, rfl, rfl, rfl⟩
  | cons word words =>
    exact ⟨' ' :: Text.joinWith [' '] (word :: words), by simp [Text.joinWith], rfl, rfl, rfl⟩

theorem length_trimEnd_le (t : Text) : (Text.trimEnd t).length ≤ t.length := by
  have h := (List.dropWhile_sublist isBlank (l := t.reverse)).length_le
  rwa [List.length_reverse, ← List.length_reverse] at h

/-- Where the path has a blank character, the first forwarded option ends in front of it. -/
theorem exists_shorter_argument (responseFiles : Bool) (directory : Text) (expand : Text → Parsed)
    (hl : lead = "--sysroot".toList ∨ lead = "-isysroot".toList)
    (hq : Quote quote) (hp : ∃ c ∈ path, isAsciiBlank c) (tail : Text) :
    ∃ argument more, (takeText .gcc responseFiles directory expand
        (lead ++ ' ' :: (quote :: (path ++ [quote])) ++ tail)).findings.builtinArguments =
        argument :: more ∧
      argument.length < (lead ++ ' ' :: (quote :: (path ++ [quote]))).length := by
  rcases Text.cut?_cases isAsciiBlank path with ⟨-, hall⟩ | ⟨front, b, back, rfl, hb, hfront, -⟩
  · obtain ⟨c, hc, hb⟩ := hp
    rw [hall c hc] at hb
    cases hb
  · have hword : ∀ c ∈ quote :: front, isAsciiBlank c = false :=
      List.forall_mem_cons.mpr ⟨hq.ne.2.2, hfront⟩
    have hend : atEnd (b :: (back ++ quote :: tail)) := hb
    have hread := takeText_word responseFiles directory expand hl (List.cons_ne_nil quote front)
      hword hend
    have htext : lead ++ ' ' :: (quote :: (front ++ b :: back ++ [quote])) ++ tail =
        lead ++ ' ' :: (quote :: front) ++ b :: (back ++ quote :: tail) := by simp
    rw [htext, hread]
    refine ⟨_, _, rfl, (length_trimEnd_le _).trans_lt ?_⟩
    simp

theorem cases_of_mem_sysrootLeads (h : lead ∈ sysrootLeads) :
    lead = "--sysroot=" ∨ ∃ front, lead = front ++ [' '] ∧
      (front = "--sysroot".toList ∨ front = "-isysroot".toList) := by
  simp only [sysrootLeads, List.mem_cons, List.not_mem_nil, or_false] at h
  rcases h with rfl | rfl | rfl
  · exact .inl rfl
  · exact .inr ⟨_, rfl, .inl rfl⟩
  · exact .inr ⟨_, rfl, .inr rfl⟩

/-- A system root with a quoted path is forwarded as a whole, and what follows is read as without
it, if and only if it stands behind an equals sign or has no blank character. -/
theorem read_sysroot_iff (reader : ArgumentReader) (directory : Text) (contents : Contents)
    (hf : reader.family ∈ [.gcc, .clang, .intel]) (hl : lead ∈ sysrootLeads) (hq : Quote quote)
    (hp : quote ∉ path) (words : List Text) :
    reader.read directory
        (Text.joinWith [' '] ((lead ++ quote :: (path ++ [quote])) :: words)) contents =
      { findings := .ofBuiltinArgument (lead ++ quote :: (path ++ [quote])) } ++
        reader.read directory (Text.joinWith [' '] words) contents ↔
    lead = "--sysroot=" ∨ ∀ c ∈ path, isAsciiBlank c = false := by
  have hd : reader.family.dialect = .gcc := by
    cases hr : reader.family <;> simp [hr] at hf <;> rfl
  obtain ⟨tail, hjoin, ht, hgap, hrest⟩ := exists_tail (lead ++ quote :: (path ++ [quote])) words
  rw [hjoin, read, read, readWith_eq, readWith_eq, hd, ← hrest]
  have htrim : Text.trimEnd (lead ++ quote :: (path ++ [quote]) ++ tail.take 1) =
      lead ++ quote :: (path ++ [quote]) := by
    have hblank : isBlank quote = false := by rcases hq with rfl | rfl <;> decide
    have h := Text.trimEnd_append_cons hblank hgap (lead ++ quote :: path)
    simpa using h
  rcases cases_of_mem_sysrootLeads hl with rfl | ⟨front, rfl, hfront⟩
  · refine iff_of_true ?_ (.inl rfl)
    exact (takeText_quoted _ _ _ hq hp ht).trans (by rw [htrim])
  · have hlead : front ++ [' '] ≠ "--sysroot=".toList := by
      rcases hfront with rfl | rfl <;> decide
    have hspace : front ++ [' '] ++ quote :: (path ++ [quote]) =
        front ++ ' ' :: (quote :: (path ++ [quote])) := by simp
    rw [or_iff_right hlead, hspace]
    rw [hspace] at htrim
    by_cases hblank : ∃ c ∈ path, isAsciiBlank c
    · refine iff_of_false (fun he => ?_) fun hall => ?_
      · obtain ⟨argument, more, hbuiltin, hlt⟩ := exists_shorter_argument reader.responseFiles
          directory (expandAt .gcc reader.responseFiles directory contents depthLimit) hfront hq
          hblank tail
        rw [he] at hbuiltin
        obtain ⟨rfl, -⟩ := List.cons.inj hbuiltin
        exact absurd hlt (Nat.lt_irrefl _)
      · obtain ⟨c, hc, hb⟩ := hblank
        rw [hall c hc] at hb
        cases hb
    · have hall : ∀ c ∈ path, isAsciiBlank c = false := by simpa using hblank
      refine iff_of_true ?_ hall
      have hword : ∀ c ∈ quote :: (path ++ [quote]), isAsciiBlank c = false := by
        simpa [or_imp, forall_and, hq.ne.2.2] using hall
      exact (takeText_word _ _ _ hfront (List.cons_ne_nil _ _) hword ht).trans (by rw [htrim])

theorem read_sysroot_iff_equals :
    let option : Text := "--sysroot=\"/my root\"".toList
    ToolFamily.gcc ∈ [ToolFamily.gcc, .clang, .intel] ∧ "--sysroot=".toList ∈ sysrootLeads ∧
      Quote '"' ∧ '"' ∉ "/my root".toList ∧
      ArgumentReader.read { family := .gcc } "/p".toList (option ++ " -DX b.c".toList)
          (fun _ => none) =
        { findings := .ofBuiltinArgument option } ++
          ArgumentReader.read { family := .gcc } "/p".toList "-DX b.c".toList (fun _ => none) := by
  intro option
  have hf : ToolFamily.gcc ∈ [ToolFamily.gcc, .clang, .intel] := by decide
  have hl : "--sysroot=".toList ∈ sysrootLeads := by decide
  have hp : '"' ∉ "/my root".toList := by decide
  have h := read_sysroot_iff { family := .gcc } "/p".toList (fun _ => none) hf hl (.inl rfl) hp
    ["-DX".toList, "b.c".toList]
  exact ⟨hf, hl, .inl rfl, hp, h.mpr (.inl rfl)⟩

/-- In words of its own a path with a blank character is cut. -/
theorem read_sysroot_cut :
    let read (args : Text) : Parsed :=
      ArgumentReader.read { family := .gcc } "/p".toList args (fun _ => none)
    read "--sysroot \"/my root\" -DX".toList =
        { findings := { builtinArguments := ["--sysroot \"/my".toList] } } ++ read "-DX".toList ∧
      read "--sysroot \"/my root\" -DX".toList ≠
        { findings := .ofBuiltinArgument "--sysroot \"/my root\"".toList } ++
          read "-DX".toList := by
  decide +kernel

end ArgumentReader

end SettingsScan
