import SettingsScan.Proofs.Detection.Exactness

/-! # Tools in quotes

A tool is found by the file name of its quoted path, whatever the directory is, unless a blank
character of the directory follows a path of a tool that the scan tries earlier: the pattern without
quotes takes the quote for a part of that path.
-/

namespace SettingsScan

namespace Registry

variable {r : Registry} {options : DetectionOptions} {line : Text} {style : PathStyle}
  {e : Expander}

theorem detect_eq_scan (hw : r.options.windowsPaths = false) :
    r.detect e line = r.scan .posix line := by
  simp [detect, scanWritten, shortToken?, hw]

end Registry

/-! ### A line that starts with a quoted path -/

namespace BuiltinTool

variable {t : BuiltinTool} {versions : Bool} {m : DetectionMethod} {found : ToolMatch}
  {directory name rest front back : Text} {b : Char}

/-- A name that may stand behind the directory of a quoted path. -/
def IsPathName (name : Text) : Prop :=
  ∀ c ∈ name, c ≠ '/' ∧ c ≠ '"' ∧ isAsciiBlank c = false

instance (name : Text) : Decidable (IsPathName name) :=
  decidable_of_iff (name.all fun c => c ≠ '/' ∧ c ≠ '"' ∧ isAsciiBlank c = false)
    (by simp [IsPathName])

theorem IsPathName.lastSegment (h : IsPathName name) (directory : Text) :
    (directory ++ '/' :: name).lastSegment = name :=
  Text.lastSegment_append directory fun hc => (h _ hc).1 rfl

theorem not_hasFileName_of_quote (ht : t ∈ all) (h : '"' ∈ name) :
    ¬ t.HasFileName versions m name := fun hname =>
  absurd (hname.isTargetChar ht _ h) (by decide)

theorem recognizesQuoted_iff (hd : '"' ∉ directory) (hn : IsPathName name) :
    t.RecognizesQuoted versions m ('"' :: directory ++ '/' :: name ++ '"' :: ' ' :: rest) found ↔
      t.HasFileName versions m name ∧
        found = { command := directory ++ '/' :: name, arguments := rest } := by
  have hpath : '"' ∉ directory ++ '/' :: name := by
    rw [List.mem_append, List.mem_cons]
    rintro (h | h | h)
    · exact hd h
    · cases h
    · exact (hn _ h).2.1 rfl
  have hl : '"' :: directory ++ '/' :: name ++ '"' :: ' ' :: rest =
      '"' :: (directory ++ '/' :: name) ++ '"' :: ' ' :: rest := by simp
  rw [hl, recognizesQuoted_path_iff hpath (by decide), hn.lastSegment]

/-- A path of the tool stands in front of the first blank character of the directory. -/
def Begins (t : BuiltinTool) (versions : Bool) (m : DetectionMethod) (directory : Text) : Prop :=
  ∃ (front back : Text) (b : Char), directory = front ++ b :: back ∧ isAsciiBlank b ∧
    (∀ c ∈ front, isAsciiBlank c = false) ∧ '/' ∈ front ∧
    t.HasFileName versions m front.lastSegment

/-- The pattern without quotes takes the quote for a part of the first directory. -/
theorem exists_recognizes_iff (ht : t ∈ all) (hn : IsPathName name) :
    (∃ found, t.Recognizes versions m
        ('"' :: directory ++ '/' :: name ++ '"' :: ' ' :: rest) found) ↔
      t.Begins versions m directory := by
  constructor
  · rintro ⟨found, h⟩
    rcases Text.cut?_cases isAsciiBlank directory with
      ⟨-, hall⟩ | ⟨front, b, back, rfl, hb, hfront, -⟩
    · -- the path goes on to the blank character behind the quote, so that it ends with the quote
      have hpath : ∀ c ∈ '"' :: directory ++ '/' :: (name ++ ['"']), isAsciiBlank c = false := by
        intro c hc
        simp only [List.cons_append, List.mem_cons, List.mem_append, List.not_mem_nil,
          or_false] at hc
        rcases hc with rfl | hc | rfl | hc | rfl
        · decide
        · exact hall c hc
        · decide
        · exact (hn c hc).2.2
        · decide
      have hl : '"' :: directory ++ '/' :: name ++ '"' :: ' ' :: rest =
          ('"' :: directory ++ '/' :: (name ++ ['"'])) ++ ' ' :: rest := by simp
      obtain rfl := h.eq_of_line hpath (by decide) hl
      have hquote : '/' ∉ name ++ ['"'] := by
        rw [List.mem_append, List.mem_singleton]
        rintro (hc | hc)
        · exact (hn _ hc).1 rfl
        · cases hc
      have hname := h.1
      rw [Text.lastSegment_append _ hquote] at hname
      exact absurd hname (not_hasFileName_of_quote ht (by simp))
    · have hl : '"' :: (front ++ b :: back) ++ '/' :: name ++ '"' :: ' ' :: rest =
          ('"' :: front) ++ b :: (back ++ '/' :: name ++ '"' :: ' ' :: rest) := by simp
      have hc : ∀ c ∈ '"' :: front, isAsciiBlank c = false :=
        List.forall_mem_cons.mpr ⟨by decide, hfront⟩
      obtain rfl := h.eq_of_line hc hb hl
      have hname := h.1
      by_cases hslash : '/' ∈ front
      · rw [← List.singleton_append, Text.lastSegment_append_of_mem _ hslash] at hname
        exact ⟨front, back, b, rfl, hb, hfront, hslash, hname⟩
      · rw [Text.lastSegment_of_not_mem (by simpa using hslash)] at hname
        exact absurd hname (not_hasFileName_of_quote ht List.mem_cons_self)
  · rintro ⟨front, back, b, rfl, hb, hfront, hslash, hname⟩
    refine ⟨{ command := '"' :: front, arguments := back ++ '/' :: name ++ '"' :: ' ' :: rest }, ?_,
      List.forall_mem_cons.mpr ⟨by decide, hfront⟩, b, hb, by simp⟩
    rwa [← List.singleton_append, Text.lastSegment_append_of_mem _ hslash]

theorem recognizes_unquoted_iff (hn : IsPathName name) :
    t.Recognizes versions m (name ++ ' ' :: rest) found ↔
      t.HasFileName versions m name ∧ found = { command := name, arguments := rest } := by
  have hlast : name.lastSegment = name := Text.lastSegment_of_not_mem fun hc => (hn _ hc).1 rfl
  rw [recognizes_path_iff (fun c hc => (hn c hc).2.2) (by decide), hlast]

end BuiltinTool

/-! ### The scan of a quoted path -/

/-- A path of a tool stands in front of the first blank character of the directory, and the scan
tries that tool before the one that the name belongs to, if any. -/
def Interrupts (versions : Bool) (directory name : Text) : Prop :=
  ∃ i t m, BuiltinTool.all[i]? = some t ∧ t.Begins versions m directory ∧
    ∀ j u n, BuiltinTool.all[j]? = some u → u.HasFileName versions n name →
      Registry.TriedBefore (i, m) (j, n)

namespace Registry

open BuiltinTool (IsPathName)

variable {r : Registry} {versions : Bool} {i : Nat} {t : BuiltinTool} {m : DetectionMethod}
  {d : Detector} {x : Detection} {found : ToolMatch} {line directory name rest : Text}

theorem tryPair_posix (hd : r.posix[i]? = some d) :
    r.tryPair line ({ style := .posix, index := i }, m) = (d.match? line m).map fun found =>
      { id := { style := .posix, index := i }, detector := d, method := m,
        command := found.command, arguments := found.arguments } := by
  rw [tryPair, show r.get? { style := .posix, index := i } = some d from hd, Option.bind_some]

namespace IsBuiltin

theorem head?_name (hn : IsPathName name) (rest : Text) :
    (name ++ ' ' :: rest).head? ≠ some '"' := by
  cases name with
  | nil => simp
  | cons c name => simpa using (hn c List.mem_cons_self).2.1

theorem match?_name_iff (h : r.IsBuiltin versions) (hd : r.posix[i]? = some d)
    (ht : BuiltinTool.all[i]? = some t) (hn : IsPathName name) :
    d.match? (name ++ ' ' :: rest) m = some found ↔
      t.HasFileName versions m name ∧ found = { command := name, arguments := rest } := by
  rw [h.match?_eq_some_iff_of_head hd ht (head?_name hn rest),
    BuiltinTool.recognizes_unquoted_iff hn]

theorem match?_quoted (h : r.IsBuiltin versions) (hd : r.posix[i]? = some d)
    (ht : BuiltinTool.all[i]? = some t) (hdir : '"' ∉ directory) (hn : IsPathName name)
    (hname : t.HasFileName versions m name) :
    d.match? ('"' :: directory ++ '/' :: name ++ '"' :: ' ' :: rest) m =
      some { command := directory ++ '/' :: name, arguments := rest } :=
  (h.match?_eq_some_iff hd ht).mpr
    (.inl ((BuiltinTool.recognizesQuoted_iff hdir hn).mpr ⟨hname, rfl⟩))

/-- A pair takes the line with the quoted path for its name, or for its directory. -/
theorem isSome_match?_quoted_iff (h : r.IsBuiltin versions) (hd : r.posix[i]? = some d)
    (ht : BuiltinTool.all[i]? = some t) (hdir : '"' ∉ directory) (hn : IsPathName name) :
    (d.match? ('"' :: directory ++ '/' :: name ++ '"' :: ' ' :: rest) m).isSome ↔
      t.HasFileName versions m name ∨ t.Begins versions m directory := by
  rw [← BuiltinTool.exists_recognizes_iff (List.mem_of_getElem? ht) hn, Option.isSome_iff_exists]
  constructor
  · rintro ⟨found, hf⟩
    rcases (h.match?_eq_some_iff hd ht).mp hf with hq | ⟨-, hu⟩
    · exact .inl ((BuiltinTool.recognizesQuoted_iff hdir hn).mp hq).1
    · exact .inr ⟨found, hu⟩
  · intro hcases
    by_cases hname : t.HasFileName versions m name
    · exact ⟨_, h.match?_quoted hd ht hdir hn hname⟩
    · obtain ⟨found, hu⟩ := hcases.resolve_left hname
      refine ⟨found, (h.match?_eq_some_iff hd ht).mpr (.inr ⟨fun f hf => hname ?_, hu⟩)⟩
      exact ((BuiltinTool.recognizesQuoted_iff hdir hn).mp hf).1

theorem exists_of_mem_pairs (h : r.IsBuiltin versions) {p : DetectorId × DetectionMethod}
    (hp : p ∈ r.pairs .posix) :
    ∃ i m d t, p = ({ style := .posix, index := i }, m) ∧ r.posix[i]? = some d ∧
      BuiltinTool.all[i]? = some t := by
  obtain ⟨⟨style, i⟩, m⟩ := p
  obtain rfl := style_of_mem_pairs hp
  have hd := List.getElem?_eq_getElem (mem_pairs.mp hp)
  obtain ⟨t, ht⟩ := h.exists_tool hd
  exact ⟨i, m, _, t, rfl, hd, ht⟩

theorem isSome_tryPair_name_iff (h : r.IsBuiltin versions) (hd : r.posix[i]? = some d)
    (ht : BuiltinTool.all[i]? = some t) (hn : IsPathName name) (rest : Text) :
    (r.tryPair (name ++ ' ' :: rest) ({ style := .posix, index := i }, m)).isSome ↔
      t.HasFileName versions m name := by
  rw [tryPair_posix hd, Option.isSome_map, Option.isSome_iff_exists]
  simp [h.match?_name_iff hd ht hn]

theorem scan_quoted_iff (h : r.IsBuiltin versions) (hdir : '"' ∉ directory) (hn : IsPathName name)
    (rest : Text) :
    r.scan .posix ('"' :: directory ++ '/' :: name ++ '"' :: ' ' :: rest) =
        (r.scan .posix (name ++ ' ' :: rest)).map (fun x =>
          { x with command := directory ++ '/' :: name, arguments := rest }) ↔
      ¬ Interrupts versions directory name := by
  rw [scan_eq_findSome?, scan_eq_findSome?, List.map_findSome?,
    findSome?_eq_iff pairwise_pairs fun _ _ => TriedBefore.asymm]
  · simp only [Function.comp_apply, Option.isSome_map]
    refine not_congr ⟨?_, ?_⟩
    · rintro ⟨p, hp, hf, hbefore⟩
      obtain ⟨i, m, d, t, rfl, hd, ht⟩ := h.exists_of_mem_pairs hp
      rw [tryPair_posix hd, Option.isSome_map, h.isSome_match?_quoted_iff hd ht hdir hn] at hf
      rcases hf with hname | hbegins
      · have hself := hbefore _ hp ((h.isSome_tryPair_name_iff hd ht hn rest).mpr hname)
        exact absurd hself hself.asymm
      · refine ⟨i, t, m, ht, hbegins, fun j u n hu hname => ?_⟩
        obtain ⟨e, he⟩ := h.exists_detector hu
        exact hbefore ({ style := .posix, index := j }, n)
          (mem_pairs.mpr (List.getElem?_eq_some_iff.mp he).1)
          ((h.isSome_tryPair_name_iff he hu hn rest).mpr hname)
    · rintro ⟨i, t, m, ht, hbegins, hbefore⟩
      obtain ⟨d, hd⟩ := h.exists_detector ht
      refine ⟨({ style := .posix, index := i }, m),
        mem_pairs.mpr (List.getElem?_eq_some_iff.mp hd).1, ?_, fun q hq hg => ?_⟩
      · rw [tryPair_posix hd, Option.isSome_map, h.isSome_match?_quoted_iff hd ht hdir hn]
        exact .inr hbegins
      · obtain ⟨j, n, e, u, rfl, he, hu⟩ := h.exists_of_mem_pairs hq
        exact hbefore j u n hu ((h.isSome_tryPair_name_iff he hu hn rest).mp hg)
  · intro p hp hg
    obtain ⟨i, m, d, t, rfl, hd, ht⟩ := h.exists_of_mem_pairs hp
    have hname := (h.isSome_tryPair_name_iff hd ht hn rest).mp (by simpa using hg)
    rw [Function.comp_apply, tryPair_posix hd, tryPair_posix hd,
      h.match?_quoted hd ht hdir hn hname, (h.match?_name_iff hd ht hn).mpr ⟨hname, rfl⟩]
    rfl
  · intro p hp q hq x hx hy
    obtain ⟨y, hy', rfl⟩ := Option.map_eq_some_iff.mp hy
    have hpair := pair_of_tryPair hy'
    exact (pair_of_tryPair hx).symm.trans hpair

end IsBuiltin

/-- A tool in double quotes is found as its file name is, with the whole path as its command,
exactly if its directory does not interrupt. -/
theorem ofTools_detect_quoted_iff {options : DetectionOptions} (hv : options.UsualVersions)
    (hw : options.windowsPaths = false) :
    ∃ r, ofTools options [] = .ok r ∧
      ∀ (e : Expander) (directory name rest : Text), '"' ∉ directory → IsPathName name →
        (r.detect e ('"' :: directory ++ '/' :: name ++ '"' :: ' ' :: rest) =
            (r.detect e (name ++ ' ' :: rest)).map (fun x =>
              { x with command := directory ++ '/' :: name, arguments := rest }) ↔
          ¬ Interrupts options.versionSuffix.isSome directory name) := by
  obtain ⟨r, hr, ho, h⟩ := exists_ofTools hv
  refine ⟨r, hr, fun e directory name rest hdir hn => ?_⟩
  rw [detect_eq_scan (ho ▸ hw), detect_eq_scan (ho ▸ hw)]
  exact h.scan_quoted_iff hdir hn rest

theorem ofTools_detect_quoted_iff_blank_directory :
    ∃ r, ofTools {} [] = .ok r ∧
      r.detect (fun _ => none) "\"/opt/my tools/gcc\" -c a.c".toList =
        (r.detect (fun _ => none) "gcc -c a.c".toList).map (fun x =>
          { x with command := "/opt/my tools/gcc", arguments := "-c a.c" }) := by
  have hv : DetectionOptions.UsualVersions {} := .inl rfl
  obtain ⟨r, hr, h⟩ := ofTools_detect_quoted_iff hv rfl
  refine ⟨r, hr, (h _ "/opt/my tools".toList "gcc".toList "-c a.c".toList (by decide)
    (by decide)).mpr ?_⟩
  rintro ⟨i, t, m, ht, ⟨front, back, b, hd, hb, hfront, -, hname⟩, -⟩
  have hcut : Text.cut? isAsciiBlank "/opt/my tools".toList = some (front, back) := by
    rw [hd, Text.cut?_append_cons hfront hb]
  obtain rfl : "/opt/my".toList = front := (Prod.mk.inj (Option.some.inj hcut)).1
  have hnone : ∀ t ∈ BuiltinTool.all, ¬ t.ending <:+: "my".toList := by decide
  exact hnone t (List.mem_of_getElem? ht) hname.ending_infix

theorem interrupts_compiler_in_directory :
    Interrupts false "/opt/gcc x".toList "clang".toList := by
  have hgcc : BuiltinTool.HasFileName ⟨"gcc", false, .gcc, none⟩ false .basename "gcc".toList :=
    ⟨nofun, "gcc".toList, [], [], rfl, rfl, rfl, rfl⟩
  have hclang : BuiltinTool.HasFileName ⟨"clang", false, .clang, none⟩ false .basename
      "clang".toList := ⟨nofun, "clang".toList, [], [], rfl, rfl, rfl, rfl⟩
  have hfront : ∀ c ∈ "/opt/gcc".toList, isAsciiBlank c = false :=
    Text.forall_eq_false (by decide)
  refine ⟨0, _, .basename, rfl, ⟨"/opt/gcc".toList, ['x'], ' ', rfl, by decide, hfront,
    by decide, hgcc⟩, fun j u n hu hname => ?_⟩
  obtain ⟨rfl, rfl⟩ := hname.unique (List.mem_of_getElem? hu) (by decide) hclang
  refine .inr ⟨rfl, Nat.pos_of_ne_zero ?_⟩
  rintro rfl
  exact absurd hu (by decide)

/-- The path of a compiler in the directory of another one: that one is found, and the rest of the
quoted path is among its arguments. -/
theorem detect_quoted_compiler_in_directory :
    ∃ r, ofTools {} [] = .ok r ∧
      r.detect (fun _ => none) "\"/opt/gcc x/clang\" -c a.c".toList ≠
        (r.detect (fun _ => none) "clang -c a.c".toList).map (fun x =>
          { x with command := "/opt/gcc x/clang", arguments := "-c a.c" }) := by
  have hv : DetectionOptions.UsualVersions {} := .inl rfl
  obtain ⟨r, hr, ho, h⟩ := exists_ofTools hv
  refine ⟨r, hr, ?_⟩
  rw [detect_eq_scan (ho ▸ rfl), detect_eq_scan (ho ▸ rfl)]
  have hiff := h.scan_quoted_iff (show '"' ∉ "/opt/gcc x".toList by decide)
    (show IsPathName "clang".toList by decide) "-c a.c".toList
  exact fun heq => hiff.mp heq interrupts_compiler_in_directory

end Registry

end SettingsScan
