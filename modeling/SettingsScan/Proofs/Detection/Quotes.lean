import SettingsScan.Proofs.Detection.Windows

/-! # Quotes around the path of a tool

A path without blank characters and quotes is the same tool in quotes as without them. The
detectors of both styles of paths find the same on both lines, and the first token of both lines is
the path, so that the same short name is expanded.
-/

namespace SettingsScan

/-! ### Mirror images of paths -/

theorem otherSeparator_otherSeparator (c : Char) : otherSeparator (otherSeparator c) = c :=
  (otherSeparator_eq_iff.mp rfl).symm

theorem isAsciiBlank_otherSeparator (c : Char) :
    isAsciiBlank (otherSeparator c) = isAsciiBlank c := by
  have h := Pattern.CharSet.contains_otherSeparator (s := .space) (by decide) c
  rwa [Pattern.CharSet.contains_space, Pattern.CharSet.contains_space] at h

theorem otherSeparator_of_isAsciiBlank {b : Char} (hb : isAsciiBlank b) : otherSeparator b = b := by
  have hall : asciiBlanks.all fun b => otherSeparator b = b := by decide
  simpa using List.all_eq_true.mp hall b (mem_asciiBlanks hb)

namespace Text

variable {path rest : Text} {b : Char}

theorem mirror_mirror (t : Text) : t.mirror.mirror = t := by
  rw [mirror, mirror, List.map_map]
  exact (List.map_congr_left fun c _ => otherSeparator_otherSeparator c).trans (List.map_id t)

theorem quote_not_mem_mirror (h : '"' ∉ path) : '"' ∉ path.mirror := by
  intro hm
  obtain ⟨c, hc, he⟩ := List.mem_map.mp hm
  obtain rfl : c = '"' := otherSeparator_eq_iff.mp he
  exact h hc

theorem isAsciiBlank_of_mem_mirror (h : ∀ c ∈ path, isAsciiBlank c = false) :
    ∀ c ∈ path.mirror, isAsciiBlank c = false := by
  intro c hm
  obtain ⟨a, ha, rfl⟩ := List.mem_map.mp hm
  rw [isAsciiBlank_otherSeparator, h a ha]

theorem mirror_line (hb : isAsciiBlank b) (path rest : Text) :
    (path ++ b :: rest).mirror = path.mirror ++ b :: rest.mirror := by
  rw [mirror, List.map_append, List.map_cons, otherSeparator_of_isAsciiBlank hb]
  rfl

theorem mirror_quotedLine (hb : isAsciiBlank b) (path rest : Text) :
    mirror ('"' :: path ++ '"' :: b :: rest) = '"' :: path.mirror ++ '"' :: b :: rest.mirror := by
  rw [mirror, List.map_append, List.map_cons, List.map_cons, List.map_cons,
    otherSeparator_of_isAsciiBlank hb]
  rfl

end Text

/-! ### One detector -/

/-- Quotes around a path that needs none change nothing for the detector. -/
def Detector.IgnoresQuotes (d : Detector) : Prop :=
  ∀ {path rest : Text} {b : Char}, (∀ c ∈ path, isAsciiBlank c = false) → '"' ∉ path →
    isAsciiBlank b →
    ∀ m, d.match? ('"' :: path ++ '"' :: b :: rest) m = d.match? (path ++ b :: rest) m

theorem BuiltinTool.match?_quotes {t : BuiltinTool} {path rest : Text} {b : Char} (ht : t ∈ all)
    (hp : ∀ c ∈ path, isAsciiBlank c = false) (hq : '"' ∉ path) (hb : isAsciiBlank b)
    (versions : Bool) (m : DetectionMethod) :
    (t.patterns? versions m).bind (·.match? ('"' :: path ++ '"' :: b :: rest)) =
      (t.patterns? versions m).bind (·.match? (path ++ b :: rest)) := by
  -- without the pattern for quotes, the second one would end the file name
  have hquotes (found : ToolMatch) :
      ¬ t.Recognizes versions m ('"' :: path ++ '"' :: b :: rest) found := by
    have hl : '"' :: path ++ '"' :: b :: rest = ('"' :: path ++ ['"']) ++ b :: rest := by simp
    have hp' : ∀ c ∈ '"' :: path ++ ['"'], isAsciiBlank c = false := by
      rw [List.forall_mem_append, List.forall_mem_cons, List.forall_mem_singleton]
      exact ⟨⟨rfl, hp⟩, rfl⟩
    rw [hl, recognizes_path_iff hp' hb, Text.lastSegment_concat (by decide)]
    rintro ⟨hname, -⟩
    exact not_hasFileName_of_quote ht (by simp) hname
  have hhead := head?_line_ne hq (isBlank_of_isAsciiBlank hb) rest
  ext found
  rw [match?_eq_some_iff ht, match?_eq_some_iff ht, recognizesQuoted_path_iff hq hb,
    recognizes_path_iff hp hb]
  simp only [hquotes, not_recognizesQuoted hhead, and_false, or_false, not_false_eq_true,
    implies_true, true_and, false_or]

theorem Detector.Mirrors.ignoresQuotes {d e : Detector} (h : d.Mirrors e) (hd : d.IgnoresQuotes) :
    e.IgnoresQuotes := by
  intro path rest b hp hq hb m
  have hmirror : d.match? ('"' :: path.mirror ++ '"' :: b :: rest.mirror) m =
      d.match? (path.mirror ++ b :: rest.mirror) m :=
    hd (Text.isAsciiBlank_of_mem_mirror hp) (Text.quote_not_mem_mirror hq) hb m
  rw [← Text.mirror_mirror ('"' :: path ++ '"' :: b :: rest), ← Text.mirror_mirror (path ++ _),
    h.match?_mirror, h.match?_mirror, Text.mirror_quotedLine hb, Text.mirror_line hb, hmirror]

/-! ### The whole detection -/

namespace Registry

variable {r : Registry} {options : DetectionOptions} {versions : Bool} {d : Detector}
  {style : PathStyle} {line line' path rest : Text} {b : Char}

theorem IsBuiltin.ignoresQuotes (h : r.IsBuiltin versions) (hd : d ∈ r.posix) :
    d.IgnoresQuotes := by
  intro path rest b hp hq hb m
  obtain ⟨i, hi⟩ := List.mem_iff_getElem?.mp hd
  obtain ⟨t, ht⟩ := h.exists_tool hi
  rw [Detector.match?, Detector.match?, (h.detector i d t hi ht).2 m]
  exact BuiltinTool.match?_quotes (List.mem_of_getElem? ht) hp hq hb versions m

theorem ignoresQuotes_of_ofTools (hv : options.UsualVersions) (h : ofTools options [] = .ok r)
    (hd : d ∈ r.detectors style) : d.IgnoresQuotes := by
  obtain ⟨r', hr, ho, hb⟩ := exists_ofTools hv
  obtain rfl : r = r' := Except.ok.inj (h.symm.trans hr)
  cases style with
  | posix => exact hb.ignoresQuotes hd
  | windows =>
    cases hw : options.windowsPaths with
    | false =>
      have hnone : r.windows = [] := windows_eq_nil_of_ofTools h (ho ▸ hw)
      rw [detectors, hnone] at hd
      cases hd
    | true =>
      obtain ⟨e, he, hm⟩ := exists_mem_of_forall₂ (forall₂_mirrors hv hw h) hd
      exact hm.ignoresQuotes (hb.ignoresQuotes he)

theorem scan_congr (h : ∀ d ∈ r.detectors style, ∀ m, d.match? line m = d.match? line' m) :
    r.scan style line = r.scan style line' := by
  refine findSome?_congr fun m _ => findSome?_congr ?_
  rintro ⟨d, i⟩ hd
  exact congrArg (Option.map _) (h d (List.fst_mem_of_mem_zipIdx hd) m)

/-- Lines that every scan treats alike and whose first tokens are the same have one detection. -/
theorem detect_congr (hscan : ∀ style, r.scan style line = r.scan style line')
    (htoken : splitToken line = splitToken line') (e : Expander) :
    r.detect e line = r.detect e line' ∧ r.asked? line = r.asked? line' := by
  have hwritten : r.scanWritten line = r.scanWritten line' := by
    rw [scanWritten, scanWritten, hscan, hscan]
  have hshort : r.shortToken? line = r.shortToken? line' := by
    rw [shortToken?, shortToken?, htoken]
  have hexpanded : r.scanExpanded line = r.scanExpanded line' := by
    funext long
    rw [scanExpanded, scanExpanded, withLongName, withLongName, htoken]
  constructor
  · rw [detect, detect, hwritten, hshort, hexpanded]
  · rw [asked?, asked?, hwritten, hshort]

/-- A line whose tool stands in quotes has the detection of the line without the quotes, and the
same token is expanded for it. -/
theorem ofTools_detect_quotes (hv : options.UsualVersions) :
    ∃ r, ofTools options [] = .ok r ∧
      ∀ (e : Expander) (path rest : Text) (b : Char), (∀ c ∈ path, isBlank c = false) →
        '"' ∉ path → isAsciiBlank b →
        r.detect e ('"' :: path ++ '"' :: b :: rest) = r.detect e (path ++ b :: rest) ∧
          r.asked? ('"' :: path ++ '"' :: b :: rest) = r.asked? (path ++ b :: rest) := by
  obtain ⟨r, hr, -⟩ := exists_ofTools hv
  refine ⟨r, hr, fun e path rest b hp hq hb => ?_⟩
  have hascii : ∀ c ∈ path, isAsciiBlank c = false := fun c hc =>
    Bool.eq_false_iff.mpr (mt isBlank_of_isAsciiBlank (Bool.eq_false_iff.mp (hp c hc)))
  have htokens := (splitToken_quoted hq (b :: rest)).trans
    (splitToken_plain hp hq (isBlank_of_isAsciiBlank hb) rest).symm
  refine detect_congr (fun style => scan_congr fun d hd m => ?_) htokens e
  exact ignoresQuotes_of_ofTools hv hr hd hascii hq hb m

theorem ofTools_detect_quotes_short_name :
    ∃ r, ofTools { windowsPaths := true } [] = .ok r ∧
      let e : Expander := fun token =>
        if token = "C:\\GCC~1.EXE".toList then some "C:\\my tools\\gcc.exe".toList else none
      r.detect e "\"C:\\GCC~1.EXE\" -c a.c".toList = r.detect e "C:\\GCC~1.EXE -c a.c".toList ∧
        r.asked? "\"C:\\GCC~1.EXE\" -c a.c".toList =
          r.asked? "C:\\GCC~1.EXE -c a.c".toList := by
  have hv : DetectionOptions.UsualVersions { windowsPaths := true } := .inl rfl
  obtain ⟨r, hr, h⟩ := ofTools_detect_quotes hv
  refine ⟨r, hr, ?_⟩
  exact h _ "C:\\GCC~1.EXE".toList "-c a.c".toList ' ' (Text.forall_eq_false (by decide))
    (by decide) (by decide)

end Registry

end SettingsScan
