import Mathlib.Data.List.TakeWhile
import SettingsScan.Detection.Registry
import SettingsScan.Proofs.Text.Words

/-! # File names of the built-in tools

A file name is the name of a tool, for a cross compiler behind a target, with a version and an
extension behind it if they are asked for. The parts can be told from the end of the file name, so
that it belongs to one tool and one method only.
-/

namespace SettingsScan

namespace Text

variable {s s' t v v' : Text}

theorem append_inj_of_getLast? {p : Char → Bool} (h : s ++ v = s' ++ v')
    (hs : s.getLast?.any p = false) (hs' : s'.getLast?.any p = false)
    (hv : ∀ c ∈ v, p c) (hv' : ∀ c ∈ v', p c) : s = s' ∧ v = v' := by
  have aligned {s a v : Text} (hs : (s ++ a).getLast?.any p = false) (hv : ∀ c ∈ a ++ v, p c) :
      a = [] := by
    rcases List.eq_nil_or_concat a with rfl | ⟨b, c, rfl⟩
    · rfl
    · have hc : p c := hv c (by simp)
      simp [List.concat_eq_append, hc] at hs
  rcases List.append_eq_append_iff.mp h with ⟨a, rfl, rfl⟩ | ⟨a, rfl, rfl⟩
  · obtain rfl := aligned hs' hv
    simp
  · obtain rfl := aligned hs hv'
    simp

def lastSegment (t : Text) : Text :=
  (t.reverse.takeWhile (· ≠ '/')).reverse

theorem slash_not_mem_lastSegment (t : Text) : '/' ∉ t.lastSegment := fun h => by
  simpa using List.mem_takeWhile_imp (List.mem_reverse.mp h)

theorem lastSegment_of_not_mem (h : '/' ∉ t) : t.lastSegment = t := by
  have hall : ∀ c ∈ t.reverse, decide (c ≠ '/') = true := by
    intro c hc
    rw [decide_eq_true_eq]
    rintro rfl
    exact h (List.mem_reverse.mp hc)
  rw [lastSegment, List.takeWhile_eq_self_iff.mpr hall, List.reverse_reverse]

theorem lastSegment_append (d : Text) (h : '/' ∉ s) : (d ++ '/' :: s).lastSegment = s := by
  have hall : ∀ c ∈ s.reverse, decide (c ≠ '/') = true := by
    intro c hc
    rw [decide_eq_true_eq]
    rintro rfl
    exact h (List.mem_reverse.mp hc)
  rw [lastSegment, List.reverse_append, List.reverse_cons, List.append_assoc,
    List.takeWhile_append_of_pos hall, List.singleton_append,
    List.takeWhile_cons_of_neg (by simp), List.append_nil, List.reverse_reverse]

theorem eq_lastSegment_or (t : Text) : t = t.lastSegment ∨ ∃ d, t = d ++ '/' :: t.lastSegment := by
  by_cases h : '/' ∈ t
  · obtain ⟨s, u, ht, hs⟩ := List.eq_append_cons_of_mem (List.mem_reverse.mpr h)
    have ht : t = u.reverse ++ '/' :: s.reverse := by
      rw [← List.reverse_inj, ht]
      simp
    refine .inr ⟨u.reverse, ?_⟩
    rw [ht, lastSegment_append _ (by simpa using hs)]
  · exact .inl (lastSegment_of_not_mem h).symm

theorem lastSegment_concat {c : Char} (hc : c ≠ '/') (t : Text) :
    (t ++ [c]).lastSegment = t.lastSegment ++ [c] := by
  simp [lastSegment, hc]

theorem lastSegment_append_of_mem (s : Text) (h : '/' ∈ t) :
    (s ++ t).lastSegment = t.lastSegment := by
  rcases t.eq_lastSegment_or with ht | ⟨d, ht⟩
  · exact absurd (ht ▸ h) t.slash_not_mem_lastSegment
  · have h := lastSegment_append (s ++ d) t.slash_not_mem_lastSegment
    rwa [List.append_assoc, ← ht] at h

end Text

namespace DetectionMethod

def hasVersion : DetectionMethod → Bool
  | basename | withExtension => false
  | withVersion | withVersionAndExtension => true

def hasExtension : DetectionMethod → Bool
  | basename | withVersion => false
  | withExtension | withVersionAndExtension => true

theorem eq_of_has {m n : DetectionMethod} (hv : m.hasVersion = n.hasVersion)
    (he : m.hasExtension = n.hasExtension) : m = n := by
  revert hv he
  cases m <;> cases n <;> decide

end DetectionMethod

/-! ### The parts of a file name -/

namespace FileName

/-- The characters that stand in a target: neither blank, nor a quote or a separator. -/
def isTargetChar (c : Char) : Bool :=
  !isAsciiBlank c && c ≠ '"' && c ≠ '/' && c ≠ '\\'

def IsNumber (t : Text) : Prop :=
  t ≠ [] ∧ ∀ c ∈ t, c.isDigit

instance (t : Text) : Decidable (IsNumber t) :=
  decidable_of_iff (t ≠ [] ∧ t.all Char.isDigit) (by simp [IsNumber])

/-- Numbers with dots between them, perhaps behind a dash. -/
def IsVersion (t : Text) : Prop :=
  ∃ (dash first : Text) (more : List Text), (dash = [] ∨ dash = ['-']) ∧ IsNumber first ∧
    (∀ n ∈ more, IsNumber n) ∧ t = dash ++ first ++ more.flatMap ('.' :: ·)

def IsExe (t : Text) : Prop :=
  ∃ letters, letters.map Char.toLower = "exe".toList ∧ t = '.' :: letters

def isVersionChar (c : Char) : Bool :=
  c.isDigit || c = '.' || c = '-'

variable {t : Text} {c : Char} {p : Char → Bool}

theorem isTargetChar_of (hp : ('"' :: '/' :: '\\' :: asciiBlanks).all (!p ·)) (h : p c) :
    isTargetChar c := by
  by_contra hc
  have hmem : c ∈ '"' :: '/' :: '\\' :: asciiBlanks := by
    have hb := mem_asciiBlanks (c := c)
    simp only [isTargetChar, Bool.and_eq_true, Bool.not_eq_true', decide_eq_true_eq] at hc
    grind
  simpa [h] using List.all_eq_true.mp hp c hmem

theorem isTargetChar_of_isVersionChar (h : isVersionChar c) : isTargetChar c :=
  isTargetChar_of (by decide) h

theorem toLower_of_isVersionChar (h : isVersionChar c) : c.toLower = c := by
  simp only [isVersionChar, Bool.or_eq_true, decide_eq_true_eq] at h
  rcases h with (h | rfl) | rfl
  · simp only [Char.isDigit, Bool.and_eq_true, decide_eq_true_eq] at h
    exact dif_neg fun hu => by
      have := UInt32.le_trans hu.1 h.2
      revert this
      decide
  · decide
  · decide

theorem IsNumber.isVersionChar (h : IsNumber t) : ∀ c ∈ t, isVersionChar c := by
  intro c hc
  simp [FileName.isVersionChar, h.2 c hc]

theorem IsNumber.not_blank (h : IsNumber t) : ∀ c ∈ t, isAsciiBlank c = false := by
  intro c hc
  have ht : isTargetChar c := isTargetChar_of (by decide) (h.2 c hc)
  simp only [isTargetChar, Bool.and_eq_true, Bool.not_eq_true'] at ht
  exact ht.1.1.1

theorem IsVersion.isVersionChar (h : IsVersion t) : ∀ c ∈ t, isVersionChar c := by
  obtain ⟨dash, first, more, hdash, hfirst, hmore, rfl⟩ := h
  intro c hc
  rw [List.append_assoc] at hc
  rcases List.mem_append.mp hc with hc | hc
  · rcases hdash with rfl | rfl
    · cases hc
    · rw [List.mem_singleton.mp hc]
      decide
  · rcases List.mem_append.mp hc with hc | hc
    · exact hfirst.isVersionChar c hc
    · obtain ⟨n, hn, hc⟩ := List.mem_flatMap.mp hc
      rcases List.mem_cons.mp hc with rfl | hc
      · decide
      · exact (hmore n hn).isVersionChar c hc

theorem IsVersion.ne_nil (h : IsVersion t) : t ≠ [] := by
  obtain ⟨dash, first, more, -, hfirst, -, rfl⟩ := h
  simp [hfirst.1]

theorem IsExe.isTargetChar (h : IsExe t) : ∀ c ∈ t, isTargetChar c := by
  obtain ⟨letters, hl, rfl⟩ := h
  refine List.forall_mem_cons.mpr ⟨by decide, fun c hc => ?_⟩
  have hlower : "exe".toList.contains c.toLower := by
    rw [← hl]
    simpa using ⟨c, hc, rfl⟩
  exact isTargetChar_of (p := fun c => "exe".toList.contains c.toLower) (by decide) hlower

theorem IsExe.length (h : IsExe t) : t.length = 4 := by
  obtain ⟨letters, hl, rfl⟩ := h
  rw [List.length_cons, ← List.length_map Char.toLower, hl]
  rfl

theorem IsExe.toLower_getLast? (h : IsExe t) (s : Text) :
    (s ++ t).getLast?.map Char.toLower = some 'e' := by
  obtain ⟨letters, hl, rfl⟩ := h
  rw [← List.getLast?_map, List.map_append, List.map_cons, hl, List.getLast?_append]
  rfl

end FileName

/-! ### The tools -/

open FileName

/-- A tool that is always known. A cross compiler's name has a target in front of it. -/
structure BuiltinTool where
  stem : Text
  cross : Bool
  family : ToolFamily
  language : Option Language
  deriving DecidableEq, Repr

namespace BuiltinTool

def all : List BuiltinTool :=
  [⟨"gcc", false, .gcc, none⟩, ⟨"gcc", true, .gcc, none⟩,
   ⟨"g++", false, .gcc, some .cxx⟩, ⟨"g++", true, .gcc, some .cxx⟩,
   ⟨"c++", false, .gcc, some .cxx⟩, ⟨"c++", true, .gcc, some .cxx⟩,
   ⟨"clang", false, .clang, none⟩, ⟨"clang", true, .clang, none⟩,
   ⟨"clang++", false, .clang, some .cxx⟩, ⟨"clang++", true, .clang, some .cxx⟩,
   ⟨"cc", false, .cc, none⟩, ⟨"cc", true, .cc, none⟩,
   ⟨"cl", false, .msvc, none⟩, ⟨"clang-cl", false, .msvc, none⟩,
   ⟨"icc", false, .intel, none⟩, ⟨"icpc", false, .intel, some .cxx⟩,
   ⟨"icx", false, .intel, none⟩, ⟨"icpx", false, .intel, some .cxx⟩,
   ⟨"icl", false, .intelMsvc, none⟩, ⟨"nvcc", false, .nvcc, some .cuda⟩]

def Names (t : BuiltinTool) (base : Text) : Prop :=
  if t.cross then
    ∃ target, target ≠ [] ∧ (∀ c ∈ target, isTargetChar c) ∧ base = target ++ '-' :: t.stem
  else base = t.stem

/-- The file names that a method takes for the tool's. Versions may not be known at all. -/
def HasFileName (t : BuiltinTool) (versions : Bool) (m : DetectionMethod) (name : Text) : Prop :=
  (m.hasVersion → versions) ∧ ∃ base version extension,
    t.Names base ∧
    (if m.hasVersion then IsVersion version else version = []) ∧
    (if m.hasExtension then IsExe extension else extension = []) ∧
    name = base ++ version ++ extension

variable {t u : BuiltinTool} {base version extension name : Text} {v w : Bool}
  {m n : DetectionMethod}

/-! ### The characters of a file name -/

/-- The last character of a name belongs neither to a version nor to an extension. -/
theorem stem_spec (ht : t ∈ all) : (∀ c ∈ t.stem, isTargetChar c) ∧
    ∃ c, t.stem.getLast? = some c ∧ isVersionChar c = false ∧ c.toLower ≠ 'e' := by
  have h : all.all fun t => t.stem.all isTargetChar &&
      t.stem.getLast?.any fun c => !isVersionChar c && c.toLower ≠ 'e' := by decide
  have h := List.all_eq_true.mp h t ht
  simp only [Bool.and_eq_true, List.all_eq_true, Option.any_eq_true] at h
  simpa using h

theorem Names.isTargetChar (h : t.Names base) (ht : t ∈ all) : ∀ c ∈ base, isTargetChar c := by
  have hstem := (stem_spec ht).1
  unfold Names at h
  split at h
  · obtain ⟨target, -, htarget, rfl⟩ := h
    intro c hc
    rcases List.mem_append.mp hc with hc | hc
    · exact htarget c hc
    · rcases List.mem_cons.mp hc with rfl | hc
      · decide
      · exact hstem c hc
  · exact h ▸ hstem

theorem Names.getLast? (h : t.Names base) (ht : t ∈ all) :
    ∃ c, base.getLast? = some c ∧ isVersionChar c = false ∧ c.toLower ≠ 'e' := by
  obtain ⟨-, c, hc, hspec⟩ := stem_spec ht
  refine ⟨c, ?_, hspec⟩
  unfold Names at h
  split at h
  · obtain ⟨target, -, -, rfl⟩ := h
    simp [List.getLast?_cons, hc]
  · rw [h, hc]

theorem isVersionChar_of_suffix (h : if m.hasVersion then IsVersion version else version = []) :
    ∀ c ∈ version, isVersionChar c := by
  split at h
  · exact h.isVersionChar
  · simp [h]

theorem HasFileName.isTargetChar (h : t.HasFileName v m name) (ht : t ∈ all) :
    ∀ c ∈ name, isTargetChar c := by
  obtain ⟨-, base, version, extension, hbase, hversion, hextension, rfl⟩ := h
  intro c hc
  rcases List.mem_append.mp hc with hc | hc
  · rcases List.mem_append.mp hc with hc | hc
    · exact hbase.isTargetChar ht c hc
    · exact isTargetChar_of_isVersionChar (isVersionChar_of_suffix hversion c hc)
  · split at hextension
    · exact hextension.isTargetChar c hc
    · simp [hextension] at hc

/-! ### One tool and one method -/

def ending (t : BuiltinTool) : Text :=
  if t.cross then '-' :: t.stem else t.stem

theorem Names.exists_append (h : t.Names base) :
    ∃ front, base = front ++ t.ending ∧ (t.cross = false → front = []) := by
  unfold Names at h
  unfold ending
  split at h
  · next hc =>
    obtain ⟨target, -, -, rfl⟩ := h
    exact ⟨target, by rw [if_pos hc], by simp [hc]⟩
  · next hc => exact ⟨[], by rw [if_neg hc, h, List.nil_append], fun _ => rfl⟩

theorem HasFileName.ending_infix (h : t.HasFileName v m name) : t.ending <:+: name := by
  obtain ⟨-, base, version, extension, hb, -, -, rfl⟩ := h
  obtain ⟨front, rfl, -⟩ := hb.exists_append
  exact ⟨front, version ++ extension, by simp⟩

/-- The names of two tools do not end alike. -/
theorem eq_of_ending (ht : t ∈ all) (hu : u ∈ all) (h : t.ending <:+ u.ending)
    (hc : t.cross ∨ u.ending <:+ t.ending) : t = u := by
  have hall : ∀ t ∈ all, ∀ u ∈ all, t.ending <:+ u.ending →
      t.cross ∨ u.ending <:+ t.ending → t = u := by decide +kernel
  exact hall t ht u hu h hc

theorem Names.unique (ht : t ∈ all) (hu : u ∈ all) (h : t.Names base) (h' : u.Names base) :
    t = u := by
  obtain ⟨front, hf, hplain⟩ := h.exists_append
  obtain ⟨front', hf', hplain'⟩ := h'.exists_append
  have hs : t.ending <:+ base := ⟨front, hf.symm⟩
  have hs' : u.ending <:+ base := ⟨front', hf'.symm⟩
  rcases List.suffix_or_suffix_of_suffix hs hs' with hle | hle
  · refine eq_of_ending ht hu hle ?_
    cases hc : t.cross with
    | true => exact .inl rfl
    | false =>
      rw [hf, hplain hc] at hs'
      exact .inr hs'
  · refine (eq_of_ending hu ht hle ?_).symm
    cases hc : u.cross with
    | true => exact .inl rfl
    | false =>
      rw [hf', hplain' hc] at hs
      exact .inr hs

/-- Without an extension, a file name does not end like one. -/
theorem toLower_getLast?_ne (ht : t ∈ all) (hb : t.Names base)
    (hv : if m.hasVersion then IsVersion version else version = []) :
    (base ++ version).getLast?.map Char.toLower ≠ some 'e' := by
  obtain ⟨c, hc, -, hlower⟩ := hb.getLast? ht
  rw [List.getLast?_append, hc]
  cases hd : version.getLast? with
  | none => simpa using hlower
  | some d =>
    have hd := isVersionChar_of_suffix hv d (List.mem_of_getLast? hd)
    simp only [Option.some_or, Option.map_some, toLower_of_isVersionChar hd]
    rintro ⟨⟩
    cases hd

theorem hasExtension_iff (ht : t ∈ all) (hb : t.Names base)
    (hv : if m.hasVersion then IsVersion version else version = [])
    (he : if m.hasExtension then IsExe extension else extension = []) :
    m.hasExtension ↔ (base ++ version ++ extension).getLast?.map Char.toLower = some 'e' := by
  split at he
  · next hm => simpa [hm] using he.toLower_getLast? (base ++ version)
  · next hm => simpa [hm, he] using toLower_getLast?_ne ht hb hv

theorem hasVersion_iff (hv : if m.hasVersion then IsVersion version else version = []) :
    m.hasVersion ↔ version ≠ [] := by
  split at hv
  · next hm => simpa [hm] using hv.ne_nil
  · next hm => simp [hm, hv]

theorem length_extension (he : if m.hasExtension then IsExe extension else extension = []) :
    extension.length = if m.hasExtension then 4 else 0 := by
  split at he
  · next hm => rw [if_pos hm, he.length]
  · next hm => rw [if_neg hm, he, List.length_nil]

theorem HasFileName.unique (ht : t ∈ all) (hu : u ∈ all) (h : t.HasFileName v m name)
    (h' : u.HasFileName w n name) : t = u ∧ m = n := by
  obtain ⟨-, base, version, extension, hb, hv, he, hname⟩ := h
  obtain ⟨-, base', version', extension', hb', hv', he', hname'⟩ := h'
  -- from the end: the extension, then the version, then the name of the tool
  have hext : m.hasExtension = n.hasExtension := by
    rw [Bool.eq_iff_iff, hasExtension_iff ht hb hv he, hasExtension_iff hu hb' hv' he', ← hname,
      ← hname']
  have hlen : extension.length = extension'.length := by
    rw [length_extension he, length_extension he', hext]
  obtain ⟨hfront, -⟩ := List.append_inj' (hname.symm.trans hname') hlen
  obtain ⟨c, hc, hcv, -⟩ := hb.getLast? ht
  obtain ⟨d, hd, hdv, -⟩ := hb'.getLast? hu
  obtain ⟨rfl, rfl⟩ := Text.append_inj_of_getLast? hfront (by simp [hc, hcv]) (by simp [hd, hdv])
    (isVersionChar_of_suffix hv) (isVersionChar_of_suffix hv')
  have hver : m.hasVersion = n.hasVersion := by
    rw [Bool.eq_iff_iff, hasVersion_iff hv, hasVersion_iff hv']
  exact ⟨hb.unique ht hu hb', DetectionMethod.eq_of_has hver hext⟩

end BuiltinTool

end SettingsScan
