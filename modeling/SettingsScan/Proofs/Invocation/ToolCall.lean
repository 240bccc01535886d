import SettingsScan.Proofs.Detection.QuotedPath
import SettingsScan.Proofs.Invocation.ArgumentList

/-! # Calls of a built-in tool

A line that starts with a path of a built-in tool is attributed to that tool, and all that follows
are its arguments. The path stands as it is if it has no blank characters, and in quotes otherwise.
-/

namespace SettingsScan

/-- Whatever follows the text behind a space is read as the arguments of a tool that has the
dialect. -/
def Registry.Calls (r : Registry) (e : Expander) (text : Text) (d : Dialect) : Prop :=
  ∀ rest, ∃ found, r.detect e (text ++ ' ' :: rest) = some found ∧
    found.detector.reader.family.dialect = d ∧ found.arguments = rest

namespace BuiltinTool

open Text (isQuote)

/-- A path of the tool that is found as it is written: it has no blank characters, or all of it is
put in quotes and the directory does not interrupt. -/
def IsWritten (t : BuiltinTool) (versions : Bool) (path : Text) : Prop :=
  path.any isQuote = false ∧
    (path.any isBlank = false ∧ (∃ m, t.HasFileName versions m path.lastSegment) ∨
      path.any isBlank ∧ '=' ∉ path ∧ Entry.hasOptionLetter path = false ∧
        ∃ directory name m, path = directory ++ '/' :: name ∧ IsPathName name ∧
          t.HasFileName versions m name ∧ ¬ Interrupts versions directory name)

end BuiltinTool

namespace Registry.IsBuiltin

open BuiltinTool (IsPathName)
open Text (isQuote)

variable {r : Registry} {versions : Bool} {t : BuiltinTool} {m : DetectionMethod}
  {path directory name : Text}

theorem exists_scan_of_path (h : r.IsBuiltin versions) (ht : t ∈ BuiltinTool.all)
    (hq : '"' ∉ path) (hb : ∀ c ∈ path, isAsciiBlank c = false)
    (hname : t.HasFileName versions m path.lastSegment) (rest : Text) :
    ∃ found, r.scan .posix (path ++ ' ' :: rest) = some found ∧
      found.detector.reader.family = t.family ∧ found.arguments = rest := by
  obtain ⟨i, hi⟩ := List.mem_iff_getElem?.mp ht
  obtain ⟨d, hd⟩ := h.exists_detector hi
  have hhead : (path ++ ' ' :: rest).head? ≠ some '"' := by
    cases path with
    | nil => simp
    | cons c path => simpa using fun hc => hq (by simp [hc])
  have hmatch : d.match? (path ++ ' ' :: rest) m = some { command := path, arguments := rest } :=
    (h.match?_eq_some_iff_of_head hd hi hhead).mpr ⟨hname, hb, ' ', by decide, rfl⟩
  have hpair : r.tryPair (path ++ ' ' :: rest) ({ style := .posix, index := i }, m) = some
      { id := { style := .posix, index := i }, detector := d, method := m, command := path,
        arguments := rest } := by
    rw [tryPair_posix hd, hmatch, Option.map_some]
  have hmem : ({ style := .posix, index := i }, m) ∈ r.pairs .posix :=
    mem_pairs.mpr (List.getElem?_eq_some_iff.mp hd).1
  have hfound := (findSome?_eq_some_iff_of_unique fun p hp q hq =>
    h.unique_pair hhead hp hq).mpr ⟨_, hmem, hpair⟩
  exact ⟨_, scan_eq_findSome?.trans hfound, congrArg ArgumentReader.family
    (h.detector i d t hd hi).1, rfl⟩

theorem exists_scan_of_quoted (h : r.IsBuiltin versions) (ht : t ∈ BuiltinTool.all)
    (hdir : '"' ∉ directory) (hn : IsPathName name) (hname : t.HasFileName versions m name)
    (hi : ¬ Interrupts versions directory name) (rest : Text) :
    ∃ found, r.scan .posix ('"' :: directory ++ '/' :: name ++ '"' :: ' ' :: rest) = some found ∧
      found.detector.reader.family = t.family ∧ found.arguments = rest := by
  have hlast : name.lastSegment = name := Text.lastSegment_of_not_mem fun hc => (hn _ hc).1 rfl
  obtain ⟨found, hs, hf, -⟩ := h.exists_scan_of_path ht (fun hc => (hn _ hc).2.1 rfl)
    (fun c hc => (hn c hc).2.2) (by rwa [hlast]) rest
  rw [(h.scan_quoted_iff hdir hn rest).mpr hi, hs]
  exact ⟨_, rfl, hf, rfl⟩

theorem calls (h : r.IsBuiltin versions) (e : Expander) (ht : t ∈ BuiltinTool.all)
    (hp : t.IsWritten versions path) :
    r.Calls e (Entry.writeArgument path) t.family.dialect := by
  intro rest
  suffices hscan : ∃ found, r.scan .posix (Entry.writeArgument path ++ ' ' :: rest) = some found ∧
      found.detector.reader.family = t.family ∧ found.arguments = rest by
    obtain ⟨found, hs, hf, ha⟩ := hscan
    exact ⟨found, detect_of_scanWritten (by rw [scanWritten, hs, Option.some_or]),
      congrArg ToolFamily.dialect hf, ha⟩
  obtain ⟨hq, ⟨hb, m, hname⟩ | ⟨hb, he, hl, directory, name, m, rfl, hn, hname, hi⟩⟩ := hp
  · rw [Entry.writeArgument_plain hb hq]
    exact h.exists_scan_of_path ht (Entry.not_mem_of_any_isQuote hq (by decide))
      (Entry.not_blank hb) hname rest
  · have hdir : '"' ∉ directory := fun hm =>
      Entry.not_mem_of_any_isQuote hq (by decide) (List.mem_append_left _ hm)
    have hline : Entry.writeArgument (directory ++ '/' :: name) ++ ' ' :: rest =
        '"' :: directory ++ '/' :: name ++ '"' :: ' ' :: rest := by
      rw [Entry.writeArgument_of_no_equals hb hq he, hl]
      simp
    rw [hline]
    exact h.exists_scan_of_quoted ht hdir hn hname hi rest

end Registry.IsBuiltin

end SettingsScan
