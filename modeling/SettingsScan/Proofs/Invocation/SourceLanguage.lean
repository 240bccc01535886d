import SettingsScan.SourceFile
import SettingsScan.Setting
import SettingsScan.Proofs.Path.Extension

/-! # Source files and their languages

A word of the arguments is a source file by what follows its last dot, and the language is that of
the extension of its file name. The two agree but for a file in a directory whose name is the
extension alone, for a name with separators behind it, and for one extension without a language.
-/

namespace SettingsScan

namespace Language

def known : List Text := all.flatMap extensions

variable {path extension : Text}

theorem isSome_ofFileName?_iff :
    (ofFileName? path).isSome ↔ ∃ e ∈ known, Path.extension? path = some e := by
  have hknown (e : Text) : (all.find? (·.extensions.contains e)).isSome ↔ e ∈ known := by
    simp [known, List.find?_isSome]
  rw [ofFileName?]
  cases h : Path.extension? path with
  | none => simp
  | some e =>
    rw [Option.bind_some, hknown]
    simp

end Language

namespace SourceFile

open SettingsScan.Path (IsIdle)

def objectiveC : List Text := ["m", "mi", "mm", "M", "mii"].map String.toList

def unlisted : Text := "C++"

/-- A file in a directory whose name is the extension alone, as in `src/.c`. -/
def IsHidden (word : Text) : Prop :=
  ∃ d, ∃ e ∈ extensions, word = d ++ '/' :: '.' :: e

/-- A file name that has a language, with separators behind it, as in `main.c/`. -/
def IsTrailed (word : Text) : Prop :=
  ∃ stem c gap, ∃ e ∈ Language.known,
    word = stem ++ c :: '.' :: e ++ gap ∧ c ≠ '/' ∧ IsIdle gap ∧ gap ≠ []

def IsUnlisted (word : Text) : Prop :=
  ∃ stem c, word = stem ++ c :: '.' :: unlisted

variable {word args path gap : Text}

theorem spec_of_mem_extensions : ∀ e ∈ extensions, e ≠ [] ∧ '.' ∉ e ∧ '/' ∉ e := by
  decide

theorem mem_extensions_iff {e : Text} :
    e ∈ extensions ↔ e ∈ Language.known ∨ e ∈ objectiveC ∨ e = unlisted := by
  have hparts : extensions ⊆ Language.known ++ objectiveC ++ [unlisted] ∧
      Language.known ++ objectiveC ++ [unlisted] ⊆ extensions := by
    decide
  rw [← or_assoc, ← List.mem_append, ← List.mem_singleton, ← List.mem_append]
  exact ⟨fun h => hparts.1 h, fun h => hparts.2 h⟩

theorem mem_extensions_of_known {e : Text} (h : e ∈ Language.known) : e ∈ extensions :=
  mem_extensions_iff.mpr (.inl h)

/-- A word that is no option is a source file if a dot and an extension stand behind at least one
character. -/
theorem looksLike_iff (hdash : word.head? ≠ some '-') (hat : word.head? ≠ some '@') :
    looksLike word ↔ ∃ stem c, ∃ e ∈ extensions, word = stem ++ c :: '.' :: e := by
  have hcut : looksLike word ↔ ∃ stem e, Text.cutLast? (· = '.') word = some (stem, e) ∧
      stem ≠ [] ∧ e ∈ extensions := by
    unfold looksLike
    split
    · simp at hdash
    · simp at hat
    · split
      · -- without a dot there is nothing to cut at
        next hslash =>
        refine iff_of_false nofun ?_
        rintro ⟨stem, e, hcut, -, -⟩
        obtain ⟨rfl, -⟩ := Text.cutLast?_eq_some_iff.mp hcut
        simp at hslash
      · cases Text.cutLast? (· = '.') word with
        | none => simp
        | some parts =>
          obtain ⟨stem, e⟩ := parts
          simp
  rw [hcut]
  constructor
  · rintro ⟨stem, e, hcut, hstem, he⟩
    obtain ⟨stem, c, rfl⟩ := (List.eq_nil_or_concat stem).resolve_left hstem
    exact ⟨stem, c, e, he, by simpa using (Text.cutLast?_eq_some_iff.mp hcut).1⟩
  · rintro ⟨stem, c, e, he, rfl⟩
    refine ⟨stem ++ [c], e, Text.cutLast?_eq_some_iff.mpr ⟨by simp, ?_⟩, by simp, he⟩
    exact (spec_of_mem_extensions e he).2.1

theorem isSome_ofFileName?_iff_exists : (Language.ofFileName? word).isSome ↔
    ∃ stem c gap, ∃ e ∈ Language.known,
      word = stem ++ c :: '.' :: e ++ gap ∧ c ≠ '/' ∧ IsIdle gap := by
  rw [Language.isSome_ofFileName?_iff]
  constructor
  · rintro ⟨e, he, h⟩
    have hne := (spec_of_mem_extensions e (mem_extensions_of_known he)).1
    obtain ⟨-, -, stem, c, gap, hword, hc, hgap⟩ := (Path.extension?_eq_some_iff hne).mp h
    exact ⟨stem, c, gap, e, he, hword, hc, hgap⟩
  · rintro ⟨stem, c, gap, e, he, hword, hc, hgap⟩
    obtain ⟨hne, hdot, hslash⟩ := spec_of_mem_extensions e (mem_extensions_of_known he)
    exact ⟨e, he, (Path.extension?_eq_some_iff hne).mpr ⟨hdot, hslash, stem, c, gap, hword, hc, hgap⟩⟩

theorem looksLike_append_idle (hdash : (path ++ gap).head? ≠ some '-')
    (hat : (path ++ gap).head? ≠ some '@') (hg : IsIdle gap) (hn : gap ≠ []) :
    looksLike (path ++ gap) = false := by
  refine Bool.eq_false_iff.mpr fun h => ?_
  obtain ⟨stem, c, e, he, hword⟩ := (looksLike_iff hdash hat).mp h
  obtain ⟨hne, hdot, hslash⟩ := spec_of_mem_extensions e he
  obtain ⟨e, last, rfl⟩ := (List.eq_nil_or_concat e).resolve_left hne
  have hlast : gap.getLast? = some last := by
    have hword : path ++ gap = (stem ++ c :: '.' :: e) ++ [last] := by simpa using hword
    rw [← List.getLast?_append_of_ne_nil path hn, hword, List.getLast?_concat]
  rcases hg.getLast? hn with h | h
  · obtain rfl : last = '/' := by simpa [hlast] using h
    simp at hslash
  · obtain rfl : last = '.' := by simpa [hlast] using h
    simp at hdot

/-! ### Where the two part -/

section Cases

variable (hdash : word.head? ≠ some '-') (hat : word.head? ≠ some '@')
include hdash hat

theorem IsTrailed.cases (h : IsTrailed word) :
    looksLike word = false ∧ (Language.ofFileName? word).isSome := by
  obtain ⟨stem, c, gap, e, he, rfl, hc, hgap, hn⟩ := h
  exact ⟨looksLike_append_idle hdash hat hgap hn,
    isSome_ofFileName?_iff_exists.mpr ⟨stem, c, gap, e, he, rfl, hc, hgap⟩⟩

/-- A word that ends in an extension has the language of this extension only, and only if the dot
belongs to a file name. -/
theorem of_isSome_ofFileName? {stem e : Text} {c : Char} (he : e ∈ extensions)
    (hword : word = stem ++ c :: '.' :: e) (h : (Language.ofFileName? word).isSome) :
    c ≠ '/' ∧ e ∈ Language.known := by
  have hlooks : looksLike word := (looksLike_iff hdash hat).mpr ⟨stem, c, e, he, hword⟩
  obtain ⟨stem', c', gap, e', he', hword', hc', hgap⟩ := isSome_ofFileName?_iff_exists.mp h
  by_cases hn : gap = []
  · have hcut {s u : Text} (h : word = s ++ '.' :: u) (hu : u ∈ extensions) :
        Text.cutLast? (· = '.') word = some (s, u) :=
      Text.cutLast?_eq_some_iff.mpr ⟨h, (spec_of_mem_extensions u hu).2.1⟩
    have h₁ := hcut (s := stem ++ [c]) (by simpa using hword) he
    have h₂ := hcut (s := stem' ++ [c']) (by simpa [hn] using hword') (mem_extensions_of_known he')
    rw [h₁] at h₂
    simp only [Option.some.injEq, Prod.mk.injEq] at h₂
    obtain rfl : c = c' := by simpa using (List.append_inj' h₂.1 rfl).2
    exact ⟨hc', h₂.2 ▸ he'⟩
  · rw [hword', looksLike_append_idle (hword' ▸ hdash) (hword' ▸ hat) hgap hn] at hlooks
    cases hlooks

theorem IsHidden.cases (h : IsHidden word) :
    looksLike word ∧ (Language.ofFileName? word).isSome = false := by
  obtain ⟨d, e, he, hword⟩ := h
  exact ⟨(looksLike_iff hdash hat).mpr ⟨d, '/', e, he, hword⟩, Bool.eq_false_iff.mpr fun h =>
    (of_isSome_ofFileName? hdash hat he hword h).1 rfl⟩

theorem IsUnlisted.cases (h : IsUnlisted word) :
    looksLike word ∧ (Language.ofFileName? word).isSome = false := by
  obtain ⟨stem, c, hword⟩ := h
  have he : unlisted ∈ extensions := mem_extensions_iff.mpr (.inr (.inr rfl))
  refine ⟨(looksLike_iff hdash hat).mpr ⟨stem, c, unlisted, he, hword⟩,
    Bool.eq_false_iff.mpr fun h => ?_⟩
  exact absurd (of_isSome_ofFileName? hdash hat he hword h).2 (by decide)

theorem isSome_ofFileName?_of_looksLike (hext : ∀ e ∈ objectiveC, Path.extension? word ≠ some e)
    (hh : ¬ IsHidden word) (hu : ¬ IsUnlisted word) (hl : looksLike word) :
    (Language.ofFileName? word).isSome := by
  obtain ⟨stem, c, e, he, hword⟩ := (looksLike_iff hdash hat).mp hl
  obtain ⟨hne, hdot, hslash⟩ := spec_of_mem_extensions e he
  have hc : c ≠ '/' := fun h => hh ⟨stem, e, he, h ▸ hword⟩
  rcases mem_extensions_iff.mp he with hk | ho | rfl
  · exact isSome_ofFileName?_iff_exists.mpr
      ⟨stem, c, [], e, hk, by simpa using hword, hc, Path.isIdle_nil⟩
  · exact absurd ((Path.extension?_eq_some_iff hne).mpr
      ⟨hdot, hslash, stem, c, [], by simpa using hword, hc, Path.isIdle_nil⟩) (hext e ho)
  · exact absurd ⟨stem, c, hword⟩ hu

theorem looksLike_of_isSome_ofFileName? (ht : ¬ IsTrailed word)
    (h : (Language.ofFileName? word).isSome) : looksLike word := by
  obtain ⟨stem, c, gap, e, he, hword, hc, hgap⟩ := isSome_ofFileName?_iff_exists.mp h
  obtain rfl : gap = [] := by
    by_contra hn
    exact ht ⟨stem, c, gap, e, he, hword, hc, hgap, hn⟩
  exact (looksLike_iff hdash hat).mpr ⟨stem, c, e, mem_extensions_of_known he, by simpa using hword⟩

end Cases

/-- A word that is neither an option nor a file of Objective-C looks like a source file exactly if
it has a language, unless it is a hidden file in a directory, has the extension without a language,
or has separators behind its file name. Of the source files that are found in arguments the hidden
ones and those with this extension are the ones without a language. -/
theorem looksLike_eq_isSome_ofFileName?_iff (hdash : word.head? ≠ some '-')
    (hat : word.head? ≠ some '@') (hext : ∀ e ∈ objectiveC, Path.extension? word ≠ some e) :
    (looksLike word = (Language.ofFileName? word).isSome ↔
      ¬ IsHidden word ∧ ¬ IsUnlisted word ∧ ¬ IsTrailed word) ∧
    ∀ args, find? args = some word →
      (Language.ofFileName? word = none ↔ IsHidden word ∨ IsUnlisted word) := by
  constructor
  · constructor
    · intro h
      refine ⟨fun hh => ?_, fun hu => ?_, fun ht => ?_⟩
      · obtain ⟨hl, hn⟩ := hh.cases hdash hat
        simp [hl, hn] at h
      · obtain ⟨hl, hn⟩ := hu.cases hdash hat
        simp [hl, hn] at h
      · obtain ⟨hl, hs⟩ := ht.cases hdash hat
        simp [hl, hs] at h
    · rintro ⟨hh, hu, ht⟩
      exact Bool.eq_iff_iff.mpr ⟨isSome_ofFileName?_of_looksLike hdash hat hext hh hu,
        looksLike_of_isSome_ofFileName? hdash hat ht⟩
  · intro args hfind
    have hl : looksLike word := List.find?_some hfind
    constructor
    · intro hnone
      by_contra hne
      obtain ⟨hh, hu⟩ := not_or.mp hne
      simpa [hnone] using isSome_ofFileName?_of_looksLike hdash hat hext hh hu hl
    · rintro (hh | hu)
      · simpa using (hh.cases hdash hat).2
      · simpa using (hu.cases hdash hat).2

theorem looksLike_eq_isSome_ofFileName?_iff_idle :
    let word : Text := "lib.d/main.tar.cpp/.".toList
    (word.head? ≠ some '-' ∧ word.head? ≠ some '@' ∧
      ∀ e ∈ objectiveC, Path.extension? word ≠ some e) ∧
    looksLike word ≠ (Language.ofFileName? word).isSome := by
  intro word
  have hext : ∀ e ∈ objectiveC, Path.extension? word ≠ some e := by decide
  refine ⟨⟨by decide, by decide, hext⟩, fun h => ?_⟩
  obtain ⟨hiff, -⟩ := looksLike_eq_isSome_ofFileName?_iff (by decide) (by decide) hext
  exact (hiff.mp h).2.2 ⟨"lib.d/main.ta".toList, 'r', "/.".toList, "cpp".toList, by decide, rfl,
    by decide, ⟨[['.']], by decide, rfl⟩, by decide⟩

/-- A source file on a command line, of C++ by its extension, that has no language. -/
theorem looksLike_without_language :
    let word : Text := "main.C++".toList
    word.head? ≠ some '-' ∧ word.head? ≠ some '@' ∧
      (∀ e ∈ objectiveC, Path.extension? word ≠ some e) ∧
      find? "-c main.C++".toList = some word ∧ looksLike word = true ∧
      Language.ofFileName? word = none := by
  decide

end SourceFile

end SettingsScan
