import SettingsScan.SourceFile
import SettingsScan.Proofs.Option.Forms
import SettingsScan.Proofs.Option.Cut
import SettingsScan.Proofs.Pattern.Language
import SettingsScan.Proofs.Text.ShellState

/-! # Options in front of a source file

The source file is looked for among the words of the arguments, whatever the options are. An option
does not stand in its way if none of its words looks like a source file, and if what follows it is
split as it is without the option.
-/

namespace SettingsScan.SourceFile

open ShellWords (split? Mode)
open Pattern (Hint)

/-- The text names no source file, and leaves what follows it as it is. -/
structure Neutral (o : Text) : Prop where
  backslash : '\\' ∉ o
  closed : (Mode.between.after o).isClosed
  shellWords : ∀ ws ∈ split? o, ∀ w ∈ ws, looksLike w = false
  blankWords : ∀ w ∈ o.words, looksLike w = false

variable {t o w rest directory : Text} {ws : List Text} {d : Dialect} {taken : Taken}

/-! ### Where the words come from -/

theorem find?_of_backslash (h : '\\' ∈ t) : find? t = t.words.find? looksLike := by
  rw [find?, argumentWords, if_pos (by simpa using h)]

theorem find?_of_split? (h : '\\' ∉ t) (hs : split? t = some ws) :
    find? t = ws.find? looksLike := by
  rw [find?, argumentWords, if_neg (by simpa using h), hs, Option.getD_some]

theorem find?_of_unsplit (h : split? t = none) : find? t = t.words.find? looksLike := by
  rw [find?, argumentWords, h, Option.getD_none, ite_self]

theorem looksLike_of_dash (h : w.head? = some '-') : looksLike w = false := by
  obtain ⟨t, rfl⟩ := List.head?_eq_some_iff.mp h
  rfl

theorem looksLike_of_no_dot (h : '.' ∉ w) : looksLike w = false := by
  have hcut : w.cutLast? (· = '.') = none := by
    rw [Text.cutLast?, Text.cut?_eq_none fun a ha => ?_, Option.map_none]
    rw [decide_eq_false_iff_not]
    rintro rfl
    exact h (List.mem_reverse.mp ha)
  unfold looksLike
  split
  · rfl
  · rfl
  · rw [hcut, ite_self]

/-! ### Neutral texts -/

namespace Neutral

theorem find?_append (h : Neutral o) (rest : Text) : find? (o ++ ' ' :: rest) = find? rest := by
  have hblank : (o ++ ' ' :: rest).words.find? looksLike = rest.words.find? looksLike := by
    rw [Text.words_append_cons (by rfl), List.find?_append,
      List.find?_eq_none.mpr fun w hw => by simp [h.blankWords w hw], Option.none_or]
  by_cases hb : '\\' ∈ rest
  · rw [find?_of_backslash (by simp [hb]), find?_of_backslash hb, hblank]
  · have hb' : '\\' ∉ o ++ ' ' :: rest := by simp [h.backslash, hb]
    obtain ⟨ws, hs, happend⟩ := ShellWords.split?_append_of_isClosed h.closed
    cases hr : split? rest with
    | none =>
      rw [find?_of_unsplit (by rw [happend, hr, Option.map_none]), find?_of_unsplit hr, hblank]
    | some words =>
      rw [find?_of_split? hb' (by rw [happend, hr, Option.map_some]), find?_of_split? hb hr,
        List.find?_append, List.find?_eq_none.mpr fun w hw => by simp [h.shellWords ws hs w hw],
        Option.none_or]

end Neutral

/-! ### Names that tell whether a text is neutral -/

def quotedName (quote : Char) : Text :=
  quote :: "a b.c".toList ++ [quote]

theorem find?_quotedName {q : Char} (hq : ShellWords.isQuote q) :
    find? (quotedName q) = some "a b.c".toList ∧
      (quotedName q).words.find? looksLike = none := by
  rcases ShellWords.eq_or_eq_of_isQuote hq with rfl | rfl <;> decide

/-- The name is found only if the quotes are understood. -/
theorem find?_words_quotedName_ne {q : Char} (hq : ShellWords.isQuote q) (o : Text) :
    (o ++ ' ' :: quotedName q).words.find? looksLike ≠ find? (quotedName q) := by
  obtain ⟨hsome, hnone⟩ := find?_quotedName hq
  rw [Text.words_append_cons (by rfl), List.find?_append, hnone, Option.or_none, hsome]
  intro h
  have hword := (List.mem_filter.mp (List.mem_of_find?_eq_some h)).1
  exact absurd (Text.eq_false_of_mem_pieces hword ' ' (by decide)) (by decide)

theorem exists_quotedName_not_mem {q : Char} (hq : ShellWords.isQuote q) :
    ∃ q', ShellWords.isQuote q' ∧ q ∉ ' ' :: quotedName q' := by
  rcases ShellWords.eq_or_eq_of_isQuote hq with rfl | rfl
  · exact ⟨'"', rfl, by decide⟩
  · exact ⟨'\'', rfl, by decide⟩

theorem isClosed_of_find?_append (h : ∀ rest, find? (o ++ ' ' :: rest) = find? rest)
    (hb : '\\' ∉ o) : (Mode.between.after o).isClosed := by
  cases hm : Mode.between.after o with
  | between | word => rfl
  | quoted q =>
    obtain ⟨q', hq', hopen⟩ := exists_quotedName_not_mem (ShellWords.isQuote_of_after hm)
    refine absurd ?_ (find?_words_quotedName_ne hq' o)
    rw [← h, find?_of_unsplit (ShellWords.split?_append_of_quoted hm hopen)]
  | comment =>
    -- a source file behind the sign of the comment would be found as nothing is
    have hwords (rest : Text) (hline : '\n' ∉ ' ' :: rest) (hrest : '\\' ∉ rest) :
        find? rest = find? o := by
      obtain ⟨ws, hs, ho⟩ := ShellWords.split?_append_of_comment hm hline
      rw [← h, find?_of_split? (by simp [hb, hrest]) hs, find?_of_split? hb ho]
    have hsource := hwords "a.c".toList (by decide) (by decide)
    have hnone := hwords [] (by decide) (by decide)
    exact absurd (hsource.trans hnone.symm) (by decide)

theorem neutral_of_find?_append (h : ∀ rest, find? (o ++ ' ' :: rest) = find? rest) :
    Neutral o := by
  have hb : '\\' ∉ o := by
    intro hb
    refine find?_words_quotedName_ne (q := '"') (by rfl) o ?_
    rw [← h, find?_of_backslash (by simp [hb])]
  have hclosed := isClosed_of_find?_append h hb
  refine ⟨hb, hclosed, fun ws hws => ?_, ?_⟩
  · obtain ⟨words, hs, happend⟩ := ShellWords.split?_append_of_isClosed hclosed
    obtain rfl : words = ws := Option.some.inj (hs.symm.trans hws)
    have hempty : split? (o ++ [' ']) = some words :=
      (happend []).trans (congrArg some (List.append_nil words))
    have hnone := find?_of_split? (by simpa using hb) hempty
    rw [h] at hnone
    simpa using List.find?_eq_none.mp hnone.symm
  · have hnone := find?_of_backslash (t := o ++ ' ' :: ['\\']) (by simp)
    rw [h, Text.words_append_cons (by rfl), List.find?_append] at hnone
    simpa using List.find?_eq_none.mp (Option.or_eq_none_iff.mp hnone.symm).1

theorem neutral_iff : (∀ rest, find? (o ++ ' ' :: rest) = find? rest) ↔ Neutral o :=
  ⟨neutral_of_find?_append, fun h => h.find?_append⟩

/-! ### Options -/

/-- A text in one word that starts like an option is never taken for a source file. -/
theorem neutral_iff_of_dash (hd : o.head? = some '-') (hb : ∀ c ∈ o, isBlank c = false) :
    Neutral o ↔ '\\' ∉ o ∧ (Mode.between.after o).isClosed := by
  refine ⟨fun h => ⟨h.backslash, h.closed⟩, fun ⟨hbackslash, hclosed⟩ =>
    ⟨hbackslash, hclosed, fun ws hws w hw => looksLike_of_dash ?_, fun w hw => ?_⟩⟩
  · have hseparator : ∀ c ∈ o, ShellWords.isSeparator c = false := by
      intro c hc
      by_contra hs
      have hblank := ShellWords.isBlank_of_isSeparator (Bool.not_eq_false _ ▸ hs)
      rw [hb c hc] at hblank
      cases hblank
    obtain ⟨t, rfl⟩ := List.head?_eq_some_iff.mp hd
    exact ShellWords.head?_of_mem_split? (by decide) (by decide) hseparator hws hw
  · have hne : o ≠ [] := by
      rintro rfl
      cases hd
    rw [← List.append_nil o, Text.words_word_gap hne hb rfl, List.mem_singleton] at hw
    exact hw ▸ looksLike_of_dash hd

/-- A text without certain characters names nothing and leaves nothing open. -/
theorem neutral_of_chars (h : ∀ c ∈ o, c ∉ ['.', '\\', '\'', '"', '#']) : Neutral o where
  backslash hc := absurd (by decide) (h _ hc)
  closed := by
    refine Mode.isClosed_after rfl fun c hc => ?_
    have := h c hc
    simp_all [ShellWords.isQuote]
  shellWords ws hws w hw := looksLike_of_no_dot fun hc =>
    absurd (by decide) (h '.' (ShellWords.mem_of_mem_split? hws hw hc))
  blankWords w hw := looksLike_of_no_dot fun hc =>
    absurd (by decide) (h '.' (Text.mem_of_mem_words hw hc))

theorem head?_of_take? (hd : d = .gcc ∨ d = .nvcc)
    (h : d.rules.findSome? (·.take? directory o) = some taken) : o.head? = some '-' := by
  have hforms : d.forms.filter (·.2.mayTake [Hint.noneOf ['-']]) = [] := by
    rcases hd with rfl | rfl <;> decide +kernel
  cases o with
  | nil =>
    obtain ⟨rule, -, m, -, found, hm, -⟩ := OptionRule.exists_matcher_of_findSome? h
    obtain ⟨hne, happend, -⟩ := OptionMatcher.cut_of_lookingAt hm
    exact absurd (List.append_eq_nil_iff.mp happend).1 hne
  | cons c t =>
    by_contra hc
    have hfits : List.Forall₂ Hint.Fits [Hint.noneOf ['-']] [c] :=
      .cons (Hint.fits_noneOf (by simpa using hc)) .nil
    rw [← List.singleton_append, ArgumentReader.findSome?_rules_of_forms hfits, hforms] at h
    cases h

theorem neutral_of_undefine {name : Text}
    (h : d.rules.findSome? (·.take? directory o) = some taken) (hwhole : taken.rest = [])
    (hname : taken.findings = .ofSetting (.undefine name)) : Neutral o := by
  obtain ⟨rule, hr, m, hm, found, hl, rfl⟩ := OptionRule.exists_matcher_of_findSome? h
  have havoids : ∀ rule ∈ d.rules, rule.meaning = .macroUndefine →
      ∀ m ∈ rule.matchers, m.node.avoids ['.', '\\', '\'', '"', '#'] := by
    cases d <;> decide +kernel
  have hmeaning : rule.meaning = .macroUndefine := by
    have hkind := congrArg (fun findings => findings.settings.map (·.kind)) hname
    cases hm : rule.meaning <;> rw [hm] at hkind <;> first | rfl | cases hkind
  obtain ⟨place, hplace, -, -, -, hrest⟩ := OptionMatcher.exists_place_of_lookingAt hl
  obtain ⟨t, ht, hp⟩ := m.node.within_language _ place (List.mem_of_mem_head? hplace)
  have hempty : found.rest = [] := hwhole
  obtain rfl : o = t := by rwa [← hrest, hempty, List.append_nil] at hp
  exact neutral_of_chars (Pattern.Node.language_le_without (havoids rule hr hmeaning m hm) ht)

/-- An option leaves the search for a source file behind it alone if and only if it is neutral. Of
the options in one word that are not Microsoft's, these are the ones without a backslash that leave
no quote open, and of all families those that undefine a macro. -/
theorem find?_option_iff (family : ToolFamily)
    (h : family.dialect.rules.findSome? (·.take? directory o) = some taken)
    (hwhole : taken.rest = []) :
    ((∀ rest, find? (o ++ ' ' :: rest) = find? rest) ↔ Neutral o) ∧
    (family.dialect = .gcc ∨ family.dialect = .nvcc → (∀ c ∈ o, isBlank c = false) →
      (Neutral o ↔ '\\' ∉ o ∧ (Mode.between.after o).isClosed)) ∧
    (∀ name, taken.findings = .ofSetting (.undefine name) → Neutral o) :=
  ⟨neutral_iff, fun hd hb => neutral_iff_of_dash (head?_of_take? hd h) hb,
    fun _ hname => neutral_of_undefine h hwhole hname⟩

theorem find?_option_iff_undefine :
    (∃ taken, Dialect.gcc.rules.findSome? (·.take? "/p".toList "-U A".toList) = some taken ∧
      taken.rest = [] ∧ taken.findings = .ofSetting (.undefine "A".toList)) ∧
    find? ("-U A".toList ++ ' ' :: "a.c".toList) = find? "a.c".toList := by
  have htake : (Dialect.gcc.rules.findSome? (·.take? "/p".toList "-U A".toList)) =
      some { findings := .ofSetting (.undefine "A".toList), taken := "-U A".toList, rest := [] } := by
    decide +kernel
  have hiff := find?_option_iff .gcc htake rfl
  exact ⟨⟨_, htake, rfl, rfl⟩, hiff.1.mpr (hiff.2.2 _ rfl) _⟩

/-- A definition is taken for the source file because of its value. -/
theorem find?_value_of_definition :
    let o : Text := "/DLOG=trace.c".toList
    let rest : Text := "main.cpp".toList
    (∃ taken, ToolFamily.msvc.dialect.rules.findSome? (·.take? "/p".toList o) = some taken ∧
      taken.rest = [] ∧
      taken.findings = .ofSetting (.define "LOG".toList (some "trace.c".toList))) ∧
    find? (o ++ ' ' :: rest) = some o ∧ find? (o ++ ' ' :: rest) ≠ find? rest := by
  intro o rest
  have htake : ToolFamily.msvc.dialect.rules.findSome? (·.take? "/p".toList o) = some
      { findings := .ofSetting (.define "LOG".toList (some "trace.c".toList))
        taken := o
        rest := [] } := by
    decide +kernel
  exact ⟨⟨_, htake, rfl, rfl⟩, by decide +kernel, by decide +kernel⟩

end SettingsScan.SourceFile
