import SettingsScan.Proofs.Invocation.ArgumentList

/-! # Path options in a list of arguments

An option with a path is one argument or two. Joined to a command line it is read as it was given
if the operand has no blank characters, or if the quotes that a build tool puts stand around all of
the operand.
-/

namespace SettingsScan

open Spelling
open Text (isQuote)

/-- An option of a dialect with a path as its operand, glued to it or as an argument of its own. -/
structure PathOption (d : Dialect) where
  switch : Switch
  kind : SettingKind
  operand : Text
  glued : Bool
  mem : switch ∈ d.switches
  pathKind? : switch.meaning.pathKind? = some kind
  /-- Some options are never glued to their operand. -/
  optional : glued → switch.separation = .optional
  operand_ne_nil : operand ≠ []
  operand_isQuote : operand.any isQuote = false

theorem OptionMeaning.pathKind?_ne {meaning : OptionMeaning} {kind : SettingKind}
    (h : meaning.pathKind? = some kind) : kind ≠ .macroDefine ∧ kind ≠ .macroUndefine := by
  cases meaning <;> cases h <;> decide

namespace PathOption

variable {d : Dialect} {o : PathOption d} {options : List (PathOption d)}

def arguments (o : PathOption d) : List Text :=
  if o.glued then [o.switch.text ++ o.operand] else [o.switch.text, o.operand]

def setting (o : PathOption d) (directory : Text) : Setting :=
  .path o.kind (Path.resolve directory o.operand)

def written (o : PathOption d) : Text :=
  o.arguments.flatMap fun argument => ' ' :: Entry.writeArgument argument

/-- The operand has no blank characters, or the quotes that a build tool puts stand around all of
it: it has no equals sign, and is glued to a dash and one letter or does not look like an option
itself. -/
def Survives (o : PathOption d) : Prop :=
  o.operand.any isBlank = false ∨
    '=' ∉ o.operand ∧
      if o.glued then o.switch.text.head? = some '-' ∧ o.switch.text.length = 2
      else Entry.hasOptionLetter o.operand = false

/-! ### The switches -/

theorem switch_text (o : PathOption d) :
    o.switch.text.any isBlank = false ∧ o.switch.text.any isQuote = false ∧
      '=' ∉ o.switch.text := by
  have hall : ∀ switch ∈ d.switches, switch.text.any isBlank = false ∧
      switch.text.any isQuote = false ∧ '=' ∉ switch.text := by
    cases d <;> decide
  exact hall o.switch o.mem

theorem switch_ne_nil (o : PathOption d) : o.switch.text ≠ [] := by
  obtain ⟨c, t, ht, -⟩ := Switch.exists_cons_of_mem o.mem
  simp [ht]

theorem exists_letter (h : o.switch.text.head? = some '-') (hl : o.switch.text.length = 2) :
    ∃ letter, o.switch.text = ['-', letter] ∧ letter.utf8Size = 1 := by
  have hall : ∀ switch ∈ d.switches, switch.text.head? = some '-' → switch.text.length = 2 →
      switch.text.take 1 = ['-'] ∧ (switch.text.drop 1).all (·.utf8Size = 1) := by
    cases d <;> decide
  obtain ⟨c, letter, hc⟩ := List.length_eq_two.mp hl
  obtain ⟨ht, hs⟩ := hall o.switch o.mem h hl
  rw [hc] at ht hs
  refine ⟨letter, ?_, by simpa using hs⟩
  rw [hc, (List.cons.inj ht).1]

theorem writeArgument_switch (o : PathOption d) :
    Entry.writeArgument o.switch.text = o.switch.text :=
  Entry.writeArgument_plain o.switch_text.1 o.switch_text.2.1

theorem any_isBlank_glued (o : PathOption d) :
    (o.switch.text ++ o.operand).any isBlank = o.operand.any isBlank := by
  rw [List.any_append, o.switch_text.1, Bool.false_or]

theorem any_isQuote_glued (o : PathOption d) :
    (o.switch.text ++ o.operand).any isQuote = false := by
  rw [List.any_append, o.switch_text.2.1, o.operand_isQuote]
  rfl

theorem equals_not_mem_glued (o : PathOption d) (h : '=' ∉ o.operand) :
    '=' ∉ o.switch.text ++ o.operand := by
  rw [List.mem_append]
  exact not_or.mpr ⟨o.switch_text.2.2, h⟩

theorem kind_ne (o : PathOption d) : o.kind ≠ .macroDefine ∧ o.kind ≠ .macroUndefine :=
  OptionMeaning.pathKind?_ne o.pathKind?

theorem separator_ne_nil (hg : o.glued) : o.switch.separation = .required → ([] : Text) ≠ [] := by
  intro hr
  rw [o.optional hg] at hr
  cases hr

theorem written_glued (hg : o.glued) :
    o.written = [' '] ++ Entry.writeArgument (o.switch.text ++ o.operand) := by
  rw [written, arguments, if_pos hg, List.flatMap_singleton, List.singleton_append]

theorem written_separate (hg : o.glued = false) :
    o.written = [' '] ++ (o.switch.text ++ ([' '] ++ Entry.writeArgument o.operand)) := by
  rw [written, arguments, if_neg (by simp [hg]), List.flatMap_cons, List.flatMap_singleton,
    writeArgument_switch]
  rfl

theorem exists_written_cons (o : PathOption d) : ∃ t, o.written = ' ' :: t := by
  cases hg : o.glued with
  | true => exact ⟨_, written_glued hg⟩
  | false => exact ⟨_, written_separate hg⟩

theorem all_isBlank_written (o : PathOption d) : o.written.all isBlank = false := by
  cases hg : o.glued with
  | true =>
    rw [written_glued hg, List.all_append, Entry.all_isBlank_writeArgument
      (List.append_ne_nil_of_left_ne_nil o.switch_ne_nil _), Bool.and_false]
  | false =>
    rw [written_separate hg, List.all_append, List.all_append, List.all_append,
      Entry.all_isBlank_writeArgument o.operand_ne_nil]
    simp only [Bool.and_false]

/-! ### Options that survive -/

/-- What is written for an option: the switch, and the operand or the operand in quotes. -/
theorem Survives.written_eq (h : o.Survives) :
    ∃ separator body, o.written = [' '] ++ (o.switch.text ++ separator ++ body) ∧
      (∀ c ∈ separator, isAsciiBlank c) ∧ (o.switch.separation = .required → separator ≠ []) ∧
      ∀ directory, Writes directory o.switch.meaning body (o.setting directory) := by
  have hspace : ∀ c ∈ [' '], isAsciiBlank c := List.all_eq_true.mp (by decide)
  have hhead {q : Char} (hq : isQuote q) : o.operand.head? ≠ some q := fun hh =>
    Entry.not_mem_of_any_isQuote o.operand_isQuote hq (List.mem_of_head? hh)
  by_cases hb : o.operand.any isBlank = false
  · have hplain : ∀ directory, Writes directory o.switch.meaning o.operand (o.setting directory) :=
      fun directory => .path o.pathKind? o.operand_ne_nil (Entry.not_blank hb)
        (hhead (by decide)) (hhead (by decide))
    cases hg : o.glued with
    | true =>
      refine ⟨[], o.operand, ?_, by simp, separator_ne_nil hg, hplain⟩
      rw [written_glued hg, Entry.writeArgument_plain (o.any_isBlank_glued.trans hb)
        o.any_isQuote_glued, List.append_nil]
    | false =>
      refine ⟨[' '], o.operand, ?_, hspace, by simp, hplain⟩
      rw [written_separate hg, Entry.writeArgument_plain hb o.operand_isQuote,
        List.append_assoc o.switch.text]
  · have hquoted : ∀ directory, Writes directory o.switch.meaning ('"' :: (o.operand ++ ['"']))
        (o.setting directory) := fun directory =>
      .quotedPath o.pathKind? (.inl rfl)
        (Entry.not_mem_of_any_isQuote o.operand_isQuote (by decide))
    obtain ⟨he, hform⟩ := h.resolve_left hb
    have hb : o.operand.any isBlank := by simpa using hb
    cases hg : o.glued with
    | true =>
      rw [if_pos hg] at hform
      obtain ⟨letter, htext, hsize⟩ := exists_letter hform.1 hform.2
      have hletter : Entry.hasOptionLetter (o.switch.text ++ o.operand) := by
        obtain ⟨c, t, hc⟩ := List.exists_cons_of_ne_nil o.operand_ne_nil
        rw [htext, hc]
        simpa [Entry.hasOptionLetter] using hsize
      refine ⟨[], _, ?_, by simp, separator_ne_nil hg, hquoted⟩
      rw [written_glued hg, Entry.writeArgument_of_no_equals (o.any_isBlank_glued.trans hb)
        o.any_isQuote_glued (o.equals_not_mem_glued he), if_pos hletter, htext]
      rfl
    | false =>
      rw [if_neg (by simp [hg])] at hform
      refine ⟨[' '], _, ?_, hspace, by simp, hquoted⟩
      rw [written_separate hg, Entry.writeArgument_of_no_equals hb o.operand_isQuote he, hform,
        List.append_assoc o.switch.text]
      rfl

theorem Survives.renders (h : o.Survives) {directory tail : Text} {settings : List Setting}
    (ht : atEnd tail) (hr : Renders d directory tail settings) :
    Renders d directory (o.written ++ tail) (o.setting directory :: settings) := by
  obtain ⟨separator, body, hw, hs, hreq, hwrites⟩ := h.written_eq
  rw [hw, List.append_assoc, List.append_assoc]
  exact .setting (List.all_eq_true.mp (by decide)) o.mem hs hreq (hwrites directory) ht hr

theorem atEnd_flatMap_written (options : List (PathOption d)) :
    atEnd (options.flatMap written) := by
  cases options with
  | nil => rfl
  | cons o options =>
    obtain ⟨t, ht⟩ := o.exists_written_cons
    rw [List.flatMap_cons, ht]
    rfl

theorem renders_flatMap_written (h : ∀ o ∈ options, o.Survives) (directory : Text) :
    Renders d directory (options.flatMap written) (options.map (·.setting directory)) := by
  induction options with
  | nil => exact .done (by simp)
  | cons o options ih =>
    rw [List.flatMap_cons, List.map_cons]
    exact (h o List.mem_cons_self).renders (atEnd_flatMap_written options)
      (ih fun p hp => h p (List.mem_cons_of_mem o hp))

end PathOption

end SettingsScan
