import SettingsScan.Proofs.Option.Cut
import SettingsScan.Proofs.Option.Forms
import SettingsScan.Proofs.Pattern.Seam

/-! # Arguments in front of a seam

An argument in front of a seam is taken as if nothing followed, unless the last word in front of it
is an option that waits for its operand.
-/

namespace SettingsScan

open Pattern (BeforeSeam AfterSeam)

/-- The options of a dialect whose operand may be the next word. -/
def Dialect.detached : Dialect → List Text
  | gcc => posix ++ driver
  | cc => posix ++ driver
  | msvc => ["D", "U", "I", "external:I", "imsvc", "FI"].flatMap fun name =>
    ['-' :: name.toList, '/' :: name.toList]
  | nvcc => long ++ "-std".toList :: (posix ++ driver)
where
  posix : List Text := ["-D", "-U", "-I", "-isystem"].map String.toList
  driver : List Text :=
    ["-include", "-imacros", "-iquote", "-idirafter", "--sysroot", "-isysroot"].map String.toList
  long : List Text :=
    ["--define-macro", "--undefine-macro", "--include-path", "--system-include", "--pre-include",
      "--std"].flatMap fun name => [name.toList, name.toList ++ ['=']]

/-- A matcher whose match stays in front of a seam, with groups of its own. -/
def OptionMatcher.isSealed (detached : List Text) (m : OptionMatcher) : Bool :=
  m.node.isSealed detached (fun _ => true) (.exactly []) && m.nameGroup ≠ 0 &&
    m.valueGroup ≠ some 0

theorem Dialect.isSealed_of_mem {d : Dialect} {form : OptionMeaning × OptionMatcher}
    (hf : form ∈ d.forms) : form.2.isSealed d.detached := by
  have h : ∀ form ∈ d.forms, form.2.isSealed d.detached := by
    cases d <;> decide
  exact h form hf

theorem ResponseFile.isSealed_of_mem {m : OptionMatcher} (hm : m ∈ atSign) (d : Dialect) :
    m.isSealed d.detached := by
  have h : ∀ m ∈ atSign, m.isSealed d.detached := by
    cases d <;> decide
  exact h m hm

/-- What is left of the longer text: what was left and the text behind the seam, or this without
the blank character in front. -/
def LeavesAll (tail rest rest' : Text) : Prop :=
  rest' = rest ++ tail ∨ rest = [] ∧ ∃ b, isAsciiBlank b ∧ tail = b :: rest'

variable {detached : List Text} {u tail rest rest' : Text} {d : Dialect}

/-- The matches in the two texts: the longer one may take the blank character as well. -/
structure OptionMatch.Continues (tail : Text) (m m' : OptionMatch) : Prop where
  name : m'.name = m.name
  value : m'.value = m.value
  taken : m'.taken.trimEnd = m.taken.trimEnd
  rest : LeavesAll tail m.rest m'.rest

theorem Text.trimEnd_append_blank {b : Char} (hb : isBlank b) (t : Text) :
    (t ++ [b]).trimEnd = t.trimEnd := by
  simp [Text.trimEnd, hb]

theorem OptionMatcher.lookingAt_sealed {m : OptionMatcher} (hm : m.isSealed detached)
    (hu : BeforeSeam detached u) (ht : AfterSeam tail) (hn : u ≠ []) :
    Option.Rel (OptionMatch.Continues tail) (m.lookingAt u) (m.lookingAt (u ++ tail)) := by
  simp only [isSealed, Bool.and_eq_true, decide_eq_true_eq] at hm
  obtain ⟨⟨hnode, hname⟩, hvalue⟩ := hm
  have h := Pattern.Node.match?_sealed hu ht hnode
  unfold lookingAt
  generalize m.node.match? u = a at h
  generalize m.node.match? (u ++ tail) = a' at h
  cases h with
  | none => exact .none
  | @some p p' h =>
    obtain ⟨κ, h⟩ := h
    have hgroup {i : Nat} (hi : i ≠ 0) := h.group?_eq hi
    have hval : m.valueGroup.bind (fun group => (p'.group? (u ++ tail) group).map fun value =>
          if m.shellEscaped then unescapeQuotes value else value) =
        m.valueGroup.bind fun group => (p.group? u group).map fun value =>
          if m.shellEscaped then unescapeQuotes value else value := by
      cases hg : m.valueGroup with
      | none => rfl
      | some i =>
        have hi : i ≠ 0 := by
          rintro rfl
          exact hvalue hg
        simp only [Option.bind_some, hgroup hi]
    obtain ⟨front, hfront, hpassed⟩ := h.left.inside
    dsimp only
    rw [hgroup hname, hval]
    cases p.group? u m.nameGroup with
    | none => exact .none
    | some name =>
      dsimp only
      rcases h.right with rfl | ⟨-, hrest, b, r, rfl, hb, rfl⟩
      · rw [Pattern.Place.passed_extend]
        split
        · exact .none
        · refine .some ⟨rfl, rfl, ?_, .inl rfl⟩
          have hle : p.passed ≤ u.length := by simp [hfront, hpassed]
          exact congrArg Text.trimEnd (List.take_append_of_le_length hle)
      · have hlen : p.passed = u.length := by simp [hfront, hpassed, hrest]
        have h0 : p.passed ≠ 0 := by simpa [hlen] using hn
        rw [if_neg h0, if_neg (by simp)]
        refine .some ⟨rfl, rfl, ?_, .inr ⟨hrest, b, hb, rfl⟩⟩
        have htake : (u ++ b :: r).take (u.length + 1) = u ++ [b] :=
          List.take_length_add_append 1
        have hall : u.take p.passed = u := by rw [hlen, List.take_length]
        rw [Pattern.Place.passed_after, hlen, List.length_singleton, htake, List.take_length]
        exact Text.trimEnd_append_blank (isBlank_of_isAsciiBlank hb) u

theorem OptionMeaning.findings_continues {m m' : OptionMatch} (h : m.Continues tail m')
    (meaning : OptionMeaning) (directory : Text) :
    meaning.findings directory m' = meaning.findings directory m := by
  cases meaning <;> simp only [findings, h.name, h.value, h.taken]

/-- One argument, taken with and without the text behind the seam. -/
structure Segment.Continues (tail : Text) (s s' : Segment) : Prop where
  parsed : s'.parsed = s.parsed
  rest : LeavesAll tail s.rest s'.rest

namespace ArgumentReader

theorem rules_sealed (hu : BeforeSeam d.detached u) (ht : AfterSeam tail) (hn : u ≠ [])
    (directory : Text) :
    Option.Rel (fun t t' : Taken => t'.findings = t.findings ∧ LeavesAll tail t.rest t'.rest)
      (d.rules.findSome? (·.take? directory u))
      (d.rules.findSome? (·.take? directory (u ++ tail))) := by
  rw [d.findSome?_rules, d.findSome?_rules]
  refine rel_findSome? fun form hform => ?_
  exact rel_map (OptionMatcher.lookingAt_sealed (Dialect.isSealed_of_mem hform) hu ht hn)
    fun m m' h => ⟨form.1.findings_continues h directory, h.rest⟩

theorem reference_sealed (hu : BeforeSeam d.detached u) (ht : AfterSeam tail) (hn : u ≠ [])
    (directory : Text) :
    Option.Rel (fun r r' : ResponseFile.Reference =>
        r'.target = r.target ∧ LeavesAll tail r.rest r'.rest)
      (ResponseFile.recognize? ResponseFile.atSign directory u)
      (ResponseFile.recognize? ResponseFile.atSign directory (u ++ tail)) := by
  unfold ResponseFile.recognize?
  refine rel_map (rel_findSome? fun m hm => OptionMatcher.lookingAt_sealed
    (ResponseFile.isSealed_of_mem hm d) hu ht hn) fun m m' h => ?_
  exact ⟨by rw [h.name], h.rest⟩

theorem skip_sealed (ht : AfterSeam tail) (u : Text) :
    LeavesAll tail (u.dropWhile (!isBlank ·)) ((u ++ tail).dropWhile (!isBlank ·)) := by
  left
  rw [List.dropWhile_append]
  split
  · rename_i he
    rw [List.isEmpty_iff.mp he, List.nil_append]
    cases tail with
    | nil => rfl
    | cons b r =>
      have hb : isBlank b := isBlank_of_isAsciiBlank (ht b rfl)
      exact List.dropWhile_cons_of_neg (by simp [hb])
  · rfl

theorem takeOne_sealed (hu : BeforeSeam d.detached u) (ht : AfterSeam tail) (hn : u ≠ [])
    (responseFiles : Bool) (directory : Text) (expand : Text → Parsed) :
    Segment.Continues tail (takeOne d.rules responseFiles directory expand u)
      (takeOne d.rules responseFiles directory expand (u ++ tail)) := by
  have hrules := rules_sealed hu ht hn directory
  unfold takeOne
  generalize d.rules.findSome? (·.take? directory u) = a at hrules
  generalize d.rules.findSome? (·.take? directory (u ++ tail)) = a' at hrules
  cases hrules with
  | some h => exact ⟨by dsimp only; rw [h.1], h.2⟩
  | none =>
    cases responseFiles with
    | false => exact ⟨rfl, skip_sealed ht u⟩
    | true =>
      have hreference := reference_sealed hu ht hn directory
      simp only [if_true]
      generalize ResponseFile.recognize? ResponseFile.atSign directory u = b at hreference
      generalize ResponseFile.recognize? ResponseFile.atSign directory (u ++ tail) = b'
        at hreference
      cases hreference with
      | some h => exact ⟨by dsimp only; rw [h.1], h.2⟩
      | none => exact ⟨rfl, skip_sealed ht u⟩

end ArgumentReader

end SettingsScan
