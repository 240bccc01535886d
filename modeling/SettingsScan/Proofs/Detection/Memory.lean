import SettingsScan.Detection.Memory
import SettingsScan.Proofs.Detection.Registry

/-! # What the remembered detector can change

With memory, a line is answered by the latest detector if that one recognises it, and as without
memory otherwise; the table of expanded names never changes an answer. Whether a line is
recognised is not changed either. Its tool is, exactly where the latest detector recognises the
line in another way than the first detector of the scan.
-/

namespace SettingsScan

/-- What a line is attributed to. -/
structure Attribution where
  family : ToolFamily
  language : Option Language
  command : Text
  arguments : Text
  deriving DecidableEq, Repr

def Detection.attribution (d : Detection) : Attribution where
  family := d.detector.reader.family
  language := d.detector.reader.language
  command := d.command
  arguments := d.arguments

namespace Registry

variable {r : Registry} {e : Expander} {line : Text}

def follow (r : Registry) (e : Expander) (last : Option (DetectorId × DetectionMethod))
    (line : Text) : Option (DetectorId × DetectionMethod) :=
  if (last.bind (r.tryPair line)).isSome then last
  else (r.detect e line).map fun d => (d.id, d.method)

/-- The pair that is tried first after the given lines, told without a table of expansions. -/
def latest (r : Registry) (e : Expander) (lines : List Text) :
    Option (DetectorId × DetectionMethod) :=
  lines.foldl (r.follow e) none

/-- After the given lines, the latest pair recognises the line, but not as the scan does. -/
def Overridden (r : Registry) (e : Expander) (before : List Text) (line : Text) : Prop :=
  ∃ pair found first, r.latest e before = some pair ∧ r.tryPair line pair = some found ∧
    r.scanWritten line = some first ∧ first.attribution ≠ found.attribution

def answerAfter (r : Registry) (e : Expander) (before : List Text) (line : Text) :
    Option Detection :=
  ((r.latest e before).bind (r.tryPair line)).or (r.detect e line)

variable {options : DetectionOptions} {tools : List ToolSpec} {before : List Text}

theorem isSome_answerAfter (h : ofTools options tools = .ok r) :
    (r.answerAfter e before line).isSome = (r.detect e line).isSome := by
  unfold answerAfter
  cases hp : (r.latest e before).bind (r.tryPair line) with
  | none => rfl
  | some found =>
    obtain ⟨pair, -, hf⟩ := Option.bind_eq_some_iff.mp hp
    obtain ⟨first, hs⟩ := Option.isSome_iff_exists.mp
      (scanWritten_isSome_of_tryPair h (Option.isSome_of_eq_some hf))
    simp [detect_of_scanWritten hs]

theorem attribution_answerAfter_iff (h : ofTools options tools = .ok r) :
    (r.answerAfter e before line).map (·.attribution) =
      (r.detect e line).map (·.attribution) ↔ ¬ r.Overridden e before line := by
  unfold answerAfter Overridden
  cases hl : r.latest e before with
  | none => simp
  | some pair =>
    cases hf : r.tryPair line pair with
    | none => simp [hf]
    | some found =>
      obtain ⟨first, hs⟩ := Option.isSome_iff_exists.mp
        (scanWritten_isSome_of_tryPair h (Option.isSome_of_eq_some hf))
      simp [hf, hs, detect_of_scanWritten hs, eq_comm]

end Registry

namespace DetectionMemory

variable {r : Registry} {e : Expander} {m : DetectionMemory} {line : Text}

/-- Every expansion in the table is what the expander answers. -/
def Faithful (m : DetectionMemory) (e : Expander) : Prop :=
  ∀ entry ∈ m.shortNames, entry.2 = e entry.1

def answers (m : DetectionMemory) (r : Registry) (e : Expander) :
    List Text → List (Option Detection)
  | [] => []
  | line :: lines =>
    (m.detect r e line).found :: (m.detect r e line).memory.answers r e lines

theorem tryLast_eq : m.tryLast r line = m.last.bind (r.tryPair line) := rfl

theorem Faithful.lookup {token : Text} {long : Option Text} (h : m.Faithful e)
    (hl : m.shortNames.lookup token = some long) : long = e token := by
  obtain ⟨before, after, hs, -⟩ := List.lookup_eq_some_iff.mp hl
  exact h (token, long) (by simp [hs])

theorem Faithful.insert (h : m.Faithful e) (token : Text)
    (last : Option (DetectorId × DetectionMethod)) :
    Faithful { last, shortNames := (token, e token) :: m.shortNames } e := by
  intro entry hm
  rcases List.mem_cons.mp hm with rfl | hm
  · rfl
  · exact h entry hm

/-- One line: the answer, the pair for the next line, and the table. -/
theorem Faithful.detect (h : m.Faithful e) (r : Registry) (line : Text) :
    (m.detect r e line).found = (m.tryLast r line).or (r.detect e line) ∧
    (m.detect r e line).memory.last = r.follow e m.last line ∧
    (m.detect r e line).memory.Faithful e := by
  unfold DetectionMemory.detect Registry.follow Registry.detect
  rw [← tryLast_eq]
  cases m.tryLast r line with
  | some found => exact ⟨rfl, by simp, h⟩
  | none =>
    cases r.scanWritten line with
    | some found => exact ⟨rfl, rfl, h⟩
    | none =>
      cases r.shortToken? line with
      | none => exact ⟨rfl, rfl, h⟩
      | some token =>
        dsimp only
        split
        · rename_i long hl
          obtain rfl := h.lookup hl
          exact ⟨rfl, rfl, h⟩
        · exact ⟨rfl, rfl, h.insert token _⟩

/-- Each answer of a run is that of the pair in use at the line, else the one without memory. -/
theorem getElem?_answers (h : m.Faithful e) (lines : List Text) (i : Nat) :
    (m.answers r e lines)[i]? = lines[i]?.map fun line =>
      (((lines.take i).foldl (r.follow e) m.last).bind (r.tryPair line)).or (r.detect e line) := by
  induction lines generalizing m i with
  | nil => rfl
  | cons line lines ih =>
    obtain ⟨hf, hl, ht⟩ := h.detect r line
    cases i with
    | zero => simp [answers, hf, tryLast_eq]
    | succ i => simp [answers, ih ht, hl]

theorem getElem?_answers_empty (lines : List Text) (i : Nat) :
    (answers {} r e lines)[i]? = lines[i]?.map (r.answerAfter e (lines.take i)) :=
  getElem?_answers (m := {}) (by simp [Faithful]) lines i

variable {options : DetectionOptions} {tools : List ToolSpec}

/-- Memory never changes whether a line is recognised, and changes its tool exactly where the
pair in use overrides the scan. -/
theorem attribution_answers_iff (h : Registry.ofTools options tools = .ok r) (e : Expander)
    (before after : List Text) (line : Text) :
    ∃ answer, (answers {} r e (before ++ line :: after))[before.length]? = some answer ∧
      answer.isSome = (r.detect e line).isSome ∧
      (answer.map (·.attribution) = (r.detect e line).map (·.attribution) ↔
        ¬ r.Overridden e before line) := by
  refine ⟨r.answerAfter e before line, ?_, Registry.isSome_answerAfter h,
    Registry.attribution_answerAfter_iff h⟩
  simp [getElem?_answers_empty]

theorem attribution_answers_iff_builtin :
    ∃ r, Registry.ofTools {} [] = .ok r ∧
      ∃ answer, (answers {} r (fun _ => none)
          (["clang -c a.c".toList] ++ ["gcc -c b.c".toList]))[1]? = some answer ∧
        answer.isSome = (r.detect (fun _ => none) "gcc -c b.c".toList).isSome ∧
        (answer.map (·.attribution) =
            (r.detect (fun _ => none) "gcc -c b.c".toList).map (·.attribution) ↔
          ¬ r.Overridden (fun _ => none) ["clang -c a.c".toList] "gcc -c b.c".toList) := by
  obtain ⟨r, h⟩ := Registry.exists_ofTools_builtin
  exact ⟨r, h, attribution_answers_iff h _ ["clang -c a.c".toList] [] _⟩

/-- A cross compiler that is remembered takes the lines of a tool in front of it. -/
theorem remembered_pair_overrides_given_tool :
    ∃ r, Registry.ofTools {} [{ name := "my-gcc".toList, family := .clang }] = .ok r ∧
      ((answers {} r (fun _ => none) ["x-gcc -c a.c".toList, "my-gcc -c b.c".toList]).map
        fun d => d.map (·.attribution.family)) = [some .gcc, some .gcc] ∧
      (["x-gcc -c a.c".toList, "my-gcc -c b.c".toList].map
        fun line => (r.detect (fun _ => none) line).map (·.attribution.family)) =
          [some .gcc, some .clang] := by
  have hr : ((Registry.ofTools {} [{ name := "my-gcc".toList, family := .clang }]).toOption.map
      fun r =>
        ((answers {} r (fun _ => none) ["x-gcc -c a.c".toList, "my-gcc -c b.c".toList]).map
            fun d => d.map (·.attribution.family),
          ["x-gcc -c a.c".toList, "my-gcc -c b.c".toList].map
            fun line => (r.detect (fun _ => none) line).map (·.attribution.family))) =
      some ([some .gcc, some .gcc], [some .gcc, some .clang]) := by
    decide +kernel
  cases h : Registry.ofTools {} [{ name := "my-gcc".toList, family := .clang }] with
  | error err => rw [h] at hr; cases hr
  | ok r =>
    rw [h] at hr
    obtain ⟨ha, hd⟩ := Prod.mk.inj (Option.some.inj hr)
    exact ⟨r, rfl, ha, hd⟩

end DetectionMemory

end SettingsScan
