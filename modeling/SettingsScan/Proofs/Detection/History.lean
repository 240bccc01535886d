import SettingsScan.Proofs.Detection.Memory

/-! # Recognition does not depend on history

Whatever lines came before, a line is recognised if and only if it is without memory. The detector
that is given stands in the registry and does recognise the line, and it is the one that is tried
first on the next line.
-/

namespace SettingsScan

namespace Registry

variable {r : Registry} {e : Expander} {line : Text} {d : Detection}

/-- The detection is what its detector gives on the line in its way. -/
structure Matches (r : Registry) (line : Text) (d : Detection) : Prop where
  registered : r.get? d.id = some d.detector
  matched : d.detector.match? line d.method =
    some { command := d.command, arguments := d.arguments }

/-- The detection is what its detector gives on the line as it is written. If no detector knows it
so, it may be what its detector gives with the expansion in the place of the token. -/
def Supports (r : Registry) (e : Expander) (line : Text) (d : Detection) : Prop :=
  r.Matches line d ∨ r.scanWritten line = none ∧ ∃ token long, r.shortToken? line = some token ∧
    e token = some long ∧ r.Matches (withLongName line long) d

theorem Supports.registered (h : r.Supports e line d) : r.get? d.id = some d.detector := by
  rcases h with h | ⟨-, _, _, _, _, h⟩ <;> exact h.registered

theorem matches_of_tryPair {pair : DetectorId × DetectionMethod}
    (h : r.tryPair line pair = some d) : (d.id, d.method) = pair ∧ r.Matches line d := by
  obtain ⟨detector, hd, h⟩ := Option.bind_eq_some_iff.mp h
  obtain ⟨found, hf, rfl⟩ := Option.map_eq_some_iff.mp h
  exact ⟨rfl, hd, hf⟩

theorem matches_of_scan {style : PathStyle} (h : r.scan style line = some d) :
    r.Matches line d := by
  obtain ⟨method, -, h⟩ := List.exists_of_findSome?_eq_some h
  obtain ⟨⟨detector, index⟩, hi, h⟩ := List.exists_of_findSome?_eq_some h
  obtain ⟨found, hf, rfl⟩ := Option.map_eq_some_iff.mp h
  exact ⟨List.mem_zipIdx_iff_getElem?.mp hi, hf⟩

theorem matches_of_scanWritten (h : r.scanWritten line = some d) : r.Matches line d := by
  rcases Option.or_eq_some_iff.mp h with h | ⟨-, h⟩
  · exact matches_of_scan h
  · split at h
    · exact matches_of_scan h
    · cases h

theorem matches_of_scanExpanded {long : Text} (h : r.scanExpanded line long = some d) :
    r.Matches (withLongName line long) d := by
  rcases Option.or_eq_some_iff.mp h with h | ⟨-, h⟩ <;> exact matches_of_scan h

theorem supports_of_detect (h : r.detect e line = some d) : r.Supports e line d := by
  rcases Option.or_eq_some_iff.mp h with h | ⟨hw, h⟩
  · exact .inl (matches_of_scanWritten h)
  · obtain ⟨token, ht, h⟩ := Option.bind_eq_some_iff.mp h
    obtain ⟨long, hl, h⟩ := Option.bind_eq_some_iff.mp h
    exact .inr ⟨hw, token, long, ht, hl, matches_of_scanExpanded h⟩

end Registry

namespace DetectionMemory

variable {r : Registry} {e : Expander} {m : DetectionMemory}

def after (m : DetectionMemory) (r : Registry) (e : Expander) (lines : List Text) :
    DetectionMemory :=
  lines.foldl (fun m line => (m.detect r e line).memory) m

theorem Faithful.after (h : m.Faithful e) (r : Registry) (lines : List Text) :
    (m.after r e lines).Faithful e := by
  induction lines generalizing m with
  | nil => exact h
  | cons line lines ih => exact ih (h.detect r line).2.2

theorem Faithful.isSome_found {options : DetectionOptions} {tools : List ToolSpec}
    (h : m.Faithful e) (hr : Registry.ofTools options tools = .ok r) (line : Text) :
    (m.detect r e line).found.isSome = (r.detect e line).isSome := by
  rw [(h.detect r line).1, tryLast_eq]
  cases hp : m.last.bind (r.tryPair line) with
  | none => rfl
  | some d =>
    obtain ⟨pair, -, hp⟩ := Option.bind_eq_some_iff.mp hp
    obtain ⟨first, hs⟩ := Option.isSome_iff_exists.mp
      (Registry.scanWritten_isSome_of_tryPair hr (Option.isSome_of_eq_some hp))
    rw [Registry.detect_of_scanWritten hs]
    rfl

theorem Faithful.supports (h : m.Faithful e) {line : Text} {d : Detection}
    (hd : (m.detect r e line).found = some d) : r.Supports e line d := by
  rw [(h.detect r line).1] at hd
  rcases Option.or_eq_some_iff.mp hd with hd | ⟨-, hd⟩
  · obtain ⟨pair, -, hd⟩ := Option.bind_eq_some_iff.mp hd
    exact .inl (Registry.matches_of_tryPair hd).2
  · exact Registry.supports_of_detect hd

theorem Faithful.last_eq (h : m.Faithful e) (r : Registry) (line : Text) :
    (m.detect r e line).memory.last =
      (m.detect r e line).found.map fun d => (d.id, d.method) := by
  obtain ⟨hf, hl, -⟩ := h.detect r line
  rw [hl, hf, tryLast_eq, Registry.follow]
  cases hp : m.last.bind (r.tryPair line) with
  | none => rfl
  | some d =>
    obtain ⟨pair, hlast, hp⟩ := Option.bind_eq_some_iff.mp hp
    rw [hlast, ← (Registry.matches_of_tryPair hp).1]
    rfl

theorem Faithful.lastDetector?_eq (h : m.Faithful e) (r : Registry) (line : Text) :
    (m.detect r e line).memory.lastDetector? r =
      (m.detect r e line).found.map (·.detector) := by
  rw [lastDetector?, h.last_eq r line]
  cases hd : (m.detect r e line).found with
  | none => rfl
  | some d => exact (h.supports hd).registered

variable {options : DetectionOptions} {tools : List ToolSpec}

/-- After any lines, the next one is recognised if and only if it is on its own, by a detector
of the registry that does match it, and this detector is the one tried first from then on. -/
theorem detect_after (hr : Registry.ofTools options tools = .ok r) (e : Expander)
    (before : List Text) (line : Text) :
    let outcome := (after {} r e before).detect r e line
    outcome.found.isSome = (r.detect e line).isSome ∧
      (∀ d, outcome.found = some d → r.Supports e line d) ∧
      outcome.memory.lastDetector? r = outcome.found.map (·.detector) := by
  have h : (after {} r e before).Faithful e :=
    Faithful.after (m := {}) (by simp [Faithful]) r before
  exact ⟨h.isSome_found hr line, fun d => h.supports, h.lastDetector?_eq r line⟩

theorem detect_after_builtin :
    ∃ r, Registry.ofTools {} [] = .ok r ∧
      let outcome := (after {} r (fun _ => none) ["gcc -c a.c".toList]).detect r (fun _ => none)
        "clang -c b.c".toList
      outcome.found.isSome = (r.detect (fun _ => none) "clang -c b.c".toList).isSome ∧
        (∀ d, outcome.found = some d →
          r.Supports (fun _ => none) "clang -c b.c".toList d) ∧
        outcome.memory.lastDetector? r = outcome.found.map (·.detector) := by
  obtain ⟨r, h⟩ := Registry.exists_ofTools_builtin
  exact ⟨r, h, detect_after h _ ["gcc -c a.c".toList] _⟩

end DetectionMemory

end SettingsScan
