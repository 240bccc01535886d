import SettingsScan.Proofs.Option.Reading
import SettingsScan.Proofs.Text.Escape

/-! # Values that are read back

For each way to write a value or a path: what is read is what was written, up to the end of the
argument.
-/

namespace SettingsScan.Spelling

open Text (escape)

variable {quote c : Char} {run : Text → Option (Text × Text)} {t v tail : Text}

/-! ### The readings one by one -/

theorem enclosed?_of_run (quote : Char) (h : run t = some (v, tail)) (ht : atEnd tail) :
    enclosed? quote run (quote :: t) = some (v, tail.drop 1) := by
  rw [enclosed?_cons, h, Option.bind_some, if_pos ht]

theorem escapedRun?_escape {p : Char → Bool} (hq : p '"') (hn : p '\n' = false)
    (h : '\\' ∉ v) (tail : Text) :
    escapedRun? false (escape p v ++ '"' :: tail) = some (escape p v, tail) := by
  induction v with
  | nil => rfl
  | cons c v ih =>
    obtain ⟨hc, hv⟩ := not_or.mp fun hc => h (List.mem_cons.mpr hc)
    have ih := ih hv
    cases hpc : p c with
    | true =>
      have hcn : c ≠ '\n' := by
        rintro rfl
        rw [hn] at hpc
        cases hpc
      rw [Text.escape_cons_pos hpc]
      simp [escapedRun?, hcn, ih]
    | false =>
      have hcq : c ≠ '"' := by
        rintro rfl
        rw [hq] at hpc
        cases hpc
      rw [Text.escape_cons_neg hpc]
      simp [escapedRun?, hcq, Ne.symm hc, ih]

theorem takeWhile_plain (hv : ∀ c ∈ v, isAsciiBlank c = false) (ht : atEnd tail) :
    (v ++ tail).takeWhile (!isAsciiBlank ·) = v ∧
      (v ++ tail).dropWhile (!isAsciiBlank ·) = tail := by
  have hv : ∀ c ∈ v, (!isAsciiBlank c) = true := fun c hc => by rw [hv c hc]; rfl
  rw [List.takeWhile_append_of_pos hv, List.dropWhile_append_of_pos hv]
  cases tail with
  | nil => simp
  | cons c tail =>
    have hc : isAsciiBlank c = true := ht
    simp [hc]

theorem head?_append_ne (hv : v.head? ≠ some c) (ht : atEnd tail) (hc : isAsciiBlank c = false) :
    (v ++ tail).head? ≠ some c := by
  cases v with
  | cons d v => exact hv
  | nil =>
    intro h
    rw [atEnd, show tail.head? = some c from h, Option.all_some, hc] at ht
    cases ht

/-! ### Values -/

/-- A text that starts with no quote, escaped or not, is read up to the next blank character. -/
theorem readValue_eq_plain (hd : t.head? ≠ some '"') (hs : t.head? ≠ some '\'')
    (hb : ∀ q u, Quote q → t ≠ '\\' :: q :: u) :
    readValue t = (t.takeWhile (!isAsciiBlank ·), t.dropWhile (!isAsciiBlank ·)) := by
  simp [readValue, enclosed?_eq_none hd, enclosed?_eq_none hs,
    shell?_eq_none fun u => hb '"' u (.inl rfl), shell?_eq_none fun u => hb '\'' u (.inr rfl)]

/-- Behind an escaped quote, the value goes on to its closing quote, or is plain. -/
theorem readValue_shell (hq : Quote quote) (t : Text) :
    readValue ('\\' :: quote :: t) =
      ((shell? quote ('\\' :: quote :: t)).map fun x =>
        (OptionMatcher.unescapeQuotes x.1, x.2)).getD
          (('\\' :: quote :: t).takeWhile (!isAsciiBlank ·),
            ('\\' :: quote :: t).dropWhile (!isAsciiBlank ·)) := by
  have hd {run : Text → Option (Text × Text)} :
      enclosed? '"' run ('\\' :: quote :: t) = none := enclosed?_eq_none (by simp)
  have hs {run : Text → Option (Text × Text)} :
      enclosed? '\'' run ('\\' :: quote :: t) = none := enclosed?_eq_none (by simp)
  rcases hq with rfl | rfl
  · have ho : shell? '\'' ('\\' :: '"' :: t) = none := shell?_eq_none (by simp)
    cases h : shell? '"' ('\\' :: '"' :: t) <;> simp [readValue, hd, hs, ho, h]
  · have ho : shell? '"' ('\\' :: '\'' :: t) = none := shell?_eq_none (by simp)
    cases h : shell? '\'' ('\\' :: '\'' :: t) <;> simp [readValue, hd, hs, ho, h]

theorem readValue_plain (hv : ∀ c ∈ v, isAsciiBlank c = false) (hd : v.head? ≠ some '"')
    (hs : v.head? ≠ some '\'') (hb : v.head? ≠ some '\\') (ht : atEnd tail) :
    readValue (v ++ tail) = (v, tail) := by
  have hb := head?_append_ne hb ht (by decide)
  obtain ⟨hw, hr⟩ := takeWhile_plain hv ht
  rw [readValue_eq_plain (head?_append_ne hd ht (by decide)) (head?_append_ne hs ht (by decide)),
    hw, hr]
  intro q u _ h
  exact hb (by rw [h]; rfl)

theorem readValue_singleQuoted (hv : '\'' ∉ v) (ht : atEnd tail) :
    readValue ('\'' :: (v ++ '\'' :: tail)) = (v, tail.drop 1) := by
  have hd {run : Text → Option (Text × Text)} :
      enclosed? '"' run ('\'' :: (v ++ '\'' :: tail)) = none := enclosed?_eq_none (by simp)
  simp [readValue, hd, enclosed?_of_run '\'' (Text.cut?_closing hv tail) ht]

theorem readValue_double (t : Text) :
    readValue ('"' :: t) =
      (((enclosed? '"' (escapedRun? false) ('"' :: t)).map fun x =>
        (OptionMatcher.unescapeQuotes x.1, x.2)).or
          (enclosed? '"' (Text.cut? (· = '"')) ('"' :: t))).getD
            (('"' :: t).takeWhile (!isAsciiBlank ·), ('"' :: t).dropWhile (!isAsciiBlank ·)) := by
  have hs {run : Text → Option (Text × Text)} :
      enclosed? '\'' run ('"' :: t) = none := enclosed?_eq_none (by simp)
  have hd : shell? '"' ('"' :: t) = none := shell?_eq_none (by simp)
  have hd' : shell? '\'' ('"' :: t) = none := shell?_eq_none (by simp)
  cases h : enclosed? '"' (escapedRun? false) ('"' :: t) <;>
    cases h' : enclosed? '"' (Text.cut? (· = '"')) ('"' :: t) <;>
    simp [readValue, hs, hd, hd', h, h']

theorem readValue_doubleQuoted (hv : '\\' ∉ v) (ht : atEnd tail) :
    readValue ('"' :: (escape (· = '"') v ++ '"' :: tail)) = (v, tail.drop 1) := by
  have hrun := escapedRun?_escape (p := (· = '"')) rfl rfl hv tail
  rw [readValue_double, enclosed?_of_run '"' hrun ht, Option.map_some, Option.some_or,
    Option.getD_some, OptionMatcher.unescapeQuotes_escape_double hv]

/-! ### Paths -/

theorem readPath_plain (h0 : v ≠ []) (hv : ∀ c ∈ v, isAsciiBlank c = false)
    (hd : v.head? ≠ some '"') (hs : v.head? ≠ some '\'') (ht : atEnd tail) :
    readPath (v ++ tail) = some (v, tail) := by
  have hd := head?_append_ne hd ht (by decide)
  have hs := head?_append_ne hs ht (by decide)
  obtain ⟨hw, hr⟩ := takeWhile_plain hv ht
  simp [readPath, enclosed?_eq_none hd, enclosed?_eq_none hs, hw, hr, h0]

theorem readPath_quoted (hq : Quote quote) (hv : quote ∉ v) (ht : atEnd tail) :
    readPath (quote :: (v ++ quote :: tail)) = some (v, tail.drop 1) := by
  have hr := enclosed?_of_run quote (Text.cut?_closing hv tail) ht
  rcases hq with rfl | rfl
  · simp [readPath, hr]
  · have hd {run : Text → Option (Text × Text)} :
        enclosed? '"' run ('\'' :: (v ++ '\'' :: tail)) = none := enclosed?_eq_none (by simp)
    simp [readPath, hd, hr]

end SettingsScan.Spelling
