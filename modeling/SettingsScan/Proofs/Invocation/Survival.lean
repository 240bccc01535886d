import SettingsScan.Invocation.Entry
import SettingsScan.Proofs.Option.Value

/-! # Values that a list of arguments keeps

A build tool writes a value with its quotes escaped, and in quotes if it has blank characters.
The readings of a value undo this for some values only, and which ones depends on what follows.
-/

namespace SettingsScan.Entry

open Spelling
open OptionMatcher (unescapeQuotes)
open Text (escape isQuote)

/-- The value of a definition as it is written behind the equals sign. -/
def writeValue (value : Text) : Text :=
  if value.any isBlank then '"' :: (escape isQuote value ++ ['"']) else escape isQuote value

/-- Whether the value is what is read from its written form. Without blank characters, it has no
quotes, or the same one at both ends. With blank characters, the reading with escaped characters
ends at the closing quote, or there is no such reading and no quote in the value. -/
def survives (value rest : Text) : Bool :=
  if value.any isBlank then
    match enclosed? '"' (escapedRun? false) ('"' :: (escape isQuote value ++ '"' :: rest)) with
    | some x => x.1 = escape isQuote value
    | none => !value.any isQuote
  else
    !value.any isQuote ||
      (1 < value.length && value.head?.any isQuote && value.head? = value.getLast?)

variable {v rest t : Text} {quote : Char}

theorem isQuote_iff {c : Char} : isQuote c ↔ Quote c := by
  simp [isQuote, Quote]

theorem escape_of_any_eq_false (h : v.any isQuote = false) : escape isQuote v = v :=
  Text.escape_eq_self fun c hc => by simpa using List.any_eq_false.mp h c hc

theorem not_blank (h : v.any isBlank = false) : ∀ c ∈ v, isAsciiBlank c = false := by
  intro c hc
  rw [Bool.eq_false_iff]
  intro hb
  exact List.any_eq_false.mp h c hc (isBlank_of_isAsciiBlank hb)

theorem not_blank_escape (h : ∀ c ∈ v, isAsciiBlank c = false) :
    ∀ c ∈ escape isQuote v, isAsciiBlank c = false := by
  intro c hc
  rcases Text.mem_escape hc with hc | rfl
  · exact h c hc
  · rfl

theorem atEnd_of_head? (hr : rest.head? = some ' ') : atEnd rest := by
  rw [atEnd, hr]
  rfl

/-! ### Without blank characters -/

theorem readValue_of_no_quote (hb : v.any isBlank = false) (hq : v.any isQuote = false)
    (hr : rest.head? = some ' ') : readValue (v ++ rest) = (v, rest) := by
  have ht := atEnd_of_head? hr
  obtain ⟨hw, hd⟩ := takeWhile_plain (not_blank hb) ht
  have hne (q : Char) (hq' : Quote q) : v.head? ≠ some q := by
    intro h
    obtain ⟨u, rfl⟩ := List.head?_eq_some_iff.mp h
    exact List.any_eq_false.mp hq q List.mem_cons_self (isQuote_iff.mpr hq')
  rw [readValue_eq_plain (head?_append_ne (hne '"' (.inl rfl)) ht (by decide))
    (head?_append_ne (hne '\'' (.inr rfl)) ht (by decide)), hw, hd]
  intro q u hq' h
  cases v with
  | nil => rw [List.nil_append] at h; rw [h] at hr; cases hr
  | cons c v =>
    have hv : v.head? ≠ some q := by
      intro hh
      obtain ⟨w, rfl⟩ := List.head?_eq_some_iff.mp hh
      exact List.any_eq_false.mp hq q (by simp) (isQuote_iff.mpr hq')
    exact head?_append_ne hv ht hq'.ne.2.2 (congrArg List.head? (List.cons.inj h).2)

/-- Without blank characters in front of it, the last escaped quote is the one that closes. -/
theorem shellRun?_closing (hw : ∀ c ∈ t, isAsciiBlank c = false) (hq : quote ≠ '\\')
    (hr : atEnd rest) : shellRun? quote (t ++ '\\' :: quote :: rest) = some (t, rest) := by
  induction t with
  | nil => simp [shellRun?, hr]
  | cons c t ih =>
    have ht : ∀ c ∈ t, isAsciiBlank c = false := fun d hd => hw d (List.mem_cons_of_mem c hd)
    have hn : c ≠ '\n' := by
      rintro rfl
      exact absurd (hw '\n' List.mem_cons_self) (by decide)
    have hgo : ¬ (c = '\\' ∧ (t ++ '\\' :: quote :: rest).head? = some quote ∧
        atEnd ((t ++ '\\' :: quote :: rest).drop 1)) := by
      rintro ⟨-, hh, he⟩
      cases t with
      | nil => exact hq (Option.some.inj hh).symm
      | cons d t =>
        cases t with
        | nil => exact absurd (show isAsciiBlank '\\' = true from he) (by decide)
        | cons e t =>
          have he : isAsciiBlank e = true := he
          rw [ht e (by simp)] at he
          cases he
    rw [List.cons_append, shellRun?, if_neg hgo, if_neg hn, ih ht]
    rfl

theorem readValue_of_same_quote {m : Text} (hq : Quote quote)
    (hb : (quote :: (m ++ [quote])).any isBlank = false) (hr : rest.head? = some ' ') :
    readValue (escape isQuote (quote :: (m ++ [quote])) ++ rest) =
      (quote :: (m ++ [quote]), rest.drop 1) := by
  have hp := isQuote_iff.mpr hq
  have hm : ∀ c ∈ escape isQuote m, isAsciiBlank c = false := by
    refine not_blank_escape (not_blank ?_)
    simp only [List.any_cons, List.any_append, Bool.or_eq_false_iff] at hb
    exact hb.2.1
  have hne : quote ≠ '\\' := by rcases hq with rfl | rfl <;> decide
  have he : escape isQuote (quote :: (m ++ [quote])) =
      ['\\', quote] ++ escape isQuote m ++ ['\\', quote] := by
    rw [Text.escape_cons_pos hp, Text.escape_append, Text.escape_cons_pos hp]
    simp
  have hrun := shellRun?_closing hm hne (atEnd_of_head? hr)
  have hs : escape isQuote (quote :: (m ++ [quote])) ++ rest =
      '\\' :: quote :: (escape isQuote m ++ '\\' :: quote :: rest) := by
    rw [he]
    simp
  rw [hs, readValue_shell hq, shell?_cons, hrun, Option.map_some, Option.map_some,
    Option.getD_some, ← he, OptionMatcher.unescapeQuotes_escape]

theorem takeWhile_escape_ne (hb : v.any isBlank = false) (hq : v.any isQuote)
    (hr : rest.head? = some ' ') :
    (escape isQuote v ++ rest).takeWhile (!isAsciiBlank ·) ≠ v := by
  rw [(takeWhile_plain (not_blank_escape (not_blank hb)) (atEnd_of_head? hr)).1]
  exact Text.escape_ne_self rfl (List.any_eq_true.mp hq)

/-- A closing quote that is found ends the value or lies behind it. -/
theorem exists_of_shellRun?_escape {x : Text × Text} (hq : Quote quote) (hr : rest.head? = some ' ')
    (hb : v.any isBlank = false) (hx : shellRun? quote (escape isQuote v ++ rest) = some x) :
    ' ' ∈ x.1 ∨ ∃ m, v = m ++ [quote] := by
  obtain ⟨happ, he⟩ := append_eq_of_shellRun? hx
  rcases List.append_eq_append_iff.mp happ with ⟨a, hx1, hrest⟩ | ⟨a, hesc, hrest⟩
  · cases a with
    | nil => rw [hrest] at hr; cases hr
    | cons c a =>
      rw [hrest] at hr
      obtain rfl : c = ' ' := Option.some.inj hr
      exact .inl (by simp [hx1])
  · rcases a with _ | ⟨b, _ | ⟨d, a⟩⟩
    · rw [← List.nil_append rest, ← hrest] at hr
      cases hr
    · simp only [List.cons_append, List.nil_append, List.cons.injEq] at hrest
      rw [← hrest.2] at hr
      obtain rfl : quote = ' ' := Option.some.inj hr
      exact absurd hq.ne.2.2 (by decide)
    · simp only [List.cons_append, List.cons.injEq] at hrest
      obtain ⟨rfl, rfl, hrest⟩ := hrest
      cases a with
      | nil =>
        have hesc : escape isQuote v = (x.1 ++ ['\\']) ++ quote :: [] := by simpa using hesc
        obtain ⟨m, w, rfl, -, hw⟩ :=
          Text.exists_of_escape_eq_append rfl (isQuote_iff.mpr hq) hesc
        cases w with
        | nil => exact .inr ⟨m, rfl⟩
        | cons c w => exact absurd hw.symm (Text.escape_ne_nil (List.cons_ne_nil c w))
      | cons d a =>
        rw [hrest] at he
        have hd : isAsciiBlank d = false := not_blank_escape (not_blank hb) d (by simp [hesc])
        rw [show isAsciiBlank d = true from he] at hd
        cases hd

/-- Other values with quotes are not read back. -/
theorem readValue_ne_of_quote (hb : v.any isBlank = false) (hq : v.any isQuote)
    (hv : ∀ q m, Quote q → v ≠ q :: (m ++ [q])) (hr : rest.head? = some ' ') :
    (readValue (escape isQuote v ++ rest)).1 ≠ v := by
  have hplain := takeWhile_escape_ne hb hq hr
  have hhead {q : Char} (hq' : Quote q) (w : Text) :
      (escape isQuote w ++ rest).head? ≠ some q :=
    head?_append_ne (Text.head?_escape_ne rfl (isQuote_iff.mpr hq') w) (atEnd_of_head? hr)
      hq'.ne.2.2
  cases v with
  | nil => cases hq
  | cons c w =>
    cases hc : isQuote c with
    | false =>
      have hstart : escape isQuote (c :: w) ++ rest = c :: (escape isQuote w ++ rest) := by
        rw [Text.escape_cons_neg hc]
        rfl
      rw [readValue_eq_plain (hhead (.inl rfl) _) (hhead (.inr rfl) _)]
      · exact hplain
      · intro q u hq' h
        rw [hstart] at h
        exact hhead hq' w (congrArg List.head? (List.cons.inj h).2)
    | true =>
      have hstart : escape isQuote (c :: w) ++ rest = '\\' :: c :: (escape isQuote w ++ rest) := by
        rw [Text.escape_cons_pos hc]
        rfl
      rw [hstart] at hplain ⊢
      rw [readValue_shell (isQuote_iff.mp hc), shell?_cons]
      cases hx : shellRun? c (escape isQuote w ++ rest) with
      | none => exact hplain
      | some x =>
        have hw : w.any isBlank = false := by
          simp only [List.any_cons, Bool.or_eq_false_iff] at hb
          exact hb.2
        rcases exists_of_shellRun?_escape (isQuote_iff.mp hc) hr hw hx with hsp | ⟨m, rfl⟩
        · intro h
          have hmem : ' ' ∈ c :: w := by
            rw [← h]
            exact OptionMatcher.mem_unescapeQuotes (by decide) (by simp [hsp])
          exact List.any_eq_false.mp hb ' ' hmem (by decide)
        · exact absurd rfl (hv c m (isQuote_iff.mp hc))

/-! ### With blank characters -/

theorem exists_of_enclosed? {x : Text × Text}
    (h : enclosed? '"' (escapedRun? false) ('"' :: t) = some x) :
    ∃ r, t = x.1 ++ '"' :: r ∧ x.2 = r.drop 1 := by
  obtain ⟨u, y, hu, hy, -, rfl⟩ := enclosed?_eq_some_iff.mp h
  cases hu
  exact ⟨y.2, append_eq_of_escapedRun? hy, rfl⟩

theorem unescapeQuotes_ne {y r : Text} (h : escape isQuote v ++ '"' :: rest = y ++ '"' :: r)
    (hy : y ≠ escape isQuote v) : unescapeQuotes y ≠ v := by
  rcases List.append_eq_append_iff.mp h with ⟨a, rfl, ha⟩ | ⟨a, hesc, ha⟩
  · cases a with
    | nil => exact absurd (List.append_nil _) hy
    | cons c a =>
      obtain ⟨rfl, -⟩ := List.cons.inj ha
      by_cases hl : v.getLast? = some '\\'
      · obtain ⟨w, rfl⟩ := List.getLast?_eq_some_iff.mp hl
        have hsplit : escape isQuote (w ++ ['\\']) ++ '"' :: a =
            escape isQuote w ++ '\\' :: '"' :: a := by
          rw [Text.escape_append, Text.escape_cons_neg (by rfl)]
          simp
        rw [hsplit, OptionMatcher.unescapeQuotes_escape_append _ _ (.inl (by simp))
          (.inl (by rw [Text.replacePair_pair]; simp))]
        intro he
        have hhead := OptionMatcher.head?_unescapeQuotes_pair a
        rw [List.append_cancel_left he] at hhead
        cases hhead
      · rw [OptionMatcher.unescapeQuotes_escape_append _ _ (.inr hl) (.inr hl),
          OptionMatcher.unescapeQuotes_cons (by decide)]
        simp
  · cases a with
    | nil => exact absurd (by simpa using hesc.symm) hy
    | cons c a =>
      obtain ⟨rfl, -⟩ := List.cons.inj ha
      obtain ⟨w, z, rfl, rfl, -⟩ := Text.exists_of_escape_eq_append (by decide) (by decide) hesc
      rw [OptionMatcher.unescapeQuotes_escape_append _ _ (.inl (by simp)) (.inl (by decide))]
      intro he
      have := List.append_cancel_left he
      cases this

theorem plain_ne (v : Text) (hr : rest.head? = some ' ') :
    ('"' :: (escape isQuote v ++ '"' :: rest)).takeWhile (!isAsciiBlank ·) ≠ v := by
  by_cases ha : ∃ c ∈ v, isAsciiBlank c
  · obtain ⟨c, hc, hcb⟩ := ha
    intro h
    rw [← h] at hc
    have := List.mem_takeWhile_imp hc
    rw [hcb] at this
    cases this
  · have hesc := not_blank_escape fun c hc => Bool.eq_false_iff.mpr fun h => ha ⟨c, hc, h⟩
    have hno : ∀ c ∈ '"' :: (escape isQuote v ++ ['"']), isAsciiBlank c = false := by
      intro c hc
      simp only [List.mem_cons, List.mem_append, List.not_mem_nil, or_false] at hc
      rcases hc with rfl | hc | rfl
      · decide
      · exact hesc c hc
      · decide
    have hw := (takeWhile_plain hno (atEnd_of_head? hr)).1
    have hs : '"' :: (escape isQuote v ++ '"' :: rest) =
        '"' :: (escape isQuote v ++ ['"']) ++ rest := by simp
    rw [hs, hw]
    intro he
    have hl := congrArg List.length he
    have := Text.length_le_escape isQuote v
    simp only [List.length_cons, List.length_append] at hl
    omega

/-- With a double quote in it, a value is not read without regard to escaped characters. -/
theorem readValue_ne_of_no_escaped (hd : '"' ∈ v)
    (hr : rest.head? = some ' ')
    (he : enclosed? '"' (escapedRun? false) ('"' :: (escape isQuote v ++ '"' :: rest)) = none) :
    (readValue ('"' :: (escape isQuote v ++ '"' :: rest))).1 ≠ v := by
  rw [readValue_double, he, Option.map_none, Option.none_or]
  obtain ⟨w, z, rfl, hw⟩ := List.eq_append_cons_of_mem hd
  have hsplit : escape isQuote (w ++ '"' :: z) ++ '"' :: rest =
      (escape isQuote w ++ ['\\']) ++ '"' :: (escape isQuote z ++ '"' :: rest) := by
    rw [Text.escape_append, Text.escape_cons_pos (by rfl)]
    simp
  have hmem : '"' ∉ escape isQuote w ++ ['\\'] := by
    intro h
    rcases List.mem_append.mp h with h | h
    · exact (Text.mem_escape h).elim hw (by decide)
    · exact absurd h (by decide)
  have hcut := Text.cut?_closing hmem (escape isQuote z ++ '"' :: rest)
  rw [enclosed?_cons, hsplit, hcut, Option.bind_some]
  split
  · rw [Option.getD_some]
    by_cases hq : ∃ c ∈ w, isQuote c
    · exact Text.escape_append_ne rfl hq _ _
    · rw [escape_of_any_eq_false (Bool.eq_false_iff.mpr fun h => hq (List.any_eq_true.mp h))]
      intro h
      cases List.append_cancel_left h
  · rw [Option.getD_none, ← hsplit]
    exact plain_ne _ hr

theorem readValue_of_no_escaped (hd : '"' ∉ v) (hr : rest.head? = some ' ')
    (he : enclosed? '"' (escapedRun? false) ('"' :: (escape isQuote v ++ '"' :: rest)) = none) :
    readValue ('"' :: (escape isQuote v ++ '"' :: rest)) = (escape isQuote v, rest.drop 1) := by
  have hmem : '"' ∉ escape isQuote v := fun h => (Text.mem_escape h).elim hd (by decide)
  rw [readValue_double, he, enclosed?_of_run '"' (Text.cut?_closing hmem rest) (atEnd_of_head? hr)]
  rfl

/-! ### Every value -/

theorem writeValue_append (v rest : Text) :
    writeValue v ++ rest =
      if v.any isBlank then '"' :: (escape isQuote v ++ '"' :: rest)
      else escape isQuote v ++ rest := by
  unfold writeValue
  split <;> simp

theorem exists_same_quote (hl : 1 < v.length) (hq : v.head?.any isQuote)
    (h : v.head? = v.getLast?) : ∃ q m, Quote q ∧ v = q :: (m ++ [q]) := by
  match v, hl, hq, h with
  | c :: d :: w, _, hq, h =>
    rw [List.getLast?_cons_cons] at h
    obtain ⟨m, hm⟩ := List.getLast?_eq_some_iff.mp h.symm
    exact ⟨c, m, isQuote_iff.mp hq, by rw [hm]⟩

theorem getLast?_same_quote (m : Text) : (quote :: (m ++ [quote])).getLast? = some quote := by
  rw [← List.cons_append, List.getLast?_concat]

theorem readValue_of_survives (hr : rest.head? = some ' ') (h : survives v rest) :
    ∃ r, readValue (writeValue v ++ rest) = (v, r) ∧ (r = rest ∨ r = rest.drop 1) := by
  rw [writeValue_append]
  unfold survives at h
  split at h
  · rename_i hb
    rw [if_pos hb]
    split at h
    · rename_i x hx
      have hx1 : x.1 = escape isQuote v := by simpa using h
      rw [readValue_double, hx, Option.map_some, Option.some_or, Option.getD_some, hx1,
        OptionMatcher.unescapeQuotes_escape]
      obtain ⟨r, happ, hx2⟩ := exists_of_enclosed? hx
      rw [hx1] at happ
      obtain ⟨-, rfl⟩ := List.cons.inj (List.append_cancel_left happ)
      exact ⟨_, rfl, .inr hx2⟩
    · rename_i hx
      have hq : v.any isQuote = false := by simpa using h
      have hd : '"' ∉ v := fun hm => List.any_eq_false.mp hq '"' hm (by decide)
      rw [readValue_of_no_escaped hd hr hx, escape_of_any_eq_false hq]
      exact ⟨_, rfl, .inr rfl⟩
  · rename_i hb
    rw [if_neg hb]
    have hb : v.any isBlank = false := Bool.eq_false_iff.mpr hb
    rcases Bool.or_eq_true_iff.mp h with h | h
    · have hq : v.any isQuote = false := by simpa using h
      rw [escape_of_any_eq_false hq]
      exact ⟨rest, readValue_of_no_quote hb hq hr, .inl rfl⟩
    · simp only [Bool.and_eq_true, decide_eq_true_eq] at h
      obtain ⟨q, m, hq, rfl⟩ := exists_same_quote h.1.1 h.1.2 h.2
      exact ⟨_, readValue_of_same_quote hq hb hr, .inr rfl⟩

theorem readValue_ne_of_not_survives (hr : rest.head? = some ' ') (h : survives v rest = false) :
    (readValue (writeValue v ++ rest)).1 ≠ v := by
  rw [writeValue_append]
  unfold survives at h
  split at h
  · rename_i hb
    rw [if_pos hb]
    split at h
    · rename_i x hx
      have hx1 : x.1 ≠ escape isQuote v := by simpa using h
      rw [readValue_double, hx, Option.map_some, Option.some_or, Option.getD_some]
      obtain ⟨r, happ, -⟩ := exists_of_enclosed? hx
      exact unescapeQuotes_ne happ hx1
    · rename_i hx
      have hq : v.any isQuote := by simpa using h
      by_cases hd : '"' ∈ v
      · exact readValue_ne_of_no_escaped hd hr hx
      · rw [readValue_of_no_escaped hd hr hx]
        exact Text.escape_ne_self rfl (List.any_eq_true.mp hq)
  · rename_i hb
    rw [if_neg hb]
    have hb : v.any isBlank = false := Bool.eq_false_iff.mpr hb
    obtain ⟨hq, hs⟩ := Bool.or_eq_false_iff.mp h
    refine readValue_ne_of_quote hb (by simpa using hq) (fun q m hq' hv => ?_) hr
    subst hv
    simp [isQuote_iff.mpr hq', getLast?_same_quote] at hs

end SettingsScan.Entry
