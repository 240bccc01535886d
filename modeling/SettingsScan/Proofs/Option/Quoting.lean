import SettingsScan.Option.Spelling
import SettingsScan.Proofs.Pattern.Seek
import SettingsScan.Proofs.Text.Words

/-! # What the quoting patterns read

The pieces that stand between quotes, told as functions on the text: where the piece ends, and
whether the argument ends behind it.
-/

namespace SettingsScan.Spelling

open Pattern (CharSet Node Place Step)
open Pattern.Node

def atEnd (t : Text) : Bool :=
  t.head?.all isAsciiBlank

/-- The text up to a double quote that is not escaped, and what follows the quote. The flag tells
whether a backslash escapes the first character. -/
def escapedRun? : Bool → Text → Option (Text × Text)
  | _, [] => none
  | true, c :: t => if c = '\n' then none else (escapedRun? false t).map fun x => (c :: x.1, x.2)
  | false, c :: t =>
    if c = '"' then some ([], t)
    else (escapedRun? (c = '\\') t).map fun x => (c :: x.1, x.2)

/-- The text up to an escaped quote at the end of the argument, and what follows the quote. -/
def shellRun? (quote : Char) : Text → Option (Text × Text)
  | [] => none
  | c :: t =>
    if c = '\\' ∧ t.head? = some quote ∧ atEnd (t.drop 1) then some ([], t.drop 1)
    else if c = '\n' then none
    else (shellRun? quote t).map fun x => (c :: x.1, x.2)

/-- A piece between quotes at the end of the argument, and what is left behind the argument. -/
def enclosed? (quote : Char) (run : Text → Option (Text × Text)) : Text → Option (Text × Text)
  | [] => none
  | c :: t =>
    if c = quote then
      (run t).bind fun x => if atEnd x.2 then some (x.1, x.2.drop 1) else none
    else none

def shell? (quote : Char) : Text → Option (Text × Text)
  | c :: d :: t =>
    if c = '\\' ∧ d = quote then
      (shellRun? quote t).map fun x => (['\\', quote] ++ x.1 ++ ['\\', quote], x.2.drop 1)
    else none
  | _ => none

variable {β : Type} {k : Place → Option β} {p : Place} {n : Node} {t : Text} {quote : Char}
  {run : Text → Option (Text × Text)} {i : Nat}

theorem enclosed?_eq_none (h : t.head? ≠ some quote) : enclosed? quote run t = none := by
  cases t with
  | nil => rfl
  | cons c t => exact if_neg (by simpa using h)

theorem enclosed?_cons (quote : Char) (run : Text → Option (Text × Text)) (t : Text) :
    enclosed? quote run (quote :: t) =
      (run t).bind fun x => if atEnd x.2 then some (x.1, x.2.drop 1) else none :=
  if_pos rfl

theorem shell?_eq_none (h : ∀ u, t ≠ '\\' :: quote :: u) : shell? quote t = none := by
  unfold shell?
  split
  · rename_i c d u
    exact if_neg fun hc => h u (by rw [hc.1, hc.2])
  · rfl

theorem shell?_cons (quote : Char) (t : Text) : shell? quote ('\\' :: quote :: t) =
    (shellRun? quote t).map fun x => (['\\', quote] ++ x.1 ++ ['\\', quote], x.2.drop 1) :=
  if_pos ⟨rfl, rfl⟩

theorem seek_argumentEnd :
    argumentEnd.seek some p =
      if atEnd p.rest then some (p.after (p.rest.take 1) (p.rest.drop 1)) else none := by
  rw [argumentEnd, seek_alt, blank]
  cases hr : p.rest with
  | nil =>
    have hp : p.after [] [] = p := hr ▸ Place.after_nil p
    rw [seek_one_nil hr, seek_look, hr, Option.none_or]
    exact congrArg some hp.symm
  | cons c r =>
    simp [seek_one_cons hr, seek_look, hr, Pattern.Look.holds, atEnd, CharSet.contains_space]

/-- The pattern goes to the closing quote that the function finds, if it has to go on there. -/
structure Runs (n : Node) (quote : Char) (run : Text → Option (Text × Text)) : Prop where
  append_eq : ∀ {t x}, run t = some x → t = x.1 ++ quote :: x.2
  seek_eq : ∀ {β : Type} {k : Place → Option β} {p : Place},
    (∀ q, q.rest.head? ≠ some quote → k q = none) →
      n.seek k p = (run p.rest).bind fun x => k (p.after x.1 (quote :: x.2))

/-- With the end of the argument behind it, the pattern captures the piece that the function
finds. -/
structure Reads (n : Node) (i : Nat) (read? : Text → Option (Text × Text)) : Prop where
  eq_none : ∀ {p}, read? p.rest = none → n.seek (argumentEnd.seek some) p = none
  exists_of_eq_some : ∀ {input p piece rest}, p.In input → read? p.rest = some (piece, rest) →
    ∃ q, n.seek (argumentEnd.seek some) p = some q ∧ q.rest = rest ∧
      q.group? input i = some piece ∧ ∀ j, j ≠ 0 → i ≠ j → q.group? input j = p.group? input j

theorem runs_quoted (quote : Char) :
    Runs (many (one (.complement (.single quote)))) quote (Text.cut? (· = quote)) where
  append_eq {t x} h := by
    rcases Text.cut?_cases (· = quote) t with ⟨hn, -⟩ | ⟨s, c, r, rfl, hc, -, hs⟩
    · rw [hn] at h
      cases h
    · rw [hs] at h
      cases h
      simp only [decide_eq_true_eq] at hc
      rw [hc]
  seek_eq {β k p} hk := by
    rcases Text.cut?_cases (· = quote) p.rest with ⟨hn, hall⟩ | ⟨s, c, r, hp, hc, hs, h⟩
    · rw [hn, Option.bind_none]
      refine seek_eq_none fun q hq => hk q fun hh => ?_
      obtain ⟨piece, hp, -⟩ := hq
      obtain ⟨r, hr⟩ := List.head?_eq_some_iff.mp hh
      have := hall quote (by simp [hp, hr])
      simp at this
    · obtain rfl : c = quote := by simpa using hc
      rw [h, Option.bind_some]
      refine seek_many_one hp (fun a ha => ?_) (by simp) fun q hq => hk q fun hh => ?_
      · simpa using hs a ha
      · simp [hh] at hq

def escapedPart : Node :=
  alt (one (.complement (.union (.single '"') (.single '\\')))) (seq (char '\\') (one .notNewline))

theorem seek_escapedPart :
    escapedPart.seek k p =
      ((one (.complement (.union (.single '"') (.single '\\')))).seek k p).or
        ((char '\\').seek ((one .notNewline).seek k) p) := by
  rw [escapedPart, seek_alt, seek_seq]

theorem productive_escapedPart : Step.Productive escapedPart.ways :=
  productive_alt (productive_one _) (productive_seq (productive_one _) _)

theorem append_eq_of_escapedRun? {escaped : Bool} {x : Text × Text}
    (h : escapedRun? escaped t = some x) : t = x.1 ++ '"' :: x.2 := by
  induction t generalizing escaped x with
  | nil => cases escaped <;> cases h
  | cons c t ih =>
    have step {escaped : Bool}
        (h : ((escapedRun? escaped t).map fun x => (c :: x.1, x.2)) = some x) :
        c :: t = x.1 ++ '"' :: x.2 := by
      obtain ⟨y, hy, rfl⟩ := Option.map_eq_some_iff.mp h
      exact congrArg (c :: ·) (ih hy)
    cases escaped with
    | true =>
      rw [escapedRun?] at h
      split at h
      · cases h
      · exact step h
    | false =>
      rw [escapedRun?] at h
      split at h
      · rename_i hc
        cases h
        rw [hc]
        rfl
      · exact step h

theorem bind_map_cons {f : Text × Text → Option β} (c : Char) (o : Option (Text × Text)) :
    (o.map fun x => (c :: x.1, x.2)).bind f = o.bind fun x => f (c :: x.1, x.2) := by
  cases o <;> rfl

/-- The loop stops at the first quote that is not escaped; behind a backslash there has to be a
character to pass. -/
theorem seek_escapedRun (hk : ∀ q, q.rest.head? ≠ some '"' → k q = none) (hp : p.rest = t) :
    (many escapedPart).seek k p =
        ((escapedRun? false t).bind fun x => k (p.after x.1 ('"' :: x.2))) ∧
      (one .notNewline).seek ((many escapedPart).seek k) p =
        (escapedRun? true t).bind fun x => k (p.after x.1 ('"' :: x.2)) := by
  induction t generalizing p with
  | nil =>
    have hkp : k p = none := hk p (by simp [hp])
    rw [seek_many productive_escapedPart, hkp, seek_escapedPart, char, seek_one_nil hp,
      seek_one_nil hp, seek_one_nil hp]
    exact ⟨rfl, rfl⟩
  | cons c t ih =>
    obtain ⟨hf, ht⟩ := ih (p := p.after [c] t) rfl
    simp only [Place.after_after, List.singleton_append] at hf ht
    constructor
    · rw [seek_many productive_escapedPart, seek_escapedPart, char, seek_one_cons hp,
        seek_one_cons hp, escapedRun?]
      by_cases hq : c = '"'
      · subst hq
        have hkp : p.after [] ('"' :: t) = p := hp ▸ Place.after_nil p
        simp [hkp]
      · have hkp : k p = none := hk p (by simpa [hp] using hq)
        rw [if_neg hq, bind_map_cons, hkp, Option.or_none]
        by_cases hb : c = '\\'
        · subst hb
          simpa using ht
        · simpa [hq, hb] using hf
    · rw [seek_one_cons hp, escapedRun?]
      by_cases hn : c = '\n'
      · simp [hn, CharSet.notNewline]
      · rw [if_neg hn, bind_map_cons, ← hf]
        simp [hn, CharSet.notNewline]

theorem runs_escaped : Runs (many escapedPart) '"' (escapedRun? false) where
  append_eq h := append_eq_of_escapedRun? h
  seek_eq hk := (seek_escapedRun hk rfl).1

theorem enclosed?_eq_some_iff {x : Text × Text} : enclosed? quote run t = some x ↔
    ∃ u y, t = quote :: u ∧ run u = some y ∧ atEnd y.2 ∧ x = (y.1, y.2.drop 1) := by
  constructor
  · intro h
    cases t with
    | nil => cases h
    | cons c u =>
      rw [enclosed?] at h
      split at h
      · rename_i hc
        obtain ⟨y, hy, h⟩ := Option.bind_eq_some_iff.mp h
        split at h
        · rename_i he
          exact ⟨u, y, by rw [hc], hy, he, (Option.some.inj h).symm⟩
        · cases h
      · cases h
  · rintro ⟨u, y, rfl, hy, he, rfl⟩
    rw [enclosed?_cons, hy, Option.bind_some, if_pos he]

theorem Runs.reads (h : Runs n quote run) (hi : i ≠ 0) :
    Reads (concat [char quote, group i n, char quote]) i (enclosed? quote run) := by
  -- behind the opening quote, the place at the end is the one that the function tells
  have seek_eq {p : Place} {t : Text} (hp : p.rest = quote :: t) :
      (concat [char quote, group i n, char quote]).seek (argumentEnd.seek some) p =
        (run t).bind fun x => argumentEnd.seek some
          ((((p.after [quote] t).after x.1 (quote :: x.2)).close i (p.after [quote] t).passed).after
            [quote] x.2) := by
    rw [seek_concat_cons, seek_char_cons hp, seek_concat_cons, seek_group, concat, h.seek_eq]
    · congr 1
      funext x
      exact seek_char_cons rfl
    · exact fun q hq => seek_char_eq_none hq
  constructor
  · intro p hn
    by_cases hh : p.rest.head? = some quote
    · obtain ⟨t, hp⟩ := List.head?_eq_some_iff.mp hh
      rw [hp, enclosed?_cons] at hn
      rw [seek_eq hp]
      cases hr : run t with
      | none => rfl
      | some x =>
        rw [hr, Option.bind_some] at hn
        split at hn
        · cases hn
        · rename_i he
          rw [Option.bind_some, seek_argumentEnd, Place.rest_after, if_neg he]
    · rw [seek_concat_cons, seek_char_eq_none hh]
  · intro input p piece rest hin hs
    obtain ⟨t, x, hp, hx, he, hs⟩ := enclosed?_eq_some_iff.mp hs
    cases hs
    rw [seek_eq hp, hx, Option.bind_some, seek_argumentEnd, Place.rest_after, if_pos he]
    refine ⟨_, rfl, rfl, ?_, ?_⟩
    · rw [Place.group?_after hi, Place.group?_after hi]
      exact (hin.after hp).group?_close (h.append_eq hx) hi
    · intro j hj hij
      simp [hj, hij]

theorem reads_quoted (quote : Char) (hi : i ≠ 0) :
    Reads (quoted quote i) i (enclosed? quote (Text.cut? (· = quote))) :=
  (runs_quoted quote).reads hi

theorem reads_escapedValue : Reads escapedValue 2 (enclosed? '"' (escapedRun? false)) :=
  runs_escaped.reads (by decide)

theorem append_eq_of_shellRun? {x : Text × Text} (h : shellRun? quote t = some x) :
    t = x.1 ++ '\\' :: quote :: x.2 ∧ atEnd x.2 := by
  induction t generalizing x with
  | nil => cases h
  | cons c t ih =>
    rw [shellRun?] at h
    split at h
    · rename_i hc
      obtain ⟨rfl, hq, he⟩ := hc
      obtain ⟨r, rfl⟩ := List.head?_eq_some_iff.mp hq
      cases h
      exact ⟨rfl, he⟩
    · split at h
      · cases h
      · obtain ⟨y, hy, rfl⟩ := Option.map_eq_some_iff.mp h
        obtain ⟨ht, he⟩ := ih hy
        exact ⟨congrArg (c :: ·) ht, he⟩

theorem seek_shellClosing {o : Nat} {c : Char} (hp : p.rest = c :: t) :
    (concat [char '\\', char quote]).seek (fun u => argumentEnd.seek some (u.close 2 o)) p =
      if c = '\\' ∧ t.head? = some quote ∧ atEnd (t.drop 1) then
        argumentEnd.seek some ((p.after ['\\', quote] (t.drop 1)).close 2 o)
      else none := by
  rw [seek_concat_cons]
  by_cases hc : c = '\\'
  · subst hc
    rw [seek_char_cons hp, concat]
    by_cases hq : t.head? = some quote
    · obtain ⟨r, rfl⟩ := List.head?_eq_some_iff.mp hq
      rw [seek_char_cons rfl]
      by_cases he : atEnd r
      · simp [he]
      · simp [he, seek_argumentEnd]
    · rw [seek_char_eq_none hq, if_neg fun h => hq h.2.1]
  · rw [seek_char_eq_none (by simpa [hp] using hc), if_neg fun h => hc h.1]

theorem seek_shellRun {o : Nat} (hp : p.rest = t) :
    (loop 0 none false (one .notNewline)).seek
        ((concat [char '\\', char quote]).seek fun u => argumentEnd.seek some (u.close 2 o)) p =
      (shellRun? quote t).bind fun x =>
        argumentEnd.seek some ((p.after (x.1 ++ ['\\', quote]) x.2).close 2 o) := by
  induction t generalizing p with
  | nil =>
    rw [seek_lazy (productive_one _), seek_one_nil hp, seek_concat_cons,
      seek_char_eq_none (by simp [hp])]
    rfl
  | cons c t ih =>
    rw [seek_lazy (productive_one _), seek_shellClosing hp, shellRun?]
    split
    · rename_i h
      rw [seek_argumentEnd, Place.rest_close, Place.rest_after, if_pos h.2.2, Option.some_or,
        Option.bind_some, List.nil_append, seek_argumentEnd, Place.rest_close,
        Place.rest_after, if_pos h.2.2]
    · rw [Option.none_or, seek_one_cons hp]
      by_cases hn : c = '\n'
      · simp [hn, CharSet.notNewline]
      · rw [if_neg hn, bind_map_cons, ih rfl]
        simp [hn, CharSet.notNewline]

/-- A value between escaped quotes is captured with them. -/
theorem reads_shellValue (quote : Char) : Reads (shellValue quote) 2 (shell? quote) := by
  have seek_eq {p : Place} {t : Text} (hp : p.rest = '\\' :: quote :: t) :
      (shellValue quote).seek (argumentEnd.seek some) p =
        (shellRun? quote t).bind fun x => argumentEnd.seek some
          ((p.after (['\\', quote] ++ x.1 ++ ['\\', quote]) x.2).close 2 p.passed) := by
    rw [shellValue, seek_group, seek_concat_cons, seek_char_cons hp, seek_concat_cons,
      seek_char_cons rfl, seek_concat_cons, seek_shellRun rfl]
    simp
  have eq_none {p : Place} (hp : ∀ t, p.rest ≠ '\\' :: quote :: t) :
      (shellValue quote).seek (argumentEnd.seek some) p = none := by
    rw [shellValue, seek_group, seek_concat_cons]
    by_cases hc : p.rest.head? = some '\\'
    · obtain ⟨t, ht⟩ := List.head?_eq_some_iff.mp hc
      rw [seek_char_cons ht, seek_concat_cons, seek_char_eq_none]
      intro hq
      obtain ⟨r, hr⟩ := List.head?_eq_some_iff.mp hq
      exact hp r (by rw [ht, ← Place.rest_after p ['\\'] t, hr])
    · exact seek_char_eq_none hc
  constructor
  · intro p hn
    by_cases h : ∃ t, p.rest = '\\' :: quote :: t
    · obtain ⟨t, hp⟩ := h
      rw [hp, shell?_cons, Option.map_eq_none_iff] at hn
      rw [seek_eq hp, hn, Option.bind_none]
    · exact eq_none fun t hp => h ⟨t, hp⟩
  · intro input p piece rest hin hs
    by_cases h : ∃ t, p.rest = '\\' :: quote :: t
    · obtain ⟨t, hp⟩ := h
      rw [hp, shell?_cons] at hs
      obtain ⟨x, hx, hs⟩ := Option.map_eq_some_iff.mp hs
      cases hs
      obtain ⟨ht, he⟩ := append_eq_of_shellRun? hx
      rw [seek_eq hp, hx, Option.bind_some, seek_argumentEnd, if_pos (by simpa using he)]
      refine ⟨_, rfl, rfl, ?_, ?_⟩
      · rw [Place.group?_after (by decide)]
        exact hin.group?_close (by simp [hp, ht]) (by decide)
      · intro j hj hij
        simp [hj, hij]
    · rw [shell?_eq_none fun t hp => h ⟨t, hp⟩] at hs
      cases hs

end SettingsScan.Spelling
