import SettingsScan.Option.Matcher

/-! # Escaped quotes

A backslash is put in front of certain characters. Taking it away in front of one kind of quote
and then of the other undoes this.
-/

namespace SettingsScan

namespace Text

def isQuote (c : Char) : Bool :=
  c = '"' || c = '\''

/-- A backslash in front of each character with the property. -/
def escape (p : Char → Bool) (t : Text) : Text :=
  t.flatMap fun c => if p c then ['\\', c] else [c]

variable {p : Char → Bool} {s t u : Text} {a b c quote : Char}

@[simp] theorem escape_nil (p : Char → Bool) : escape p [] = [] := rfl

theorem escape_cons_pos (h : p c) (t : Text) : escape p (c :: t) = '\\' :: c :: escape p t := by
  simp [escape, h]

theorem escape_cons_neg (h : p c = false) (t : Text) : escape p (c :: t) = c :: escape p t := by
  simp [escape, h]

theorem escape_append (p : Char → Bool) (s t : Text) :
    escape p (s ++ t) = escape p s ++ escape p t :=
  List.flatMap_append

theorem escape_eq_self (h : ∀ c ∈ t, p c = false) : escape p t = t := by
  induction t with
  | nil => rfl
  | cons c t ih =>
    rw [escape_cons_neg (h c List.mem_cons_self), ih fun d hd => h d (List.mem_cons_of_mem c hd)]

theorem head?_escape_ne (hp : p '\\' = false) (hq : p quote) (t : Text) :
    (escape p t).head? ≠ some quote := by
  cases t with
  | nil => simp
  | cons c t =>
    rintro h
    cases hc : p c with
    | true =>
      rw [escape_cons_pos hc, List.head?_cons, Option.some_inj] at h
      rw [← h, hp] at hq
      cases hq
    | false =>
      rw [escape_cons_neg hc, List.head?_cons, Option.some_inj] at h
      rw [← h, hc] at hq
      cases hq

theorem mem_escape (h : c ∈ escape p t) : c ∈ t ∨ c = '\\' := by
  obtain ⟨d, hd, h⟩ := List.mem_flatMap.mp h
  split at h
  · rcases List.mem_cons.mp h with rfl | h
    · exact .inr rfl
    · exact .inl (List.mem_singleton.mp h ▸ hd)
  · exact .inl (List.mem_singleton.mp h ▸ hd)

theorem escape_ne_nil (h : t ≠ []) : escape p t ≠ [] := by
  obtain ⟨c, t, rfl⟩ := List.exists_cons_of_ne_nil h
  cases hc : p c with
  | true => simp [escape_cons_pos hc]
  | false => simp [escape_cons_neg hc]

theorem length_le_escape (p : Char → Bool) (t : Text) : t.length ≤ (escape p t).length := by
  induction t with
  | nil => exact Nat.le_refl _
  | cons c t ih =>
    cases hc : p c with
    | true =>
      rw [escape_cons_pos hc, List.length_cons, List.length_cons, List.length_cons]
      omega
    | false =>
      rw [escape_cons_neg hc, List.length_cons, List.length_cons]
      omega

theorem escape_append_ne (hp : p '\\' = false) (h : ∃ c ∈ t, p c) (s u : Text) :
    escape p t ++ s ≠ t ++ u := by
  induction t with
  | nil => simp at h
  | cons c t ih =>
    cases hc : p c with
    | true =>
      rw [escape_cons_pos hc]
      intro he
      rw [← (List.cons.inj he).1, hp] at hc
      cases hc
    | false =>
      rw [escape_cons_neg hc]
      intro he
      refine ih ?_ (List.cons.inj he).2
      obtain ⟨d, hd, hpd⟩ := h
      rcases List.mem_cons.mp hd with rfl | hd
      · rw [hc] at hpd
        cases hpd
      · exact ⟨d, hd, hpd⟩

theorem escape_ne_self (hp : p '\\' = false) (h : ∃ c ∈ t, p c) : escape p t ≠ t := by
  have := escape_append_ne hp h [] []
  rwa [List.append_nil, List.append_nil] at this

/-- In front of a quote in an escaped text stands the backslash that escapes it. -/
theorem exists_of_escape_eq_append (hp : p '\\' = false) (hq : p quote)
    (h : escape p t = s ++ quote :: u) :
    ∃ v w, t = v ++ quote :: w ∧ s = escape p v ++ ['\\'] ∧ u = escape p w := by
  have hne : quote ≠ '\\' := by
    rintro rfl
    rw [hp] at hq
    cases hq
  induction t generalizing s with
  | nil => cases s <;> cases h
  | cons c t ih =>
    cases hc : p c with
    | false =>
      rw [escape_cons_neg hc] at h
      cases s with
      | nil =>
        obtain ⟨rfl, -⟩ := List.cons.inj h
        rw [hc] at hq
        cases hq
      | cons d s =>
        obtain ⟨hd, h⟩ := List.cons.inj h
        obtain ⟨v, w, rfl, rfl, rfl⟩ := ih h
        exact ⟨c :: v, w, rfl, by rw [escape_cons_neg hc, hd]; rfl, rfl⟩
    | true =>
      rw [escape_cons_pos hc] at h
      cases s with
      | nil => exact absurd (List.cons.inj h).1.symm hne
      | cons d s =>
        obtain ⟨hd, h⟩ := List.cons.inj h
        cases s with
        | nil =>
          obtain ⟨hq, hu⟩ := List.cons.inj h
          exact ⟨[], t, by rw [hq]; rfl, by rw [hd]; rfl, hu.symm⟩
        | cons e s =>
          obtain ⟨he, h⟩ := List.cons.inj h
          obtain ⟨v, w, rfl, rfl, rfl⟩ := ih h
          exact ⟨c :: v, w, rfl, by rw [escape_cons_pos hc, hd, he]; rfl, rfl⟩

/-! ### Removing backslashes -/

theorem replacePair_pair (a b c : Char) (t : Text) :
    replacePair a b c (a :: b :: t) = c :: replacePair a b c t := by
  simp [replacePair]

theorem replacePair_cons (h : c ≠ a ∨ t.head? ≠ some b) (d : Char) :
    replacePair a b d (c :: t) = c :: replacePair a b d t := by
  cases t with
  | nil => rfl
  | cons e t =>
    have : ¬ (c = a ∧ e = b) := by
      rintro ⟨rfl, rfl⟩
      simp at h
    rw [replacePair, if_neg this]

theorem mem_replacePair (hc : c ≠ '\\') (h : c ∈ t) : c ∈ replacePair '\\' quote quote t := by
  induction t using replacePair.induct '\\' quote with
  | case1 a b t hab ih =>
    obtain ⟨rfl, rfl⟩ := hab
    rw [replacePair_pair]
    rcases List.mem_cons.mp h with rfl | h
    · exact absurd rfl hc
    · rcases List.mem_cons.mp h with rfl | h
      · exact List.mem_cons_self
      · exact List.mem_cons_of_mem _ (ih h)
  | case2 a b t hab ih =>
    rw [replacePair, if_neg hab]
    rcases List.mem_cons.mp h with rfl | h
    · exact List.mem_cons_self
    · exact List.mem_cons_of_mem _ (ih h)
  | case3 t ht =>
    unfold replacePair
    split
    · exact (ht _ _ _ rfl).elim
    · exact h

/-- One pass removes the backslashes in front of one quote. What follows the escaped text must not
make a new pair with its last character. -/
theorem replacePair_escape_append (hp : p '\\' = false) (hq : p quote) (t : Text) (s : Text)
    (hs : s.head? ≠ some quote ∨ t.getLast? ≠ some '\\') :
    replacePair '\\' quote quote (escape p t ++ s) =
      escape (fun c => p c && c ≠ quote) t ++ replacePair '\\' quote quote s := by
  induction t with
  | nil => rfl
  | cons c t ih =>
    have ih := ih (hs.imp_right fun h hl => h (by
      cases t with
      | nil => cases hl
      | cons d t => rwa [List.getLast?_cons_cons]))
    cases hc : p c with
    | true =>
      rw [escape_cons_pos hc]
      by_cases hcq : c = quote
      · subst hcq
        rw [List.cons_append, List.cons_append, replacePair_pair, ih, escape_cons_neg (by simp)]
        rfl
      · have hb : c ≠ '\\' := by
          rintro rfl
          rw [hp] at hc
          cases hc
        rw [List.cons_append, List.cons_append, replacePair_cons (.inr (by simpa using hcq)),
          replacePair_cons (.inl hb), ih, escape_cons_pos (by simp [hc, hcq])]
        rfl
    | false =>
      have hnext : c ≠ '\\' ∨ (escape p t ++ s).head? ≠ some quote := by
        cases t with
        | nil => exact hs.symm.imp_left fun h hc => h (by rw [hc]; rfl)
        | cons d t =>
          refine .inr fun h => head?_escape_ne hp hq (d :: t) ?_
          rw [List.head?_append] at h
          have hne : escape p (d :: t) ≠ [] := escape_ne_nil (List.cons_ne_nil d t)
          obtain ⟨e, u, he⟩ := List.exists_cons_of_ne_nil hne
          rwa [he] at h ⊢
      rw [escape_cons_neg hc, List.cons_append, replacePair_cons hnext, ih,
        escape_cons_neg (by simp [hc])]
      rfl

theorem replacePair_escape (hp : p '\\' = false) (hq : p quote) (t : Text) :
    replacePair '\\' quote quote (escape p t) = escape (fun c => p c && c ≠ quote) t := by
  have h := replacePair_escape_append hp hq t [] (.inl (by simp))
  rw [List.append_nil] at h
  exact h.trans (List.append_nil _)

end Text

namespace OptionMatcher

open Text (escape isQuote)

theorem mem_unescapeQuotes {c : Char} {t : Text} (hc : c ≠ '\\') (h : c ∈ t) :
    c ∈ unescapeQuotes t :=
  Text.mem_replacePair hc (Text.mem_replacePair hc h)

theorem unescapeQuotes_cons {c : Char} (hc : c ≠ '\\') (t : Text) :
    unescapeQuotes (c :: t) = c :: unescapeQuotes t := by
  rw [unescapeQuotes, Text.replacePair_cons (.inl hc), Text.replacePair_cons (.inl hc)]
  rfl

theorem head?_unescapeQuotes_pair (t : Text) :
    (unescapeQuotes ('\\' :: '"' :: t)).head? = some '"' := by
  rw [unescapeQuotes, Text.replacePair_pair, Text.replacePair_cons (.inl (by decide))]
  rfl

theorem unescapeQuotes_escape_append (t s : Text)
    (hd : s.head? ≠ some '"' ∨ t.getLast? ≠ some '\\')
    (hs : (Text.replacePair '\\' '"' '"' s).head? ≠ some '\'' ∨ t.getLast? ≠ some '\\') :
    unescapeQuotes (escape isQuote t ++ s) = t ++ unescapeQuotes s := by
  have hfirst : (fun c => isQuote c && c ≠ '"') = fun c => decide (c = '\'') := by
    funext c
    by_cases h : c = '"'
    · subst h
      rfl
    · simp [isQuote, h]
  have hsecond : (fun c => decide (c = '\'') && decide (c ≠ '\'')) = fun _ => false := by
    funext c
    by_cases h : c = '\'' <;> simp [h]
  rw [unescapeQuotes, Text.replacePair_escape_append rfl rfl t s hd, hfirst,
    Text.replacePair_escape_append rfl rfl t _ hs, hsecond, Text.escape_eq_self fun _ _ => rfl]
  rfl

theorem unescapeQuotes_escape (t : Text) : unescapeQuotes (escape isQuote t) = t := by
  have h := unescapeQuotes_escape_append t [] (.inl (by simp)) (.inl (by simp [Text.replacePair]))
  rw [List.append_nil] at h
  exact h.trans (List.append_nil _)

theorem unescapeQuotes_escape_double {t : Text} (h : '\\' ∉ t) :
    unescapeQuotes (escape (· = '"') t) = t := by
  have hd : (fun c => decide (c = '"') && decide (c ≠ '"')) = fun _ => false := by
    funext c
    by_cases h : c = '"' <;> simp [h]
  have hs (s : Text) (hs : '\\' ∉ s) : Text.replacePair '\\' '\'' '\'' s = s := by
    induction s with
    | nil => rfl
    | cons c s ih =>
      obtain ⟨hc, hs⟩ := not_or.mp fun h => hs (List.mem_cons.mpr h)
      rw [Text.replacePair_cons (.inl (Ne.symm hc)), ih hs]
  rw [unescapeQuotes, Text.replacePair_escape rfl rfl, hd,
    Text.escape_eq_self fun _ _ => rfl, hs t h]

end OptionMatcher

end SettingsScan
