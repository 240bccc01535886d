import SettingsScan.Text.ShellWords

/-! # What a part of a shell command leaves open

A command is split from the left. The mode behind a part of it says whether a quote or a comment
goes on: if not, the part and what follows it behind a space are split apart from each other.
-/

namespace SettingsScan.ShellWords

theorem eq_or_eq_of_isQuote {c : Char} (h : isQuote c) : c = '\'' ∨ c = '"' := by
  simpa [isQuote] using h

theorem isBlank_of_isSeparator {c : Char} (h : isSeparator c) : isBlank c := by
  simp only [isSeparator, Bool.or_eq_true, decide_eq_true_eq] at h
  rcases h with (rfl | rfl) | rfl <;> decide

namespace Mode

def next : Mode → Char → Mode
  | between, c =>
    if isQuote c then quoted c
    else if isSeparator c then between
    else if c = '#' then comment
    else word
  | word, c => if isQuote c then quoted c else if isSeparator c then between else word
  | quoted q, c => if c = q then word else quoted q
  | comment, c => if c = '\n' then between else comment

/-- The mode behind a text. -/
def after (m : Mode) (t : Text) : Mode :=
  t.foldl next m

def isClosed : Mode → Bool
  | between => true
  | word => true
  | quoted _ => false
  | comment => false

/-- Between words and in a comment no word is under way, and what is open is a quote. -/
def Fits : Mode → Text → Prop
  | between, w => w = []
  | word, _ => True
  | quoted q, _ => isQuote q
  | comment, w => w = []

theorem isClosed_after {m : Mode} {t : Text} (hm : m.isClosed)
    (ht : ∀ c ∈ t, isQuote c = false ∧ c ≠ '#') : (m.after t).isClosed := by
  induction t generalizing m with
  | nil => exact hm
  | cons c t ih =>
    obtain ⟨⟨hq, hn⟩, ht⟩ := List.forall_mem_cons.mp ht
    refine ih (m := m.next c) ?_ ht
    cases m with
    | between | word =>
      by_cases hs : isSeparator c <;> simp [next, hq, hs, hn, isClosed]
    | quoted _ | comment => cases hm

end Mode

/-- Behind the text some words are complete and another one is under way, in every command that
starts with the text in the given mode. -/
structure Passes (m : Mode) (w s : Text) (done : List Text) (w' : Text) : Prop where
  fits : (m.after s).Fits w'
  split : ∀ t, splitFrom m w (s ++ t) = (splitFrom (m.after s) w' t).map (done ++ ·)
  chars : ∀ word ∈ w' :: done, ∀ c ∈ word, c ∈ w ++ s
  unbroken : (∀ c ∈ s, isSeparator c = false) → done = [] ∧ w <:+ w'

variable {m : Mode} {w w' w'' s s' t : Text} {done done' : List Text} {c q : Char}

/-! ### One character, then a text -/

namespace Passes

theorem nil (h : m.Fits w) : Passes m w [] [] w where
  fits := h
  split t := by simp [Mode.after]
  chars := by simp
  unbroken _ := ⟨rfl, List.suffix_rfl⟩

theorem append (h : Passes m w s done w') (h' : Passes (m.after s) w' s' done' w'') :
    Passes m w (s ++ s') (done ++ done') w'' := by
  have hafter : m.after (s ++ s') = (m.after s).after s' := List.foldl_append
  refine ⟨hafter ▸ h'.fits, fun t => ?_, fun word hword c hc => ?_, fun hs => ?_⟩
  · rw [List.append_assoc, h.split, h'.split, Option.map_map, hafter]
    congr 1
    funext words
    exact (List.append_assoc ..).symm
  · have hlater (hword : word ∈ w'' :: done') : c ∈ w ++ s ++ s' := by
      rcases List.mem_append.mp (h'.chars word hword c hc) with hc | hc
      · exact List.mem_append_left _ (h.chars w' List.mem_cons_self c hc)
      · exact List.mem_append_right _ hc
    rw [← List.append_assoc]
    rcases List.mem_cons.mp hword with rfl | hword
    · exact hlater List.mem_cons_self
    · rcases List.mem_append.mp hword with hword | hword
      · exact List.mem_append_left _ (h.chars word (List.mem_cons_of_mem _ hword) c hc)
      · exact hlater (List.mem_cons_of_mem _ hword)
  · obtain ⟨hs, hs'⟩ := List.forall_mem_append.mp hs
    obtain ⟨rfl, hw⟩ := h.unbroken hs
    obtain ⟨rfl, hw'⟩ := h'.unbroken hs'
    exact ⟨rfl, hw.trans hw'⟩

theorem drop (hm : (m.next c).Fits w)
    (h : ∀ t, splitFrom m w (c :: t) = splitFrom (m.next c) w t) : Passes m w [c] [] w where
  fits := hm
  split t := (h t).trans Option.map_id'.symm
  chars := by simp +contextual
  unbroken _ := ⟨rfl, List.suffix_rfl⟩

theorem extend (hm : (m.next c).Fits (c :: w))
    (h : ∀ t, splitFrom m w (c :: t) = splitFrom (m.next c) (c :: w) t) :
    Passes m w [c] [] (c :: w) where
  fits := hm
  split t := (h t).trans Option.map_id'.symm
  chars := by simp +contextual
  unbroken _ := ⟨rfl, List.suffix_cons c w⟩

theorem complete (w : Text) (hq : ¬ isQuote c) (hs : isSeparator c) :
    Passes .word w [c] [w.reverse] [] where
  fits := by simp [Mode.after, Mode.next, hq, hs, Mode.Fits]
  split t := by simp [splitFrom, Mode.after, Mode.next, hq, hs]
  chars := by simp +contextual
  unbroken h := by simp [hs] at h

end Passes

/-- What one character does: it is left out, belongs to a word or ends one. -/
theorem exists_passes_singleton (h : m.Fits w) (c : Char) : ∃ done w', Passes m w [c] done w' := by
  cases m with
  | between =>
    by_cases hq : isQuote c
    · exact ⟨_, _, .drop (by simp [Mode.next, hq, Mode.Fits]) (by simp [splitFrom, Mode.next, hq])⟩
    by_cases hs : isSeparator c
    · exact ⟨_, _, .drop (by simpa [Mode.next, hq, hs] using h)
        (by simp [splitFrom, Mode.next, hq, hs])⟩
    by_cases hc : c = '#'
    · subst hc
      exact ⟨_, _, .drop h fun t => rfl⟩
    · exact ⟨_, _, .extend (by simp [Mode.next, hq, hs, hc, Mode.Fits])
        (by simp [splitFrom, Mode.next, hq, hs, hc])⟩
  | word =>
    by_cases hq : isQuote c
    · exact ⟨_, _, .drop (by simp [Mode.next, hq, Mode.Fits]) (by simp [splitFrom, Mode.next, hq])⟩
    by_cases hs : isSeparator c
    · exact ⟨_, _, .complete w hq hs⟩
    · exact ⟨_, _, .extend (by simp [Mode.next, hq, hs, Mode.Fits])
        (by simp [splitFrom, Mode.next, hq, hs])⟩
  | quoted q =>
    by_cases hc : c = q
    · exact ⟨_, _, .drop (by simp [Mode.next, hc, Mode.Fits]) (by simp [splitFrom, Mode.next, hc])⟩
    · exact ⟨_, _, .extend (by simpa [Mode.next, hc, Mode.Fits] using h)
        (by simp [splitFrom, Mode.next, hc])⟩
  | comment =>
    by_cases hc : c = '\n'
    · subst hc
      exact ⟨_, _, .drop h fun t => rfl⟩
    · exact ⟨_, _, .drop (by simpa [Mode.next, hc] using h) (by simp [splitFrom, Mode.next, hc])⟩

theorem exists_passes (h : m.Fits w) (s : Text) : ∃ done w', Passes m w s done w' := by
  induction s generalizing m w with
  | nil => exact ⟨_, _, .nil h⟩
  | cons c s ih =>
    obtain ⟨done, w', hone⟩ := exists_passes_singleton h c
    obtain ⟨done', w'', hrest⟩ := ih hone.fits
    exact ⟨_, _, hone.append hrest⟩

/-! ### What a command has behind a part -/

/-- The words of a part that leaves nothing open stand in front of those behind the space. -/
theorem split?_append_of_isClosed (h : (Mode.between.after s).isClosed) :
    ∃ ws, split? s = some ws ∧ ∀ t, split? (s ++ ' ' :: t) = (split? t).map (ws ++ ·) := by
  obtain ⟨done, w, hp⟩ := exists_passes (m := .between) rfl s
  have hs := hp.split []
  rw [List.append_nil] at hs
  have hfits := hp.fits
  have hsplit (t : Text) := hp.split (' ' :: t)
  generalize Mode.between.after s = m at h hs hfits hsplit
  cases m with
  | between =>
    obtain rfl : w = [] := hfits
    exact ⟨done, hs.trans (by simp [splitFrom]), hsplit⟩
  | word =>
    refine ⟨done ++ [w.reverse], hs, fun t => ?_⟩
    have hspace : splitFrom .word w (' ' :: t) = (split? t).map (w.reverse :: ·) := rfl
    rw [split?, hsplit, hspace, Option.map_map]
    congr 1
    funext ws
    simp
  | quoted q => cases h
  | comment => cases h

theorem isQuote_of_after (h : Mode.between.after s = .quoted q) : isQuote q := by
  obtain ⟨done, w, hp⟩ := exists_passes (m := .between) rfl s
  have hfits := hp.fits
  rwa [h] at hfits

theorem split?_append_of_quoted (h : Mode.between.after s = .quoted q) (hq : q ∉ t) :
    split? (s ++ t) = none := by
  have hnone (w : Text) : splitFrom (.quoted q) w t = none := by
    induction t generalizing w with
    | nil => rfl
    | cons c t ih =>
      obtain ⟨hc, ht⟩ := not_or.mp fun hm => hq (List.mem_cons.mpr hm)
      rw [splitFrom, if_neg (Ne.symm hc), ih ht]
  obtain ⟨done, w, hp⟩ := exists_passes (m := .between) rfl s
  rw [split?, hp.split, h, hnone, Option.map_none]

theorem split?_append_of_comment (h : Mode.between.after s = .comment) (ht : '\n' ∉ t) :
    ∃ ws, split? (s ++ t) = some ws ∧ split? s = some ws := by
  have hcomment (w : Text) {t : Text} (ht : '\n' ∉ t) : splitFrom .comment w t = some [] := by
    induction t with
    | nil => rfl
    | cons c t ih =>
      obtain ⟨hc, ht⟩ := not_or.mp fun hm => ht (List.mem_cons.mpr hm)
      rw [splitFrom, if_neg (Ne.symm hc), ih ht]
  obtain ⟨done, w, hp⟩ := exists_passes (m := .between) rfl s
  have hs := hp.split []
  rw [List.append_nil, h, hcomment w (by simp)] at hs
  exact ⟨done, by rw [split?, hp.split, h, hcomment w ht]; simp, hs.trans (by simp)⟩

/-! ### The words of one part -/

theorem Passes.mem_split? {ws : List Text} {word : Text} (h : Passes .between [] t done w)
    (hs : split? t = some ws) (hword : word ∈ ws) : word ∈ done ∨ word = w.reverse := by
  have hsplit := h.split []
  rw [List.append_nil, ← split?, hs] at hsplit
  generalize Mode.between.after t = m at hsplit
  cases m with
  | quoted q => cases hsplit
  | word =>
    obtain rfl : ws = done ++ [w.reverse] := Option.some.inj hsplit
    simpa using hword
  | between | comment =>
    obtain rfl : ws = done ++ [] := Option.some.inj hsplit
    exact .inl (by simpa using hword)

/-- No word has a character that is not in the command. -/
theorem mem_of_mem_split? {ws : List Text} {word : Text} (h : split? t = some ws)
    (hword : word ∈ ws) (hc : c ∈ word) : c ∈ t := by
  obtain ⟨done, w, hp⟩ := exists_passes (m := .between) rfl t
  have hchars := hp.chars
  rw [List.nil_append] at hchars
  rcases hp.mem_split? h hword with hdone | rfl
  · exact hchars word (List.mem_cons_of_mem _ hdone) c hc
  · exact hchars w List.mem_cons_self c (List.mem_reverse.mp hc)

theorem head?_of_mem_split? {ws : List Text} {word : Text} (hc : ¬ isQuote c) (hn : c ≠ '#')
    (ht : ∀ a ∈ c :: t, isSeparator a = false) (h : split? (c :: t) = some ws)
    (hword : word ∈ ws) : word.head? = some c := by
  have hfirst : Passes .between [] [c] [] [c] :=
    .extend (by simp [Mode.next, hc, hn, ht c List.mem_cons_self, Mode.Fits])
      (by simp [splitFrom, Mode.next, hc, hn, ht c List.mem_cons_self])
  obtain ⟨done, w, hrest⟩ := exists_passes hfirst.fits t
  obtain ⟨rfl, u, rfl⟩ := hrest.unbroken fun a ha => ht a (List.mem_cons_of_mem c ha)
  rcases (hfirst.append hrest).mem_split? h hword with hdone | rfl
  · cases hdone
  · simp

end SettingsScan.ShellWords
