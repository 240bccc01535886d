import Mathlib.Data.List.TakeWhile
import SettingsScan.Text.Blank

/-! # Words of a text in parts

Cut at the edge of a word, a text has the words of its parts, in order.
-/

namespace SettingsScan

def asciiBlanks : List Char := [' ', '\t', '\n', '\x0B', '\x0C', '\r']

theorem mem_asciiBlanks {c : Char} (h : isAsciiBlank c) : c ∈ asciiBlanks := by
  simp only [isAsciiBlank, Bool.or_eq_true, decide_eq_true_eq, Bool.and_eq_true] at h
  rcases h with rfl | ⟨hl, hh⟩
  · decide
  · have hl : 9 ≤ c.toNat := hl
    have hh : c.toNat ≤ 13 := hh
    have hn {n : Nat} (h : c.toNat = n) : c = Char.ofNat n := by rw [← h, Char.ofNat_toNat]
    obtain h | h | h | h | h : c.toNat = 9 ∨ c.toNat = 10 ∨ c.toNat = 11 ∨ c.toNat = 12 ∨
      c.toNat = 13 := by omega
    all_goals rw [hn h]; decide

namespace Text

variable {s t : Text} {c : Char}

theorem forall_eq_false {p : Char → Bool} (h : t.any p = false) : ∀ c ∈ t, p c = false := by
  simpa using h

/-- Between the two texts no word is cut in two. -/
def EdgeBetween (s t : Text) : Prop :=
  s.getLast?.any isBlank ∨ t = [] ∨ t.head?.any isBlank

theorem pieces_ne_nil (p : Char → Bool) (t : Text) : pieces p t ≠ [] := by
  cases t with
  | nil => simp [pieces]
  | cons c t =>
    unfold pieces
    split
    · simp
    · split <;> simp

theorem pieces_append_cons {p : Char → Bool} (hc : p c) (s t : Text) :
    pieces p (s ++ c :: t) = pieces p s ++ pieces p t := by
  induction s with
  | nil => simp [pieces, hc]
  | cons a s ih =>
    by_cases ha : p a
    · simp [pieces, ha, ih]
    · obtain ⟨piece, more, hs⟩ := List.exists_cons_of_ne_nil (pieces_ne_nil p s)
      simp [pieces, ha, ih, hs]

theorem pieces_eq_singleton {p : Char → Bool} (hs : ∀ c ∈ s, p c = false) : pieces p s = [s] := by
  induction s with
  | nil => rfl
  | cons c s ih =>
    rw [pieces, if_neg (by simp [hs c List.mem_cons_self]),
      ih fun d hd => hs d (List.mem_cons_of_mem c hd)]

theorem eq_false_of_mem_pieces {p : Char → Bool} (hs : s ∈ pieces p t) : ∀ c ∈ s, p c = false := by
  induction t generalizing s with
  | nil =>
    rw [pieces, List.mem_singleton] at hs
    simp [hs]
  | cons a t ih =>
    obtain ⟨piece, more, ht⟩ := List.exists_cons_of_ne_nil (pieces_ne_nil p t)
    rw [ht] at ih
    rw [pieces, ht] at hs
    by_cases ha : p a
    · rw [if_pos ha, List.mem_cons] at hs
      rcases hs with rfl | hs
      · simp
      · exact ih hs
    · rw [if_neg ha, List.mem_cons] at hs
      rcases hs with rfl | hs
      · exact List.forall_mem_cons.mpr ⟨by simpa using ha, ih List.mem_cons_self⟩
      · exact ih (List.mem_cons_of_mem piece hs)

theorem mem_of_mem_pieces {p : Char → Bool} (hs : s ∈ pieces p t) (hc : c ∈ s) : c ∈ t := by
  induction t generalizing s with
  | nil =>
    rw [pieces, List.mem_singleton] at hs
    exact hs ▸ hc
  | cons a t ih =>
    obtain ⟨piece, more, ht⟩ := List.exists_cons_of_ne_nil (pieces_ne_nil p t)
    rw [ht] at ih
    rw [pieces, ht] at hs
    by_cases ha : p a
    · rw [if_pos ha, List.mem_cons] at hs
      rcases hs with rfl | hs
      · cases hc
      · exact List.mem_cons_of_mem a (ih hs hc)
    · rw [if_neg ha, List.mem_cons] at hs
      rcases hs with rfl | hs
      · rcases List.mem_cons.mp hc with rfl | hc
        · exact List.mem_cons_self
        · exact List.mem_cons_of_mem a (ih List.mem_cons_self hc)
      · exact List.mem_cons_of_mem a (ih (List.mem_cons_of_mem piece hs) hc)

theorem pieces_joinWith {p : Char → Bool} (hc : p c) {parts : List Text}
    (hp : ∀ s ∈ parts, ∀ a ∈ s, p a = false) (hn : parts ≠ []) :
    pieces p (joinWith [c] parts) = parts := by
  induction parts with
  | nil => exact absurd rfl hn
  | cons s parts ih =>
    obtain ⟨hs, hp⟩ := List.forall_mem_cons.mp hp
    cases parts with
    | nil => exact pieces_eq_singleton hs
    | cons u parts =>
      rw [joinWith, List.append_assoc, List.singleton_append, pieces_append_cons hc,
        pieces_eq_singleton hs, ih hp (List.cons_ne_nil _ _)]
      · rfl
      · simp

theorem words_append_cons (hc : isBlank c) (s t : Text) :
    words (s ++ c :: t) = words s ++ words t := by
  simp only [words, pieces_append_cons hc, List.filter_append]

theorem mem_of_mem_words (hs : s ∈ words t) (hc : c ∈ s) : c ∈ t :=
  mem_of_mem_pieces (List.mem_filter.mp hs).1 hc

@[simp] theorem words_nil : words [] = [] := rfl

theorem words_cons (hc : isBlank c) (t : Text) : words (c :: t) = words t :=
  words_append_cons hc [] t

theorem words_gap {gap : Text} (h : gap.all isBlank) (t : Text) :
    words (gap ++ t) = words t := by
  induction gap with
  | nil => rfl
  | cons c gap ih =>
    obtain ⟨hc, hg⟩ := Bool.and_eq_true_iff.mp (List.all_cons ▸ h)
    exact (words_cons hc _).trans (ih hg)

theorem EdgeBetween.words_append (h : EdgeBetween s t) :
    words (s ++ t) = words s ++ words t := by
  rcases h with h | rfl | h
  · obtain ⟨c, hl, hc⟩ := (Option.any_eq_true _ _).mp h
    obtain ⟨s, rfl⟩ := List.getLast?_eq_some_iff.mp hl
    rw [List.append_assoc, List.singleton_append, words_append_cons hc, words_append_cons hc,
      words_nil, List.append_nil]
  · simp
  · obtain ⟨c, ht, hc⟩ := (Option.any_eq_true _ _).mp h
    obtain ⟨t, rfl⟩ := List.head?_eq_some_iff.mp ht
    rw [words_append_cons hc, words_cons hc]

theorem words_word_gap {gap : Text} (hn : s ≠ []) (hs : ∀ c ∈ s, isBlank c = false)
    (hg : gap.all isBlank) : words (s ++ gap) = [s] := by
  have hword : words s = [s] := by simp [words, pieces_eq_singleton hs, hn]
  have hgap := words_gap hg []
  rw [List.append_nil, words_nil] at hgap
  have he : EdgeBetween s gap := by
    cases gap with
    | nil => exact .inr (.inl rfl)
    | cons c gap => exact .inr (.inr (List.all_cons ▸ hg |> Bool.and_eq_true_iff.mp |>.1))
  rw [he.words_append, hword, hgap, List.append_nil]

theorem byteSize_pos (h : t ≠ []) : 0 < t.byteSize := by
  cases t with
  | nil => exact absurd rfl h
  | cons c t => exact Nat.lt_of_lt_of_le c.utf8Size_pos (Nat.le_add_right _ _)

/-! ### Cutting at a character -/

theorem takeWhile_append_cons {p : Char → Bool} (hs : ∀ a ∈ s, p a = false) (hc : p c) :
    (s ++ c :: t).takeWhile (!p ·) = s := by
  rw [List.takeWhile_append_of_pos fun a ha => by simp [hs a ha],
    List.takeWhile_cons_of_neg (by simp [hc]), List.append_nil]

theorem dropWhile_append_cons {p : Char → Bool} (hs : ∀ a ∈ s, p a = false) (hc : p c) :
    (s ++ c :: t).dropWhile (!p ·) = c :: t := by
  rw [List.dropWhile_append_of_pos fun a ha => by simp [hs a ha]]
  exact List.dropWhile_cons_of_neg (by simp [hc])

theorem cut?_append_cons {p : Char → Bool} (hs : ∀ a ∈ s, p a = false) (hc : p c) :
    cut? p (s ++ c :: t) = some (s, t) := by
  rw [cut?, dropWhile_append_cons hs hc, takeWhile_append_cons hs hc]

theorem cut?_closing (h : c ∉ s) (t : Text) : cut? (· = c) (s ++ c :: t) = some (s, t) := by
  refine cut?_append_cons (fun a ha => ?_) (by simp)
  rw [decide_eq_false_iff_not]
  rintro rfl
  exact h ha

theorem cut?_eq_none {p : Char → Bool} (ht : ∀ a ∈ t, p a = false) : cut? p t = none := by
  have hd : t.dropWhile (!p ·) = [] := List.dropWhile_eq_nil_iff.mpr fun a ha => by simp [ht a ha]
  rw [cut?, hd]

theorem cut?_cases (p : Char → Bool) (t : Text) :
    (cut? p t = none ∧ ∀ a ∈ t, p a = false) ∨
      ∃ s c r, t = s ++ c :: r ∧ p c ∧ (∀ a ∈ s, p a = false) ∧ cut? p t = some (s, r) := by
  induction t with
  | nil => exact .inl ⟨rfl, by simp⟩
  | cons d t ih =>
    by_cases hd : p d
    · exact .inr ⟨[], d, t, rfl, hd, by simp, cut?_append_cons (s := []) (by simp) hd⟩
    · have hd : p d = false := by simpa using hd
      rcases ih with ⟨-, ht⟩ | ⟨s, c, r, rfl, hc, hs, -⟩
      · have hall : ∀ a ∈ d :: t, p a = false := List.forall_mem_cons.mpr ⟨hd, ht⟩
        exact .inl ⟨cut?_eq_none hall, hall⟩
      · have hall : ∀ a ∈ d :: s, p a = false := List.forall_mem_cons.mpr ⟨hd, hs⟩
        exact .inr ⟨d :: s, c, r, rfl, hc, hall, cut?_append_cons hall hc⟩

/-! ### Gaps -/

theorem trimStart_gap {gap : Text} (hg : gap.all isBlank) (ht : t.head?.any isBlank = false) :
    (gap ++ t).trimStart = t := by
  rw [trimStart, List.dropWhile_append_of_pos fun c hc => List.all_eq_true.mp hg c hc]
  cases t with
  | nil => rfl
  | cons c t => rw [List.dropWhile_cons_of_neg (by simpa using ht)]

theorem trimStart_eq_self (ht : t.head?.any isBlank = false) : t.trimStart = t :=
  trimStart_gap (List.all_nil (f := isBlank)) ht

theorem exists_gap (t : Text) :
    ∃ gap rest, t = gap ++ rest ∧ gap.all isBlank ∧ rest.head?.any isBlank = false := by
  refine ⟨t.takeWhile isBlank, t.dropWhile isBlank, List.takeWhile_append_dropWhile.symm,
    List.all_takeWhile, ?_⟩
  have h := List.head?_dropWhile_not isBlank t
  cases hd : t.dropWhile isBlank with
  | nil => rfl
  | cons c r => simpa [hd] using h

theorem trimStart_append_cons {c : Char} (hc : isBlank c = false) (s t : Text) :
    trimStart (s ++ c :: t) = s.trimStart ++ c :: t := by
  induction s with
  | nil => exact List.dropWhile_cons_of_neg (by simp [hc])
  | cons d s ih =>
    by_cases hd : isBlank d
    · simpa [trimStart, hd] using ih
    · simp [trimStart, hd]

theorem trimEnd_append_cons {c : Char} {gap : Text} (hc : isBlank c = false)
    (hg : gap.all isBlank) (s : Text) : trimEnd (s ++ c :: gap) = s ++ [c] := by
  have hreverse : (s ++ c :: gap).reverse = gap.reverse ++ c :: s.reverse := by simp
  have hdrop : (gap.reverse ++ c :: s.reverse).dropWhile isBlank = c :: s.reverse :=
    trimStart_gap (by rwa [List.all_reverse]) (by simpa using hc)
  rw [trimEnd, hreverse, hdrop, List.reverse_cons, List.reverse_reverse]

theorem exists_trim (t : Text) :
    ∃ front back, t = front ++ t.trim ++ back ∧ front.all isBlank ∧ back.all isBlank := by
  refine ⟨t.takeWhile isBlank, (t.trimStart.reverse.takeWhile isBlank).reverse, ?_,
    List.all_takeWhile, by rw [List.all_reverse]; exact List.all_takeWhile⟩
  rw [List.append_assoc, trim, trimEnd, ← List.reverse_append, List.takeWhile_append_dropWhile,
    List.reverse_reverse, trimStart, List.takeWhile_append_dropWhile]

theorem trim_gap {gap : Text} (hg : gap.all isBlank) (t : Text) : trim (gap ++ t) = t.trim := by
  have hstart : trimStart (gap ++ t) = t.trimStart :=
    List.dropWhile_append_of_pos fun c hc => List.all_eq_true.mp hg c hc
  rw [trim, hstart, trim]

theorem head?_trim (t : Text) : t.trim.head?.any isBlank = false := by
  obtain ⟨gap, rest, rfl, hg, hr⟩ := t.exists_gap
  rw [trim_gap hg, trim, trimStart_eq_self hr]
  have hprefix : trimEnd rest <+: rest := by
    rw [trimEnd, ← List.reverse_suffix, List.reverse_reverse]
    exact List.dropWhile_suffix _
  obtain ⟨back, hback⟩ := hprefix
  cases htrim : trimEnd rest with
  | nil => rfl
  | cons c u => rwa [← hback, htrim] at hr

theorem getLast?_trim (t : Text) : t.trim.getLast?.any isBlank = false := by
  rw [trim, trimEnd, List.getLast?_reverse]
  have h := List.head?_dropWhile_not isBlank t.trimStart.reverse
  cases hd : t.trimStart.reverse.dropWhile isBlank with
  | nil => rfl
  | cons c r => simpa [hd] using h

theorem trim_between {front back : Text} (hf : front.all isBlank) (hb : back.all isBlank)
    (hh : t.head?.any isBlank = false) (hl : t.getLast?.any isBlank = false) :
    trim (front ++ t ++ back) = t := by
  rw [List.append_assoc, trim_gap hf]
  rcases List.eq_nil_or_concat t with rfl | ⟨u, c, rfl⟩
  · have h := trim_gap hb []
    rwa [List.append_nil] at h
  · have hstart : trimStart (u.concat c ++ back) = u.concat c ++ back :=
      trimStart_eq_self (by cases u <;> exact hh)
    rw [trim, hstart, List.concat_eq_append, List.append_assoc, List.singleton_append,
      trimEnd_append_cons (by simpa using hl) hb]

end Text

end SettingsScan
