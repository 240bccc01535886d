import SettingsScan.Proofs.Detection.FileName
import SettingsScan.Proofs.Path.Reduction

/-! # Extensions of paths

The file name of a path is its last component. Separators and `.` segments behind it do not count,
and the dot in front of the extension is neither the first character of the path nor behind a
separator.
-/

namespace SettingsScan

namespace Text

variable {t s u : Text} {c : Char}

theorem cutLast?_append_cons (s : Text) (h : c ∉ u) :
    cutLast? (· = c) (s ++ c :: u) = some (s, u) := by
  have hreverse : (s ++ c :: u).reverse = u.reverse ++ c :: s.reverse := by simp
  rw [cutLast?, hreverse, cut?_closing (by simpa using h)]
  simp

theorem cutLast?_eq_some_iff : cutLast? (· = c) t = some (s, u) ↔ t = s ++ c :: u ∧ c ∉ u := by
  constructor
  · intro h
    rcases cut?_cases (· = c) t.reverse with ⟨hnone, -⟩ | ⟨back, d, front, ht, hd, hback, hsome⟩
    · simp [cutLast?, hnone] at h
    · obtain rfl := of_decide_eq_true hd
      obtain ⟨rfl, rfl⟩ : front.reverse = s ∧ back.reverse = u := by
        simpa [cutLast?, hsome] using h
      refine ⟨?_, fun hc => by simpa using hback d (List.mem_reverse.mp hc)⟩
      rw [← List.reverse_reverse t, ht]
      simp
  · rintro ⟨rfl, h⟩
    exact cutLast?_append_cons s h

theorem exists_eq_append_lastSegment (t : Text) :
    ∃ front, t = front ++ t.lastSegment ∧ (front = [] ∨ front.getLast? = some '/') := by
  rcases t.eq_lastSegment_or with h | ⟨d, h⟩
  · exact ⟨[], h, .inl rfl⟩
  · exact ⟨d ++ ['/'], by simpa using h, .inr (by simp)⟩

end Text

namespace Path

variable {path front gap name extension stem d s : Text} {c : Char}

/-- Separators with nothing or a `.` segment behind each of them. -/
def IsIdle (gap : Text) : Prop :=
  ∃ segments : List Text, (∀ s ∈ segments, s = [] ∨ s = ['.']) ∧ gap = segments.flatMap ('/' :: ·)

theorem isIdle_nil : IsIdle [] := ⟨[], nofun, rfl⟩

theorem IsIdle.concat (h : IsIdle gap) (hs : s = [] ∨ s = ['.']) : IsIdle (gap ++ '/' :: s) := by
  obtain ⟨segments, hidle, rfl⟩ := h
  refine ⟨segments ++ [s], fun t ht => ?_, by simp⟩
  rcases List.mem_append.mp ht with ht | ht
  · exact hidle t ht
  · rwa [List.mem_singleton.mp ht]

theorem IsIdle.getLast? (h : IsIdle gap) (hn : gap ≠ []) :
    gap.getLast? = some '/' ∨ gap.getLast? = some '.' := by
  obtain ⟨segments, hidle, rfl⟩ := h
  rcases List.eq_nil_or_concat segments with rfl | ⟨segments, s, rfl⟩
  · exact absurd rfl hn
  · rcases hidle s (by simp) with rfl | rfl <;> simp

/-! ### The last component -/

theorem isSeparator_eq_false_of_not_mem (h : '/' ∉ s) : ∀ a ∈ s, isSeparator a = false := by
  intro a ha
  rw [isSeparator, decide_eq_false_iff_not]
  rintro rfl
  exact h ha

theorem ofSegment?_eq_none_iff : Component.ofSegment? s = none ↔ s = [] ∨ s = ['.'] := by
  unfold Component.ofSegment?
  split
  · next hidle => exact iff_of_true rfl hidle
  · next hidle => split <;> exact iff_of_false nofun hidle

theorem ofSegment?_eq_normal (h : Component.ofSegment? s = some (.normal name)) (hs : '/' ∉ s) :
    s = name ∧ IsName name := by
  unfold Component.ofSegment? at h
  split at h
  · cases h
  · next hidle =>
    split at h
    · cases h
    · next hparent =>
      obtain rfl : s = name := by simpa using h
      exact ⟨rfl, fun hn => hidle (.inl hn), fun hn => hidle (.inr hn), hparent,
        isSeparator_eq_false_of_not_mem hs⟩

theorem innerComponents_append_segment (hf : front = [] ∨ front.getLast? = some '/')
    (hs : '/' ∉ s) :
    innerComponents (front ++ s) = innerComponents front ++ (Component.ofSegment? s).toList := by
  have hsegment : innerComponents s = (Component.ofSegment? s).toList := by
    rw [innerComponents, segments, Text.pieces_eq_singleton (isSeparator_eq_false_of_not_mem hs)]
    cases hc : Component.ofSegment? s <;> simp [hc]
  rcases hf with rfl | hf
  · exact hsegment
  · obtain ⟨d, rfl⟩ := List.getLast?_eq_some_iff.mp hf
    rw [List.append_assoc, List.singleton_append, innerComponents_append_cons,
      innerComponents_append_cons, hsegment]
    exact congrArg (· ++ (Component.ofSegment? s).toList) (List.append_nil _).symm

theorem IsIdle.innerComponents_append (h : IsIdle gap) (path : Text) :
    innerComponents (path ++ gap) = innerComponents path := by
  obtain ⟨segments, hidle, rfl⟩ := h
  induction segments generalizing path with
  | nil => simp
  | cons s segments ih =>
    obtain ⟨hs, hidle⟩ := List.forall_mem_cons.mp hidle
    have hsegment : innerComponents s = [] := by rcases hs with rfl | rfl <;> rfl
    rw [List.flatMap_cons, ← List.append_assoc, ih _ hidle, innerComponents_append_cons, hsegment,
      List.append_nil]

theorem fileName?_eq_some_iff_getLast? :
    fileName? path = some name ↔ (innerComponents path).getLast? = some (.normal name) := by
  have hcomponents : components path = (if isRooted path then [Component.root]
      else if startsAtCurrent path then [.current] else []) ++ innerComponents path := rfl
  rw [fileName?, hcomponents, List.getLast?_append]
  cases (innerComponents path).getLast? with
  | none =>
    cases isRooted path
    · cases startsAtCurrent path <;> simp
    · simp
  | some c => cases c <;> simp

/-- The file name stands at the start or behind a separator, with idle segments behind it. -/
theorem fileName?_eq_some_iff : fileName? path = some name ↔ IsName name ∧
    ∃ front gap, path = front ++ name ++ gap ∧ (front = [] ∨ front.getLast? = some '/') ∧
      IsIdle gap := by
  rw [fileName?_eq_some_iff_getLast?]
  constructor
  · intro h
    induction hl : path.length using Nat.strongRecOn generalizing path with
    | ind n ih =>
      subst hl
      obtain ⟨front, hpath, hf⟩ := path.exists_eq_append_lastSegment
      have hslash := path.slash_not_mem_lastSegment
      generalize path.lastSegment = s at hpath hslash
      subst hpath
      rw [innerComponents_append_segment hf hslash] at h
      cases hc : Component.ofSegment? s with
      | some c =>
        obtain rfl : c = .normal name := by simpa [hc] using h
        obtain ⟨rfl, hname⟩ := ofSegment?_eq_normal hc hslash
        exact ⟨hname, front, [], (List.append_nil _).symm, hf, isIdle_nil⟩
      | none =>
        -- the last segment is idle, so that the name is in front of it
        rw [hc, Option.toList_none, List.append_nil] at h
        rcases hf with rfl | hf
        · cases h
        obtain ⟨d, rfl⟩ := List.getLast?_eq_some_iff.mp hf
        have hd : innerComponents (d ++ ['/']) = innerComponents d := by
          rw [innerComponents_append_cons]
          exact List.append_nil _
        obtain ⟨hname, front, gap, rfl, hf, hgap⟩ := ih d.length (by simp) (hd ▸ h) rfl
        exact ⟨hname, front, gap ++ '/' :: s, by simp, hf,
          hgap.concat (ofSegment?_eq_none_iff.mp hc)⟩
  · rintro ⟨hname, front, gap, rfl, hf, hgap⟩
    have hslash : '/' ∉ name := fun h => by simpa [isSeparator] using hname.no_separator _ h
    rw [hgap.innerComponents_append, innerComponents_append_segment hf hslash,
      Component.ofSegment?_of_isName hname]
    simp

/-- The extension stands behind a dot that has a character of the file name in front of it. -/
theorem extension?_eq_some_iff (he : extension ≠ []) : extension? path = some extension ↔
    '.' ∉ extension ∧ '/' ∉ extension ∧
      ∃ stem c gap, path = stem ++ c :: '.' :: extension ++ gap ∧ c ≠ '/' ∧ IsIdle gap := by
  have hextension : extension? path = some extension ↔ ∃ name b stem, fileName? path = some name ∧
      Text.cutLast? (· = '.') name = some (b :: stem, extension) := by
    rw [extension?]
    constructor
    · intro h
      split at h
      · next b stem e hcut =>
        obtain ⟨name, hname, hcut⟩ := Option.bind_eq_some_iff.mp hcut
        exact ⟨name, b, stem, hname, Option.some.inj h ▸ hcut⟩
      · cases h
    · rintro ⟨name, b, stem, hname, hcut⟩
      rw [hname, Option.bind_some, hcut]
  rw [hextension]
  constructor
  · rintro ⟨name, b, stem, hname, hcut⟩
    obtain ⟨rfl, hdot⟩ := Text.cutLast?_eq_some_iff.mp hcut
    obtain ⟨hn, front, gap, rfl, -, hgap⟩ := fileName?_eq_some_iff.mp hname
    have hslash {a : Char} (ha : a ∈ b :: stem ++ '.' :: extension) : a ≠ '/' := fun h => by
      simpa [isSeparator, h] using hn.no_separator a ha
    obtain ⟨stem', c, hstem⟩ := List.eq_nil_or_concat (b :: stem) |>.resolve_left (by simp)
    rw [hstem, List.concat_eq_append] at hslash ⊢
    exact ⟨hdot, fun h => hslash (by simp [h]) rfl, front ++ stem', c, gap, by simp,
      hslash (by simp), hgap⟩
  · rintro ⟨hdot, hslash, stem, c, gap, rfl, hc, hgap⟩
    -- the file name starts behind the last separator of the stem
    obtain ⟨front, hstem, hf⟩ := stem.exists_eq_append_lastSegment
    have hs := stem.slash_not_mem_lastSegment
    generalize stem.lastSegment = s at hstem hs
    subst hstem
    have hname : IsName (s ++ c :: '.' :: extension) := by
      have hlong : 2 < (s ++ c :: '.' :: extension).length := by
        have := List.length_pos_of_ne_nil he
        simp only [List.length_append, List.length_cons]
        omega
      refine ⟨fun h => ?_, fun h => ?_, fun h => ?_, isSeparator_eq_false_of_not_mem ?_⟩
      · simp [h] at hlong
      · simp [h] at hlong
      · simp [h] at hlong
      · simp [hs, hslash, hc.symm]
    obtain ⟨b, stem, hb⟩ := List.exists_cons_of_ne_nil (show s ++ [c] ≠ [] by simp)
    refine ⟨_, b, stem, fileName?_eq_some_iff.mpr ⟨hname, front, gap, by simp, hf, hgap⟩, ?_⟩
    rw [← hb, Text.cutLast?_eq_some_iff]
    exact ⟨by simp, hdot⟩

end Path

end SettingsScan
