import SettingsScan.Proofs.Pattern.Seek

/-! # Matches that end at the edge of a word

A pattern that ends with a blank character, the end of the text or as much of a word as there is
never cuts a word in two.
-/

namespace SettingsScan.Pattern

/-- A blank character in front or behind, or the end of the text. -/
def Place.AtEdge (p : Place) : Prop :=
  p.rest = [] ∨ p.rest.head?.any isAsciiBlank ∨ p.last.any isAsciiBlank

namespace Node

variable {n : Node} {p q : Place}

def endsAtEdge : Node → Bool
  | empty => false
  | one s => s = .space
  | look c => c = .textEnd
  | group _ n => n.endsAtEdge
  | seq _ b => b.endsAtEdge
  | alt a b => a.endsAtEdge && b.endsAtEdge
  | loop least most greedy n =>
    least ≤ 1 && most.isNone && greedy && n = one (.complement .space)

theorem atEdge_of_seek_many (h : (many (one (.complement .space))).seek some p = some q) :
    q.AtEdge := by
  rw [seek_many_one_takeWhile rfl] at h
  cases h
  cases hr : p.rest.dropWhile (CharSet.complement .space).contains with
  | nil => exact .inl rfl
  | cons c r =>
    have := List.head?_dropWhile_not (CharSet.complement .space).contains p.rest
    exact .inr (.inl (by simpa [hr, CharSet.contains_space] using this))

theorem atEdge_of_endsAtEdge (hn : n.endsAtEdge) (h : (n.ways p).head? = some q) :
    q.AtEdge := by
  induction n generalizing p q with
  | empty => cases hn
  | one s =>
    obtain rfl : s = .space := by simpa [endsAtEdge] using hn
    rw [head?_ways] at h
    cases hr : p.rest with
    | nil => simp [seek_one_nil hr] at h
    | cons c r =>
      rw [seek_one_cons hr] at h
      split at h
      · rename_i hc
        obtain rfl := Option.some.inj h
        exact .inr (.inr (by simpa [Place.after, CharSet.contains_space] using hc))
      · cases h
  | look c =>
    obtain rfl : c = .textEnd := by simpa [endsAtEdge] using hn
    rw [head?_ways, seek_look] at h
    split at h
    · rename_i hr
      obtain rfl := Option.some.inj h
      exact .inl (List.head?_eq_none_iff.mp (Option.isNone_iff_eq_none.mp hr))
    · cases h
  | group i n ih =>
    rw [ways_group, List.head?_map] at h
    obtain ⟨u, hu, rfl⟩ := Option.map_eq_some_iff.mp h
    exact (ih hn hu : u.AtEdge)
  | seq a b _ ih =>
    rw [ways_seq, List.head?_flatMap] at h
    obtain ⟨u, _, hu⟩ := List.exists_of_findSome?_eq_some h
    exact ih hn hu
  | alt a b iha ihb =>
    obtain ⟨ha, hb⟩ := Bool.and_eq_true_iff.mp hn
    rw [ways_alt, List.head?_append] at h
    rcases Option.or_eq_some_iff.mp h with h | ⟨-, h⟩
    · exact iha ha h
    · exact ihb hb h
  | loop least most greedy n _ =>
    simp only [endsAtEdge, Bool.and_eq_true, decide_eq_true_eq, Option.isNone_iff_eq_none] at hn
    obtain ⟨⟨⟨hl, rfl⟩, rfl⟩, rfl⟩ := hn
    rw [head?_ways] at h
    obtain rfl | rfl : least = 0 ∨ least = 1 := by omega
    · exact atEdge_of_seek_many h
    · change (some_ (one _)).seek some p = some q at h
      rw [seek_some (productive_one _)] at h
      obtain ⟨u, -, hu⟩ := exists_of_seek_eq_some h
      exact atEdge_of_seek_many hu

end Node

end SettingsScan.Pattern
