import SettingsScan.Proofs.Pattern.Opening

/-! # Heads of a pattern

What a pattern matches opens with one of its heads. Two patterns whose heads all clash have no text
in common.
-/

namespace SettingsScan.Pattern

namespace CharSet

variable {a b : CharSet} {c : Char}

/-- The first class is a list of characters, none of which is in the second one. -/
def excludes : CharSet → CharSet → Bool
  | empty, _ => true
  | range low high, s => low = high && !s.contains low
  | union a b, s => a.excludes s && b.excludes s
  | _, _ => false

theorem not_contains_of_excludes (h : a.excludes b) (hc : a.contains c) : b.contains c = false := by
  induction a with
  | empty => cases hc
  | range low high =>
    simp only [excludes, Bool.and_eq_true, decide_eq_true_eq, Bool.not_eq_true'] at h
    obtain ⟨rfl, hlow⟩ := h
    obtain rfl : c = low := by simpa using (contains_single low c).symm.trans hc
    exact hlow
  | union a a' ih ih' =>
    simp only [excludes, Bool.and_eq_true] at h
    rcases Bool.or_eq_true_iff.mp hc with hc | hc
    · exact ih h.1 hc
    · exact ih' h.2 hc
  | complement a _ => cases h
  | foldCase a _ => cases h

end CharSet

abbrev Head := List CharSet

namespace Head

def opens : Head → Text → Bool
  | [], _ => true
  | _ :: _, [] => false
  | s :: h, c :: t => s.contains c && opens h t

def clash : Head → Head → Bool
  | s :: h, s' :: h' => s.excludes s' || s'.excludes s || clash h h'
  | _, _ => false

variable {h h' : Head} {t u : Text}

theorem not_opens_of_clash (hc : h.clash h') (ho : h.opens t) : h'.opens t = false := by
  induction h generalizing h' t with
  | nil => cases hc
  | cons s h ih =>
    cases h' with
    | nil => cases hc
    | cons s' h' =>
      cases t with
      | nil => rfl
      | cons c t =>
        simp only [opens, Bool.and_eq_true] at ho
        simp only [clash, Bool.or_eq_true] at hc
        obtain ⟨hs, ho⟩ := ho
        rw [opens, Bool.and_eq_false_iff]
        rcases hc with (hc | hc) | hc
        · exact .inl (CharSet.not_contains_of_excludes hc hs)
        · left
          by_contra hs'
          have hnot := CharSet.not_contains_of_excludes hc (Bool.eq_true_of_not_eq_false hs')
          rw [hs] at hnot
          cases hnot
        · exact .inr (ih hc ho)

theorem opens_append_iff : opens (u.map .single ++ h) t ↔ ∃ r, t = u ++ r ∧ h.opens r := by
  induction u generalizing t with
  | nil => simp
  | cons c u ih =>
    cases t with
    | nil => exact iff_of_false nofun (by simp)
    | cons d t => simp [opens, ih, and_assoc]

end Head

namespace Node

/-- The heads of what the pattern matches in front of a text with one of the given heads. What is
behind a loop with more than one round is left open. -/
def heads : Node → List Head → List Head
  | empty, k => k
  | one s, k => k.map (s :: ·)
  | look _, k => k
  | group _ n, k => n.heads k
  | seq a b, k => a.heads (b.heads k)
  | alt a b, k => a.heads k ++ b.heads k
  | loop least most _ n, k =>
    if least ≠ 0 then n.heads [[]]
    else if most = some 1 then n.heads k ++ k
    else [[]]

variable {n : Node} {p q : Place} {k : List Head} {t : Text}

theorem exists_opens_heads (hq : q ∈ n.ways p) (hk : ∃ h ∈ k, h.opens q.rest) :
    ∃ h ∈ n.heads k, h.opens p.rest := by
  induction n generalizing p q k with
  | empty => exact List.mem_singleton.mp hq ▸ hk
  | one s =>
    obtain ⟨c, r, hr, hs, rfl⟩ := mem_ways_one.mp hq
    obtain ⟨h, hk, ho⟩ := hk
    refine ⟨s :: h, List.mem_map_of_mem hk, ?_⟩
    rw [hr, Head.opens, hs]
    exact ho
  | look condition =>
    rw [ways] at hq
    split at hq
    · exact List.mem_singleton.mp hq ▸ hk
    · cases hq
  | group i n ih =>
    obtain ⟨u, hu, rfl⟩ := List.mem_map.mp hq
    exact ih hu hk
  | seq a b iha ihb =>
    obtain ⟨u, hu, hq⟩ := List.mem_flatMap.mp hq
    exact iha hu (ihb hq hk)
  | alt a b iha ihb =>
    rcases List.mem_append.mp hq with hq | hq
    · obtain ⟨h, hh, ho⟩ := iha hq hk
      exact ⟨h, List.mem_append_left _ hh, ho⟩
    · obtain ⟨h, hh, ho⟩ := ihb hq hk
      exact ⟨h, List.mem_append_right _ hh, ho⟩
  | loop least most greedy n ih =>
    rw [heads]
    split
    · rename_i h0
      -- there is a first round
      obtain ⟨u, hu⟩ : ∃ u, u ∈ n.ways p := by
        by_contra hnone
        have hways := List.eq_nil_iff_forall_not_mem.mpr fun u hu => hnone ⟨u, hu⟩
        rw [ways, Step.loop_of_eq_nil hways, if_neg h0] at hq
        cases hq
      exact ih hu ⟨[], List.mem_singleton_self _, rfl⟩
    · rename_i h0
      obtain rfl := not_not.mp h0
      split
      · rename_i hmost
        rw [ways, hmost, Step.loop_zero_one, Step.mem_orStay] at hq
        rcases hq with hq | rfl
        · obtain ⟨h, hh, ho⟩ := ih hq hk
          exact ⟨h, List.mem_append_left _ hh, ho⟩
        · obtain ⟨h, hh, ho⟩ := hk
          exact ⟨h, List.mem_append_right _ hh, ho⟩
      · exact ⟨[], List.mem_singleton_self _, rfl⟩

/-- A text that is matched opens with a head of the pattern. -/
theorem exists_opens_of_match? (h : n.match? t = some q) :
    ∃ head ∈ n.heads [[]], head.opens t :=
  exists_opens_heads (List.mem_of_mem_head? h) ⟨[], List.mem_singleton_self _, rfl⟩

end Node

end SettingsScan.Pattern
