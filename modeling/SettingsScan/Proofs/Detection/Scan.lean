import SettingsScan.Proofs.Detection.Registry
import SettingsScan.Proofs.Search
import SettingsScan.Proofs.Text.Words

/-! # What a scan tries, and in which order

A scan is a search through the pairs of a detector and a method. The methods come first in their
order, so that a pair is tried before all pairs with a later method, and before those with a later
detector and the same method. The first token of a line, which may be expanded, is the text in front
of a blank character, or the one between two quotes.
-/

namespace SettingsScan

namespace DetectionMethod

def rank : DetectionMethod → Nat
  | basename => 0
  | withVersion => 1
  | withExtension => 2
  | withVersionAndExtension => 3

end DetectionMethod

namespace Registry

/-! ### Pairs of a detector and a method -/

def TriedBefore (p q : Nat × DetectionMethod) : Prop :=
  p.2.rank < q.2.rank ∨ p.2 = q.2 ∧ p.1 < q.1

theorem TriedBefore.asymm {p q : Nat × DetectionMethod} (h : TriedBefore p q) :
    ¬ TriedBefore q p := by
  rintro (h' | ⟨hm, h'⟩) <;> rcases h with h | ⟨hm', h⟩ <;> first | omega | simp_all

def pairs (r : Registry) (style : PathStyle) : List (DetectorId × DetectionMethod) :=
  DetectionMethod.all.flatMap fun method =>
    (List.range (r.detectors style).length).map fun index => ({ style, index }, method)

variable {r : Registry} {line : Text} {style : PathStyle} {i : Nat} {m : DetectionMethod}
  {x : Detection}

theorem style_of_mem_pairs {pair : DetectorId × DetectionMethod} (h : pair ∈ r.pairs style) :
    pair.1.style = style := by
  obtain ⟨method, -, h⟩ := List.mem_flatMap.mp h
  obtain ⟨index, -, rfl⟩ := List.mem_map.mp h
  rfl

theorem mem_pairs {style : PathStyle} :
    ({ style, index := i }, m) ∈ r.pairs style ↔ i < (r.detectors style).length := by
  have hm : m ∈ DetectionMethod.all := by cases m <;> decide
  simp [pairs, hm]

theorem pairwise_pairs :
    (r.pairs style).Pairwise fun p q => TriedBefore (p.1.index, p.2) (q.1.index, q.2) := by
  have hrank : DetectionMethod.all.Pairwise fun m n => m.rank < n.rank := by decide
  refine List.pairwise_flatMap.mpr ⟨fun m _ => ?_, hrank.imp fun {m n} hmn => ?_⟩
  · refine List.pairwise_map.mpr (List.pairwise_lt_range.imp fun {i j} hij => ?_)
    exact .inr ⟨rfl, hij⟩
  · intro p hp q hq
    obtain ⟨i, -, rfl⟩ := List.mem_map.mp hp
    obtain ⟨j, -, rfl⟩ := List.mem_map.mp hq
    exact .inl hmn

theorem scan_eq_findSome? : r.scan style line = (r.pairs style).findSome? (r.tryPair line) := by
  have hpairs : r.pairs style = DetectionMethod.all.flatMap fun method =>
      (r.detectors style).zipIdx.map fun entry => ({ style, index := entry.2 }, method) := by
    unfold pairs
    refine List.flatMap_congr fun method _ => ?_
    rw [List.range_eq_range', ← List.zipIdx_map_snd, List.map_map]
    rfl
  rw [hpairs, findSome?_flatMap, scan]
  refine findSome?_congr fun method _ => ?_
  rw [List.findSome?_map]
  refine findSome?_congr ?_
  rintro ⟨detector, index⟩ h
  have hget : r.get? { style, index } = some detector := List.mem_zipIdx_iff_getElem?.mp h
  simp only [Function.comp_apply, tryPair, hget, Option.bind_some]

theorem pair_of_tryPair {p : DetectorId × DetectionMethod} (h : r.tryPair line p = some x) :
    (x.id, x.method) = p := by
  obtain ⟨d, -, h⟩ := Option.bind_eq_some_iff.mp h
  obtain ⟨found, -, rfl⟩ := Option.map_eq_some_iff.mp h
  rfl

end Registry

/-! ### The first token -/

/-- The first token of a line without its quotes, and what is behind it. A quote that is not closed
belongs to the token. -/
inductive FirstToken : Text → Text → Text → Prop
  | quoted {token : Text} (rest : Text) : '"' ∉ token →
      FirstToken ('"' :: token ++ '"' :: rest) token rest
  | plain {token rest : Text} : (∀ inner, token ++ rest = '"' :: inner → '"' ∉ inner) →
      (∀ c ∈ token, isBlank c = false) → (∀ c ∈ rest.head?, isBlank c) →
      FirstToken (token ++ rest) token rest

variable {line token rest path : Text} {b : Char}

theorem Text.firstWord_append (ht : ∀ c ∈ token, isBlank c = false)
    (hr : ∀ c ∈ rest.head?, isBlank c) :
    firstWord (token ++ rest) = token ∧ (token ++ rest).dropWhile (!isBlank ·) = rest := by
  cases rest with
  | nil =>
    rw [List.append_nil, firstWord, List.takeWhile_eq_self_iff, List.dropWhile_eq_nil_iff]
    simpa using ht
  | cons b rest =>
    have hb : isBlank b := hr b rfl
    exact ⟨takeWhile_append_cons ht hb, dropWhile_append_cons ht hb⟩

theorem firstToken_firstWord (h : ∀ inner, line = '"' :: inner → '"' ∉ inner) :
    FirstToken line line.firstWord (line.dropWhile (!isBlank ·)) := by
  have hline := Text.firstWord_append_dropWhile line
  have htoken : FirstToken (line.firstWord ++ line.dropWhile (!isBlank ·)) line.firstWord
      (line.dropWhile (!isBlank ·)) := by
    refine .plain (by rwa [hline]) (fun c hc => by simpa using List.mem_takeWhile_imp hc) ?_
    intro c hc
    have hnot := List.head?_dropWhile_not (!isBlank ·) line
    rw [Option.mem_def.mp hc] at hnot
    simpa using hnot
  rwa [hline] at htoken

theorem firstToken_iff : FirstToken line token rest ↔ Registry.splitToken line = (token, rest) := by
  constructor
  · intro h
    cases h with
    | quoted rest h => rw [List.cons_append, Registry.splitToken, Text.cut?_closing h]
    | plain hquote ht hr =>
      obtain ⟨htake, hdrop⟩ := Text.firstWord_append ht hr
      unfold Registry.splitToken
      split
      · next inner hinner =>
        have hnone : Text.cut? (· = '"') inner = none := Text.cut?_eq_none fun c hc =>
          decide_eq_false fun he => hquote inner hinner (he ▸ hc)
        simp only [hnone, htake, hdrop]
      · rw [htake, hdrop]
  · intro h
    unfold Registry.splitToken at h
    split at h
    · next inner =>
      rcases Text.cut?_cases (· = '"') inner with ⟨hnone, hall⟩ | ⟨s, c, r, rfl, hc, hs, hcut⟩
      · rw [hnone] at h
        obtain ⟨rfl, rfl⟩ := Prod.mk.inj h
        refine firstToken_firstWord fun inner hinner hquote => ?_
        cases hinner
        exact absurd rfl (of_decide_eq_false (hall _ hquote))
      · rw [hcut] at h
        obtain ⟨rfl, rfl⟩ := Prod.mk.inj h
        obtain rfl : c = '"' := of_decide_eq_true hc
        exact .quoted _ fun hm => absurd rfl (of_decide_eq_false (hs _ hm))
    · next hquote =>
      obtain ⟨rfl, rfl⟩ := Prod.mk.inj h
      exact firstToken_firstWord fun inner hinner => absurd hinner (hquote inner)

theorem head?_line_ne (hq : '"' ∉ path) (hb : isBlank b) (rest : Text) :
    (path ++ b :: rest).head? ≠ some '"' := by
  cases path with
  | nil =>
    rintro ⟨⟩
    cases hb
  | cons c path =>
    rintro ⟨⟩
    exact hq List.mem_cons_self

theorem Registry.splitToken_quoted (hq : '"' ∉ path) (rest : Text) :
    splitToken ('"' :: path ++ '"' :: rest) = (path, rest) :=
  firstToken_iff.mp (.quoted rest hq)

theorem Registry.splitToken_plain (hp : ∀ c ∈ path, isBlank c = false) (hq : '"' ∉ path)
    (hb : isBlank b) (rest : Text) : splitToken (path ++ b :: rest) = (path, b :: rest) := by
  refine firstToken_iff.mp (.plain (fun inner hinner => ?_) hp fun c hc => ?_)
  · exact absurd (congrArg List.head? hinner) (head?_line_ne hq hb rest)
  · obtain rfl : b = c := Option.some.inj hc
    exact hb

end SettingsScan
