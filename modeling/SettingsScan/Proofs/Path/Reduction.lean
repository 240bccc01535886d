import SettingsScan.Proofs.Path.Absolute

/-! # Normalising step by step

A path is normalised by a stack: what is put under a directory goes on with the stack that the
directory leaves. So normalising the directory first makes no difference, nor does normalising
twice.
-/

namespace SettingsScan.Path

variable {a b : Text}

def innerComponents (path : Text) : List Component :=
  (segments path).filterMap Component.ofSegment?

def rootStack (path : Text) : List Component :=
  if isRooted path then [.root] else []

theorem reverse_normalComponents (path : Text) :
    (normalComponents path).reverse = (innerComponents path).foldl stepInto (rootStack path) := by
  have hbase : (if isRooted path then [Component.root] else
      if startsAtCurrent path then [.current] else []).foldl stepInto [] = rootStack path := by
    unfold rootStack
    split
    · rfl
    · split <;> rfl
  rw [normalComponents, List.reverse_reverse, components, List.foldl_append, hbase, innerComponents]

theorem normalComponents_normalize (a : Text) :
    normalComponents (normalize a) = normalComponents a := by
  rw [normalComponents, components_normalize, (isNormal_normalComponents a).foldl_stepInto,
    List.reverse_reverse]

theorem isRooted_normalize_eq (a : Text) : isRooted (normalize a) = isRooted a := by
  cases ha : isRooted a with
  | true => exact isRooted_normalize ha
  | false =>
    refine Bool.eq_false_iff.mpr fun hn => ?_
    obtain ⟨names, hnames, -⟩ := namesBehind_root_normalComponents hn
    obtain ⟨n, names', hnames', -⟩ := namesBehind_parent_normalComponents ha
    rw [normalComponents_normalize, hnames'] at hnames
    cases n <;> cases names' <;> simp [List.replicate_succ] at hnames

/-! ### A path under a directory -/

theorem innerComponents_append_cons (s t : Text) :
    innerComponents (s ++ '/' :: t) = innerComponents s ++ innerComponents t := by
  rw [innerComponents, segments, Text.pieces_append_cons rfl, List.filterMap_append]
  rfl

theorem innerComponents_join (hb : isRooted b = false) :
    innerComponents (join a b) = innerComponents a ++ innerComponents b := by
  unfold join
  split
  · rename_i h
    simp only [hb, Bool.false_or, List.isEmpty_iff] at h
    rw [h]
    rfl
  · split
    · rename_i hlast
      obtain ⟨s, rfl⟩ := List.getLast?_eq_some_iff.mp hlast
      rw [List.append_assoc, List.singleton_append, innerComponents_append_cons,
        innerComponents_append_cons]
      exact congrArg (· ++ innerComponents b) (List.append_nil _).symm
    · exact innerComponents_append_cons a b

theorem rootStack_join (hb : isRooted b = false) : rootStack (join a b) = rootStack a := by
  have hrooted : isRooted (join a b) = isRooted a := by
    cases a with
    | nil =>
      rw [join, if_pos (by simp), hb]
      rfl
    | cons c a =>
      rw [join, if_neg (by simp [hb])]
      split <;> rfl
  rw [rootStack, rootStack, hrooted]

theorem reverse_normalComponents_join (hb : isRooted b = false) :
    (normalComponents (join a b)).reverse =
      (innerComponents b).foldl stepInto (normalComponents a).reverse := by
  rw [reverse_normalComponents, innerComponents_join hb, rootStack_join hb, List.foldl_append,
    ← reverse_normalComponents]

theorem normalComponents_join_normalize (a b : Text) :
    normalComponents (join (normalize a) b) = normalComponents (join a b) := by
  cases hb : isRooted b with
  | true => simp [join, hb]
  | false =>
    rw [← List.reverse_inj, reverse_normalComponents_join hb, reverse_normalComponents_join hb,
      normalComponents_normalize]

/-- A normalised path keeps its root. Behind it there are names only, and steps up are left only
where there is no root, in front of all names. Without steps nothing is taken away, and a path is
normalised under a directory as it is under the normalised one. -/
theorem normalize_stepwise (a b : Text) :
    normalize (normalize a) = normalize a ∧
      .current ∉ components (normalize a) ∧
      isRooted (normalize a) = isRooted a ∧
      (isRooted a → .parent ∉ components (normalize a)) ∧
      (isRooted a = false → ∃ (n : Nat) (names : List Text),
        components (normalize a) = List.replicate n .parent ++ names.map .normal) ∧
      (.current ∉ components a → .parent ∉ components a →
        components (normalize a) = components a) ∧
      normalize (join (normalize a) b) = normalize (join a b) := by
  rw [components_normalize]
  refine ⟨congrArg ofComponents (normalComponents_normalize a), ?_, isRooted_normalize_eq a,
    fun ha => ?_, fun ha => ?_, fun hcurrent hparent => ?_,
    congrArg ofComponents (normalComponents_join_normalize a b)⟩
  · rcases isNormal_normalComponents a with ⟨names, hnames, -⟩ | ⟨n, names, hnames, -⟩
    · simp [hnames]
    · simp [hnames, List.mem_replicate]
  · obtain ⟨names, hnames, -⟩ := namesBehind_root_normalComponents ha
    simp [hnames]
  · obtain ⟨n, names, hnames, -⟩ := namesBehind_parent_normalComponents ha
    exact ⟨n, names, hnames⟩
  · have hsteps : ∀ c ∈ components a, c ≠ .current ∧ c ≠ .parent := fun c hc =>
      ⟨fun he => hcurrent (he ▸ hc), fun he => hparent (he ▸ hc)⟩
    rw [normalComponents, foldl_stepInto_reverse hsteps, List.append_nil, List.reverse_reverse]

theorem normalize_stepwise_source :
    .parent ∉ components (normalize "/../src/./lib/..".toList) ∧
      (∃ (n : Nat) (names : List Text), components (normalize "a/../../lib".toList) =
        List.replicate n .parent ++ names.map .normal) ∧
      components (normalize "/src//lib/".toList) = components "/src//lib/".toList ∧
      normalize (join (normalize "a/../../lib".toList) "../src".toList) =
        normalize (join "a/../../lib".toList "../src".toList) := by
  obtain ⟨-, -, -, hrooted, -⟩ := normalize_stepwise "/../src/./lib/..".toList []
  obtain ⟨-, -, -, -, hrelative, -, hjoin⟩ :=
    normalize_stepwise "a/../../lib".toList "../src".toList
  obtain ⟨-, -, -, -, -, hkept, -⟩ := normalize_stepwise "/src//lib/".toList []
  exact ⟨hrooted rfl, hrelative rfl, hkept (by decide) (by decide), hjoin⟩

end SettingsScan.Path
