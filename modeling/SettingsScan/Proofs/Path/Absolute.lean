import Mathlib.Data.List.DropRight
import Mathlib.Data.List.Induction
import SettingsScan.Proofs.Path.Normal

/-! # Whether a resolved path is absolute

A path that is resolved in a rooted directory or in one with a drive is absolute, so it is resolved
for good. In a directory that starts with a backslash this depends on the first segment that the
steps to the directory above leave.
-/

namespace SettingsScan.Path

/-- Each name is taken back by a step up of its own, and each step up takes back a name. -/
inductive Cancels : List Component → Prop
  | nil : Cancels []
  | pair {inner rest : List Component} (name : Text) :
      Cancels inner → Cancels rest → Cancels (.normal name :: inner ++ .parent :: rest)

/-- One of the steps up leads above the place where the components start. -/
def Climbs (cs : List Component) : Prop :=
  ∃ inner rest, cs = inner ++ .parent :: rest ∧ Cancels inner

/-- The first name that is never taken back, and the components behind it. -/
def FirstKept (cs : List Component) (first : Text) (after : List Component) : Prop :=
  ∃ before, cs = before ++ .normal first :: after ∧ Cancels before ∧ ¬ Climbs after

/-- The names that are left by the components, the latest first. -/
inductive Leaves : List Component → List Text → Prop
  | nil {cs : List Component} : Cancels cs → Leaves cs []
  | name {cs inner : List Component} {names : List Text} (name : Text) :
      Leaves cs names → Cancels inner → Leaves (cs ++ .normal name :: inner) (name :: names)

variable {cs inner rest after above : List Component} {names more : List Text}
  {first name path directory : Text}

/-! ### Names and the steps that take them back -/

theorem Cancels.append (h : Cancels inner) (h' : Cancels rest) : Cancels (inner ++ rest) := by
  induction h with
  | nil => exact h'
  | @pair inner more name hi _ _ ih =>
    rw [List.append_assoc]
    exact .pair name hi ih

theorem Cancels.foldl_eq (h : Cancels cs) (above : List Component) :
    cs.foldl stepInto above = above := by
  induction h generalizing above with
  | nil => rfl
  | pair name _ _ ih ih' =>
    rw [List.cons_append, List.foldl_cons, List.foldl_append, ih, List.foldl_cons]
    exact ih' above

theorem Climbs.append (h : Climbs cs) (rest : List Component) : Climbs (cs ++ rest) := by
  obtain ⟨inner, more, rfl, hi⟩ := h
  exact ⟨inner, more ++ rest, by simp, hi⟩

theorem Leaves.append (h : Leaves cs names) (hi : Cancels inner) : Leaves (cs ++ inner) names := by
  cases h with
  | nil hc => exact .nil (hc.append hi)
  | name name hc hinner =>
    rw [List.append_assoc]
    exact .name name hc (hinner.append hi)

theorem Leaves.foldl_eq (h : Leaves cs names) (above : List Component) :
    cs.foldl stepInto above = names.map .normal ++ above := by
  induction h with
  | nil hc => exact hc.foldl_eq above
  | name name _ hi ih =>
    rw [List.foldl_append, ih, List.foldl_cons, hi.foldl_eq]
    rfl

theorem climbs_or_leaves (hcs : ∀ c ∈ cs, c = .parent ∨ ∃ name, c = .normal name) :
    Climbs cs ∨ ∃ names, Leaves cs names := by
  induction cs using List.reverseRecOn with
  | nil => exact .inr ⟨[], .nil .nil⟩
  | append_singleton cs c ih =>
    simp only [List.forall_mem_append, List.forall_mem_singleton] at hcs
    obtain ⟨hcs, hc⟩ := hcs
    rcases ih hcs with hclimbs | ⟨names, hleaves⟩
    · exact .inl (hclimbs.append [c])
    · rcases hc with rfl | ⟨name, rfl⟩
      · -- a step up takes back the latest name, if there is one
        cases hleaves with
        | nil hc => exact .inl ⟨cs, [], rfl, hc⟩
        | @name cs inner names name hleaves hinner =>
          refine .inr ⟨names, ?_⟩
          rw [List.append_assoc]
          exact hleaves.append (.pair name hinner .nil)
      · exact .inr ⟨name :: names, .name name hleaves .nil⟩

/-- A step up at the bottom of the stack stays there. -/
theorem exists_stepInto_concat (above : List Component) (c : Component) :
    ∃ next, stepInto (above ++ [.parent]) c = next ++ [.parent] := by
  cases c with
  | root => exact ⟨.root :: above, rfl⟩
  | current => exact ⟨above, rfl⟩
  | normal name => exact ⟨.normal name :: above, rfl⟩
  | parent =>
    rcases above with _ | ⟨top, above⟩
    · exact ⟨[.parent], rfl⟩
    · cases top with
      | root => exact ⟨.root :: above, rfl⟩
      | current => exact ⟨.parent :: .current :: above, rfl⟩
      | parent => exact ⟨.parent :: .parent :: above, rfl⟩
      | normal name => exact ⟨above, rfl⟩

theorem exists_foldl_concat (cs above : List Component) :
    ∃ next, cs.foldl stepInto (above ++ [.parent]) = next ++ [.parent] := by
  induction cs generalizing above with
  | nil => exact ⟨above, rfl⟩
  | cons c cs ih =>
    obtain ⟨next, hnext⟩ := exists_stepInto_concat above c
    rw [List.foldl_cons, hnext]
    exact ih next

theorem Climbs.exists_foldl (h : Climbs cs) :
    ∃ above, cs.foldl stepInto [] = above ++ [.parent] := by
  obtain ⟨inner, rest, rfl, hi⟩ := h
  rw [List.foldl_append, hi.foldl_eq, List.foldl_cons]
  exact exists_foldl_concat rest []

theorem Leaves.not_climbs (h : Leaves cs names) : ¬ Climbs cs := by
  intro hclimbs
  obtain ⟨above, habove⟩ := hclimbs.exists_foldl
  rw [h.foldl_eq, List.append_nil] at habove
  have hmem : Component.parent ∈ names.map Component.normal := by
    rw [habove]
    exact List.mem_append_right above (List.mem_singleton_self _)
  simp at hmem

theorem Leaves.exists_firstKept (h : Leaves cs (names ++ [first])) :
    ∃ after, FirstKept cs first after ∧ Leaves after names := by
  induction names generalizing cs with
  | nil =>
    cases h with
    | @name cs inner _ _ hc hi =>
      cases hc with
      | nil hc => exact ⟨inner, ⟨cs, rfl, hc, (Leaves.nil hi).not_climbs⟩, .nil hi⟩
  | cons last names ih =>
    cases h with
    | @name cs inner _ _ hc hi =>
      obtain ⟨after, ⟨before, rfl, hbefore, -⟩, hafter⟩ := ih hc
      have hleaves := hafter.name last hi
      exact ⟨_, ⟨before, by simp, hbefore, hleaves.not_climbs⟩, hleaves⟩

/-- What normalising makes of components in which a first name is kept. -/
theorem FirstKept.exists_foldl (h : FirstKept cs first after)
    (hcs : ∀ c ∈ cs, c = .parent ∨ ∃ name, c = .normal name) :
    ∃ names, Leaves after names ∧ (cs.foldl stepInto []).reverse =
      (first :: names.reverse).map .normal := by
  obtain ⟨before, rfl, hbefore, hafter⟩ := h
  have hall : ∀ c ∈ after, c = .parent ∨ ∃ name, c = .normal name := fun c hc =>
    hcs c (by simp [hc])
  rcases climbs_or_leaves hall with hclimbs | ⟨names, hleaves⟩
  · exact absurd hclimbs hafter
  · refine ⟨names, hleaves, ?_⟩
    rw [List.foldl_append, hbefore.foldl_eq, List.foldl_cons, hleaves.foldl_eq]
    simp [stepInto]

theorem Leaves.eq_nil_iff (h : Leaves cs names) : names = [] ↔ Cancels cs := by
  constructor
  · rintro rfl
    cases h with
    | nil hc => exact hc
  · intro hc
    have hfold := h.foldl_eq []
    rw [hc.foldl_eq] at hfold
    simpa using hfold.symm

/-! ### Absolute texts -/

theorem isAbsolute_joinWith_iff (hn : first ≠ []) (more : List Text) :
    isAbsolute (Text.joinWith ['/'] (first :: more)) ↔
      isAbsolute first ∨ ∃ letter : Char, letter.isAlpha ∧ first = [letter, ':'] ∧ more ≠ [] := by
  obtain ⟨rest, hrest, hmore⟩ : ∃ rest, Text.joinWith ['/'] (first :: more) = first ++ rest ∧
      (more = [] ∧ rest = [] ∨ more ≠ [] ∧ ∃ t, rest = '/' :: t) := by
    cases more with
    | nil => exact ⟨[], by simp [Text.joinWith], .inl ⟨rfl, rfl⟩⟩
    | cons s more =>
      exact ⟨'/' :: Text.joinWith ['/'] (s :: more), by simp [Text.joinWith],
        .inr ⟨by simp, _, rfl⟩⟩
  rw [hrest]
  -- a drive is told by three characters, and the first name may end before the third one
  rcases first with _ | ⟨a, _ | ⟨b, t⟩⟩
  · exact absurd rfl hn
  · rcases hmore with ⟨rfl, rfl⟩ | ⟨hm, t, rfl⟩ <;> simp [isAbsolute, hasDrive]
  · rcases t with _ | ⟨c, t⟩
    · rcases hmore with ⟨rfl, rfl⟩ | ⟨hm, t, rfl⟩
      · simp [isAbsolute, hasDrive]
      · by_cases hb : b = ':'
        · subst hb
          simp [isAbsolute, hasDrive, hm]
        · simp [isAbsolute, hasDrive, hb]
    · by_cases hb : b = ':'
      · subst hb
        simp [isAbsolute, hasDrive]
      · simp [isAbsolute, hasDrive, hb]

/-- A first name that makes the path absolute: by itself, or as a drive with something kept
behind it. -/
def LeadsAbsolute (first : Text) (after : List Component) : Prop :=
  isAbsolute first ∨ ∃ letter : Char, letter.isAlpha ∧ first = [letter, ':'] ∧ ¬ Cancels after

theorem cases_of_mem_components (hr : isRooted path = false) (hc : startsAtCurrent path = false) :
    ∀ c ∈ components path, c = .parent ∨ ∃ name, c = .normal name ∧ IsName name := by
  intro c hmem
  rw [components, if_neg (by simp [hr]), if_neg (by simp [hc])] at hmem
  exact cases_of_mem_segments hmem

theorem isAbsolute_normalize_of_firstKept (hr : isRooted path = false)
    (hc : startsAtCurrent path = false) (h : FirstKept (components path) first after) :
    isAbsolute (normalize path) ↔ LeadsAbsolute first after := by
  have hcs := cases_of_mem_components hr hc
  obtain ⟨names, hleaves, hfold⟩ :=
    h.exists_foldl fun c hc => (hcs c hc).imp_right fun ⟨name, hname, _⟩ => ⟨name, hname⟩
  have hfirst : first ≠ [] := by
    obtain ⟨before, hsplit, -, -⟩ := h
    rcases hcs (.normal first) (by simp [hsplit]) with hp | ⟨name, hname, hok⟩
    · cases hp
    · cases hname
      exact hok.ne_nil
  have hnormal : normalize path = Text.joinWith ['/'] (first :: names.reverse) := by
    rw [normalize, normalComponents, hfold]
    exact ofComponents_relative 0 (first :: names.reverse)
  rw [hnormal, isAbsolute_joinWith_iff hfirst, LeadsAbsolute, Ne, List.reverse_eq_nil_iff,
    hleaves.eq_nil_iff]

theorem exists_firstKept_of_isAbsolute (hr : isRooted path = false)
    (hc : startsAtCurrent path = false) (h : isAbsolute (normalize path)) :
    ∃ first after, FirstKept (components path) first after := by
  have hcs := cases_of_mem_components hr hc
  have hcases : ∀ c ∈ components path, c = .parent ∨ ∃ name, c = .normal name := fun c hc =>
    (hcs c hc).imp_right fun ⟨name, hname, _⟩ => ⟨name, hname⟩
  rcases climbs_or_leaves hcases with hclimbs | ⟨names, hleaves⟩
  · -- the text starts with a step up
    obtain ⟨above, habove⟩ := hclimbs.exists_foldl
    rw [normalize, normalComponents, habove, List.reverse_append] at h
    have hup := (isAbsolute_joinWith_iff (List.cons_ne_nil _ _)
      (above.reverse.map Component.text)).mp h
    simp [isAbsolute, hasDrive] at hup
  · rcases List.eq_nil_or_concat' names with rfl | ⟨names, first, rfl⟩
    · rw [normalize, normalComponents, hleaves.foldl_eq] at h
      cases h
    · obtain ⟨after, hkept, -⟩ := hleaves.exists_firstKept
      exact ⟨first, after, hkept⟩

/-- A path without a root is absolute after normalising if the first name that is kept in it makes
it so. -/
theorem isAbsolute_normalize_iff (hr : isRooted path = false) (hc : startsAtCurrent path = false) :
    isAbsolute (normalize path) ↔
      ∃ first after, FirstKept (components path) first after ∧ LeadsAbsolute first after := by
  constructor
  · intro h
    obtain ⟨first, after, hkept⟩ := exists_firstKept_of_isAbsolute hr hc h
    exact ⟨first, after, hkept, (isAbsolute_normalize_of_firstKept hr hc hkept).mp h⟩
  · rintro ⟨first, after, hkept, hleads⟩
    exact (isAbsolute_normalize_of_firstKept hr hc hkept).mpr hleads

/-! ### Resolving -/

theorem isRooted_normalize (h : isRooted path) : isRooted (normalize path) := by
  obtain ⟨names, hnames, -⟩ := namesBehind_root_normalComponents h
  rw [normalize, hnames, ofComponents_rooted]
  rfl

theorem isRooted_join (h : isRooted directory) (name : Text) : isRooted (join directory name) := by
  obtain ⟨t, rfl⟩ : ∃ t, directory = '/' :: t := by
    rw [isRooted, decide_eq_true_eq, List.head?_eq_some_iff] at h
    exact h
  unfold join
  split
  · rename_i hname
    simpa using hname
  · split <;> rfl

theorem dropEndSeparators_drive (letter : Char) (t : Text) :
    dropEndSeparators (letter :: ':' :: t) = letter :: ':' :: dropEndSeparators t := by
  have hreverse : (letter :: ':' :: t).reverse = t.reverse ++ [':', letter] := by simp
  rw [dropEndSeparators, dropEndSeparators, hreverse, List.dropWhile_append]
  split
  · rename_i hempty
    rw [List.isEmpty_iff.mp hempty]
    rfl
  · simp

theorem hasDrive_dropEndSeparators_append (h : hasDrive directory) (name : Text) :
    hasDrive (dropEndSeparators directory ++ '\\' :: name) := by
  obtain ⟨letter, separator, t, rfl, hl, hs⟩ : ∃ letter separator t,
      directory = letter :: ':' :: separator :: t ∧ letter.isAlpha ∧
        (separator = '\\' ∨ separator = '/') := by
    unfold hasDrive at h
    split at h
    · simp only [Bool.and_eq_true, Bool.or_eq_true, decide_eq_true_eq] at h
      exact ⟨_, _, _, rfl, h.1, h.2⟩
    · cases h
  rw [dropEndSeparators_drive]
  have hprefix : dropEndSeparators (separator :: t) <+: separator :: t :=
    List.rdropWhile_prefix _ _
  rcases List.prefix_cons_iff.mp hprefix with hnil | ⟨u, hcons, -⟩
  · simp [hnil, hasDrive, hl]
  · simp [hcons, hasDrive, hl, hs]

theorem isAbsolute_iff :
    isAbsolute path ↔ isRooted path ∨ path.head? = some '\\' ∨ hasDrive path := by
  simp [isAbsolute, isRooted, or_assoc]

/-- Exactly the absolute paths stand for themselves in every directory. -/
theorem isAbsolute_iff_resolve_eq :
    isAbsolute path ↔ ∀ directory, resolve directory path = path := by
  constructor
  · intro h directory
    exact resolve_of_isAbsolute directory h
  · intro h
    -- in the root directory, the outcome is rooted
    by_contra hn
    have hrooted : isRooted (resolve ['/'] path) := by
      rw [resolve, if_neg hn, if_neg (by decide)]
      exact isRooted_normalize (isRooted_join rfl path)
    rw [h] at hrooted
    exact hn (isAbsolute_iff.mpr (.inl hrooted))

theorem hasDrive_eq_false {c : Char} (h : path.head? = some c) (hc : c.isAlpha = false) :
    hasDrive path = false := by
  unfold hasDrive
  split
  · cases h
    rw [hc]
    rfl
  · rfl

theorem isAbsolute_resolve_of_isRooted (h : isRooted directory) (name : Text) :
    isAbsolute (resolve directory name) := by
  by_cases hname : isAbsolute name
  · rwa [resolve_of_isAbsolute directory hname]
  · have hdrive : hasDrive directory = false :=
      hasDrive_eq_false (by simpa [isRooted] using h) (by decide)
    rw [resolve, if_neg hname, if_neg (by simp [hdrive])]
    exact isAbsolute_iff.mpr (.inl (isRooted_normalize (isRooted_join h name)))

theorem isAbsolute_resolve_of_hasDrive (h : hasDrive directory) (name : Text) :
    isAbsolute (resolve directory name) := by
  by_cases hname : isAbsolute name
  · rwa [resolve_of_isAbsolute directory hname]
  · rw [resolve, if_neg hname, if_pos h]
    exact isAbsolute_iff.mpr (.inr (.inr (hasDrive_dropEndSeparators_append h name)))

theorem isAbsolute_resolve_backslash_iff (h : directory.head? = some '\\')
    (hn : isAbsolute name = false) :
    isAbsolute (resolve directory name) ↔
      ∃ first after, FirstKept (components (join directory name)) first after ∧
        LeadsAbsolute first after := by
  have hrooted : isRooted name = false := by
    simp only [isAbsolute, Bool.or_eq_false_iff] at hn
    exact hn.1.1
  obtain ⟨u, hu⟩ : ∃ u, join directory name = '\\' :: u := by
    obtain ⟨t, rfl⟩ := List.head?_eq_some_iff.mp h
    unfold join
    rw [hrooted, if_neg (by simp)]
    split
    · exact ⟨_, rfl⟩
    · exact ⟨_, rfl⟩
  have hdrive := hasDrive_eq_false h (by decide)
  rw [resolve, if_neg (by simp [hn]), if_neg (by simp [hdrive])]
  exact isAbsolute_normalize_iff (by rw [hu]; rfl) (by rw [hu]; rfl)

/-- In an absolute directory, a path resolves to an absolute one, for good, if and only if the
directory is rooted or has a drive, the path is absolute itself, or the first name that is kept of
the directory and the path behind it makes it so. -/
theorem resolve_absolute_iff (h : isAbsolute directory) (name : Text) :
    (isAbsolute (resolve directory name) ∧
      ∀ directory', resolve directory' (resolve directory name) = resolve directory name) ↔
      isRooted directory ∨ hasDrive directory ∨ isAbsolute name ∨
        ∃ first after, FirstKept (components (join directory name)) first after ∧
          LeadsAbsolute first after := by
  rw [← isAbsolute_iff_resolve_eq, and_self]
  rcases isAbsolute_iff.mp h with hrooted | hback | hdrive
  · exact iff_of_true (isAbsolute_resolve_of_isRooted hrooted name) (.inl hrooted)
  · by_cases hname : isAbsolute name
    · rw [resolve_of_isAbsolute directory hname]
      exact iff_of_true hname (.inr (.inr (.inl hname)))
    · have hrooted : ¬ isRooted directory := by simp [isRooted, hback]
      have hdrive : ¬ hasDrive directory := by simp [hasDrive_eq_false hback]
      rw [isAbsolute_resolve_backslash_iff hback (by simpa using hname), or_iff_right hrooted,
        or_iff_right hdrive, or_iff_right hname]
  · exact iff_of_true (isAbsolute_resolve_of_hasDrive hdrive name) (.inr (.inl hdrive))

theorem resolve_absolute_iff_share :
    let directory : Text := "\\\\server\\share/build".toList
    isAbsolute directory ∧ resolve directory "../inc".toList = "\\\\server\\share/inc".toList ∧
      isAbsolute (resolve directory "../inc".toList) ∧
      ∀ directory', resolve directory' (resolve directory "../inc".toList) =
        resolve directory "../inc".toList := by
  intro directory
  have h : isAbsolute directory := by decide
  have hkept : FirstKept (components (join directory "../inc".toList)) "\\\\server\\share".toList
      [.normal "build".toList, .parent, .normal "inc".toList] := by
    refine ⟨[], by decide, .nil, ?_⟩
    have hleaves : Leaves ([.normal "build".toList, .parent] ++ .normal "inc".toList :: [])
        ["inc".toList] := .name _ (.nil (.pair _ .nil .nil)) .nil
    exact hleaves.not_climbs
  refine ⟨h, by decide, (resolve_absolute_iff h _).mpr ?_⟩
  exact .inr (.inr (.inr ⟨_, _, hkept, .inl (by decide)⟩))

/-- A step up from a shared directory leads nowhere. -/
theorem resolve_parent_of_share :
    let directory : Text := "\\\\server\\share".toList
    isAbsolute directory ∧ resolve directory "../inc".toList = "inc".toList ∧
      isAbsolute (resolve directory "../inc".toList) = false ∧
      resolve "/p".toList (resolve directory "../inc".toList) = "/p/inc".toList := by
  decide

end SettingsScan.Path
