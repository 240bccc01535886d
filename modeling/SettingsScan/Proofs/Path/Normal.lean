import Mathlib.Data.List.Basic
import SettingsScan.Path.Resolve
import SettingsScan.Proofs.Text.Words

/-! # Paths in normal form

Normalising leaves names only, behind the root or behind steps to the directory above. The text of
these components is read back as them.
-/

namespace SettingsScan.Path

/-- A segment that stands for a file or a directory. -/
structure IsName (name : Text) : Prop where
  ne_nil : name ≠ []
  ne_current : name ≠ ['.']
  ne_parent : name ≠ ['.', '.']
  no_separator : ∀ c ∈ name, isSeparator c = false

def NamesBehind (base cs : List Component) : Prop :=
  ∃ names : List Text, cs = base ++ names.map .normal ∧ ∀ name ∈ names, IsName name

/-- Names behind the root, or behind any number of steps to the directory above. -/
def IsNormal (cs : List Component) : Prop :=
  NamesBehind [.root] cs ∨ ∃ n, NamesBehind (List.replicate n .parent) cs

variable {path name segment : Text} {names : List Text} {c : Component}
  {base cs above : List Component}

theorem Component.ofSegment?_of_isName (h : IsName name) :
    Component.ofSegment? name = some (.normal name) := by
  simp [ofSegment?, h.ne_nil, h.ne_current, h.ne_parent]

theorem Component.cases_of_ofSegment? (h : Component.ofSegment? segment = some c)
    (hs : ∀ a ∈ segment, isSeparator a = false) :
    c = .parent ∨ ∃ name, c = .normal name ∧ IsName name := by
  unfold ofSegment? at h
  split at h
  · cases h
  · rename_i hn
    split at h
    · exact .inl (Option.some.inj h).symm
    · rename_i hp
      exact .inr ⟨segment, (Option.some.inj h).symm,
        ⟨fun hnil => hn (.inl hnil), fun hdot => hn (.inr hdot), hp, hs⟩⟩

theorem cases_of_mem_segments (h : c ∈ (segments path).filterMap Component.ofSegment?) :
    c = .parent ∨ ∃ name, c = .normal name ∧ IsName name := by
  obtain ⟨segment, hs, hc⟩ := List.mem_filterMap.mp h
  exact Component.cases_of_ofSegment? hc (Text.eq_false_of_mem_pieces hs)

/-! ### Normalising -/

/-- One more component, with the latest one first. Only a step up from the base can change it. -/
theorem NamesBehind.stepInto (h : NamesBehind base above.reverse)
    (hc : c = .current ∨ c = .parent ∨ ∃ name, c = .normal name ∧ IsName name) :
    NamesBehind base (stepInto above c).reverse ∨ c = .parent ∧ above = base.reverse := by
  obtain ⟨names, hcs, hnames⟩ := h
  obtain rfl : above = (names.map Component.normal).reverse ++ base.reverse := by
    rw [← List.reverse_append, ← hcs, List.reverse_reverse]
  rcases hc with rfl | rfl | ⟨name, rfl, hname⟩
  · exact .inl ⟨names, hcs, hnames⟩
  · rcases List.eq_nil_or_concat names with rfl | ⟨names, last, rfl⟩
    · exact .inr ⟨rfl, rfl⟩
    · refine .inl ⟨names, ?_, fun name hm => hnames name (by simp [hm])⟩
      simp [Path.stepInto]
  · refine .inl ⟨names ++ [name], ?_, ?_⟩
    · simp [Path.stepInto]
    · simpa [or_imp, forall_and] using ⟨hnames, hname⟩

theorem NamesBehind.foldl_root (h : NamesBehind [.root] above.reverse)
    (hcs : ∀ c ∈ cs, c = .current ∨ c = .parent ∨ ∃ name, c = .normal name ∧ IsName name) :
    NamesBehind [.root] (cs.foldl Path.stepInto above).reverse := by
  induction cs generalizing above with
  | nil => exact h
  | cons c cs ih =>
    obtain ⟨hc, hrest⟩ := List.forall_mem_cons.mp hcs
    refine ih ?_ hrest
    rcases h.stepInto hc with h | ⟨rfl, rfl⟩
    · exact h
    · exact ⟨[], rfl, by simp⟩

theorem NamesBehind.foldl_parent {n : Nat}
    (h : NamesBehind (List.replicate n .parent) above.reverse)
    (hcs : ∀ c ∈ cs, c = .current ∨ c = .parent ∨ ∃ name, c = .normal name ∧ IsName name) :
    ∃ n, NamesBehind (List.replicate n .parent) (cs.foldl Path.stepInto above).reverse := by
  induction cs generalizing above n with
  | nil => exact ⟨n, h⟩
  | cons c cs ih =>
    obtain ⟨hc, hrest⟩ := List.forall_mem_cons.mp hcs
    rcases h.stepInto hc with h | ⟨rfl, rfl⟩
    · exact ih h hrest
    · refine ih (n := n + 1) ⟨[], ?_, by simp⟩ hrest
      have hup : Path.stepInto (List.replicate n .parent).reverse .parent =
          List.replicate (n + 1) .parent := by
        rw [List.reverse_replicate]
        cases n <;> rfl
      rw [hup, List.reverse_replicate, List.map_nil, List.append_nil]

theorem namesBehind_root_normalComponents (h : isRooted path) :
    NamesBehind [.root] (normalComponents path) := by
  change NamesBehind [.root] ((components path).foldl Path.stepInto []).reverse
  rw [components, if_pos h, List.foldl_append]
  exact NamesBehind.foldl_root ⟨[], rfl, by simp⟩ fun c hc => .inr (cases_of_mem_segments hc)

theorem namesBehind_parent_normalComponents (h : isRooted path = false) :
    ∃ n, NamesBehind (List.replicate n .parent) (normalComponents path) := by
  change ∃ n, NamesBehind _ ((components path).foldl Path.stepInto []).reverse
  rw [components, if_neg (by simp [h]), List.foldl_append]
  refine NamesBehind.foldl_parent (n := 0) ⟨[], ?_, by simp⟩ fun c hc =>
    .inr (cases_of_mem_segments hc)
  split <;> rfl

theorem isNormal_normalComponents (path : Text) : IsNormal (normalComponents path) := by
  cases h : isRooted path with
  | true => exact .inl (namesBehind_root_normalComponents h)
  | false => exact .inr (namesBehind_parent_normalComponents h)

theorem foldl_stepInto_reverse (h : ∀ c ∈ cs, c ≠ .current ∧ c ≠ .parent)
    (above : List Component) : cs.foldl Path.stepInto above = cs.reverse ++ above := by
  induction cs generalizing above with
  | nil => rfl
  | cons c cs ih =>
    obtain ⟨⟨hc, hp⟩, hcs⟩ := List.forall_mem_cons.mp h
    have hstep : Path.stepInto above c = c :: above := by
      cases c <;> first | rfl | contradiction
    rw [List.foldl_cons, hstep, ih hcs, List.reverse_cons, List.append_assoc]
    rfl

theorem foldl_stepInto_names (names : List Text) (above : List Component) :
    (names.map Component.normal).foldl Path.stepInto above =
      (names.map Component.normal).reverse ++ above :=
  foldl_stepInto_reverse (by simp) above

theorem foldl_stepInto_replicate (n : Nat) :
    (List.replicate n Component.parent).foldl stepInto [] = List.replicate n .parent := by
  induction n with
  | zero => rfl
  | succ n ih =>
    rw [List.replicate_succ', List.foldl_append, ih, ← List.replicate_succ']
    cases n <;> rfl

theorem IsNormal.foldl_stepInto (h : IsNormal cs) : cs.foldl Path.stepInto [] = cs.reverse := by
  rcases h with ⟨names, rfl, -⟩ | ⟨n, names, rfl, -⟩
  · rw [List.foldl_append, foldl_stepInto_names, List.reverse_append]
    rfl
  · rw [List.foldl_append, foldl_stepInto_replicate, foldl_stepInto_names, List.reverse_append,
      List.reverse_replicate]

/-! ### Reading the text back -/

theorem head?_joinWith {parts : List Text} (h : ∀ s ∈ parts, s ≠ []) :
    (Text.joinWith ['/'] parts).head? = parts.head?.bind List.head? := by
  cases parts with
  | nil => rfl
  | cons s parts =>
    obtain ⟨c, t, rfl⟩ := List.exists_cons_of_ne_nil (h s List.mem_cons_self)
    cases parts <;> rfl

theorem startsAtCurrent_joinWith {parts : List Text} (h : ∀ s ∈ parts, s ≠ [])
    (hs : ∀ s ∈ parts, ∀ c ∈ s, isSeparator c = false) (hd : parts.head? ≠ some ['.']) :
    startsAtCurrent (Text.joinWith ['/'] parts) = false := by
  cases parts with
  | nil => rfl
  | cons s parts =>
    have hne : s ≠ ['.'] := fun he => hd (congrArg some he)
    have hsep := hs s List.mem_cons_self
    obtain ⟨c, t, rfl⟩ := List.exists_cons_of_ne_nil (h s List.mem_cons_self)
    unfold startsAtCurrent
    cases t with
    | nil =>
      have hc : c ≠ '.' := fun hc => hne (by rw [hc])
      cases parts <;> simp [Text.joinWith, hc]
    | cons a t =>
      have ha : a ≠ '/' := by simpa [isSeparator] using hsep a (by simp)
      cases parts <;> simp [Text.joinWith, ha]

theorem isRooted_joinWith {parts : List Text} (h : ∀ s ∈ parts, s ≠ [])
    (hs : ∀ s ∈ parts, ∀ c ∈ s, isSeparator c = false) :
    isRooted (Text.joinWith ['/'] parts) = false := by
  rw [isRooted, head?_joinWith h, decide_eq_false_iff_not]
  intro he
  obtain ⟨s, hm, hc⟩ := Option.bind_eq_some_iff.mp he
  exact absurd (hs s (List.mem_of_head? hm) '/' (List.mem_of_head? hc)) (by decide)

theorem components_joinWith {parts : List Text} (h : ∀ s ∈ parts, s ≠ [])
    (hs : ∀ s ∈ parts, ∀ c ∈ s, isSeparator c = false) (hd : parts.head? ≠ some ['.']) :
    components (Text.joinWith ['/'] parts) = parts.filterMap Component.ofSegment? := by
  rw [components, isRooted_joinWith h hs, startsAtCurrent_joinWith h hs hd]
  cases parts with
  | nil => rfl
  | cons s parts =>
    rw [segments, Text.pieces_joinWith rfl hs (List.cons_ne_nil s parts)]
    rfl

theorem components_rooted (h : ∀ name ∈ names, IsName name) :
    components ('/' :: Text.joinWith ['/'] names) = .root :: names.map .normal := by
  have hsegments : (segments ('/' :: Text.joinWith ['/'] names)).filterMap Component.ofSegment? =
      (segments (Text.joinWith ['/'] names)).filterMap Component.ofSegment? := rfl
  rw [components, hsegments]
  cases names with
  | nil => rfl
  | cons s names =>
    rw [segments, Text.pieces_joinWith rfl (fun s hm => (h s hm).no_separator)
      (List.cons_ne_nil s names)]
    refine congrArg (Component.root :: ·) ?_
    rw [← List.filterMap_eq_map]
    exact List.filterMap_congr fun name hm => Component.ofSegment?_of_isName (h name hm)

theorem ofComponents_rooted (names : List Text) :
    ofComponents ([.root] ++ names.map .normal) = '/' :: Text.joinWith ['/'] names := by
  simp [ofComponents, Component.text, Function.comp_def]

theorem ofComponents_relative (n : Nat) (names : List Text) :
    ofComponents (List.replicate n .parent ++ names.map .normal) =
      Text.joinWith ['/'] (List.replicate n ['.', '.'] ++ names) := by
  have hmap : (List.replicate n Component.parent ++
      names.map Component.normal).map Component.text = List.replicate n ['.', '.'] ++ names := by
    simp [Component.text, Function.comp_def]
  rw [← hmap]
  unfold ofComponents
  split
  · rename_i heq
    rw [heq]
    rfl
  · rename_i heq
    cases n <;> cases names <;> simp [List.replicate_succ] at heq
  · rfl

theorem cases_of_mem_replicate_append {names : List Text} (h : ∀ name ∈ names, IsName name)
    (n : Nat) : ∀ s ∈ List.replicate n ['.', '.'] ++ names, s = ['.', '.'] ∨ IsName s := by
  intro s hs
  rcases List.mem_append.mp hs with hs | hs
  · exact .inl (List.eq_of_mem_replicate hs)
  · exact .inr (h s hs)

theorem components_relative {names : List Text} (h : ∀ name ∈ names, IsName name) (n : Nat) :
    components (Text.joinWith ['/'] (List.replicate n ['.', '.'] ++ names)) =
      List.replicate n .parent ++ names.map .normal := by
  have hparts := cases_of_mem_replicate_append h n
  rw [components_joinWith]
  · rw [List.filterMap_append, List.filterMap_replicate, ← List.filterMap_eq_map]
    congr 1
    exact List.filterMap_congr fun name hm => Component.ofSegment?_of_isName (h name hm)
  · intro s hs
    rcases hparts s hs with rfl | hname
    · simp
    · exact hname.ne_nil
  · intro s hs
    rcases hparts s hs with rfl | hname
    · simp [isSeparator]
    · exact hname.no_separator
  · intro he
    rcases hparts ['.'] (List.mem_of_head? he) with h | h
    · simp at h
    · exact h.ne_current rfl

theorem components_ofComponents (h : IsNormal cs) : components (ofComponents cs) = cs := by
  rcases h with ⟨names, rfl, hnames⟩ | ⟨n, names, rfl, hnames⟩
  · rw [ofComponents_rooted, components_rooted hnames]
    rfl
  · rw [ofComponents_relative, components_relative hnames]

theorem components_normalize (path : Text) : components (normalize path) = normalComponents path :=
  components_ofComponents (isNormal_normalComponents path)

end SettingsScan.Path
