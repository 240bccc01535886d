import SettingsScan.Proofs.Path.Absolute

/-! # The directory of a path

The folder that settings are recorded for is what a slash separates from the last component. A path
with a drive and one that starts with a backslash have separators of both kinds, so their directory
is another one than that folder.
-/

namespace SettingsScan.Path

/-- An absolute path as its own convention reads it: the text of its root, and the components from
there. -/
structure Location where
  root : Text
  components : List Component
  deriving DecidableEq, Repr

def isEitherSeparator (c : Char) : Bool := c = '\\' || c = '/'

/-- The components of the segments behind a root, without steps up. -/
def belowRoot (segments : List Text) : List Component :=
  ((segments.filterMap Component.ofSegment?).foldl stepInto [.root]).reverse

/-- The location of an absolute path. The root of a shared directory has the names of the server
and the share. -/
def location (path : Text) : Location :=
  if isRooted path then { root := ['/'], components := belowRoot (segments path) }
  else if hasDrive path then
    { root := path.take 2
      components := belowRoot (Text.pieces isEitherSeparator (path.drop 2)) }
  else
    match Text.pieces isEitherSeparator path with
    | [] :: [] :: server :: share :: names =>
      { root := '\\' :: '\\' :: server ++ '\\' :: share, components := belowRoot names }
    | names => { root := ['\\'], components := belowRoot names }

def above? (cs : List Component) : Option (List Component) :=
  if cs = [] ∨ cs = [.root] then none else some cs.dropLast

def directory? (path : Text) : Option Location :=
  (above? (location path).components).map fun cs => { location path with components := cs }

/-- The directory that slashes alone tell. -/
def slashDirectory? (path : Text) : Option (List Component) :=
  above? (normalComponents path)

variable {path path' segment name : Text} {parts names : List Text} {base cs above : List Component}
  {c : Component} {d d' : Location}

/-! ### The parent of a normalised path -/

theorem dropIdle_eq_self (h : ∀ s ∈ parts, (Component.ofSegment? s).isSome) :
    dropIdle parts = parts := by
  rw [dropIdle, List.dropWhile_eq_self_iff]
  intro hl
  simpa [Option.isSome_iff_ne_none] using h _ (List.getElem_mem hl)

theorem dropIdle_segments (h : ∀ s ∈ parts ++ [segment], (Component.ofSegment? s).isSome)
    (hs : ∀ s ∈ parts ++ [segment], ∀ c ∈ s, isSeparator c = false) :
    dropIdle (segments (Text.joinWith ['/'] (parts ++ [segment]))).reverse =
      segment :: parts.reverse ∧ dropIdle parts.reverse = parts.reverse := by
  constructor
  · rw [segments, Text.pieces_joinWith rfl hs (by simp), dropIdle_eq_self]
    · simp
    · simpa [or_comm] using h
  · apply dropIdle_eq_self
    intro s hm
    exact h s (List.mem_append_left _ (List.mem_reverse.mp hm))

theorem IsName.isSome_ofSegment? (h : IsName name) : (Component.ofSegment? name).isSome := by
  rw [Component.ofSegment?_of_isName h]
  rfl

theorem parent?_rooted (h : ∀ s ∈ names ++ [name], IsName s) :
    parent? ('/' :: Text.joinWith ['/'] (names ++ [name])) =
      some ('/' :: Text.joinWith ['/'] names) := by
  obtain ⟨hlast, habove⟩ := dropIdle_segments (fun s hs => (h s hs).isSome_ofSegment?)
    fun s hs => (h s hs).no_separator
  simp only [parent?, isRooted, List.head?_cons, decide_true, if_true, List.drop_one,
    List.tail_cons, hlast, habove, List.reverse_reverse, List.singleton_append]

theorem parent?_joinWith (h : ∀ s ∈ parts ++ [segment], s = ['.', '.'] ∨ IsName s) :
    parent? (Text.joinWith ['/'] (parts ++ [segment])) = some (Text.joinWith ['/'] parts) := by
  have hparts : ∀ s ∈ parts ++ [segment], (Component.ofSegment? s).isSome ∧
      (∀ c ∈ s, isSeparator c = false) ∧ s ≠ [] ∧ s ≠ ['.'] := by
    intro s hs
    rcases h s hs with rfl | hname
    · exact ⟨rfl, by simp [isSeparator], by simp, by simp⟩
    · exact ⟨hname.isSome_ofSegment?, hname.no_separator, hname.ne_nil, hname.ne_current⟩
  have hsep : ∀ s ∈ parts ++ [segment], ∀ c ∈ s, isSeparator c = false := fun s hs =>
    (hparts s hs).2.1
  have hne : ∀ s ∈ parts ++ [segment], s ≠ [] := fun s hs => (hparts s hs).2.2.1
  have hcurrent : (parts ++ [segment]).head? ≠ some ['.'] := fun he =>
    (hparts ['.'] (List.mem_of_head? he)).2.2.2 rfl
  obtain ⟨hlast, habove⟩ := dropIdle_segments (fun s hs => (hparts s hs).1) hsep
  simp only [parent?, isRooted_joinWith hne hsep, startsAtCurrent_joinWith hne hsep hcurrent,
    Bool.false_eq_true, if_false, hlast, habove, List.reverse_reverse, List.nil_append]

theorem above?_concat (h : cs ≠ [] ∨ c ≠ .root) : above? (cs ++ [c]) = some cs := by
  rw [above?, if_neg, List.dropLast_concat]
  cases cs <;> simp_all

theorem above?_names (base : List Component) (names : List Text) (name : Text) :
    above? (base ++ (names ++ [name]).map .normal) = some (base ++ names.map .normal) := by
  rw [List.map_append, ← List.append_assoc, List.map_singleton, above?_concat (.inr (by simp))]

theorem exists_eq_concat_of_above? (h : above? cs = some above) : ∃ c, cs = above ++ [c] := by
  unfold above? at h
  split at h
  · cases h
  · rename_i hn
    cases h
    exact ⟨cs.getLast fun he => hn (.inl he), (List.dropLast_append_getLast _).symm⟩

theorem IsNormal.parent?_ofComponents (h : IsNormal cs) (ha : above? cs = some above) :
    IsNormal above ∧ parent? (ofComponents cs) = some (ofComponents above) := by
  rcases h with ⟨names, rfl, hnames⟩ | ⟨n, names, rfl, hnames⟩
  · rcases List.eq_nil_or_concat' names with rfl | ⟨names, name, rfl⟩
    · cases ha
    · cases (above?_names [.root] names name).symm.trans ha
      refine ⟨.inl ⟨names, rfl, fun s hs => hnames s (List.mem_append_left _ hs)⟩, ?_⟩
      rw [ofComponents_rooted, ofComponents_rooted, parent?_rooted hnames]
  · rcases List.eq_nil_or_concat' names with rfl | ⟨names, name, rfl⟩
    · -- the last component is a step up
      cases n with
      | zero => cases ha
      | succ n =>
        rw [List.map_nil, List.append_nil, List.replicate_succ'] at ha ⊢
        rw [above?_concat (.inr (by simp))] at ha
        cases ha
        have hup := ofComponents_relative (n + 1) []
        have habove := ofComponents_relative n []
        have hparts := cases_of_mem_replicate_append (List.forall_mem_nil _) (n + 1)
        simp only [List.map_nil, List.append_nil, List.replicate_succ'] at hup habove hparts
        refine ⟨.inr ⟨n, [], (List.append_nil _).symm, List.forall_mem_nil _⟩, ?_⟩
        rw [hup, habove, parent?_joinWith hparts]
    · have hparts := cases_of_mem_replicate_append hnames n
      cases (above?_names (List.replicate n .parent) names name).symm.trans ha
      refine ⟨.inr ⟨n, names, rfl, fun s hs => hnames s (List.mem_append_left _ hs)⟩, ?_⟩
      rw [← List.append_assoc] at hparts
      rw [ofComponents_relative, ofComponents_relative, ← List.append_assoc,
        parent?_joinWith hparts]

/-- The parent of a normalised path is the directory that slashes tell. -/
theorem parent?_normalize (path : Text) :
    parent? (normalize path) = (slashDirectory? path).map ofComponents := by
  rw [normalize, slashDirectory?]
  cases ha : above? (normalComponents path) with
  | none =>
    have hcs : normalComponents path = [] ∨ normalComponents path = [.root] := by
      by_contra hn
      rw [above?, if_neg hn] at ha
      cases ha
    rcases hcs with hcs | hcs <;> rw [hcs] <;> rfl
  | some above => exact ((isNormal_normalComponents path).parent?_ofComponents ha).2

theorem isNormal_slashDirectory (h : slashDirectory? path = some above) : IsNormal above :=
  ((isNormal_normalComponents path).parent?_ofComponents h).1

/-! ### Directories of rooted paths -/

theorem location_of_isRooted (h : isRooted path) :
    location path = { root := ['/'], components := normalComponents path } := by
  rw [location, if_pos h, normalComponents, components, if_pos h]
  rfl

theorem directory?_of_isRooted (h : isRooted path) :
    directory? path =
      (slashDirectory? path).map fun cs => { root := ['/'], components := cs } := by
  rw [directory?, location_of_isRooted h]
  rfl

theorem root_mem_slashDirectory (h : isRooted path) (ha : slashDirectory? path = some above) :
    .root ∈ above := by
  obtain ⟨names, hcs, -⟩ := namesBehind_root_normalComponents h
  rw [slashDirectory?, hcs] at ha
  rcases List.eq_nil_or_concat' names with rfl | ⟨names, name, rfl⟩
  · cases ha
  · cases (above?_names [.root] names name).symm.trans ha
    simp

theorem root_notMem_normalComponents (h : isRooted path = false) :
    .root ∉ normalComponents path := by
  obtain ⟨n, names, hcs, -⟩ := namesBehind_parent_normalComponents h
  simp [hcs]

theorem root_location_ne (h : isRooted path = false) (ha : isAbsolute path) :
    (location path).root ≠ ['/'] := by
  rw [location, if_neg (by simp [h])]
  split
  · rename_i hdrive
    match path with
    | [] => cases hdrive
    | [a] => cases hdrive
    | a :: b :: rest => simp
  · split <;> simp

/-- A rooted path shares its slash directory with the paths in the same directory only. -/
theorem slashDirectory?_eq_iff (h : isRooted path) (ha : isAbsolute path')
    (hd : directory? path = some d) (hd' : directory? path' = some d') :
    slashDirectory? path = slashDirectory? path' ↔ d = d' := by
  rw [directory?_of_isRooted h] at hd
  obtain ⟨above, hs, rfl⟩ := Option.map_eq_some_iff.mp hd
  rw [hs]
  cases h' : isRooted path' with
  | true =>
    rw [directory?_of_isRooted h'] at hd'
    obtain ⟨above', hs', rfl⟩ := Option.map_eq_some_iff.mp hd'
    simp [hs']
  | false =>
    -- one directory is below the root, and the other is not
    refine iff_of_false (fun he => ?_) fun he => ?_
    · obtain ⟨c, hc⟩ := exists_eq_concat_of_above? he.symm
      exact root_notMem_normalComponents h' (by simp [hc, root_mem_slashDirectory h hs])
    · apply root_location_ne h' ha
      obtain ⟨above', -, rfl⟩ := Option.map_eq_some_iff.mp hd'
      exact (congrArg Location.root he).symm

/-! ### Paths that slashes do not tell apart -/

theorem filterMap_segments_ofComponents {n : Nat}
    (h : NamesBehind (List.replicate n .parent) cs) :
    (segments (ofComponents cs)).filterMap Component.ofSegment? = cs := by
  have hcs := components_ofComponents (.inr ⟨n, h⟩)
  obtain ⟨names, hnames, -⟩ := h
  rw [components] at hcs
  split at hcs
  · have hmem : Component.root ∈ cs := hcs ▸ List.mem_cons_self
    simp [hnames] at hmem
  · split at hcs
    · have hmem : Component.current ∈ cs := hcs ▸ List.mem_cons_self
      simp [hnames] at hmem
    · exact hcs

/-- A file on a drive, in a directory with a name of one character. Read with slashes only, the
drive is taken back, and the directory belongs to the name of the file. -/
def onDrive (above : List Component) (c : Char) : Text :=
  'Q' :: ':' :: '/' :: '.' :: '.' :: '/' :: ofComponents above ++ '/' :: c :: '\\' :: ['y']

theorem normalComponents_onDrive {n : Nat} (h : NamesBehind (List.replicate n .parent) above)
    {c : Char} (hc : isSeparator c = false) :
    normalComponents (onDrive above c) = above ++ [.normal [c, '\\', 'y']] := by
  have hlast : ∀ a ∈ [c, '\\', 'y'], isSeparator a = false := by
    simpa [isSeparator] using hc
  have hsegments : segments (onDrive above c) =
      "Q:".toList :: "..".toList :: segments (ofComponents above) ++ [[c, '\\', 'y']] := by
    rw [segments, onDrive, Text.pieces_append_cons (p := isSeparator) (c := '/') rfl,
      Text.pieces_eq_singleton hlast]
    rfl
  have hcomponents : components (onDrive above c) =
      (segments (onDrive above c)).filterMap Component.ofSegment? := rfl
  rw [normalComponents, hcomponents, hsegments, List.filterMap_append, List.foldl_append]
  have hfold : (("Q:".toList :: "..".toList :: segments (ofComponents above)).filterMap
      Component.ofSegment?).foldl stepInto [] = above.reverse := by
    rw [← IsNormal.foldl_stepInto (.inr ⟨n, h⟩)]
    nth_rewrite 2 [← filterMap_segments_ofComponents h]
    rfl
  rw [hfold]
  simp [Component.ofSegment?, stepInto]

theorem belowRoot_concat (segments : List Text) (h : IsName name) :
    belowRoot (segments ++ [name]) = belowRoot segments ++ [.normal name] := by
  have hlast : [name].filterMap Component.ofSegment? = [.normal name] := by
    rw [List.filterMap_cons_some (Component.ofSegment?_of_isName h), List.filterMap_nil]
  rw [belowRoot, List.filterMap_append, List.foldl_append, hlast]
  exact List.reverse_cons

theorem directory?_onDrive (above : List Component) {c : Char} (hc : isEitherSeparator c = false)
    (hdot : c ≠ '.') :
    directory? (onDrive above c) = some
      { root := "Q:".toList
        components := belowRoot (Text.pieces isEitherSeparator
          ("/..".toList ++ '/' :: ofComponents above)) ++ [.normal [c]] } := by
  have hfolder : IsName [c] := by
    simp only [isEitherSeparator, Bool.or_eq_false_iff, decide_eq_false_iff_not] at hc
    exact ⟨by simp, by simpa using hdot, by simp, by simpa [isSeparator] using hc.2⟩
  have hfile : IsName ['y'] := ⟨by simp, by simp, by simp, by simp [isSeparator]⟩
  have hpieces : Text.pieces isEitherSeparator ((onDrive above c).drop 2) =
      Text.pieces isEitherSeparator ("/..".toList ++ '/' :: ofComponents above) ++
        [[c]] ++ [['y']] := by
    have hnames : Text.pieces isEitherSeparator (c :: '\\' :: ['y']) = [[c]] ++ [['y']] := by
      rw [← List.singleton_append, Text.pieces_append_cons rfl,
        Text.pieces_eq_singleton (by simpa using hc)]
      rfl
    rw [List.append_assoc, ← hnames,
      ← Text.pieces_append_cons (p := isEitherSeparator) (c := '/') rfl]
    rfl
  have hlocation : location (onDrive above c) =
      { root := "Q:".toList
        components := belowRoot (Text.pieces isEitherSeparator
          ("/..".toList ++ '/' :: ofComponents above)) ++ [.normal [c]] ++ [.normal ['y']] } := by
    rw [← belowRoot_concat _ hfolder, ← belowRoot_concat _ hfile, ← hpieces]
    rfl
  rw [directory?, hlocation, above?_concat (.inl (by simp))]
  rfl

/-- Beside every path without a root there is one that slashes put into the same directory, but
that is in another one. -/
theorem exists_slashDirectory?_eq (h : isRooted path = false)
    (ha : slashDirectory? path = some above) (d : Location) :
    ∃ path' d', isAbsolute path' ∧ slashDirectory? path' = some above ∧
      directory? path' = some d' ∧ d' ≠ d := by
  obtain ⟨n, hnames⟩ : ∃ n, NamesBehind (List.replicate n .parent) above := by
    rcases isNormal_slashDirectory ha with ⟨names, rfl, -⟩ | hnames
    · obtain ⟨c, hc⟩ := exists_eq_concat_of_above? ha
      exact absurd (hc ▸ by simp) (root_notMem_normalComponents h)
    · exact hnames
  have hslash : ∀ c, isSeparator c = false → slashDirectory? (onDrive above c) = some above := by
    intro c hc
    rw [slashDirectory?, normalComponents_onDrive hnames hc, above?_concat (.inr (by simp))]
  -- of two directories with different names, one is not the given directory
  by_cases hp : directory? (onDrive above 'p') = some d
  · refine ⟨onDrive above 'q', _, rfl, hslash 'q' rfl,
      directory?_onDrive above (c := 'q') rfl (by decide), fun he => ?_⟩
    rw [directory?_onDrive above (c := 'p') rfl (by decide), ← he] at hp
    simp at hp
  · have hd := directory?_onDrive above (c := 'p') rfl (by decide)
    exact ⟨onDrive above 'p', _, rfl, hslash 'p' rfl, hd, fun he => hp (he ▸ hd)⟩

end SettingsScan.Path
