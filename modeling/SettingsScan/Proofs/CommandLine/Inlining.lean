import SettingsScan.Proofs.CommandLine.RoundTrip
import SettingsScan.Proofs.Option.Seam

/-! # A response file stands for its text

Plain words and what stands behind them are read one after the other. Reading a reference gives
what reading the text of the file in its place gives, and the file is asked for. The text has to
be made of plain words, and no option at its end may wait for an operand behind it.
-/

namespace SettingsScan

open Pattern (BeforeSeam AfterSeam Hint)
open Spelling

/-- A text that may stand in the place of a reference: plain words between blank characters of
ASCII. The last one is no option with its operand in the next word. -/
structure Inlinable (d : Dialect) (t : Text) : Prop where
  chars : ∀ c ∈ t, isAsciiBlank c ∨ isPlain c
  last : ∀ w ∈ t.words.getLast?, w ∉ d.detached

namespace Parsed

theorem append_assoc (p q r : Parsed) : p ++ q ++ r = p ++ (q ++ r) := by
  obtain ⟨⟨settings, arguments⟩, requested⟩ := p
  change Parsed.mk ⟨_ ++ _ ++ _, _ ++ _ ++ _⟩ (_ ++ _ ++ _) = Parsed.mk ⟨_, _⟩ _
  simp only [List.append_assoc]
  rfl

end Parsed

variable {d : Dialect} {t u gap taken rest tail : Text}

theorem Dialect.word_of_mem_detached {w : Text} (h : w ∈ d.detached) :
    w ≠ [] ∧ ∀ c ∈ w, isBlank c = false := by
  have hall : ∀ w ∈ d.detached, w ≠ [] ∧ w.all (!isBlank ·) := by
    cases d <;> decide
  obtain ⟨hn, hb⟩ := hall w h
  exact ⟨hn, fun c hc => by simpa using List.all_eq_true.mp hb c hc⟩

namespace Inlinable

theorem beforeSeam (h : Inlinable d t) : BeforeSeam d.detached t := by
  refine ⟨h.chars, ?_⟩
  rintro w hw gap hg rfl
  obtain ⟨hn, hb⟩ := Dialect.word_of_mem_detached hw
  refine h.last w ?_ hw
  rw [Text.words_word_gap hn hb hg]
  rfl

theorem of_gap (h : Inlinable d (gap ++ t)) (hg : gap.all isBlank) : Inlinable d t := by
  refine ⟨fun c hc => h.chars c (List.mem_append_right gap hc), ?_⟩
  have hl := h.last
  rwa [Text.words_gap hg] at hl

theorem of_edge (h : Inlinable d (taken ++ rest)) (he : Text.EdgeBetween taken rest) :
    Inlinable d rest := by
  refine ⟨fun c hc => h.chars c (List.mem_append_right taken hc), fun w hw => h.last w ?_⟩
  rw [he.words_append, List.getLast?_append, Option.mem_def.mp hw]
  rfl

end Inlinable

namespace ArgumentReader

variable {responseFiles : Bool} {directory : Text} {expand expand' : Text → Parsed}

theorem takeText_append (ht : Inlinable d t) (htail : AfterSeam tail) :
    takeText d responseFiles directory expand (t ++ tail) =
      takeText d responseFiles directory expand t ++
        takeText d responseFiles directory expand tail := by
  induction t using argumentInduction d responseFiles directory expand with
  | gap hg =>
    rw [takeText_gap_append hg, takeText_gap hg, Parsed.empty_append]
  | @next gap u hg hn hb ih =>
    rw [List.append_assoc, takeText_gap_append hg, takeText_gap_append hg]
    have hu := ht.of_gap hg
    have hb' : (u ++ tail).head?.any isBlank = false := by
      obtain ⟨c, u, rfl⟩ := List.exists_cons_of_ne_nil hn
      exact hb
    have hcuts := takeOne_cuts d responseFiles directory expand hn hb
    have hseam := takeOne_sealed hu.beforeSeam htail hn responseFiles directory expand
    rw [takeText_next d responseFiles directory expand hn hb,
      takeText_next d responseFiles directory expand (by simp [hn]) hb', hseam.parsed]
    have hrest := hseam.rest
    generalize takeOne d.rules responseFiles directory expand u = segment at *
    generalize takeOne d.rules responseFiles directory expand (u ++ tail) = segment' at *
    rcases hrest with hrest | ⟨hrest, b, hblank, hcons⟩
    · rw [← hcuts.append_eq] at hu
      rw [hrest, ih (hu.of_edge hcuts.edge), Parsed.append_assoc]
    · -- the blank behind the seam has been taken along with the last argument
      have hgap : [b].all isBlank := by simpa using isBlank_of_isAsciiBlank hblank
      have hnil : takeText d responseFiles directory expand segment.rest = {} := by
        rw [hrest]
        rfl
      rw [hnil, Parsed.append_empty, hcons, ← List.singleton_append, takeText_gap_append hgap]

/-- Reading plain words and any text behind them gives what the words give, and then what the text
gives. What contributes no setting, be it unknown or a file that can not be read, changes nothing
of what stands around it. -/
theorem read_append {reader : ArgumentReader} {a : Text} (ha : Inlinable reader.family.dialect a)
    (directory : Text) (contents : Contents) (b : Text) :
    reader.read directory (a ++ ' ' :: b) contents =
        reader.read directory a contents ++ reader.read directory b contents ∧
      ∀ w, Inlinable reader.family.dialect w → (reader.read directory w contents).findings = {} →
        (reader.read directory (a ++ ' ' :: (w ++ ' ' :: b)) contents).findings =
          (reader.read directory (a ++ ' ' :: b) contents).findings := by
  have happend {t : Text} (ht : Inlinable reader.family.dialect t) (tail : Text) :
      reader.read directory (t ++ ' ' :: tail) contents =
        reader.read directory t contents ++ reader.read directory tail contents := by
    have hafter : AfterSeam (' ' :: tail) := by
      rintro c ⟨⟩
      rfl
    simp only [read, readWith_eq]
    rw [takeText_append ht hafter, ← List.singleton_append,
      takeText_gap_append (show [' '].all isBlank from rfl)]
  refine ⟨happend ha b, fun w hw hnone => ?_⟩
  rw [happend ha, happend hw, happend ha, Parsed.findings_append, Parsed.findings_append, hnone,
    Parsed.findings_append]
  rfl

theorem read_append_unreadable :
    let reader : ArgumentReader := { family := .nvcc }
    let a : Text := "-I inc --std=c++17".toList
    let w : Text := "@missing".toList
    let b : Text := "\"-DX -D MSG=\"a b\"".toList
    let contents : Contents := fun _ => none
    Inlinable .nvcc a ∧ Inlinable .nvcc w ∧
      reader.read "/p".toList (a ++ ' ' :: b) contents =
        reader.read "/p".toList a contents ++ reader.read "/p".toList b contents ∧
      (reader.read "/p".toList (a ++ ' ' :: (w ++ ' ' :: b)) contents).findings =
        (reader.read "/p".toList (a ++ ' ' :: b) contents).findings := by
  intro reader a w b contents
  have hplain {t : Text} (hc : t.all fun c => isAsciiBlank c || isPlain c)
      (hl : ∀ w ∈ t.words.getLast?, w ∉ Dialect.nvcc.detached) : Inlinable .nvcc t :=
    ⟨fun c hm => Bool.or_eq_true_iff.mp (List.all_eq_true.mp hc c hm), hl⟩
  have ha : Inlinable .nvcc a := hplain (by decide) (by decide)
  have hw : Inlinable .nvcc w := hplain (by decide) (by decide)
  have h := @read_append reader a ha "/p".toList contents b
  exact ⟨ha, hw, h.1, h.2 w hw (by decide +kernel)⟩

/-! ### Referenced files -/

theorem takeOne_expand (rules : List OptionRule) (responseFiles : Bool) (directory text : Text) :
    ∃ (findings : Findings) (reference : Option Text) (taken rest : Text), ∀ expand,
      takeOne rules responseFiles directory expand text =
        { parsed := (reference.map expand).getD { findings }, taken, rest } := by
  unfold takeOne
  cases rules.findSome? (·.take? directory text) with
  | some found => exact ⟨found.findings, none, found.taken, found.rest, fun _ => rfl⟩
  | none =>
    dsimp only
    cases (if responseFiles then ResponseFile.recognize? ResponseFile.atSign directory text
      else none) with
    | none => exact ⟨{}, none, _, _, fun _ => rfl⟩
    | some reference =>
      obtain ⟨target, taken, rest⟩ := reference
      cases target with
      | inline => exact ⟨{}, none, taken, rest, fun _ => rfl⟩
      | file path => exact ⟨{}, some path, taken, rest, fun _ => rfl⟩

/-- A relation that adds up holds of two readings of a text if it holds of what its files contribute
to them. -/
theorem takeText_rel {R : Parsed → Parsed → Prop} (hrefl : ∀ p, R p p)
    (happend : ∀ {p p' q q'}, R p q → R p' q' → R (p ++ p') (q ++ q'))
    (h : ∀ path ∈
      (takeText d responseFiles directory (fun path => { requested := [path] }) t).requested,
      R (expand path) (expand' path)) :
    R (takeText d responseFiles directory expand t)
      (takeText d responseFiles directory expand' t) := by
  induction t using argumentInduction d responseFiles directory expand with
  | gap hg =>
    rw [takeText_gap hg, takeText_gap hg]
    exact hrefl _
  | @next gap u hg hn hb ih =>
    obtain ⟨findings, reference, taken, rest, hone⟩ :=
      takeOne_expand d.rules responseFiles directory u
    have hnext (expand : Text → Parsed) : takeText d responseFiles directory expand (gap ++ u) =
        (reference.map expand).getD { findings } ++
          takeText d responseFiles directory expand rest := by
      rw [takeText_gap_next hg hn hb, hone]
    rw [hone] at ih
    rw [hnext, Parsed.requested_append] at h
    rw [hnext, hnext]
    refine happend ?_ (ih fun path hpath => h path (List.mem_append_right _ hpath))
    cases reference with
    | none => exact hrefl _
    | some path => exact h path (by simp)

def references (d : Dialect) (directory text : Text) : List Text :=
  (takeText d true directory (fun path => { requested := [path] }) text).requested

theorem takeText_congr (h : ∀ path ∈ references d directory t, expand path = expand' path) :
    takeText d true directory expand t = takeText d true directory expand' t :=
  takeText_rel (fun _ => rfl) (fun hp hq => congrArg₂ (· ++ ·) hp hq) h

/-- The file of the first path has a text that refers to the second one. -/
def Refers (d : Dialect) (directory : Text) (contents : Contents) (path path' : Text) : Prop :=
  ∃ text, ResponseFile.load contents path = some text ∧ path' ∈ references d directory text

variable {contents : Contents} {path : Text}

/-- More levels than there are files in a chain of references change nothing. -/
theorem expandAt_eq {levels levels' : Nat} (hl : levels ≤ levels')
    (h : ∀ more, List.IsChain (Refers d directory contents) (path :: more) →
      (path :: more).length ≤ levels) :
    expandAt d true directory contents levels path =
      expandAt d true directory contents levels' path := by
  induction levels generalizing levels' path with
  | zero => exact absurd (h [] (.singleton path)) (by simp)
  | succ n ih =>
    obtain ⟨m, rfl⟩ := Nat.exists_eq_add_one_of_ne_zero (show levels' ≠ 0 by omega)
    rw [expandAt, expandAt]
    cases hload : ResponseFile.load contents path with
    | none => rfl
    | some text =>
      dsimp only
      rw [readWith_eq, readWith_eq, takeText_congr fun path' hpath => ?_]
      refine ih (by omega) fun more hmore => ?_
      have := h (path' :: more) (.cons_cons ⟨text, hload, hpath⟩ hmore)
      simpa using this

end ArgumentReader

/-! ### A reference in place of the text -/

namespace ResponseFile

/-- A name that can be written in a reference, and that is not the one of the command line. -/
structure Nameable (name : Text) : Prop where
  ne_nil : name ≠ []
  ne_inlineName : name ≠ inlineName
  chars : ∀ c ∈ name, isAsciiBlank c = false ∧ ¬Quote c

def spellings (name : Text) : List Text :=
  [name, '"' :: (name ++ ['"']), '\'' :: (name ++ ['\''])].map ('@' :: ·)

variable {name ref : Text}

theorem map_reading_of_mem_spellings (h0 : name ≠ [])
    (hname : ∀ c ∈ name, isAsciiBlank c = false ∧ ¬Quote c) (href : ref ∈ spellings name)
    (ht : atEnd tail) :
    ∃ rest, (atSign.findSome? (·.lookingAt (ref ++ tail))).map OptionMatch.reading =
        some (name, none, rest) ∧ (rest = tail ∨ rest = tail.drop 1) := by
  have hhead {quote : Char} (hq : Quote quote) : name.head? ≠ some quote := fun he =>
    (hname quote (List.mem_of_head? he)).2 hq
  have hquoted {quote : Char} (hq : Quote quote) :
      (atSign.findSome? (·.lookingAt ('@' :: quote :: (name ++ quote :: tail)))).map
        OptionMatch.reading = some (name, none, tail.drop 1) := by
    have hread := map_reading_reference '@' (quote :: (name ++ quote :: tail)) hq.ne.2.2
    rwa [readPath_quoted hq (fun hm => (hname quote hm).2 hq) ht] at hread
  simp only [spellings, List.map_cons, List.map_nil, List.mem_cons, List.not_mem_nil,
    or_false] at href
  rcases href with rfl | rfl | rfl
  · obtain ⟨c, r, hc⟩ := List.exists_cons_of_ne_nil h0
    have hb : (name ++ tail).head?.any isAsciiBlank = false := by
      rw [hc]
      exact (hname c (by simp [hc])).1
    have hread := map_reading_reference '@' (name ++ tail) hb
    rw [readPath_plain h0 (fun c hc => (hname c hc).1) (hhead (.inl rfl)) (hhead (.inr rfl))
      ht] at hread
    exact ⟨tail, hread, .inl rfl⟩
  · refine ⟨tail.drop 1, ?_, .inr rfl⟩
    simpa only [List.cons_append, List.append_assoc, List.nil_append] using hquoted (.inl rfl)
  · refine ⟨tail.drop 1, ?_, .inr rfl⟩
    simpa only [List.cons_append, List.append_assoc, List.nil_append] using hquoted (.inr rfl)

theorem exists_cons_of_mem_spellings (h : ref ∈ spellings name) : ∃ r, ref = '@' :: r := by
  obtain ⟨r, -, rfl⟩ := List.mem_map.mp h
  exact ⟨r, rfl⟩

end ResponseFile

theorem Dialect.forms_of_reference (d : Dialect) :
    d.forms.filter (·.2.mayTake [Hint.exactly '@']) = [] := by
  cases d <;> decide +kernel

namespace ArgumentReader

open ResponseFile

variable {directory name ref : Text} {contents : Contents} {expand : Text → Parsed}

theorem findSome?_rules_of_reference (d : Dialect) (directory r : Text) :
    d.rules.findSome? (·.take? directory ('@' :: r)) = none := by
  refine (findSome?_rules_of_forms (r := r) (Hint.fits_exactly_map ['@'])).trans ?_
  rw [List.map_cons, List.map_nil, d.forms_of_reference]
  rfl

theorem takeText_spelling (h0 : name ≠ []) (hname : ∀ c ∈ name, isAsciiBlank c = false ∧ ¬Quote c)
    (href : ref ∈ spellings name) (ht : atEnd tail) :
    takeText d true directory expand (ref ++ tail) =
      (if name = inlineName then {} else expand (Path.resolve directory name)) ++
        takeText d true directory expand tail := by
  obtain ⟨rest, hread, hrest⟩ := map_reading_of_mem_spellings h0 hname href ht
  obtain ⟨m, hm, hmr⟩ := Option.map_eq_some_iff.mp hread
  simp only [OptionMatch.reading, Prod.mk.injEq] at hmr
  obtain ⟨rfl, -, rfl⟩ := hmr
  obtain ⟨r, rfl⟩ := exists_cons_of_mem_spellings href
  have hone : takeOne d.rules true directory expand ('@' :: r ++ tail) =
      { parsed := if m.name = inlineName then {} else expand (Path.resolve directory m.name)
        taken := m.taken, rest := m.rest } := by
    have hrules := findSome?_rules_of_reference d directory (r ++ tail)
    rw [← List.cons_append] at hrules
    simp only [takeOne, hrules, recognize?, hm, if_true, Option.map_some]
    by_cases hinline : m.name = inlineName
    · rw [if_pos hinline, if_pos hinline]
    · rw [if_neg hinline, if_neg hinline]
  rw [takeText_next d true directory expand (by simp) (by rfl), hone,
    takeText_of_atEnd ht hrest]

theorem takeText_reference (h : Nameable name) (href : ref ∈ spellings name) (ht : atEnd tail) :
    takeText d true directory expand (ref ++ tail) =
      expand (Path.resolve directory name) ++ takeText d true directory expand tail := by
  rw [takeText_spelling h.ne_nil h.chars href ht, if_neg h.ne_inlineName]

/-- A file of which no chain of references is too long contributes what its text does, wherever
the text stands. -/
theorem expandAt_depthLimit {path : Text} (hload : load contents path = some t)
    (hchain : ∀ more, List.IsChain (Refers d directory contents) (path :: more) →
      (path :: more).length ≤ depthLimit) :
    expandAt d true directory contents depthLimit path =
      { requested := [path] } ++
        takeText d true directory (expandAt d true directory contents depthLimit) t := by
  have hexpand (levels : Nat) : expandAt d true directory contents (levels + 1) path =
      { requested := [path] } ++
        takeText d true directory (expandAt d true directory contents levels) t := by
    rw [expandAt, hload, ← readWith_eq]
  refine (hexpand (depthLimit - 1)).trans ?_
  rw [takeText_congr fun path' hpath =>
    expandAt_eq (Nat.sub_le depthLimit 1) fun more hmore => ?_]
  have hlength := hchain (path' :: more) (.cons_cons ⟨t, hload, hpath⟩ hmore)
  rw [List.length_cons] at hlength
  omega

/-- A reference to a file and the text of the file give the same, and the file is asked for. No
chain of references that starts at the file may be too long. -/
theorem read_reference {reader : ArgumentReader} {rest : Text}
    (hreader : reader.responseFiles = true) (h : Nameable name) (href : ref ∈ spellings name)
    (hload : load contents (Path.resolve directory name) = some t)
    (ht : Inlinable reader.family.dialect t)
    (hchain : ∀ more,
      List.IsChain (Refers reader.family.dialect directory contents)
        (Path.resolve directory name :: more) →
      (Path.resolve directory name :: more).length ≤ depthLimit) :
    let inlined := reader.read directory (t ++ ' ' :: rest) contents
    reader.read directory (ref ++ ' ' :: rest) contents =
      { findings := inlined.findings
        requested := Path.resolve directory name :: inlined.requested } := by
  have hafter : AfterSeam (' ' :: rest) := by
    rintro c ⟨⟩
    rfl
  dsimp only
  rw [read, read, hreader, readWith_eq, readWith_eq,
    takeText_reference h href (show atEnd (' ' :: rest) from rfl),
    expandAt_depthLimit hload hchain, Parsed.append_assoc, ← takeText_append ht hafter]
  rfl

theorem read_reference_nested :
    let contents : Contents := fun path =>
      if path = "/p/f".toList then some [64, 103, 32, 45, 68, 65]
      else if path = "/p/g".toList then some [45, 68, 66]
      else none
    let reader : ArgumentReader := { family := .gcc }
    let text : Text := "@g -DA".toList
    let rest : Text := "-DC".toList
    let inlined := reader.read "/p".toList (text ++ ' ' :: rest) contents
    load contents "/p/f".toList = some text ∧ Inlinable .gcc text ∧
      (∀ more, List.IsChain (Refers .gcc "/p".toList contents) ("/p/f".toList :: more) →
        ("/p/f".toList :: more).length ≤ depthLimit) ∧
      reader.read "/p".toList ("@'f'".toList ++ ' ' :: rest) contents =
        { findings := inlined.findings, requested := "/p/f".toList :: inlined.requested } := by
  intro contents reader text rest inlined
  have hf : load contents "/p/f".toList = some text := by decide
  have hg : load contents "/p/g".toList = some "-DB".toList := by decide
  have hreferences : references .gcc "/p".toList text = ["/p/g".toList] := by decide +kernel
  have hnone : references .gcc "/p".toList "-DB".toList = [] := by decide +kernel
  have hchain : ∀ more, List.IsChain (Refers .gcc "/p".toList contents)
      ("/p/f".toList :: more) → ("/p/f".toList :: more).length ≤ depthLimit := by
    rintro (_ | ⟨path, _ | ⟨path', more⟩⟩) h
    · decide
    · simp [depthLimit]
    · simp only [List.isChain_cons_cons, Refers, hf, Option.some.injEq, exists_eq_left'] at h
      obtain ⟨hpath, ⟨file, hfile, hpath'⟩, -⟩ := h
      rw [hreferences, List.mem_singleton] at hpath
      subst hpath
      rw [hg] at hfile
      cases hfile
      rw [hnone] at hpath'
      cases hpath'
  have hname : Nameable "f".toList :=
    ⟨by decide, by decide, List.forall_mem_singleton.mpr ⟨by decide, by unfold Quote; decide⟩⟩
  have href : "@'f'".toList ∈ spellings "f".toList := by decide
  have hchars : text.all fun c => isAsciiBlank c || isPlain c := by decide
  have hplain : Inlinable .gcc text :=
    ⟨fun c hc => Bool.or_eq_true_iff.mp (List.all_eq_true.mp hchars c hc), by decide⟩
  exact ⟨hf, hplain, hchain, read_reference rfl hname href hf hplain hchain⟩

end ArgumentReader

end SettingsScan
