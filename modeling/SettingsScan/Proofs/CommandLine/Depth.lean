import SettingsScan.Proofs.CommandLine.Inlining

/-! # How deep references are followed

With fewer levels of response files left, the same arguments are taken from every text that is
still read, and a file that is out of reach gives nothing. So a part of the findings and requests
is left, in order, and all of them exactly if no chain of references is too long.
-/

namespace SettingsScan

/-! ### Parts of what is read -/

/-- What was read first is among what was read then, in the same order. -/
structure Parsed.PartOf (p q : Parsed) : Prop where
  settings : p.findings.settings.Sublist q.findings.settings
  builtinArguments : p.findings.builtinArguments.Sublist q.findings.builtinArguments
  requested : p.requested.Sublist q.requested

namespace Parsed.PartOf

variable {p p' q q' : Parsed}

theorem refl (p : Parsed) : p.PartOf p := ⟨.refl _, .refl _, .refl _⟩

theorem empty (p : Parsed) : ({} : Parsed).PartOf p :=
  ⟨List.nil_sublist _, List.nil_sublist _, List.nil_sublist _⟩

theorem append (h : p.PartOf q) (h' : p'.PartOf q') : (p ++ p').PartOf (q ++ q') :=
  ⟨h.settings.append h'.settings, h.builtinArguments.append h'.builtinArguments,
    h.requested.append h'.requested⟩

end Parsed.PartOf

namespace ArgumentReader

variable {d : Dialect} {responseFiles : Bool} {directory t path : Text}
  {expand expand' : Text → Parsed} {contents : Contents} {levels levels' : Nat}

theorem takeText_partOf (h : ∀ path, (expand path).PartOf (expand' path)) (t : Text) :
    (takeText d responseFiles directory expand t).PartOf
      (takeText d responseFiles directory expand' t) :=
  takeText_rel .refl .append fun path _ => h path

theorem expandAt_partOf (hl : levels ≤ levels') (path : Text) :
    (expandAt d responseFiles directory contents levels path).PartOf
      (expandAt d responseFiles directory contents levels' path) := by
  induction levels generalizing levels' path with
  | zero => exact .empty _
  | succ n ih =>
    obtain ⟨m, rfl⟩ := Nat.exists_eq_add_one_of_ne_zero (show levels' ≠ 0 by omega)
    rw [expandAt, expandAt]
    refine .append (.refl _) ?_
    cases ResponseFile.load contents path with
    | none => exact .refl _
    | some text =>
      dsimp only
      rw [readWith_eq, readWith_eq]
      exact takeText_partOf (fun path => ih (by omega) path) text

/-! ### Chains of references -/

theorem length_requested_takeText_lt (h : ∀ path, (expand path).PartOf (expand' path))
    (hpath : path ∈ references d directory t)
    (hlt : (expand path).requested.length < (expand' path).requested.length) :
    (takeText d true directory expand t).requested.length <
      (takeText d true directory expand' t).requested.length := by
  induction t using argumentInduction d true directory expand with
  | gap hg =>
    rw [references, takeText_gap hg] at hpath
    cases hpath
  | @next gap u hg hn hb ih =>
    obtain ⟨findings, reference, taken, rest, hone⟩ := takeOne_expand d.rules true directory u
    rw [references, takeText_gap_next hg hn hb, hone, Parsed.requested_append] at hpath
    rw [hone] at ih
    rw [takeText_gap_next hg hn hb, takeText_gap_next hg hn hb, hone, hone,
      Parsed.requested_append, Parsed.requested_append, List.length_append, List.length_append]
    rcases List.mem_append.mp hpath with hpath | hpath
    · have hrest : (takeText d true directory expand rest).requested.length ≤
          (takeText d true directory expand' rest).requested.length :=
        (takeText_partOf h rest).requested.length_le
      cases reference with
      | none => cases hpath
      | some other =>
        obtain rfl := List.mem_singleton.mp hpath
        exact Nat.add_lt_add_of_lt_of_le hlt hrest
    · refine Nat.add_lt_add_of_le_of_lt ?_ (ih hpath)
      cases reference with
      | none => exact le_rfl
      | some other => exact (h other).requested.length_le

/-- A chain of references with more files than there are levels is cut. -/
theorem length_requested_expandAt_lt {more : List Text}
    (hchain : List.IsChain (Refers d directory contents) (path :: more))
    (hlong : levels < (path :: more).length) (hl : levels < levels') :
    (expandAt d true directory contents levels path).requested.length <
      (expandAt d true directory contents levels' path).requested.length := by
  obtain ⟨m, rfl⟩ := Nat.exists_eq_add_one_of_ne_zero (show levels' ≠ 0 by omega)
  induction levels generalizing path more m with
  | zero =>
    rw [expandAt, expandAt, Parsed.requested_append, List.length_append]
    exact Nat.add_pos_left Nat.zero_lt_one _
  | succ n ih =>
    obtain ⟨k, rfl⟩ := Nat.exists_eq_add_one_of_ne_zero (show m ≠ 0 by omega)
    cases more with
    | nil => exact absurd hlong (by simp)
    | cons path' more =>
      obtain ⟨⟨text, hload, hpath⟩, hchain⟩ := List.isChain_cons_cons.mp hchain
      rw [expandAt, expandAt, hload]
      dsimp only
      rw [readWith_eq, readWith_eq, Parsed.requested_append, Parsed.requested_append,
        List.length_append, List.length_append]
      refine Nat.add_lt_add_left (length_requested_takeText_lt
        (fun path => expandAt_partOf (by omega) path) hpath ?_) _
      exact ih hchain (Nat.lt_of_succ_lt_succ hlong) k (by omega)

theorem takeText_without_responseFiles (t : Text) :
    takeText d false directory expand t = takeText d false directory expand' t := by
  have hone (u : Text) :
      takeOne d.rules false directory expand u = takeOne d.rules false directory expand' u := by
    unfold takeOne
    cases d.rules.findSome? (·.take? directory u) <;> rfl
  induction t using argumentInduction d false directory expand with
  | gap hg => rw [takeText_gap hg, takeText_gap hg]
  | @next gap u hg hn hb ih =>
    rw [takeText_gap_next hg hn hb, takeText_gap_next hg hn hb, ← hone, ih]

/-- A reading that starts deeper gives a part of what one gives that starts less deep, in the same
order. It is the same reading if and only if no chain of references from the text has more files
than there are levels left. -/
theorem readWith_deeper_iff (family : ToolFamily) (responseFiles : Bool) (directory text : Text)
    (contents : Contents) {depth deeper : Nat} (hd : depth ≤ deeper) (hl : deeper ≤ depthLimit) :
    let readFrom (depth : Nat) :=
      readWith family.dialect.rules responseFiles directory contents (depthLimit - depth) text
    (readFrom deeper).PartOf (readFrom depth) ∧
      (readFrom deeper = readFrom depth ↔
        depth = deeper ∨ (responseFiles →
          ∀ path ∈ references family.dialect directory text, ∀ more,
            List.IsChain (Refers family.dialect directory contents) (path :: more) →
            (path :: more).length ≤ depthLimit - deeper)) := by
  intro readFrom
  have hlevels : depthLimit - deeper ≤ depthLimit - depth := by omega
  have hread (depth : Nat) : readFrom depth = takeText family.dialect responseFiles directory
      (expandAt family.dialect responseFiles directory contents (depthLimit - depth)) text :=
    readWith_eq ..
  rw [hread, hread]
  refine ⟨takeText_partOf (expandAt_partOf hlevels) text, ⟨fun h => ?_, ?_⟩⟩
  · refine or_iff_not_imp_left.mpr fun hne hfiles path hpath more hchain => ?_
    obtain rfl : responseFiles = true := hfiles
    by_contra hlong
    refine absurd (congrArg (·.requested.length) h) (Nat.ne_of_lt ?_)
    exact length_requested_takeText_lt (expandAt_partOf hlevels) hpath
      (length_requested_expandAt_lt hchain (Nat.lt_of_not_le hlong) (by omega))
  · rintro (rfl | h)
    · rfl
    · cases responseFiles with
      | false => exact takeText_without_responseFiles text
      | true => exact takeText_congr fun path hpath => expandAt_eq hlevels (h rfl path hpath)

theorem readWith_deeper_iff_two_files :
    let contents : Contents := fun path =>
      if path = "/p/f".toList then some [64, 103, 32, 45, 68, 65]
      else if path = "/p/g".toList then some [45, 68, 66]
      else none
    let readFrom (depth : Nat) :=
      readWith ToolFamily.gcc.dialect.rules true "/p".toList contents (depthLimit - depth)
        "@f -DC".toList
    0 ≤ 15 ∧ 15 ≤ depthLimit ∧ (readFrom 15).PartOf (readFrom 0) ∧ readFrom 15 ≠ readFrom 0 := by
  intro contents readFrom
  have hd : 0 ≤ 15 := by decide
  have hl : 15 ≤ depthLimit := by decide
  have h := readWith_deeper_iff .gcc true "/p".toList "@f -DC".toList contents hd hl
  refine ⟨hd, hl, h.1, fun heq => ?_⟩
  have hf : "/p/f".toList ∈ references .gcc "/p".toList "@f -DC".toList := by decide +kernel
  have hg : "/p/g".toList ∈ references .gcc "/p".toList "@g -DA".toList := by decide +kernel
  have hchain : List.IsChain (Refers .gcc "/p".toList contents)
      ["/p/f".toList, "/p/g".toList] :=
    .cons_cons ⟨"@g -DA".toList, by decide, hg⟩ (.singleton _)
  rcases h.2.mp heq with h0 | hshort
  · cases h0
  · exact absurd (hshort rfl _ hf _ hchain) (by decide)

end ArgumentReader

end SettingsScan
