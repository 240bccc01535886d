import Mathlib.Data.List.Basic
import SettingsScan.FileSystem

/-! # Writing a file

A file is opened, which empties or creates it, and then filled. Afterwards its path leads to the
new content, and every other path that led to an entry leads to the same one as before.
-/

namespace SettingsScan.FileSystem

variable {fs : FileSystem} {names n : List Text} {node : FileNode} {content : Bytes}
  {path other : Text}

/-! ### Entries -/

section Entries

variable {entries : List (List Text × FileNode)}

def replaceIn (names : List Text) (node : FileNode) (entries : List (List Text × FileNode)) :
    List (List Text × FileNode) :=
  entries.map fun e => if e.1 = names then (names, node) else e

theorem lookup_replaceIn_of_ne (h : n ≠ names) :
    (replaceIn names node entries).lookup n = entries.lookup n := by
  induction entries with
  | nil => rfl
  | cons e entries ih =>
    rw [replaceIn, List.map_cons, ← replaceIn]
    split
    · next he =>
      have hne : (n == names) = false := by simpa using h
      obtain ⟨m, x⟩ := e
      rw [List.lookup_cons, hne, ih, List.lookup_cons, show m = names from he, hne]
    · rw [List.lookup_cons, ih, List.lookup_cons]

theorem lookup_replaceIn_self (h : names ∈ entries.map Prod.fst) :
    (replaceIn names node entries).lookup names = some node := by
  induction entries with
  | nil => cases h
  | cons e entries ih =>
    rw [replaceIn, List.map_cons, ← replaceIn]
    split
    · exact List.lookup_cons_self
    · next he =>
      have hne : (names == e.1) = false := by simpa using Ne.symm he
      rw [List.lookup_cons, hne, ih (List.mem_of_ne_of_mem (Ne.symm he) h)]

theorem names_replaceIn (names : List Text) (node : FileNode)
    (entries : List (List Text × FileNode)) :
    (replaceIn names node entries).map Prod.fst = entries.map Prod.fst := by
  rw [replaceIn, List.map_map]
  refine List.map_congr_left fun e _ => ?_
  rw [Function.comp_apply]
  split
  · next he => exact he.symm
  · rfl

theorem replaceIn_replaceIn (names : List Text) (a b : FileNode)
    (entries : List (List Text × FileNode)) :
    replaceIn names b (replaceIn names a entries) = replaceIn names b entries := by
  rw [replaceIn, replaceIn, List.map_map]
  refine List.map_congr_left fun e _ => ?_
  rw [Function.comp_apply]
  split
  · exact if_pos rfl
  · rfl

theorem replaceIn_eq_self (h : names ∉ entries.map Prod.fst) :
    replaceIn names node entries = entries := by
  refine (List.map_congr_left fun e he => if_neg ?_).trans (List.map_id entries)
  rintro rfl
  exact h (List.mem_map_of_mem he)

theorem lookup_eq_none_of_not_mem (h : names ∉ entries.map Prod.fst) :
    entries.lookup names = none := by
  refine List.lookup_eq_none_iff.mpr fun e he => ?_
  simpa using (ne_of_mem_of_not_mem (List.mem_map_of_mem he) h).symm

end Entries

theorem put_of_mem (h : names ∈ fs.entries.map Prod.fst) :
    fs.put names node = { fs with entries := replaceIn names node fs.entries } := by
  rw [put, if_pos]
  · rfl
  · simpa using h

theorem put_of_not_mem (h : names ∉ fs.entries.map Prod.fst) :
    fs.put names node = { fs with entries := fs.entries ++ [(names, node)] } := by
  rw [put, if_neg]
  simpa using h

theorem lookup_put (fs : FileSystem) (names : List Text) (node : FileNode) (n : List Text) :
    (fs.put names node).entries.lookup n =
      if n = names then some node else fs.entries.lookup n := by
  by_cases h : names ∈ fs.entries.map Prod.fst
  · rw [put_of_mem h]
    split
    · next hn => rw [hn, lookup_replaceIn_self h]
    · next hn => rw [lookup_replaceIn_of_ne hn]
  · rw [put_of_not_mem h, List.lookup_append]
    split
    · next hn => rw [hn, lookup_eq_none_of_not_mem h, Option.none_or, List.lookup_cons_self]
    · next hn =>
      have hne : (n == names) = false := by simpa using hn
      rw [List.lookup_cons, hne, List.lookup_nil, Option.or_none]

theorem put_put (fs : FileSystem) (names : List Text) (a b : FileNode) :
    (fs.put names a).put names b = fs.put names b := by
  by_cases h : names ∈ fs.entries.map Prod.fst
  · have hmem : names ∈ (replaceIn names a fs.entries).map Prod.fst := by
      rwa [names_replaceIn]
    rw [put_of_mem h, put_of_mem hmem, put_of_mem h, replaceIn_replaceIn]
  · rw [put_of_not_mem h, put_of_mem (by simp), put_of_not_mem h, replaceIn, List.map_append,
      ← replaceIn, replaceIn_eq_self h]
    simp

theorem mem_names_put (names : List Text) (node : FileNode)
    (h : n ∈ fs.entries.map Prod.fst) : n ∈ (fs.put names node).entries.map Prod.fst := by
  by_cases hm : names ∈ fs.entries.map Prod.fst
  · rw [put_of_mem hm]
    exact (names_replaceIn names node fs.entries).symm ▸ h
  · rw [put_of_not_mem hm, List.map_append]
    exact List.mem_append_left _ h

theorem node?_put_self (fs : FileSystem) (names : List Text) (node : FileNode) :
    (fs.put names node).node? names = some node := by
  rw [node?, lookup_put, if_pos rfl]

theorem node?_put_of_ne (h : n ≠ names) {x : FileNode} (hx : fs.node? n = some x) :
    (fs.put names node).node? n = some x := by
  rw [node?] at hx ⊢
  rw [lookup_put, if_neg h]
  cases hl : fs.entries.lookup n with
  | some y => rwa [hl] at hx
  | none =>
    rw [hl] at hx
    simp only [Option.ite_none_right_eq_some, Bool.or_eq_true] at hx ⊢
    refine ⟨hx.1.imp_right fun hany => ?_, hx.2⟩
    obtain ⟨e, he, hp⟩ := List.any_eq_true.mp hany
    obtain ⟨e', he', hn⟩ := List.mem_map.mp (mem_names_put names node (List.mem_map_of_mem he))
    exact List.any_eq_true.mpr ⟨e', he', hn ▸ hp⟩

/-! ### Paths -/

structure IsName (step : Text) : Prop where
  not_here : step ≠ ['.']
  not_up : step ≠ ['.', '.']
  length : step.byteSize ≤ nameLimit

/-- Where a walk ends that starts at a directory and goes through so many links at most. -/
inductive Leads (fs : FileSystem) : Nat → List Text → List Text → Found → Prop
  | here (k : Nat) (at_ : List Text) : Leads fs k at_ [] (.entry at_ .directory)
  | stay {k at_ more found} : Leads fs k at_ more found → Leads fs k at_ (['.'] :: more) found
  | up {k at_ more found} : Leads fs k at_.dropLast more found →
      Leads fs k at_ (['.', '.'] :: more) found
  | vacant {k at_ step} : IsName step → fs.node? (at_ ++ [step]) = none →
      Leads fs k at_ [step] (.vacant (at_ ++ [step]))
  | down {k at_ step more found} : IsName step →
      fs.node? (at_ ++ [step]) = some .directory → Leads fs k (at_ ++ [step]) more found →
      Leads fs k at_ (step :: more) found
  | link {k at_ step more target found} : IsName step →
      fs.node? (at_ ++ [step]) = some (.link target) → target ≠ [] →
      Leads fs k (if Path.isRooted target then [] else at_) (steps target ++ more) found →
      Leads fs (k + 1) at_ (step :: more) found
  | entry {k at_ step node} : IsName step → fs.node? (at_ ++ [step]) = some node →
      node ≠ .directory → (∀ target, node ≠ .link target) →
      Leads fs k at_ [step] (.entry (at_ ++ [step]) node)

variable {at_ more walked : List Text} {step : Text} {found : Found} {k : Nat}

/-- What a walk does at a link when it may go through so many. -/
def followOf (fs : FileSystem) : Nat → List Text → List Text → Except FileError Found
  | 0 => fun _ _ => .error .tooManyLinks
  | k + 1 => fs.walk k

theorem walk_eq (fs : FileSystem) (k : Nat) : fs.walk k = fs.walkWith (fs.followOf k) := by
  cases k <;> rfl

theorem walkWith_name (h : IsName step)
    (follow : List Text → List Text → Except FileError Found) :
    fs.walkWith follow at_ (step :: more) =
      match fs.node? (at_ ++ [step]) with
      | none => if more.isEmpty then .ok (.vacant (at_ ++ [step])) else .error .notFound
      | some .directory => fs.walkWith follow (at_ ++ [step]) more
      | some (.link target) =>
        if target.isEmpty then .error .notFound
        else follow (if Path.isRooted target then [] else at_) (steps target ++ more)
      | some node =>
        if more.isEmpty then .ok (.entry (at_ ++ [step]) node) else .error .notADirectory :=
  (if_neg h.not_here).trans ((if_neg h.not_up).trans (if_neg (Nat.not_lt.mpr h.length)))

theorem leads_of_walkWith (hf : ∀ at_ walked found, fs.followOf k at_ walked = .ok found →
      ∃ j, k = j + 1 ∧ Leads fs j at_ walked found)
    (h : fs.walkWith (fs.followOf k) at_ walked = .ok found) : Leads fs k at_ walked found := by
  induction walked generalizing at_ with
  | nil =>
    cases h
    exact .here k at_
  | cons step more ih =>
    by_cases hhere : step = ['.']
    · rw [walkWith, if_pos hhere] at h
      exact hhere ▸ .stay (ih h)
    by_cases hup : step = ['.', '.']
    · rw [walkWith, if_neg hhere, if_pos hup] at h
      exact hup ▸ .up (ih h)
    by_cases hlength : nameLimit < step.byteSize
    · rw [walkWith, if_neg hhere, if_neg hup, if_pos hlength] at h
      cases h
    have hs : IsName step := ⟨hhere, hup, Nat.not_lt.mp hlength⟩
    rw [walkWith_name hs] at h
    cases hn : fs.node? (at_ ++ [step]) with
    | none =>
      cases more with
      | nil =>
        rw [hn] at h
        cases h
        exact .vacant hs hn
      | cons _ _ =>
        rw [hn] at h
        cases h
    | some node =>
      rw [hn] at h
      have hend (hd : node ≠ .directory) (hl : ∀ target, node ≠ .link target)
          (h : (if more.isEmpty then Except.ok (Found.entry (at_ ++ [step]) node)
            else .error FileError.notADirectory) = .ok found) :
          Leads fs k at_ (step :: more) found := by
        cases more with
        | nil =>
          cases h
          exact .entry hs hn hd hl
        | cons _ _ => cases h
      cases node with
      | directory => exact .down hs hn (ih h)
      | link target =>
        cases target with
        | nil => cases h
        | cons c target =>
          obtain ⟨j, rfl, hj⟩ := hf _ _ _ h
          exact .link hs hn (List.cons_ne_nil c target) hj
      | file content => exact hend nofun nofun h
      | sink => exact hend nofun nofun h
      | full => exact hend nofun nofun h

theorem leads_of_walk (h : fs.walk k at_ walked = .ok found) : Leads fs k at_ walked found := by
  induction k generalizing at_ walked found with
  | zero => exact leads_of_walkWith nofun h
  | succ k ih => exact leads_of_walkWith (fun _ _ _ h => ⟨k, rfl, ih h⟩) h

theorem Leads.walk_eq_ok (h : Leads fs k at_ walked found) : fs.walk k at_ walked = .ok found := by
  induction h with
  | here k at_ => rw [walk_eq]; rfl
  | stay _ ih => rw [walk_eq] at ih ⊢; exact ih
  | up _ ih => rw [walk_eq] at ih ⊢; exact ih
  | vacant hs hn => rw [walk_eq, walkWith_name hs, hn]; rfl
  | down hs hn _ ih =>
    rw [walk_eq] at ih
    rw [walk_eq, walkWith_name hs, hn]
    exact ih
  | link hs hn ht _ ih =>
    rw [walk_eq, walkWith_name hs, hn]
    exact (if_neg (by simpa using ht)).trans ih
  | @entry k at_ step node hs hn hd hl =>
    rw [walk_eq, walkWith_name hs, hn]
    cases node with
    | directory => exact absurd rfl hd
    | link target => exact absurd rfl (hl target)
    | file content => rfl
    | sink => rfl
    | full => rfl

/-- Where a path leads there is a directory, an entry that is no link, or nothing yet. -/
def IsReal (fs : FileSystem) : Found → Prop
  | .entry names node => node = .directory ∨
      fs.node? names = some node ∧ ∀ target, node ≠ .link target
  | .vacant names => fs.node? names = none

theorem Leads.isReal (h : Leads fs k at_ walked found) : fs.IsReal found := by
  induction h with
  | here k at_ => exact .inl rfl
  | stay _ ih => exact ih
  | up _ ih => exact ih
  | vacant _ hn => exact hn
  | down _ _ _ ih => exact ih
  | link _ _ _ _ ih => exact ih
  | entry _ hn _ hl => exact .inr ⟨hn, hl⟩

/-- The path leads to a file with the names, or may lead to one. -/
def LeadsToFile (fs : FileSystem) (path : Text) (names : List Text) : Prop :=
  fs.find path = .ok (.vacant names) ∨ ∃ old, fs.find path = .ok (.entry names (.file old))

/-- Where a path leads after a node was put in, by where it led before. -/
inductive Moved (names : List Text) (node : FileNode) : Found → Found → Prop
  | kept {n x} : n ≠ names → Moved names node (.entry n x) (.entry n x)
  | created : Moved names node (.vacant names) (.entry names node)
  | replaced (old : Bytes) : Moved names node (.entry names (.file old)) (.entry names node)

/-- A walk goes the same way after a file was put in, and finds it. -/
theorem Leads.put {found' : Found} (h : Leads fs k at_ walked found)
    (hn : fs.node? names = none ∨ ∃ old, fs.node? names = some (.file old))
    (hm : Moved names (.file content) found found') :
    Leads (fs.put names (.file content)) k at_ walked found' := by
  have hother {n : List Text} {x : FileNode} (hx : fs.node? n = some x)
      (hfile : ∀ old, x ≠ .file old) : (fs.put names (.file content)).node? n = some x := by
    refine node?_put_of_ne ?_ hx
    rintro rfl
    rcases hn with hn | ⟨old, hn⟩
    · cases hx.symm.trans hn
    · exact hfile old (Option.some.inj (hx.symm.trans hn))
  induction h with
  | here k at_ =>
    cases hm with
    | kept _ => exact .here k at_
  | stay _ ih => exact .stay (ih hm)
  | up _ ih => exact .up (ih hm)
  | vacant hs hnone =>
    cases hm with
    | created => exact .entry hs (node?_put_self ..) nofun nofun
  | down hs hd _ ih => exact .down hs (hother hd nofun) (ih hm)
  | link hs hl ht _ ih => exact .link hs (hother hl nofun) ht (ih hm)
  | entry hs hx hd hl =>
    cases hm with
    | kept hne => exact .entry hs (node?_put_of_ne hne hx) hd hl
    | replaced old => exact .entry hs (node?_put_self ..) nofun nofun

theorem find_eq_ok_iff : fs.find path = .ok found ↔
    path ≠ [] ∧ Leads fs linkLimit (if Path.isRooted path then [] else fs.current) (steps path)
      found := by
  rw [find]
  split
  · next h => exact iff_of_false nofun fun hp => hp.1 (List.isEmpty_iff.mp h)
  · next h =>
    rw [and_iff_right (by simpa using h)]
    exact ⟨leads_of_walk, Leads.walk_eq_ok⟩

theorem LeadsToFile.node? (h : fs.LeadsToFile path names) :
    fs.node? names = none ∨ ∃ old, fs.node? names = some (.file old) := by
  rcases h with h | ⟨old, h⟩
  · exact .inl (find_eq_ok_iff.mp h).2.isReal
  · rcases (find_eq_ok_iff.mp h).2.isReal with hd | ⟨hn, -⟩
    · cases hd
    · exact .inr ⟨old, hn⟩

/-- Paths lead where they led before a file was written, but for those to the file itself. -/
theorem LeadsToFile.find_put {found' : Found} (h : fs.LeadsToFile path names)
    (hf : fs.find other = .ok found) (hm : Moved names (.file content) found found') :
    (fs.put names (.file content)).find other = .ok found' := by
  obtain ⟨hne, hleads⟩ := find_eq_ok_iff.mp hf
  exact find_eq_ok_iff.mpr ⟨hne, hleads.put h.node? hm⟩

theorem LeadsToFile.read_put (h : fs.LeadsToFile path names) :
    (fs.put names (.file content)).read path = .ok content := by
  have hfind : (fs.put names (.file content)).find path = .ok (.entry names (.file content)) :=
    match h with
    | .inl hf => h.find_put hf .created
    | .inr ⟨old, hf⟩ => h.find_put hf (.replaced old)
  rw [read, hfind]
  rfl

/-! ### Opening and filling -/

inductive Handle where
  | file (names : List Text)
  | sink
  | full
  deriving DecidableEq, Repr

/-- Opens a path for writing. A file is emptied, and created if there is none. -/
def create (fs : FileSystem) (path : Text) : Except FileError (Handle × FileSystem) :=
  match fs.find path with
  | .ok (.entry names (.file _)) => .ok (.file names, fs.put names (.file []))
  | .ok (.vacant names) => .ok (.file names, fs.put names (.file []))
  | .ok (.entry _ .full) => .ok (.full, fs)
  | .ok (.entry _ .directory) => .error .isADirectory
  | .ok (.entry _ _) => .ok (.sink, fs)
  | .error reason => .error reason

def fill (fs : FileSystem) (content : Bytes) : Handle → Option FileSystem
  | .file names => some (fs.put names (.file content))
  | .sink => some fs
  | .full => none

theorem write_eq (fs : FileSystem) (path : Text) (content : Bytes) :
    fs.write path content =
      match fs.create path with
      | .error reason => .notCreated reason
      | .ok (handle, opened) => (opened.fill content handle).elim .noRoom .done := by
  rw [write, create]
  cases fs.find path with
  | error reason => rfl
  | ok found =>
    cases found with
    | vacant names => exact congrArg Written.done (put_put ..).symm
    | entry names node =>
      cases node with
      | file old => exact congrArg Written.done (put_put ..).symm
      | link target => rfl
      | directory => rfl
      | sink => rfl
      | full => rfl

/-- What became of the file system when content was written to a path: the file has it, and nothing
else changed. A device takes it without a trace. -/
inductive Replaced (fs : FileSystem) (path : Text) (content : Bytes) (after : FileSystem) : Prop
  | file (names : List Text) : fs.LeadsToFile path names → after.current = fs.current →
      (∀ n, after.entries.lookup n =
        if n = names then some (.file content) else fs.entries.lookup n) →
      (∀ other n node, fs.find other = .ok (.entry n node) → n ≠ names →
        after.find other = .ok (.entry n node)) →
      after.read path = .ok content → Replaced fs path content after
  | device (names : List Text) : fs.find path = .ok (.entry names .sink) → after = fs →
      Replaced fs path content after

theorem LeadsToFile.replaced (h : fs.LeadsToFile path names) (content : Bytes) :
    fs.Replaced path content (fs.put names (.file content)) :=
  .file names h rfl (lookup_put fs names _) (fun _ _ _ hf hn => h.find_put hf (.kept hn)) h.read_put

theorem write_of_create {opened : FileSystem} {handle : Handle}
    (h : fs.create path = .ok (handle, opened)) :
    fs.write path content = (opened.fill content handle).elim .noRoom .done := by
  rw [write_eq, h]

/-- A device without room is left as it is. -/
theorem eq_of_create_of_fill {opened : FileSystem} {handle : Handle}
    (h : fs.create path = .ok (handle, opened)) (hf : opened.fill content handle = none) :
    opened = fs := by
  rw [create] at h
  split at h <;> cases h <;> first | rfl | cases hf

theorem replaced_of_write {after : FileSystem} (h : fs.write path content = .done after) :
    fs.Replaced path content after := by
  rw [write] at h
  cases hf : fs.find path with
  | error reason =>
    rw [hf] at h
    cases h
  | ok found =>
    rw [hf] at h
    match found with
    | .vacant names =>
      cases h
      exact LeadsToFile.replaced (.inl hf) content
    | .entry names (.file old) =>
      cases h
      exact LeadsToFile.replaced (.inr ⟨old, hf⟩) content
    | .entry names .sink =>
      cases h
      exact .device names hf rfl
    | .entry names (.link target) =>
      -- no path leads to a link
      rcases (find_eq_ok_iff.mp hf).2.isReal with hd | ⟨-, hl⟩
      · cases hd
      · exact absurd rfl (hl target)
    | .entry names .directory => cases h
    | .entry names .full => cases h

end SettingsScan.FileSystem
