import Mathlib.Data.List.Induction
import SettingsScan.Proofs.Path.Order
import SettingsScan.Report.Basic

/-! # What a store holds

The store after any sequence of deposits, told from the deposits alone: for each resource what the
calls for it give, and the distinct requests and all diagnostics in order.
-/

namespace SettingsScan

structure SettingsCall where
  resource : Resource
  language : Option Language
  entries : List Setting
  deriving DecidableEq

namespace Deposit

def call? : Deposit → Option SettingsCall
  | settings resource language entries => some { resource, language, entries }
  | _ => none

def request? : Deposit → Option BuiltinRequest
  | builtin request => some request
  | _ => none

def diagnostic? : Deposit → Option Diagnostic
  | diagnostic d => some d
  | _ => none

end Deposit

/-- The calls for a resource, under any spelling of its path. -/
def callsFor (deposits : List Deposit) (resource : Resource) : List SettingsCall :=
  (deposits.filterMap Deposit.call?).filter (resource.Same ·.resource)

namespace ResourceSettings

/-- What a file holds: its last call, as it is. -/
def ofLast (calls : List SettingsCall) : ResourceSettings :=
  match calls.getLast? with
  | some call => { language := call.language, entries := call.entries }
  | none => {}

/-- What a folder or the project holds: the first language there is, and the entries of all calls,
each one where it appears first. -/
def ofAll (calls : List SettingsCall) : ResourceSettings where
  language := calls.findSome? (·.language)
  entries := (calls.flatMap (·.entries)).eraseDups

def ofCalls (resource : Resource) (calls : List SettingsCall) : ResourceSettings :=
  match resource with
  | .file _ => ofLast calls
  | _ => ofAll calls

end ResourceSettings

/-- The item of a report for a resource: spelled as in the first call for it, with what its calls
give. Without a call there is none. -/
def itemFor? (deposits : List Deposit) (resource : Resource) :
    Option (Resource × ResourceSettings) :=
  (callsFor deposits resource).head?.map fun first =>
    (first.resource, .ofCalls resource (callsFor deposits resource))

/-! ### Distinct elements -/

section Distinct

variable {α : Type} [DecidableEq α]

theorem eraseDups_append_singleton (l : List α) (a : α) :
    (l ++ [a]).eraseDups = if a ∈ l then l.eraseDups else l.eraseDups ++ [a] := by
  rw [List.eraseDups_append]
  by_cases h : a ∈ l
  · simp [List.removeAll, h]
  · simp [List.removeAll, h, List.eraseDups_cons]

theorem ResourceSettings.addNew_eraseDups (l more : List Setting) :
    addNew l.eraseDups more = (l ++ more).eraseDups := by
  induction more generalizing l with
  | nil => rw [List.append_nil]; rfl
  | cons s more ih =>
    have hstep : (if s ∈ l.eraseDups then l.eraseDups else l.eraseDups ++ [s]) =
        (l ++ [s]).eraseDups := by
      simp only [eraseDups_append_singleton, List.mem_eraseDups]
    rw [addNew, List.foldl_cons, hstep]
    exact (ih (l ++ [s])).trans (by rw [List.append_assoc]; rfl)

end Distinct

/-! ### The sorted list of resources -/

namespace Store

/-- The items come in strictly increasing order of their resources. -/
def Sorted (items : List (Resource × ResourceSettings)) : Prop :=
  items.Pairwise fun a b => a.1.compare b.1 = .lt

def item? (items : List (Resource × ResourceSettings)) (resource : Resource) :
    Option (Resource × ResourceSettings) :=
  items.find? fun x => resource.Same x.1

variable {items : List (Resource × ResourceSettings)} {resource r : Resource}
  {f : Option ResourceSettings → ResourceSettings} {store : Store} {deposits : List Deposit}

theorem get?_eq (store : Store) (resource : Resource) :
    store.get? resource = (item? store.resources resource).map (·.2) := by
  simp only [get?, item?, Resource.compare_eq_eq_iff]

theorem item?_cons (x : Resource × ResourceSettings) (items : List (Resource × ResourceSettings))
    (r : Resource) : item? (x :: items) r = if r.Same x.1 then some x else item? items r := by
  by_cases h : r.Same x.1 <;> simp [item?, h]

def updated (items : List (Resource × ResourceSettings)) (resource : Resource)
    (f : Option ResourceSettings → ResourceSettings) : Resource × ResourceSettings :=
  match item? items resource with
  | some (spelled, held) => (spelled, f (some held))
  | none => (resource, f none)

theorem Sorted.lt_of_lt {x : Resource × ResourceSettings} (hs : Sorted (x :: items))
    (h : resource.compare x.1 = .lt) : ∀ y ∈ x :: items, resource.compare y.1 = .lt := by
  intro y hy
  rcases List.mem_cons.mp hy with rfl | hy
  · exact h
  · exact Std.TransCmp.lt_trans h ((List.pairwise_cons.mp hs).1 y hy)

theorem item?_eq_none_of_lt (h : ∀ y ∈ items, resource.compare y.1 = .lt) :
    item? items resource = none := by
  refine List.find?_eq_none.mpr fun y hy => ?_
  simp [← Resource.compare_eq_eq_iff, h y hy]

/-- An update changes the item of its resource and leaves the others as they are. -/
theorem item?_update (hs : Sorted items) (f : Option ResourceSettings → ResourceSettings)
    (resource r : Resource) :
    item? (update resource f items) r =
      if r.Same resource then some (updated items resource f) else item? items r := by
  induction items with
  | nil => exact item?_cons _ _ _
  | cons x items ih =>
    obtain ⟨head, held⟩ := x
    have ih := ih (List.pairwise_cons.mp hs).2
    rw [update]
    cases hc : resource.compare head with
    | lt =>
      rw [updated, item?_eq_none_of_lt (hs.lt_of_lt hc)]
      exact item?_cons _ _ _
    | eq =>
      have hh : resource.Same head := Resource.compare_eq_eq_iff.mp hc
      have hr : r.Same head ↔ r.Same resource := ⟨fun h => h.trans hh.symm, fun h => h.trans hh⟩
      rw [updated, item?_cons (head, held), if_pos hh, item?_cons, item?_cons]
      by_cases h : r.Same resource <;> simp [hr, h]
    | gt =>
      have hh : ¬ resource.Same head := fun h => by
        rw [Resource.compare_eq_eq_iff.mpr h] at hc
        cases hc
      have hu : updated ((head, held) :: items) resource f = updated items resource f := by
        rw [updated, item?_cons, if_neg hh, updated]
      rw [hu, item?_cons, item?_cons, ih]
      by_cases hr : r.Same head
      · rw [if_pos hr, if_pos hr, if_neg fun h => hh (h.symm.trans hr)]
      · rw [if_neg hr, if_neg hr]

theorem forall_update {P : Resource → Prop} (hp : P resource) (h : ∀ x ∈ items, P x.1) :
    ∀ x ∈ update resource f items, P x.1 := by
  induction items with
  | nil => simpa [update] using hp
  | cons x items ih =>
    obtain ⟨head, held⟩ := x
    obtain ⟨hh, ht⟩ := List.forall_mem_cons.mp h
    rw [update]
    cases resource.compare head with
    | lt => exact List.forall_mem_cons.mpr ⟨hp, h⟩
    | eq => exact List.forall_mem_cons.mpr ⟨hh, ht⟩
    | gt => exact List.forall_mem_cons.mpr ⟨hh, ih ht⟩

theorem Sorted.update (hs : Sorted items) (resource : Resource)
    (f : Option ResourceSettings → ResourceSettings) : Sorted (update resource f items) := by
  induction items with
  | nil => exact List.pairwise_singleton _ _
  | cons x items ih =>
    obtain ⟨head, held⟩ := x
    obtain ⟨hlt, hs'⟩ := List.pairwise_cons.mp hs
    rw [Store.update]
    cases hc : resource.compare head with
    | lt => exact List.pairwise_cons.mpr ⟨hs.lt_of_lt hc, hs⟩
    | eq => exact List.pairwise_cons.mpr ⟨hlt, hs'⟩
    | gt =>
      have hgt : head.compare resource = .lt := Std.OrientedCmp.gt_iff_lt.mp hc
      have hall := forall_update (f := f) (P := fun r => head.compare r = .lt) hgt hlt
      exact List.pairwise_cons.mpr ⟨hall, ih hs'⟩

theorem Sorted.filter_eq (hs : Sorted items) (r : Resource) :
    (items.filter fun x => r.Same x.1) = (item? items r).toList := by
  induction items with
  | nil => rfl
  | cons x items ih =>
    obtain ⟨hlt, hs'⟩ := List.pairwise_cons.mp hs
    rw [item?_cons, List.filter_cons, ih hs']
    by_cases hr : r.Same x.1
    · have hnone : item? items x.1 = none := item?_eq_none_of_lt hlt
      have hrest : item? items r = none := by
        refine List.find?_eq_none.mpr fun y hy h => ?_
        have hy' := List.find?_eq_none.mp hnone y hy
        exact hy' (by simpa using hr.symm.trans (by simpa using h))
      simp [hr, hrest]
    · simp [hr]

end Store

/-! ### One more call -/

section Call

variable {deposits : List Deposit} {d : Deposit} {call : SettingsCall} {r r' : Resource}

theorem callsFor_append_of_call? (h : d.call? = some call) :
    callsFor (deposits ++ [d]) r =
      if r.Same call.resource then callsFor deposits r ++ [call] else callsFor deposits r := by
  unfold callsFor
  by_cases hr : r.Same call.resource <;> simp [h, hr]

theorem itemFor?_of_no_call (h : d.call? = none) :
    itemFor? (deposits ++ [d]) r = itemFor? deposits r := by
  have hc : callsFor (deposits ++ [d]) r = callsFor deposits r := by simp [callsFor, h]
  rw [itemFor?, itemFor?, hc]

theorem itemFor?_of_other (h : d.call? = some call) (hr : ¬ r.Same call.resource) :
    itemFor? (deposits ++ [d]) r = itemFor? deposits r := by
  rw [itemFor?, itemFor?, callsFor_append_of_call? h, if_neg hr]

/-- The item does not depend on how the path is spelled. -/
theorem itemFor?_congr (h : r.Same r') : itemFor? deposits r = itemFor? deposits r' := by
  have hc : callsFor deposits r = callsFor deposits r' := by
    refine List.filter_congr fun call _ => decide_eq_decide.mpr ?_
    exact ⟨fun hr => h.symm.trans hr, fun hr => h.trans hr⟩
  have hk (calls : List SettingsCall) :
      ResourceSettings.ofCalls r calls = ResourceSettings.ofCalls r' calls := by
    cases r <;> cases r' <;> first | rfl | exact h.elim
  rw [itemFor?, itemFor?, hc, hk]

namespace ResourceSettings

theorem ofLast_append (calls : List SettingsCall) (call : SettingsCall) :
    ofLast (calls ++ [call]) = { language := call.language, entries := call.entries } := by
  rw [ofLast, List.getLast?_concat]

theorem getD_ofAll (calls : List SettingsCall) :
    (if calls = [] then none else some (ofAll calls)).getD {} = ofAll calls := by
  cases calls <;> rfl

theorem ofAll_append (calls : List SettingsCall) (call : SettingsCall) :
    ofAll (calls ++ [call]) = (ofAll calls).collect call.language call.entries := by
  rw [collect, ofAll, ofAll, addNew_eraseDups]
  simp only [List.findSome?_append, List.findSome?_singleton, List.flatMap_append,
    List.flatMap_singleton]

end ResourceSettings

def SettingsCall.change (call : SettingsCall) (held : Option ResourceSettings) : ResourceSettings :=
  match call.resource with
  | .file _ => { language := call.language, entries := call.entries }
  | _ => (held.getD {}).collect call.language call.entries

theorem ofCalls_append (calls : List SettingsCall) (call : SettingsCall) :
    ResourceSettings.ofCalls call.resource (calls ++ [call]) =
      call.change (if calls = [] then none
        else some (.ofCalls call.resource calls)) := by
  rw [SettingsCall.change]
  cases call.resource with
  | file path => exact ResourceSettings.ofLast_append calls call
  | folder path =>
    have h := ResourceSettings.ofAll_append calls call
    rwa [← ResourceSettings.getD_ofAll calls] at h
  | project =>
    have h := ResourceSettings.ofAll_append calls call
    rwa [← ResourceSettings.getD_ofAll calls] at h

/-- One more call for a resource keeps the spelling of the first one. -/
theorem itemFor?_append (h : d.call? = some call) :
    itemFor? (deposits ++ [d]) call.resource =
      some (match itemFor? deposits call.resource with
        | some (spelled, held) => (spelled, call.change (some held))
        | none => (call.resource, call.change none)) := by
  rw [itemFor?, callsFor_append_of_call? h, if_pos (Resource.Same.refl _), ofCalls_append,
    itemFor?]
  cases callsFor deposits call.resource with
  | nil => rfl
  | cons first calls => rfl

end Call

/-! ### All deposits -/

namespace Store

variable {store : Store} {deposits : List Deposit}

structure Holds (store : Store) (deposits : List Deposit) : Prop where
  sorted : Sorted store.resources
  item : ∀ r, item? store.resources r = itemFor? deposits r
  requests : store.requests = (deposits.filterMap Deposit.request?).eraseDups
  diagnostics : store.diagnostics = deposits.filterMap Deposit.diagnostic?

theorem holds_empty : Holds {} [] where
  sorted := .nil
  item _ := rfl
  requests := rfl
  diagnostics := rfl

theorem item_addSettings (h : store.Holds deposits) (call : SettingsCall) (r : Resource) :
    item? (store.addSettings call.resource call.language call.entries).resources r =
      itemFor? (deposits ++ [.settings call.resource call.language call.entries]) r := by
  have hu : item? (store.addSettings call.resource call.language call.entries).resources r =
      if r.Same call.resource then some (updated store.resources call.resource call.change)
      else item? store.resources r := item?_update h.sorted call.change call.resource r
  have hcall : (Deposit.settings call.resource call.language call.entries).call? = some call := rfl
  by_cases hr : r.Same call.resource
  · rw [hu, if_pos hr, itemFor?_congr hr, itemFor?_append hcall, updated, h.item]
  · rw [hu, if_neg hr, itemFor?_of_other hcall hr, h.item]

theorem filterMap_append_singleton {α : Type} (f : Deposit → Option α) (deposits : List Deposit)
    (d : Deposit) : (deposits ++ [d]).filterMap f = deposits.filterMap f ++ (f d).toList := by
  cases h : f d <;> simp [h]

theorem Holds.addSettings (h : store.Holds deposits) (resource : Resource)
    (language : Option Language) (entries : List Setting) :
    (store.addSettings resource language entries).Holds
      (deposits ++ [.settings resource language entries]) where
  sorted := h.sorted.update _ _
  item := item_addSettings h { resource, language, entries }
  requests := by
    rw [filterMap_append_singleton]
    exact h.requests.trans (by simp [Deposit.request?])
  diagnostics := by
    rw [filterMap_append_singleton]
    exact h.diagnostics.trans (by simp [Deposit.diagnostic?])

theorem Holds.addRequest (h : store.Holds deposits) (request : BuiltinRequest) :
    (store.addRequest request).Holds (deposits ++ [.builtin request]) := by
  have hrequests : ((deposits ++ [Deposit.builtin request]).filterMap Deposit.request?).eraseDups =
      if request ∈ store.requests then store.requests else store.requests ++ [request] := by
    rw [filterMap_append_singleton, h.requests]
    simp only [Deposit.request?, Option.toList_some, eraseDups_append_singleton,
      List.mem_eraseDups]
  have hdiagnostics : store.diagnostics =
      (deposits ++ [Deposit.builtin request]).filterMap Deposit.diagnostic? := by
    rw [filterMap_append_singleton, h.diagnostics]
    simp [Deposit.diagnostic?]
  have hitem (r : Resource) :
      item? store.resources r = itemFor? (deposits ++ [.builtin request]) r := by
    rw [itemFor?_of_no_call rfl, h.item]
  unfold Store.addRequest
  split
  · rename_i hm
    exact ⟨h.sorted, hitem, by rw [hrequests, if_pos hm], hdiagnostics⟩
  · rename_i hm
    exact ⟨h.sorted, hitem, by rw [hrequests, if_neg hm], hdiagnostics⟩

theorem Holds.addDiagnostic (h : store.Holds deposits) (d : Diagnostic) :
    (store.addDiagnostic d).Holds (deposits ++ [.diagnostic d]) where
  sorted := h.sorted
  item r := by
    rw [itemFor?_of_no_call rfl]
    exact h.item r
  requests := by
    rw [filterMap_append_singleton]
    exact h.requests.trans (by simp [Deposit.request?])
  diagnostics := by
    rw [filterMap_append_singleton]
    exact congrArg (· ++ [d]) h.diagnostics

theorem Holds.add (h : store.Holds deposits) (d : Deposit) :
    (store.add d).Holds (deposits ++ [d]) := by
  cases d with
  | settings resource language entries => exact h.addSettings resource language entries
  | builtin request => exact h.addRequest request
  | diagnostic d => exact h.addDiagnostic d

theorem holds_addAll (deposits : List Deposit) : (addAll {} deposits).Holds deposits := by
  induction deposits using List.reverseRecOn with
  | nil => exact holds_empty
  | append_singleton deposits d ih =>
    rw [addAll, List.foldl_append]
    exact ih.add d

/-- What a report lists after any deposits: every resource with a call once, files before folders
before the project and paths by their components, with what its calls give, and the distinct
requests and all diagnostics. -/
theorem report_addAll (deposits : List Deposit) (statistics : Statistics) :
    let store := addAll {} deposits
    let report := Report.ofStore store statistics
    (∀ r, store.get? r = (itemFor? deposits r).map (·.2)) ∧
    (∀ r, (report.resources.filter fun x => r.Same x.1) = (itemFor? deposits r).toList) ∧
    (report.resources.Pairwise fun a b => a.1.Before b.1) ∧
    report.requests = (deposits.filterMap Deposit.request?).eraseDups ∧
    report.diagnostics = deposits.filterMap Deposit.diagnostic? := by
  intro store report
  have h : store.Holds deposits := holds_addAll deposits
  refine ⟨fun r => ?_, fun r => ?_, h.sorted.imp Resource.compare_eq_lt_iff.mp, h.requests,
    h.diagnostics⟩
  · rw [get?_eq, h.item]
  · exact (h.sorted.filter_eq r).trans (by rw [h.item])

/-- Calls for the project, two folders and two files, one of them under two spellings. -/
theorem report_addAll_three_kinds :
    let a := Setting.define "A" none
    let b := Setting.define "B" none
    let deposits : List Deposit := [.settings .project none [a],
      .settings (.folder "/p/src") none [b, a], .settings (.file "/p//b.c") (some .c) [a],
      .diagnostic { location := "entry 4", message := [] }, .settings (.folder "/p") none [],
      .settings (.file "/p/a/z.c") none [b], .settings (.folder "/p/src/") (some .cxx) [a, b],
      .settings (.file "/p/./b.c") none [b, b]]
    let report := Report.ofStore (addAll {} deposits) {}
    report.resources = [(.file "/p/a/z.c", { entries := [b] }),
        (.file "/p//b.c", { entries := [b, b] }), (.folder "/p", {}),
        (.folder "/p/src", { language := some .cxx, entries := [b, a] }),
        (.project, { entries := [a] })] ∧
      (report.resources.Pairwise fun x y => x.1.Before y.1) ∧
      report.diagnostics = [{ location := "entry 4", message := [] }] := by
  intro a b deposits report
  obtain ⟨-, -, hsorted, -, hdiagnostics⟩ := report_addAll deposits {}
  exact ⟨by decide +kernel, hsorted, hdiagnostics⟩

end Store

end SettingsScan
