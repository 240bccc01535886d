import SettingsScan.Proofs.Detection.BuiltinRegistry
import SettingsScan.Proofs.Detection.Scan

/-! # The built-in detectors are exact and disjoint

A line that does not start with a quote is recognised by the detectors of the tools whose file name
ends its first word, and a file name belongs to one tool and one method. So the order in which the
detectors and methods are tried does not matter.
-/

namespace SettingsScan

namespace Registry

variable {r : Registry} {options : DetectionOptions} {line : Text} {style : PathStyle}

namespace IsBuiltin

variable {versions : Bool} {i j : Nat} {d e : Detector} {m n : DetectionMethod}

theorem unique (h : r.IsBuiltin versions) (hl : line.head? ≠ some '"')
    (hd : r.posix[i]? = some d) (he : r.posix[j]? = some e) (hm : (d.match? line m).isSome)
    (hn : (e.match? line n).isSome) : i = j ∧ m = n := by
  obtain ⟨t, ht⟩ := h.exists_tool hd
  obtain ⟨u, hu⟩ := h.exists_tool he
  obtain ⟨found, hm⟩ := Option.isSome_iff_exists.mp hm
  obtain ⟨found', hn⟩ := Option.isSome_iff_exists.mp hn
  obtain ⟨rfl, rfl⟩ := ((h.match?_eq_some_iff_of_head hd ht hl).mp hm).unique
    ((h.match?_eq_some_iff_of_head he hu hl).mp hn) (List.mem_of_getElem? ht)
    (List.mem_of_getElem? hu)
  have hi := (List.getElem?_eq_some_iff.mp ht).1
  exact ⟨(List.getElem?_inj hi (by decide)).mp (ht.trans hu.symm), rfl⟩

end IsBuiltin

theorem IsBuiltin.unique_pair {versions : Bool} (h : r.IsBuiltin versions)
    (hl : line.head? ≠ some '"') {p q : DetectorId × DetectionMethod} (hp : p ∈ r.pairs .posix)
    (hq : q ∈ r.pairs .posix) (hpm : (r.tryPair line p).isSome) (hqm : (r.tryPair line q).isSome) :
    p = q := by
  have detector {p : DetectorId × DetectionMethod} (hp : p ∈ r.pairs .posix)
      (hpm : (r.tryPair line p).isSome) :
      ∃ d, r.posix[p.1.index]? = some d ∧ (d.match? line p.2).isSome := by
    obtain ⟨x, hx⟩ := Option.isSome_iff_exists.mp hpm
    obtain ⟨d, hd, hm⟩ := Option.bind_eq_some_iff.mp hx
    rw [get?, style_of_mem_pairs hp] at hd
    exact ⟨d, hd, by simpa using Option.isSome_of_eq_some hm⟩
  obtain ⟨d, hd, hdm⟩ := detector hp hpm
  obtain ⟨e, he, hem⟩ := detector hq hqm
  obtain ⟨hi, hm⟩ := h.unique hl hd he hdm hem
  have hstyle := (style_of_mem_pairs hp).trans (style_of_mem_pairs hq).symm
  obtain ⟨⟨style, index⟩, method⟩ := p
  obtain ⟨⟨style', index'⟩, method'⟩ := q
  obtain rfl : style = style' := hstyle
  obtain rfl : index = index' := hi
  obtain rfl : method = method' := hm
  rfl

/-- The built-in detectors recognise a line that does not start with a quote exactly if the last
segment of its first word is a file name of their tool. There is at most one of them, with one
method, so that the scan may try them in any order. -/
theorem ofTools_exact (hv : options.UsualVersions) :
    ∃ r, ofTools options [] = .ok r ∧ r.posix.length = BuiltinTool.all.length ∧
      ∀ line : Text, line.head? ≠ some '"' →
        (∀ (i : Nat) (d : Detector) (t : BuiltinTool),
          r.posix[i]? = some d → BuiltinTool.all[i]? = some t →
          d.reader = { family := t.family, language := t.language } ∧
          ∀ m found, d.match? line m = some found ↔
            t.Recognizes options.versionSuffix.isSome m line found) ∧
        (∀ (i j : Nat) (d e : Detector) (m n : DetectionMethod),
          r.posix[i]? = some d → r.posix[j]? = some e →
          (d.match? line m).isSome → (e.match? line n).isSome → i = j ∧ m = n) ∧
        ∀ pairs : List (DetectorId × DetectionMethod), pairs.Perm (r.pairs .posix) →
          pairs.findSome? (r.tryPair line) = r.scan .posix line := by
  obtain ⟨r, hr, -, h⟩ := exists_ofTools hv
  refine ⟨r, hr, h.length, fun line hl => ⟨?_, ?_, ?_⟩⟩
  · intro i d t hd ht
    exact ⟨(h.detector i d t hd ht).1, fun m found => h.match?_eq_some_iff_of_head hd ht hl⟩
  · intro i j d e m n
    exact h.unique hl
  · intro pairs hperm
    rw [scan_eq_findSome?]
    exact findSome?_perm hperm fun p hp q hq => h.unique_pair hl hp hq

theorem ofTools_exact_cross_compiler :
    ∃ r, ofTools { versionSuffix := some defaultVersionSuffix } [] = .ok r ∧
      ∃ d, r.posix[1]? = some d ∧
        d.match? "/opt/arm-gcc-12.2.Exe -c a.c".toList .withVersionAndExtension =
          some { command := "/opt/arm-gcc-12.2.Exe", arguments := "-c a.c" } := by
  have hv : DetectionOptions.UsualVersions { versionSuffix := some defaultVersionSuffix } :=
    .inr rfl
  obtain ⟨r, hr, hlen, h⟩ := ofTools_exact hv
  obtain ⟨d, hd⟩ : ∃ d, r.posix[1]? = some d :=
    ⟨_, List.getElem?_eq_getElem (by rw [hlen]; decide)⟩
  obtain ⟨hexact, -⟩ := h "/opt/arm-gcc-12.2.Exe -c a.c".toList (by decide)
  refine ⟨r, hr, d, hd, ((hexact 1 _ _ hd rfl).2 _ _).mpr ⟨⟨fun _ => rfl, ?_⟩,
    Text.forall_eq_false (by decide), ' ', by decide, rfl⟩⟩
  have hname : BuiltinTool.Names ⟨"gcc", true, .gcc, none⟩ "arm-gcc".toList :=
    ⟨"arm".toList, by decide, List.all_eq_true.mp (by decide), rfl⟩
  have hversion : FileName.IsVersion "-12.2".toList :=
    ⟨['-'], "12".toList, ["2".toList], .inr rfl, by decide, by decide, rfl⟩
  have hextension : FileName.IsExe ".Exe".toList := ⟨"Exe".toList, by decide, rfl⟩
  exact ⟨_, _, _, hname, hversion, hextension, by decide⟩

end Registry

end SettingsScan
