import SettingsScan.Option.Spelling
import SettingsScan.Proofs.Detection.Registry
import SettingsScan.Proofs.Pattern.Seek

/-! # Lines that start with `gcc`

A line that starts with the plain name of the first built-in tool is recognised by its detector,
whatever the options are, and all that follows the name are its arguments.
-/

namespace SettingsScan

open Pattern (Node Place)
open Pattern.Node
open Spelling (blank notBlank)

theorem Detector.of_ofPatterns {name : Text} {extension version : Option Text} {style : PathStyle}
    {reader : ArgumentReader} {d : Detector}
    (h : ofPatterns name extension version style reader = .ok d) :
    ToolPatterns.ofName style (baseText name) = .ok d.plain ∧ d.reader = reader := by
  obtain ⟨plain, hp, h⟩ := Except.exists_of_bind_eq_ok h
  obtain ⟨versioned, -, h⟩ := Except.exists_of_bind_eq_ok h
  obtain ⟨extended, -, h⟩ := Except.exists_of_bind_eq_ok h
  obtain ⟨both, -, h⟩ := Except.exists_of_bind_eq_ok h
  cases h
  exact ⟨hp, rfl⟩

namespace ToolPatterns

def gcc : ToolPatterns where
  quoted := concat [.look .textStart, char '"',
    group 1 (seq (opt (seq (many (one (.complement (.union .empty (.single '"'))))) (char '/')))
      (literal "gcc")), char '"', blank]
  unquoted := concat [.look .textStart,
    group 1 (seq (opt (seq (many (one notBlank)) (char '/'))) (literal "gcc")), blank]

theorem ofName_gcc : ofName .posix (Detector.baseText "gcc") = .ok gcc := by
  have h : (ofName .posix (Detector.baseText "gcc")).toOption = some gcc := by decide +kernel
  cases hn : ofName .posix (Detector.baseText "gcc") with
  | error e => rw [hn] at h; cases h
  | ok p => rw [hn] at h; exact congrArg _ (Option.some.inj h)

theorem match?_gcc (rest : Text) :
    gcc.match? ("gcc ".toList ++ rest) = some { command := "gcc", arguments := rest } := by
  have hstart (n : Node) (ns : List Node) :
      (concat (.look .textStart :: n :: ns)).match? ("gcc ".toList ++ rest) =
        n.seek ((concat ns).seek some) (Place.start ("gcc ".toList ++ rest)) := by
    rw [match?_eq_seek, seek_concat_cons, seek_look, if_pos (by rfl), seek_concat_cons]
  -- no directory stands in front of the name
  have hdir {β : Type} (k : Place → Option β) :
      (seq (many (one notBlank)) (char '/')).seek k (Place.start ("gcc ".toList ++ rest)) =
        none := by
    rw [seek_seq]
    refine seek_many_one_eq_none (t := "gcc".toList) (r := ' ' :: rest) rfl (by rfl) ?_
    intro u v huv
    refine seek_char_eq_none fun hh => ?_
    rw [Place.rest_after] at hh
    cases v with
    | nil => cases hh
    | cons c v =>
      obtain rfl : c = '/' := Option.some.inj hh
      have hmem : '/' ∈ "gcc".toList := by rw [huv]; simp
      exact absurd hmem (by decide)
  have hq : matchWith? gcc.quoted ("gcc ".toList ++ rest) = none := by
    rw [matchWith?, gcc, hstart, seek_char_eq_none (by simp), Option.bind_none]
  have hu : matchWith? gcc.unquoted ("gcc ".toList ++ rest) =
      some { command := "gcc", arguments := rest } := by
    rw [matchWith?, gcc, hstart, seek_group, seek_seq, seek_opt, hdir, Option.none_or,
      seek_literal (r := ' ' :: rest) rfl, concat, blank, seek_one_cons rfl, if_pos (by rfl)]
    rfl
  rw [match?, hq, hu]
  rfl

end ToolPatterns

namespace Registry

variable {r : Registry} {options : DetectionOptions}

theorem posix_of_ofTools (h : ofTools options [] = .ok r) :
    ∃ d ds, r.posix = d :: ds ∧ d.plain = ToolPatterns.gcc ∧ d.reader = { family := .gcc } := by
  obtain ⟨-, hp, -⟩ := mapM_of_ofTools h
  obtain ⟨tools, ht⟩ : ∃ tools, builtinTools =
      { name := "gcc".toList, family := .gcc, extension := some "exe".toList } :: tools := ⟨_, rfl⟩
  rw [List.nil_append, ht, List.mapM_cons] at hp
  obtain ⟨d, hd, hp⟩ := Except.exists_of_bind_eq_ok hp
  obtain ⟨ds, -, hp⟩ := Except.exists_of_bind_eq_ok hp
  obtain ⟨hplain, hreader⟩ := Detector.of_ofPatterns (Except.eq_ok_of_mapError_eq_ok hd)
  refine ⟨d, ds, (Except.ok.inj hp).symm, ?_, hreader⟩
  exact (Except.ok.inj (ToolPatterns.ofName_gcc.symm.trans hplain)).symm

theorem detect_gcc (h : ofTools options [] = .ok r) (e : Expander) (rest : Text) :
    ∃ d, r.detect e ("gcc ".toList ++ rest) = some d ∧ d.detector.reader = { family := .gcc } ∧
      d.arguments = rest := by
  obtain ⟨d, ds, hd, hp, hr⟩ := posix_of_ofTools h
  have hs : r.scan .posix ("gcc ".toList ++ rest) = some
      { id := { style := .posix, index := 0 }, detector := d, method := .basename,
        command := "gcc", arguments := rest } := by
    have hm : d.match? ("gcc ".toList ++ rest) .basename =
        some { command := "gcc", arguments := rest } := by
      rw [Detector.match?, Detector.patterns?, Option.bind_some, hp, ToolPatterns.match?_gcc]
    rw [scan, detectors, hd, DetectionMethod.all, List.findSome?_cons, List.zipIdx_cons,
      List.findSome?_cons]
    simp only [hm, Option.map_some]
  have hw : r.scanWritten ("gcc ".toList ++ rest) = r.scan .posix ("gcc ".toList ++ rest) := by
    rw [scanWritten, hs, Option.some_or]
  exact ⟨_, detect_of_scanWritten (hw.trans hs), hr, rfl⟩

end Registry

end SettingsScan
