import Mathlib.Data.List.Pairwise
import SettingsScan.Proofs.CommandLine.Forwarded
import SettingsScan.Proofs.Pattern.Heads

/-! # The order of the rules

The spellings of two rules of a dialect have no text in common, but for one pair. The standard of
the language behind two dashes and an equals sign is known to two rules, and both take the same
there. So the rules may be tried in any order.
-/

namespace SettingsScan

open Pattern (CharSet Head Node Place)
open Pattern.Node
open Spelling

variable {d : Dialect} {t word tail : Text} {a b : OptionRule} {rules rules' : List OptionRule}

/-! ### Rules that have no text in common -/

theorem OptionMatcher.exists_opens_of_lookingAt {m : OptionMatcher} {found : OptionMatch}
    (h : m.lookingAt t = some found) : ∃ head ∈ m.node.heads [[]], head.opens t := by
  obtain ⟨place, hplace, -⟩ := exists_place_of_lookingAt h
  exact exists_opens_of_match? hplace

namespace OptionRule

def heads (rule : OptionRule) : List Head :=
  rule.matchers.flatMap (·.node.heads [[]])

/-- No text opens with a head of either rule. -/
def apart (a b : OptionRule) : Bool :=
  a.heads.all fun head => b.heads.all head.clash

/-- Where both rules take something, they take the same and find the same. -/
def Agree (a b : OptionRule) : Prop :=
  ∀ directory t x y, a.take? directory t = some x → b.take? directory t = some y → x = y

theorem take?_of_first {rule : OptionRule} {m : OptionMatcher} {ms : List OptionMatcher}
    {found : OptionMatch} {directory : Text} (hm : rule.matchers = m :: ms)
    (h : m.lookingAt t = some found) :
    rule.take? directory t = some (rule.meaning.taken directory found) := by
  rw [take?, hm, List.findSome?_cons, h]
  rfl

theorem exists_opens_of_take? {rule : OptionRule} {directory : Text} {x : Taken}
    (h : rule.take? directory t = some x) : ∃ head ∈ rule.heads, head.opens t := by
  obtain ⟨found, hfound, -⟩ := Option.map_eq_some_iff.mp h
  obtain ⟨m, hm, hl⟩ := List.exists_of_findSome?_eq_some hfound
  obtain ⟨head, hhead, ho⟩ := OptionMatcher.exists_opens_of_lookingAt hl
  exact ⟨head, List.mem_flatMap.mpr ⟨m, hm, hhead⟩, ho⟩

instance : Std.Symm Agree where
  symm _ _ h directory t x y hx hy := (h directory t y x hy hx).symm

theorem Agree.refl (a : OptionRule) : a.Agree a := fun _ _ _ _ hx hy =>
  Option.some.inj (hx.symm.trans hy)

theorem agree_of_apart (h : a.apart b) : a.Agree b := by
  intro directory t x y hx hy
  obtain ⟨head, hhead, ho⟩ := exists_opens_of_take? hx
  obtain ⟨head', hhead', ho'⟩ := exists_opens_of_take? hy
  have hclash := List.all_eq_true.mp (List.all_eq_true.mp h head hhead) head' hhead'
  rw [Head.not_opens_of_clash hclash ho] at ho'
  cases ho'

end OptionRule

/-! ### The two rules for the standard of the language -/

def longStandardSpelling : Node :=
  concat [Dialect.longOption "--std", blanks, Dialect.operand]

def gccStandard : OptionRule where
  family := "language-standard"
  meaning := .builtinArgument
  matchers := verbatim [standardSpelling, literal "-ansi"]

def nvccStandard : OptionRule where
  family := "language-standard"
  meaning := .builtinArgument
  matchers := verbatim
    [longStandardSpelling, concat [literal "-std", some_ blank, Dialect.operand]]

theorem covers_standard (hn : word ≠ []) (hw : ∀ c ∈ word, isAsciiBlank c = false)
    (ht : atEnd tail) : standardSpelling.Covers ("--std=".toList ++ word) tail := by
  refine ⟨fun {β k p} hp hk => ?_⟩
  have hrest : p.rest = '-' :: '-' :: ("std=".toList ++ (word ++ tail)) := by simp [hp]
  -- with one dash, the other one stands where the name should be
  have hname : (concat [literal "std=", Dialect.operand]).seek k
      (p.after ['-'] ('-' :: ("std=".toList ++ (word ++ tail)))) = none :=
    seek_eq_none_of_mayMatch (k := fun _ => true) (by decide)
      (Pattern.Hint.fits_exactly_map ['-']) rfl fun _ _ _ hk => nomatch hk
  rw [standardSpelling, seek_concat_cons, seek_char_cons hrest, seek_concat_cons, seek_opt, hname,
    Option.or_none, seek_char_cons rfl, seek_concat_cons, seek_literal rfl, concat,
    seek_operand rfl hn hw ht hk]
  simp [Place.after_after]

theorem covers_longStandard (hn : word ≠ []) (hw : ∀ c ∈ word, isAsciiBlank c = false)
    (ht : atEnd tail) : longStandardSpelling.Covers ("--std=".toList ++ word) tail := by
  refine ⟨fun {β k p} hp hk => ?_⟩
  have hrest : p.rest = "--std".toList ++ '=' :: (word ++ tail) := by simp [hp]
  rw [longStandardSpelling, seek_concat_cons, Dialect.longOption, seek_seq, seek_literal hrest,
    seek_one_cons rfl, if_pos (by decide), seek_concat_cons, concat, blanks, blank,
    seek_many_one (t := []) rfl (by simp) (head?_word_any_space hn hw tail)
      fun q hq => seek_operand_eq_none hq,
    seek_operand rfl hn hw ht hk]
  simp [Place.after_after]

/-- The only texts that both rules know. -/
theorem exists_of_take?_standard {directory : Text} {x y : Taken}
    (hx : nvccStandard.take? directory t = some x) (hy : gccStandard.take? directory t = some y) :
    ∃ c r, t = "--std=".toList ++ c :: r ∧ isAsciiBlank c = false := by
  have hclash : ∀ head ∈ nvccStandard.heads, ∀ head' ∈ gccStandard.heads,
      head.clash head' ∨ head' = "--std=".toList.map .single ++ [notBlank] := by
    decide +kernel
  obtain ⟨head, hhead, ho⟩ := OptionRule.exists_opens_of_take? hx
  obtain ⟨head', hhead', ho'⟩ := OptionRule.exists_opens_of_take? hy
  rcases hclash head hhead head' hhead' with hclash | rfl
  · rw [Head.not_opens_of_clash hclash ho] at ho'
    cases ho'
  · obtain ⟨r, rfl, hr⟩ := Head.opens_append_iff.mp ho'
    cases r with
    | nil => cases hr
    | cons c r =>
      have hc : notBlank.contains c := (Bool.and_eq_true_iff.mp hr).1
      rw [contains_notBlank, Bool.not_eq_true'] at hc
      exact ⟨c, r, rfl, hc⟩

theorem nvccStandard_agree : nvccStandard.Agree gccStandard := by
  intro directory t x y hx hy
  obtain ⟨c, r, rfl, hc⟩ := exists_of_take?_standard hx hy
  obtain ⟨word, tail, hsplit, hn, hw, ht⟩ : ∃ word tail, c :: r = word ++ tail ∧ word ≠ [] ∧
      (∀ c ∈ word, isAsciiBlank c = false) ∧ atEnd tail := by
    refine ⟨(c :: r).takeWhile (!isAsciiBlank ·), (c :: r).dropWhile (!isAsciiBlank ·),
      List.takeWhile_append_dropWhile.symm, by simp [hc],
      fun a ha => by simpa using List.mem_takeWhile_imp ha, ?_⟩
    cases h : (c :: r).dropWhile (!isAsciiBlank ·) with
    | nil => rfl
    | cons d t => simpa [h, atEnd] using List.head?_dropWhile_not (!isAsciiBlank ·) (c :: r)
  rw [hsplit, ← List.append_assoc] at hx hy
  have hlong := (covers_longStandard hn hw ht).lookingAt (by simp) ht
  have hshort := (covers_standard hn hw ht).lookingAt (by simp) ht
  rw [OptionRule.take?_of_first rfl hlong] at hx
  rw [OptionRule.take?_of_first rfl hshort] at hy
  cases hx
  cases hy
  rfl

/-! ### All rules of a dialect -/

theorem Dialect.pairwise_rules (d : Dialect) :
    d.rules.Pairwise fun a b => a.apart b ∨ a = nvccStandard ∧ b = gccStandard := by
  cases d <;> decide +kernel

theorem Dialect.agree (ha : a ∈ d.rules) (hb : b ∈ d.rules) : a.Agree b := by
  have hpairs : d.rules.Pairwise OptionRule.Agree := d.pairwise_rules.imp fun {a b} h => by
    rcases h with h | ⟨rfl, rfl⟩
    · exact OptionRule.agree_of_apart h
    · exact nvccStandard_agree
  exact hpairs.forall_of_forall (fun a _ => .refl a) ha hb

/-- The rules take the same of a text in any order. -/
theorem Dialect.findSome?_perm (h : rules.Perm d.rules) (directory t : Text) :
    rules.findSome? (·.take? directory t) = d.rules.findSome? (·.take? directory t) :=
  findSome?_perm_of_agree h fun _ ha _ hb x y => Dialect.agree ha hb directory t x y

/-! ### Runs -/

namespace ArgumentReader

variable {directory : Text}

theorem takeAll_congr (h : ∀ t, rules.findSome? (·.take? directory t) =
      rules'.findSome? (·.take? directory t)) (responseFiles : Bool) (expand : Text → Parsed)
    (n : Nat) (text : Text) :
    takeAll rules responseFiles directory expand n text =
      takeAll rules' responseFiles directory expand n text := by
  have hone (t : Text) : takeOne rules responseFiles directory expand t =
      takeOne rules' responseFiles directory expand t := by
    rw [takeOne, takeOne, h]
  induction n generalizing text with
  | zero => rfl
  | succ n ih =>
    unfold takeAll
    split
    · rfl
    · simp only [hone, ih]

theorem readWith_congr (h : ∀ t, rules.findSome? (·.take? directory t) =
      rules'.findSome? (·.take? directory t)) (responseFiles : Bool) (contents : Contents)
    (levels : Nat) (args : Text) :
    readWith rules responseFiles directory contents levels args =
      readWith rules' responseFiles directory contents levels args := by
  induction levels generalizing args with
  | zero => exact takeAll_congr h responseFiles _ _ args
  | succ levels ih =>
    unfold readWith
    simp only [ih]
    exact takeAll_congr h responseFiles _ _ args

/-- The arguments are read in the same way with the rules in any order: the same settings and
forwarded options are found, and the same files are asked for. -/
theorem readWith_perm (h : rules.Perm d.rules) (responseFiles : Bool) (directory : Text)
    (contents : Contents) (levels : Nat) (args : Text) :
    readWith rules responseFiles directory contents levels args =
      readWith d.rules responseFiles directory contents levels args :=
  readWith_congr (Dialect.findSome?_perm h directory) responseFiles contents levels args

/-- With the rules in reverse, the other rule for the standard comes first, also in a file. -/
theorem readWith_perm_reverse :
    let rules := Dialect.nvcc.rules.reverse
    let contents : Contents := fun path =>
      if path = "/src/more".toList then some "--std=c++17 -Iinc".toUTF8.toList else none
    let args := "-DA=1 @more".toList
    rules.Perm Dialect.nvcc.rules ∧
      readWith rules true "/src".toList contents depthLimit args =
        readWith Dialect.nvcc.rules true "/src".toList contents depthLimit args := by
  intro rules contents args
  have hperm : rules.Perm Dialect.nvcc.rules := List.reverse_perm _
  exact ⟨hperm, readWith_perm hperm true "/src".toList contents depthLimit args⟩

end ArgumentReader

end SettingsScan
