import SettingsScan.Proofs.CommandLine.Depth

/-! # References that are not read

A reference whose file can not be read, one that is nested too deep, and one to the command line
itself give nothing, and are passed like any other word. So is every reference when response files
are turned off, if a reference ends where a word does.
-/

namespace SettingsScan

open Pattern (Hint)
open Spelling
open ResponseFile

/-- A reference in the text is a word: blank characters are those of ASCII, and no name of a file
stands in quotes. -/
structure ReferencesAreWords (text : Text) : Prop where
  blanks : ∀ c ∈ text, isBlank c → isAsciiBlank c
  unquoted : ∀ quote, Quote quote → ¬ ['@', quote] <:+: text

variable {d : Dialect} {responseFiles : Bool} {directory text rest name ref : Text}
  {expand expand' : Text → Parsed} {contents : Contents}

namespace ReferencesAreWords

theorem of_suffix (h : ReferencesAreWords text) (hs : rest <:+ text) : ReferencesAreWords rest :=
  ⟨fun c hc => h.blanks c (hs.subset hc),
    fun quote hq hi => h.unquoted quote hq (hi.trans hs.isInfix)⟩

theorem dropWhile_eq (h : ReferencesAreWords text) :
    text.dropWhile (!isAsciiBlank ·) = text.dropWhile (!isBlank ·) := by
  induction text with
  | nil => rfl
  | cons c t ih =>
    have hc : isAsciiBlank c = isBlank c :=
      Bool.eq_iff_iff.mpr ⟨isBlank_of_isAsciiBlank, h.blanks c List.mem_cons_self⟩
    rw [List.dropWhile_cons, List.dropWhile_cons, hc, ih (h.of_suffix (List.suffix_cons c t))]

end ReferencesAreWords

namespace ResponseFile

theorem atSign_of_blank {b : Char} (hb : isAsciiBlank b) :
    atSign.filter (·.mayTake [Hint.exactly '@', Hint.exactly b]) = [] := by
  have hall : asciiBlanks.all fun b =>
      (atSign.filter (·.mayTake [Hint.exactly '@', Hint.exactly b])).isEmpty := by
    decide
  exact List.isEmpty_iff.mp (List.all_eq_true.mp hall b (mem_asciiBlanks hb))

theorem atSign_of_other : atSign.filter (·.mayTake [Hint.noneOf ['@']]) = [] := by
  decide

theorem findSome?_atSign_eq_none {hints : List Hint} {u : Text}
    (hu : List.Forall₂ Hint.Fits hints u) (ha : atSign.filter (·.mayTake hints) = []) (r : Text) :
    atSign.findSome? (·.lookingAt (u ++ r)) = none := by
  rw [← findSome?_filter fun m _ hm => OptionMatcher.lookingAt_eq_none_of_mayTake hm hu r, ha,
    List.findSome?_nil]

theorem readPath_of_word {body : Text} (h : ReferencesAreWords ('@' :: body))
    {x : Text × Text} (hx : readPath body = some x) :
    x.2 = ('@' :: body).dropWhile (!isBlank ·) := by
  have hquote {quote : Char} (hq : Quote quote) : body.head? ≠ some quote := by
    intro he
    obtain ⟨t, rfl⟩ := List.head?_eq_some_iff.mp he
    exact h.unquoted quote hq (List.infix_append [] ['@', quote] t)
  rw [readPath, enclosed?_eq_none (hquote (.inl rfl)), enclosed?_eq_none (hquote (.inr rfl))] at hx
  by_cases hbody : body = []
  · rw [if_pos hbody] at hx
    cases hx
  · rw [if_neg hbody] at hx
    cases hx
    rw [List.dropWhile_cons_of_pos (by decide)]
    exact (h.of_suffix (List.suffix_cons '@' body)).dropWhile_eq

/-- A reference that is a word is taken up to the end of the word. -/
theorem rest_of_word {m : OptionMatch} (h : ReferencesAreWords text)
    (hm : atSign.findSome? (·.lookingAt text) = some m) : m.rest = text.dropWhile (!isBlank ·) := by
  cases text with
  | nil => cases hm
  | cons c body =>
    by_cases hc : c = '@'
    · subst hc
      cases hb : body.head?.any isAsciiBlank with
      | true =>
        obtain ⟨b, hbody, hblank⟩ := (Option.any_eq_true _ _).mp hb
        obtain ⟨t, rfl⟩ := List.head?_eq_some_iff.mp hbody
        have hnone := findSome?_atSign_eq_none (Hint.fits_exactly_map ['@', b])
          (atSign_of_blank hblank) t
        rw [List.cons_append, List.cons_append, List.nil_append, hm] at hnone
        cases hnone
      | false =>
        have hread := map_reading_reference '@' body hb
        rw [show reference (Pattern.Node.char '@') = atSign from rfl, hm, Option.map_some] at hread
        obtain ⟨x, hx, hmx⟩ := Option.map_eq_some_iff.mp hread.symm
        exact (congrArg (·.2.2) hmx).symm.trans (readPath_of_word h hx)
    · have hnone := findSome?_atSign_eq_none (.cons (Hint.fits_noneOf (by simpa using hc)) .nil)
        atSign_of_other body
      rw [List.singleton_append, hm] at hnone
      cases hnone

end ResponseFile

namespace ArgumentReader

/-! ### Files that give nothing -/

theorem findings_takeText_congr (h : ∀ path, (expand path).findings = (expand' path).findings)
    (text : Text) :
    (takeText d responseFiles directory expand text).findings =
      (takeText d responseFiles directory expand' text).findings := by
  refine takeText_rel (R := fun p q => p.findings = q.findings) (fun _ => rfl) ?_ fun path _ =>
    h path
  intro p p' q q' hp hq
  rw [Parsed.findings_append, Parsed.findings_append, hp, hq]

theorem findings_expandAt_unreadable (levels : Nat) (path : Text) :
    (expandAt d responseFiles directory (fun _ => none) levels path).findings = {} := by
  cases levels <;> rfl

/-! ### References as words -/

theorem takeOne_of_word (d : Dialect) (directory : Text) (expand : Text → Parsed)
    (h : ReferencesAreWords text) :
    (takeOne d.rules true directory (fun _ => {}) text).parsed =
        (takeOne d.rules false directory expand text).parsed ∧
      (takeOne d.rules true directory (fun _ => {}) text).rest =
        (takeOne d.rules false directory expand text).rest := by
  unfold takeOne
  cases d.rules.findSome? (·.take? directory text) with
  | some found => exact ⟨rfl, rfl⟩
  | none =>
    cases hm : atSign.findSome? (·.lookingAt text) with
    | none => simp [recognize?, hm]
    | some m =>
      simp only [recognize?, hm, if_true, Option.map_some, rest_of_word h hm]
      refine ⟨?_, rfl⟩
      split <;> rfl

theorem takeText_of_words (h : ReferencesAreWords text) :
    takeText d true directory (fun _ => {}) text = takeText d false directory expand text := by
  induction text using argumentInduction d false directory expand with
  | gap hg => rw [takeText_gap hg, takeText_gap hg]
  | @next gap u hg hn hb ih =>
    have hu := h.of_suffix (List.suffix_append gap u)
    have hrest := (takeOne_cuts d false directory expand hn hb).append_eq
    obtain ⟨hparsed, hrests⟩ := takeOne_of_word d directory expand hu
    rw [takeText_gap_next hg hn hb, takeText_gap_next hg hn hb, hparsed, hrests,
      ih (hu.of_suffix ⟨_, hrest⟩)]

/-! ### References to the command line -/

theorem takeText_skipped_reference (href : ref ∈ spellings name)
    (hr : ∀ c ∈ ref, isBlank c = false) (ht : atEnd rest) :
    takeText d false directory expand (ref ++ rest) =
      takeText d false directory expand rest := by
  have hword := dropWhile_word hr ht
  obtain ⟨r, rfl⟩ := exists_cons_of_mem_spellings href
  have hrules := findSome?_rules_of_reference d directory (r ++ rest)
  have hone : takeOne d.rules false directory expand ('@' :: r ++ rest) =
      { parsed := {}, taken := Text.firstWord ('@' :: r ++ rest), rest } := by
    rw [← List.cons_append] at hrules
    simp only [takeOne, hrules, hword, Bool.false_eq_true, if_false]
  rw [takeText_next d false directory expand (by simp) (by rfl), hone, Parsed.empty_append]

theorem takeText_inline (responseFiles : Bool) (href : ref ∈ spellings inlineName)
    (ht : atEnd rest) :
    takeText d responseFiles directory expand (ref ++ rest) =
      takeText d responseFiles directory expand rest := by
  cases responseFiles with
  | false =>
    have hall : ∀ ref ∈ spellings inlineName, ref.all (!isBlank ·) := by decide
    exact takeText_skipped_reference href
      (fun c hc => by simpa using List.all_eq_true.mp (hall ref href) c hc) ht
  | true =>
    have hname : ∀ c ∈ inlineName, isAsciiBlank c = false ∧ ¬Quote c := by
      intro c hc
      obtain rfl : c = '<' := by simpa [inlineName] using hc
      exact ⟨rfl, by simp [Quote]⟩
    rw [takeText_spelling (by decide) hname href ht, if_pos rfl, Parsed.empty_append]

/-- Files that can not be read and files that are nested too deep give the same findings, which are
those without response files if references are words. A reference to the command line gives
nothing at all. -/
theorem read_unread (reader : ArgumentReader) (directory text : Text) :
    let expanding : ArgumentReader := { reader with responseFiles := true }
    let skipping : ArgumentReader := { reader with responseFiles := false }
    let unread := (expanding.read directory text fun _ => none).findings
    (∀ contents,
      (readWith reader.family.dialect.rules true directory contents 0 text).findings = unread) ∧
    (ReferencesAreWords text →
      ∀ contents, (skipping.read directory text contents).findings = unread) ∧
    ∀ ref ∈ spellings inlineName, ∀ rest contents,
      reader.read directory (ref ++ ' ' :: rest) contents =
        reader.read directory rest contents := by
  intro expanding skipping unread
  have hunread : unread =
      (takeText reader.family.dialect true directory (fun _ => {}) text).findings := by
    simp only [unread, read, readWith_eq]
    exact findings_takeText_congr (findings_expandAt_unreadable depthLimit) text
  refine ⟨fun contents => ?_, fun h contents => ?_, fun ref href rest contents => ?_⟩
  · rw [hunread, readWith_eq]
    rfl
  · rw [hunread, takeText_of_words h, read, readWith_eq]
  · have hgap : [' '].all isBlank := rfl
    rw [read, read, readWith_eq, readWith_eq,
      takeText_inline reader.responseFiles href (show atEnd (' ' :: rest) from rfl),
      ← List.singleton_append, takeText_gap_append hgap]

theorem read_unread_definition :
    let reader : ArgumentReader := { family := .msvc }
    let expanding : ArgumentReader := { reader with responseFiles := true }
    let skipping : ArgumentReader := { reader with responseFiles := false }
    let contents : Contents := fun path => if path = "/p/f".toList then some [45, 68, 66] else none
    let text : Text := "/DA @f -DC".toList
    let inline : Text := "@\"<<\"".toList
    ReferencesAreWords text ∧ inline ∈ spellings inlineName ∧
      (skipping.read "/p".toList text contents).findings =
        (expanding.read "/p".toList text fun _ => none).findings ∧
      reader.read "/p".toList (inline ++ ' ' :: text) contents =
        reader.read "/p".toList text contents := by
  intro reader expanding skipping contents text inline
  have hwords : ReferencesAreWords text := by
    have hblanks : text.all fun c => !isBlank c || isAsciiBlank c := by decide
    refine ⟨fun c hc hb => ?_, fun quote hq hi => ?_⟩
    · simpa [hb] using List.all_eq_true.mp hblanks c hc
    · have hmem : quote ∈ text := hi.subset (by simp)
      rcases hq with rfl | rfl <;> exact absurd hmem (by decide)
  have hinline : inline ∈ spellings inlineName := by decide
  have h := read_unread reader "/p".toList text
  exact ⟨hwords, hinline, h.2.1 hwords contents, h.2.2 inline hinline text contents⟩

end ArgumentReader

end SettingsScan
