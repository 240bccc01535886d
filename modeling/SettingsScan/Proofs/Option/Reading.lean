import SettingsScan.Proofs.Option.Operand

/-! # How operands are read

The spellings of an operand are tried in order on all that follows the option. Behind a name and
an equals sign, and for a path, what they read is a function of the text there.
-/

namespace SettingsScan.Spelling

open Pattern (CharSet Node Place)
open Pattern.Node

def withValue (value : Node) (shellEscaped : Bool) : Operand where
  parts := [macroName, char '=', value, argumentEnd]
  valueGroup := some 2
  shellEscaped

def definitions : List Operand :=
  [{ parts := wholeDefine '"', valueGroup := some 2 },
   { parts := wholeDefine '\'', valueGroup := some 2 },
   withValue escapedValue true,
   withValue (quoted '"' 2) false,
   withValue (quoted '\'' 2) false,
   withValue (shellValue '"') true,
   withValue (shellValue '\'') true,
   { parts := [macroName, char '=', group 2 (many (one notBlank))], valueGroup := some 2 },
   { parts := [macroName, argumentEnd] }]

theorem macroDefine_eq (option : Node) :
    macroDefine option = definitions.map (·.matcher option .optional) := rfl

theorem stuck_of_mem_definitions {o : Operand} (ho : o ∈ definitions) :
    Stuck isAsciiBlank (concat o.parts) := by
  simp only [definitions, List.mem_cons, List.not_mem_nil, or_false] at ho
  rcases ho with rfl | rfl | rfl | rfl | rfl | rfl | rfl | rfl | rfl
  · exact stuck_char (by decide) _
  · exact stuck_char (by decide) _
  all_goals exact stuck_macroName _

/-- The value behind an equals sign and what is left behind the argument, by the first reading
that applies. -/
def readValue (t : Text) : Text × Text :=
  let unescaped (x : Text × Text) := (OptionMatcher.unescapeQuotes x.1, x.2)
  let readings :=
    [(enclosed? '"' (escapedRun? false) t).map unescaped,
     enclosed? '"' (Text.cut? (· = '"')) t,
     enclosed? '\'' (Text.cut? (· = '\'')) t,
     (shell? '"' t).map unescaped,
     (shell? '\'' t).map unescaped]
  (readings.findSome? id).getD (t.takeWhile (!isAsciiBlank ·), t.dropWhile (!isAsciiBlank ·))

variable {option : Node} {front name body tail input t : Text} {p : Place} {value : Node}
  {read? : Text → Option (Text × Text)} {quote : Char}

theorem MacroName.head?_append (h : MacroName name) (r : Text) :
    (name ++ r).head?.any isAsciiBlank = false := by
  obtain ⟨c, t, rfl, hc⟩ := h.exists_cons
  cases hb : isAsciiBlank c with
  | false => exact hb
  | true => rw [nameChar_of_isAsciiBlank c hb] at hc; cases hc

theorem MacroName.head?_ne (h : MacroName name) (hp : p.rest = name ++ tail) {c : Char}
    (hc : nameChar.contains c = false) : p.rest.head? ≠ some c := by
  obtain ⟨d, r, rfl, hd⟩ := h.exists_cons
  rw [hp]
  rintro ⟨⟩
  rw [hd] at hc
  cases hc

theorem MacroName.exists_place (h : MacroName name) (hp : p.rest = name ++ tail)
    (hin : p.In input) (ht : tail.head?.any nameGoesOn.contains = false) :
    ∃ q, q.rest = tail ∧ q.In input ∧ q.group? input 1 = some name ∧
      q.spans = (1, p.passed, p.passed + name.length) :: p.spans ∧
      ∀ {parts}, Stuck nameGoesOn.contains (concat parts) →
        (concat (macroName :: parts)).seek some p = (concat parts).seek some q := by
  refine ⟨(p.after name tail).close 1 p.passed, rfl, (hin.after hp).close 1 _,
    hin.group?_close hp (by decide), rfl, fun hk => ?_⟩
  rw [seek_concat_cons]
  exact seek_macroName h hp ht hk

/-! ### Definitions behind a name -/

theorem readAt_withValue (h : MacroName name) (hp : p.rest = name ++ '=' :: t) (hin : p.In input)
    (hv : Reads value 2 read?) (shellEscaped : Bool) :
    (withValue value shellEscaped).readAt input p = (read? t).map fun x =>
      (name, some (if shellEscaped then OptionMatcher.unescapeQuotes x.1 else x.1), x.2) := by
  obtain ⟨q, hq, hqin, hname, -, hseek⟩ := h.exists_place hp hin (by rfl)
  rw [Operand.readAt, withValue, hseek (stuck_char (by decide) _), seek_concat_cons,
    seek_char_cons hq, seek_concat_cons, concat]
  cases hx : read? t with
  | none =>
    rw [hv.eq_none hx]
    rfl
  | some x =>
    obtain ⟨u, hu, hrest, hpiece, hother⟩ :=
      hv.exists_of_eq_some (hqin.after (s := ['=']) hq) hx
    have hn : u.group? input 1 = some name := by
      rw [hother 1 (by decide) (by decide), Place.group?_after (by decide), hname]
    simp [hu, hn, hpiece, hrest, Operand.valueAt]

theorem readAt_char_eq_none {o : Operand} {c : Char} {more : List Node}
    (ho : o.parts = char c :: more) (hc : p.rest.head? ≠ some c) : o.readAt input p = none := by
  rw [Operand.readAt, ho, seek_concat_cons, seek_char_eq_none hc, Option.bind_none]

theorem readAt_equals_eq_none {o : Operand} {more : List Node}
    (ho : o.parts = macroName :: char '=' :: more) (h : MacroName name)
    (hp : p.rest = name ++ tail) (hin : p.In input)
    (ht : tail.head?.any nameGoesOn.contains = false) (he : tail.head? ≠ some '=') :
    o.readAt input p = none := by
  obtain ⟨q, hq, -, -, -, hseek⟩ := h.exists_place hp hin ht
  rw [Operand.readAt, ho, hseek (stuck_char (by decide) _), seek_concat_cons,
    seek_char_eq_none (hq ▸ he), Option.bind_none]

theorem contains_notBlank : notBlank.contains = (!isAsciiBlank ·) :=
  funext fun c => congrArg (!·) (CharSet.contains_space c)

theorem readAt_plain (h : MacroName name) (hp : p.rest = name ++ '=' :: t) (hin : p.In input) :
    Operand.readAt
      { parts := [macroName, char '=', group 2 (many (one notBlank))], valueGroup := some 2 }
      input p =
        some (name, some (t.takeWhile (!isAsciiBlank ·)), t.dropWhile (!isAsciiBlank ·)) := by
  obtain ⟨q, hq, hqin, hname, -, hseek⟩ := h.exists_place hp hin (by rfl)
  have hs : (concat [macroName, char '=', group 2 (many (one notBlank))]).seek some p =
      some (((q.after ['='] t).after (t.takeWhile notBlank.contains)
        (t.dropWhile notBlank.contains)).close 2 (q.after ['='] t).passed) := by
    rw [hseek (stuck_char (by decide) _), seek_concat_cons, seek_char_cons hq, concat, seek_group]
    exact seek_many_one_takeWhile rfl
  have hg := (hqin.after (s := ['=']) hq).group?_close (i := 2)
    (List.takeWhile_append_dropWhile (p := notBlank.contains)).symm (by decide)
  rw [Operand.readAt_of_seek hs (by simpa using hname), Operand.valueAt, Option.bind_some]
  rw [Place.rest_after] at hg
  rw [hg, contains_notBlank]
  rfl

theorem readAt_bare (h : MacroName name) (hp : p.rest = name ++ tail) (hin : p.In input)
    (ht : atEnd tail) :
    Operand.readAt { parts := [macroName, argumentEnd] } input p =
      some (name, none, tail.drop 1) := by
  have hg := any_of_atEnd nameGoesOn_of_isAsciiBlank ht
  obtain ⟨q, hq, -, hname, -, hseek⟩ := h.exists_place hp hin hg
  have hs := hseek (stuck_argumentEnd nameGoesOn_of_isAsciiBlank)
  rw [concat, seek_argumentEnd, hq, if_pos ht] at hs
  rw [Operand.readAt_of_seek hs (by simpa using hname)]
  rfl

/-- The value of a definition that is quoted as a whole. -/
def wholeValue (quote : Char) : Node :=
  opt (seq (char '=') (group 2 (many (one (.complement (.single quote))))))

theorem stuck_wholeValue (hq : nameGoesOn.contains quote = false) (more : List Node) :
    Stuck nameGoesOn.contains (concat (wholeValue quote :: char quote :: more)) := by
  intro q hh
  rw [seek_concat_cons, wholeValue, seek_opt, seek_seq, seek_char_eq_none, Option.none_or]
  · exact stuck_char hq more q hh
  · intro he
    rw [he] at hh
    revert hh
    decide

theorem wholeDefine_eq (quote : Char) :
    wholeDefine quote = [char quote, macroName, wholeValue quote, char quote, argumentEnd] := rfl

section Whole

variable (hq : nameGoesOn.contains quote = false) (hn : MacroName name) (hin : p.In input)
  (ht : atEnd tail)

include hq hn hin ht

theorem readAt_whole_bare (he : quote ≠ '=') (hs : p.spans = [])
    (hp : p.rest = quote :: (name ++ quote :: tail)) :
    Operand.readAt { parts := wholeDefine quote, valueGroup := some 2 } input p =
      some (name, none, tail.drop 1) := by
  obtain ⟨q, hqr, -, hname, hspans, hseek⟩ :=
    hn.exists_place (p := p.after [quote] (name ++ quote :: tail)) rfl (hin.after hp) hq
  have hm : (concat (wholeDefine quote)).seek some p =
      some ((q.after [quote] tail).after (tail.take 1) (tail.drop 1)) := by
    rw [wholeDefine_eq, seek_concat_cons, seek_char_cons hp, hseek (stuck_wholeValue hq _),
      seek_concat_cons, wholeValue, seek_opt, seek_seq, seek_char_eq_none (by simpa [hqr] using he),
      Option.none_or, seek_concat_cons, seek_char_cons hqr, concat, seek_argumentEnd]
    exact if_pos ht
  have hnone : q.group? input 2 = none := by simp [Place.group?, hspans, hs]
  rw [Operand.readAt_of_seek hm (by simpa using hname), Operand.valueAt]
  simp [hnone]

theorem readAt_whole_value {v : Text} (hv : quote ∉ v)
    (hp : p.rest = quote :: (name ++ '=' :: (v ++ quote :: tail))) :
    Operand.readAt { parts := wholeDefine quote, valueGroup := some 2 } input p =
      some (name, some v, tail.drop 1) := by
  obtain ⟨q, hqr, hqin, hname, -, hseek⟩ :=
    hn.exists_place (p := p.after [quote] (name ++ '=' :: (v ++ quote :: tail))) rfl
      (hin.after hp) (by rfl)
  obtain ⟨u, hu⟩ : ∃ u, u = q.after ['='] (v ++ quote :: tail) := ⟨_, rfl⟩
  have hur : u.rest = v ++ quote :: tail := by rw [hu, Place.rest_after]
  have hg : ((u.after v (quote :: tail)).close 2 u.passed).group? input 2 = some v :=
    (hu ▸ hqin.after hqr : u.In input).group?_close hur (by decide)
  have hun : u.group? input 1 = some name := by rw [hu, Place.group?_after (by decide), hname]
  have hm : (concat (wholeDefine quote)).seek some p =
      some ((((u.after v (quote :: tail)).close 2 u.passed).after [quote] tail).after (tail.take 1)
        (tail.drop 1)) := by
    rw [wholeDefine_eq, seek_concat_cons, seek_char_cons hp, hseek (stuck_wholeValue hq _),
      seek_concat_cons, wholeValue, seek_opt, seek_seq, seek_char_cons hqr, ← hu, seek_group,
      (runs_quoted quote).seek_eq, hur, Text.cut?_closing hv, Option.bind_some, seek_concat_cons,
      seek_char_cons rfl, concat, seek_argumentEnd, Place.rest_after, if_pos ht,
      Option.some_or]
    intro y hy
    rw [seek_concat_cons]
    exact seek_char_eq_none hy
  rw [Operand.readAt_of_seek hm (by simpa using hun), Operand.valueAt, Option.bind_some,
    Place.group?_after (by decide), Place.group?_after (by decide), hg]
  rfl

end Whole

/-! ### Definitions -/

theorem map_reading_macroDefine_value (h : Introduces option .optional front)
    (hn : MacroName name) (t : Text) :
    ((macroDefine option).findSome? (·.lookingAt (front ++ (name ++ '=' :: t)))).map
      OptionMatch.reading = some (name, some (readValue t).1, (readValue t).2) := by
  obtain ⟨p, hp, hin, -, hread⟩ := h.exists_place _ (hn.head?_append ('=' :: t))
  have collect (g : Text × Text → Text × Option Text × Text) (d : Text × Text)
      (l : List (Option (Text × Text))) :
      (l.findSome? (Option.map g)).or (some (g d)) = some (g ((l.findSome? id).getD d)) := by
    induction l with
    | nil => rfl
    | cons o l ih => cases o <;> simp [ih]
  rw [macroDefine_eq, hread _ fun o ho => stuck_of_mem_definitions ho]
  simp only [definitions, findSome?_cons, List.findSome?_nil]
  rw [readAt_char_eq_none rfl (hn.head?_ne hp (by decide)),
    readAt_char_eq_none rfl (hn.head?_ne hp (by decide)),
    readAt_withValue hn hp hin reads_escapedValue,
    readAt_withValue hn hp hin (reads_quoted '"' (by decide)),
    readAt_withValue hn hp hin (reads_quoted '\'' (by decide)),
    readAt_withValue hn hp hin (reads_shellValue '"'),
    readAt_withValue hn hp hin (reads_shellValue '\''),
    readAt_plain hn hp hin]
  have hc := collect (fun x => (name, some x.1, x.2))
    (t.takeWhile (!isAsciiBlank ·), t.dropWhile (!isAsciiBlank ·))
  rw [readValue]
  rw [← hc]
  simp [findSome?_cons, Function.comp_def]

theorem map_reading_macroDefine_bare (h : Introduces option .optional front)
    (hn : MacroName name) (ht : atEnd tail) :
    ((macroDefine option).findSome? (·.lookingAt (front ++ (name ++ tail)))).map
      OptionMatch.reading = some (name, none, tail.drop 1) := by
  obtain ⟨p, hp, hin, -, hread⟩ := h.exists_place _ (hn.head?_append tail)
  have hg := any_of_atEnd nameGoesOn_of_isAsciiBlank ht
  have he : tail.head? ≠ some '=' := by
    intro he
    rw [atEnd, he] at ht
    revert ht
    decide
  rw [macroDefine_eq, hread _ fun o ho => stuck_of_mem_definitions ho]
  simp only [definitions, findSome?_cons, List.findSome?_nil]
  rw [readAt_char_eq_none rfl (hn.head?_ne hp (by decide)),
    readAt_char_eq_none rfl (hn.head?_ne hp (by decide)),
    readAt_equals_eq_none rfl hn hp hin hg he, readAt_equals_eq_none rfl hn hp hin hg he,
    readAt_equals_eq_none rfl hn hp hin hg he, readAt_equals_eq_none rfl hn hp hin hg he,
    readAt_equals_eq_none rfl hn hp hin hg he, readAt_equals_eq_none rfl hn hp hin hg he,
    readAt_bare hn hp hin ht]
  rfl

def Quote (c : Char) : Prop := c = '"' ∨ c = '\''

theorem Quote.ne {c : Char} (h : Quote c) : nameGoesOn.contains c = false ∧ c ≠ '=' ∧
    isAsciiBlank c = false := by
  rcases h with rfl | rfl <;> decide

/-- A definition that is quoted as a whole is read by the form for the quote. -/
theorem map_reading_macroDefine_whole (h : Introduces option .optional front) (hq : Quote quote)
    (body : Text) (hb : body.head? = some quote) {reading : Text × Option Text × Text}
    (hr : ∀ p, p.rest = body → p.In (front ++ body) → p.spans = [] →
      Operand.readAt { parts := wholeDefine quote, valueGroup := some 2 } (front ++ body) p =
        some reading) :
    ((macroDefine option).findSome? (·.lookingAt (front ++ body))).map OptionMatch.reading =
      some reading := by
  obtain ⟨p, hp, hin, hs, hread⟩ := h.exists_place body (by rw [hb]; exact hq.ne.2.2)
  have hr := hr p hp hin hs
  rw [macroDefine_eq, hread _ fun o ho => stuck_of_mem_definitions ho]
  simp only [definitions, findSome?_cons]
  rcases hq with rfl | rfl
  · rw [hr, Option.some_or]
  · rw [readAt_char_eq_none rfl (by simp [hp, hb]), hr, Option.none_or, Option.some_or]

/-! ### Names to undefine -/

theorem map_reading_macroUndefine (h : Introduces option .optional front) (hn : Identifier name)
    (ht : atEnd tail) :
    ((macroUndefine option).findSome? (·.lookingAt (front ++ (name ++ tail)))).map
      OptionMatch.reading = some (name, none, tail.drop 1) := by
  obtain ⟨p, hp, hin, -, hread⟩ := h.exists_place _ ((MacroName.word hn).head?_append tail)
  have hm : (concat [identifier, argumentEnd]).seek some p =
      some (((p.after name tail).close 1 p.passed).after (tail.take 1) (tail.drop 1)) := by
    rw [seek_concat_cons, seek_identifier hn hp (any_of_atEnd nameChar_of_isAsciiBlank ht)
      (stuck_argumentEnd nameChar_of_isAsciiBlank), concat, seek_argumentEnd]
    exact if_pos ht
  have hg : ((p.after name tail).close 1 p.passed).group? (front ++ (name ++ tail)) 1 =
      some name := hin.group?_close hp (by decide)
  refine (hread [{ parts := [identifier, argumentEnd] }] ?_).trans ?_
  · simpa using stuck_identifier _
  · rw [findSome?_cons, Operand.readAt_of_seek hm (by simpa using hg), Option.some_or]
    rfl

/-! ### Paths -/

def paths : List Operand :=
  [{ parts := [quoted '"' 1, argumentEnd] }, { parts := [quoted '\'' 1, argumentEnd] },
   { parts := [unquoted 1] }]

theorem pathOperand_eq (option : Node) (separation : Separation) :
    pathOperand option separation = paths.map (·.matcher option separation) := rfl

/-- The path at the front of a text and what is left behind the argument, by the first reading
that applies. -/
def readPath (t : Text) : Option (Text × Text) :=
  [enclosed? '"' (Text.cut? (· = '"')) t, enclosed? '\'' (Text.cut? (· = '\'')) t,
   if t = [] then none
   else some (t.takeWhile (!isAsciiBlank ·), t.dropWhile (!isAsciiBlank ·))].findSome? id

theorem stuck_of_mem_paths {o : Operand} (ho : o ∈ paths) :
    Stuck isAsciiBlank (concat o.parts) := by
  have hquoted {c : Char} (hc : Quote c) (more : List Node) :
      Stuck isAsciiBlank (concat (quoted c 1 :: more)) := by
    intro q hq
    rw [seek_concat_cons, quoted, seek_concat_cons, seek_char_eq_none]
    intro he
    rw [he, Option.any_some, hc.ne.2.2] at hq
    cases hq
  simp only [paths, List.mem_cons, List.not_mem_nil, or_false] at ho
  rcases ho with rfl | rfl | rfl
  · exact hquoted (.inl rfl) _
  · exact hquoted (.inr rfl) _
  · intro q hq
    rw [concat, unquoted, seek_group, seek_some (productive_one _), seek_one_eq_none]
    rw [contains_notBlank]
    exact any_eq_false (by simp) hq

theorem readAt_unquoted (hin : p.In input) (hb : p.rest.head?.any isAsciiBlank = false) :
    Operand.readAt { parts := [unquoted 1] } input p =
      if p.rest = [] then none
      else some (p.rest.takeWhile (!isAsciiBlank ·), none, p.rest.dropWhile (!isAsciiBlank ·)) := by
  split
  · rename_i hp
    refine Operand.readAt_eq_none ?_
    rw [concat, unquoted, seek_group, seek_some (productive_one _), seek_one_nil hp]
  · rename_i hp
    have hm : (concat [unquoted 1]).seek some p =
        some ((p.after (p.rest.takeWhile notBlank.contains)
          (p.rest.dropWhile notBlank.contains)).close 1 p.passed) := by
      rw [concat, unquoted, seek_group]
      refine seek_some_one_takeWhile ?_ rfl
      obtain ⟨c, t, hc⟩ := List.exists_cons_of_ne_nil hp
      simpa [hc, contains_notBlank] using hb
    have hg := hin.group?_close (i := 1)
      (List.takeWhile_append_dropWhile (p := notBlank.contains)).symm (by decide)
    rw [Operand.readAt_of_seek hm hg, contains_notBlank]
    rfl

theorem readAt_of_reads {o : Operand} {n : Node} (ho : o = { parts := [n, argumentEnd] })
    (h : Reads n 1 read?) (hin : p.In input) :
    o.readAt input p = (read? p.rest).map fun x => (x.1, none, x.2) := by
  subst ho
  rw [Operand.readAt, seek_concat_cons, concat]
  cases hx : read? p.rest with
  | none =>
    rw [h.eq_none hx]
    rfl
  | some x =>
    obtain ⟨q, hq, hr, hg, -⟩ := h.exists_of_eq_some hin hx
    rw [hq, Option.bind_some, hg, hr]
    rfl

theorem readAt_paths (hin : p.In input) (hb : p.rest.head?.any isAsciiBlank = false) :
    paths.findSome? (·.readAt input p) = (readPath p.rest).map fun x => (x.1, none, x.2) := by
  simp only [paths, findSome?_cons, List.findSome?_nil]
  rw [readAt_of_reads rfl (reads_quoted '"' (by decide)) hin,
    readAt_of_reads rfl (reads_quoted '\'' (by decide)) hin, readAt_unquoted hin hb, readPath]
  simp only [findSome?_cons, List.findSome?_nil, id, Option.or_none, Option.map_or]
  congr 2
  split <;> rfl

theorem map_reading_pathOperand {separation : Separation} (h : Introduces option separation front)
    (body : Text) (hb : body.head?.any isAsciiBlank = false) :
    ((pathOperand option separation).findSome? (·.lookingAt (front ++ body))).map
      OptionMatch.reading = (readPath body).map fun x => (x.1, none, x.2) := by
  obtain ⟨p, hp, hin, -, hread⟩ := h.exists_place body hb
  rw [pathOperand_eq, hread _ fun o ho => stuck_of_mem_paths ho, readAt_paths hin (by rwa [hp]), hp]

/-! ### References -/

theorem map_reading_reference (marker : Char) (body : Text)
    (hb : body.head?.any isAsciiBlank = false) :
    ((reference (char marker)).findSome? (·.lookingAt (marker :: body))).map OptionMatch.reading =
      (readPath body).map fun x => (x.1, none, x.2) := by
  have hp : (Place.start (marker :: body)).rest = marker :: body := rfl
  have hin : ((Place.start (marker :: body)).after [marker] body).In (marker :: body) :=
    (Place.In.start _).after rfl
  have hmatchers : reference (char marker) =
      paths.map fun o => { node := concat (char marker :: o.parts) } := rfl
  refine Eq.trans ?_ (readAt_paths hin hb)
  rw [hmatchers, List.map_findSome?, List.findSome?_map]
  refine findSome?_congr fun o ho => ?_
  have hvalue : o.valueGroup = none ∧ o.shellEscaped = false := by
    simp only [paths, List.mem_cons, List.not_mem_nil, or_false] at ho
    rcases ho with rfl | rfl | rfl <;> exact ⟨rfl, rfl⟩
  refine Operand.map_reading_lookingAt rfl hvalue.1.symm hvalue.2.symm ?_ (Nat.succ_ne_zero _)
  rw [match?_eq_seek, seek_concat_cons, seek_char_cons hp]

end SettingsScan.Spelling
