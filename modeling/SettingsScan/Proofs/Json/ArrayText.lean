import SettingsScan.Proofs.Json.ValueText

/-! # The elements of an array come one after the other

The text of an array is read element by element. Where each element shows its end, all of them
come, and from a text that is cut off those that are complete, with one failure behind them. An
element that does not show its end takes the byte behind it, so it has to be followed by a blank.
-/

namespace SettingsScan.Json

structure ArrayText where
  lead : Bytes := []
  gap : Bytes := []
  items : List (Spaced Value)

namespace ArrayText

def bytes (x : ArrayText) : Bytes := x.lead ++ 0x5B :: (listText x.gap x.items ++ [0x5D])

def values (x : ArrayText) : List Value := x.items.map (·.item)

structure WellFormed (x : ArrayText) : Prop where
  lead : Blank x.lead
  gap : Blank x.gap
  items : ∀ s ∈ x.items, s.Fits (Writes (nestingLimit - 1))

/-- Every text of an array is one of these. -/
theorem exists_of_writes {values : List Value} {bytes : Bytes}
    (h : Writes nestingLimit (.array values) bytes) :
    ∃ x : ArrayText, x.WellFormed ∧ x.values = values ∧ x.bytes = bytes := by
  cases h with
  | scalar h => cases h
  | @array gap items hg hi => exact ⟨⟨[], gap, items⟩, ⟨List.forall_mem_nil _, hg, hi⟩, rfl, rfl⟩

end ArrayText

variable {bytes rest more gap text : Bytes} {v : Value} {b : UInt8} {s : Spaced Value}
  {items : List (Spaced Value)}

/-! ### Single elements -/

/-- Whether the next byte would be taken along with the element. -/
def Spaced.isTight (s : Spaced Value) : Bool := !s.item.isDelimited && s.after.isEmpty

theorem Spaced.isTight_eq_false_iff : s.isTight = false ↔ s.item.isDelimited ∨ s.after ≠ [] := by
  simp [isTight, Classical.or_iff_not_imp_left]

theorem Writes.isRead_element (h : Writes (nestingLimit - 1) v text) : IsRead nestingLimit v text :=
  h.isRead (by decide)

theorem ofBytes?_append (h : IsRead nestingLimit v text)
    (hm : v.isDelimited = false → EndsNumeral rest) :
    Value.ofBytes? (text ++ rest) = .ok (v, rest) := by
  refine h.read ?_ hm
  rw [List.length_append]
  omega

theorem readElement_isDelimited (h : IsRead nestingLimit v text) (hv : v.isDelimited)
    (hg : Blank gap) (rest : Bytes) : readElement (gap ++ (text ++ rest)) = .ok (v, rest) := by
  have hr : Value.ofBytes? (text ++ rest) = .ok (v, rest) :=
    ofBytes?_append h fun hn => by rw [hv] at hn; cases hn
  obtain ⟨b, tail, rfl, hb⟩ := h.starts
  rw [List.cons_append] at hr ⊢
  rw [readElement, skipBlanks_blank hg, skipBlanks_cons hb.notBlank]
  dsimp only
  rw [hr]
  dsimp only
  rw [if_pos (hb.2.2.2.trans hv)]

/-- An element that does not show its end takes the byte that ends it. -/
theorem readElement_takes_next (h : IsRead nestingLimit v text) (hv : v.isDelimited = false)
    (hg : Blank gap) (hb : endsValue b) (hm : EndsNumeral (b :: rest)) :
    readElement (gap ++ (text ++ b :: rest)) = .ok (v, rest) := by
  have hr := ofBytes?_append h fun _ => hm
  obtain ⟨c, tail, rfl, hc⟩ := h.starts
  rw [List.cons_append] at hr ⊢
  rw [readElement, skipBlanks_blank hg, skipBlanks_cons hc.notBlank]
  dsimp only
  rw [hr]
  dsimp only
  rw [if_neg (by simp [hc.2.2.2, hv]), if_pos hb]

/-- An element that shows its end is not read from less than its text. -/
theorem readElement_take (h : IsRead nestingLimit v text) (hv : v.isDelimited) (hg : Blank gap)
    {k : Nat} (hk : k < text.length) : ∃ e, readElement (gap ++ text.take k) = .error e := by
  obtain ⟨b, tail, ht, hb⟩ := h.starts
  cases k with
  | zero =>
    rw [List.take_zero, readElement, skipBlanks_blank hg]
    exact ⟨_, rfl⟩
  | succ k =>
    have htake : text.take (k + 1) = b :: tail.take k := by rw [ht, List.take_succ_cons]
    rw [readElement, skipBlanks_blank hg, htake, skipBlanks_cons hb.notBlank]
    dsimp only
    cases hr : Value.ofBytes? (b :: tail.take k) with
    | error e => exact ⟨_, rfl⟩
    | ok read =>
      obtain ⟨w, r⟩ := read
      rw [← htake] at hr
      -- what has been read would stay with the rest of the text behind it
      have hlen : (text.take (k + 1)).length ≤ text.length := List.length_take_le' _ _
      have hext := (extends_of_le (text.drop (k + 1))
        (show 2 * (text.take (k + 1)).length + 2 ≤ 2 * text.length + 2 by omega)).value
        (fun _ hn => by
          rw [htake, skipBlanks_cons hb.notBlank] at hn
          simp [hb.2.2.2, hv] at hn) hr
      have hall : readValue (2 * text.length + 2) nestingLimit text = .ok (v, []) := by
        rw [← List.append_nil text]
        refine h.read ?_ fun hn => by rw [hv] at hn; cases hn
        rw [List.length_append]
        omega
      rw [List.take_append_drop, hall] at hext
      have hnil := (Prod.mk.inj (Except.ok.inj hext)).2
      simp at hnil
      omega

namespace Stream

theorem endsValue_of_blank (hb : isBlankByte b) : endsValue b := by
  simp [endsValue, hb]

theorem element_loose (hs : s.Fits (IsRead nestingLimit)) (hl : s.isTight = false) (hg : Blank gap)
    (hm : EndsNumeral rest) :
    ∃ gap', Blank gap' ∧ element (gap ++ (s.text ++ (s.after ++ rest))) =
      (some (.ok s.item), { state := .inside, bytes := gap' ++ rest }) := by
  cases hv : s.item.isDelimited with
  | true =>
    refine ⟨s.after, hs.after, ?_⟩
    rw [element, readElement_isDelimited hs.text hv hg]
  | false =>
    have hne : s.after ≠ [] := by
      simpa [Spaced.isTight, hv] using hl
    obtain ⟨b, after, ha⟩ := List.exists_cons_of_ne_nil hne
    have hblank : Blank (b :: after) := ha ▸ hs.after
    refine ⟨after, fun c hc => hblank c (List.mem_cons_of_mem b hc), ?_⟩
    have hread : readElement (gap ++ (s.text ++ b :: (after ++ rest))) =
        .ok (s.item, after ++ rest) :=
      readElement_takes_next hs.text hv hg (endsValue_of_blank (hblank b List.mem_cons_self))
        (hblank.endsNumeral hm)
    rw [element, ha, List.cons_append, hread]

theorem element_tight (hs : s.Fits (IsRead nestingLimit)) (ht : s.isTight) (hg : Blank gap)
    (hb : endsValue b) (hm : EndsNumeral (b :: rest)) :
    element (gap ++ (s.text ++ (s.after ++ b :: rest))) =
      (some (.ok s.item), { state := .inside, bytes := rest }) := by
  simp only [Spaced.isTight, Bool.and_eq_true, Bool.not_eq_true', List.isEmpty_iff] at ht
  rw [ht.2, List.nil_append, element, readElement_takes_next hs.text ht.1 hg hb hm]

theorem element_take (h : IsRead nestingLimit v text) (hv : v.isDelimited) (hg : Blank gap)
    {k : Nat} (hk : k < text.length) :
    ∃ e, element (gap ++ text.take k) = fail e (gap ++ text.take k) := by
  obtain ⟨e, he⟩ := readElement_take h hv hg hk
  exact ⟨e, by rw [element, he]⟩

/-! ### Single calls -/

theorem dropGaps_blank (hg : Blank gap) (bytes : Bytes) :
    (gap ++ bytes).dropWhile isGapByte = bytes.dropWhile isGapByte := by
  refine List.dropWhile_append_of_pos fun b hb => ?_
  simp [isGapByte, hg b hb]

theorem dropGaps_cons (hb : isGapByte b = false) :
    (b :: bytes).dropWhile isGapByte = b :: bytes := by
  simp [hb]

theorem next_inside_blank (hg : Blank gap) :
    next { state := .inside, bytes := gap } = fail .truncated [] := by
  rw [← List.append_nil gap, next]
  dsimp only
  rw [dropGaps_blank hg]
  rfl

theorem next_inside_comma (hg : Blank gap) (rest : Bytes) :
    next { state := .inside, bytes := gap ++ 0x2C :: rest } = element rest := by
  rw [next]
  dsimp only
  rw [dropGaps_blank hg]
  rfl

theorem next_inside_bracket (hg : Blank gap) (rest : Bytes) :
    next { state := .inside, bytes := gap ++ 0x5D :: rest } =
      (none, { state := .finished, bytes := rest }) := by
  rw [next]
  dsimp only
  rw [dropGaps_blank hg]
  rfl

theorem next_inside_value (hg : Blank gap) {delimited : Bool} (hb : StartsValue delimited b)
    (rest : Bytes) :
    next { state := .inside, bytes := gap ++ b :: rest } = fail .expectedDelimiter (b :: rest) := by
  rw [next]
  dsimp only
  rw [dropGaps_blank hg, dropGaps_cons hb.1]
  split
  · rename_i h
    cases h
  · rename_i h
    cases h
    exact absurd rfl hb.2.1
  · rename_i h
    cases h
    exact absurd rfl hb.2.2.1
  · rfl

variable {lead : Bytes}

theorem next_start_blank (hl : Blank lead) : (ofBytes lead).next = fail .truncated [] := by
  rw [← List.append_nil lead, next]
  dsimp only [ofBytes]
  rw [dropGaps_blank hl]
  rfl

theorem next_first (hl : Blank lead) (rest : Bytes) :
    (ofBytes (lead ++ 0x5B :: rest)).next =
      match rest.dropWhile isGapByte with
      | [] => fail .truncated []
      | 0x5D :: rest => (none, { state := .finished, bytes := rest })
      | rest => element rest := by
  rw [next]
  dsimp only [ofBytes]
  rw [dropGaps_blank hl, dropGaps_cons (by decide)]
  rfl

theorem next_first_blank (hl : Blank lead) (hg : Blank gap) :
    (ofBytes (lead ++ 0x5B :: gap)).next = fail .truncated [] := by
  rw [next_first hl, ← List.append_nil gap, dropGaps_blank hg]
  rfl

theorem next_first_bracket (hl : Blank lead) (hg : Blank gap) (rest : Bytes) :
    (ofBytes (lead ++ 0x5B :: (gap ++ 0x5D :: rest))).next =
      (none, { state := .finished, bytes := rest }) := by
  rw [next_first hl, dropGaps_blank hg]
  rfl

theorem next_first_value (hl : Blank lead) (hg : Blank gap) {delimited : Bool}
    (hb : StartsValue delimited b) (rest : Bytes) :
    (ofBytes (lead ++ 0x5B :: (gap ++ b :: rest))).next = element (b :: rest) := by
  rw [next_first hl, dropGaps_blank hg, dropGaps_cons hb.1]
  split
  · rename_i h
    cases h
  · rename_i h
    cases h
    exact absurd rfl hb.2.2.1
  · rfl

/-! ### All calls -/

def answerAt : Nat → Stream → Option (Except StreamError Value)
  | 0, s => s.next.1
  | k + 1, s => answerAt k s.next.2

/-- The calls give the answers of the list, and nothing ever after. -/
def Gives (s : Stream) (list : List (Except StreamError Value)) : Prop :=
  ∀ k, answerAt k s = list[k]?

variable {stream stream' : Stream} {answer : Except StreamError Value}
  {list : List (Except StreamError Value)}

theorem answerAt_eq_none (h : stream.state = .finished ∨ stream.state = .failed) (k : Nat) :
    answerAt k stream = none := by
  have hn : stream.next = (none, stream) := by
    obtain ⟨state, bytes⟩ := stream
    rcases h with rfl | rfl <;> rfl
  induction k with
  | zero => rw [answerAt, hn]
  | succ k ih => rw [answerAt, hn, ih]

theorem gives_nil (h : stream.next = (none, stream')) (hs : stream'.state = .finished) :
    stream.Gives [] := by
  intro k
  cases k with
  | zero => rw [answerAt, h]; rfl
  | succ k => rw [answerAt, h, answerAt_eq_none (.inl hs)]; rfl

theorem gives_fail {e : StreamError} (h : stream.next = fail e bytes) :
    stream.Gives [.error e] := by
  intro k
  cases k with
  | zero => rw [answerAt, h]; rfl
  | succ k => rw [answerAt, h, answerAt_eq_none (.inr rfl)]; rfl

theorem Gives.cons (h : stream.next = (some answer, stream')) (hg : stream'.Gives list) :
    stream.Gives (answer :: list) := by
  intro k
  cases k with
  | zero => rw [answerAt, h]; rfl
  | succ k => rw [answerAt, h, hg k]; rfl

theorem Gives.answers {fuel : Nat} (h : stream.Gives list) (hf : list.length ≤ fuel) :
    answers fuel stream = list := by
  induction list generalizing stream fuel with
  | nil =>
    cases fuel with
    | zero => rfl
    | succ n =>
      have h0 := h 0
      rw [Stream.answers]
      split
      · rename_i hn
        rw [answerAt, hn] at h0
        cases h0
      · rfl
  | cons a list ih =>
    obtain ⟨n, rfl⟩ := Nat.exists_eq_add_one_of_ne_zero (show fuel ≠ 0 by simp at hf; omega)
    have h0 := h 0
    rw [Stream.answers]
    split
    · rename_i b rest hn
      rw [answerAt, hn] at h0
      cases h0
      rw [ih (fun k => ?_) (by simpa using hf)]
      have hk := h (k + 1)
      rwa [answerAt, hn] at hk
    · rename_i hn
      rw [answerAt, hn] at h0
      cases h0

end Stream

/-! ### Complete texts -/

/-- The elements up to the first one that takes the next byte along. -/
def upToTight : List (Spaced Value) → List (Spaced Value)
  | [] => []
  | s :: more => s :: if s.isTight then [] else upToTight more

/-- The failure behind an element that has taken the next byte along: the comma is missing, or the
closing bracket. -/
def tightFailure? : List (Spaced Value) → Option StreamError
  | [] => none
  | s :: more =>
    if s.isTight then some (if more.isEmpty then .truncated else .expectedDelimiter)
    else tightFailure? more

theorem tightFailure?_eq_none_iff :
    tightFailure? items = none ↔ ∀ s ∈ items, s.isTight = false := by
  induction items with
  | nil => simp [tightFailure?]
  | cons s items ih =>
    cases hs : s.isTight with
    | true => simp [tightFailure?, hs]
    | false => simp [tightFailure?, hs, ih]

theorem upToTight_eq_self (h : ∀ s ∈ items, s.isTight = false) : upToTight items = items := by
  induction items with
  | nil => rfl
  | cons s items ih =>
    rw [upToTight, h s List.mem_cons_self, if_neg (by simp),
      ih fun s hs => h s (List.mem_cons_of_mem _ hs)]

/-- The answers for the elements. -/
def answersOf (items : List (Spaced Value)) : List (Except StreamError Value) :=
  (upToTight items).map (.ok ·.item) ++ (tightFailure? items).toList.map .error

namespace Stream

theorem gives_element {stream : Stream} (hs : s.Fits (IsRead nestingLimit)) (hg : Blank gap)
    (hm : s.isTight → items = [] → Blank more)
    (hi : ∀ s' ∈ items, s'.Fits (IsRead nestingLimit))
    (hrest : ∀ gap, Blank gap → Gives
      { state := .inside, bytes := gap ++ (furtherText items ++ 0x5D :: more) } (answersOf items))
    (hn : stream.next =
      element (gap ++ (s.text ++ (s.after ++ (furtherText items ++ 0x5D :: more))))) :
    stream.Gives (answersOf (s :: items)) := by
  have hend : EndsNumeral (furtherText items ++ 0x5D :: more) := endsNumeral_furtherText items rfl
  cases ht : s.isTight with
  | false =>
    obtain ⟨gap', hg', he⟩ := element_loose hs ht hg hend
    rw [he] at hn
    have := Gives.cons hn (hrest gap' hg')
    simpa [answersOf, upToTight, tightFailure?, ht] using this
  | true =>
    have hlist : answersOf (s :: items) =
        [.ok s.item, .error (if items.isEmpty then .truncated else .expectedDelimiter)] := by
      simp [answersOf, upToTight, tightFailure?, ht]
    rw [hlist]
    cases items with
    | nil =>
      refine Gives.cons (hn.trans (element_tight hs ht hg (by decide) hend)) ?_
      exact gives_fail (next_inside_blank (hm ht rfl))
    | cons s' items =>
      have hs' := hi s' List.mem_cons_self
      obtain ⟨b, text, htext, hb⟩ := hs'.text.starts
      rw [furtherText_cons, List.cons_append, List.append_assoc] at hn
      refine Gives.cons (hn.trans (element_tight hs ht hg (by decide) rfl)) ?_
      rw [s'.bytes_append, htext]
      exact gives_fail (next_inside_value hs'.before hb _)

theorem gives_inside (hi : ∀ s ∈ items, s.Fits (IsRead nestingLimit)) (hg : Blank gap)
    (hm : (∃ s ∈ items, s.isTight) → Blank more) :
    Gives { state := .inside, bytes := gap ++ (furtherText items ++ 0x5D :: more) }
      (answersOf items) := by
  induction items generalizing gap with
  | nil => exact gives_nil (next_inside_bracket hg more) rfl
  | cons s items ih =>
    have hi' := fun s' hs' => hi s' (List.mem_cons_of_mem s hs')
    have hs := hi s List.mem_cons_self
    refine gives_element hs hs.before (fun ht _ => hm ⟨s, List.mem_cons_self, ht⟩) hi'
      (fun gap hg => ih hi' hg fun ⟨s', hs', ht⟩ => hm ⟨s', List.mem_cons_of_mem s hs', ht⟩) ?_
    rw [furtherText_cons, List.cons_append, List.append_assoc, next_inside_comma hg, s.bytes_append]

/-- The elements of a whole array come up to one that takes the comma or the bracket along. -/
theorem gives_answersOf {x : ArrayText} (hx : x.WellFormed)
    (hm : (∃ s ∈ x.items, s.isTight) → Blank more) :
    (ofBytes (x.bytes ++ more)).Gives (answersOf x.items) := by
  obtain ⟨lead, gap, items⟩ := x
  have hi : ∀ s ∈ items, s.Fits (IsRead nestingLimit) := fun s hs =>
    (hx.items s hs).mono Writes.isRead_element
  rw [ArrayText.bytes, List.append_assoc, List.cons_append, List.append_assoc,
    List.singleton_append]
  cases items with
  | nil => exact gives_nil (next_first_bracket hx.lead hx.gap more) rfl
  | cons s items =>
    have hi' := fun s' hs' => hi s' (List.mem_cons_of_mem s hs')
    have hs := hi s List.mem_cons_self
    refine gives_element hs (List.forall_mem_nil _) (fun ht _ => hm ⟨s, List.mem_cons_self, ht⟩) hi'
      (fun gap hg => gives_inside hi' hg fun ⟨s', hs', ht⟩ =>
        hm ⟨s', List.mem_cons_of_mem s hs', ht⟩) ?_
    obtain ⟨b, text, htext, hb⟩ := hs.text.starts
    rw [listText, List.append_assoc, s.bytes_append, htext]
    exact next_first_value hx.lead hs.before hb _

theorem length_le_furtherText (items : List (Spaced Value)) :
    items.length ≤ (furtherText items).length := by
  induction items with
  | nil => exact Nat.le_refl _
  | cons s items ih =>
    rw [furtherText_cons, List.length_cons, List.length_cons, List.length_append]
    omega

theorem length_answersOf_le (items : List (Spaced Value)) :
    (answersOf items).length ≤ items.length + 1 := by
  have h : (upToTight items).length ≤ items.length := by
    induction items with
    | nil => exact Nat.le_refl _
    | cons s items ih =>
      rw [upToTight]
      split
      · simp
      · simpa using ih
  have hf : (tightFailure? items).toList.length ≤ 1 := by
    cases tightFailure? items <;> simp
  simp only [answersOf, List.length_append, List.length_map]
  omega

theorem elements_eq_answersOf {x : ArrayText} (hx : x.WellFormed)
    (hm : (∃ s ∈ x.items, s.isTight) → Blank more) :
    elements (x.bytes ++ more) = answersOf x.items := by
  refine (gives_answersOf hx hm).answers (Nat.le_trans (length_answersOf_le x.items) ?_)
  obtain ⟨lead, gap, items⟩ := x
  cases items with
  | nil => simp
  | cons s items =>
    have := length_le_furtherText items
    simp only [ArrayText.bytes, listText, List.length_append, List.length_cons]
    omega

end Stream

/-! ### Texts that are cut off -/

/-- The values with the positions at which their texts end; each stands behind a bracket or a comma
at the start or later. -/
def ends (start : Nat) : List (Spaced Value) → List (Value × Nat)
  | [] => []
  | s :: more =>
    let stop := start + 1 + s.before.length + s.text.length
    (s.item, stop) :: ends (stop + s.after.length) more

def completeWithin (start cut : Nat) (items : List (Spaced Value)) : List Value :=
  ((ends start items).filter (·.2 ≤ cut)).map (·.1)

theorem lt_of_mem_ends {start : Nat} {p : Value × Nat} (h : p ∈ ends start items) :
    start < p.2 := by
  induction items generalizing start with
  | nil => cases h
  | cons s items ih =>
    rcases List.mem_cons.mp h with rfl | h
    · dsimp only
      omega
    · have := ih h
      omega

theorem completeWithin_eq_nil {start cut : Nat} (h : cut ≤ start) (items : List (Spaced Value)) :
    completeWithin start cut items = [] := by
  rw [completeWithin, List.map_eq_nil_iff, List.filter_eq_nil_iff]
  intro p hp
  have := lt_of_mem_ends hp
  simp only [decide_eq_true_eq]
  omega

theorem completeWithin_cons {start cut : Nat} (s : Spaced Value) (items : List (Spaced Value)) :
    completeWithin start cut (s :: items) =
      if start + 1 + s.before.length + s.text.length ≤ cut then
        s.item :: completeWithin (start + 1 + s.before.length + s.text.length + s.after.length) cut
          items
      else [] := by
  split
  · rename_i h
    simp [completeWithin, ends, h]
  · rename_i h
    have hcut : cut ≤ start + 1 + s.before.length + s.text.length + s.after.length := by omega
    have hnil := completeWithin_eq_nil hcut items
    rw [completeWithin] at hnil ⊢
    simpa [ends, h] using hnil

theorem Blank.take (h : Blank gap) (k : Nat) : Blank (gap.take k) :=
  fun b hb => h b (List.mem_of_mem_take hb)

/-- The text up to the cut is blank, or reaches behind the blanks. -/
theorem take_gap (gap bytes : Bytes) (k : Nat) :
    (gap ++ bytes).take k = gap.take k ∧ k ≤ gap.length ∨
      ∃ j, k = gap.length + (j + 1) ∧ (gap ++ bytes).take k = gap ++ bytes.take (j + 1) := by
  rcases Nat.lt_or_ge gap.length k with hk | hk
  · obtain ⟨j, rfl⟩ := Nat.exists_eq_add_of_lt hk
    exact .inr ⟨j, rfl, List.take_length_add_append (j + 1)⟩
  · exact .inl ⟨List.take_append_of_le_length hk, hk⟩

namespace Stream

variable {start k : Nat}

def GivesComplete (stream : Stream) (values : List Value) : Prop :=
  ∃ e, stream.Gives (values.map .ok ++ [.error e])

theorem completeWithin_cons_of_lt {cut : Nat} (hs : s.Fits (IsRead nestingLimit))
    (h : cut ≤ start + 1 + s.before.length) (items : List (Spaced Value)) :
    completeWithin start cut (s :: items) = [] := by
  have := hs.text.length_pos
  rw [completeWithin_cons, if_neg (by omega)]

theorem givesComplete_element (hs : s.Fits (IsRead nestingLimit)) (hd : s.item.isDelimited)
    {tail : Bytes} (hg : Blank gap) (hk : k < (s.text ++ (s.after ++ tail)).length)
    (hrest : ∀ j < (s.after ++ tail).length,
      GivesComplete { state := .inside, bytes := (s.after ++ tail).take j }
        (completeWithin (start + 1 + s.before.length + s.text.length + s.after.length)
          (start + 1 + s.before.length + s.text.length + j) items))
    (hn : stream.next = element (gap ++ (s.text ++ (s.after ++ tail)).take k)) :
    GivesComplete stream (completeWithin start (start + 1 + s.before.length + k) (s :: items)) := by
  rw [completeWithin_cons]
  split
  · rename_i hstop
    obtain ⟨j, rfl⟩ : ∃ j, k = s.text.length + j := ⟨k - s.text.length, by omega⟩
    rw [List.take_length_add_append, element, readElement_isDelimited hs.text hd hg] at hn
    obtain ⟨e, he⟩ := hrest j (by rw [List.length_append] at hk; omega)
    rw [Nat.add_assoc _ s.text.length j] at he
    exact ⟨e, Gives.cons hn he⟩
  · rename_i hstop
    rw [List.take_append_of_le_length (by omega)] at hn
    obtain ⟨e, he⟩ := element_take hs.text hd hg (show k < s.text.length by omega)
    exact ⟨e, gives_fail (hn.trans he)⟩

theorem givesComplete_inside (hi : ∀ s ∈ items, s.Fits (IsRead nestingLimit))
    (hd : ∀ s ∈ items, s.item.isDelimited) (hg : Blank gap)
    (hk : k < (gap ++ (furtherText items ++ [0x5D])).length) :
    GivesComplete { state := .inside, bytes := (gap ++ (furtherText items ++ [0x5D])).take k }
      (completeWithin (start + gap.length) (start + k) items) := by
  induction items generalizing gap k start with
  | nil =>
    have hle : k ≤ gap.length := by simpa [furtherText, Nat.lt_succ_iff] using hk
    rw [List.take_append_of_le_length hle]
    exact ⟨_, gives_fail (next_inside_blank (hg.take k))⟩
  | cons s items ih =>
    rcases take_gap gap (furtherText (s :: items) ++ [0x5D]) k with ⟨htake, hle⟩ | ⟨j, rfl, htake⟩
    · rw [htake, completeWithin_eq_nil (by omega)]
      exact ⟨_, gives_fail (next_inside_blank (hg.take k))⟩
    · have hs := hi s List.mem_cons_self
      have hi' := fun s' hs' => hi s' (List.mem_cons_of_mem s hs')
      have hd' := fun s' hs' => hd s' (List.mem_cons_of_mem s hs')
      have hnext : next { state := .inside, bytes :=
            (gap ++ (furtherText (s :: items) ++ [0x5D])).take (gap.length + (j + 1)) } =
          element
            ((s.before ++ (s.text ++ (s.after ++ (furtherText items ++ [0x5D])))).take j) := by
        rw [htake, furtherText_cons, List.cons_append, List.append_assoc, List.take_succ_cons,
          next_inside_comma hg, s.bytes_append]
      rw [show start + (gap.length + (j + 1)) = start + gap.length + 1 + j by omega]
      rcases take_gap s.before (s.text ++ (s.after ++ (furtherText items ++ [0x5D]))) j with
        ⟨hblank, hle⟩ | ⟨i, rfl, hreach⟩
      · rw [hblank] at hnext
        rw [completeWithin_cons_of_lt hs (by omega)]
        obtain ⟨e, he⟩ := element_take hs.text (hd s List.mem_cons_self) (hs.before.take j)
          hs.text.length_pos
        rw [List.take_zero, List.append_nil] at he
        exact ⟨e, gives_fail (hnext.trans he)⟩
      · rw [hreach] at hnext
        rw [← Nat.add_assoc _ s.before.length]
        refine givesComplete_element hs (hd s List.mem_cons_self) hs.before ?_
          (fun j hj => ih hi' hd' hs.after hj) hnext
        simp only [furtherText_cons, List.length_append, List.length_cons, s.length_bytes] at hk ⊢
        omega

end Stream

namespace ArrayText

def complete (x : ArrayText) (cut : Nat) : List Value := completeWithin x.lead.length cut x.items

end ArrayText

namespace Stream

/-- Of an array that is cut off the complete elements come, and a failure behind them. -/
theorem givesComplete_take {x : ArrayText} (hx : x.WellFormed)
    (hd : ∀ s ∈ x.items, s.item.isDelimited) (hk : k < x.bytes.length) :
    (ofBytes (x.bytes.take k)).GivesComplete (x.complete k) := by
  obtain ⟨lead, gap, items⟩ := x
  have hi : ∀ s ∈ items, s.Fits (IsRead nestingLimit) := fun s hs =>
    (hx.items s hs).mono Writes.isRead_element
  rw [ArrayText.bytes] at hk ⊢
  rw [ArrayText.complete]
  dsimp only at hk ⊢
  rcases take_gap lead (0x5B :: (listText gap items ++ [0x5D])) k with
    ⟨htake, hle⟩ | ⟨j, rfl, htake⟩
  · rw [htake, completeWithin_eq_nil hle]
    exact ⟨_, gives_fail (next_start_blank (Blank.take hx.lead k))⟩
  · rw [htake, List.take_succ_cons]
    cases items with
    | nil =>
      have hle : j ≤ gap.length := by
        simp [listText] at hk
        omega
      rw [listText, List.take_append_of_le_length hle]
      exact ⟨_, gives_fail (next_first_blank hx.lead (Blank.take hx.gap j))⟩
    | cons s items =>
      have hs := hi s List.mem_cons_self
      have hi' := fun s' hs' => hi s' (List.mem_cons_of_mem s hs')
      have hd' := fun s' hs' => hd s' (List.mem_cons_of_mem s hs')
      rw [show lead.length + (j + 1) = lead.length + 1 + j by omega, listText, List.append_assoc,
        s.bytes_append]
      rcases take_gap s.before (s.text ++ (s.after ++ (furtherText items ++ [0x5D]))) j with
        ⟨hblank, hle⟩ | ⟨i, rfl, hreach⟩
      · rw [hblank, completeWithin_cons_of_lt hs (by omega)]
        exact ⟨_, gives_fail (next_first_blank hx.lead (hs.before.take j))⟩
      · obtain ⟨b, text, htext, hb⟩ := hs.text.starts
        rw [hreach, ← Nat.add_assoc _ s.before.length]
        refine givesComplete_element hs (hd s List.mem_cons_self) (List.forall_mem_nil _) ?_
          (fun j hj => givesComplete_inside hi' hd' hs.after hj) ?_
        · simp only [listText, List.length_append, List.length_cons, s.length_bytes] at hk ⊢
          omega
        · rw [htext]
          exact next_first_value hx.lead hs.before hb _

/-- An array of elements that show their ends gives its values, whatever follows it, and then
nothing. If it is cut off before the closing bracket, the complete ones come, then one failure, and
then nothing. -/
theorem gives_delimited {x : ArrayText} (hx : x.WellFormed) (hd : ∀ v ∈ x.values, v.isDelimited) :
    (∀ more, (ofBytes (x.bytes ++ more)).Gives (x.values.map .ok)) ∧
      ∀ cut < x.bytes.length, (ofBytes (x.bytes.take cut)).GivesComplete (x.complete cut) := by
  have hs : ∀ s ∈ x.items, s.item.isDelimited := fun s hs => hd s.item (List.mem_map_of_mem hs)
  have hl : ∀ s ∈ x.items, s.isTight = false := fun s h => by simp [Spaced.isTight, hs s h]
  constructor
  · intro more
    have h : (ofBytes (x.bytes ++ more)).Gives (answersOf x.items) :=
      gives_answersOf hx fun ⟨s, hs, ht⟩ => by
        rw [hl s hs] at ht
        cases ht
    rw [answersOf, upToTight_eq_self hl, tightFailure?_eq_none_iff.mpr hl] at h
    simpa [ArrayText.values, Function.comp_def] using h
  · intro cut hcut
    exact givesComplete_take hx hs hcut

theorem gives_string_and_array :
    let x : ArrayText := { items :=
      [{ item := .string ['a'], text := [0x22, 0x61, 0x22], after := [0x20] },
        { before := [0x0A], item := .array [], text := [0x5B, 0x5D] }] }
    x.WellFormed ∧ (∀ v ∈ x.values, v.isDelimited) ∧
      (ofBytes (x.bytes ++ [0x5D])).Gives [.ok (.string ['a']), .ok (.array [])] ∧
      8 < x.bytes.length ∧ (ofBytes (x.bytes.take 8)).GivesComplete [.string ['a']] := by
  intro x
  have hstring : Writes (nestingLimit - 1) (.string ['a']) [0x22, 0x61, 0x22] :=
    WritesNested.scalar (.string (.cons (.plain (by decide) (by decide) (by decide)) .nil))
  have harray : Writes (nestingLimit - 1) (.array []) [0x5B, 0x5D] :=
    WritesNested.array (List.forall_mem_nil _) (List.forall_mem_nil _)
  have hx : x.WellFormed := by
    refine ⟨List.forall_mem_nil _, List.forall_mem_nil _, fun s hs => ?_⟩
    simp only [x, List.mem_cons, List.not_mem_nil, or_false] at hs
    rcases hs with rfl | rfl
    · exact ⟨by simp [Blank], hstring, by simp [Blank, isBlankByte]⟩
    · exact ⟨by simp [Blank, isBlankByte], harray, by simp [Blank]⟩
  have hd : ∀ v ∈ x.values, v.isDelimited := by
    simp [x, ArrayText.values, Value.isDelimited]
  have h := gives_delimited hx hd
  exact ⟨hx, hd, h.1 [0x5D], by decide, h.2 8 (by decide)⟩

end Stream

end SettingsScan.Json
