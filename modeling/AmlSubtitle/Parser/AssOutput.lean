import AmlSubtitle.Parser.AssAgreement

/-!
# `parser/AssParser.cpp`: the room for an embedded event

`__getAssSpu` copies what it shows of an event over the event, in a buffer that has one byte more
than the payload.

* `infix_firstText`, `infix_secondText`: both texts are parts of the payload.
* `outputFits_iff`: the copy fits where the second text is shorter than what is left out of the
  first one.
* `outputFits_of_break_behind`: it always fits where the first text ends at the line break.

A text with an override block anywhere in the event goes on behind the line break, and the second
text is in it once more.
-/

namespace AmlSubtitle
namespace AssOutput

open Lines Rewrite AssParser AssAgreement

/-! ## The texts -/

/-- The text of an event, before it is rewritten. -/
def firstText (event : List UInt8) : List UInt8 :=
  let (_, ss, str) := readItems (eventSections (isDialogue event)) (Stream.ofString event) []
  content event ss str

/-- The event has its sections, and no drawing. -/
def Accepted (event : List UInt8) : Prop :=
  eventSections false ≤
      (readItems (eventSections (isDialogue event)) (Stream.ofString event) []).1.length ∧
    cut drawingEnd event = none

/-- What is copied back of a payload is no longer than the buffer that had it. -/
def OutputFits (payload : List UInt8) : Prop :=
  ∀ spu, (getAssSpu (payload ++ [0]) spu).1 = 0 →
    ∀ data ∈ (getAssSpu (payload ++ [0]) spu).2.spuData, data.length ≤ (payload ++ [0]).length

/-- A piece that is read of a stream over a part of `s`. -/
theorem infix_getline {s str : List UInt8} {ss : Stream} (delim : UInt8) (hrest : ss.rest <:+ s)
    (hstr : str <:+: s) :
    (ss.getline delim str).2.1.rest <:+ s ∧ (ss.getline delim str).2.2 <:+: s := by
  rw [Stream.getline]
  split_ifs
  · exact ⟨hrest, hstr⟩
  · split
    · next c rest hdrop =>
      refine ⟨?_, (List.takeWhile_prefix _).isInfix.trans hrest.isInfix⟩
      have hsuffix := List.dropWhile_suffix (l := ss.rest) (· ≠ delim)
      rw [hdrop] at hsuffix
      exact ((List.suffix_cons c rest).trans hsuffix).trans hrest
    · exact ⟨List.nil_suffix, hrest.isInfix⟩

theorem infix_readItems {s : List UInt8} (n : ℕ) {ss : Stream} {str : List UInt8}
    (hrest : ss.rest <:+ s) (hstr : str <:+: s) :
    (readItems n ss str).2.1.rest <:+ s ∧ (readItems n ss str).2.2 <:+: s := by
  induction n generalizing ss str with
  | zero => exact ⟨hrest, hstr⟩
  | succ n ih =>
    obtain ⟨hrest', hstr'⟩ := infix_getline 44 hrest hstr
    rw [readItems]
    split
    · next ss' str' hget =>
      rw [hget] at hrest' hstr'
      exact ih hrest' hstr'
    · next ss' str' hget =>
      rw [hget] at hrest' hstr'
      exact ⟨hrest', hstr'⟩

theorem infix_of_mem_splitTokens {token : List UInt8} (n : ℕ) {s : List UInt8}
    (h : token ∈ splitTokens n s) : token <:+: s := by
  induction n generalizing s with
  | zero => exact List.mem_singleton.mp h ▸ List.infix_refl s
  | succ n ih =>
    rw [splitTokens] at h
    split at h
    · exact List.mem_singleton.mp h ▸ List.infix_refl s
    · next first rest hcut =>
      rw [cut_eq_some hcut]
      rcases List.mem_cons.mp h with rfl | hmem
      · exact (List.prefix_append _ _).isInfix
      · exact (ih hmem).trans (List.suffix_append_of_suffix (List.suffix_append _ _)).isInfix

theorem infix_firstText (event : List UInt8) : firstText event <:+: event := by
  obtain ⟨hrest, hstr⟩ := @infix_readItems event (eventSections (isDialogue event))
    (Stream.ofString event) [] (List.suffix_refl _) (List.nil_infix)
  rw [firstText]
  generalize readItems (eventSections (isDialogue event)) (Stream.ofString event) [] = read at *
  obtain ⟨items, ss, str⟩ := read
  dsimp only at hrest hstr ⊢
  rw [content]
  split
  · exact (infix_getline 10 hrest hstr).2
  · rw [List.getD_eq_getElem?_getD]
    cases htoken : (splitTokens 8 event)[8]? with
    | none => exact hstr
    | some token => exact infix_of_mem_splitTokens 8 (List.mem_of_getElem? htoken)

/-- The second text is a part of what stands behind the line break. -/
theorem infix_secondText {event before behind : List UInt8}
    (h : cut [10] event = some (before, behind)) :
    getSecondTextForDoubleLanguage event <:+: behind := by
  obtain ⟨hrest, hstr⟩ := @infix_readItems behind (eventSections (isDialogue behind))
    (Stream.ofString behind) [] (List.suffix_refl _) (List.nil_infix)
  rw [getSecondTextForDoubleLanguage, h]
  dsimp only
  split
  · exact (infix_getline 10 hrest hstr).2
  · exact (List.drop_suffix _ _).isInfix

/-! ## What is copied -/

/-- The event is what the payload has in front of its first null. -/
theorem prefix_event (payload : List UInt8) : string (payload ++ [0]) <+: payload := by
  rw [string, List.takeWhile_append]
  split_ifs
  · rw [List.takeWhile_cons_of_neg (by decide), List.append_nil]
  · exact List.takeWhile_prefix _

/-- What is shown of both texts. -/
def shownText (event : List UInt8) : List UInt8 :=
  stringConvert2Stream (getSecondTextForDoubleLanguage event) (displayText (firstText event))

theorem getAssSpu_cases (spuBuf : List UInt8) (spu : Spu) :
    Accepted (string spuBuf) ∧ (getAssSpu spuBuf spu).1 = 0 ∧
        (getAssSpu spuBuf spu).2.spuData = some (strcpy spuBuf (shownText (string spuBuf))) ∨
      ¬ Accepted (string spuBuf) ∧ (getAssSpu spuBuf spu).1 = -1 := by
  unfold getAssSpu Accepted shownText firstText
  generalize string spuBuf = event
  obtain ⟨⟨items, ss, str⟩, hread⟩ : ∃ read,
    readItems (eventSections (isDialogue event)) (Stream.ofString event) [] = read := ⟨_, rfl⟩
  dsimp only
  rw [hread]
  dsimp only
  by_cases hitems : items.length < eventSections false
  · rw [if_pos hitems]
    exact .inr ⟨fun h => absurd hitems (not_lt.mpr h.1), rfl⟩
  · rw [if_neg hitems]
    cases hdrawing : cut drawingEnd event with
    | none =>
      rw [if_neg (by decide), rewriteText_eq]
      exact .inl ⟨⟨not_lt.mp hitems, rfl⟩, rfl, rfl⟩
    | some p =>
      rw [if_pos (by rfl)]
      exact .inr ⟨fun h => absurd h.2 (Option.some_ne_none p), rfl⟩

theorem length_strcpy (dest src : List UInt8) :
    (strcpy dest src).length = max dest.length ((string src).length + 1) := by
  rw [strcpy, List.length_append, List.length_cons, List.length_drop]
  omega

theorem length_displayText_le (text : List UInt8) : (displayText text).length ≤ text.length := by
  have hturn : ∀ s : List UInt8, (turnNewlines s).length ≤ s.length := by
    intro s
    induction s using turnNewlines.induct with
    | case1 => exact le_rfl
    | case2 c => exact le_rfl
    | case3 c d s hesc ih =>
      rw [turnNewlines, if_pos hesc]
      simp only [List.length_cons]
      omega
    | case4 c d s hesc ih =>
      rw [turnNewlines, if_neg hesc]
      exact Nat.succ_le_succ ih
  exact (hturn _).trans (sublist_exhaust_removeBlock text).length_le

/-- No null is in what is shown. -/
theorem string_shownText {event : List UInt8} (h : 0 ∉ event) :
    string (shownText event) = shownText event := by
  have hfirst : 0 ∉ displayText (firstText event) := fun hmem =>
    h ((infix_firstText event).subset (mem_displayText (by decide) hmem))
  have hsecond : 0 ∉ getSecondTextForDoubleLanguage event := by
    intro hmem
    cases hcut : cut [10] event with
    | none =>
      rw [getSecondTextForDoubleLanguage, hcut] at hmem
      exact absurd hmem List.not_mem_nil
    | some p =>
      have hbehind := (infix_secondText hcut).subset hmem
      rw [cut_eq_some hcut] at h
      exact h (List.mem_append_right _ (List.mem_append_right _ hbehind))
  have hshown : 0 ∉ shownText event := by
    unfold shownText stringConvert2Stream
    split_ifs
    · exact hfirst
    · intro hmem
      rcases List.mem_append.mp hmem with hmem | hmem
      · exact hsecond hmem
      · rcases List.mem_cons.mp hmem with hmem | hmem
        · exact absurd hmem (by decide)
        · exact hfirst hmem
  have happend := string_append_of_notMem hshown List.not_mem_nil
  rwa [List.append_nil] at happend

/-- The bytes of a payload that are not in the first text, and those of its override blocks and
escapes that are not shown. -/
def leftOut (payload : List UInt8) : ℕ :=
  let text := firstText (string (payload ++ [0]))
  (payload.length - text.length) + (text.length - (displayText text).length)

/-- The second text is shorter than what is left out of the first one. -/
def SecondFits (payload : List UInt8) : Prop :=
  let event := string (payload ++ [0])
  Accepted event → getSecondTextForDoubleLanguage event = [] ∨
    (getSecondTextForDoubleLanguage event).length < leftOut payload

/-- What is copied back is the shown text, if the event is accepted. -/
theorem outputFits_iff_strcpy (payload : List UInt8) :
    OutputFits payload ↔ (Accepted (string (payload ++ [0])) →
      (strcpy (payload ++ [0]) (shownText (string (payload ++ [0])))).length ≤
        (payload ++ [0]).length) := by
  constructor
  · intro h haccepted
    obtain ⟨-, hreturns, hdata⟩ | ⟨hnot, -⟩ :=
      getAssSpu_cases (payload ++ [0]) ⟨0, 0, false, 0, false, false, false, 0, 0, none, .ssa⟩
    · exact h _ hreturns _ hdata
    · exact absurd haccepted hnot
  · intro h spu hreturns data hmem
    obtain ⟨haccepted, -, hdata⟩ | ⟨-, hfails⟩ := getAssSpu_cases (payload ++ [0]) spu
    · rw [hdata] at hmem
      obtain rfl := Option.some.inj hmem
      exact h haccepted
    · rw [hreturns] at hfails
      exact absurd hfails (by decide)

theorem strcpy_shownText_le_iff (payload : List UInt8) :
    (strcpy (payload ++ [0]) (shownText (string (payload ++ [0])))).length ≤
        (payload ++ [0]).length ↔
      getSecondTextForDoubleLanguage (string (payload ++ [0])) = [] ∨
        (getSecondTextForDoubleLanguage (string (payload ++ [0]))).length < leftOut payload := by
  have hnull : 0 ∉ string (payload ++ [0]) := zero_notMem_string _
  have hevent := (prefix_event payload).length_le
  have htext := (infix_firstText (string (payload ++ [0]))).length_le
  have hshown := length_displayText_le (firstText (string (payload ++ [0])))
  rw [length_strcpy, string_shownText hnull, leftOut, shownText, stringConvert2Stream]
  rw [List.length_append, List.length_singleton]
  split_ifs with hnone
  · refine iff_of_true ?_ (.inl hnone)
    omega
  · rw [or_iff_right hnone, List.length_append, List.length_cons]
    omega

/-- **An embedded event fits** in the buffer that had it exactly if its second text does. -/
theorem outputFits_iff (payload : List UInt8) : OutputFits payload ↔ SecondFits payload := by
  rw [outputFits_iff_strcpy, strcpy_shownText_le_iff]
  exact Iff.rfl

/-- An event with an override block, and sixteen letters behind its line break. -/
def brokenEvent : List UInt8 :=
  List.replicate 8 44 ++ [123, 92, 98, 125, 97, 10] ++ List.replicate 16 98

/-- The letters are shown twice. -/
theorem not_outputFits_broken : ¬ ∀ payload, OutputFits payload := by
  intro h
  have hfits := (outputFits_iff brokenEvent).mp (h _)
  revert hfits
  unfold SecondFits Accepted
  decide +kernel

/-! ## Line breaks behind the text -/

theorem joinFields_append (fields : List (List UInt8)) (text rest : List UInt8) :
    joinFields fields (text ++ rest) = joinFields fields text ++ rest := by
  induction fields with
  | nil => rfl
  | cons field fields ih =>
    change field ++ 44 :: joinFields fields (text ++ rest) =
      (field ++ 44 :: joinFields fields text) ++ rest
    rw [ih, List.append_assoc]
    rfl

theorem newline_notMem_joinFields {fields : List (List UInt8)} {text : List UInt8}
    (hfields : ∀ field ∈ fields, 10 ∉ field) (htext : 10 ∉ text) :
    10 ∉ joinFields fields text := by
  induction fields with
  | nil => exact htext
  | cons field fields ih =>
    rw [List.forall_mem_cons] at hfields
    intro hmem
    rcases List.mem_append.mp hmem with hmem | hmem
    · exact hfields.1 hmem
    · rcases List.mem_cons.mp hmem with hmem | hmem
      · exact absurd hmem (by decide)
      · exact ih hfields.2 hmem

/-- **An event whose text ends at its line break** fits: there is no override block in it, and all
its sections are in front of the break. -/
theorem outputFits_of_break_behind {payload text behind : List UInt8} {fields : List (List UInt8)}
    (hevent : string (payload ++ [0]) = joinFields fields (text ++ 10 :: behind))
    (hlen : fields.length = eventSections (isDialogue (string (payload ++ [0]))))
    (hfields : ∀ field ∈ fields, 44 ∉ field ∧ 10 ∉ field) (htext : 10 ∉ text)
    (htag : ¬ openTag <:+: string (payload ++ [0])) : OutputFits payload := by
  rw [outputFits_iff_strcpy, strcpy_shownText_le_iff]
  intro _
  right
  have hlength := (prefix_event payload).length_le
  rw [leftOut]
  generalize string (payload ++ [0]) = event at *
  have hbreak := newline_notMem_joinFields (fun field hmem => (hfields field hmem).2) htext
  have hcut : cut [10] event = some (joinFields fields text, behind) := by
    rw [hevent, joinFields_append, cut_singleton hbreak]
  have hread : readItems (eventSections (isDialogue event)) (Stream.ofString event) [] =
      (fields, Stream.ofString (text ++ 10 :: behind), fields.getLast?.getD []) := by
    rw [← hlen, hevent]
    exact readItems_joinFields (fun field hmem => (hfields field hmem).1) _ _
  have hfirst : firstText event = text := by
    rw [firstText, hread]
    dsimp only
    rw [content, cut_eq_none.mpr htag, Stream.getline_append htext]
  have hsecond := (infix_secondText hcut).length_le
  have hshown := length_displayText_le text
  have heventlen : event.length = (joinFields fields text).length + (1 + behind.length) := by
    rw [cut_eq_some hcut, List.length_append, List.length_append, List.length_singleton]
  have hsuffix := (suffix_joinFields fields text).length_le
  rw [hfirst]
  omega

end AssOutput
end AmlSubtitle
