import AmlSubtitle.Parser.SubStationAlpha

/-!
# One event, embedded and in a file

The text and the times that `AssParser` and `SubStationAlpha` find in one `Dialogue:` line.

* `Event` is a line of nine fields and a text.  `displayText` is what is shown of a text: the
  override blocks are removed, and the escapes turned into newlines.
* `Agrees e`: both find the text of the event and its times.
* `Event.agrees_iff`: they do where the line has no override block.  A line with one is split
  at its commas again, up to the eighth, so that the effect and its comma are shown in front
  of the text, unless they are part of a block that the text closes.  The times have to fit
  32 bits of milliseconds too.
-/

namespace AmlSubtitle
namespace AssAgreement

open Words Scanf Lines Rewrite AssParser ExtSubStreamReader TextSubtitle SubStationAlpha

/-! ## What is shown of a text -/

/-- `\n` and `\N` are turned into newlines. -/
def turnNewlines : List UInt8 → List UInt8
  | [] => []
  | [c] => [c]
  | c :: d :: s =>
    if c = 92 ∧ (d = 110 ∨ d = 78) then 10 :: turnNewlines s else c :: turnNewlines (d :: s)

/-- What is shown of a text. -/
def displayText (text : List UInt8) : List UInt8 := turnNewlines (exhaust removeBlock text)

theorem turnNewlines_cons {c : UInt8} (h : c ≠ 92) (s : List UInt8) :
    turnNewlines (c :: s) = c :: turnNewlines s := by
  cases s with
  | nil => rfl
  | cons d s => rw [turnNewlines, if_neg fun hh => h hh.1]

/-- An escape does not end in any other letter. -/
theorem turnNewlines_append_cons {c : UInt8} (h : ¬ (c = 110 ∨ c = 78)) (s t : List UInt8) :
    turnNewlines (s ++ c :: t) = turnNewlines s ++ turnNewlines (c :: t) := by
  induction s using turnNewlines.induct with
  | case1 => rfl
  | case2 d =>
    show turnNewlines (d :: c :: t) = d :: turnNewlines (c :: t)
    rw [turnNewlines, if_neg fun hh => h hh.2]
  | case3 d e s hesc ih =>
    rw [List.cons_append, List.cons_append, turnNewlines, if_pos hesc, ih, turnNewlines,
      if_pos hesc, List.cons_append]
  | case4 d e s hesc ih =>
    rw [List.cons_append, List.cons_append, turnNewlines, if_neg hesc, ← List.cons_append, ih,
      turnNewlines, if_neg hesc, List.cons_append]

/-- The round of the loop with the newline. -/
theorem turnNewlines_escape {d : UInt8} (hd : d = 110 ∨ d = 78) (before after : List UInt8) :
    turnNewlines (before ++ ([92, d] ++ after)) = turnNewlines (before ++ 10 :: after) := by
  have hescape : turnNewlines (92 :: d :: after) = 10 :: turnNewlines after := by
    rw [turnNewlines, if_pos ⟨rfl, hd⟩]
  rw [show [92, d] ++ after = 92 :: d :: after from rfl,
    turnNewlines_append_cons (by decide), turnNewlines_append_cons (by decide), hescape,
    turnNewlines_cons (by decide)]

theorem turnNewlines_of_cut {s : List UInt8} (hn : cut [92, 110] s = none)
    (hN : cut [92, 78] s = none) : turnNewlines s = s := by
  rw [cut_eq_none] at hn hN
  induction s using turnNewlines.induct with
  | case1 => rfl
  | case2 d => rfl
  | case3 d e s hesc ih =>
    obtain ⟨rfl, rfl | rfl⟩ := hesc
    · exact absurd (List.prefix_append [92, 110] s).isInfix hn
    · exact absurd (List.prefix_append [92, 78] s).isInfix hN
  | case4 d e s hesc ih =>
    rw [List.infix_cons_iff, not_or] at hn hN
    rw [turnNewlines, if_neg hesc, ih hn.2 hN.2]

theorem replaceNewline_cases (str : List UInt8) :
    (∃ d before after, (d = 110 ∨ d = 78) ∧ str = before ++ ([92, d] ++ after) ∧
      replaceNewline str = some (before ++ 10 :: after)) ∨
    cut [92, 110] str = none ∧ cut [92, 78] str = none ∧ replaceNewline str = none := by
  cases hn : cut [92, 110] str with
  | some p =>
    refine Or.inl ⟨110, p.1, p.2, Or.inl rfl, cut_eq_some hn, ?_⟩
    rw [replaceNewline, hn]
  | none =>
    cases hN : cut [92, 78] str with
    | some p =>
      refine Or.inl ⟨78, p.1, p.2, Or.inr rfl, cut_eq_some hN, ?_⟩
      rw [replaceNewline, hn, hN]
    | none =>
      refine Or.inr ⟨rfl, rfl, ?_⟩
      rw [replaceNewline, hn, hN]

theorem shortens_replaceNewline : Shortens replaceNewline := by
  intro s t h
  rcases replaceNewline_cases s with ⟨d, before, after, -, hs, hsome⟩ | ⟨-, -, hnone⟩
  · obtain rfl := Option.some.inj (hsome.symm.trans h)
    rw [hs]
    simp only [List.length_append, List.length_cons, List.length_nil]
    omega
  · exact absurd (h.symm.trans hnone) (Option.some_ne_none t)

/-- **The loop over the escapes** turns each into a newline. -/
theorem exhaust_replaceNewline (s : List UInt8) : exhaust replaceNewline s = turnNewlines s := by
  refine exhaust_induction (P := fun s t => t = turnNewlines s) shortens_replaceNewline ?_ ?_ s
  · intro s h
    rcases replaceNewline_cases s with ⟨d, before, after, -, -, hsome⟩ | ⟨hn, hN, -⟩
    · exact absurd (hsome.symm.trans h) (Option.some_ne_none _)
    · exact (turnNewlines_of_cut hn hN).symm
  · intro s t h ih
    rcases replaceNewline_cases s with ⟨d, before, after, hd, hs, hsome⟩ | ⟨-, -, hnone⟩
    · obtain rfl := Option.some.inj (hsome.symm.trans h)
      rw [ih, hs, turnNewlines_escape hd]
    · exact absurd (h.symm.trans hnone) (Option.some_ne_none t)

/-- Both loops show the text. -/
theorem rewriteText_eq (text : List UInt8) : rewriteText text = displayText text :=
  exhaust_replaceNewline _

/-- **No override block is left.** -/
theorem no_block_left (text before inner after : List UInt8) :
    exhaust removeBlock text ≠ before ++ (openTag ++ (inner ++ 125 :: after)) := by
  intro heq
  have hnone := step_exhaust shortens_removeBlock text
  rw [heq] at hnone
  have hfound : cut openTag (before ++ openTag) ≠ none := fun h =>
    cut_eq_none.mp h (List.suffix_append before openTag).isInfix
  obtain ⟨⟨first, rest⟩, hcut⟩ := Option.ne_none_iff_exists'.mp hfound
  have htag := cut_append hcut (inner ++ 125 :: after)
  rw [List.append_assoc] at htag
  rw [removeBlock_of_cut htag, Option.map_eq_none_iff, cut_singleton_eq_none] at hnone
  exact hnone (List.mem_append_right _ (List.mem_append_right _ List.mem_cons_self))

/-- What is shown has no letters of its own. -/
theorem mem_turnNewlines {c : UInt8} (hc : c ≠ 10) {s : List UInt8} (h : c ∈ turnNewlines s) :
    c ∈ s := by
  induction s using turnNewlines.induct with
  | case1 => exact h
  | case2 d => exact h
  | case3 d e s hesc ih =>
    rw [turnNewlines, if_pos hesc, List.mem_cons] at h
    rcases h with h | h
    · exact absurd h hc
    · exact List.mem_cons_of_mem d (List.mem_cons_of_mem e (ih h))
  | case4 d e s hesc ih =>
    rw [turnNewlines, if_neg hesc, List.mem_cons] at h
    rcases h with h | h
    · exact h ▸ List.mem_cons_self
    · exact List.mem_cons_of_mem d (ih h)

theorem sublist_exhaust_removeBlock (text : List UInt8) :
    (exhaust removeBlock text).Sublist text := by
  refine exhaust_induction (P := fun s t => t.Sublist s) shortens_removeBlock
    (fun s _ => List.Sublist.refl s) ?_ text
  intro s t h ih
  obtain ⟨before, rest, inner, after, htag, hend, rfl⟩ := removeBlock_eq_some h
  refine ih.trans ?_
  rw [cut_eq_some htag, cut_eq_some hend]
  refine (List.Sublist.refl before).append ?_
  exact ((List.sublist_append_right [125] after).trans
    (List.sublist_append_right inner _)).trans (List.sublist_append_right openTag _)

theorem mem_displayText {c : UInt8} (hc : c ≠ 10) {text : List UInt8} (h : c ∈ displayText text) :
    c ∈ text :=
  (sublist_exhaust_removeBlock text).subset (mem_turnNewlines hc h)

/-! ## A comma in front of the text -/

/-- The effect leaves an override block open, which the text closes; what is left of both
shows the same as the text. -/
def Swallowed (effect text : List UInt8) : Prop :=
  ∃ before rest inner after, cut openTag (exhaust removeBlock effect) = some (before, rest) ∧
    cut [125] text = some (inner, after) ∧ displayText (before ++ after) = displayText text

theorem displayText_comma_ne {s t : List UInt8}
    (h : exhaust removeBlock (s ++ 44 :: t) =
      exhaust removeBlock s ++ 44 :: exhaust removeBlock t) :
    displayText (s ++ 44 :: t) ≠ displayText t := by
  intro heq
  rw [displayText, h, turnNewlines_append_cons (by decide), turnNewlines_cons (by decide)] at heq
  have hlen := congrArg List.length heq
  rw [List.length_append, List.length_cons, displayText] at hlen
  omega

/-- **A comma in front of a text is shown**, unless a block that is left open swallows it. -/
theorem displayText_comma_iff (effect text : List UInt8) :
    displayText (effect ++ 44 :: text) = displayText text ↔ Swallowed effect text := by
  have happend := exhaust_append (t := 44 :: text) shortens_removeBlock
    (removeBlock_append (44 :: text)) effect
  have hleft := step_exhaust shortens_removeBlock effect
  cases htag : cut openTag (exhaust removeBlock effect) with
  | none =>
    rw [exhaust_removeBlock_comma htag] at happend
    refine iff_of_false (displayText_comma_ne happend) ?_
    rintro ⟨before, rest, inner, after, hcut, -⟩
    exact Option.some_ne_none _ (hcut.symm.trans htag)
  | some p =>
    obtain ⟨before, rest⟩ := p
    rw [removeBlock_of_cut htag, Option.map_eq_none_iff] at hleft
    have hblock := removeBlock_of_cut (cut_append htag (44 :: text))
    rw [cut_append_cons (by decide) hleft, Option.map_map] at hblock
    cases hend : cut [125] text with
    | none =>
      rw [hend] at hblock
      rw [exhaust_of_none hblock] at happend
      have htext := exhaust_of_none (removeBlock_of_notMem (cut_singleton_eq_none.mp hend))
      refine iff_of_false (displayText_comma_ne ?_) ?_
      · rw [htext]
        exact happend
      · rintro ⟨_, _, inner, after, -, hcut, -⟩
        exact Option.some_ne_none _ (hcut.symm.trans hend)
    | some q =>
      obtain ⟨inner, after⟩ := q
      rw [hend] at hblock
      rw [exhaust_of_some shortens_removeBlock hblock] at happend
      have hshown : displayText (effect ++ 44 :: text) = displayText (before ++ after) :=
        congrArg turnNewlines happend
      rw [hshown]
      refine ⟨fun h => ⟨before, rest, inner, after, htag, hend, h⟩, ?_⟩
      rintro ⟨before', rest', inner', after', htag', hend', h⟩
      obtain ⟨rfl, -⟩ := Prod.mk.inj (Option.some.inj (htag.symm.trans htag'))
      obtain ⟨-, rfl⟩ := Prod.mk.inj (Option.some.inj (hend.symm.trans hend'))
      exact h

/-! ## Events -/

/-- A time `h:mm:ss.cc`, as its digits. -/
structure Time where
  hours : List UInt8
  minutes : List UInt8
  seconds : List UInt8
  hundredths : List UInt8
  hours_ne_nil : hours ≠ []
  length_minutes : minutes.length = 2
  length_seconds : seconds.length = 2
  length_hundredths : hundredths.length = 2
  isDigits : ∀ c ∈ hours ++ minutes ++ seconds ++ hundredths, isDigit c = true

/-- The time as it is written. -/
def Time.text (t : Time) : List UInt8 :=
  t.hours ++ 58 :: (t.minutes ++ 58 :: (t.seconds ++ 46 :: t.hundredths))

/-- The time in hundredths of a second. -/
def Time.centis (t : Time) : ℕ :=
  ((decimal t.hours * 60 + decimal t.minutes) * 60 + decimal t.seconds) * 100 +
    decimal t.hundredths

/-- The fields of an event, and its text. -/
structure Sections where
  layer : List UInt8
  start : Time
  stop : Time
  style : List UInt8
  name : List UInt8
  marginL : List UInt8
  marginR : List UInt8
  marginV : List UInt8
  effect : List UInt8
  text : List UInt8

/-- The fields up to the last one. -/
def Sections.leading (e : Sections) : List (List UInt8) :=
  [dialogue ++ e.layer, e.start.text, e.stop.text, e.style, e.name, e.marginL, e.marginR,
    e.marginV]

/-- The fields in front of the text. -/
def Sections.fields (e : Sections) : List (List UInt8) := e.leading ++ [e.effect]

/-- The line of the event. -/
def Sections.line (e : Sections) : List UInt8 := joinFields e.fields e.text

/-- A `Dialogue:` event in one line, with no drawing. -/
structure Event extends Sections where
  no_comma : ∀ field ∈ [layer, style, name, marginL, marginR, marginV, effect], 44 ∉ field
  no_newline : 10 ∉ toSections.line
  no_null : 0 ∉ toSections.line
  no_drawing : ¬ drawingEnd <:+: toSections.line

/-- `__getAssSpu` finds the text and the times, in units of 90 kHz. -/
def ReadsEmbedded (e : Event) : Prop :=
  ∀ spuBuf spu, string spuBuf = e.line →
    ∃ spu', getAssSpu spuBuf spu = (0, spu') ∧ spu'.pts = e.start.centis * 900 ∧
      spu'.mDelay = e.stop.centis * 900 ∧ spu'.spuData.map string = some (displayText e.text)

/-- `SubStationAlpha::decodedItem` finds the text and the times, in hundredths of a second. -/
def ReadsExternal (e : Event) : Prop :=
  ∀ r s m r', getLine r s = (some m, r') → m.string = e.line →
    SubStationAlpha.decodedItem r s =
      (some ⟨e.start.centis, e.stop.centis, [displayText e.text]⟩, r')

/-- **Both parsers agree** on an event. -/
def Agrees (e : Event) : Prop := ReadsEmbedded e ∧ ReadsExternal e

/-! ## The times -/

theorem scanTime_text (t : Time) :
    scanTime t.text = some (toInt (decimal t.hours), toInt (decimal t.minutes),
      toInt (decimal t.seconds), toInt (decimal t.hundredths)) := by
  have hmem := t.isDigits
  simp only [List.mem_append, or_imp, forall_and] at hmem
  obtain ⟨⟨⟨hhours, hminutes⟩, hseconds⟩, hhundredths⟩ := hmem
  have hne : ∀ {l : List UInt8}, l.length = 2 → l ≠ [] := fun h hnil => by
    rw [hnil] at h
    exact absurd h (by decide)
  have hcolon : ∀ s : List UInt8, ∀ c ∈ (58 :: s).head?, isDigit c = false := fun s c hc =>
    Option.some.inj hc ▸ rfl
  have hdot : ∀ s : List UInt8, ∀ c ∈ (46 :: s).head?, isDigit c = false := fun s c hc =>
    Option.some.inj hc ▸ rfl
  have hlast : scanInt t.hundredths = some (toInt (decimal t.hundredths), []) := by
    have hscan : scanInt (t.hundredths ++ []) = some (toInt (decimal t.hundredths), []) :=
      scanInt_digits (hne t.length_hundredths) hhundredths fun _ hc =>
        absurd hc (Option.not_mem_none _)
    rwa [List.append_nil] at hscan
  have hscan : scan timeFormat t.text = [.int (toInt (decimal t.hours)),
      .int (toInt (decimal t.minutes)), .int (toInt (decimal t.seconds)),
      .int (toInt (decimal t.hundredths))] := by
    rw [timeFormat, Time.text, scan, scanInt_digits t.hours_ne_nil hhours (hcolon _)]
    dsimp only
    rw [scan, if_pos rfl, scan, scanInt_digits (hne t.length_minutes) hminutes (hcolon _)]
    dsimp only
    rw [scan, if_pos rfl, scan, scanInt_digits (hne t.length_seconds) hseconds (hdot _)]
    dsimp only
    rw [scan, if_pos rfl, scan, hlast]
    rfl
  rw [scanTime, hscan]

/-- What `sscanf` finds of a time. -/
def Time.values (t : Time) : ℤ × ℤ × ℤ × ℤ :=
  (toInt (decimal t.hours), toInt (decimal t.minutes), toInt (decimal t.seconds),
    toInt (decimal t.hundredths))

/-- The values are those of the digits where the time is short of 32 bits of milliseconds. -/
theorem Time.values_eq {t : Time} (h : t.centis * 10 < 2 ^ 32) :
    t.values = ((decimal t.hours : ℤ), (decimal t.minutes : ℤ), (decimal t.seconds : ℤ),
      (decimal t.hundredths : ℤ)) := by
  rw [Time.centis] at h
  rw [Time.values, toInt_natCast (by omega), toInt_natCast (by omega), toInt_natCast (by omega),
    toInt_natCast (by omega)]

theorem milliseconds_values_iff (t : Time) :
    (milliseconds t.values : ℤ) * 90 = t.centis * 900 ↔ t.centis * 10 < 2 ^ 32 := by
  constructor
  · intro h
    have hlt : milliseconds t.values < 2 ^ 32 := by
      rw [milliseconds, asUnsigned]
      have := Int.emod_lt_of_pos ((t.values.1 * 60 * 60 + t.values.2.1 * 60 + t.values.2.2.1) *
        1000 + t.values.2.2.2 * 10) (b := 2 ^ 32) (by decide)
      omega
    omega
  · intro h
    have hms : milliseconds t.values = t.centis * 10 := by
      rw [t.values_eq h, milliseconds, asUnsigned]
      rw [Time.centis] at h ⊢
      rw [Int.emod_eq_of_lt (by omega) (by omega)]
      omega
    rw [hms]
    push_cast
    ring

theorem centiseconds_values {t : Time} (h : t.centis * 10 < 2 ^ 32) :
    centiseconds t.values = t.centis := by
  rw [t.values_eq h, centiseconds, asUnsigned]
  rw [Time.centis] at h ⊢
  rw [Int.emod_eq_of_lt (by omega) (by omega)]
  omega

/-! ## The fields -/

theorem Time.comma_notMem_text (t : Time) : 44 ∉ t.text := by
  have hmem := t.isDigits
  intro h
  have hdigit : isDigit 44 = true := by
    refine hmem 44 ?_
    simp only [Time.text, List.mem_append, List.mem_cons] at h ⊢
    rcases h with h | h | h | h | h | h | h
    · exact Or.inl (Or.inl (Or.inl h))
    · exact absurd h (by decide)
    · exact Or.inl (Or.inl (Or.inr h))
    · exact absurd h (by decide)
    · exact Or.inl (Or.inr h)
    · exact absurd h (by decide)
    · exact Or.inr h
  exact absurd hdigit (by decide)

theorem suffix_joinFields (fields : List (List UInt8)) (s : List UInt8) :
    s <:+ joinFields fields s := by
  induction fields with
  | nil => exact List.suffix_refl s
  | cons field fields ih =>
    exact ih.trans (List.suffix_append_of_suffix (List.suffix_cons 44 _))

namespace Sections

variable (e : Sections)

theorem comma_notMem_fields
    (hcomma : ∀ field ∈ [e.layer, e.style, e.name, e.marginL, e.marginR, e.marginV, e.effect],
      44 ∉ field) : ∀ field ∈ e.fields, 44 ∉ field := by
  have hlayer : 44 ∉ dialogue ++ e.layer := by
    rw [List.mem_append, not_or]
    exact ⟨by decide, hcomma e.layer List.mem_cons_self⟩
  simp only [List.forall_mem_cons] at hcomma
  obtain ⟨-, hstyle, hname, hmarginL, hmarginR, hmarginV, heffect, -⟩ := hcomma
  simp only [Sections.fields, Sections.leading, List.cons_append, List.nil_append,
    List.forall_mem_cons]
  exact ⟨hlayer, e.start.comma_notMem_text, e.stop.comma_notMem_text, hstyle, hname, hmarginL,
    hmarginR, hmarginV, heffect, List.forall_mem_nil _⟩

theorem isDialogue_line : isDialogue e.line = true := by
  rw [isDialogue, List.isPrefixOf_iff_prefix]
  show dialogue <+: (dialogue ++ e.layer) ++ 44 :: joinFields (e.fields.drop 1) e.text
  rw [List.append_assoc]
  exact List.prefix_append dialogue _

theorem suffix_line : 44 :: e.text <:+ e.line := by
  show 44 :: e.text <:+ joinFields e.leading (e.effect ++ 44 :: e.text)
  exact (List.suffix_append e.effect _).trans (suffix_joinFields e.leading _)

/-- The line as the external path reads it. -/
theorem decodeLine_line
    (hcomma : ∀ field ∈ [e.layer, e.style, e.name, e.marginL, e.marginR, e.marginV, e.effect],
      44 ∉ field) (hnewline : 10 ∉ e.line) :
    decodeLine e.line =
      some ⟨centiseconds e.start.values, centiseconds e.stop.values, [displayText e.text]⟩ := by
  have hread : readItems (eventSections true) (Stream.ofString e.line) [] =
      (e.fields, Stream.ofString e.text, e.effect) :=
    readItems_joinFields (e.comma_notMem_fields hcomma) e.text []
  have htext : ((Stream.ofString e.text).getline 10 e.effect).2.2 = e.text :=
    Stream.getline_of_notMem
      (fun h => hnewline (e.suffix_line.subset (List.mem_cons_of_mem 44 h))) e.effect
  have hlen : ¬ e.fields.length < eventSections true := lt_irrefl 9
  have hstart : scanTime (e.fields.getD 1 []) = some e.start.values := scanTime_text e.start
  have hstop : scanTime (e.fields.getD 2 []) = some e.stop.values := scanTime_text e.stop
  simp only [decodeLine, hread, if_neg hlen, htext, hstart, hstop, rewriteText_eq]

end Sections

namespace Event

variable (e : Event)

theorem comma_notMem_fields : ∀ field ∈ e.fields, 44 ∉ field :=
  e.toSections.comma_notMem_fields e.no_comma

theorem readItems_line (str : List UInt8) :
    readItems (eventSections true) (Stream.ofString e.line) str =
      (e.fields, Stream.ofString e.text, e.effect) :=
  readItems_joinFields e.comma_notMem_fields e.text str

/-- What the embedded path takes for the text. -/
def content : List UInt8 :=
  if openTag <:+: e.line then e.effect ++ 44 :: e.text else e.text

theorem newline_notMem_text : 10 ∉ e.text := fun h =>
  e.no_newline (e.suffix_line.subset (List.mem_cons_of_mem 44 h))

theorem content_line :
    AssParser.content e.line (Stream.ofString e.text) e.effect = e.content := by
  rw [AssParser.content, Event.content]
  cases hcut : cut openTag e.line with
  | none =>
    rw [if_neg (cut_eq_none.mp hcut)]
    exact Stream.getline_of_notMem e.newline_notMem_text e.effect
  | some p =>
    have htag : openTag <:+: e.line := by
      by_contra h
      exact Option.some_ne_none p (hcut.symm.trans (cut_eq_none.mpr h))
    have hleading : ∀ field ∈ e.leading, 44 ∉ field := fun field h =>
      e.comma_notMem_fields field (List.mem_append_left _ h)
    have hsplit := splitTokens_joinFields hleading (e.effect ++ 44 :: e.text)
    rw [if_pos htag]
    show (splitTokens e.leading.length (joinFields e.leading (e.effect ++ 44 :: e.text))).getD 8
      e.effect = _
    rw [hsplit]
    rfl

theorem null_notMem_content : 0 ∉ e.content := by
  have hnull := e.no_null
  rw [Event.content]
  split_ifs
  · have hsuffix : e.effect ++ 44 :: e.text <:+ e.line := by
      show _ <:+ joinFields e.leading (e.effect ++ 44 :: e.text)
      exact suffix_joinFields e.leading _
    exact fun h => hnull (hsuffix.subset h)
  · exact fun h => hnull (e.suffix_line.subset (List.mem_cons_of_mem 44 h))

/-- **The embedded path** on the line of the event. -/
theorem getAssSpu_line {spuBuf : List UInt8} (h : string spuBuf = e.line) (spu : Spu) :
    getAssSpu spuBuf spu =
      (0, { fillTimes e.fields spu with
        spuData := some (strcpy spuBuf (displayText e.content)) }) := by
  have hnewline : getSecondTextForDoubleLanguage e.line = [] := by
    rw [getSecondTextForDoubleLanguage, cut_singleton_eq_none.mpr e.no_newline]
  have hdrawing : (cut drawingEnd e.line).isSome = false := by
    rw [cut_eq_none.mpr e.no_drawing]
    rfl
  have hlen : ¬ e.fields.length < eventSections false := show ¬ 9 < 8 by decide
  simp only [getAssSpu, h, e.isDialogue_line, e.readItems_line, hdrawing, hnewline, if_neg hlen,
    e.content_line, rewriteText_eq, stringConvert2Stream, if_true, Bool.false_eq_true, if_false]

/-- The text that the embedded path leaves in the item. -/
theorem string_strcpy_content (spuBuf : List UInt8) :
    string (strcpy spuBuf (displayText e.content)) = displayText e.content := by
  have hnull : 0 ∉ displayText e.content := fun h =>
    e.null_notMem_content (mem_displayText (by decide) h)
  have hself : string (displayText e.content) = displayText e.content := by
    have happend : string (displayText e.content ++ []) = displayText e.content ++ [] :=
      string_append_of_notMem hnull List.not_mem_nil
    rwa [List.append_nil] at happend
  rw [strcpy, hself, string_append hnull]

theorem fillTimes_fields (spu : Spu) :
    fillTimes e.fields spu = { spu with
      pts := milliseconds e.start.values * 90
      mDelay := milliseconds e.stop.values * 90 } := by
  show fillTimes [_, e.start.text, e.stop.text, _, _, _, _, _, _] spu = _
  simp only [fillTimes, List.getD_cons_succ, List.getD_cons_zero, scanTime_text]
  rfl

/-- The text of the event is shown. -/
theorem displayText_content_iff :
    displayText e.content = displayText e.text ↔
      ¬ openTag <:+: e.line ∨ Swallowed e.effect e.text := by
  rw [Event.content]
  split_ifs with htag
  · rw [displayText_comma_iff]
    exact ⟨Or.inr, fun h => h.resolve_left fun hnot => hnot htag⟩
  · exact ⟨fun _ => Or.inl htag, fun _ => rfl⟩

theorem readsEmbedded_iff :
    ReadsEmbedded e ↔ (e.start.centis * 10 < 2 ^ 32 ∧ e.stop.centis * 10 < 2 ^ 32) ∧
      (¬ openTag <:+: e.line ∨ Swallowed e.effect e.text) := by
  rw [← displayText_content_iff, ← milliseconds_values_iff, ← milliseconds_values_iff]
  constructor
  · intro h
    have hline : string (e.line ++ [0]) = e.line := string_append e.no_null []
    obtain ⟨spu', hget, hpts, hdelay, htext⟩ :=
      h (e.line ++ [0]) ⟨0, 0, false, 0, false, false, false, 0, 0, none, .ssa⟩ hline
    rw [e.getAssSpu_line hline, fillTimes_fields] at hget
    obtain rfl := congrArg Prod.snd hget
    rw [Option.map_some, e.string_strcpy_content] at htext
    exact ⟨⟨hpts, hdelay⟩, Option.some.inj htext⟩
  · rintro ⟨⟨hpts, hdelay⟩, htext⟩ spuBuf spu hline
    refine ⟨_, e.getAssSpu_line hline spu, ?_, ?_, ?_⟩
    · rw [fillTimes_fields]
      exact hpts
    · rw [fillTimes_fields]
      exact hdelay
    · rw [Option.map_some, e.string_strcpy_content, htext]

/-- **The external path** on the line of the event. -/
theorem decodeLine_line (hstart : e.start.centis * 10 < 2 ^ 32)
    (hstop : e.stop.centis * 10 < 2 ^ 32) :
    decodeLine e.line = some ⟨e.start.centis, e.stop.centis, [displayText e.text]⟩ := by
  rw [e.toSections.decodeLine_line e.no_comma e.no_newline, centiseconds_values hstart,
    centiseconds_values hstop]

theorem readsExternal (hstart : e.start.centis * 10 < 2 ^ 32)
    (hstop : e.stop.centis * 10 < 2 ^ 32) : ReadsExternal e := by
  intro r s m r' hget hline
  refine decodedItem_of_getLine hget ?_
  rw [hline]
  exact e.decodeLine_line hstart hstop

/-- A file with the line of the event is decoded to it, however it is read. -/
theorem decodedItem_of_ready {r : Reader} {rest : List UInt8}
    (h : Ready r (e.line ++ 10 :: rest)) (hlen : e.line.length < LINE_LEN)
    (hcr : e.line.getLast? ≠ some 13) (hread : ReadsExternal e) (s : Memory) :
    ∃ r', SubStationAlpha.decodedItem r s =
      (some ⟨e.start.centis, e.stop.centis, [displayText e.text]⟩, r') ∧ Ready r' rest := by
  have hl := not_isEol_of_mem e.no_newline e.no_null
  obtain ⟨m, r', hget, hm, hready, -⟩ := getLine_line h hl (Or.inl rfl) hlen s
  exact ⟨r', hread r s m r' hget (hm.trans (stripCr_of_ne hcr)), hready⟩

/-- **Both parsers agree on an event** exactly when its times fit 32 bits of milliseconds and
there is no override block to be opened anywhere in its line, or one that the effect leaves
open and the text closes hides that the embedded path takes the effect for text. -/
theorem agrees_iff :
    Agrees e ↔ (e.start.centis * 10 < 2 ^ 32 ∧ e.stop.centis * 10 < 2 ^ 32) ∧
      (¬ openTag <:+: e.line ∨ Swallowed e.effect e.text) := by
  rw [Agrees, readsEmbedded_iff]
  exact ⟨fun h => h.1, fun h => ⟨h, e.readsExternal h.1.1 h.1.2⟩⟩

end Event

/-- `0:00:00.25`. -/
def quarterSecond : Time where
  hours := [48]
  minutes := [48, 48]
  seconds := [48, 48]
  hundredths := [50, 53]
  hours_ne_nil := by decide
  length_minutes := rfl
  length_seconds := rfl
  length_hundredths := rfl
  isDigits := by decide +kernel

/-- `Dialogue: 0,0:00:00.25,0:00:00.25,Default,,0000,0000,0000,,{\i1}Hello`. -/
def italicHello : Event where
  layer := [32, 48]
  start := quarterSecond
  stop := quarterSecond
  style := [68, 101, 102, 97, 117, 108, 116]
  name := []
  marginL := [48, 48, 48, 48]
  marginR := [48, 48, 48, 48]
  marginV := [48, 48, 48, 48]
  effect := []
  text := [123, 92, 105, 49, 125, 72, 101, 108, 108, 111]
  no_comma := by decide
  no_newline := by decide +kernel
  no_null := by decide +kernel
  no_drawing := fun h => absurd (h.subset (show 112 ∈ drawingEnd by decide))
    (by decide +kernel)

/-- The embedded path shows `,Hello`. -/
theorem not_agrees_italicHello : ¬ Agrees italicHello := by
  intro h
  have hline : string (italicHello.line ++ [0]) = italicHello.line :=
    string_append italicHello.no_null []
  obtain ⟨spu', hget, -, -, htext⟩ :=
    h.1 (italicHello.line ++ [0]) ⟨0, 0, false, 0, false, false, false, 0, 0, none, .ssa⟩ hline
  rw [italicHello.getAssSpu_line hline] at hget
  obtain rfl := congrArg Prod.snd hget
  rw [Option.map_some, italicHello.string_strcpy_content] at htext
  exact absurd htext (by decide +kernel)

end AssAgreement
end AmlSubtitle
