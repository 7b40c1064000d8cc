import AmlSubtitle.Parser.SubViewerFile
import AmlSubtitle.Subtitle.ExtScreen

/-!
# Playing a subtitle file

`parser/ExtParser/ExtParser.cpp` hands the items of the decoder one by one to the presentation,
which puts on the screen what is due at each tick of the clock.

* `popDecodedItem` of `TextSubtitle` makes an item of the presentation out of one of the file.
* `Playback` is the parser with the items that it has not read, and the presentation.  The passes of
  the parser and the messages of the looper come in any order.
* `Reads`: what was read is on the list of cues or waits in the queue, in the order of the file.
* `showingSpu_collect`: what is due, of cues that come one behind the other.
* `Late`: an item that came with too little time left has too little left ever since.
* `shows_items` and `shows_srt`: what is on the screen after a tick.
-/

namespace AmlSubtitle
namespace Presentation
namespace ExtSub

open Spu
open ExtSubStreamReader (Chunk Memory IsKept bytesOf create)
open TextSubtitle (ExtSubItem decodeSubtitles)

/-! ## `TextSubtitle::popDecodedItem` -/

/-- The lines of an item, each with a newline. -/
def str (item : ExtSubItem) : List UInt8 := item.lines.flatMap fun s => s ++ [10]

/-- `AML_SPUVAR` of an item. -/
def spuOf (item : ExtSubItem) : Spu where
  id := 0
  bufferSize := (str item).length
  isSimpleText := false
  pts := item.start
  isImmediatePresent := false
  isExtSub := true
  isKeepShowing := false
  objectSegmentId := 0
  mDelay := item.stop
  spuData := some (str item ++ [0])
  subtitleType := .vob

/-- `popDecodedItem`. -/
def popDecodedItem : List ExtSubItem → Option (Spu × List ExtSubItem)
  | [] => none
  | item :: subtitles => some (spuOf item, subtitles)

/-! ## `ExtParser` -/

/-- The parser, which is playing or in its first state, and the presentation. -/
structure Playback where
  playing : Bool
  subtitles : List ExtSubItem
  present : State
  deriving DecidableEq, Repr

namespace Playback

/-- The parser has decoded the file. -/
def start (subtitles : List ExtSubItem) : Playback := ⟨false, subtitles, ExtSub.start⟩

/-- `ExtParser::getSpu`. -/
def getSpu (s : Playback) : Playback :=
  match popDecodedItem s.subtitles with
  | some (spu, subtitles) =>
    { s with subtitles := subtitles, present := ExtSub.parse s.present spu }
  | none => s

/-- `ExtParser::parse`. -/
def parse (s : Playback) : Playback :=
  if s.playing = false then { s with playing := true }
  else if s.present.mDecodedSpu.length < EXTERNAL_MAX_NUMBER_SPU_ITEM then s.getSpu
  else s

/-- What happens next. -/
inductive Event where
  | parse
  | deliver (what : What) (clock : Clock)
  deriving DecidableEq, Repr

/-- One event. -/
def step (s : Playback) : Event → Playback
  | .parse => s.parse
  | .deliver what clock => { s with present := ExtSub.step s.present (.deliver what clock) }

/-- The clock values of the ticks that the handler gets. -/
def tick : Event → Option ℤ
  | .deliver .ptsTimeCheckSpu clock =>
    if clock.mCurrentPresentRelativeTime ≤ 0 then none else some clock.timestamp
  | _ => none

/-- Nothing is reset. -/
def IsPlayed : Event → Prop
  | .deliver .resetMessageQueue _ => False
  | _ => True

end Playback

/-! ## The cues of a file -/

section Cues

/-- A cue as it is on the list of the presentation. -/
def cueOf (item : ExtSubItem) : Spu := fixDelay (spuOf item)

/-- The end of a cue: one of half a second or less is shown for four seconds. -/
def fixedStop (item : ExtSubItem) : ℤ := fixSpuDelay item.start item.stop

/-- A cue is to be on the screen at a clock value. -/
def IsOn (timestamp : ℤ) (item : ExtSubItem) : Prop :=
  convertDvbTime2Ns item.start ≤ timestamp ∧ timestamp ≤ convertDvbTime2Ns (fixedStop item)

instance (timestamp : ℤ) : DecidablePred (IsOn timestamp) :=
  fun _ => inferInstanceAs (Decidable (_ ∧ _))

/-- Each cue begins when those in front of it have ended. -/
def Apart (items : List ExtSubItem) : Prop := items.Pairwise fun a b => fixedStop a ≤ b.start

theorem convertDvbTime2Ns_mono {a b : ℤ} (h : a ≤ b) : convertDvbTime2Ns a ≤ convertDvbTime2Ns b :=
  Int.tdiv_le_tdiv (by decide) (Int.mul_le_mul_of_nonneg_right h (by decide))

theorem ns2ms_mono {a b : ℤ} (h : a ≤ b) : ns2ms a ≤ ns2ms b := Int.tdiv_le_tdiv (by decide) h

theorem start_le_fixedStop (item : ExtSubItem) : item.start ≤ fixedStop item := by
  have hshort : 500 * DVB_TIME_MULTI = 45000 := rfl
  have hadjust : ADDJUST_NO_PTS_MS * DVB_TIME_MULTI = 360000 := rfl
  unfold fixedStop fixSpuDelay
  split_ifs <;> omega

theorem Apart.pairwise_start {items : List ExtSubItem} (h : Apart items) :
    items.Pairwise fun a b => a.start ≤ b.start :=
  List.Pairwise.imp (fun hab => (start_le_fixedStop _).trans hab) h

/-- **The scan finds the cues that are to be on the screen.** -/
theorem computeShowingSpuList_cues {items : List ExtSubItem} (h : Apart items) (timestamp : ℤ) :
    computeShowingSpuList (items.map cueOf) timestamp =
      (items.filter (IsOn timestamp ·)).map cueOf := by
  have hscan : notScanned (items.map cueOf) timestamp = (items.dropWhile fun item =>
      decide (convertDvbTime2Ns (fixedStop item) ≤ timestamp)).tail.map cueOf := by
    rw [notScanned, List.dropWhile_map, List.map_tail]
    rfl
  have hall : ∀ it ∈ notScanned (items.map cueOf) timestamp, ¬ IsShowing timestamp it := by
    rw [hscan, List.forall_mem_map]
    have hapart : Apart (items.dropWhile fun item =>
        decide (convertDvbTime2Ns (fixedStop item) ≤ timestamp)) :=
      List.Pairwise.sublist (List.dropWhile_sublist _) h
    have hhead := List.head?_dropWhile_not (fun item =>
      decide (convertDvbTime2Ns (fixedStop item) ≤ timestamp)) items
    generalize items.dropWhile (fun item =>
      decide (convertDvbTime2Ns (fixedStop item) ≤ timestamp)) = rest at hapart hhead
    cases rest with
    | nil => exact fun item hitem => absurd hitem List.not_mem_nil
    | cons first rest =>
      intro item hitem hshowing
      have hstart := convertDvbTime2Ns_mono ((List.pairwise_cons.mp hapart).1 item hitem)
      exact of_decide_eq_false hhead (hstart.trans hshowing.1)
  rw [(computeShowingSpuList_eq_filter_iff _ _).mpr hall, List.filter_map]
  rfl

/-- The scan reads the times only. -/
theorem map_content_computeShowingSpuList (list : List Spu) (timestamp : ℤ) :
    (computeShowingSpuList list timestamp).map content =
      computeShowingSpuList (list.map content) timestamp := by
  induction list with
  | nil => rfl
  | cons it list ih =>
    rw [computeShowingSpuList_cons, List.map_cons, computeShowingSpuList_cons, List.map_append,
      List.filter_singleton, List.filter_singleton]
    have hshowing : IsShowing timestamp (content it) ↔ IsShowing timestamp it := Iff.rfl
    have hend : (content it).mDelay = it.mDelay := rfl
    rw [decide_eq_decide.mpr hshowing, hend]
    congr 1
    · cases decide (IsShowing timestamp it) <;> rfl
    · split_ifs
      · rfl
      · exact ih

/-- Of pictures and of the texts of files, the last one is shown. -/
theorem getShowingSpuFromList_last {list : List Spu} (h : ∀ spu ∈ list, spu.isSimpleText = false)
    (object : ℕ) : getShowingSpuFromList list object = list.getLast? := by
  cases list with
  | nil => rfl
  | cons front rest =>
    rw [getShowingSpuFromList, h front List.mem_cons_self]
    rfl

/-- Items behind those of a list that is in order are put at its end. -/
theorem foldl_sortPts_eq {decoded list : List Spu}
    (h : (list ++ decoded.map fixDelay).Pairwise PtsLe) :
    decoded.foldl (fun spuList spu => sortPts (spuList ++ [fixDelay spu])) list =
      list ++ decoded.map fixDelay := by
  induction decoded generalizing list with
  | nil => exact (List.append_nil list).symm
  | cons spu decoded ih =>
    rw [List.map_cons, List.append_cons] at h ⊢
    have hsorted : sortPts (list ++ [fixDelay spu]) = list ++ [fixDelay spu] :=
      List.Pairwise.insertionSort_eq (List.pairwise_append.mp h).1
    rw [List.foldl_cons, hsorted]
    exact ih h

end Cues

/-! ## What is read -/

/-- What was read is on the list of cues or waits in the queue, in the order of the file. -/
structure Reads (items : List ExtSubItem) (s : Playback) : Prop where
  read : ∃ shown decoded, items = shown ++ decoded ++ s.subtitles ∧
    s.present.mEmittedShowingSpu.map content = shown.map cueOf ∧
      s.present.mDecodedSpu.map content = decoded.map spuOf

section Reading

variable {items : List ExtSubItem} {s : Playback}

theorem reads_start (items : List ExtSubItem) : Reads items (Playback.start items) :=
  ⟨[], [], rfl, rfl, rfl⟩

/-- There is room for the next item. -/
theorem getSpu_cons {item : ExtSubItem} {subtitles : List ExtSubItem}
    (hrest : s.subtitles = item :: subtitles)
    (hroom : s.present.mDecodedSpu.length < EXTERNAL_MAX_NUMBER_SPU_ITEM) :
    s.getSpu =
      { s with
        subtitles := subtitles
        present :=
          { s.present with
            mDecodedSpu := s.present.mDecodedSpu ++ [{ spuOf item with id := s.present.objects }]
            objects := s.present.objects + 1 } } := by
  rw [Playback.getSpu, hrest, popDecodedItem]
  dsimp only
  rw [ExtSub.parse, if_pos hroom]

theorem getSpu_nil (hrest : s.subtitles = []) : s.getSpu = s := by
  rw [Playback.getSpu, hrest]
  rfl

/-- A pass of the parser. -/
theorem Reads.parse (h : Reads items s) : Reads items s.parse := by
  obtain ⟨shown, decoded, hitems, hshown, hdecoded⟩ := h.read
  unfold Playback.parse
  split_ifs with hplaying hroom
  · exact ⟨shown, decoded, hitems, hshown, hdecoded⟩
  · cases hrest : s.subtitles with
    | nil =>
      rw [getSpu_nil hrest]
      exact h
    | cons item subtitles =>
      rw [getSpu_cons hrest hroom]
      refine ⟨shown, decoded ++ [item], ?_, hshown, ?_⟩
      · rw [hitems, hrest, ← List.append_assoc, List.append_assoc _ [item]]
        rfl
      · rw [List.map_append, hdecoded, List.map_append]
        rfl
  · exact h

/-- A tick moves the queue behind the list. -/
theorem Reads.collect (h : Reads items s) (happart : Apart items) :
    ∃ read, items = read ++ s.subtitles ∧
      (ExtSub.collect s.present).mEmittedShowingSpu.map content = read.map cueOf := by
  obtain ⟨shown, decoded, hitems, hshown, hdecoded⟩ := h.read
  have hcues : (s.present.mEmittedShowingSpu ++ s.present.mDecodedSpu.map fixDelay).map content =
      (shown ++ decoded).map cueOf := by
    have hfixed : (s.present.mDecodedSpu.map fixDelay).map content =
        (s.present.mDecodedSpu.map content).map fixDelay := by
      rw [List.map_map, List.map_map]
      rfl
    rw [List.map_append, hshown, hfixed, hdecoded, List.map_append, List.map_map]
    rfl
  have hsorted : (s.present.mEmittedShowingSpu ++ s.present.mDecodedSpu.map fixDelay).Pairwise
      PtsLe := by
    have hread : Apart (shown ++ decoded) := by
      rw [hitems] at happart
      exact (List.pairwise_append.mp happart).1
    have hstarts : ((shown ++ decoded).map cueOf).Pairwise PtsLe :=
      List.pairwise_map.mpr hread.pairwise_start
    rw [← hcues] at hstarts
    exact (List.pairwise_map (f := content)).mp hstarts
  refine ⟨shown ++ decoded, hitems, ?_⟩
  rw [ExtSub.collect, foldl_sortPts_eq hsorted]
  exact hcues

/-- **What is due at a tick** is the last of the cues that were read and are to be on the
screen. -/
theorem showingSpu_collect (h : Reads items s) (happart : Apart items) :
    ∃ read, items = read ++ s.subtitles ∧ ∀ timestamp,
      (showingSpu (ExtSub.collect s.present) timestamp).map content =
        ((read.filter (IsOn timestamp ·)).map cueOf).getLast? := by
  obtain ⟨read, hitems, hcues⟩ := h.collect happart
  have hread : Apart read := by
    rw [hitems] at happart
    exact (List.pairwise_append.mp happart).1
  refine ⟨read, hitems, fun timestamp => ?_⟩
  have hfound : (computeShowingSpuList (ExtSub.collect s.present).mEmittedShowingSpu
      timestamp).map content = (read.filter (IsOn timestamp ·)).map cueOf := by
    rw [map_content_computeShowingSpuList, hcues, computeShowingSpuList_cues hread]
  have hpicture : ∀ spu ∈ computeShowingSpuList (ExtSub.collect s.present).mEmittedShowingSpu
      timestamp, spu.isSimpleText = false := by
    intro spu hspu
    have hmem := List.mem_map_of_mem (f := content) hspu
    rw [hfound] at hmem
    obtain ⟨item, -, hitem⟩ := List.mem_map.mp hmem
    exact (congrArg Spu.isSimpleText hitem).symm
  rw [showingSpu, getShowingSpuFromList_last hpicture, ← hfound, List.getLast?_map]

/-- A tick that has collected the items leaves them. -/
theorem update_lists (present : State) (timestamp : ℤ) :
    (update present timestamp).mEmittedShowingSpu = present.mEmittedShowingSpu ∧
      (update present timestamp).mDecodedSpu = present.mDecodedSpu := by
  unfold update
  split
  · exact ⟨rfl, rfl⟩
  · split_ifs <;> exact ⟨rfl, rfl⟩

theorem Reads.step (h : Reads items s) (happart : Apart items) (e : Playback.Event) :
    Reads items (s.step e) := by
  cases e with
  | parse => exact h.parse
  | deliver what clock =>
    rw [Playback.step, ExtSub.step]
    split_ifs
    · exact h
    · cases what with
      | resetMessageQueue =>
        obtain ⟨shown, decoded, hitems, hshown, hdecoded⟩ := h.read
        exact ⟨shown, decoded, hitems, hshown, hdecoded⟩
      | ptsTimeCheckSpu =>
        obtain ⟨read, hitems, hcues⟩ := h.collect happart
        refine ⟨read, [], ?_, ?_, ?_⟩
        · rw [List.append_nil]
          exact hitems
        · rw [← hcues]
          exact congrArg (List.map content) (update_lists _ _).1
        · exact congrArg (List.map content) (update_lists _ _).2

/-- Of a file with at most as many items as the queue takes, each pass of the parser but the first
reads one. -/
theorem subtitles_of_few (happart : Apart items)
    (hfew : items.length ≤ EXTERNAL_MAX_NUMBER_SPU_ITEM) (es : List Playback.Event) :
    (es.foldl Playback.step (Playback.start items)).subtitles = items.drop (es.count .parse - 1) ∧
      (es.foldl Playback.step (Playback.start items)).playing = decide (0 < es.count .parse) := by
  induction es using List.reverseRecOn with
  | nil => exact ⟨rfl, rfl⟩
  | append_singleton es e ih =>
    have hreads : Reads items (es.foldl Playback.step (Playback.start items)) :=
      Run.invariant (fun _ e h => h.step happart e) (reads_start items) es
    rw [List.foldl_append, List.foldl_cons, List.foldl_nil, List.count_append]
    generalize es.foldl Playback.step (Playback.start items) = s at ih hreads
    obtain ⟨hrest, hplaying⟩ := ih
    cases e with
    | deliver what clock => exact ⟨hrest, hplaying⟩
    | parse =>
      have hone : List.count Playback.Event.parse [Playback.Event.parse] = 1 := rfl
      rw [hone, Nat.add_sub_cancel, Playback.step, Playback.parse, hplaying]
      rcases Nat.eq_zero_or_pos (es.count .parse) with hzero | hpos
      · rw [hzero] at hrest ⊢
        exact ⟨hrest, rfl⟩
      · have hlater : decide (0 < es.count Playback.Event.parse + 1) = true :=
          decide_eq_true (Nat.succ_pos _)
        have hnot : ¬ decide (0 < es.count Playback.Event.parse) = false := by
          rw [decide_eq_true hpos]
          decide
        rw [decide_eq_true hpos] at hplaying
        rw [if_neg hnot, hlater]
        cases hl : s.subtitles with
        | nil =>
          rw [getSpu_nil hl, ite_self]
          refine ⟨?_, hplaying⟩
          rw [hl, eq_comm, List.drop_eq_nil_iff] at hrest
          rw [hl, eq_comm, List.drop_eq_nil_iff]
          omega
        | cons item subtitles =>
          have hroom : s.present.mDecodedSpu.length < EXTERNAL_MAX_NUMBER_SPU_ITEM := by
            obtain ⟨shown, decoded, hitems, -, hdecoded⟩ := hreads.read
            have hlength := congrArg List.length hdecoded
            have hall := congrArg List.length hitems
            rw [List.length_map, List.length_map] at hlength
            rw [hl, List.length_append, List.length_append, List.length_cons] at hall
            omega
          rw [if_pos hroom, getSpu_cons hl hroom]
          refine ⟨?_, hplaying⟩
          have hnext : items.drop (es.count .parse) =
              (items.drop (es.count .parse - 1)).drop 1 := by
            rw [List.drop_drop, Nat.sub_add_cancel hpos]
          rw [hnext, ← hrest, hl]
          rfl

end Reading

/-! ## The screen -/

/-- The screen shows what is due, unless that came with too little time left. -/
def Kept (s : State) : Prop :=
  ∀ d, s.due = some d → d.short = false → s.screen.map content = some (content d.item)

/-- What came with too little time left has too little left. -/
def Late (s : State) (timestamp : ℤ) : Prop :=
  ∀ d, s.due = some d → d.short = true → remainMs d.item timestamp < MINIMUM_REMAIN_DISPLAY_TIME_MS

section Screen

variable {s : State} {timestamp : ℤ} {spu : Spu}

theorem Kept.showsDue (hkept : Kept s) (h : Inv s) (timestamp : ℤ) : ShowsDue s timestamp := by
  rw [showsDue_iff h]
  intro spu _ hwas hlong hgone
  obtain ⟨d, hd, -⟩ := Option.map_eq_some_iff.mp hwas
  rw [hd] at hlong
  have hscreen := hkept d hd hlong
  rw [hgone] at hscreen
  exact absurd hscreen.symm (Option.some_ne_none _)

theorem Kept.update (hkept : Kept s) (h : Inv s) (timestamp : ℤ) :
    Kept (ExtSub.update s timestamp) := by
  have hshows := hkept.showsDue h timestamp
  intro d hd hshort
  cases hspu : showingSpu s timestamp with
  | none =>
    rw [update_of_none h hspu] at hd
    exact absurd hd.symm (Option.some_ne_none _)
  | some spu =>
    rw [ShowsDue, hspu] at hshows
    rw [update_of_some hspu] at hd
    obtain rfl := Option.some.inj hd
    exact hshows.resolve_right fun h => Bool.false_ne_true (hshort.symm.trans h)

theorem remainMs_anti {t u : ℤ} (spu : Spu) (h : t ≤ u) : remainMs spu u ≤ remainMs spu t :=
  Int.sub_le_sub_left (ns2ms_mono h) _

theorem remainMs_congr {a b : Spu} (h : content a = content b) (timestamp : ℤ) :
    remainMs a timestamp = remainMs b timestamp := by
  have hend : (content a).mDelay = (content b).mDelay := congrArg Spu.mDelay h
  exact congrArg (fun mDelay => Int.tdiv mDelay DVB_TIME_MULTI - ns2ms timestamp) hend

theorem Late.update {t : ℤ} (hlate : Late s t) (h : Inv s) (hle : timestamp ≤ t) :
    Late (ExtSub.update s timestamp) t := by
  intro d hd hshort
  cases hspu : showingSpu s timestamp with
  | none =>
    rw [update_of_none h hspu] at hd
    exact absurd hd.symm (Option.some_ne_none _)
  | some spu =>
    rw [update_of_some hspu] at hd
    obtain rfl := Option.some.inj hd
    by_cases hwas : WasDue s spu
    · rw [nextDue_short_of_wasDue hwas] at hshort
      obtain ⟨d, hdue, hcontent⟩ := Option.map_eq_some_iff.mp hwas
      rw [hdue] at hshort
      exact (remainMs_congr hcontent t).symm.trans_lt (hlate d hdue hshort)
    · rw [nextDue_short_of_not_wasDue hwas, decide_eq_true_eq] at hshort
      exact (remainMs_anti spu hle).trans_lt hshort

end Screen

/-! ## Playing -/

section Playing

variable {items : List ExtSubItem} {es : List Playback.Event} {clock : Clock}

theorem inv_playback {s : Playback} (h : Inv s.present) (e : Playback.Event) :
    Inv (s.step e).present := by
  cases e with
  | deliver what clock => exact h.step (.deliver what clock)
  | parse =>
    rw [Playback.step, Playback.parse]
    split_ifs
    · exact h
    · unfold Playback.getSpu
      split
      · exact h.parse _
      · exact h
    · exact h

/-- The parser reads an item. -/
theorem parse_due (s : Playback) : s.parse.present.due = s.present.due ∧
    s.parse.present.screen = s.present.screen := by
  unfold Playback.parse
  split_ifs
  · exact ⟨rfl, rfl⟩
  · unfold Playback.getSpu ExtSub.parse
    split
    · split_ifs
      exact ⟨rfl, rfl⟩
    · exact ⟨rfl, rfl⟩
  · exact ⟨rfl, rfl⟩

/-- **A run without resets**: what is due is on the screen or came too late. -/
theorem kept_of_played (hplayed : ∀ e ∈ es, Playback.IsPlayed e) {t : ℤ}
    (hticks : ∀ u ∈ es.filterMap Playback.tick, u ≤ t) :
    Inv (es.foldl Playback.step (Playback.start items)).present ∧
      Kept (es.foldl Playback.step (Playback.start items)).present ∧
        Late (es.foldl Playback.step (Playback.start items)).present t := by
  induction es using List.reverseRecOn with
  | nil =>
    refine ⟨inv_start, ?_, ?_⟩ <;> rintro d ⟨⟩
  | append_singleton es e ih =>
    rw [List.forall_mem_append, List.forall_mem_singleton] at hplayed
    rw [List.filterMap_append, List.forall_mem_append] at hticks
    obtain ⟨hinv, hkept, hlate⟩ := ih hplayed.1 hticks.1
    rw [List.foldl_append, List.foldl_cons, List.foldl_nil]
    generalize es.foldl Playback.step (Playback.start items) = s at hinv hkept hlate
    refine ⟨inv_playback hinv e, ?_⟩
    cases e with
    | parse =>
      obtain ⟨hdue, hscreen⟩ := parse_due s
      rw [Kept, Late, Playback.step, hdue, hscreen]
      exact ⟨hkept, hlate⟩
    | deliver what clock =>
      cases what with
      | resetMessageQueue => exact absurd hplayed.2 id
      | ptsTimeCheckSpu =>
        rw [Playback.step, ExtSub.step]
        by_cases hstarted : clock.mCurrentPresentRelativeTime ≤ 0
        · rw [if_pos hstarted]
          exact ⟨hkept, hlate⟩
        · have htick : Playback.tick (.deliver .ptsTimeCheckSpu clock) = some clock.timestamp :=
            if_neg hstarted
          have hle := hticks.2 clock.timestamp (by rw [List.filterMap_cons, htick]; simp)
          rw [if_neg hstarted]
          have hkept' : Kept (ExtSub.collect s.present) := hkept
          have hlate' : Late (ExtSub.collect s.present) t := hlate
          exact ⟨hkept'.update hinv.collect _, hlate'.update hinv.collect hle⟩

/-- An item with some time left is the last one that is to be on the screen. -/
theorem getLast?_on {read : List ExtSubItem} (happart : Apart read) {item : ExtSubItem}
    (hitem : item ∈ read) {t : ℤ} (hon : IsOn t item)
    (hlong : MINIMUM_REMAIN_DISPLAY_TIME_MS ≤ (fixedStop item).tdiv DVB_TIME_MULTI - ns2ms t) :
    ((read.filter (IsOn t ·)).map cueOf).getLast? = some (cueOf item) := by
  obtain ⟨before, after, rfl⟩ := List.append_of_mem hitem
  have hend : t < convertDvbTime2Ns (fixedStop item) := by
    by_contra hpast
    have hle := ns2ms_mono (not_lt.mp hpast)
    rw [ns2ms_convertDvbTime2Ns] at hle
    have hminimum : MINIMUM_REMAIN_DISPLAY_TIME_MS = 30 := rfl
    omega
  have hnone : after.filter (IsOn t ·) = [] := by
    refine List.filter_eq_nil_iff.mpr fun later hlater => ?_
    have hbehind := convertDvbTime2Ns_mono
      ((List.pairwise_cons.mp (List.pairwise_append.mp happart).2.1).1 later hlater)
    rw [decide_eq_true_eq]
    exact fun hshowing => absurd hshowing.1 (not_le.mpr (hend.trans_le hbehind))
  rw [List.filter_append, List.filter_cons_of_pos (by simpa using hon), hnone, List.map_append,
    List.map_singleton, List.getLast?_concat]

/-- **The items of a file on the screen.**  In every run without resets, in which the parser and the
looper take their turns in any order: after a tick whose clock value is not behind an earlier one,
nothing is on the screen if none of the items that were read is to be there, and an item that is to
be there for some time yet is. -/
theorem shows_items (happart : Apart items) (hplayed : ∀ e ∈ es, Playback.IsPlayed e)
    (hstarted : 0 < clock.mCurrentPresentRelativeTime)
    (hticks : ∀ u ∈ es.filterMap Playback.tick, u ≤ clock.timestamp) :
    let s := (es ++ [Playback.Event.deliver .ptsTimeCheckSpu clock]).foldl
      Playback.step (Playback.start items)
    ∃ read, items = read ++ s.subtitles ∧
      ((∀ item ∈ read, ¬ IsOn clock.timestamp item) → s.present.screen = none) ∧
      ∀ item ∈ read, IsOn clock.timestamp item →
        MINIMUM_REMAIN_DISPLAY_TIME_MS ≤
          (fixedStop item).tdiv DVB_TIME_MULTI - ns2ms clock.timestamp →
        s.present.screen.map content = some (cueOf item) := by
  obtain ⟨hinv, hkept, hlate⟩ : Inv (es.foldl Playback.step (Playback.start items)).present ∧ _ :=
    kept_of_played hplayed hticks
  have hreads : Reads items (es.foldl Playback.step (Playback.start items)) :=
    Run.invariant (fun _ e h => h.step happart e) (reads_start items) es
  rw [List.foldl_append, List.foldl_cons, List.foldl_nil]
  generalize es.foldl Playback.step (Playback.start items) = s at hinv hkept hlate hreads
  obtain ⟨read, hitems, hshowing⟩ := showingSpu_collect hreads happart
  have hread : Apart read := by
    rw [hitems] at happart
    exact (List.pairwise_append.mp happart).1
  have hkept' : Kept (ExtSub.collect s.present) := hkept
  have hlate' : Late (ExtSub.collect s.present) clock.timestamp := hlate
  have hshows := hkept'.showsDue hinv.collect clock.timestamp
  have hlater := hlate'.update hinv.collect le_rfl
  specialize hshowing clock.timestamp
  rw [Playback.step, ExtSub.step, if_neg (not_le.mpr hstarted)]
  refine ⟨read, hitems.trans (congrArg (read ++ ·) ?_), ?_, ?_⟩
  · rfl
  · intro hoff
    have hnone : read.filter (IsOn clock.timestamp ·) = [] :=
      List.filter_eq_nil_iff.mpr fun item hitem => by simpa using hoff item hitem
    rw [hnone, List.map_nil, List.getLast?_nil, Option.map_eq_none_iff] at hshowing
    rw [ShowsDue, hshowing] at hshows
    exact hshows
  · intro item hitem hon hlong
    rw [getLast?_on hread hitem hon hlong, Option.map_eq_some_iff] at hshowing
    obtain ⟨spu, hspu, hcontent⟩ := hshowing
    rw [ShowsDue, hspu] at hshows
    rw [← hcontent]
    refine hshows.resolve_right fun hshort => ?_
    have hdue : (update (ExtSub.collect s.present) clock.timestamp).due =
        some (nextDue (ExtSub.collect s.present) spu clock.timestamp) := by
      rw [update_of_some hspu]
    have hremain := (remainMs_congr (b := cueOf item) hcontent clock.timestamp).symm.trans_lt
      (hlater _ hdue hshort)
    exact absurd hlong (not_le.mpr hremain)

end Playing

/-! ## A SubRip file -/

open SubViewer (Cue fileOf decodedItem) in
/-- **A SubRip file on the screen.**  The file is told as one.  If its cues come one behind the
other, then in every run without resets, however the parser and the looper take their turns: after a
tick whose clock value is not behind an earlier one, the screen is clear if none of the cues that
were read is to be there, and has each one that is to be there for some time yet.  Each pass of the
parser but the first has read a cue. -/
theorem shows_srt {cues : List Cue} (hne : cues ≠ [])
    (hkept : ∀ cue ∈ cues, ∀ l ∈ cue.texts, IsKept l.text) (happart : Apart (cues.map Cue.item))
    (hfew : cues.length ≤ EXTERNAL_MAX_NUMBER_SPU_ITEM) (n n' : ℕ) {source source' : List Chunk}
    (hsource : bytesOf source = fileOf cues) (hsource' : bytesOf source' = fileOf cues)
    (xml : ExtSubFactory.Format) (stack stack' : ℕ → Memory) {es : List Playback.Event}
    (hplayed : ∀ e ∈ es, Playback.IsPlayed e) {clock : Clock}
    (hstarted : 0 < clock.mCurrentPresentRelativeTime)
    (hticks : ∀ u ∈ es.filterMap Playback.tick, u ≤ clock.timestamp) :
    ExtSubFactory.detect xml (create ((fileOf cues).take n) source) stack = .SUB_SUBVIEWER ∧
      let subtitles := decodeSubtitles decodedItem (create ((fileOf cues).take n') source') stack'
      let s := (es ++ [Playback.Event.deliver .ptsTimeCheckSpu clock]).foldl Playback.step
        (Playback.start subtitles)
      let read := cues.take (es.count .parse - 1)
      ((∀ cue ∈ read, ¬ IsOn clock.timestamp cue.item) → s.present.screen = none) ∧
        ∀ cue ∈ read, IsOn clock.timestamp cue.item →
          MINIMUM_REMAIN_DISPLAY_TIME_MS ≤
            (fixedStop cue.item).tdiv DVB_TIME_MULTI - ns2ms clock.timestamp →
          s.present.screen.map content = some (cueOf cue.item) := by
  refine ⟨SubViewer.detect_fileOf hne n hsource xml stack, ?_⟩
  rw [SubViewer.decodeSubtitles_fileOf hkept n' hsource' stack']
  intro subtitles s read
  obtain ⟨items, hitems, hclear, hshown⟩ := shows_items happart hplayed hstarted hticks
  have hrest := (subtitles_of_few happart (by rwa [List.length_map])
    (es ++ [Playback.Event.deliver .ptsTimeCheckSpu clock])).1
  have hcount : (es ++ [Playback.Event.deliver .ptsTimeCheckSpu clock]).count .parse =
      es.count .parse := by
    rw [List.count_append]
    rfl
  have hread : items = read.map Cue.item := by
    rw [hrest, hcount] at hitems
    rw [List.map_take]
    exact List.append_cancel_right (hitems.symm.trans
      (List.take_append_drop (es.count .parse - 1) (cues.map Cue.item)).symm)
  rw [hread, List.forall_mem_map] at hclear hshown
  exact ⟨hclear, hshown⟩

/-- Two passes of the parser: the second one reads a cue. -/
def twoPasses : List Playback.Event := [.parse, .parse]

open SubViewer (Cue fileOf decodedItem srtExample) in
/-- The cue from the first second to the second is on the screen between them. -/
theorem shows_srtExample :
    ((twoPasses ++ [Playback.Event.deliver .ptsTimeCheckSpu ⟨0, 1500000000⟩]).foldl
      Playback.step (Playback.start (decodeSubtitles decodedItem
        (create ((fileOf [srtExample]).take 0) [⟨fileOf [srtExample], by decide, by decide⟩])
          fun _ => ⟨0, []⟩))).present.screen.map content = some (cueOf srtExample.item) := by
  have hpassed : ∀ e ∈ twoPasses, Playback.IsPlayed e := by
    intro e he
    rw [List.eq_of_mem_replicate (n := 2) (a := Playback.Event.parse) he]
    trivial
  have hticks : ∀ u ∈ twoPasses.filterMap Playback.tick, u ≤ 1500000000 := by decide
  have hshown := (@shows_srt [srtExample] (List.cons_ne_nil _ _) SubViewer.isKept_srtExample
    (List.pairwise_singleton _ _) (by decide) 0 0
    [⟨fileOf [srtExample], by decide, by decide⟩] [⟨fileOf [srtExample], by decide, by decide⟩]
    (List.append_nil _) (List.append_nil _) .SUB_XML (fun _ => ⟨0, []⟩) (fun _ => ⟨0, []⟩)
    twoPasses hpassed ⟨0, 1500000000⟩ (by decide) hticks).2.2 srtExample
  exact hshown List.mem_cons_self ⟨by decide, by decide⟩ (by decide)

end ExtSub
end Presentation
end AmlSubtitle
