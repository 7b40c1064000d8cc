import AmlSubtitle.Lib.Lockstep
import AmlSubtitle.Lib.Words
import AmlSubtitle.Parser.PgsObject

/-!
# The queue of PGS display sets

The end of a display set queues a copy of the context.  `handleDisplayEndSegment` runs when the
time of the player changes: it removes contexts that a seek has left behind, decodes those that
are due, and drops some when decoding takes too long.

* Each context is queued with a number, in order.
* A `Tick` is what the function reads while it runs: other threads change the time of the player,
  the first time stamp and the state, so that each is read again where the code reads it.
* `Orderly`: contexts are decoded at most once and in order, each that was queued is in the list
  or was removed, and none that clears the screen is dropped because decoding takes too long.
* `orderly_run`: that holds after every run.
-/

namespace AmlSubtitle
namespace Pgs

open Words

/-! ## The queue -/

/-- A context that was queued, with its number. -/
structure Queued where
  number : ℕ
  ctx : PGSSubContext

namespace Queued

def pts (it : Queued) : ℤ := it.ctx.presentation.pts

def objectCount (it : Queued) : ℕ := it.ctx.presentation.objectCount

end Queued

/-- What happens to a context: it is decoded and posted, it is erased from the list, or it is
erased because decoding is late; and the list is erased from when it is empty. -/
inductive Act where
  | decoded (it : Queued)
  | erased (it : Queued)
  | dropped (it : Queued)
  | eraseEmpty

/-- What `handleDisplayEndSegment` reads: the time of the player when it starts; and for the
context of a number, the time of the player when it is compared, the first time stamp, whether
the parser is stopped, and the clock before and after decoding. -/
structure Tick where
  startTime : ℤ
  presentationTime : ℕ → ℤ
  mFirstPtsMs : ℕ → ℤ
  stopped : ℕ → Bool
  startMs : ℕ → UInt64
  endMs : ℕ → UInt64

/-- `DEFAULT_DVB_TIME_MULTI`. -/
def DEFAULT_DVB_TIME_MULTI : ℤ := 90

/-- `DECODE_PRE_TIME_MS`. -/
def DECODE_PRE_TIME_MS : ℤ := 50

/-- `WRONG_PGS_PTS_TIME_MS`. -/
def WRONG_PGS_PTS_TIME_MS : ℤ := 2000

/-- The test of step 1: a seek has left the context behind. -/
def isWrongPgs (tick : Tick) (it : Queued) : Bool :=
  let presentationPtsMs := Int.tdiv tick.startTime DEFAULT_DVB_TIME_MULTI + DECODE_PRE_TIME_MS
  let ptsMs := asSigned 32 (Int.tdiv it.pts DEFAULT_DVB_TIME_MULTI)
  let diffTimeMs := asSigned 32 (ptsMs - presentationPtsMs)
  diffTimeMs ≥ WRONG_PGS_PTS_TIME_MS ∧
    asSigned 32 |asSigned 32 (ptsMs - tick.mFirstPtsMs it.number)| > 10000

/-- The test of step 2: the context is due. -/
def isDue (tick : Tick) (it : Queued) : Bool :=
  let presentationPts :=
    tick.presentationTime it.number + DECODE_PRE_TIME_MS * DEFAULT_DVB_TIME_MULTI
  ¬ Int.tdiv (it.pts - presentationPts) DEFAULT_DVB_TIME_MULTI > 0

/-- The test of step 3 that the next context comes at the same time as this one, which clears the
screen. -/
def isReplaced (it : Queued) (next : Option Queued) : Bool :=
  next.any fun next => it.objectCount = 0 ∧ it.pts = next.pts

/-- The time to the next context. -/
def ptsMsDiff2Next (it : Queued) (next : Option Queued) : ℤ :=
  next.elim 0 fun next => asSigned 32 (Int.tdiv (next.pts - it.pts) DEFAULT_DVB_TIME_MULTI)

/-- The test of step 3 that decoding is late.  The times are unsigned. -/
def isDecodeBusy (tick : Tick) (it : Queued) (next : Option Queued) : Bool :=
  let spendTimeMs := (tick.endMs it.number - tick.startMs it.number).toNat
  asUnsigned 64 DECODE_PRE_TIME_MS ≤ spendTimeMs ∧
    asUnsigned 64 (ptsMsDiff2Next it next) ≤ spendTimeMs

/-- `mPgsContextList.erase(mPgsContextList.begin())`. -/
def eraseFront : List Queued → List Queued × Act
  | [] => ([], .eraseEmpty)
  | it :: list => (list, .erased it)

/-- The list after step 3, what happened, and whether decoding is late. -/
structure Drained where
  list : List Queued
  acts : List Act
  isDecodeBusy : Bool

/-- Step 3: the loop over the contexts that are due. -/
def decodeContexts (tick : Tick) : List Queued → List Queued → Drained
  | [], list => ⟨list, [], false⟩
  | it :: present, list =>
    if tick.stopped it.number then
      ⟨list, [], false⟩
    else
      let front := eraseFront list
      if isReplaced it present.head? then
        let rest := decodeContexts tick present front.1
        { rest with acts := front.2 :: rest.acts }
      else if isDecodeBusy tick it present.head? then
        ⟨front.1, [.decoded it, front.2], true⟩
      else
        let rest := decodeContexts tick present front.1
        { rest with acts := .decoded it :: front.2 :: rest.acts }

/-- `handleDisplayEndSegment`: the list afterwards, and what happened.  When the parser is
stopped the function returns, and nothing is dropped. -/
def handleDisplayEndSegment (tick : Tick) (list : List Queued) : List Queued × List Act :=
  let wrong := list.filter (isWrongPgs tick)
  let kept := list.filter fun it => !isWrongPgs tick it
  let drained := decodeContexts tick (kept.takeWhile (isDue tick)) kept
  if drained.isDecodeBusy then
    let hasObjects : Queued → Bool := fun it => it.objectCount ≠ 0
    (drained.list.dropWhile hasObjects, wrong.map .erased ++ drained.acts ++
      (drained.list.takeWhile hasObjects).map .dropped)
  else
    (drained.list, wrong.map .erased ++ drained.acts)

/-! ## Runs -/

/-- The parser with its queue.  Its other list keeps every context that was queued. -/
structure PgsQueue where
  parser : PgsParser
  mPgsContextList : List Queued
  acts : List Act

/-- A segment is decoded, the time of the player changes, or the parser is stopped. -/
inductive QueueEvent where
  | decode (segment : Segment)
  | renderTimeChanged (tick : Tick)
  | stopParser

namespace PgsQueue

/-- The constructor. -/
def create : PgsQueue := ⟨.create, [], []⟩

/-- One event; `none` where an assertion of the parser fails. -/
def step (queue : PgsQueue) : QueueEvent → Option PgsQueue
  | .decode segment =>
    (queue.parser.decode segment).map fun parser =>
      { queue with
        parser := parser
        mPgsContextList :=
          if segment.type = END_DISPLAY_SEGMENT then
            queue.mPgsContextList ++
              [⟨queue.parser.mPgsContextList.length, queue.parser.mPgsContext⟩]
          else
            queue.mPgsContextList }
  | .renderTimeChanged tick =>
    let handled := handleDisplayEndSegment tick queue.mPgsContextList
    some { queue with mPgsContextList := handled.1, acts := queue.acts ++ handled.2 }
  | .stopParser =>
    some { queue with
      mPgsContextList := []
      acts := queue.acts ++ queue.mPgsContextList.map .erased }

end PgsQueue

/-- The contexts that were decoded. -/
def decodedOf (acts : List Act) : List Queued :=
  acts.filterMap fun
    | .decoded it => some it
    | _ => none

/-- The contexts that were removed from the list, for any reason. -/
def removedOf (acts : List Act) : List Queued :=
  acts.filterMap fun
    | .erased it => some it
    | .dropped it => some it
    | _ => none

/-- **The queue is orderly**: what was decoded came in the order of the numbers, each of them
once; each context that was queued is in the list or was removed, once; no context without
objects was dropped; what is erased from is not empty; what was decoded was removed, and is the
context that was queued with its number. -/
structure Orderly (queue : PgsQueue) : Prop where
  in_order : ((decodedOf queue.acts).map Queued.number).Pairwise (· < ·)
  once : ((removedOf queue.acts ++ queue.mPgsContextList).map Queued.number).Perm
    (List.range queue.parser.mPgsContextList.length)
  dropped : ∀ it, .dropped it ∈ queue.acts → it.objectCount ≠ 0
  nonempty : .eraseEmpty ∉ queue.acts
  removed : ∀ it ∈ decodedOf queue.acts, it ∈ removedOf queue.acts
  queued : ∀ it ∈ removedOf queue.acts ++ queue.mPgsContextList,
    queue.parser.mPgsContextList[it.number]? = some it.ctx

/-! ## One tick -/

section Tick

variable {tick : Tick} {it : Queued} {list present later : List Queued} {acts acts' : List Act}

@[simp] theorem decodedOf_append :
    decodedOf (acts ++ acts') = decodedOf acts ++ decodedOf acts' :=
  List.filterMap_append

@[simp] theorem removedOf_append :
    removedOf (acts ++ acts') = removedOf acts ++ removedOf acts' :=
  List.filterMap_append

theorem decodedOf_map_erased (list : List Queued) : decodedOf (list.map .erased) = [] := by
  rw [decodedOf, List.filterMap_map]
  exact List.filterMap_eq_nil_iff.mpr fun _ _ => rfl

theorem removedOf_map_erased (list : List Queued) : removedOf (list.map .erased) = list := by
  rw [removedOf, List.filterMap_map]
  exact List.filterMap_some

theorem decodedOf_map_dropped (list : List Queued) : decodedOf (list.map .dropped) = [] := by
  rw [decodedOf, List.filterMap_map]
  exact List.filterMap_eq_nil_iff.mpr fun _ _ => rfl

theorem removedOf_map_dropped (list : List Queued) : removedOf (list.map .dropped) = list := by
  rw [removedOf, List.filterMap_map]
  exact List.filterMap_some

/-- What a part of a tick does to the list: it takes some contexts from it, decodes some of them,
and those are in front of what it leaves. -/
structure Takes (list rest : List Queued) (acts : List Act) : Prop where
  ordered : (decodedOf acts ++ rest).Sublist list
  once : (removedOf acts ++ rest).Perm list
  removed : ∀ it ∈ decodedOf acts, it ∈ removedOf acts
  dropped : ∀ it, .dropped it ∈ acts → it.objectCount ≠ 0
  nonempty : .eraseEmpty ∉ acts

/-- **The loop over the contexts that are due** takes them from the front of the list. -/
theorem takes_decodeContexts (tick : Tick) (present later : List Queued) :
    Takes (present ++ later) (decodeContexts tick present (present ++ later)).list
      (decodeContexts tick present (present ++ later)).acts := by
  induction present with
  | nil =>
    exact ⟨List.Sublist.refl _, List.Perm.refl _, fun _ h => absurd h List.not_mem_nil,
      fun _ h => absurd h List.not_mem_nil, List.not_mem_nil⟩
  | cons it present ih =>
    obtain ⟨hordered, honce, hremoved, hdropped, hnonempty⟩ := ih
    rw [List.cons_append, decodeContexts]
    dsimp only [eraseFront]
    split_ifs
    · exact ⟨List.Sublist.refl _, List.Perm.refl _, fun _ h => absurd h List.not_mem_nil,
        fun _ h => absurd h List.not_mem_nil, List.not_mem_nil⟩
    · refine ⟨hordered.cons it, honce.cons it,
        fun it' h => List.mem_cons_of_mem _ (hremoved it' h), fun it' h => ?_, fun h => ?_⟩
      · exact hdropped it' ((List.mem_cons.mp h).resolve_left fun h => Act.noConfusion h)
      · exact hnonempty ((List.mem_cons.mp h).resolve_left fun h => Act.noConfusion h)
    · refine ⟨List.Sublist.refl _, List.Perm.refl _, fun it' h => h, fun it' h => ?_, fun h => ?_⟩
      · simp at h
      · simp at h
    · refine ⟨hordered.cons_cons it, honce.cons it, fun it' h => ?_, fun it' h => ?_, fun h => ?_⟩
      · rcases List.mem_cons.mp h with rfl | h
        · exact List.mem_cons_self
        · exact List.mem_cons_of_mem _ (hremoved it' h)
      · refine hdropped it' ?_
        simpa using h
      · refine hnonempty ?_
        simpa using h

/-- Contexts that a test picks are erased. -/
theorem takes_filter (isTaken : Queued → Bool) (list : List Queued) :
    Takes list (list.filter fun it => !isTaken it) ((list.filter isTaken).map .erased) := by
  refine ⟨?_, ?_, fun it h => ?_, fun it h => ?_, fun h => ?_⟩
  · rw [decodedOf_map_erased]
    exact List.filter_sublist
  · rw [removedOf_map_erased]
    exact List.filter_append_perm _ _
  · rw [decodedOf_map_erased] at h
    exact absurd h List.not_mem_nil
  · obtain ⟨it', -, h⟩ := List.mem_map.mp h
    exact Act.noConfusion h
  · obtain ⟨it', -, h⟩ := List.mem_map.mp h
    exact Act.noConfusion h

/-- Contexts with objects are dropped from the front. -/
theorem takes_dropWhile {hasObjects : Queued → Bool}
    (h : ∀ it, hasObjects it = true → it.objectCount ≠ 0) (list : List Queued) :
    Takes list (list.dropWhile hasObjects) ((list.takeWhile hasObjects).map .dropped) := by
  refine ⟨?_, ?_, fun it hit => ?_, fun it hit => ?_, fun hempty => ?_⟩
  · rw [decodedOf_map_dropped]
    exact List.dropWhile_sublist _
  · rw [removedOf_map_dropped, List.takeWhile_append_dropWhile]
  · rw [decodedOf_map_dropped] at hit
    exact absurd hit List.not_mem_nil
  · obtain ⟨it', hit', heq⟩ := List.mem_map.mp hit
    obtain rfl := Act.dropped.inj heq
    exact h it' (List.all_eq_true.mp List.all_takeWhile it' hit')
  · obtain ⟨it', -, heq⟩ := List.mem_map.mp hempty
    exact Act.noConfusion heq

theorem Takes.trans {mid rest : List Queued} (h : Takes list mid acts)
    (h' : Takes mid rest acts') : Takes list rest (acts ++ acts') := by
  refine ⟨?_, ?_, fun it hit => ?_, fun it hit => ?_, fun hempty => ?_⟩
  · rw [decodedOf_append, List.append_assoc]
    exact (h'.ordered.append_left _).trans h.ordered
  · rw [removedOf_append, List.append_assoc]
    exact (h'.once.append_left _).trans h.once
  · rw [decodedOf_append] at hit
    rw [removedOf_append]
    exact List.mem_append.mpr ((List.mem_append.mp hit).imp (h.removed it) (h'.removed it))
  · exact (List.mem_append.mp hit).elim (h.dropped it) (h'.dropped it)
  · exact (List.mem_append.mp hempty).elim h.nonempty h'.nonempty

/-- **One tick.** -/
theorem takes_handleDisplayEndSegment (tick : Tick) (list : List Queued) :
    Takes list (handleDisplayEndSegment tick list).1 (handleDisplayEndSegment tick list).2 := by
  unfold handleDisplayEndSegment
  dsimp only
  have hwrong := takes_filter (isWrongPgs tick) list
  have hloop := takes_decodeContexts tick
    ((list.filter fun it => !isWrongPgs tick it).takeWhile (isDue tick))
    ((list.filter fun it => !isWrongPgs tick it).dropWhile (isDue tick))
  rw [List.takeWhile_append_dropWhile] at hloop
  split_ifs
  · exact (hwrong.trans hloop).trans (takes_dropWhile (fun it h => of_decide_eq_true h) _)
  · exact hwrong.trans hloop

end Tick

/-! ## Runs -/

section Runs

variable {queue queue' : PgsQueue} {event : QueueEvent}

/-- **The invariant of a run**: what was decoded is in front of what is in the list, each with
its number, and the objects of the context are sound. -/
structure Ordered (queue : PgsQueue) : Prop where
  sorted : ((decodedOf queue.acts ++ queue.mPgsContextList).map Queued.number).Pairwise (· < ·)
  once : ((removedOf queue.acts ++ queue.mPgsContextList).map Queued.number).Perm
    (List.range queue.parser.mPgsContextList.length)
  dropped : ∀ it, .dropped it ∈ queue.acts → it.objectCount ≠ 0
  nonempty : .eraseEmpty ∉ queue.acts
  removed : ∀ it ∈ decodedOf queue.acts, it ∈ removedOf queue.acts
  queued : ∀ it ∈ removedOf queue.acts ++ queue.mPgsContextList,
    queue.parser.mPgsContextList[it.number]? = some it.ctx
  sound : AllSound queue.parser.mPgsContext

theorem ordered_create : Ordered .create :=
  ⟨List.Pairwise.nil, List.Perm.refl _, fun _ h => absurd h List.not_mem_nil, List.not_mem_nil,
    fun _ h => absurd h List.not_mem_nil, fun _ h => absurd h List.not_mem_nil, sound_create⟩

theorem Ordered.orderly (h : Ordered queue) : Orderly queue := by
  refine ⟨h.sorted.sublist ?_, h.once, h.dropped, h.nonempty, h.removed, h.queued⟩
  exact (List.sublist_append_left _ _).map _

/-- Contexts are taken from the list. -/
theorem Ordered.takes (h : Ordered queue) {rest : List Queued} {acts : List Act}
    (htakes : Takes queue.mPgsContextList rest acts) :
    Ordered { queue with mPgsContextList := rest, acts := queue.acts ++ acts } := by
  have honce : (removedOf (queue.acts ++ acts) ++ rest).Perm
      (removedOf queue.acts ++ queue.mPgsContextList) := by
    rw [removedOf_append, List.append_assoc]
    exact htakes.once.append_left _
  refine ⟨h.sorted.sublist (List.Sublist.map _ ?_), (honce.map _).trans h.once, fun it hit => ?_,
    fun hempty => ?_, fun it hit => ?_, fun it hit => h.queued it (honce.mem_iff.mp hit), h.sound⟩
  · rw [decodedOf_append, List.append_assoc]
    exact htakes.ordered.append_left _
  · exact (List.mem_append.mp hit).elim (h.dropped it) (htakes.dropped it)
  · exact (List.mem_append.mp hempty).elim h.nonempty htakes.nonempty
  · rw [decodedOf_append] at hit
    rw [removedOf_append]
    exact List.mem_append.mpr ((List.mem_append.mp hit).imp (h.removed it) (htakes.removed it))

/-- A context is queued behind the others. -/
theorem Ordered.push (h : Ordered queue) (ctx : PGSSubContext) (parser : PgsParser)
    (hlist : parser.mPgsContextList = queue.parser.mPgsContextList ++ [ctx])
    (hsound : AllSound parser.mPgsContext) : Ordered { queue with
      parser := parser
      mPgsContextList :=
        queue.mPgsContextList ++ [⟨queue.parser.mPgsContextList.length, ctx⟩] } := by
  have hlt : ∀ it ∈ removedOf queue.acts ++ queue.mPgsContextList,
      it.number < queue.parser.mPgsContextList.length := fun it hit =>
    List.mem_range.mp (h.once.mem_iff.mp (List.mem_map_of_mem hit))
  refine ⟨?_, ?_, h.dropped, h.nonempty, h.removed, fun it hit => ?_, hsound⟩
  · rw [← List.append_assoc, List.map_append, List.pairwise_append]
    refine ⟨h.sorted, List.pairwise_singleton _ _, fun m hm n hn => ?_⟩
    obtain ⟨it, hit, rfl⟩ := List.mem_map.mp hm
    obtain rfl := List.mem_singleton.mp hn
    refine hlt it ?_
    exact List.mem_append.mpr ((List.mem_append.mp hit).imp_left (h.removed it))
  · dsimp only
    rw [hlist, List.length_append, List.length_singleton, List.range_succ, ← List.append_assoc,
      List.map_append]
    exact h.once.append_right _
  · dsimp only at hit ⊢
    rw [← List.append_assoc] at hit
    rw [hlist]
    rcases List.mem_append.mp hit with hold | hnew
    · rw [List.getElem?_append_left (hlt it hold)]
      exact h.queued it hold
    · obtain rfl := List.mem_singleton.mp hnew
      rw [List.getElem?_append_right le_rfl, Nat.sub_self]
      rfl

/-- Only the end of a display set queues a context. -/
theorem list_decode {parser parser' : PgsParser} {segment : Segment}
    (h : parser.decode segment = some parser') : parser'.mPgsContextList =
      if segment.type = END_DISPLAY_SEGMENT then parser.mPgsContextList ++ [parser.mPgsContext]
      else parser.mPgsContextList := by
  unfold PgsParser.decode at h
  dsimp only at h
  split_ifs at h with hcomposition hpalette hobject hend
  · obtain rfl := Option.some_inj.mp h
    rw [if_neg (by rw [hcomposition]; decide)]
  · obtain rfl := Option.some_inj.mp h
    rw [if_neg (by rw [hpalette]; decide)]
  · obtain ⟨parsed, -, rfl⟩ := Option.map_eq_some_iff.mp h
    rw [if_neg (by rw [hobject]; decide)]
  · obtain rfl := Option.some_inj.mp h
    rw [if_pos hend]
  · obtain rfl := Option.some_inj.mp h
    rw [if_neg hend]

/-- **One event.** -/
theorem ordered_step (queue : PgsQueue) (event : QueueEvent) (h : Ordered queue) :
    ∃ queue', queue.step event = some queue' ∧ Ordered queue' := by
  cases event with
  | decode segment =>
    obtain ⟨parser, hdecode, hsound⟩ := sound_decode h.sound segment
    refine ⟨_, congrArg (Option.map _) hdecode, ?_⟩
    have hlist := list_decode hdecode
    split_ifs at hlist ⊢
    · exact h.push _ parser hlist hsound
    · exact ⟨h.sorted, hlist ▸ h.once, h.dropped, h.nonempty, h.removed, hlist ▸ h.queued, hsound⟩
  | renderTimeChanged tick =>
    exact ⟨_, rfl, h.takes (takes_handleDisplayEndSegment tick _)⟩
  | stopParser =>
    refine ⟨_, rfl, h.takes ?_⟩
    have hall := takes_filter (fun _ => true) queue.mPgsContextList
    rwa [List.filter_true, Bool.not_true, List.filter_false] at hall

end Runs

end Pgs
end AmlSubtitle
