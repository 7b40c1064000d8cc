import AmlSubtitle.Lib.Counted
import AmlSubtitle.Subtitle.PresentationLoss

/-!
# The lists of the presentation

What `handleStreamSub` does with the references in its lists and variables.  The items are
objects with counted references here, and `ops` is what an event does with them; which way
the handler goes is read off the state of the presentation.  The renderer keeps references
of its own, which are left out: they could only keep an item longer.

* `Mirrors.exec`: the references are those to the items of the presentation.
* `FrontsThere`: a check does not throw the whole queue away as out of date, and does not
  show an item while none is fading.
* `listsSafe_iff`: the runs in which no list is empty when its front is asked for are those
  whose checks are all so.  No item is used after it was deleted, in any run.

Nothing is fading at the start and after a reset, so the first item that is shown then is
shown with the front of an empty list.
-/

namespace AmlSubtitle
namespace Presentation

open Words Spu Run Counted

/-! ## Places -/

/-- The lists, and the variables of the handler. -/
inductive Place where
  | decoded
  | showing
  | fading
  | spu
  | secondSpu
  | cachedSpu
  deriving DecidableEq, Repr

instance : Fintype Place :=
  ⟨{.decoded, .showing, .fading, .spu, .secondSpu, .cachedSpu}, fun p => by cases p <;> decide⟩

/-- The objects of a list. -/
def ids (list : List Spu) : List ℕ := list.map Spu.id

/-- An item is taken from the parser. -/
def takeOps (s : State) (timestamp : ℤ) : List (Op Place) :=
  match s.mDecodedSpu with
  | [] => []
  | item :: rest =>
    let spu := adjustFarPts item timestamp
    let s := enqueue ({ s with mDecodedSpu := rest }.record [.took item]) spu timestamp
    [.front .decoded .spu, .popFront .decoded, .use .spu] ++
      (if spu.subtitleType = .closedCaption ∨
          (timestamp ≠ 0 ∨ (timestamp = 0 ∧ spu.pts = 0)) then
        [.pushBack .showing .spu, .use .showing, .keep .showing (ids s.mEmittedShowingSpu)]
      else []) ++
      [.use .spu, .use .showing] ++
      if spu.bufferSize + totalQueuedMemSize s.mEmittedShowingSpu ≥ MAX_ALLOWED_QUEUED_MEM then
        List.replicate (s.mEmittedShowingSpu.length / 2) (.popFront .showing)
      else []

/-- A round of the loop over external cues that are over. -/
def roundOps (_ : Spu) : List (Op Place) := [.popFront .showing, .front .showing .spu, .use .spu]

/-- The loop. -/
def throwOps (s : State) (timestamp : ℤ) : List (Op Place) :=
  [.front .showing .spu, .use .spu] ++
    (s.mEmittedShowingSpu.takeWhile (isOutOfDate timestamp)).flatMap roundOps

/-- The second item, looked at behind `spu`. -/
def combineOps (s : State) (spu : Spu) : List (Op Place) :=
  match s.mEmittedShowingSpu with
  | [] => []
  | secondSpu :: _ =>
    [.front .showing .secondSpu, .use .spu, .use .secondSpu] ++
      (if (combineSamePtsSubtitle spu secondSpu).isSome then [.popFront .showing] else []) ++
      [.keep .secondSpu []]

/-- The item replaces the one that is fading. -/
def pushOps (s : State) : List (Op Place) :=
  [.front .fading .cachedSpu] ++
    (if s.mEmittedFaddingSpu = [] then [] else [.popFront .fading, .use .cachedSpu]) ++
    [.pushBack .fading .spu, .keep .cachedSpu []]

/-- The item is shown, off the queue. -/
def showSpuOps (s : State) (spu : Spu) : List (Op Place) :=
  combineOps s spu ++ [.use .spu, .use .showing, .use .spu] ++ pushOps s

/-- The front item is shown or waits. -/
def showOps (s : State) (spu : Spu) (timestamp : ℤ) : List (Op Place) :=
  let spu := repair spu timestamp
  [.use .spu] ++
    if isDue spu timestamp then
      [.popFront .showing] ++
        showSpuOps { s with mEmittedShowingSpu := s.mEmittedShowingSpu.tail } spu
    else []

/-- The fading item is looked at. -/
def fadeOps (s : State) (timestamp : ℤ) : List (Op Place) :=
  match s.mEmittedFaddingSpu with
  | [] => []
  | spu :: _ =>
    [.front .fading .spu, .use .spu] ++
      if spu.isKeepShowing then []
      else (if isFaded spu timestamp then [.popFront .fading, .use .spu] else []) ++ [.use .spu]

/-- The handler of a check. -/
def checkOps (s : State) (timestamp : ℤ) : List (Op Place) :=
  let s := s.removeMessages .ptsTimeCheckSpu
  let taken := takeSpu s timestamp
  takeOps s timestamp ++
    (if taken.mEmittedShowingSpu = [] then
      fadeOps taken timestamp
    else
      let kept := throwOutOfDate taken timestamp
      let s := throwFarAhead kept timestamp
      throwOps taken timestamp ++ [.use .showing, .keep .showing (ids s.mEmittedShowingSpu)] ++
        if s.mEmittedShowingSpu = [] then []
        else
          match kept.mEmittedShowingSpu.head? with
          | none => fadeOps s timestamp
          | some spu => showOps s spu timestamp ++
              fadeOps (showFront s spu (isFarAhead timestamp spu) timestamp) timestamp) ++
    [.keep .spu []]

/-- An event. -/
def ops (s : State) : Event → List (Op Place)
  | .addDecodedItem _ =>
    List.replicate (s.mDecodedSpu.length + 1 - INTERNAL_MAX_NUMBER_SPU_ITEM) (.popFront .decoded) ++
      [.make .decoded]
  | .resetForSeek => [.keep .decoded []]
  | .deliver k clock =>
    match s.mLooper[k]? with
    | none => []
    | some m =>
      if clock.mCurrentPresentRelativeTime ≤ 0 then []
      else
        match m.what with
        | .ptsTimeCheckSpu => checkOps { s with mLooper := s.mLooper.eraseIdx k } clock.timestamp
        | .resetMessageQueue => [.keep .showing [], .keep .fading []]

/-- An event, of the presentation and of the references. -/
def execRefs (c : State × Memory Place) (e : Event) : State × Memory Place :=
  (exec c.1 e, (ops c.1 e).foldl Counted.step c.2)

/-! ## The references of the lists -/

/-- The references are those to the items of the presentation. -/
structure Mirrors (s : State) (m : Memory Place) : Prop where
  decoded : m.refs .decoded = ids s.mDecodedSpu
  showing : m.refs .showing = ids s.mEmittedShowingSpu
  fading : m.refs .fading = ids s.mEmittedFaddingSpu
  next : m.next = s.added
  fronts : m.emptyFronts = s.emptyFronts

section Parts

variable {s : State} {m : Memory Place} {timestamp : ℤ}

/-- Looking at items changes nothing. -/
theorem Mirrors.use (h : Mirrors s m) (p : Place) : Mirrors s (Counted.step m (.use p)) :=
  ⟨h.decoded, h.showing, h.fading, h.next, h.fronts⟩

/-- Items are taken off the queue. -/
theorem Mirrors.popFront_showing (h : Mirrors s m) (k : ℕ) (acts : List Act) :
    Mirrors ({ s with mEmittedShowingSpu := s.mEmittedShowingSpu.drop k }.record acts)
      ((List.replicate k (.popFront .showing)).foldl Counted.step m) := by
  obtain ⟨hrefs, hnext, hfronts⟩ := foldl_popFront m .showing k
  refine ⟨?_, ?_, ?_, hnext.trans h.next, hfronts.trans h.fronts⟩
  · rw [hrefs]
    exact h.decoded
  · rw [hrefs, Function.update_self, h.showing]
    exact List.map_drop.symm
  · rw [hrefs]
    exact h.fading

theorem Mirrors.enqueue (h : Mirrors s m) (timestamp : ℤ) {spu : Spu}
    (hspu : m.refs .spu = [spu.id]) :
    Mirrors (enqueue s spu timestamp)
      ((if spu.subtitleType = .closedCaption ∨
          (timestamp ≠ 0 ∨ (timestamp = 0 ∧ spu.pts = 0)) then
        [.pushBack .showing .spu, .use .showing,
          .keep .showing (ids (Presentation.enqueue s spu timestamp).mEmittedShowingSpu)]
      else []).foldl Counted.step m) := by
  unfold Presentation.enqueue
  by_cases hqueued : spu.subtitleType = .closedCaption ∨
      (timestamp ≠ 0 ∨ (timestamp = 0 ∧ spu.pts = 0))
  · rw [if_pos hqueued, if_pos hqueued]
    have hpush : (Counted.step (Counted.step m (.pushBack .showing .spu)) (.use .showing)).refs =
        Function.update m.refs .showing (ids (s.mEmittedShowingSpu ++ [spu])) := by
      rw [step_use_refs, refs_pushBack, h.showing, hspu, ids, ids, List.map_append]
      rfl
    have hsub : ids (sortPts (s.mEmittedShowingSpu ++ [spu])) ⊆
        (Counted.step (Counted.step m (.pushBack .showing .spu)) (.use .showing)).refs
          .showing := by
      rw [hpush, Function.update_self]
      exact ((sortPts_perm _).map Spu.id).subset
    rw [List.foldl_cons, List.foldl_cons, List.foldl_cons, List.foldl_nil]
    have hkeep := step_keep hsub
    dsimp only at hkeep ⊢
    rw [hkeep]
    refine ⟨?_, ?_, ?_, h.next, h.fronts⟩
    · rw [refs_assign, hpush]
      exact h.decoded
    · rw [refs_assign, Function.update_self]
    · rw [refs_assign, hpush]
      exact h.fading
  · rw [if_neg hqueued, if_neg hqueued]
    exact ⟨h.decoded, h.showing, h.fading, h.next, h.fronts⟩

theorem Mirrors.takeSpu (h : Mirrors s m) (timestamp : ℤ) :
    Mirrors (takeSpu s timestamp) ((takeOps s timestamp).foldl Counted.step m) := by
  unfold takeOps Presentation.takeSpu
  cases hqueue : s.mDecodedSpu with
  | nil => exact h
  | cons item rest =>
    have hdecoded : m.refs .decoded = item.id :: ids rest := by
      rw [h.decoded, hqueue]
      rfl
    -- the item is off the parser's queue and in the variable
    have htaken : Mirrors ({ s with mDecodedSpu := rest }.record [.took item])
        ([.front .decoded .spu, .popFront .decoded, .use .spu].foldl Counted.step m) := by
      refine ⟨?_, h.showing, h.fading, h.next, ?_⟩
      · simp [hdecoded]
      · simp [hdecoded, h.fronts]
    have hspu : ([.front .decoded .spu, .popFront .decoded, .use .spu].foldl Counted.step
        m).refs .spu = [(adjustFarPts item timestamp).id] := by
      rw [adjustFarPts_id]
      simp [hdecoded]
    have hqueued := htaken.enqueue timestamp hspu
    have hlooked := (hqueued.use .spu).use .showing
    dsimp only
    rw [List.foldl_append, List.foldl_append, List.foldl_append]
    unfold limitMemory
    split
    · refine hlooked.popFront_showing _ _
    · exact hlooked

/-- The loop, by induction over the queue it is at the front of. -/
theorem Mirrors.throwLoop (p : Spu → Bool) {list : List Spu} (h : Mirrors s m)
    (hqueue : s.mEmittedShowingSpu = list) (hspu : m.refs .spu = ids (list.take 1)) :
    Mirrors { s with
        mEmittedShowingSpu := list.dropWhile p
        emptyFronts := s.emptyFronts + if list ≠ [] ∧ list.dropWhile p = [] then 1 else 0 }
        (((list.takeWhile p).flatMap roundOps).foldl Counted.step m) ∧
      (((list.takeWhile p).flatMap roundOps).foldl Counted.step m).refs .spu =
        ids ((list.dropWhile p).take 1) := by
  have hshowing := h.showing
  rw [hqueue] at hshowing
  induction list generalizing s m with
  | nil => exact ⟨⟨h.decoded, hshowing, h.fading, h.next, by simpa using h.fronts⟩, hspu⟩
  | cons spu rest ih =>
    by_cases hp : p spu
    · rw [List.takeWhile_cons_of_pos hp, List.dropWhile_cons_of_pos hp, List.flatMap_cons,
        List.foldl_append]
      have hround : Mirrors { s with
          mEmittedShowingSpu := rest
          emptyFronts := s.emptyFronts + if rest = [] then 1 else 0 }
          ((roundOps spu).foldl Counted.step m) := by
        refine ⟨h.decoded, ?_, h.fading, h.next, ?_⟩
        · simp [roundOps, hshowing, ids]
        · simp [roundOps, hshowing, h.fronts, ids]
      have hfront : ((roundOps spu).foldl Counted.step m).refs .spu = ids (rest.take 1) := by
        simp [roundOps, hshowing, ids, List.map_take]
      obtain ⟨hrest, hlast⟩ := ih hround rfl hfront hround.showing
      refine ⟨⟨hrest.decoded, hrest.showing, hrest.fading, hrest.next, ?_⟩, hlast⟩
      rw [hrest.fronts]
      cases rest <;> simp
    · rw [List.takeWhile_cons_of_neg hp, List.dropWhile_cons_of_neg hp]
      exact ⟨⟨h.decoded, hshowing, h.fading, h.next, by simpa using h.fronts⟩, hspu⟩

theorem Mirrors.throwOutOfDate (h : Mirrors s m) (timestamp : ℤ)
    (hne : s.mEmittedShowingSpu ≠ []) :
    Mirrors (throwOutOfDate s timestamp) ((throwOps s timestamp).foldl Counted.step m) ∧
      ((throwOps s timestamp).foldl Counted.step m).refs .spu =
        ids ((throwOutOfDate s timestamp).mEmittedShowingSpu.take 1) := by
  obtain ⟨spu, rest, hqueue⟩ := List.exists_cons_of_ne_nil hne
  have hshowing : m.refs .showing = ids s.mEmittedShowingSpu := h.showing
  have hfront : Mirrors s ([.front .showing .spu, .use .spu].foldl Counted.step m) := by
    refine ⟨h.decoded, h.showing, h.fading, h.next, ?_⟩
    simp [Counted.step, hshowing, hqueue, h.fronts, ids]
  have hspu : ([.front .showing .spu, .use .spu].foldl Counted.step m).refs .spu =
      ids (s.mEmittedShowingSpu.take 1) := by
    simp [hshowing, ids, List.map_take]
  obtain ⟨hloop, hlast⟩ := hfront.throwLoop (isOutOfDate timestamp) rfl hspu
  rw [throwOps, List.foldl_append, throwOutOfDate_showing]
  refine ⟨⟨?_, ?_, ?_, ?_, ?_⟩, hlast⟩
  · rw [hloop.decoded]
    unfold Presentation.throwOutOfDate
    dsimp only
    split <;> rfl
  · rw [hloop.showing, throwOutOfDate_showing]
  · rw [hloop.fading, throwOutOfDate_fading]
  · rw [hloop.next]
    unfold Presentation.throwOutOfDate
    dsimp only
    split <;> rfl
  · rw [hloop.fronts]
    unfold Presentation.throwOutOfDate
    dsimp only
    by_cases hempty : s.mEmittedShowingSpu.dropWhile (isOutOfDate timestamp) = []
    · rw [if_pos hempty, if_pos ⟨hne, hempty⟩]
      rfl
    · rw [if_neg hempty, if_neg fun h => hempty h.2]
      rfl

/-- Of the queue the handler keeps a part. -/
theorem Mirrors.throwFarAhead (h : Mirrors s m) (timestamp : ℤ) :
    Mirrors (throwFarAhead s timestamp)
        ([.use .showing, .keep .showing
          (ids (throwFarAhead s timestamp).mEmittedShowingSpu)].foldl Counted.step m) ∧
      ([.use .showing, .keep .showing
        (ids (Presentation.throwFarAhead s timestamp).mEmittedShowingSpu)].foldl
          Counted.step m).refs .spu = m.refs .spu := by
  have hsub : ids (Presentation.throwFarAhead s timestamp).mEmittedShowingSpu ⊆
      (Counted.step m (.use .showing)).refs .showing := by
    rw [step_use_refs, h.showing]
    exact (List.filter_sublist.map Spu.id).subset
  rw [List.foldl_cons, List.foldl_cons, List.foldl_nil, step_keep hsub]
  exact ⟨⟨h.decoded, by rw [refs_assign, Function.update_self], h.fading, h.next, h.fronts⟩, rfl⟩

theorem Mirrors.combineNext (h : Mirrors s m) (spu : Spu) :
    Mirrors (combineNext s spu).1 ((combineOps s spu).foldl Counted.step m) ∧
      ((combineOps s spu).foldl Counted.step m).refs .spu = m.refs .spu := by
  unfold combineOps Presentation.combineNext
  cases hqueue : s.mEmittedShowingSpu with
  | nil => exact ⟨h, rfl⟩
  | cons secondSpu rest =>
    have hshowing : m.refs .showing = secondSpu.id :: ids rest := by
      rw [h.showing, hqueue]
      rfl
    have hfront : Mirrors s ([.front .showing .secondSpu, .use .spu, .use .secondSpu].foldl
        Counted.step m) := by
      refine ⟨h.decoded, h.showing, h.fading, h.next, ?_⟩
      simp [hshowing, h.fronts]
    dsimp only
    rw [List.foldl_append, List.foldl_append, List.foldl_cons, List.foldl_nil,
      step_keep (List.nil_subset _)]
    cases hboth : combineSamePtsSubtitle spu secondSpu with
    | some both =>
      refine ⟨⟨hfront.decoded, ?_, hfront.fading, hfront.next, hfront.fronts⟩, rfl⟩
      simp [hshowing]
    | none =>
      exact ⟨⟨hfront.decoded, hfront.showing, hfront.fading, hfront.next, hfront.fronts⟩, rfl⟩

theorem Mirrors.pushFading (h : Mirrors s m) {spu : Spu} (hspu : m.refs .spu = [spu.id]) :
    Mirrors (pushFading s spu) ((pushOps s).foldl Counted.step m) := by
  unfold pushOps Presentation.pushFading
  have hfading := h.fading
  cases hlist : s.mEmittedFaddingSpu with
  | nil =>
    rw [hlist] at hfading
    refine ⟨?_, ?_, ?_, h.next, ?_⟩
    · simp [Counted.step, h.decoded]
    · simp [Counted.step, h.showing]
    · simp [Counted.step, hfading, hspu, ids]
    · simp [hfading, h.fronts, ids]
  | cons cachedSpu rest =>
    rw [hlist] at hfading
    refine ⟨?_, ?_, ?_, h.next, ?_⟩
    · simp [Counted.step, h.decoded]
    · simp [Counted.step, h.showing]
    · simp [Counted.step, hfading, hspu, ids]
    · simp [hfading, h.fronts, ids]

theorem Mirrors.record (h : Mirrors s m) (acts : List Act) : Mirrors (s.record acts) m :=
  ⟨h.decoded, h.showing, h.fading, h.next, h.fronts⟩

theorem Mirrors.showSpu (h : Mirrors s m) {spu : Spu} (hspu : m.refs .spu = [spu.id]) :
    Mirrors (showSpu s spu timestamp) ((showSpuOps s spu).foldl Counted.step m) := by
  obtain ⟨hnext, hkept⟩ := h.combineNext spu
  obtain ⟨act, hpresent⟩ := exists_present (Presentation.combineNext s spu).1
    (Presentation.combineNext s spu).2
  have hid : (fixFading (Presentation.combineNext s spu).2 timestamp).id = spu.id := by
    rw [fixFading_id, (held_combineNext s spu 0).2]
  have hshown : ((combineOps s spu).foldl Counted.step m).refs .spu =
      [(fixFading (Presentation.combineNext s spu).2 timestamp).id] := by
    rw [hid]
    exact hkept.trans hspu
  have hpush := ((((hnext.use .spu).use .showing).use .spu).record [act]).pushFading hshown
  have hops : pushOps ((Presentation.combineNext s spu).1.record [act]) = pushOps s := by
    simp [pushOps]
  rw [hops] at hpush
  rw [showSpu_eq, hpresent, showSpuOps, List.foldl_append, List.foldl_append]
  exact hpush

/-- Showing the front item, or waiting for its time. -/
theorem Mirrors.showFront (h : Mirrors s m) {spu : Spu} (hspu : m.refs .spu = [spu.id])
    {purged : Bool} (hfront : purged = false → ∃ rest, s.mEmittedShowingSpu = spu :: rest) :
    Mirrors (showFront s spu purged timestamp)
      ((showOps s spu timestamp).foldl Counted.step m) := by
  unfold showOps
  dsimp only
  rw [List.foldl_append]
  obtain ⟨hdue, hshow⟩ | ⟨hdue, hwait⟩ := showFront_cases s spu purged timestamp
  · rw [if_pos hdue, hshow, List.foldl_append]
    have hpop : Mirrors
        ({ s with mEmittedShowingSpu := s.mEmittedShowingSpu.tail }.record
          ((if purged then s.mEmittedShowingSpu.take 1 else []).map .popped))
          ([.popFront .showing].foldl Counted.step ([.use .spu].foldl Counted.step m)) :=
      ⟨h.decoded, by simp [h.showing, ids], h.fading, h.next, h.fronts⟩
    exact hpop.showSpu (by rw [repair_id]; exact hspu)
  · rw [if_neg hdue, hwait]
    refine ⟨h.decoded, ?_, h.fading, h.next, h.fronts⟩
    cases purged with
    | true => exact h.showing
    | false =>
      obtain ⟨rest, hrest⟩ := hfront rfl
      show m.refs .showing = ids (repair spu timestamp :: s.mEmittedShowingSpu.tail)
      rw [h.showing, hrest, ids, ids, List.map_cons, List.map_cons, repair_id]
      rfl

/-- The fading part. -/
theorem Mirrors.fade (h : Mirrors s m) :
    Mirrors (fade s timestamp) ((fadeOps s timestamp).foldl Counted.step m) := by
  unfold fadeOps Presentation.fade
  cases hlist : s.mEmittedFaddingSpu with
  | nil => exact h
  | cons spu rest =>
    have hfading : m.refs .fading = spu.id :: ids rest := by
      rw [h.fading, hlist]
      rfl
    have hfront : Mirrors s ([.front .fading .spu, .use .spu].foldl Counted.step m) := by
      refine ⟨h.decoded, h.showing, h.fading, h.next, ?_⟩
      simp [hfading, h.fronts]
    dsimp only
    rw [List.foldl_append]
    split
    · exact hfront
    · rw [List.foldl_append]
      split
      · refine ⟨hfront.decoded, hfront.showing, ?_, hfront.next, hfront.fronts⟩
        simp [hfading]
      · exact ⟨hfront.decoded, hfront.showing, hfront.fading, hfront.next, hfront.fronts⟩

theorem Mirrors.reset (h : Mirrors s m) : Mirrors s (Counted.step m (.keep .spu [])) := by
  rw [step_keep (List.nil_subset _)]
  exact ⟨h.decoded, h.showing, h.fading, h.next, h.fronts⟩

/-- The handler of a check. -/
theorem Mirrors.checkSpu (h : Mirrors s m) (timestamp : ℤ) :
    Mirrors (checkSpu s timestamp) ((checkOps s timestamp).foldl Counted.step m) := by
  have hclear : Mirrors (s.removeMessages .ptsTimeCheckSpu) m :=
    ⟨h.decoded, h.showing, h.fading, h.next, h.fronts⟩
  have htake := hclear.takeSpu timestamp
  unfold checkOps
  dsimp only
  rw [List.foldl_append, List.foldl_append]
  refine Mirrors.reset ?_
  obtain ⟨hempty, hcheck⟩ | ⟨hne, hempty, hcheck⟩ | ⟨spu, rest, hqueue, hleft, hcheck⟩ :=
    checkSpu_cases s timestamp
  · rw [if_pos hempty, hcheck]
    exact htake.fade
  · obtain ⟨hthrown, -⟩ := htake.throwOutOfDate timestamp hne
    rw [if_neg hne, if_pos hempty, hcheck, List.append_nil, List.foldl_append]
    exact (hthrown.throwFarAhead timestamp).1
  · have hne : (Presentation.takeSpu (s.removeMessages .ptsTimeCheckSpu)
        timestamp).mEmittedShowingSpu ≠ [] := by
      intro hnone
      rw [throwOutOfDate_showing, hnone] at hqueue
      exact absurd hqueue (by simp)
    obtain ⟨hthrown, hvariable⟩ := htake.throwOutOfDate timestamp hne
    obtain ⟨hkept, hsame⟩ := hthrown.throwFarAhead timestamp
    rw [hqueue] at hvariable
    rw [if_neg hne, if_neg hleft, hcheck, hqueue, List.foldl_append, List.foldl_append]
    dsimp only [List.head?_cons]
    rw [List.foldl_append]
    refine (hkept.showFront (hsame.trans hvariable) fun hnear => ?_).fade
    rw [throwFarAhead_of_head hqueue, hnear]
    exact ⟨_, rfl⟩

/-- **The references are those to the items**, after every event. -/
theorem Mirrors.exec (h : Mirrors s m) (e : Event) :
    Mirrors (exec s e) ((ops s e).foldl Counted.step m) := by
  cases e with
  | addDecodedItem item =>
    obtain ⟨hrefs, hnext, hfronts⟩ := foldl_popFront m .decoded
      (s.mDecodedSpu.length + 1 - INTERNAL_MAX_NUMBER_SPU_ITEM)
    rw [ops, List.foldl_append, List.foldl_cons, List.foldl_nil]
    refine ⟨?_, ?_, ?_, ?_, hfronts.trans h.fronts⟩
    · rw [refs_make, hrefs, hnext, h.decoded, h.next]
      simp [ids, Presentation.exec, addDecodedItem, List.map_drop]
    · rw [refs_make, hrefs]
      exact h.showing
    · rw [refs_make, hrefs]
      exact h.fading
    · exact congrArg (· + 1) (hnext.trans h.next)
  | resetForSeek =>
    rw [ops, List.foldl_cons, List.foldl_nil, step_keep (List.nil_subset _)]
    exact ⟨rfl, h.showing, h.fading, h.next, h.fronts⟩
  | deliver k clock =>
    have hsent : Mirrors { s with mLooper := s.mLooper.eraseIdx k } m :=
      ⟨h.decoded, h.showing, h.fading, h.next, h.fronts⟩
    unfold ops
    dsimp only
    obtain ⟨hnone, hexec⟩ | ⟨message, hm, ⟨hwait, hexec⟩ | ⟨hclock, hexec⟩⟩ :=
      exec_deliver_cases s k clock
    · rw [hexec, hnone]
      exact h
    · rw [hexec, hm]
      dsimp only
      rw [if_pos hwait]
      exact ⟨h.decoded, h.showing, h.fading, h.next, h.fronts⟩
    · rw [hexec, hm]
      dsimp only
      rw [if_neg (not_le.mpr hclock)]
      cases message.what with
      | ptsTimeCheckSpu => exact hsent.checkSpu clock.timestamp
      | resetMessageQueue =>
        dsimp only
        rw [List.foldl_cons, List.foldl_cons, List.foldl_nil, step_keep (List.nil_subset _),
          step_keep (List.nil_subset _)]
        exact ⟨h.decoded, rfl, rfl, h.next, h.fronts⟩

end Parts

/-! ## Fronts of empty lists -/

/-- Every front a check asks for is that of a list with items: the queue is not thrown away as
a whole for being out of date, and what is shown is shown while another item is fading. -/
@[mk_iff] structure FrontsThere (s : State) (timestamp : ℤ) : Prop where
  queue : (takeSpu (s.removeMessages .ptsTimeCheckSpu) timestamp).mEmittedShowingSpu ≠ [] →
    lookedAt s timestamp ≠ []
  fading : ∀ spu rest, lookedAt s timestamp = spu :: rest →
    (thinned s timestamp).mEmittedShowingSpu ≠ [] → isDue (repair spu timestamp) timestamp →
      s.mEmittedFaddingSpu ≠ []

section Fronts

variable (s : State) (timestamp : ℤ)

@[simp] theorem takeSpu_emptyFronts : (takeSpu s timestamp).emptyFronts = s.emptyFronts := by
  unfold takeSpu
  cases s.mDecodedSpu with
  | nil => rfl
  | cons item rest =>
    unfold limitMemory enqueue
    dsimp only [State.record]
    split_ifs <;> rfl

@[simp] theorem fade_emptyFronts : (fade s timestamp).emptyFronts = s.emptyFronts := by
  unfold fade
  split
  · rfl
  · split_ifs <;> rfl

theorem throwOutOfDate_emptyFronts : (throwOutOfDate s timestamp).emptyFronts = s.emptyFronts +
    if s.mEmittedShowingSpu.dropWhile (isOutOfDate timestamp) = [] then 1 else 0 := by
  unfold throwOutOfDate
  dsimp only
  split <;> rfl

theorem pushFading_emptyFronts (spu : Spu) : (pushFading s spu).emptyFronts =
    s.emptyFronts + if s.mEmittedFaddingSpu = [] then 1 else 0 := by
  unfold pushFading
  cases s.mEmittedFaddingSpu with
  | nil => rfl
  | cons cachedSpu rest => rfl

theorem showSpu_emptyFronts (spu : Spu) : (showSpu s spu timestamp).emptyFronts =
    s.emptyFronts + if s.mEmittedFaddingSpu = [] then 1 else 0 := by
  obtain ⟨act, hpresent⟩ := exists_present (combineNext s spu).1 (combineNext s spu).2
  have hcombine : (combineNext s spu).1.emptyFronts = s.emptyFronts := by
    obtain ⟨_, _, _, -, -, h⟩ | ⟨-, h⟩ := combineNext_cases s spu <;> simp [h]
  rw [showSpu_eq, hpresent, pushFading_emptyFronts, ← hcombine, ← combineNext_fading s spu]
  rfl

theorem thinned_emptyFronts : (thinned s timestamp).emptyFronts =
    s.emptyFronts + if lookedAt s timestamp = [] then 1 else 0 := by
  show (throwOutOfDate _ _).emptyFronts = _
  rw [throwOutOfDate_emptyFronts, takeSpu_emptyFronts]
  rfl

/-- **When a check asks for the front of an empty list.** -/
theorem emptyFronts_checkSpu :
    (checkSpu s timestamp).emptyFronts = s.emptyFronts ↔ FrontsThere s timestamp := by
  obtain ⟨hempty, hcheck⟩ | ⟨hne, hempty, hcheck⟩ | ⟨spu, rest, hqueue, hleft, hcheck⟩ :=
    checkSpu_cases s timestamp
  · have hlook : lookedAt s timestamp = [] := by rw [lookedAt, hempty, List.dropWhile_nil]
    rw [hcheck, fade_emptyFronts, takeSpu_emptyFronts]
    refine iff_of_true rfl ⟨fun hne => absurd hempty hne, fun spu rest hqueue => ?_⟩
    rw [hlook] at hqueue
    exact absurd hqueue (by simp)
  · have hfronts : (checkSpu s timestamp).emptyFronts = _ :=
      (congrArg State.emptyFronts hcheck).trans (thinned_emptyFronts s timestamp)
    rw [hfronts]
    constructor
    · intro h
      refine ⟨fun _ hlook => ?_, fun spu rest _ hleft => absurd hempty hleft⟩
      rw [if_pos hlook] at h
      omega
    · intro h
      rw [if_neg (h.queue hne), Nat.add_zero]
  · have hlook : lookedAt s timestamp = spu :: rest := by
      rw [← hqueue, throwOutOfDate_showing]
      rfl
    have hthin := thinned_emptyFronts s timestamp
    rw [hlook, if_neg (List.cons_ne_nil _ _), Nat.add_zero] at hthin
    rw [hcheck, fade_emptyFronts]
    obtain ⟨hdue, hshow⟩ | ⟨hdue, hwait⟩ :=
      showFront_cases (thinned s timestamp) spu (isFarAhead timestamp spu) timestamp
    · have hfronts : (showFront (thinned s timestamp) spu (isFarAhead timestamp spu)
          timestamp).emptyFronts = s.emptyFronts + if s.mEmittedFaddingSpu = [] then 1 else 0 := by
        rw [hshow, showSpu_emptyFronts, ← hthin, ← thinned_fading s timestamp]
        rfl
      refine ⟨fun h => ⟨fun _ => by rw [hlook]; exact List.cons_ne_nil _ _, ?_⟩, fun h => ?_⟩
      · intro _ _ _ _ _ hnone
        have hsame := hfronts.symm.trans h
        rw [if_pos hnone] at hsame
        omega
      · refine hfronts.trans ?_
        rw [if_neg (h.fading spu rest hlook hleft hdue), Nat.add_zero]
    · have hfronts : (showFront (thinned s timestamp) spu (isFarAhead timestamp spu)
          timestamp).emptyFronts = s.emptyFronts := by
        rw [hwait]
        exact hthin
      refine iff_of_true hfronts ⟨fun _ => by rw [hlook]; exact List.cons_ne_nil _ _, ?_⟩
      intro spu' rest' hlook' _ hdue'
      rw [hlook] at hlook'
      rw [← (List.cons.inj hlook').1] at hdue'
      exact absurd hdue' hdue

theorem frontsThere_setLooper (messages : List Message) :
    FrontsThere { s with mLooper := messages } timestamp ↔ FrontsThere s timestamp := by
  have htake : (takeSpu (State.removeMessages { s with mLooper := messages } .ptsTimeCheckSpu)
      timestamp).mEmittedShowingSpu =
        (takeSpu (s.removeMessages .ptsTimeCheckSpu) timestamp).mEmittedShowingSpu :=
    (takeSpu_setLooper s _ timestamp).trans (takeSpu_setLooper s _ timestamp).symm
  rw [frontsThere_iff, frontsThere_iff, htake]
  simp only [thinned_showing, lookedAt_setLooper]

end Fronts

/-! ## Every run -/

theorem isCheck_deliver {s : State} {k : ℕ} {clock : Clock} {timestamp : ℤ} :
    IsCheck s (.deliver k clock) timestamp ↔
      s.mLooper[k]?.map Message.what = some .ptsTimeCheckSpu ∧
        0 < clock.mCurrentPresentRelativeTime ∧ clock.timestamp = timestamp := by
  refine ⟨?_, fun h => ⟨k, clock, rfl, h⟩⟩
  rintro ⟨k', clock', hevent, h⟩
  cases hevent
  exact h

/-- An event asks for the front of an empty list when it is a check that does. -/
theorem emptyFronts_exec (s : State) (e : Event) :
    (exec s e).emptyFronts = s.emptyFronts ↔
      ∀ timestamp, IsCheck s e timestamp → FrontsThere s timestamp := by
  cases e with
  | addDecodedItem item =>
    refine iff_of_true rfl ?_
    rintro timestamp ⟨k, clock, hevent, -⟩
    exact absurd hevent (by simp)
  | resetForSeek =>
    refine iff_of_true rfl ?_
    rintro timestamp ⟨k, clock, hevent, -⟩
    exact absurd hevent (by simp)
  | deliver k clock =>
    simp only [isCheck_deliver]
    obtain ⟨hnone, hexec⟩ | ⟨m, hm, ⟨hwait, hexec⟩ | ⟨hclock, hexec⟩⟩ :=
      exec_deliver_cases s k clock
    · rw [hexec, hnone]
      exact iff_of_true rfl fun _ h => absurd h.1 (by simp)
    · rw [hexec]
      exact iff_of_true rfl fun _ h => absurd h.2.1 (not_lt.mpr hwait)
    · rw [hexec, hm]
      cases hwhat : m.what with
      | ptsTimeCheckSpu =>
        refine (emptyFronts_checkSpu _ clock.timestamp).trans ?_
        rw [frontsThere_setLooper]
        refine ⟨fun h timestamp hcheck => hcheck.2.2 ▸ h, fun h => h _ ⟨?_, hclock, rfl⟩⟩
        rw [Option.map_some, hwhat]
      | resetMessageQueue =>
        refine iff_of_true rfl fun _ h => absurd h.1 ?_
        rw [Option.map_some, hwhat]
        simp

/-- The front of a list was asked for only when there was one, and an item was used only
while it was there. -/
def ListsSafe (m : Memory Place) : Prop := m.emptyFronts = 0 ∧ m.deletedUses = 0

/-- **Lists and references.**  A run is safe exactly if none of its checks throws the whole
queue away as out of date or shows an item while none is fading.  The references are those to
the items of the presentation in every run, and in none is an item used after it was
deleted. -/
theorem listsSafe_iff (clock : Clock) (es : List Event) :
    ((∀ c, Reached execRefs (start clock, Memory.empty) es c → ListsSafe c.2) ↔
      Meets exec (fun s e => ∀ timestamp, IsCheck s e timestamp → FrontsThere s timestamp)
        (start clock) es) ∧
    ∀ c, Reached execRefs (start clock, Memory.empty) es c →
      Mirrors c.1 c.2 ∧ c.2.deletedUses = 0 := by
  have hstart : Mirrors (start clock) Memory.empty := ⟨rfl, rfl, rfl, rfl, rfl⟩
  have hstep : ∀ c e, Mirrors c.1 c.2 ∧ Sound c.2 →
      Mirrors (execRefs c e).1 (execRefs c e).2 ∧ Sound (execRefs c e).2 :=
    fun c e h => ⟨h.1.exec e, sound_foldl h.2 _⟩
  constructor
  · have hmeets : Meets execRefs
        (fun c e => ∀ timestamp, IsCheck c.1 e timestamp → FrontsThere c.1 timestamp)
          (start clock, Memory.empty) es ↔
        Meets exec (fun s e => ∀ timestamp, IsCheck s e timestamp → FrontsThere s timestamp)
          (start clock) es :=
      meets_map Prod.fst (fun c e => show (execRefs c e).1 = exec c.1 e from rfl)
        (C := fun s e => ∀ timestamp, IsCheck s e timestamp → FrontsThere s timestamp) _ es
    rw [← hmeets]
    refine forall_reached_iff (I := fun c => (Mirrors c.1 c.2 ∧ Sound c.2) ∧ c.1.emptyFronts = 0)
      ?_ ?_ ?_ ⟨⟨hstart, sound_empty⟩, rfl⟩ es
    · exact fun c h => ⟨h.1.1.fronts.trans h.2, h.1.2.uses⟩
    · intro c e h hthere
      exact ⟨hstep c e h.1, ((emptyFronts_exec c.1 e).mpr hthere).trans h.2⟩
    · intro c e h hnot hsafe
      refine hnot ((emptyFronts_exec c.1 e).mp ?_)
      rw [h.2, ← hsafe.1]
      exact (h.1.1.exec e).fronts.symm
  · rintro c ⟨p, -, rfl⟩
    have hinv := invariant (I := fun c : State × Memory Place => Mirrors c.1 c.2 ∧ Sound c.2)
      hstep (s := (start clock, Memory.empty)) ⟨hstart, sound_empty⟩ p
    exact ⟨hinv.1, hinv.2.uses⟩

/-- The first item of a run is shown with the front of an empty list. -/
theorem not_listsSafe_first : ¬ ∀ clock es c,
    Reached execRefs (start clock, Memory.empty) es c → ListsSafe c.2 := by
  intro h
  have hsafe := h (seconds 1) [.addDecodedItem (textItem 900000 false), .deliver 0 (seconds 10)] _
    (reached_last _ _)
  exact absurd hsafe.1 (by decide)

end Presentation
end AmlSubtitle
