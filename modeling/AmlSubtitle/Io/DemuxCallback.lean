import AmlSubtitle.Io.DemuxFilterTable

/-!
# The callbacks of the demux filters

`dmx_data_thread` of `io/DemuxDriver.c` beside the calls of other threads, on one device that
stays open.

* A call holds the device's lock from its look at the handle to its end, and so does the
  thread while it copies a filter's callback and reads its data.  The thread calls the
  callback outside the lock: `DMX_WAIT_CB` is not defined, and `dmx_wait_cb` waits for nothing.
* The steps of the thread are those of its loop: the poll, the look at a filter without the
  lock, the copy under the lock, the call and its return.  What the poll and the reads give is
  the `Answer`.
* `frees` and `registered` are history that the code does not have: how often each filter was
  freed, and how often it had been when its callback was set.
* `LateCallback s`: the thread is about to call a callback with the user data of a filter that
  was freed since they were set.
* `not_lateCallback_iff`: no run comes to such a state exactly when no filter is freed between
  the copy of its callback and the call, and no callback is copied that was set before the
  filter was freed and allocated again.
-/

namespace AmlSubtitle
namespace DemuxDriver

open Run

/-! ## The data thread -/

/-- Where the data thread is in its loop; `ids` are the filters of the mask that it has not
looked at. -/
inductive DataThread where
  | polling
  | scanning (ids : List (Fin DEMUX_FILTER_COUNT))
  | checked (id : Fin DEMUX_FILTER_COUNT) (ids : List (Fin DEMUX_FILTER_COUNT))
  | copied (id : Fin DEMUX_FILTER_COUNT) (cb : Option ℕ) (data : ℕ) (owner : ℕ)
    (ids : List (Fin DEMUX_FILTER_COUNT))
  | running (id : Fin DEMUX_FILTER_COUNT) (ids : List (Fin DEMUX_FILTER_COUNT))
  deriving DecidableEq, Repr

/-- What `drv->read` comes to. -/
inductive Read where
  | success
  | timeout
  | failure
  deriving DecidableEq, Repr

/-- What the driver gives the thread in a step: the filters that the poll found, or none if it
failed, and what a read comes to. -/
structure Answer where
  mask : Fin DEMUX_FILTER_COUNT → Bool
  read : Read

/-- A device with its data thread. -/
structure State where
  dev : Device
  thread : DataThread
  frees : Fin DEMUX_FILTER_COUNT → ℕ
  registered : Fin DEMUX_FILTER_COUNT → ℕ

/-- A device that was opened. -/
def State.opened : State where
  dev := ⟨fun _ => Filter.zero, 1⟩
  thread := .polling
  frees := fun _ => 0
  registered := fun _ => 0

/-- A step of `dmx_data_thread`. -/
def threadStep (s : State) (answer : Answer) : State :=
  match s.thread with
  | .polling =>
    match (List.finRange DEMUX_FILTER_COUNT).filter answer.mask with
    | [] => s
    | ids => { s with thread := .scanning ids }
  | .scanning [] => { s with thread := .polling }
  | .scanning (id :: ids) =>
    let filter := s.dev.filters id
    if !filter.enable || !filter.used then { s with thread := .scanning ids }
    else { s with thread := .checked id ids }
  | .checked id ids =>
    let filter := s.dev.filters id
    if !filter.enable || !filter.used then { s with thread := .scanning ids }
    else
      match answer.read with
      | .failure => { s with thread := .scanning ids }
      | .success | .timeout =>
        { s with thread := .copied id filter.cb filter.userData (s.registered id) ids }
  | .copied _ none _ _ ids => { s with thread := .scanning ids }
  | .copied id (some _) _ _ ids => { s with thread := .running id ids }
  | .running _ ids => { s with thread := .scanning ids }

/-! ## Calls of other threads -/

/-- The filters that were freed between two states of the device, counted. -/
def countFrees (frees : Fin DEMUX_FILTER_COUNT → ℕ) (dev dev' : Device) :
    Fin DEMUX_FILTER_COUNT → ℕ :=
  fun i => if (dev.filters i).used && !(dev'.filters i).used then frees i + 1 else frees i

/-- The callback that a call sets, with how often its filter had been freed. -/
def register (s : State) : FilterCall → Fin DEMUX_FILTER_COUNT → ℕ
  | .setCallback fhandle _ _ =>
    match dmxGetUsedFilter s.dev fhandle with
    | .ok i => Function.update s.registered i (s.frees i)
    | .error _ => s.registered
  | _ => s.registered

/-- What happens: a call of another thread, or a step of the data thread. -/
inductive Event where
  | call (call : FilterCall) (sys : Sys)
  | thread (answer : Answer)

/-- A step of the process; a read through a null pointer ends it. -/
def stepThread (s : Option State) (e : Event) : Option State :=
  s.bind fun s =>
    match e with
    | .call call sys =>
      match execFilter sys s.dev call with
      | (.segfault, _) => none
      | (_, dev) => some
        { s with
          dev := dev
          frees := countFrees s.frees s.dev dev
          registered := register s call }
    | .thread answer => some (threadStep s answer)

/-! ## Late callbacks -/

/-- **The thread is about to call a callback whose filter was freed since it was set.** -/
def LateCallback (s : State) : Prop :=
  ∃ id cb data owner ids, s.thread = .copied id (some cb) data owner ids ∧ owner ≠ s.frees id

/-- The next step of the thread is the call. -/
theorem running_of_lateCallback {s : State} (h : LateCallback s) (answer : Answer) :
    ∃ id ids, (threadStep s answer).thread = .running id ids := by
  obtain ⟨id, cb, data, owner, ids, hthread, -⟩ := h
  refine ⟨id, ids, ?_⟩
  rw [threadStep.eq_def, hthread]

/-- The call frees the filter: it has its handle, and the filter is stopped if it is
enabled. -/
def Frees (sys : Sys) (dev : Device) (i : Fin DEMUX_FILTER_COUNT) (call : FilterCall) : Prop :=
  ∃ fhandle, call = .freeFilter fhandle ∧ dmxGetUsedFilter dev fhandle = .ok i ∧
    ((dev.filters i).enable = true → sys.ioctl .DMX_STOP i = true)

/-- The thread copies the callback of the filter in this step. -/
def Copies (s : State) (answer : Answer) (id : Fin DEMUX_FILTER_COUNT) : Prop :=
  (∃ ids, s.thread = .checked id ids) ∧ (s.dev.filters id).enable = true ∧
    (s.dev.filters id).used = true ∧ answer.read ≠ .failure ∧ (s.dev.filters id).cb ≠ none

/-- No filter is freed whose callback the thread is about to call, and no callback is copied
that was set before its filter was freed. -/
def IsOrderly (s : State) : Event → Prop
  | .call call sys => ∀ id cb data owner ids, s.thread = .copied id (some cb) data owner ids →
      ¬ Frees sys s.dev id call
  | .thread answer => ∀ id, Copies s answer id → s.registered id = s.frees id

/-! ## What the steps do -/

section Calls

variable {sys : Sys} {dev : Device} {i j : Fin DEMUX_FILTER_COUNT}

theorem used_set_of_eq {filter : Filter} (h : filter.used = (dev.filters j).used) :
    ((dev.set j filter).filters i).used = (dev.filters i).used := by
  show (Function.update dev.filters j filter i).used = _
  by_cases hi : i = j
  · subst hi
    rw [Function.update_self, h]
  · rw [Function.update_of_ne hi]

/-- A call that frees nothing. -/
theorem used_execFilter_of_ne {call : FilterCall} (h : ∀ i, (dev.filters i).Sound)
    (hcall : ∀ fhandle, call ≠ .freeFilter fhandle) (hused : (dev.filters i).used = true) :
    ((execFilter sys dev call).2.filters i).used = true := by
  have hset : ∀ (set : Fin DEMUX_FILTER_COUNT → ℤ) (fhandle : ℤ),
      ((setFilter set sys dev fhandle).2.filters i).used = true := by
    intro set fhandle
    rw [setFilter]
    split
    · exact hused
    · next j _ =>
      refine (used_set_of_eq ?_).trans hused
      rw [dmxStopFilter_snd sys j (h j)]
  cases call with
  | allocateFilter =>
    rw [execFilter, allocateFilter]
    split
    · exact hused
    · next fid hfind =>
      have hfree : (dev.filters fid).used = false := by
        have hfound := List.find?_some hfind
        rwa [Bool.not_eq_true'] at hfound
      have hne : i ≠ fid := fun heq => absurd (hfree.symm.trans (heq ▸ hused)) Bool.false_ne_true
      have hother : ∀ filter, ((dev.set fid filter).filters i).used = true := fun filter => by
        show (Function.update dev.filters fid filter i).used = true
        rw [Function.update_of_ne hne, hused]
      dsimp only
      split_ifs <;> exact hother _
  | setSecFilter fhandle => exact hset _ fhandle
  | setPesFilter fhandle => exact hset _ fhandle
  | freeFilter fhandle => exact absurd rfl (hcall fhandle)
  | startFilter fhandle =>
    rw [execFilter, startFilter]
    split
    · exact hused
    · dsimp only
      split_ifs
      · refine (used_set_of_eq ?_).trans hused
        rfl
      · exact hused
      · exact hused
  | stopFilter fhandle =>
    rw [execFilter, stopFilter]
    split
    · exact hused
    · next j _ =>
      split_ifs
      · refine (used_set_of_eq ?_).trans hused
        rw [dmxStopFilter_snd sys j (h j)]
      · exact hused
  | setBufferSize fhandle =>
    rw [execFilter, setBufferSize]
    split <;> exact hused
  | getCallback fhandle =>
    rw [execFilter, getCallback]
    split <;> exact hused
  | setCallback fhandle cb data =>
    rw [execFilter, setCallback]
    split
    · exact hused
    · refine (used_set_of_eq ?_).trans hused
      rfl

/-- **A filter is freed by `DemuxFreeFilter` with its handle, if it can be stopped.** -/
theorem used_execFilter (h : ∀ i, (dev.filters i).Sound) (hused : (dev.filters i).used = true)
    (call : FilterCall) :
    ((execFilter sys dev call).2.filters i).used = false ↔ Frees sys dev i call := by
  by_cases hcall : ∃ fhandle, call = .freeFilter fhandle
  · obtain ⟨fhandle, rfl⟩ := hcall
    rw [execFilter, freeFilter]
    cases hget : dmxGetUsedFilter dev fhandle with
    | error ret =>
      refine iff_of_false (fun hf => absurd (hused.symm.trans hf) (by decide)) ?_
      rintro ⟨fhandle', heq, hok, -⟩
      obtain rfl : fhandle = fhandle' := FilterCall.freeFilter.inj heq
      cases hget.symm.trans hok
    | ok j =>
      show (Function.update dev.filters j (dmxFreeFilter sys j (dev.filters j)).2 i).used
        = false ↔ _
      by_cases hij : i = j
      · subst hij
        rw [Function.update_self, used_dmxFreeFilter sys i (h i)]
        refine ⟨fun hstop => ⟨fhandle, rfl, hget, hstop⟩, ?_⟩
        rintro ⟨fhandle', -, -, hstop⟩
        exact hstop
      · rw [Function.update_of_ne hij]
        refine iff_of_false (fun hf => absurd (hused.symm.trans hf) (by decide)) ?_
        rintro ⟨fhandle', heq, hok, -⟩
        obtain rfl : fhandle = fhandle' := FilterCall.freeFilter.inj heq
        exact hij (Except.ok.inj (hget.symm.trans hok)).symm
  · have hne : ∀ fhandle, call ≠ .freeFilter fhandle := fun fhandle heq => hcall ⟨fhandle, heq⟩
    rw [used_execFilter_of_ne h hne hused]
    refine iff_of_false (by decide) ?_
    rintro ⟨fhandle, heq, -⟩
    exact hne fhandle heq

end Calls

section Steps

variable {s : State}

/-- **A call makes a callback late exactly when it frees its filter.** -/
theorem lateCallback_call_iff (hsound : ∀ i, (s.dev.filters i).Sound) (h : ¬ LateCallback s)
    (sys : Sys) (call : FilterCall) (registered : Fin DEMUX_FILTER_COUNT → ℕ) :
    LateCallback ⟨(execFilter sys s.dev call).2, s.thread,
      countFrees s.frees s.dev (execFilter sys s.dev call).2, registered⟩ ↔
      ∃ id cb data owner ids, s.thread = .copied id (some cb) data owner ids ∧
        Frees sys s.dev id call := by
  refine exists_congr fun id => exists_congr fun cb => exists_congr fun data =>
    exists_congr fun owner => exists_congr fun ids => and_congr_right fun hthread => ?_
  have howner : owner = s.frees id := by
    by_contra hne
    exact h ⟨id, cb, data, owner, ids, hthread, hne⟩
  show owner ≠ countFrees s.frees s.dev (execFilter sys s.dev call).2 id ↔ _
  rw [countFrees, howner]
  cases hused : (s.dev.filters id).used with
  | false =>
    refine iff_of_false (fun hne => hne rfl) ?_
    rintro ⟨fhandle, -, hok, -⟩
    exact absurd (hused.symm.trans (used_of_ok hok)) Bool.false_ne_true
  | true =>
    rw [← used_execFilter hsound hused call, Bool.true_and]
    cases ((execFilter sys s.dev call).2.filters id).used with
    | false => exact iff_of_true (Nat.ne_of_lt (Nat.lt_succ_self _)) rfl
    | true => exact iff_of_false (fun hne => hne rfl) (by decide)

/-- The thread has no copy of a callback. -/
def DataThread.HasNoCopy (thread : DataThread) : Prop :=
  ∀ id cb data owner ids, thread ≠ .copied id (some cb) data owner ids

theorem not_lateCallback_of_hasNoCopy {t : State} (h : t.thread.HasNoCopy) : ¬ LateCallback t := by
  rintro ⟨id, cb, data, owner, ids, hthread, -⟩
  exact h id cb data owner ids hthread

/-- The thread copies nothing but the callback of the filter that it has checked. -/
theorem hasNoCopy_threadStep (answer : Answer) (h : ∀ id ids, s.thread ≠ .checked id ids) :
    (threadStep s answer).thread.HasNoCopy := by
  obtain ⟨dev, thread, frees, registered⟩ := s
  rw [threadStep.eq_def]
  cases thread with
  | polling =>
    dsimp only
    split <;> exact nofun
  | scanning ids =>
    cases ids with
    | nil => exact nofun
    | cons id ids =>
      dsimp only
      split_ifs <;> exact nofun
  | checked id ids => exact absurd rfl (h id ids)
  | copied id cb data owner ids => cases cb <;> exact nofun
  | running id ids => exact nofun

/-- **A step of the thread makes a callback late exactly when it copies one that was set before
its filter was freed.** -/
theorem lateCallback_thread_iff (answer : Answer) :
    LateCallback (threadStep s answer) ↔
      ∃ id, Copies s answer id ∧ s.registered id ≠ s.frees id := by
  by_cases hchecked : ∃ id ids, s.thread = .checked id ids
  · obtain ⟨id, ids, hthread⟩ := hchecked
    have hcopies : ∀ id', Copies s answer id' ↔ id' = id ∧ (s.dev.filters id).enable = true ∧
        (s.dev.filters id).used = true ∧ answer.read ≠ .failure ∧ (s.dev.filters id).cb ≠ none := by
      intro id'
      constructor
      · rintro ⟨⟨ids', hids'⟩, hcopies⟩
        obtain ⟨rfl, -⟩ := DataThread.checked.inj (hids'.symm.trans hthread)
        exact ⟨rfl, hcopies⟩
      · rintro ⟨rfl, hcopies⟩
        exact ⟨⟨ids, hthread⟩, hcopies⟩
    have hexists : (∃ id', Copies s answer id' ∧ s.registered id' ≠ s.frees id') ↔
        ((s.dev.filters id).enable = true ∧ (s.dev.filters id).used = true ∧
          answer.read ≠ .failure ∧ (s.dev.filters id).cb ≠ none) ∧
          s.registered id ≠ s.frees id := by
      constructor
      · rintro ⟨id', hid', hne⟩
        obtain ⟨rfl, hcopies'⟩ := (hcopies id').mp hid'
        exact ⟨hcopies', hne⟩
      · rintro ⟨hcopies', hne⟩
        exact ⟨id, (hcopies id).mpr ⟨rfl, hcopies'⟩, hne⟩
    rw [hexists, threadStep.eq_def, hthread]
    dsimp only
    cases henable : (s.dev.filters id).enable with
    | false => exact iff_of_false (not_lateCallback_of_hasNoCopy nofun) fun h => nomatch h.1.1
    | true =>
      cases hused : (s.dev.filters id).used with
      | false => exact iff_of_false (not_lateCallback_of_hasNoCopy nofun) fun h => nomatch h.1.2.1
      | true =>
        cases hcb : (s.dev.filters id).cb with
        | none =>
          refine iff_of_false ?_ fun h => h.1.2.2.2 rfl
          cases answer.read <;> exact not_lateCallback_of_hasNoCopy nofun
        | some cb =>
          have hlate : ∀ data, LateCallback { s with
                thread := .copied id (some cb) data (s.registered id) ids } ↔
              s.registered id ≠ s.frees id := by
            intro data
            constructor
            · rintro ⟨id', cb', data', owner', ids', heq, hne⟩
              obtain ⟨rfl, -, -, rfl, -⟩ := DataThread.copied.inj heq
              exact hne
            · intro hne
              exact ⟨id, cb, data, s.registered id, ids, rfl, hne⟩
          cases hread : answer.read with
          | failure =>
            exact iff_of_false (not_lateCallback_of_hasNoCopy nofun) fun h => h.1.2.2.1 rfl
          | success =>
            exact (hlate _).trans ⟨fun h => ⟨⟨rfl, rfl, nofun, nofun⟩, h⟩, fun h => h.2⟩
          | timeout =>
            exact (hlate _).trans ⟨fun h => ⟨⟨rfl, rfl, nofun, nofun⟩, h⟩, fun h => h.2⟩
  · have hne : ∀ id ids, s.thread ≠ .checked id ids := fun id ids h => hchecked ⟨id, ids, h⟩
    refine iff_of_false (not_lateCallback_of_hasNoCopy (hasNoCopy_threadStep answer hne)) ?_
    rintro ⟨id, ⟨⟨ids, hids⟩, -⟩, -⟩
    exact hne id ids hids

end Steps

/-! ## Runs -/

/-- The process is gone, or its filters are sound and no callback is late. -/
def Punctual (s : Option State) : Prop :=
  ∀ t, s = some t → (∀ i, (t.dev.filters i).Sound) ∧ ¬ LateCallback t

theorem threadStep_dev (s : State) (answer : Answer) : (threadStep s answer).dev = s.dev := by
  obtain ⟨dev, thread, frees, registered⟩ := s
  rw [threadStep.eq_def]
  cases thread with
  | polling =>
    dsimp only
    split <;> rfl
  | scanning ids =>
    cases ids with
    | nil => rfl
    | cons id ids =>
      dsimp only
      split_ifs <;> rfl
  | checked id ids =>
    dsimp only
    split_ifs
    · rfl
    · cases answer.read <;> rfl
  | copied id cb data owner ids => cases cb <;> rfl
  | running id ids => rfl

/-- **A step keeps the callbacks punctual exactly when it is orderly.** -/
theorem punctual_step_iff {s : State} (hsound : ∀ i, (s.dev.filters i).Sound)
    (h : ¬ LateCallback s) (e : Event) :
    (∀ t, stepThread (some s) e = some t → ¬ LateCallback t) ↔ IsOrderly s e := by
  cases e with
  | call call sys =>
    have hlate := lateCallback_call_iff hsound h sys call (register s call)
    have horderly : IsOrderly s (.call call sys) ↔ ¬ ∃ id cb data owner ids,
        s.thread = .copied id (some cb) data owner ids ∧ Frees sys s.dev id call := by
      simp only [IsOrderly, not_exists, not_and]
    rw [horderly, ← hlate]
    by_cases hsegfault : (execFilter sys s.dev call).1 = .segfault
    · have hstep : stepThread (some s) (.call call sys) = none := by
        rw [stepThread, Option.bind_some]
        dsimp only
        rw [← Prod.eta (execFilter sys s.dev call), hsegfault]
      rw [hstep, hlate]
      refine iff_of_true nofun ?_
      rintro ⟨id, cb, data, owner, ids, -, fhandle, rfl, -⟩
      exact execFilter_ne_segfault sys (fun _ heq => FilterCall.noConfusion heq) hsegfault
    · have hstep : stepThread (some s) (.call call sys) = some
          ⟨(execFilter sys s.dev call).2, s.thread,
            countFrees s.frees s.dev (execFilter sys s.dev call).2, register s call⟩ := by
        rw [stepThread, Option.bind_some]
        dsimp only
        split
        · next heq => exact absurd (congrArg Prod.fst heq) hsegfault
        · next heq =>
          rw [heq]
      rw [hstep]
      exact ⟨fun hall => hall _ rfl, fun hnot t ht => Option.some.inj ht ▸ hnot⟩
  | thread answer =>
    have horderly : IsOrderly s (.thread answer) ↔ ¬ LateCallback (threadStep s answer) := by
      rw [lateCallback_thread_iff]
      simp only [IsOrderly, not_exists, not_and, not_not]
    rw [horderly]
    exact ⟨fun hall => hall _ rfl, fun hnot t ht => Option.some.inj ht ▸ hnot⟩

theorem sound_stepThread {s t : State} (hsound : ∀ i, (s.dev.filters i).Sound) {e : Event}
    (h : stepThread (some s) e = some t) : ∀ i, (t.dev.filters i).Sound := by
  cases e with
  | call call sys =>
    rw [stepThread, Option.bind_some] at h
    dsimp only at h
    split at h
    · exact absurd h.symm (Option.some_ne_none _)
    · next dev _ heq =>
      obtain rfl := Option.some.inj h
      have hexec := sound_execFilter sys hsound call
      rw [heq] at hexec
      exact hexec
  | thread answer =>
    obtain rfl : threadStep s answer = t := Option.some.inj h
    rw [threadStep_dev]
    exact hsound

/-- **No run comes to a late callback exactly when each of its steps is orderly**: no filter is
freed between the copy of its callback and the call, and no callback is copied that was set
before its filter was freed. -/
theorem not_lateCallback_iff (es : List Event) :
    (∀ s, Reached stepThread (some State.opened) es (some s) → ¬ LateCallback s) ↔
      Meets stepThread (fun s e => ∀ t, s = some t → IsOrderly t e) (some State.opened) es := by
  have hruns : (∀ s, Reached stepThread (some State.opened) es s →
      ∀ t, s = some t → ¬ LateCallback t) ↔
      Meets stepThread (fun s e => ∀ t, s = some t → IsOrderly t e) (some State.opened) es := by
    refine forall_reached_iff (I := Punctual) (fun s h t ht => (h t ht).2) ?_ ?_ ?_ es
    · intro s e hpunctual horderly t ht
      cases s with
      | none => exact absurd ht.symm (Option.some_ne_none _)
      | some s =>
        obtain ⟨hsound, hlate⟩ := hpunctual s rfl
        exact ⟨sound_stepThread hsound ht,
          (punctual_step_iff hsound hlate e).mpr (horderly s rfl) t ht⟩
    · intro s e hpunctual hdisorderly hall
      cases s with
      | none => exact hdisorderly nofun
      | some s =>
        obtain ⟨hsound, hlate⟩ := hpunctual s rfl
        refine hdisorderly fun t ht => ?_
        obtain rfl := Option.some.inj ht
        exact (punctual_step_iff hsound hlate e).mp hall
    · intro t ht
      obtain rfl := Option.some.inj ht
      exact ⟨fun _ => Filter.sound_zero, not_lateCallback_of_hasNoCopy nofun⟩
  rw [← hruns]
  exact ⟨fun h s hs t ht => h t (ht ▸ hs), fun h t ht => h (some t) ht t rfl⟩

/-- The thread finds the first filter, and its read succeeds. -/
def firstFilter : Answer := ⟨fun i => i.val = 0, .success⟩

/-- A filter is freed while the thread has a copy of its callback. -/
def freeBeforeCall : List Event :=
  [.call .allocateFilter Sys.ok, .call (.setCallback 0 (some 7) 42) Sys.ok,
    .call (.startFilter 0) Sys.ok, .thread firstFilter, .thread firstFilter, .thread firstFilter,
    .call (.freeFilter 0) Sys.ok]

/-- **The thread calls the callback of a filter that was freed.** -/
theorem exists_lateCallback :
    ¬ ∀ s, Reached stepThread (some State.opened) freeBeforeCall (some s) → ¬ LateCallback s := by
  intro h
  have hlate : ∃ s, freeBeforeCall.foldl stepThread (some State.opened) = some s ∧
      LateCallback s := ⟨_, rfl, ⟨0, by decide⟩, 7, 42, 0, [], rfl, by decide⟩
  obtain ⟨s, hs, hlate⟩ := hlate
  exact h s (hs ▸ reached_last _ _) hlate

end DemuxDriver
end AmlSubtitle
