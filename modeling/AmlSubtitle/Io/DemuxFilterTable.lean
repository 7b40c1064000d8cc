import AmlSubtitle.Io.DemuxDriver

/-!
# The laws of the table of demux filters

What the calls of the demux driver keep true of the table, over every run of calls with any
handles and any answers of the system.

* `Sound devs`: a filter that is enabled is allocated, and a device that is closed has no
  filter allocated.
* `HandleLaw devs e`: a call with a handle that no filter is allocated at returns an error and
  leaves the table as it is.
* `lawful_iff`: a run keeps these laws exactly when it starts no filter that is not allocated,
  and each last close of a device can stop the filters that are enabled.  `DemuxStartFilter`
  looks at a filter that it did not find, and a filter that cannot be stopped stays
  allocated.
-/

namespace AmlSubtitle
namespace DemuxDriver

open Run

/-! ## The laws -/

/-- An enabled filter is allocated. -/
def Filter.Sound (filter : Filter) : Prop := filter.enable = true → filter.used = true

/-- **What the table keeps true.** -/
structure Sound (devs : Devices) : Prop where
  filter : ∀ d i, ((devs d).filters i).Sound
  closed : ∀ d, (devs d).openCount = 0 → ∀ i, ((devs d).filters i).used = false

/-- The handle of a call. -/
def FilterCall.fhandle : FilterCall → Option ℤ
  | .setSecFilter fhandle | .setPesFilter fhandle | .freeFilter fhandle | .startFilter fhandle
  | .stopFilter fhandle | .setBufferSize fhandle | .getCallback fhandle
  | .setCallback fhandle _ _ => some fhandle
  | .allocateFilter => none

/-- A filter is allocated at the handle. -/
def Allocated (dev : Device) (fhandle : ℤ) : Prop :=
  ∃ i, dmxGetUsedFilter dev fhandle = .ok i

/-- The device is open and has a filter allocated at the handle. -/
def AllocatedAt (devs : Devices) (devNo fhandle : ℤ) : Prop :=
  ∃ d, dmxGetOpenedDev devs devNo = some d ∧ Allocated (devs d) fhandle

/-- The call returns an error and leaves the table as it is. -/
def Refuses (devs : Devices) (e : Call × Sys) : Prop :=
  ∃ ret, ret ≠ AM_SUCCESS ∧ exec e.2 devs e.1 = (.returns ret, devs)

/-- A call with a handle that no filter is allocated at is refused. -/
def HandleLaw (s : Option Devices) (e : Call × Sys) : Prop :=
  ∀ devs, s = some devs → ∀ devNo call fhandle, e.1 = .filter devNo call →
    call.fhandle = some fhandle → ¬ AllocatedAt devs devNo fhandle → Refuses devs e

/-- **The run keeps the laws**: it reads through no null pointer, the table is sound in every
state, and no handle is taken that is not a filter's. -/
structure Lawful (es : List (Call × Sys)) : Prop where
  sound : ∀ t, Reached step (some Devices.zero) es t → ∃ devs, t = some devs ∧ Sound devs
  handle : Meets step HandleLaw (some Devices.zero) es

/-- A filter that is started is allocated. -/
def FilterCall.IsCareful (dev : Device) : FilterCall → Prop
  | .startFilter fhandle => Allocated dev fhandle
  | _ => True

/-- The last close of a device can stop the filters that are enabled. -/
def ClosesAll (sys : Sys) (dev : Device) : Prop :=
  dev.openCount = 1 → ∀ i, (dev.filters i).enable = true → sys.ioctl .DMX_STOP i = true

/-- The call on an open device is careful. -/
def Call.IsCareful (sys : Sys) (devs : Devices) : Call → Prop
  | .open _ => True
  | .close devNo => ∀ d, dmxGetOpenedDev devs devNo = some d → ClosesAll sys (devs d)
  | .filter devNo call => ∀ d, dmxGetOpenedDev devs devNo = some d → call.IsCareful (devs d)

/-- The call is careful. -/
def IsCareful (s : Option Devices) (e : Call × Sys) : Prop :=
  ∀ devs, s = some devs → e.1.IsCareful e.2 devs

/-! ## Filters -/

theorem Filter.sound_zero : Filter.zero.Sound := fun h => absurd h Bool.false_ne_true

theorem Filter.sound_of_enable_eq {filter : Filter} (h : filter.enable = false) : filter.Sound :=
  fun he => absurd (h.symm.trans he) Bool.false_ne_true

/-- `dmx_stop_filter` disables the filter, whatever the `ioctl` says: its errors are
positive. -/
theorem dmxStopFilter_snd (sys : Sys) (i : Fin DEMUX_FILTER_COUNT) {filter : Filter}
    (h : filter.Sound) : (dmxStopFilter sys i filter).2 = { filter with enable := false } := by
  rw [dmxStopFilter]
  split_ifs with hidle
  · have henable : filter.enable = false := by
      rw [Bool.or_eq_true, Bool.not_eq_true', Bool.not_eq_true'] at hidle
      rcases hidle with hused | henable
      · exact (Bool.not_eq_true _).mp fun he => absurd (hused.symm.trans (h he)) Bool.false_ne_true
      · exact henable
    obtain ⟨drvData, used, enable, id, cb, userData⟩ := filter
    obtain rfl : enable = false := henable
    rfl
  · have hret : dvbEnableFilter sys i false ≥ 0 := by
      rw [dvbEnableFilter, dvbIoctl]
      split_ifs <;> decide
    exact if_pos hret

theorem dmxStopFilter_fst (sys : Sys) (i : Fin DEMUX_FILTER_COUNT) {filter : Filter}
    (hused : filter.used = true) : (dmxStopFilter sys i filter).1 = AM_SUCCESS ↔
      (filter.enable = true → sys.ioctl .DMX_STOP i = true) := by
  rw [dmxStopFilter, hused]
  cases filter.enable with
  | false => exact ⟨fun _ h => absurd h Bool.false_ne_true, fun _ => rfl⟩
  | true =>
    show dvbIoctl sys .DMX_STOP i = AM_SUCCESS ↔ _
    rw [dvbIoctl]
    cases sys.ioctl .DMX_STOP i with
    | true => exact ⟨fun _ _ => rfl, fun _ => rfl⟩
    | false => exact ⟨fun h => absurd h (by decide), fun h => absurd (h rfl) Bool.false_ne_true⟩

/-- **`dmx_free_filter` frees a filter unless it cannot stop it.** -/
theorem used_dmxFreeFilter (sys : Sys) (i : Fin DEMUX_FILTER_COUNT) {filter : Filter}
    (h : filter.Sound) : (dmxFreeFilter sys i filter).2.used = false ↔
      (filter.enable = true → sys.ioctl .DMX_STOP i = true) := by
  rw [dmxFreeFilter]
  cases hused : filter.used with
  | false =>
    refine ⟨fun _ he => ?_, fun _ => hused⟩
    exact absurd (hused.symm.trans (h he)) Bool.false_ne_true
  | true =>
    rw [← dmxStopFilter_fst sys i hused]
    have hsnd := dmxStopFilter_snd sys i h
    rcases hstop : dmxStopFilter sys i filter with ⟨ret, filter'⟩
    rw [hstop] at hsnd
    obtain rfl : filter' = { filter with enable := false } := hsnd
    show (if (if ret = AM_SUCCESS then dvbFreeFilter else ret) = AM_SUCCESS then _ else _ :
      Filter).used = false ↔ ret = AM_SUCCESS
    by_cases hret : ret = AM_SUCCESS
    · rw [if_pos hret, if_pos (show dvbFreeFilter = AM_SUCCESS from rfl)]
      exact ⟨fun _ => hret, fun _ => rfl⟩
    · rw [if_neg hret, if_neg hret]
      exact ⟨fun hf => absurd (hused.symm.trans hf) (by decide), fun hs => absurd hs hret⟩

theorem enable_dmxFreeFilter (sys : Sys) (i : Fin DEMUX_FILTER_COUNT) {filter : Filter}
    (h : filter.Sound) : (dmxFreeFilter sys i filter).2.enable = false := by
  rw [dmxFreeFilter]
  split_ifs with hused
  · exact (Bool.not_eq_true _).mp fun he =>
      absurd (h he) (by rw [Bool.not_eq_true'] at hused; rw [hused]; decide)
  · have hsnd := dmxStopFilter_snd sys i h
    rcases hstop : dmxStopFilter sys i filter with ⟨ret, filter'⟩
    rw [hstop] at hsnd
    obtain rfl : filter' = { filter with enable := false } := hsnd
    dsimp only
    split_ifs <;> rfl

/-! ## Calls on a device -/

section Device

variable (sys : Sys) {dev : Device} {fhandle : ℤ} {i : Fin DEMUX_FILTER_COUNT}

theorem used_of_ok (h : dmxGetUsedFilter dev fhandle = .ok i) : (dev.filters i).used = true := by
  rw [dmxGetUsedFilter] at h
  dsimp only at h
  split_ifs at h with hrange hused
  obtain rfl := Except.ok.inj h
  exact hused

theorem ne_success_of_error {ret : ℤ} (h : dmxGetUsedFilter dev fhandle = .error ret) :
    ret ≠ AM_SUCCESS := by
  rw [dmxGetUsedFilter] at h
  dsimp only at h
  split_ifs at h
  · exact Except.error.inj h ▸ by decide
  · exact Except.error.inj h ▸ by decide

theorem sound_set (h : ∀ i, (dev.filters i).Sound) {filter : Filter} (hfilter : filter.Sound) :
    ∀ j, ((dev.set i filter).filters j).Sound := by
  intro j
  show (Function.update dev.filters i filter j).Sound
  by_cases hj : j = i
  · subst hj
    rw [Function.update_self]
    exact hfilter
  · rw [Function.update_of_ne hj]
    exact h j

theorem dvbAllocFilter_snd (filter : Filter) :
    (dvbAllocFilter sys filter).2.enable = filter.enable ∧
      (dvbAllocFilter sys filter).2.used = filter.used := by
  rw [dvbAllocFilter]
  split_ifs <;> exact ⟨rfl, rfl⟩

/-- A filter is written that is sound, or nothing. -/
def Writes (dev dev' : Device) : Prop :=
  dev' = dev ∨ ∃ i filter, filter.Sound ∧ dev' = dev.set i filter

theorem writes_setFilter (h : ∀ i, (dev.filters i).Sound) (set : Fin DEMUX_FILTER_COUNT → ℤ) :
    Writes dev (setFilter set sys dev fhandle).2 := by
  rw [setFilter]
  split
  · exact Or.inl rfl
  · next i _ =>
    refine Or.inr ⟨i, _, Filter.sound_of_enable_eq ?_, rfl⟩
    rw [dmxStopFilter_snd sys i (h i)]

/-- **A call writes at most one filter**, and enables none that is not allocated. -/
theorem writes_execFilter (h : ∀ i, (dev.filters i).Sound) (call : FilterCall) :
    Writes dev (execFilter sys dev call).2 := by
  cases call with
  | allocateFilter =>
    rw [execFilter, allocateFilter]
    split
    · exact Or.inl rfl
    · next fid _ =>
      have halloc := dvbAllocFilter_snd sys { dev.filters fid with id := fid }
      dsimp only
      split_ifs
      · exact Or.inr ⟨fid, _, fun _ => rfl, rfl⟩
      · refine Or.inr ⟨fid, _, fun henable => ?_, rfl⟩
        rw [halloc.2]
        exact h fid (halloc.1.symm.trans henable)
  | setSecFilter fhandle => exact writes_setFilter sys h _
  | setPesFilter fhandle => exact writes_setFilter sys h _
  | freeFilter fhandle =>
    rw [execFilter, freeFilter]
    split
    · exact Or.inl rfl
    · next i _ =>
      exact Or.inr ⟨i, _, Filter.sound_of_enable_eq (enable_dmxFreeFilter sys i (h i)), rfl⟩
  | startFilter fhandle =>
    rw [execFilter, startFilter]
    split
    · exact Or.inl rfl
    · next i hused =>
      dsimp only
      split_ifs
      · exact Or.inr ⟨i, { dev.filters i with enable := true }, fun _ => used_of_ok hused, rfl⟩
      · exact Or.inl rfl
      · exact Or.inl rfl
  | stopFilter fhandle =>
    rw [execFilter, stopFilter]
    split
    · exact Or.inl rfl
    · next i _ =>
      split_ifs
      · refine Or.inr ⟨i, _, Filter.sound_of_enable_eq ?_, rfl⟩
        rw [dmxStopFilter_snd sys i (h i)]
      · exact Or.inl rfl
  | setBufferSize fhandle =>
    rw [execFilter, setBufferSize]
    split <;> exact Or.inl rfl
  | getCallback fhandle =>
    rw [execFilter, getCallback]
    split <;> exact Or.inl rfl
  | setCallback fhandle cb data =>
    rw [execFilter, setCallback]
    split
    · exact Or.inl rfl
    · next i _ =>
      exact Or.inr ⟨i, { dev.filters i with cb := cb, userData := data }, h i, rfl⟩

theorem sound_execFilter (h : ∀ i, (dev.filters i).Sound) (call : FilterCall) :
    ∀ i, ((execFilter sys dev call).2.filters i).Sound := by
  rcases writes_execFilter sys h call with heq | ⟨i, filter, hfilter, heq⟩
  · rw [heq]
    exact h
  · rw [heq]
    exact sound_set h hfilter

theorem openCount_execFilter (h : ∀ i, (dev.filters i).Sound) (call : FilterCall) :
    (execFilter sys dev call).2.openCount = dev.openCount := by
  rcases writes_execFilter sys h call with heq | ⟨i, filter, -, heq⟩ <;> rw [heq]
  rfl

theorem sound_closeDevice (h : ∀ i, (dev.filters i).Sound) :
    ∀ i, ((closeDevice sys dev).2.filters i).Sound := by
  intro i
  rw [closeDevice]
  dsimp only
  split_ifs
  · exact Filter.sound_of_enable_eq (enable_dmxFreeFilter sys i (h i))
  · exact h i

/-- **The last close frees the filters exactly when it can stop them.** -/
theorem used_closeDevice (h : ∀ i, (dev.filters i).Sound) (hopen : dev.openCount ≠ 0) :
    ((closeDevice sys dev).2.openCount = 0 →
      ∀ i, ((closeDevice sys dev).2.filters i).used = false) ↔
      ClosesAll sys dev := by
  rw [closeDevice]
  have hone : dev.openCount - 1 = 0 ↔ dev.openCount = 1 := by omega
  dsimp only
  rw [hone, ClosesAll]
  refine forall_congr' fun hcount => forall_congr' fun i => ?_
  rw [if_pos hcount]
  exact used_dmxFreeFilter sys i (h i)

/-- **A call but `DemuxStartFilter` refuses a handle that no filter is allocated at.** -/
theorem execFilter_of_error {call : FilterCall} (hcall : call.fhandle = some fhandle)
    (hstart : call ≠ .startFilter fhandle) {ret : ℤ}
    (h : dmxGetUsedFilter dev fhandle = .error ret) :
    execFilter sys dev call = (.returns ret, dev) := by
  cases call
  case allocateFilter => exact absurd hcall.symm (Option.some_ne_none _)
  case startFilter fhandle' =>
    obtain rfl := Option.some.inj hcall
    exact absurd rfl hstart
  all_goals
    obtain rfl := Option.some.inj hcall
    simp only [execFilter, setSecFilter, setPesFilter, setFilter, freeFilter, stopFilter,
      setBufferSize, getCallback, setCallback, h]

theorem startFilter_eq_segfault :
    (startFilter sys dev fhandle).1 = .segfault ↔ ¬ Allocated dev fhandle := by
  rw [startFilter]
  cases hget : dmxGetUsedFilter dev fhandle with
  | error ret =>
    refine ⟨fun _ hallocated => ?_, fun _ => rfl⟩
    obtain ⟨i, hi⟩ := hallocated
    exact nomatch hget.symm.trans hi
  | ok i =>
    refine ⟨fun h => ?_, fun h => absurd ⟨i, hget⟩ h⟩
    dsimp only at h
    split_ifs at h

/-- Only `DemuxStartFilter` reads through a null pointer. -/
theorem execFilter_ne_segfault {call : FilterCall} (h : ∀ fhandle, call ≠ .startFilter fhandle) :
    (execFilter sys dev call).1 ≠ .segfault := by
  intro hsegfault
  cases call
  case startFilter fhandle => exact h fhandle rfl
  all_goals
    simp only [execFilter, allocateFilter, setSecFilter, setPesFilter, setFilter, freeFilter,
      stopFilter, setBufferSize, getCallback, setCallback] at hsegfault
    repeat' split at hsegfault
    all_goals exact Outcome.noConfusion hsegfault

end Device

/-! ## Calls -/

section Table

variable {devs : Devices} {devNo : ℤ} {d : Fin DMX_DEV_COUNT}

theorem openCount_of_opened (h : dmxGetOpenedDev devs devNo = some d) : (devs d).openCount ≠ 0 := by
  rw [dmxGetOpenedDev] at h
  split at h
  · exact absurd h.symm (Option.some_ne_none _)
  · split_ifs at h with hzero
    exact Option.some.inj h ▸ hzero

/-- A device is written whose filters are sound, and which has none allocated if it is
closed. -/
theorem Sound.update (h : Sound devs) {dev : Device} (hfilter : ∀ i, (dev.filters i).Sound)
    (hclosed : dev.openCount = 0 → ∀ i, (dev.filters i).used = false) :
    Sound (Function.update devs d dev) := by
  constructor
  · intro d'
    by_cases hd : d' = d
    · subst hd
      rw [Function.update_self]
      exact hfilter
    · rw [Function.update_of_ne hd]
      exact h.filter d'
  · intro d'
    by_cases hd : d' = d
    · subst hd
      rw [Function.update_self]
      exact hclosed
    · rw [Function.update_of_ne hd]
      exact h.closed d'

theorem sound_zero : Sound Devices.zero where
  filter := fun _ _ => Filter.sound_zero
  closed := fun _ _ _ => rfl

/-- A device that is opened. -/
theorem Sound.openDevice (h : Sound devs) (sys : Sys) (d : Fin DMX_DEV_COUNT) :
    (openDevice sys (devs d)).1 ≠ .segfault ∧
      Sound (Function.update devs d (openDevice sys (devs d)).2) := by
  rw [DemuxDriver.openDevice]
  split_ifs with hopen
  · exact ⟨nofun, h.update (h.filter d) fun hzero => absurd hzero (Nat.succ_ne_zero _)⟩
  · refine ⟨nofun, ?_⟩
    have hsame : Sound (Function.update devs d (devs d)) :=
      (Function.update_eq_self d devs).symm ▸ h
    have hwrite : ∀ ret : ℤ, Sound (Function.update devs d
        (if ret = AM_SUCCESS then { devs d with openCount := 1 } else devs d)) := by
      intro ret
      split_ifs
      · exact h.update (h.filter d) fun hzero => absurd hzero one_ne_zero
      · exact hsame
    exact hwrite _

/-- **A careful call on the filters of an open device keeps the table sound.** -/
theorem Sound.execFilter (h : Sound devs) (hopen : (devs d).openCount ≠ 0) (sys : Sys)
    (call : FilterCall) : Sound (Function.update devs d (execFilter sys (devs d) call).2) := by
  refine h.update (sound_execFilter sys (h.filter d) call) fun hzero => ?_
  rw [openCount_execFilter sys (h.filter d)] at hzero
  exact absurd hzero hopen

theorem execFilter_eq_segfault (sys : Sys) (dev : Device) (call : FilterCall) :
    (execFilter sys dev call).1 = .segfault ↔ ¬ call.IsCareful dev := by
  by_cases hstart : ∃ fhandle, call = .startFilter fhandle
  · obtain ⟨fhandle, rfl⟩ := hstart
    exact startFilter_eq_segfault sys
  · have hne : (execFilter sys dev call).1 ≠ .segfault :=
      execFilter_ne_segfault sys fun fhandle heq => hstart ⟨fhandle, heq⟩
    refine ⟨fun h => absurd h hne, fun h => absurd ?_ h⟩
    cases call
    case startFilter fhandle => exact absurd ⟨fhandle, rfl⟩ hstart
    all_goals trivial

theorem step_eq {e : Call × Sys} {outcome : Outcome} {devs' : Devices}
    (h : exec e.2 devs e.1 = (outcome, devs')) :
    step (some devs) e = if outcome = .segfault then none else some devs' := by
  rw [step, Option.bind_some, h]
  cases outcome <;> rfl

theorem onOpened_of_some (h : dmxGetOpenedDev devs devNo = some d)
    (call : Device → Outcome × Device) : onOpened devs devNo call =
      ((call (devs d)).1, Function.update devs d (call (devs d)).2) := by
  rw [onOpened, h]

theorem onOpened_of_none (h : dmxGetOpenedDev devs devNo = none)
    (call : Device → Outcome × Device) :
    onOpened devs devNo call = (.returns DEMUX_ERROR_INVALID_DEV_NO, devs) := by
  rw [onOpened, h]

/-- **A step keeps the table sound exactly when it is careful.** -/
theorem sound_step_iff (h : Sound devs) (e : Call × Sys) :
    (∃ devs', step (some devs) e = some devs' ∧ Sound devs') ↔ IsCareful (some devs) e := by
  have hcareful : IsCareful (some devs) e ↔ e.1.IsCareful e.2 devs :=
    ⟨fun hc => hc devs rfl, fun hc devs' heq => Option.some.inj heq ▸ hc⟩
  rw [hcareful]
  have hsame : ∀ outcome, outcome ≠ .segfault → exec e.2 devs e.1 = (outcome, devs) →
      ∃ devs', step (some devs) e = some devs' ∧ Sound devs' := fun outcome hne hexec =>
    ⟨devs, (step_eq hexec).trans (if_neg hne), h⟩
  obtain ⟨call, sys⟩ := e
  cases call with
  | «open» devNo =>
    refine iff_of_true ?_ trivial
    cases hget : dmxGetDev devNo with
    | none => exact hsame (.returns DEMUX_ERROR_INVALID_DEV_NO) nofun (by rw [exec, hget])
    | some d =>
      obtain ⟨hne, hsound⟩ := h.openDevice sys d
      have hexec : exec sys devs (.open devNo) = ((openDevice sys (devs d)).1,
          Function.update devs d (openDevice sys (devs d)).2) := by
        rw [exec, hget]
      exact ⟨_, (step_eq hexec).trans (if_neg hne), hsound⟩
  | close devNo =>
    cases hget : dmxGetOpenedDev devs devNo with
    | none =>
      refine iff_of_true (hsame (.returns DEMUX_ERROR_INVALID_DEV_NO) nofun ?_) fun d hd => ?_
      · exact onOpened_of_none hget (closeDevice sys)
      · exact absurd (hget.symm.trans hd).symm (Option.some_ne_none _)
    | some d =>
      have hexec : exec sys devs (.close devNo) = _ := onOpened_of_some hget (closeDevice sys)
      have hclose := used_closeDevice sys (h.filter d) (openCount_of_opened hget)
      have hreturns : (closeDevice sys (devs d)).1 ≠ .segfault := nofun
      rw [step_eq (e := (.close devNo, sys)) hexec, if_neg hreturns]
      constructor
      · rintro ⟨devs', heq, hsound⟩ d' hd'
        obtain rfl := Option.some.inj heq
        obtain rfl := Option.some.inj (hget.symm.trans hd')
        have hclosed := hsound.closed d
        rw [Function.update_self] at hclosed
        exact hclose.mp hclosed
      · intro hcloses
        exact ⟨_, rfl, h.update (sound_closeDevice sys (h.filter d)) (hclose.mpr (hcloses d hget))⟩
  | filter devNo call =>
    cases hget : dmxGetOpenedDev devs devNo with
    | none =>
      refine iff_of_true (hsame (.returns DEMUX_ERROR_INVALID_DEV_NO) nofun ?_) fun d hd => ?_
      · exact onOpened_of_none hget fun dev => execFilter sys dev call
      · exact absurd (hget.symm.trans hd).symm (Option.some_ne_none _)
    | some d =>
      have hexec : exec sys devs (.filter devNo call) = _ :=
        onOpened_of_some hget fun dev => execFilter sys dev call
      have hsegfault := execFilter_eq_segfault sys (devs d) call
      rw [step_eq (e := (.filter devNo call, sys)) hexec]
      constructor
      · rintro ⟨devs', heq, -⟩ d' hd'
        obtain rfl := Option.some.inj (hget.symm.trans hd')
        by_contra hnot
        rw [if_pos (hsegfault.mpr hnot)] at heq
        exact absurd heq.symm (Option.some_ne_none _)
      · intro hcall
        rw [if_neg fun hs => hsegfault.mp hs (hcall d hget)]
        exact ⟨_, rfl, h.execFilter (openCount_of_opened hget) sys call⟩

/-- **A careful call with a handle that no filter is allocated at is refused.** -/
theorem handleLaw_of_isCareful {s : Option Devices} {e : Call × Sys} (hcareful : IsCareful s e) :
    HandleLaw s e := by
  intro devs hs devNo call fhandle hcall hfhandle hnone
  obtain ⟨call', sys⟩ := e
  obtain rfl : call' = .filter devNo call := hcall
  cases hget : dmxGetOpenedDev devs devNo with
  | none =>
    refine ⟨DEMUX_ERROR_INVALID_DEV_NO, by decide, ?_⟩
    exact onOpened_of_none hget fun dev => execFilter sys dev call
  | some d =>
    cases hfilter : dmxGetUsedFilter (devs d) fhandle with
    | ok i => exact absurd ⟨d, hget, i, hfilter⟩ hnone
    | error ret =>
      have hstart : call ≠ .startFilter fhandle := by
        rintro rfl
        exact hnone ⟨d, hget, hcareful devs hs d hget⟩
      have hexec : exec sys devs (.filter devNo call) = _ :=
        onOpened_of_some hget fun dev => execFilter sys dev call
      refine ⟨ret, ne_success_of_error hfilter, hexec.trans ?_⟩
      rw [execFilter_of_error sys hfhandle hstart hfilter, Function.update_eq_self]

end Table

/-! ## Runs -/

/-- **The table keeps its laws exactly in the careful runs**: those that start no filter that is
not allocated, and in which each last close of a device can stop the filters that are
enabled. -/
theorem lawful_iff (es : List (Call × Sys)) :
    Lawful es ↔ Meets step IsCareful (some Devices.zero) es := by
  have hruns : (∀ t, Reached step (some Devices.zero) es t → ∃ devs, t = some devs ∧ Sound devs) ↔
      Meets step IsCareful (some Devices.zero) es := by
    refine forall_reached_iff (I := fun t => ∃ devs, t = some devs ∧ Sound devs)
      (fun _ h => h) ?_ ?_ ⟨Devices.zero, rfl, sound_zero⟩ es
    · rintro _ e ⟨devs, rfl, hsound⟩ hcareful
      exact (sound_step_iff hsound e).mpr hcareful
    · rintro _ e ⟨devs, rfl, hsound⟩ hcareless
      exact fun h => hcareless ((sound_step_iff hsound e).mp h)
  refine ⟨fun h => hruns.mp h.sound, fun h => ⟨hruns.mpr h, ?_⟩⟩
  rw [meets_iff] at h ⊢
  exact fun p e hp => handleLaw_of_isCareful (h p e hp)

/-- A system that answers that all is well. -/
def Sys.ok : Sys := ⟨true, true, 3, true, fun _ _ => true⟩

/-- **A handle that was never given out brings the process down.** -/
theorem not_lawful_startFilter :
    ¬ Lawful [(.open 0, Sys.ok), (.filter 0 (.startFilter 5), Sys.ok)] := by
  intro h
  obtain ⟨devs, hdevs, -⟩ := h.sound _ (reached_last _ _)
  exact nomatch hdevs

end DemuxDriver
end AmlSubtitle
