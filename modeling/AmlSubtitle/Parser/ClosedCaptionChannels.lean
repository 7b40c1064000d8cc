import AmlSubtitle.Lib.Run

/-!
# `parser/ClosedCaptionParser.cpp`: reporting the caption channels

`cc_data_cb` gets the mask of the channels that carry data.  A positive mask is
compared with the one before and each difference is told to the client; a mask of zero
starts a thread that waits for five seconds and then tells that there is no signal.

* The thread runs `sendNoSig` on a copy of `gHandle`, taken when it is started.
* The callback tells the differences one by one, and a timer may get in between: a
  `resume` is one round of the loop, or its end.
* `lastMask` is the mask of the last callback that is finished, `late` says that a
  positive mask came since a timer was started, and `noSignal` has one entry for each
  notification a timer sent, whether it was late.  The code reads none of them.
-/

namespace AmlSubtitle
namespace ClosedCaptionChannels

/-! ## The callback and the timers -/

/-- `CC_EVENT_VCHIP_FLAG`. -/
def CC_EVENT_VCHIP_FLAG : ℤ := -2

/-- `CC_EVENT_CHANNEL_ADD`. -/
def CC_EVENT_CHANNEL_ADD : ℤ := 1

/-- `CC_EVENT_CHANNEL_REMOVE`. -/
def CC_EVENT_CHANNEL_REMOVE : ℤ := 0

/-- A mask of the channels 0 to 14. -/
abbrev Mask := BitVec 15

/-- `(mask >> i) & 0x1`. -/
def bit (mask : Mask) (i : ℕ) : Bool := mask.getLsbD i

/-- A call of `notifyChannelState`. -/
structure Notification where
  stat : ℤ
  channelId : ℤ
  deriving DecidableEq, Repr

/-- `ChannelHandle`. -/
structure ChannelHandle where
  mReqStop : Bool
  mBackupMask : Mask
  deriving DecidableEq, Repr

/-- A thread in `sendNoSig`. -/
structure Timer where
  /-- the copy it runs on -/
  handle : ChannelHandle
  timeout : ℕ
  late : Bool
  deriving DecidableEq, Repr

/-- `cc_data_cb` with a positive mask, in its loop. -/
structure Callback where
  mask : Mask
  i : ℕ
  deriving DecidableEq, Repr

/-- The handle, the threads and what was told. -/
structure State where
  gHandle : ChannelHandle
  callback : Option Callback
  timers : List Timer
  told : List Notification
  lastMask : Mask
  noSignal : List Bool
  deriving DecidableEq, Repr

/-- The handle as it is before the first callback. -/
def start : State := ⟨⟨true, 0⟩, none, [], [], 0, []⟩

/-- What happens next: a callback begins, the one that is running goes on, or the
thread of the `k`-th timer does. -/
inductive Event where
  | callback (mask : Mask)
  | resume
  | tick (k : ℕ)
  deriving DecidableEq, Repr

/-- `cc_data_cb` up to its loop. -/
def cc_data_cb (s : State) (mask : Mask) : State :=
  if mask ≠ 0 then
    { s with
      gHandle := { s.gHandle with mReqStop := true }
      callback := some ⟨mask, 0⟩
      timers := s.timers.map fun t => { t with late := true }
      told := s.told ++ [⟨CC_EVENT_VCHIP_FLAG, mask.toNat⟩] }
  else
    { s with
      gHandle := { s.gHandle with mReqStop := false }
      timers := s.timers ++ [⟨{ s.gHandle with mReqStop := false }, 50000, false⟩]
      lastMask := mask }

/-- What round `i` of the loop tells. -/
def difference (mask backup : Mask) (i : ℕ) : List Notification :=
  if bit mask i ≠ bit backup i then
    [⟨if bit mask i then CC_EVENT_CHANNEL_ADD else CC_EVENT_CHANNEL_REMOVE, i⟩]
  else
    []

/-- One round of the loop of `cc_data_cb`, or its end. -/
def resume (s : State) (cb : Callback) : State :=
  if cb.i < 15 then
    { s with
      callback := some { cb with i := cb.i + 1 }
      told := s.told ++ difference cb.mask s.gHandle.mBackupMask cb.i }
  else
    { s with
      gHandle := { s.gHandle with mBackupMask := cb.mask }
      callback := none
      lastMask := cb.mask }

/-- `sendNoSig`: the test of its loop, and the notification at its end. -/
def sendNoSig (s : State) (k : ℕ) (t : Timer) : State :=
  if !t.handle.mReqStop ∧ 0 < t.timeout then
    { s with timers := s.timers.set k { t with timeout := t.timeout - 1 } }
  else
    { s with
      timers := s.timers.eraseIdx k
      told := s.told ++ [⟨0, 0⟩]
      noSignal := s.noSignal ++ [t.late] }

/-- One event.  The callbacks come from one thread, one after the other. -/
def step (s : State) : Event → State
  | .callback mask => if s.callback = none then cc_data_cb s mask else s
  | .resume =>
    match s.callback with
    | none => s
    | some cb => resume s cb
  | .tick k =>
    match s.timers[k]? with
    | none => s
    | some t => sendNoSig s k t

/-! ## What the client knows -/

/-- A notification heard: whether channel `c` is there. -/
def hear (c : ℕ) (added : Bool) (n : Notification) : Bool :=
  if n.channelId = c then
    if n.stat = CC_EVENT_CHANNEL_ADD then true
    else if n.stat = CC_EVENT_CHANNEL_REMOVE then false
    else added
  else added

/-- Channel `c` was told to be added, and not to be removed since. -/
def isAdded (told : List Notification) (c : ℕ) : Bool := told.foldl (hear c) false

/-- After a callback the client knows the channels of its mask, and no timer spoke
late. -/
def Reports (s : State) : Prop :=
  (s.callback = none → ∀ c < 15, isAdded s.told c = bit s.lastMask c) ∧
    ∀ late ∈ s.noSignal, late = false

instance (s : State) : Decidable (Reports s) := inferInstanceAs (Decidable (_ ∧ _))

/-- No channel is known when the mask is zero, and no timer is waiting when it is not. -/
def Orderly (s : State) : Event → Prop
  | .callback mask =>
    s.callback = none → if mask = 0 then s.gHandle.mBackupMask = 0 else s.timers = []
  | _ => True

theorem isAdded_append (told told' : List Notification) (c : ℕ) :
    isAdded (told ++ told') c = told'.foldl (hear c) (isAdded told c) := by
  rw [isAdded, List.foldl_append, isAdded]

/-- A difference tells the client the bit of the mask. -/
theorem hear_difference (mask backup : Mask) (i c : ℕ) (added : Bool)
    (hadded : i = c → added = bit backup c) :
    (difference mask backup i).foldl (hear c) added = if i = c then bit mask c else added := by
  by_cases hic : i = c
  · subst hic
    rw [if_pos rfl, hadded rfl, difference]
    cases bit mask i <;> cases bit backup i <;> simp [hear, CC_EVENT_CHANNEL_ADD,
      CC_EVENT_CHANNEL_REMOVE]
  · rw [if_neg hic, difference]
    split
    · rw [List.foldl_cons, List.foldl_nil, hear, if_neg (by simpa using hic)]
    · rfl

/-! ## The invariant -/

/-- The channels the client knows, by where the callback is in its loop. -/
def known (s : State) (c : ℕ) : Bool :=
  match s.callback with
  | none => bit s.gHandle.mBackupMask c
  | some cb => if c < cb.i then bit cb.mask c else bit s.gHandle.mBackupMask c

/-- What an orderly run keeps.  While a timer is waiting nothing is known, so that its
notification removes nothing. -/
structure Inv (s : State) : Prop where
  known : ∀ c < 15, isAdded s.told c = known s c
  last : s.callback = none → s.lastMask = s.gHandle.mBackupMask
  end_le : ∀ cb, s.callback = some cb → cb.i ≤ 15
  idle : s.timers ≠ [] → s.callback = none ∧ s.gHandle.mBackupMask = 0
  waiting : ∀ t ∈ s.timers, t.late = false
  spoken : ∀ late ∈ s.noSignal, late = false

theorem inv_start : Inv start where
  known := by decide
  last _ := rfl
  end_le _ h := nomatch h
  idle h := absurd rfl h
  waiting _ h := nomatch h
  spoken _ h := nomatch h

theorem Inv.reports {s : State} (h : Inv s) : Reports s := by
  refine ⟨fun hidle c hc => ?_, h.spoken⟩
  rw [h.known c hc, ClosedCaptionChannels.known, hidle, h.last hidle]

theorem Inv.cc_data_cb {s : State} {mask : Mask} (h : Inv s) (hidle : s.callback = none)
    (horderly : if mask = 0 then s.gHandle.mBackupMask = 0 else s.timers = []) :
    Inv (ClosedCaptionChannels.cc_data_cb s mask) := by
  have hknown : ∀ c < 15, isAdded s.told c = bit s.gHandle.mBackupMask c := by
    intro c hc
    rw [h.known c hc, ClosedCaptionChannels.known, hidle]
  rw [ClosedCaptionChannels.cc_data_cb]
  split_ifs with hmask
  · rw [if_neg hmask] at horderly
    refine ⟨fun c hc => ?_, nofun, ?_, ?_, ?_, h.spoken⟩
    · rw [isAdded_append, hknown c hc]
      simp [hear, ClosedCaptionChannels.known, CC_EVENT_VCHIP_FLAG, CC_EVENT_CHANNEL_ADD,
        CC_EVENT_CHANNEL_REMOVE]
    · rintro _ ⟨⟩
      exact Nat.zero_le _
    · intro hne
      rw [horderly] at hne
      exact absurd rfl hne
    · rw [horderly]
      exact fun _ ht => absurd ht List.not_mem_nil
  · rw [not_not.mp hmask] at horderly ⊢
    rw [if_pos rfl] at horderly
    refine ⟨fun c hc => ?_, fun _ => horderly.symm, h.end_le, fun _ => ⟨hidle, horderly⟩, ?_,
      h.spoken⟩
    · rw [ClosedCaptionChannels.known, hidle]
      exact hknown c hc
    · intro t ht
      rcases List.mem_append.mp ht with ht | ht
      · exact h.waiting t ht
      · rw [List.mem_singleton.mp ht]

theorem Inv.resume {s : State} {cb : Callback} (h : Inv s) (hcb : s.callback = some cb) :
    Inv (ClosedCaptionChannels.resume s cb) := by
  have hknown : ∀ c < 15, isAdded s.told c =
      if c < cb.i then bit cb.mask c else bit s.gHandle.mBackupMask c := by
    intro c hc
    rw [h.known c hc, ClosedCaptionChannels.known, hcb]
  have htimers : s.timers = [] := by
    by_contra hne
    rw [(h.idle hne).1] at hcb
    cases hcb
  rw [ClosedCaptionChannels.resume]
  split_ifs with hi
  · refine ⟨fun c hc => ?_, nofun, ?_, fun hne => absurd htimers hne, h.waiting, h.spoken⟩
    · have hheard := hear_difference cb.mask s.gHandle.mBackupMask cb.i c (isAdded s.told c)
        fun hic => by rw [hknown c hc, if_neg (by omega)]
      rw [isAdded_append, hheard, hknown c hc]
      show _ = if c < cb.i + 1 then bit cb.mask c else bit s.gHandle.mBackupMask c
      split_ifs <;> first | rfl | omega
    · rintro _ ⟨⟩
      exact hi
  · refine ⟨fun c hc => ?_, fun _ => rfl, nofun, fun hne => absurd htimers hne, h.waiting,
      h.spoken⟩
    rw [hknown c hc, if_pos (hc.trans_le (not_lt.mp hi))]
    rfl

theorem Inv.sendNoSig {s : State} {k : ℕ} {t : Timer} (h : Inv s) (ht : s.timers[k]? = some t) :
    Inv (ClosedCaptionChannels.sendNoSig s k t) := by
  have hmem : t ∈ s.timers := List.mem_of_getElem? ht
  obtain ⟨hidle, hbackup⟩ := h.idle (List.ne_nil_of_mem hmem)
  rw [ClosedCaptionChannels.sendNoSig]
  split_ifs
  · refine ⟨h.known, h.last, h.end_le, fun _ => ⟨hidle, hbackup⟩, fun t' ht' => ?_, h.spoken⟩
    rcases List.mem_or_eq_of_mem_set ht' with ht' | rfl
    · exact h.waiting t' ht'
    · exact h.waiting t hmem
  · have hbit : ∀ c, bit (0 : Mask) c = false := fun c => BitVec.getLsbD_zero
    refine ⟨fun c hc => ?_, h.last, h.end_le, fun _ => ⟨hidle, hbackup⟩, fun t' ht' => ?_, ?_⟩
    · have hadded := h.known c hc
      rw [ClosedCaptionChannels.known, hidle, hbackup] at hadded ⊢
      show isAdded (s.told ++ [⟨0, 0⟩]) c = bit 0 c
      rw [isAdded_append, hadded, hbit]
      simp [hear, CC_EVENT_CHANNEL_ADD]
    · exact h.waiting t' (List.mem_of_mem_eraseIdx ht')
    · intro late hlate
      rcases List.mem_append.mp hlate with hlate | hlate
      · exact h.spoken late hlate
      · rw [List.mem_singleton.mp hlate]
        exact h.waiting t hmem

theorem Inv.step {s : State} (h : Inv s) (e : Event) (horderly : Orderly s e) :
    Inv (ClosedCaptionChannels.step s e) := by
  cases e with
  | callback mask =>
    rw [ClosedCaptionChannels.step]
    split_ifs with hidle
    · exact h.cc_data_cb hidle (horderly hidle)
    · exact h
  | resume =>
    rw [ClosedCaptionChannels.step]
    split
    · exact h
    · exact h.resume ‹_›
  | tick k =>
    rw [ClosedCaptionChannels.step]
    split
    · exact h
    · exact h.sendNoSig ‹_›

/-! ## A timer that a positive mask did not stop -/

/-- A timer is late, or has spoken late. -/
def Late (s : State) : Prop := (∃ t ∈ s.timers, t.late = true) ∨ true ∈ s.noSignal

theorem Late.step {s : State} (h : Late s) (e : Event) : Late (ClosedCaptionChannels.step s e) := by
  rcases h with ⟨t, ht, hlate⟩ | hspoken
  · cases e with
    | callback mask =>
      rw [ClosedCaptionChannels.step, ClosedCaptionChannels.cc_data_cb]
      split_ifs
      · exact Or.inl ⟨_, List.mem_map_of_mem ht, rfl⟩
      · exact Or.inl ⟨t, List.mem_append_left _ ht, hlate⟩
      · exact Or.inl ⟨t, ht, hlate⟩
    | resume =>
      rw [ClosedCaptionChannels.step]
      split
      · exact Or.inl ⟨t, ht, hlate⟩
      · rw [ClosedCaptionChannels.resume]
        split_ifs <;> exact Or.inl ⟨t, ht, hlate⟩
    | tick k =>
      rw [ClosedCaptionChannels.step]
      split
      · exact Or.inl ⟨t, ht, hlate⟩
      · rename_i t' ht'
        obtain ⟨j, hj⟩ := List.mem_iff_getElem?.mp ht
        have hsame : k = j → t' = t := by
          rintro rfl
          rw [ht', Option.some_inj] at hj
          exact hj
        rw [ClosedCaptionChannels.sendNoSig]
        by_cases hkj : k = j
        · rw [hsame hkj]
          split_ifs
          · refine Or.inl ⟨{ t with timeout := t.timeout - 1 }, ?_, hlate⟩
            exact List.mem_set (List.getElem?_eq_some_iff.mp ht').1 _
          · exact Or.inr (List.mem_append_right _ (List.mem_singleton.mpr hlate.symm))
        · split_ifs
          · refine Or.inl ⟨t, List.mem_iff_getElem?.mpr ⟨j, ?_⟩, hlate⟩
            exact (List.getElem?_set_ne hkj).trans hj
          · exact Or.inl ⟨t, List.mem_eraseIdx_iff_getElem?.mpr ⟨j, Ne.symm hkj, hj⟩, hlate⟩
  · have hmono : s.noSignal ⊆ (ClosedCaptionChannels.step s e).noSignal := by
      cases e with
      | callback mask =>
        rw [ClosedCaptionChannels.step, ClosedCaptionChannels.cc_data_cb]
        split_ifs <;> exact fun _ => id
      | resume =>
        rw [ClosedCaptionChannels.step]
        split
        · exact fun _ => id
        · rw [ClosedCaptionChannels.resume]
          split_ifs <;> exact fun _ => id
      | tick k =>
        rw [ClosedCaptionChannels.step]
        split
        · exact fun _ => id
        · rw [ClosedCaptionChannels.sendNoSig]
          split_ifs
          · exact fun _ => id
          · exact List.subset_append_left _ _
    exact Or.inr (hmono hspoken)

/-- **No timer is stopped**: left alone, each one speaks. -/
theorem exists_ticks_of_timer {s : State} {k : ℕ} {t : Timer} (ht : s.timers[k]? = some t) :
    ∃ ks : List ℕ, t.late ∈ ((ks.map Event.tick).foldl step s).noSignal := by
  induction hn : t.timeout generalizing s t with
  | zero =>
    refine ⟨[k], ?_⟩
    show t.late ∈ (step s (.tick k)).noSignal
    rw [step, ht]
    dsimp only
    rw [sendNoSig, if_neg (by rw [hn]; exact fun h => lt_irrefl _ h.2)]
    exact List.mem_append_right _ (List.mem_singleton_self _)
  | succ n ih =>
    by_cases hstop : t.handle.mReqStop = true
    · refine ⟨[k], ?_⟩
      show t.late ∈ (step s (.tick k)).noSignal
      rw [step, ht]
      dsimp only
      rw [sendNoSig, if_neg (by rw [hstop]; simp)]
      exact List.mem_append_right _ (List.mem_singleton_self _)
    · have hnext : (step s (.tick k)).timers[k]? = some { t with timeout := t.timeout - 1 } := by
        rw [step, ht]
        dsimp only
        rw [sendNoSig, if_pos ⟨by simpa using hstop, by omega⟩]
        exact List.getElem?_set_self (List.getElem?_eq_some_iff.mp ht).1
      obtain ⟨ks, hks⟩ := ih hnext (by show t.timeout - 1 = n; omega)
      exact ⟨k :: ks, hks⟩

theorem exists_ticks_of_late {s : State} (h : Late s) :
    ∃ ks : List ℕ, ¬ Reports ((ks.map Event.tick).foldl step s) := by
  rcases h with ⟨t, ht, hlate⟩ | hspoken
  · obtain ⟨k, hk⟩ := List.mem_iff_getElem?.mp ht
    obtain ⟨ks, hks⟩ := exists_ticks_of_timer hk
    rw [hlate] at hks
    exact ⟨ks, fun hreports => Bool.noConfusion (hreports.2 _ hks)⟩
  · exact ⟨[], fun hreports => Bool.noConfusion (hreports.2 _ hspoken)⟩

/-! ## Runs -/

/-- A step out of order: the client still knows channels after a mask of zero, or a
timer is late. -/
theorem not_reports_or_late {s : State} {e : Event} (h : Inv s) (horderly : ¬ Orderly s e) :
    ¬ Reports (step s e) ∨ Late (step s e) := by
  cases e with
  | callback mask =>
    obtain ⟨hidle, hmask⟩ := Classical.not_imp.mp horderly
    rw [step, if_pos hidle, cc_data_cb]
    split_ifs at hmask with hzero
    · rw [if_neg (not_not.mpr hzero)]
      refine Or.inl fun hreports => hmask (BitVec.eq_of_getLsbD_eq fun c hc => ?_)
      have hadded : isAdded s.told c = bit mask c := hreports.1 hidle c hc
      rw [h.known c hc, known, hidle, hzero] at hadded
      exact hadded
    · rw [if_pos hzero]
      obtain ⟨t, ht⟩ := List.exists_mem_of_ne_nil _ hmask
      exact Or.inr (Or.inl ⟨_, List.mem_map_of_mem ht, rfl⟩)
  | resume => exact absurd trivial horderly
  | tick k => exact absurd trivial horderly

theorem orderly_ticks (s : State) (ks : List ℕ) :
    Run.Meets step Orderly s (ks.map Event.tick) := by
  induction ks generalizing s with
  | nil => trivial
  | cons k ks ih => exact ⟨trivial, ih _⟩

/-- **The caption channels.**  The client knows the channels of the last mask after each
callback of a run, and no timer speaks late in it or after it, if and only if a mask of
zero comes only while no channel is known and a positive mask only while no timer is
waiting. -/
theorem reportsMasks_iff (es : List Event) :
    (∀ ks : List ℕ, ∀ t, Run.Reached step start (es ++ ks.map Event.tick) t → Reports t) ↔
      Run.Meets step Orderly start es := by
  constructor
  · intro h
    have hstart := inv_start
    generalize start = s at h hstart ⊢
    induction es generalizing s with
    | nil => trivial
    | cons e es ih =>
      have htail : ∀ ks : List ℕ, ∀ t,
          Run.Reached step (step s e) (es ++ ks.map Event.tick) t → Reports t :=
        fun ks t ht => h ks t (Run.reached_cons.mpr (Or.inr ht))
      by_cases horderly : Orderly s e
      · exact ⟨horderly, ih _ htail (hstart.step e horderly)⟩
      exfalso
      rcases not_reports_or_late hstart horderly with hnot | hlate
      · exact hnot (htail [] _ (Run.reached_self _ _))
      · have hlate : Late (es.foldl step (step s e)) :=
          Run.invariant (I := Late) (fun _ e h => h.step e) hlate es
        obtain ⟨ks, hks⟩ := exists_ticks_of_late hlate
        exact hks (htail ks _ (Run.reached_append.mpr (Or.inr (Run.reached_last _ _))))
  · intro h ks t ht
    have hstep : ∀ s e, Inv s → Orderly s e → Inv (step s e) := fun _ e hs => hs.step e
    rcases Run.reached_append.mp ht with ht | ht
    · exact (Run.invariant_of_meets hstep inv_start h ht).reports
    · have hinv := Run.invariant_of_meets hstep inv_start h (Run.reached_last _ _)
      exact (Run.invariant_of_meets hstep hinv (orderly_ticks _ ks) ht).reports

/-- Channel 0 is added, and is still known after a mask of zero. -/
theorem not_reports_zero :
    ¬ Reports ((Event.callback 1 :: List.replicate 16 .resume ++ [Event.callback 0]).foldl step
      start) := by
  decide

end ClosedCaptionChannels
end AmlSubtitle
