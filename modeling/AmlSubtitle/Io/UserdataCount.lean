import AmlSubtitle.Io.UserdataLists
import AmlSubtitle.Lib.Run

/-!
# The counter of the closed-caption reorder buffer

`aml_add_cc_data` trusts `cc_num`: when it says that the buffer is full, the first
record of `cc_list` is written out to make room.  The loop of
`aml_mpeg_userdata_package` takes records off the list without counting them, where
the other places that do so count.  From then on `cc_num` is too large, for good, and
once it has reached the limit with an empty list a null pointer is followed.

* `Drains`: the loop is about to take a record off.
* `counted_exec`, `not_counted_exec`: one call, without and with such a record.
* `counts_iff`: in a run the counter is the length of the list in every state exactly
  when no call drains a record.
-/

namespace AmlSubtitle

open Thread Words

namespace CcQueue

/-- `cc_num` counts the waiting records, and there are at most `MAX_CC_NUM`. -/
def Counted (v : CcQueue) : Prop :=
  v.num = v.queue.waiting.length ∧ v.num ≤ AmUDDrvData.maxCcNum

/-- The loop of `aml_mpeg_userdata_package` takes a record off. -/
def Drains (v : CcQueue) (type : ℤ) (r : CcRecord) : Prop :=
  AmUDDrvData.IsCaption r ∧ type ≠ AmUDDrvData.iType ∧
    (r.poc = asSigned 32 (v.poc + 1) ∨ r.poc = v.poc) ∧
    ∃ c ∈ v.queue.waiting.head?, c.poc = asSigned 32 (r.poc + 1)

variable {v : CcQueue} {r : CcRecord}

theorem counted_flush (v : CcQueue) : v.flush.Counted :=
  ⟨rfl, show (0 : ℤ) ≤ 64 by decide⟩

/-- A counted buffer always has a record to give out when it is full. -/
theorem Counted.evict (h : v.Counted) :
    ∃ v', v.evict = some v' ∧ v'.Counted ∧ v'.num < AmUDDrvData.maxCcNum := by
  obtain ⟨hnum, hle⟩ := h
  unfold CcQueue.evict
  split
  · rename_i hfull
    have hpos : (0 : ℤ) < v.queue.waiting.length := by
      rw [← hnum]
      exact lt_of_lt_of_le (by decide) hfull
    obtain ⟨c, w, hw⟩ := List.exists_cons_of_length_pos (by exact_mod_cast hpos)
    rw [if_neg (by rw [hw]; exact List.cons_ne_nil _ _)]
    rw [hw, List.length_cons] at hnum
    refine ⟨_, rfl, ⟨?_, by show v.num - 1 ≤ _; omega⟩, by show v.num - 1 < _; omega⟩
    rw [Reorder.release_of_cons hw]
    show v.num - 1 = (w.length : ℤ)
    omega
  · rename_i hfree
    exact ⟨v, rfl, ⟨hnum, hle⟩, not_le.mp hfree⟩

theorem Counted.flushOld (h : v.Counted) (hlt : v.num < AmUDDrvData.maxCcNum) (r : CcRecord) :
    (v.flushOld r).Counted ∧ (v.flushOld r).num < AmUDDrvData.maxCcNum := by
  unfold CcQueue.flushOld
  split
  · exact ⟨h, hlt⟩
  · split
    · exact ⟨counted_flush v, show (0 : ℤ) < 64 by decide⟩
    · exact ⟨h, hlt⟩

theorem Counted.add (h : v.Counted) (r : CcRecord) (ok : Bool) :
    ∃ v', v.add r ok = some v' ∧ v'.Counted := by
  obtain ⟨v₁, hevict, h₁, hlt₁⟩ := h.evict
  obtain ⟨h₂, hlt₂⟩ := h₁.flushOld hlt₁ r
  rw [CcQueue.add, hevict, Option.map_some]
  refine ⟨_, rfl, ?_⟩
  cases ok with
  | false => exact h₂
  | true =>
    refine ⟨?_, by show (v₁.flushOld r).num + 1 ≤ _; omega⟩
    show (v₁.flushOld r).num + 1 = ((List.orderedInsert _ _ _).length : ℤ)
    rw [List.orderedInsert_length, h₂.1]
    push_cast
    rfl

/-- A record written through drains nothing unless the next picture's is waiting first. -/
theorem Counted.package (h : v.Counted) {type : ℤ} (hd : ¬ v.Drains type r) (ok : Bool) :
    ∃ v', v.package type r ok = some v' ∧ v'.Counted := by
  unfold CcQueue.package
  split
  · rename_i hcaption
    dsimp only
    by_cases htype : type = AmUDDrvData.iType
    · rw [if_pos htype]
      split
      · refine ⟨_, rfl, ?_⟩
        rw [drain_of_ne (by rintro c ⟨⟩)]
        exact counted_flush v
      · exact (counted_flush v).add r ok
    · rw [if_neg htype]
      split
      · rename_i hnext
        have hdrain := drain_of_ne (v := ⟨v.queue.pass r, v.num, r.poc⟩)
          fun c hc heq => hd ⟨hcaption, htype, hnext, c, hc, heq.symm⟩
        rw [hdrain]
        exact ⟨_, rfl, h⟩
      · exact h.add r ok
  · exact ⟨v, rfl, h⟩

/-- **A drained record is not counted.** -/
theorem Counted.package_of_drains (h : v.Counted) {type : ℤ} (hd : v.Drains type r) (ok : Bool) :
    ∃ v', v.package type r ok = some v' ∧ ¬ v'.Counted := by
  obtain ⟨hcaption, htype, hnext, c, hc, hpoc⟩ := hd
  obtain ⟨w, hw⟩ := List.head?_eq_some_iff.mp hc
  rw [CcQueue.package, if_pos hcaption]
  dsimp only
  rw [if_neg htype, if_pos hnext]
  refine ⟨_, rfl, fun hcounted => ?_⟩
  have hnum := h.1
  have hnum' := hcounted.1
  rw [hw, List.length_cons] at hnum
  rw [drain_of_eq (by exact hw) hpoc.symm, Reorder.release_of_cons (by exact hw)] at hnum'
  have hle : (w.drop (followers w (asSigned 32 (r.poc + 1))).1).length ≤ w.length :=
    (List.drop_sublist _ w).length_le
  have hdrop : v.num = ((w.drop (followers w (asSigned 32 (r.poc + 1))).1).length : ℤ) := hnum'
  omega

end CcQueue

namespace AmUDDrvData

/-- A call on the state, or on what a null pointer has left of it. -/
def step (t : Option AmUDDrvData) (e : Event) : Option AmUDDrvData := t.bind fun ud => ud.exec e

/-- `cc_num` is the length of `cc_list`, at most `MAX_CC_NUM`, and no null pointer was
followed. -/
def Counts (t : Option AmUDDrvData) : Prop :=
  ∃ ud l, t = some ud ∧ Chain AmCcData.next ud.heap ud.ccList l ∧ ud.ccNum = l.length ∧
    ud.ccNum ≤ maxCcNum

/-- A picture that is written through and is no I picture finds the next picture's
record first on the list. -/
def Drains (ud : AmUDDrvData) : Event → Prop
  | .package type r _ => IsCaption r ∧ type ≠ iType ∧ ud.IsNext r ∧
      ∃ p ∈ ud.ccList, ∃ cc ∈ ud.heap p, cc.poc = asSigned 32 (r.poc + 1)
  | _ => False

/-- The call drains nothing. -/
def NoDrain (t : Option AmUDDrvData) (e : Event) : Prop := ∀ ud ∈ t, ¬ ud.Drains e

variable {ud : AmUDDrvData} {v : CcQueue}

theorem Refines.counts_iff_counted (h : Refines ud v) : Counts (some ud) ↔ v.Counted := by
  obtain ⟨⟨cc, fr, hshows⟩, hnum, -⟩ := h
  have hlen := hshows.length_eq
  constructor
  · rintro ⟨ud', l, hud, hl, hcount, hle⟩
    obtain rfl := Option.some_inj.mp hud
    rw [hl.unique hshows.ccChain, ← hlen, hnum] at hcount
    exact ⟨hcount, hnum ▸ hle⟩
  · rintro ⟨hcount, hle⟩
    exact ⟨ud, cc, rfl, hshows.ccChain, by rw [hnum, hcount, hlen], hnum ▸ hle⟩

theorem Refines.drains_iff (h : Refines ud v) {type : ℤ} {r : CcRecord} {alloc : Alloc} :
    ud.Drains (.package type r alloc) ↔ v.Drains type r := by
  obtain ⟨⟨cc, fr, hshows⟩, -, hpoc⟩ := h
  have hhead : (∃ p ∈ ud.ccList, ∃ n ∈ ud.heap p, n.poc = asSigned 32 (r.poc + 1)) ↔
      ∃ c ∈ v.queue.waiting.head?, c.poc = asSigned 32 (r.poc + 1) := by
    cases hw : v.queue.waiting with
    | nil =>
      rw [hshows.head_eq_none hw]
      simp
    | cons c w =>
      obtain ⟨p, n, cc', rfl, hccList, hn, rfl⟩ := hshows.exists_head hw
      simp [hccList, hn]
  rw [Drains, CcQueue.Drains, IsNext, hpoc, hhead]

/-- A call that drains nothing keeps the count. -/
theorem counted_exec (h : Refines ud v) (hv : v.Counted) {e : Event} (he : ¬ ud.Drains e) :
    ∃ ud' v', ud.exec e = some ud' ∧ Refines ud' v' ∧ v'.Counted := by
  obtain ⟨ok, -, hrel⟩ := h.exec e
  obtain ⟨v', hv', hcounted⟩ : ∃ v', execQueue v ok e = some v' ∧ v'.Counted := by
    cases e with
    | add r alloc => exact hv.add r ok
    | package type r alloc => exact hv.package (mt h.drains_iff.mpr he) ok
    | flush => exact ⟨v.flush, rfl, CcQueue.counted_flush v⟩
  rw [hv'] at hrel
  generalize ud.exec e = t at hrel ⊢
  cases hrel with
  | some h' => exact ⟨_, v', rfl, h', hcounted⟩

/-- A call that drains a record loses count of it. -/
theorem not_counted_exec (h : Refines ud v) (hv : v.Counted) {e : Event} (he : ud.Drains e) :
    ¬ Counts (ud.exec e) := by
  cases e with
  | add r alloc => exact he.elim
  | flush => exact he.elim
  | package type r alloc =>
    obtain ⟨ok, -, hrel⟩ := h.exec (.package type r alloc)
    obtain ⟨v', hv', hcounted⟩ := hv.package_of_drains (h.drains_iff.mp he) ok
    rw [execQueue, hv'] at hrel
    generalize ud.exec (.package type r alloc) = t at hrel ⊢
    cases hrel with
    | some h' => exact mt h'.counts_iff_counted.mp hcounted

theorem step_eq (ud : AmUDDrvData) (e : Event) : step (some ud) e = ud.exec e := by
  rw [step, Option.bind_some]

/-- **When `cc_num` counts.**  In every state a run reaches `cc_num` is the length of
`cc_list`, at most `MAX_CC_NUM`, and no empty list was popped, exactly when no call of the
run drains a record. -/
theorem counts_iff (es : List Event) :
    (∀ t, Run.Reached step (some init) es t → Counts t) ↔
      Run.Meets step NoDrain (some init) es := by
  have hstart : ∃ ud v, some init = some ud ∧ Refines ud v ∧ v.Counted :=
    ⟨init, _, rfl, refines_init, ⟨rfl, show (0 : ℤ) ≤ 64 by decide⟩⟩
  refine Run.forall_reached_iff (I := fun t => ∃ ud v, t = some ud ∧ Refines ud v ∧ v.Counted)
    ?_ ?_ ?_ hstart es
  · rintro t ⟨ud, v, rfl, hud, hv⟩
    exact hud.counts_iff_counted.mpr hv
  · rintro t e ⟨ud, v, rfl, hud, hv⟩ he
    rw [step_eq]
    exact counted_exec hud hv (he ud rfl)
  · rintro t e ⟨ud, v, rfl, hud, hv⟩ he
    rw [step_eq]
    refine not_counted_exec hud hv ?_
    simpa [NoDrain] using he

/-- Captions of an I picture in front, and of the two pictures before it: the third call
takes the first record off the list and leaves `cc_num` at one. -/
def drainingRun : List Event :=
  let record (poc : ℤ) : CcRecord := ⟨poc, [0x47, 0x41, 0x39, 0x34, 3], 0, 1, 0⟩
  let alloc : Alloc := ⟨true, true⟩
  [.package 1 (record 2) alloc, .package 2 (record 0) alloc, .package 3 (record 1) alloc]

theorem not_counts_drainingRun : ¬ Counts (drainingRun.foldl step (some init)) := by
  have hrun : (drainingRun.foldl step (some init)).map (fun ud => (ud.ccList, ud.ccNum)) =
      some (none, 1) := by decide
  rintro ⟨ud, l, hud, hl, hcount, -⟩
  rw [hud, Option.map_some, Option.some_inj, Prod.mk.injEq] at hrun
  rw [hrun.1] at hl
  rw [hrun.2, hl.eq_nil] at hcount
  cases hcount

end AmUDDrvData
end AmlSubtitle
