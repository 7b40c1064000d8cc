import AmlSubtitle.Io.UserdataLists

/-!
# What the closed-caption reorder buffer does with its records

As long as there is memory, a record that the buffer accepts is on `cc_list` until
it is written out, and `cc_list` is sorted by time stamp and picture order count.
The counter plays no part in this: a wrong one only chooses the moment at which a
record is written, or follows a null pointer, after which there is no state left.

* `all_exec`, `sorted_exec`: one call on the reorder buffer.
* `records_run`: the result for every run of the code.
-/

namespace AmlSubtitle

open Thread Words

/-- The order of `cc_list`: by time stamp, then by picture order count. -/
def CcRecord.NotAfter (a b : CcRecord) : Prop := a.pts < b.pts ∨ (a.pts = b.pts ∧ a.poc ≤ b.poc)

theorem CcRecord.not_before_iff {a b : CcRecord} : ¬ b.Before a ↔ a.NotAfter b := by
  unfold Before NotAfter
  split_ifs <;> omega

theorem CcRecord.before_asymm (a b : CcRecord) (h : a.Before b) : ¬ b.Before a := by
  unfold Before at *
  split_ifs at * <;> omega

theorem CcRecord.before_trans (a b c : CcRecord) (hab : a.Before b) (hbc : b.Before c) :
    a.Before c := by
  unfold Before at *
  split_ifs at * <;> omega

namespace AmUDDrvData

/-- The records a call hands to the buffer. -/
def Event.accepted : Event → List CcRecord
  | .add r _ => [r]
  | .package _ r _ => if IsCaption r then [r] else []
  | .flush => []

end AmUDDrvData

namespace CcQueue

open AmUDDrvData (Event execQueue IsCaption)

variable {v v' : CcQueue} {r : CcRecord}

/-! ## Nothing is lost -/

theorem all_flush (v : CcQueue) : v.flush.queue.all = v.queue.all := Reorder.all_releaseAll _

theorem all_evict (h : v.evict = some v') : v'.queue.all = v.queue.all := by
  unfold evict at h
  split_ifs at h
  · rw [← Option.some_inj.mp h]
    exact Reorder.all_release _
  · rw [← Option.some_inj.mp h]

theorem all_flushOld (v : CcQueue) (r : CcRecord) : (v.flushOld r).queue.all = v.queue.all := by
  unfold flushOld
  split
  · rfl
  · split
    · exact all_flush v
    · rfl

theorem all_add (h : v.add r true = some v') : v'.queue.all.Perm (v.queue.all ++ [r]) := by
  obtain ⟨v₁, hevict, rfl⟩ := Option.map_eq_some_iff.mp h
  rw [← all_evict hevict, ← all_flushOld v₁ r]
  exact Reorder.all_insert CcRecord.Before _ r

theorem all_drain (v : CcQueue) : v.drain.queue.all = v.queue.all := by
  simp only [drain, Reorder.all]
  rw [List.append_assoc, List.take_append_drop]

theorem all_package {type : ℤ} (h : v.package type r true = some v') :
    v'.queue.all.Perm (v.queue.all ++ if IsCaption r then [r] else []) := by
  unfold package at h
  split at h
  · rename_i hcaption
    rw [if_pos hcaption]
    have hflush : (if type = AmUDDrvData.iType then v.flush else v).queue.all = v.queue.all := by
      split
      · exact all_flush v
      · rfl
    rw [← hflush]
    generalize (if type = AmUDDrvData.iType then v.flush else v) = v₁ at h ⊢
    dsimp only at h
    split at h
    · rw [← Option.some_inj.mp h, all_drain]
      exact Reorder.all_pass _ r
    · exact all_add h
  · rename_i hcaption
    rw [if_neg hcaption, List.append_nil, Option.some_inj.mp h]

/-- **One call** adds the record it accepts to what the buffer has given out or keeps. -/
theorem all_exec {e : Event} (h : execQueue v true e = some v') :
    v'.queue.all.Perm (v.queue.all ++ e.accepted) := by
  cases e with
  | add r alloc => exact all_add h
  | package type r alloc => exact all_package h
  | flush =>
    rw [← Option.some_inj.mp h, all_flush]
    exact (List.append_nil _).symm ▸ List.Perm.refl _

/-! ## The records are sorted -/

theorem sorted_evict (hv : v.queue.Sorted CcRecord.Before) (h : v.evict = some v') :
    v'.queue.Sorted CcRecord.Before := by
  unfold evict at h
  split_ifs at h
  · rw [← Option.some_inj.mp h]
    exact Reorder.sorted_release hv
  · rw [← Option.some_inj.mp h]
    exact hv

theorem sorted_flushOld (hv : v.queue.Sorted CcRecord.Before) (r : CcRecord) :
    (v.flushOld r).queue.Sorted CcRecord.Before := by
  unfold flushOld
  split
  · exact hv
  · split
    · exact Reorder.sorted_releaseAll
    · exact hv

theorem sorted_add (hv : v.queue.Sorted CcRecord.Before) {ok : Bool} (h : v.add r ok = some v') :
    v'.queue.Sorted CcRecord.Before := by
  obtain ⟨v₁, hevict, rfl⟩ := Option.map_eq_some_iff.mp h
  have hold := sorted_flushOld (sorted_evict hv hevict) r
  dsimp only
  split
  · exact Reorder.sorted_insert CcRecord.before_asymm CcRecord.before_trans hold r
  · exact hold

/-- **One call** keeps the list sorted. -/
theorem sorted_exec (hv : v.queue.Sorted CcRecord.Before) {ok : Bool} {e : Event}
    (h : execQueue v ok e = some v') : v'.queue.Sorted CcRecord.Before := by
  cases e with
  | add r alloc => exact sorted_add hv h
  | package type r alloc =>
    have h : v.package type r ok = some v' := h
    unfold package at h
    split at h
    · have hflush : (if type = AmUDDrvData.iType then v.flush else v).queue.Sorted
          CcRecord.Before := by
        split
        · exact Reorder.sorted_releaseAll
        · exact hv
      generalize (if type = AmUDDrvData.iType then v.flush else v) = v₁ at h hflush
      dsimp only at h
      split at h
      · rw [← Option.some_inj.mp h]
        exact hflush.sublist (List.drop_sublist _ _)
      · exact sorted_add hflush h
    · rw [← Option.some_inj.mp h]
      exact hv
  | flush =>
    rw [← Option.some_inj.mp h]
    exact Reorder.sorted_releaseAll

end CcQueue

namespace AmUDDrvData

/-- A sequence of calls. -/
def run (ud : AmUDDrvData) (es : List Event) : Option AmUDDrvData := es.foldlM exec ud

/-- A run with enough memory, on the reorder buffer. -/
theorem refines_run {es : List Event} {ud ud' : AmUDDrvData} {v : CcQueue}
    (halloc : ∀ e ∈ es, e.alloc = ⟨true, true⟩) (h : Refines ud v)
    (hsorted : v.queue.Sorted CcRecord.Before) (hrun : ud.run es = some ud') :
    ∃ v', Refines ud' v' ∧ v'.queue.Sorted CcRecord.Before ∧
      v'.queue.all.Perm (v.queue.all ++ es.flatMap Event.accepted) := by
  induction es generalizing ud v with
  | nil =>
    obtain rfl := Option.some_inj.mp hrun
    exact ⟨v, h, hsorted, by rw [List.flatMap_nil, List.append_nil]⟩
  | cons e es ih =>
    rw [run, List.foldlM_cons] at hrun
    obtain ⟨ud₁, hexec, hrun⟩ := Option.bind_eq_some_iff.mp hrun
    obtain ⟨ok, hok, hrel⟩ := h.exec e
    rw [halloc e List.mem_cons_self] at hok
    rw [hok rfl, hexec] at hrel
    obtain ⟨v₁, hv₁, h₁⟩ : ∃ v₁, execQueue v true e = some v₁ ∧ Refines ud₁ v₁ := by
      generalize execQueue v true e = t at hrel ⊢
      cases hrel with
      | some h₁ => exact ⟨_, rfl, h₁⟩
    obtain ⟨v', h', hsorted', hall⟩ := ih (fun e' he' => halloc e' (List.mem_cons_of_mem e he'))
      h₁ (CcQueue.sorted_exec hsorted hv₁) hrun
    refine ⟨v', h', hsorted', hall.trans ?_⟩
    rw [List.flatMap_cons, ← List.append_assoc]
    exact (CcQueue.all_exec hv₁).append_right _

end AmUDDrvData
end AmlSubtitle
