import AmlSubtitle.Subtitle.PresentationStall

/-!
# What becomes of the items

Every item the handler takes from the parser is accounted for: it is in the queue,
or the log says once what became of it (`Act.settles`).  `held` counts the two, and
each part of the handler keeps the count.

There is one exception, `Misfire`.  The ten minutes rule takes the front item off
the queue, but the handler still holds it and puts it to the due test.  When it
passes, which takes a clock value below `-33 ms`, the handler takes another item off
the queue in its place, and that one is neither shown nor thrown away by a rule.

The handler looks at the front of the queue only, so an immediate item is shown by
the check that takes it when it is the front item, and not when others are queued in
front of it (`shown_immediate`).
-/

namespace AmlSubtitle
namespace Presentation

open Words Spu Run

/-! ## The account -/

/-- The item that is handed to the renderer, or left to the one that replaces it. -/
def Act.presents : Act → Option ℕ
  | .shown spu => some spu.id
  | .cleared spu => some spu.id
  | .clearedObject spu => some spu.id
  | .bypassed spu => some spu.id
  | _ => none

/-- The item that leaves the queue in an ordinary way: presented, merged into one
that is, or thrown away by a rule. -/
def Act.settles : Act → Option ℕ
  | .zeroClock spu => some spu.id
  | .memoryLimit spu => some spu.id
  | .outOfDate spu => some spu.id
  | .farAhead spu => some spu.id
  | .merged spu => some spu.id
  | .reset spu => some spu.id
  | act => act.presents

/-- The item that is taken from the parser. -/
def Act.takes : Act → Option ℕ
  | .took spu => some spu.id
  | _ => none

/-- The items taken from the parser. -/
def taken (log : List Act) : List ℕ := log.filterMap Act.takes

/-- What the log says has become of items. -/
def settled (log : List Act) : List ℕ := log.filterMap Act.settles

/-- How often an item is queued or settled. -/
def held (s : State) (i : ℕ) : ℕ :=
  (s.mEmittedShowingSpu.map Spu.id).count i + (settled s.log).count i

/-- The front item, taken off by the ten minutes rule while a later one is kept,
passes the due test. -/
def Misfire (s : State) (timestamp : ℤ) : Prop :=
  ∃ spu rest, lookedAt s timestamp = spu :: rest ∧ isFarAhead timestamp spu = true ∧
    (thinned s timestamp).mEmittedShowingSpu ≠ [] ∧ isDue (repair spu timestamp) timestamp

/-- Every item that is merged is merged into one shown at once, with the same time
stamp. -/
def MergedShown : List Act → Prop
  | [] => True
  | .merged spu :: acts =>
    (∃ both, acts.head? = some (.shown both) ∧ both.pts = spu.pts) ∧ MergedShown acts
  | _ :: acts => MergedShown acts

theorem mergedShown_append {acts acts' : List Act} (h : MergedShown acts)
    (h' : MergedShown acts') : MergedShown (acts ++ acts') := by
  induction acts with
  | nil => exact h'
  | cons act acts ih =>
    cases act with
    | merged spu =>
      obtain ⟨⟨both, hhead, hpts⟩, hrest⟩ := h
      refine ⟨⟨both, ?_, hpts⟩, ih hrest⟩
      show (acts ++ acts').head? = some (.shown both)
      rw [List.head?_append, hhead]
      rfl
    | _ => exact ih h

theorem mergedShown_map {act : Spu → Act} (h : ∀ spu acts, MergedShown acts →
    MergedShown (act spu :: acts)) (list : List Spu) : MergedShown (list.map act) := by
  induction list with
  | nil => trivial
  | cons spu list ih => exact h spu _ ih

@[simp] theorem taken_append (log acts : List Act) :
    taken (log ++ acts) = taken log ++ taken acts := List.filterMap_append

@[simp] theorem settled_append (log acts : List Act) :
    settled (log ++ acts) = settled log ++ settled acts := List.filterMap_append

theorem settled_map {act : Spu → Act} (h : ∀ spu, (act spu).settles = some spu.id)
    (list : List Spu) : settled (list.map act) = list.map Spu.id := by
  rw [settled, List.filterMap_map, ← List.filterMap_eq_map]
  exact congrArg (List.filterMap · list) (funext h)

theorem taken_map {act : Spu → Act} (h : ∀ spu, (act spu).takes = none) (list : List Spu) :
    taken (list.map act) = [] := by
  rw [taken, List.filterMap_map, List.filterMap_eq_nil_iff]
  exact fun spu _ => h spu

/-- Moving items from the queue to the log keeps the count. -/
theorem held_of_perm {s s' : State} {moved : List ℕ} (i : ℕ)
    (hlog : settled s'.log = settled s.log ++ moved)
    (hperm : (s.mEmittedShowingSpu.map Spu.id).Perm (moved ++ s'.mEmittedShowingSpu.map Spu.id)) :
    held s' i = held s i := by
  rw [held, held, hlog, List.count_append, hperm.count_eq, List.count_append]
  omega

/-! ## The parts of the handler -/

theorem held_enqueue (s : State) (spu : Spu) (timestamp : ℤ) (i : ℕ) :
    held (enqueue s spu timestamp) i = held s i + if spu.id = i then 1 else 0 := by
  unfold enqueue
  split
  · rw [held, held, ((sortPts_perm _).map Spu.id).count_eq]
    simp [List.count_singleton, add_right_comm]
  · simp [held, settled, Act.settles, List.count_singleton, add_assoc]

theorem held_limitMemory (s : State) (spu : Spu) (i : ℕ) :
    held (limitMemory s spu) i = held s i := by
  unfold limitMemory
  split
  · refine held_of_perm i (settled_append _ _) ?_
    rw [settled_map fun _ => rfl]
    simp only [State.record]
    rw [← List.map_append, List.take_append_drop]
  · rfl

theorem held_throwOutOfDate (s : State) (timestamp : ℤ) (i : ℕ) :
    held (throwOutOfDate s timestamp) i = held s i := by
  have hlog : (throwOutOfDate s timestamp).log =
      s.log ++ (s.mEmittedShowingSpu.takeWhile (isOutOfDate timestamp)).map .outOfDate := by
    unfold throwOutOfDate
    dsimp only
    split <;> rfl
  refine held_of_perm i (hlog ▸ settled_append _ _) ?_
  rw [settled_map fun _ => rfl, throwOutOfDate_showing, ← List.map_append,
    List.takeWhile_append_dropWhile]

theorem held_throwFarAhead (s : State) (timestamp : ℤ) (i : ℕ) :
    held (throwFarAhead s timestamp) i = held s i := by
  refine held_of_perm i (settled_append _ _) ?_
  rw [settled_map fun _ => rfl, throwFarAhead_showing, ← List.map_append]
  exact ((List.filter_append_perm _ _).map Spu.id).symm

theorem combineSamePtsSubtitle_spec {spu1 spu2 both : Spu}
    (h : combineSamePtsSubtitle spu1 spu2 = some both) :
    both.id = spu1.id ∧ both.pts = spu2.pts ∧ both.spuData ≠ none := by
  unfold combineSamePtsSubtitle at h
  split_ifs at h with _ _ hpts
  rw [← Option.some.inj h]
  exact ⟨rfl, not_not.mp hpts, by simp⟩

theorem held_combineNext (s : State) (spu : Spu) (i : ℕ) :
    held (combineNext s spu).1 i = held s i ∧ (combineNext s spu).2.id = spu.id := by
  obtain ⟨secondSpu, rest, both, hqueue, hboth, h⟩ | ⟨-, h⟩ := combineNext_cases s spu
  · rw [h]
    refine ⟨held_of_perm i (settled_append _ _) ?_, (combineSamePtsSubtitle_spec hboth).1⟩
    rw [hqueue]
    exact List.Perm.refl _
  · rw [h]
    exact ⟨rfl, rfl⟩

/-- Presenting an item puts one entry into the log. -/
theorem present_spec (s : State) (spu : Spu) :
    ∃ act, present s spu = s.record [act] ∧ act.presents = some spu.id ∧
      act.settles = some spu.id ∧ act.takes = none ∧ MergedShown [act] := by
  unfold present
  split
  · split_ifs
    · exact ⟨.bypassed spu, rfl, rfl, rfl, rfl, trivial⟩
    · exact ⟨.clearedObject spu, rfl, rfl, rfl, rfl, trivial⟩
    · exact ⟨.cleared spu, rfl, rfl, rfl, rfl, trivial⟩
  · exact ⟨.shown spu, rfl, rfl, rfl, rfl, trivial⟩

theorem held_pushFading (s : State) (spu : Spu) (i : ℕ) :
    held (pushFading s spu) i = held s i := by
  unfold pushFading
  split
  · rfl
  · rename_i cachedSpu rest _
    have hnone : settled [.removed cachedSpu] = [] := rfl
    simp [held, hnone]

theorem held_showSpu (s : State) (spu : Spu) (timestamp : ℤ) (i : ℕ) :
    held (showSpu s spu timestamp) i = held s i + if spu.id = i then 1 else 0 := by
  obtain ⟨hnext, hid⟩ := held_combineNext s spu i
  obtain ⟨act, hpresent, -, hsettles, -, -⟩ :=
    present_spec (combineNext s spu).1 (combineNext s spu).2
  rw [showSpu_eq, held_pushFading, hpresent, ← hnext, held, held, ← hid]
  simp [settled, hsettles, List.count_singleton, add_assoc]

theorem held_fade (s : State) (timestamp : ℤ) (i : ℕ) : held (fade s timestamp) i = held s i := by
  unfold fade
  split
  · rfl
  · rename_i spu rest _
    have hnone : settled [.faded spu] = [] := rfl
    split_ifs <;> simp [held, hnone]

theorem repair_id (spu : Spu) (timestamp : ℤ) : (repair spu timestamp).id = spu.id := by
  unfold repair compareBitAndSyncPts
  dsimp only
  split_ifs <;> rfl

theorem fixFading_id (spu : Spu) (timestamp : ℤ) : (fixFading spu timestamp).id = spu.id := by
  unfold fixFading
  split_ifs <;> rfl

/-- Without a misfire the item that leaves the queue is the one presented. -/
theorem held_showFront {s : State} {spu : Spu} {purged : Bool} {timestamp : ℤ}
    (hfront : purged = false → ∃ rest, s.mEmittedShowingSpu = spu :: rest)
    (hfire : purged = true → ¬ isDue (repair spu timestamp) timestamp) (i : ℕ) :
    held (showFront s spu purged timestamp) i = held s i := by
  obtain ⟨hdue, hshow⟩ | ⟨-, hwait⟩ := showFront_cases s spu purged timestamp
  · cases purged with
    | true => exact absurd hdue (hfire rfl)
    | false =>
      obtain ⟨rest, hrest⟩ := hfront rfl
      rw [hshow, held_showSpu, repair_id, held, held, hrest]
      simp [List.count_cons, settled, add_right_comm]
  · rw [hwait]
    cases purged with
    | true => rfl
    | false =>
      obtain ⟨rest, hrest⟩ := hfront rfl
      rw [held, held, hrest]
      simp [repair_id]

/-! ## What stays as it is -/

/-- The handler goes on without taking anything from the parser. -/
structure Proceeds (s s' : State) : Prop where
  decoded : s'.mDecodedSpu = s.mDecodedSpu
  added : s'.added = s.added
  log : ∃ acts, s'.log = s.log ++ acts ∧ taken acts = [] ∧ MergedShown acts

theorem Proceeds.refl (s : State) : Proceeds s s := ⟨rfl, rfl, [], by simp, rfl, trivial⟩

theorem Proceeds.trans {s s' s'' : State} (h : Proceeds s s') (h' : Proceeds s' s'') :
    Proceeds s s'' := by
  obtain ⟨acts, hacts, htaken, hmerged⟩ := h.log
  obtain ⟨acts', hacts', htaken', hmerged'⟩ := h'.log
  refine ⟨h'.decoded.trans h.decoded, h'.added.trans h.added, acts ++ acts', ?_, ?_, ?_⟩
  · rw [hacts', hacts, List.append_assoc]
  · rw [taken_append, htaken, htaken', List.append_nil]
  · exact mergedShown_append hmerged hmerged'

theorem Proceeds.taken {s s' : State} (h : Proceeds s s') : taken s'.log = taken s.log := by
  obtain ⟨acts, hacts, htaken, -⟩ := h.log
  rw [hacts, taken_append, htaken, List.append_nil]

theorem proceeds_map {s s' : State} {act : Spu → Act} {list : List Spu}
    (hdecoded : s'.mDecodedSpu = s.mDecodedSpu) (hadded : s'.added = s.added)
    (hlog : s'.log = s.log ++ list.map act) (htakes : ∀ spu, (act spu).takes = none)
    (hmerged : ∀ spu acts, MergedShown acts → MergedShown (act spu :: acts)) : Proceeds s s' :=
  ⟨hdecoded, hadded, _, hlog, taken_map htakes list, mergedShown_map hmerged list⟩

theorem proceeds_enqueue (s : State) (spu : Spu) (timestamp : ℤ) :
    Proceeds s (enqueue s spu timestamp) := by
  unfold enqueue
  split
  · exact ⟨rfl, rfl, [], by simp, rfl, trivial⟩
  · exact ⟨rfl, rfl, [.zeroClock spu], rfl, rfl, trivial⟩

theorem proceeds_limitMemory (s : State) (spu : Spu) : Proceeds s (limitMemory s spu) := by
  unfold limitMemory
  split
  · exact proceeds_map rfl rfl rfl (fun _ => rfl) fun _ _ h => h
  · exact .refl s

theorem proceeds_throwOutOfDate (s : State) (timestamp : ℤ) :
    Proceeds s (throwOutOfDate s timestamp) := by
  unfold throwOutOfDate
  dsimp only
  split
  · exact proceeds_map rfl rfl rfl (fun _ => rfl) fun _ _ h => h
  · exact proceeds_map rfl rfl rfl (fun _ => rfl) fun _ _ h => h

theorem proceeds_throwFarAhead (s : State) (timestamp : ℤ) :
    Proceeds s (throwFarAhead s timestamp) :=
  proceeds_map rfl rfl rfl (fun _ => rfl) fun _ _ h => h

theorem proceeds_pushFading (s : State) (spu : Spu) : Proceeds s (pushFading s spu) := by
  unfold pushFading
  split
  · exact ⟨rfl, rfl, [], by simp, rfl, trivial⟩
  · rename_i cachedSpu rest _
    exact ⟨rfl, rfl, [.removed cachedSpu], rfl, rfl, trivial⟩

theorem proceeds_fade (s : State) (timestamp : ℤ) : Proceeds s (fade s timestamp) := by
  unfold fade
  split
  · exact .refl s
  · rename_i spu rest _
    split_ifs
    · exact .refl s
    all_goals first
      | exact ⟨rfl, rfl, [.faded spu], rfl, rfl, trivial⟩
      | exact ⟨rfl, rfl, [], by simp, rfl, trivial⟩

/-- Showing an item, and with it the one merged into it, puts an entry for it into
the log. -/
theorem showSpu_presents (s : State) (spu : Spu) (timestamp : ℤ) :
    Proceeds s (showSpu s spu timestamp) ∧
      ∃ acts act acts', (showSpu s spu timestamp).log = s.log ++ acts ++ act :: acts' ∧
        act.presents = some spu.id := by
  rw [showSpu_eq]
  obtain ⟨secondSpu, rest, both, -, hboth, h⟩ | ⟨-, h⟩ := combineNext_cases s spu
  · obtain ⟨hid, hpts, hdata⟩ := combineSamePtsSubtitle_spec hboth
    have hshown :
        present ({ s with mEmittedShowingSpu := rest }.record [.merged secondSpu]) both =
          ({ s with mEmittedShowingSpu := rest }.record [.merged secondSpu]).record
            [.shown both] := by
      obtain ⟨data, hdata⟩ := Option.ne_none_iff_exists'.mp hdata
      rw [present, hdata]
    rw [h, hshown]
    have hfading := proceeds_pushFading (({ s with mEmittedShowingSpu := rest }.record
      [.merged secondSpu]).record [.shown both]) (fixFading both timestamp)
    constructor
    · refine Proceeds.trans ?_ hfading
      exact ⟨rfl, rfl, [.merged secondSpu, .shown both], by simp, rfl, ⟨both, rfl, hpts⟩, trivial⟩
    · obtain ⟨acts', hacts', -⟩ := hfading.log
      refine ⟨[.merged secondSpu], .shown both, acts', ?_, by rw [← hid]; rfl⟩
      rw [hacts']
      simp
  · obtain ⟨act, hpresent, hpresents, -, htakes, hmerged⟩ := present_spec s spu
    rw [h]
    dsimp only
    rw [hpresent]
    have hfading := proceeds_pushFading (s.record [act]) (fixFading spu timestamp)
    constructor
    · have hrecord : Proceeds s (s.record [act]) :=
        ⟨rfl, rfl, [act], rfl, by simp [taken, htakes], hmerged⟩
      exact hrecord.trans hfading
    · obtain ⟨acts', hacts', -⟩ := hfading.log
      refine ⟨[], act, acts', ?_, hpresents⟩
      rw [hacts']
      simp

theorem proceeds_showFront (s : State) (spu : Spu) (purged : Bool) (timestamp : ℤ) :
    Proceeds s (showFront s spu purged timestamp) := by
  obtain ⟨-, hshow⟩ | ⟨-, hwait⟩ := showFront_cases s spu purged timestamp
  · rw [hshow]
    refine Proceeds.trans ?_ (showSpu_presents _ _ _).1
    exact proceeds_map rfl rfl rfl (fun _ => rfl) fun _ _ h => h
  · rw [hwait]
    exact ⟨rfl, rfl, [], by simp, rfl, trivial⟩

/-- Taking an item puts it on the account. -/
theorem takeSpu_cases (s : State) (timestamp : ℤ) :
    (s.mDecodedSpu = [] ∧ takeSpu s timestamp = s) ∨
      ∃ item rest, s.mDecodedSpu = item :: rest ∧
        Proceeds ({ s with mDecodedSpu := rest }.record [.took item]) (takeSpu s timestamp) ∧
        ∀ i, held (takeSpu s timestamp) i = held s i + if item.id = i then 1 else 0 := by
  unfold takeSpu
  cases hqueue : s.mDecodedSpu with
  | nil => exact Or.inl ⟨rfl, rfl⟩
  | cons item rest =>
    refine Or.inr ⟨item, rest, rfl, ?_, fun i => ?_⟩
    · exact (proceeds_enqueue _ _ _).trans (proceeds_limitMemory _ _)
    · have hnone : settled [.took item] = [] := rfl
      rw [held_limitMemory, held_enqueue, adjustFarPts_id]
      simp [held, hnone]

/-- What follows the taking of an item takes none, and without a misfire loses
none. -/
theorem checkSpu_spec (s : State) (timestamp : ℤ) :
    Proceeds (takeSpu (s.removeMessages .ptsTimeCheckSpu) timestamp) (checkSpu s timestamp) ∧
      (¬ Misfire s timestamp → ∀ i, held (checkSpu s timestamp) i =
        held (takeSpu (s.removeMessages .ptsTimeCheckSpu) timestamp) i) := by
  have hthin : Proceeds (takeSpu (s.removeMessages .ptsTimeCheckSpu) timestamp)
      (thinned s timestamp) :=
    (proceeds_throwOutOfDate _ _).trans (proceeds_throwFarAhead _ _)
  have hthinned : ∀ i, held (thinned s timestamp) i =
      held (takeSpu (s.removeMessages .ptsTimeCheckSpu) timestamp) i := fun i => by
    rw [thinned, held_throwFarAhead, held_throwOutOfDate]
  obtain ⟨-, hcheck⟩ | ⟨-, -, hcheck⟩ | ⟨spu, rest, hqueue, hleft, hcheck⟩ :=
    checkSpu_cases s timestamp
  · rw [hcheck]
    exact ⟨proceeds_fade _ _, fun _ i => held_fade _ _ i⟩
  · rw [hcheck]
    exact ⟨hthin, fun _ => hthinned⟩
  · rw [hcheck]
    refine ⟨(hthin.trans (proceeds_showFront _ _ _ _)).trans (proceeds_fade _ _), fun hno i => ?_⟩
    rw [throwOutOfDate_showing] at hqueue
    rw [held_fade, ← hthinned]
    refine held_showFront ?_ ?_ i
    · intro hnear
      refine ⟨rest.filter fun it => !isFarAhead timestamp it, ?_⟩
      show (thinned s timestamp).mEmittedShowingSpu = _
      rw [thinned_showing, lookedAt, hqueue, List.filter_cons_of_pos (by simp [hnear])]
    · exact fun hfar hdue => hno ⟨spu, rest, hqueue, hfar, hleft, hdue⟩

/-! ## Every run -/

/-- The items are numbered as they are added, and every item taken is queued or
settled as often as it was taken. -/
structure Account (s : State) : Prop where
  nodup : (taken s.log ++ s.mDecodedSpu.map Spu.id).Nodup
  lt : ∀ i ∈ taken s.log ++ s.mDecodedSpu.map Spu.id, i < s.added
  held : ∀ i, held s i = (taken s.log).count i
  merged : MergedShown s.log

theorem Account.takeSpu {s : State} (h : Account s) (timestamp : ℤ) :
    Account (takeSpu s timestamp) := by
  obtain ⟨-, htake⟩ | ⟨item, rest, hqueue, hgo, hheld⟩ := takeSpu_cases s timestamp
  · rw [htake]
    exact h
  · have htaken : taken (Presentation.takeSpu s timestamp).log = taken s.log ++ [item.id] :=
      hgo.taken.trans (taken_append _ _)
    have hall : taken (Presentation.takeSpu s timestamp).log ++
        (Presentation.takeSpu s timestamp).mDecodedSpu.map Spu.id =
          taken s.log ++ s.mDecodedSpu.map Spu.id := by
      rw [htaken, hgo.decoded, hqueue]
      simp
    have hmerged : MergedShown (Presentation.takeSpu s timestamp).log := by
      obtain ⟨acts, hacts, -, hmerged⟩ := hgo.log
      rw [hacts]
      exact mergedShown_append (mergedShown_append h.merged trivial) hmerged
    refine ⟨hall ▸ h.nodup, fun i hi => ?_, fun i => ?_, hmerged⟩
    · rw [hgo.added]
      exact h.lt i (hall ▸ hi)
    · rw [hheld, h.held, htaken, List.count_append, List.count_singleton]
      simp

theorem Account.proceeds {s s' : State} (h : Account s) (hgo : Proceeds s s')
    (hheld : ∀ i, Presentation.held s' i = Presentation.held s i) : Account s' := by
  obtain ⟨acts, hacts, -, hmerged⟩ := hgo.log
  refine ⟨?_, ?_, fun i => ?_, ?_⟩
  · rw [hgo.taken, hgo.decoded]
    exact h.nodup
  · rw [hgo.taken, hgo.decoded, hgo.added]
    exact h.lt
  · rw [hheld, hgo.taken, h.held]
  · rw [hacts]
    exact mergedShown_append h.merged hmerged

/-- The parser drops items from its queue and numbers the one it adds. -/
theorem Account.addDecodedItem {s : State} (h : Account s) (item : Spu) :
    Account (addDecodedItem s item) := by
  have hsub : (taken s.log ++
      (s.mDecodedSpu.drop (s.mDecodedSpu.length + 1 - INTERNAL_MAX_NUMBER_SPU_ITEM)).map
        Spu.id).Sublist (taken s.log ++ s.mDecodedSpu.map Spu.id) :=
    (List.Sublist.refl _).append ((List.drop_sublist _ _).map _)
  have hids : (taken (Presentation.addDecodedItem s item).log ++
      (Presentation.addDecodedItem s item).mDecodedSpu.map Spu.id) =
      (taken s.log ++
        (s.mDecodedSpu.drop (s.mDecodedSpu.length + 1 - INTERNAL_MAX_NUMBER_SPU_ITEM)).map
          Spu.id) ++ [s.added] := by
    simp [Presentation.addDecodedItem]
  refine ⟨?_, ?_, h.held, h.merged⟩
  · rw [hids, List.nodup_append]
    refine ⟨h.nodup.sublist hsub, List.nodup_singleton _, fun i hi j hj => ?_⟩
    have hlt := h.lt i (hsub.subset hi)
    rw [List.mem_singleton.mp hj]
    omega
  · intro i hi
    rw [hids] at hi
    rcases List.mem_append.mp hi with hi | hi
    · exact Nat.lt_succ_of_lt (h.lt i (hsub.subset hi))
    · rw [List.mem_singleton.mp hi]
      exact Nat.lt_succ_self _

theorem Account.resetForSeek {s : State} (h : Account s) : Account (resetForSeek s) := by
  have hsub : (taken s.log ++ []).Sublist (taken s.log ++ s.mDecodedSpu.map Spu.id) :=
    (List.Sublist.refl _).append (List.nil_sublist _)
  exact ⟨h.nodup.sublist hsub, fun i hi => h.lt i (hsub.subset hi), h.held, h.merged⟩

theorem Account.checkSpu {s : State} (h : Account s) {timestamp : ℤ}
    (hfire : ¬ Misfire s timestamp) : Account (checkSpu s timestamp) := by
  have hclear : Account (s.removeMessages .ptsTimeCheckSpu) := ⟨h.nodup, h.lt, h.held, h.merged⟩
  exact (hclear.takeSpu timestamp).proceeds (checkSpu_spec s timestamp).1
    ((checkSpu_spec s timestamp).2 hfire)

theorem misfire_setLooper (s : State) (messages : List Message) (timestamp : ℤ) :
    Misfire { s with mLooper := messages } timestamp ↔ Misfire s timestamp := by
  simp only [Misfire, thinned_showing, lookedAt_setLooper]

theorem Account.exec {s : State} (h : Account s) {e : Event}
    (hfire : ∀ timestamp, IsCheck s e timestamp → ¬ Misfire s timestamp) : Account (exec s e) := by
  cases e with
  | addDecodedItem item => exact h.addDecodedItem item
  | resetForSeek => exact h.resetForSeek
  | deliver k clock =>
    obtain ⟨-, hnone⟩ | ⟨m, hm, ⟨-, hwait⟩ | ⟨hclock, hstream⟩⟩ := exec_deliver_cases s k clock
    · rw [hnone]
      exact h
    · rw [hwait]
      exact ⟨h.nodup, h.lt, h.held, h.merged⟩
    · have hrest : Account { s with mLooper := s.mLooper.eraseIdx k } :=
        ⟨h.nodup, h.lt, h.held, h.merged⟩
      rw [hstream]
      cases hwhat : m.what with
      | ptsTimeCheckSpu =>
        refine hrest.checkSpu ?_
        rw [misfire_setLooper]
        exact hfire _ ⟨k, clock, rfl, by rw [hm, Option.map_some, hwhat], hclock, rfl⟩
      | resetMessageQueue =>
        have hsettled : settled (s.mEmittedShowingSpu.map .reset ++ [.resetScreen]) =
            s.mEmittedShowingSpu.map Spu.id ++ [] := by
          rw [settled_append, settled_map fun _ => rfl]
          rfl
        refine hrest.proceeds ⟨rfl, rfl, _, rfl, ?_, ?_⟩ fun i =>
          held_of_perm i (settled_append _ _) ?_
        · rw [taken_append, taken_map fun _ => rfl]
          rfl
        · refine mergedShown_append (mergedShown_map ?_ _) trivial
          exact fun _ _ h => h
        · rw [hsettled]
          exact (List.append_nil _).symm ▸ List.Perm.of_eq (List.append_nil _).symm

theorem thinned_log (s : State) (timestamp : ℤ) :
    ∃ acts, (thinned s timestamp).log = s.log ++ acts := by
  have hthin : Proceeds (takeSpu (s.removeMessages .ptsTimeCheckSpu) timestamp)
      (thinned s timestamp) :=
    (proceeds_throwOutOfDate _ _).trans (proceeds_throwFarAhead _ _)
  obtain ⟨acts, hacts, -⟩ := hthin.log
  obtain ⟨-, htake⟩ | ⟨item, rest, -, hgo, -⟩ :=
    takeSpu_cases (s.removeMessages .ptsTimeCheckSpu) timestamp
  · exact ⟨acts, by rw [hacts, htake]; rfl⟩
  · obtain ⟨acts', hacts', -⟩ := hgo.log
    exact ⟨[.took item] ++ acts' ++ acts, by rw [hacts, hacts']; simp⟩

/-- An immediate item at the front of the queue is presented. -/
theorem presents_immediate {s : State} {timestamp : ℤ} {spu : Spu} {rest : List Spu}
    (hqueue : lookedAt s timestamp = spu :: rest) (himm : spu.isImmediatePresent = true) :
    ∃ acts act acts', (checkSpu s timestamp).log = s.log ++ acts ++ act :: acts' ∧
      act.presents = some spu.id := by
  have hnear : isFarAhead timestamp spu = false := by simp [isFarAhead, himm]
  have hkept : (thinned s timestamp).mEmittedShowingSpu ≠ [] := by
    rw [thinned_showing, hqueue, List.filter_cons_of_pos (by simp [hnear])]
    exact List.cons_ne_nil _ _
  have hrepair : (repair spu timestamp).isImmediatePresent = true := by
    unfold repair compareBitAndSyncPts
    dsimp only
    split_ifs <;> exact himm
  obtain ⟨hempty, -⟩ | ⟨-, hempty, -⟩ | ⟨spu', rest', hqueue', -, hcheck⟩ :=
    checkSpu_cases s timestamp
  · rw [lookedAt, hempty, List.dropWhile_nil] at hqueue
    exact absurd hqueue (by simp)
  · exact absurd hempty hkept
  · rw [throwOutOfDate_showing, ← lookedAt, hqueue] at hqueue'
    rw [← (List.cons.inj hqueue').1] at hcheck
    obtain ⟨-, hshow⟩ | ⟨hdue, -⟩ :=
      showFront_cases (thinned s timestamp) spu (isFarAhead timestamp spu) timestamp
    · obtain ⟨before, hbefore⟩ := thinned_log s timestamp
      obtain ⟨-, acts, act, acts', hacts, hpresents⟩ := showSpu_presents
        ({ thinned s timestamp with
          mEmittedShowingSpu := (thinned s timestamp).mEmittedShowingSpu.tail }.record
            ((if isFarAhead timestamp spu then (thinned s timestamp).mEmittedShowingSpu.take 1
              else []).map .popped)) (repair spu timestamp) timestamp
      obtain ⟨after, hafter, -⟩ := (proceeds_fade (showFront (thinned s timestamp) spu
        (isFarAhead timestamp spu) timestamp) timestamp).log
      refine ⟨before ++ acts, act, acts' ++ after, ?_, hpresents.trans (by rw [repair_id])⟩
      rw [hcheck]
      refine hafter.trans ?_
      rw [hshow, hacts, hnear]
      simp [hbefore]
    · exact absurd (Or.inl hrepair) hdue

/-- **What becomes of the items.**  In a run without misfires every item taken from
the parser is either queued or settled, once; an item that is merged is merged into
one with the same time stamp that is shown at once.  And in every run a check
presents an immediate item that is at the front of the queue. -/
theorem no_silent_loss (clock : Clock) (es : List Event)
    (h : Meets exec (fun s e => ∀ timestamp, IsCheck s e timestamp → ¬ Misfire s timestamp)
      (start clock) es) :
    ∀ t, Reached exec (start clock) es t →
      (∀ i ∈ taken t.log,
        (t.mEmittedShowingSpu.map Spu.id).count i + (settled t.log).count i = 1) ∧
      MergedShown t.log ∧
      ∀ e timestamp, IsCheck t e timestamp → ∀ spu rest, lookedAt t timestamp = spu :: rest →
        spu.isImmediatePresent = true → ∃ acts act acts',
          (exec t e).log = t.log ++ acts ++ act :: acts' ∧ act.presents = some spu.id := by
  intro t ht
  have hstart : Account (start clock) :=
    ⟨List.nodup_nil, by simp [start, taken], fun _ => rfl, trivial⟩
  have hinv := invariant_of_meets (fun s e (hs : Account s) hfire => hs.exec hfire) hstart h ht
  refine ⟨fun i hi => ?_, hinv.merged, ?_⟩
  · have hcount := List.count_eq_one_of_mem (List.nodup_append.mp hinv.nodup).1 hi
    rw [← hcount]
    exact hinv.held i
  · rintro e timestamp ⟨k, clock', rfl, hwhat, hclock, rfl⟩ spu rest hqueue himm
    obtain ⟨hnone, -⟩ | ⟨m, hm, ⟨hwait, -⟩ | ⟨-, hstream⟩⟩ := exec_deliver_cases t k clock'
    · rw [hnone] at hwhat
      exact absurd hwhat (by simp)
    · omega
    · rw [hm, Option.map_some, Option.some_inj] at hwhat
      rw [hstream, hwhat]
      exact presents_immediate (by rw [lookedAt_setLooper]; exact hqueue) himm

/-- A run that adds an item and checks for it. -/
theorem no_silent_loss_one_item :
    (([.addDecodedItem (textItem 180000 false), .deliver 0 (seconds 1)].foldl exec
          (start (seconds 1))).mEmittedShowingSpu.map Spu.id).count 0 +
        (settled ([.addDecodedItem (textItem 180000 false), .deliver 0 (seconds 1)].foldl exec
          (start (seconds 1))).log).count 0 = 1 := by
  refine (no_silent_loss (seconds 1)
    [.addDecodedItem (textItem 180000 false), .deliver 0 (seconds 1)] ⟨?_, ?_, trivial⟩ _
      (reached_last _ _)).1 0 (by decide)
  · rintro timestamp ⟨k, clock, hevent, -⟩
    exact absurd hevent (by simp)
  · rintro timestamp ⟨k, clock, hevent, -, -, rfl⟩ ⟨spu, rest, hqueue, hfar, -⟩
    rw [← (Event.deliver.inj hevent).2] at hqueue hfar
    have hnear : ∀ it ∈
        lookedAt (exec (start (seconds 1)) (.addDecodedItem (textItem 180000 false)))
        (seconds 1).timestamp, isFarAhead (seconds 1).timestamp it = false := by decide
    rw [hnear spu (hqueue ▸ List.mem_cons_self)] at hfar
    exact absurd hfar (by simp)

/-- A PGS item of one byte, or without data. -/
def pgsItem (pts : ℤ) (spuData : Option (List UInt8)) : Spu :=
  { textItem pts false with isSimpleText := false, subtitleType := .pgs, spuData := spuData }

/-- Three items that go another way.  An immediate item with an item queued in front
of it is not presented by the check that takes it.  A PGS item without data is left
to the item that replaces its object, and the renderer is told nothing.  And with
the clock at `-1000 s` an immediate item is taken off the queue in place of one
thrown away by the ten minutes rule. -/
theorem not_presented_immediate_bypassed_popped :
    (∃ t, t = [.addDecodedItem (textItem 945000 false),
          .addDecodedItem { textItem 1080000 false with isImmediatePresent := true },
          .deliver 0 (seconds 10), .deliver 0 (seconds 10)].foldl exec (start (seconds 1)) ∧
        taken t.log = [0, 1] ∧ t.mEmittedShowingSpu.map Spu.id = [0, 1] ∧
        t.mEmittedShowingSpu.map Spu.isImmediatePresent = [false, true] ∧ settled t.log = []) ∧
      (∃ t, t = [.addDecodedItem (pgsItem 990000 none),
          .addDecodedItem (pgsItem 990000 (some [65])),
          .deliver 0 (seconds 10), .deliver 0 (seconds 10), .deliver 0 (seconds 11)].foldl exec
            (start (seconds 1)) ∧
        taken t.log = [0, 1] ∧ 0 ∉ t.mEmittedShowingSpu.map Spu.id ∧
        ∀ act ∈ t.log, act.settles = some 0 → act = .bypassed (pgsItem 990000 none)) ∧
      ∃ t, t = [.addDecodedItem (textItem 90000000 false),
          .addDecodedItem { textItem 90090000 false with isImmediatePresent := true },
          .deliver 0 (seconds 900), .deliver 0 (seconds 900),
          .deliver 0 ⟨-1001000000000, 1000000000⟩].foldl exec (start (seconds 1)) ∧
        taken t.log = [0, 1] ∧ t.mEmittedShowingSpu = [] ∧ 1 ∉ settled t.log := by
  refine ⟨⟨_, rfl, ?_⟩, ⟨_, rfl, ?_⟩, ⟨_, rfl, ?_⟩⟩ <;> decide

end Presentation
end AmlSubtitle
