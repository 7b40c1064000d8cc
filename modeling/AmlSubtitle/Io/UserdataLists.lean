import AmlSubtitle.Io.Userdata

/-!
# The lists behind the closed-caption reorder buffer

`CcQueue` is the reorder buffer without its memory: the waiting records, what was
given out, the counter and the picture order count the code keeps.  Its operations
are those of `Reorder` in the order in which the code makes them.

`Shows ud head cc fr q` says that the nodes at the addresses `cc` are linked from
`head`, those at `fr` from `free_list`, that no node is on both lists or twice on
one, and that the records of `cc` are the waiting records of `q`.  It is stated for
any `head`, since in the middle of a flush the list starts at a local variable.

* `exec_refines`: every call of the code does to the linked lists what the call of
  `CcQueue` does to the buffer, and follows a null pointer exactly where the call of
  `CcQueue` finds no record to give out.
-/

namespace AmlSubtitle

open Thread Words

/-- The reorder buffer, `cc_num` and `curr_poc`. -/
structure CcQueue where
  queue : Reorder CcRecord
  num : ℤ
  poc : ℤ

namespace CcQueue

/-- `aml_flush_cc_data`. -/
def flush (v : CcQueue) : CcQueue := ⟨v.queue.releaseAll, 0, -1⟩

/-- The first record given out of a full buffer; none is there to give out of an empty
one. -/
def evict (v : CcQueue) : Option CcQueue :=
  if AmUDDrvData.maxCcNum ≤ v.num then
    if v.queue.waiting = [] then none else some ⟨v.queue.release, v.num - 1, v.poc⟩
  else
    some v

/-- A picture far before the first record flushes the buffer. -/
def flushOld (v : CcQueue) (r : CcRecord) : CcQueue :=
  match v.queue.waiting with
  | [] => v
  | c :: _ => if r.poc < asSigned 32 (c.poc - 30) then v.flush else v

/-- `aml_add_cc_data`; `ok` says whether there was memory for the record. -/
def add (v : CcQueue) (r : CcRecord) (ok : Bool) : Option CcQueue :=
  v.evict.map fun v =>
    let v := v.flushOld r
    if ok then ⟨v.queue.insert CcRecord.Before r, v.num + 1, v.poc⟩ else v

/-- The records that follow on the picture `poc`, from a list of waiting ones: how many
there are, and the last picture. -/
def followers : List CcRecord → ℤ → ℕ × ℤ
  | [], poc => (0, poc)
  | c :: w, poc =>
    if asSigned 32 (poc + 1) ≠ c.poc then (0, poc)
    else ((followers w (asSigned 32 (poc + 1))).1 + 1, (followers w (asSigned 32 (poc + 1))).2)

/-- The loop of `aml_mpeg_userdata_package`.  It leaves `cc_num` as it is. -/
def drain (v : CcQueue) : CcQueue :=
  let k := followers v.queue.waiting v.poc
  ⟨⟨v.queue.waiting.drop k.1, v.queue.out ++ v.queue.waiting.take k.1⟩, v.num, k.2⟩

/-- `aml_mpeg_userdata_package`. -/
def package (v : CcQueue) (type : ℤ) (r : CcRecord) (ok : Bool) : Option CcQueue :=
  if AmUDDrvData.IsCaption r then
    let v := if type = AmUDDrvData.iType then v.flush else v
    if r.poc = asSigned 32 (v.poc + 1) ∨ r.poc = v.poc then
      some (drain ⟨v.queue.pass r, v.num, r.poc⟩)
    else
      v.add r ok
  else
    some v

theorem drain_of_ne {v : CcQueue}
    (h : ∀ c ∈ v.queue.waiting.head?, asSigned 32 (v.poc + 1) ≠ c.poc) : v.drain = v := by
  obtain ⟨⟨w, out⟩, num, poc⟩ := v
  cases w with
  | nil => simp [drain, followers]
  | cons c w =>
    have hne := h c rfl
    simp only [drain, followers, if_pos hne, List.drop_zero, List.take_zero, List.append_nil]

theorem drain_of_eq {v : CcQueue} {c : CcRecord} {w : List CcRecord}
    (hw : v.queue.waiting = c :: w) (h : asSigned 32 (v.poc + 1) = c.poc) :
    v.drain = drain ⟨v.queue.release, v.num, asSigned 32 (v.poc + 1)⟩ := by
  obtain ⟨⟨w', out⟩, num, poc⟩ := v
  dsimp only at hw h
  subst hw
  simp [drain, followers, h, Reorder.release]

end CcQueue

namespace AmUDDrvData

/-- A call on the reorder buffer. -/
inductive Event where
  | add (r : CcRecord) (alloc : Alloc)
  | package (type : ℤ) (r : CcRecord) (alloc : Alloc)
  | flush

/-- What the allocator answers in a call. -/
def Event.alloc : Event → Alloc
  | .add _ alloc => alloc
  | .package _ _ alloc => alloc
  | .flush => ⟨true, true⟩

/-- A call. -/
def exec (ud : AmUDDrvData) : Event → Option AmUDDrvData
  | .add r alloc => ud.amlAddCcData r alloc
  | .package type r alloc => ud.amlMpegUserdataPackage type r alloc
  | .flush => ud.amlFlushCcData

/-- The same call on the reorder buffer. -/
def execQueue (v : CcQueue) (ok : Bool) : Event → Option CcQueue
  | .add r _ => v.add r ok
  | .package type r _ => v.package type r ok
  | .flush => some v.flush

/-! ## Linked lists and records -/

/-- The records of the nodes at some addresses. -/
def records (heap : ℕ → Option AmCcData) (l : List ℕ) : List CcRecord :=
  l.filterMap fun p => (heap p).map AmCcData.toCcRecord

/-- The lists of nodes behind a reorder buffer. -/
structure Shows (ud : AmUDDrvData) (head : Option ℕ) (cc fr : List ℕ) (q : Reorder CcRecord) :
    Prop where
  ccChain : Chain AmCcData.next ud.heap head cc
  freeChain : Chain AmCcData.next ud.heap ud.freeList fr
  nodup : (cc ++ fr).Nodup
  fresh : ∀ p, ud.nextPtr ≤ p → ud.heap p = none
  waiting : records ud.heap cc = q.waiting
  out : ud.written = q.out

/-- The code's state is that of the reorder buffer. -/
def Refines (ud : AmUDDrvData) (v : CcQueue) : Prop :=
  (∃ cc fr, Shows ud ud.ccList cc fr v.queue) ∧ ud.ccNum = v.num ∧ ud.currPoc = v.poc

section Records

variable {heap heap' : ℕ → Option AmCcData} {l : List ℕ} {p : ℕ} {n : AmCcData}

theorem records_cons (h : heap p = some n) :
    records heap (p :: l) = n.toCcRecord :: records heap l := by
  rw [records, List.filterMap_cons, h]
  rfl

theorem records_append (l l' : List ℕ) :
    records heap (l ++ l') = records heap l ++ records heap l' := List.filterMap_append ..

theorem records_congr
    (h : ∀ p ∈ l, (heap' p).map AmCcData.toCcRecord = (heap p).map AmCcData.toCcRecord) :
    records heap' l = records heap l := List.filterMap_congr h

/-- A write off the list is not seen. -/
theorem records_update (h : p ∉ l) : records (Function.update heap p (some n)) l = records heap l :=
  records_congr fun p' hp' => by rw [Function.update_of_ne (ne_of_mem_of_not_mem hp' h)]

theorem length_records {head : Option ℕ} (h : Chain AmCcData.next heap head l) :
    (records heap l).length = l.length := by
  induction h with
  | nil => rfl
  | cons hp _ ih => rw [records_cons hp, List.length_cons, List.length_cons, ih]

end Records

/-- A write off a list is not seen. -/
theorem chain_update {heap : ℕ → Option AmCcData} {q : Option ℕ} {l : List ℕ} {p : ℕ}
    {n : AmCcData} (h : Chain AmCcData.next heap q l) (hp : p ∉ l) :
    Chain AmCcData.next (Function.update heap p (some n)) q l :=
  h.congr fun p' hp' => by rw [Function.update_of_ne (ne_of_mem_of_not_mem hp' hp)]

variable {ud : AmUDDrvData} {head : Option ℕ} {cc fr : List ℕ} {q : Reorder CcRecord}

theorem Shows.length_eq (h : Shows ud head cc fr q) : q.waiting.length = cc.length := by
  rw [← h.waiting, length_records h.ccChain]

/-- The walks have enough fuel. -/
theorem Shows.length_le (h : Shows ud head cc fr q) : cc.length ≤ ud.nextPtr := by
  refine length_le_of_lt (List.nodup_append.mp h.nodup).1 fun p hp => ?_
  obtain ⟨n, hn⟩ := h.ccChain.live hp
  by_contra hge
  rw [h.fresh p (not_lt.mp hge)] at hn
  cases hn

/-- A list with a waiting record has a first node, with that record in it. -/
theorem Shows.exists_head (h : Shows ud head cc fr q) {c : CcRecord} {w : List CcRecord}
    (hw : q.waiting = c :: w) :
    ∃ p n cc', cc = p :: cc' ∧ head = some p ∧ ud.heap p = some n ∧ n.toCcRecord = c := by
  have hwaiting := h.waiting
  have hchain := h.ccChain
  cases cc with
  | nil =>
    rw [hw] at hwaiting
    cases hwaiting
  | cons p cc' =>
    obtain ⟨hhead, n, hn, -⟩ := hchain.of_cons
    rw [records_cons hn, hw] at hwaiting
    exact ⟨p, n, cc', rfl, hhead, hn, (List.cons.inj hwaiting).1⟩

theorem Shows.head_eq_none (h : Shows ud head cc fr q) (hw : q.waiting = []) : head = none := by
  have hlen := h.length_eq
  rw [hw, List.length_nil] at hlen
  exact h.ccChain.eq_none_iff.mpr (List.length_eq_zero_iff.mp hlen.symm)

/-! ## Writing out -/

/-- **Writing the first node out** moves it from the one list to the other. -/
theorem Shows.recycle {p : ℕ} {n : AmCcData} (h : Shows ud (some p) (p :: cc) fr q)
    (hn : ud.heap p = some n) :
    Shows ((ud.amlWriteUserdata n.toCcRecord).recycle p n) n.next cc (p :: fr) q.release := by
  obtain ⟨hcc, hfr, hnodup, hfresh, hwaiting, hout⟩ := h
  obtain ⟨-, n', hn', hchain⟩ := hcc.of_cons
  rw [hn, Option.some_inj] at hn'
  subst hn'
  rw [List.cons_append, List.nodup_cons, List.mem_append, not_or] at hnodup
  rw [records_cons hn] at hwaiting
  have hq := Reorder.release_of_cons hwaiting.symm
  refine ⟨chain_update hchain hnodup.1.1, Chain.cons (Function.update_self ..) ?_, ?_, ?_, ?_, ?_⟩
  · exact chain_update hfr hnodup.1.2
  · rw [List.nodup_middle, List.nodup_cons, List.mem_append, not_or]
    exact hnodup
  · intro p' hp'
    have hne : p' ≠ p := by
      rintro rfl
      rw [hfresh p' hp'] at hn
      cases hn
    exact (Function.update_of_ne hne ..).trans (hfresh p' hp')
  · rw [hq]
    exact records_update hnodup.1.1
  · rw [hq]
    exact congrArg (· ++ [n.toCcRecord]) hout

/-- The loop of a flush, over any list. -/
theorem Shows.flushLoop (h : Shows ud head cc fr q) {fuel : ℕ} (hfuel : cc.length ≤ fuel) :
    ∃ ud' fr', flushLoop fuel head ud = some ud' ∧ Shows ud' none [] fr' q.releaseAll := by
  induction cc generalizing ud head fr q fuel with
  | nil =>
    have hnil : q.waiting = [] := h.waiting.symm
    obtain rfl := h.head_eq_none hnil
    rw [Reorder.releaseAll_of_nil hnil]
    exact ⟨ud, fr, by cases fuel <;> rfl, h⟩
  | cons p cc ih =>
    obtain ⟨fuel, rfl⟩ : ∃ f, fuel = f + 1 := ⟨fuel - 1, by rw [List.length_cons] at hfuel; omega⟩
    rw [List.length_cons, Nat.add_le_add_iff_right] at hfuel
    obtain ⟨rfl, n, hn, -⟩ := h.ccChain.of_cons
    obtain ⟨ud', fr', hloop, hshows⟩ := ih (h.recycle hn) hfuel
    have hne : q.waiting ≠ [] := by
      rw [← h.waiting, records_cons hn]
      exact List.cons_ne_nil _ _
    rw [Reorder.releaseAll_release hne] at hshows
    exact ⟨ud', fr', by rw [AmUDDrvData.flushLoop, hn]; exact hloop, hshows⟩

/-! ## The functions -/

variable {v : CcQueue} {r : CcRecord}

theorem Refines.amlFlushCcData (h : Refines ud v) :
    ∃ ud', ud.amlFlushCcData = some ud' ∧ Refines ud' v.flush := by
  obtain ⟨⟨cc, fr, hshows⟩, -, -⟩ := h
  obtain ⟨ud', fr', hloop, hcc, hfr, hnodup, hfresh, hwaiting, hout⟩ :=
    hshows.flushLoop hshows.length_le
  refine ⟨_, by rw [AmUDDrvData.amlFlushCcData, hloop, Option.map_some], ?_, rfl, rfl⟩
  exact ⟨[], fr', Chain.nil, hfr, hnodup, hfresh, hwaiting, hout⟩

theorem Refines.writeHead (h : Refines ud v) (hne : v.queue.waiting ≠ []) :
    ∃ ud', ud.writeHead = some ud' ∧ Refines ud' ⟨v.queue.release, v.num, v.poc⟩ := by
  obtain ⟨⟨cc, fr, hshows⟩, hnum, hpoc⟩ := h
  obtain ⟨c, w, hw⟩ := List.exists_cons_of_ne_nil hne
  obtain ⟨p, n, cc', rfl, hhead, hn, -⟩ := hshows.exists_head hw
  rw [hhead] at hshows
  obtain ⟨hcc, hfr, hnodup, hfresh, hwaiting, hout⟩ := hshows.recycle hn
  rw [AmUDDrvData.writeHead, hhead, Option.bind_some, hn, Option.map_some]
  exact ⟨_, rfl, ⟨cc', p :: fr, hcc, hfr, hnodup, hfresh, hwaiting, hout⟩, hnum, hpoc⟩

theorem Refines.writeHead_of_nil (h : Refines ud v) (hnil : v.queue.waiting = []) :
    ud.writeHead = none := by
  obtain ⟨⟨cc, fr, hshows⟩, -, -⟩ := h
  rw [AmUDDrvData.writeHead, hshows.head_eq_none hnil, Option.bind_none]

/-- A full buffer gives its first record out, and fails where it has none. -/
theorem Refines.evict (h : Refines ud v) : Option.Rel Refines ud.evict v.evict := by
  have hnum := h.2.1
  unfold AmUDDrvData.evict CcQueue.evict
  rw [hnum]
  split
  · by_cases hnil : v.queue.waiting = []
    · rw [if_pos hnil, h.writeHead_of_nil hnil, Option.map_none]
      exact Option.Rel.none
    · obtain ⟨ud', hwrite, hlists, hnum', hpoc'⟩ := h.writeHead hnil
      rw [if_neg hnil, hwrite, Option.map_some]
      refine Option.Rel.some ⟨?_, congrArg (· - 1) hnum', hpoc'⟩
      obtain ⟨cc, fr, hcc, hfr, hnodup, hfresh, hwaiting, hout⟩ := hlists
      exact ⟨cc, fr, hcc, hfr, hnodup, hfresh, hwaiting, hout⟩
  · exact Option.Rel.some h

theorem Refines.flushOld (h : Refines ud v) (r : CcRecord) :
    ∃ ud', ud.flushOld r = some ud' ∧ Refines ud' (v.flushOld r) := by
  have hrefines := h
  obtain ⟨⟨cc, fr, hshows⟩, -, -⟩ := h
  unfold AmUDDrvData.flushOld CcQueue.flushOld
  cases hw : v.queue.waiting with
  | nil =>
    rw [hshows.head_eq_none hw]
    exact ⟨ud, rfl, hrefines⟩
  | cons c w =>
    obtain ⟨p, n, cc', rfl, hhead, hn, rfl⟩ := hshows.exists_head hw
    rw [hhead]
    dsimp only
    rw [hn, Option.bind_some]
    split
    · exact hrefines.amlFlushCcData
    · exact ⟨ud, rfl, hrefines⟩

/-! ## Insertion -/

/-- **The walk** stops at the place where the record belongs. -/
theorem findPlace_spec {heap : ℕ → Option AmCcData} {l : List ℕ}
    (h : Chain AmCcData.next heap head l) {fuel : ℕ} (hfuel : l.length ≤ fuel) (pcc : Link ℕ) :
    ∃ pre post q', l = pre ++ post ∧
      findPlace heap r fuel pcc head = some (linkAfter pcc pre, q') ∧
      Chain AmCcData.next heap q' post ∧
      (records heap l).orderedInsert CcRecord.Before r =
        records heap pre ++ r :: records heap post := by
  induction h generalizing fuel pcc with
  | nil => exact ⟨[], [], none, rfl, by cases fuel <;> rfl, Chain.nil, rfl⟩
  | @cons p n l hp hl ih =>
    obtain ⟨fuel, rfl⟩ : ∃ f, fuel = f + 1 := ⟨fuel - 1, by rw [List.length_cons] at hfuel; omega⟩
    rw [List.length_cons, Nat.add_le_add_iff_right] at hfuel
    rw [records_cons hp, List.orderedInsert_cons, findPlace, hp, Option.bind_some]
    by_cases hbefore : r.Before n.toCcRecord
    · rw [if_pos hbefore, if_pos hbefore]
      exact ⟨[], p :: l, some p, rfl, rfl, Chain.cons hp hl, by rw [records_cons hp]; rfl⟩
    · rw [if_neg hbefore, if_neg hbefore]
      obtain ⟨pre, post, q', rfl, hfind, hpost, hinsert⟩ := ih hfuel (.after p)
      refine ⟨p :: pre, post, q', rfl, ?_, hpost, ?_⟩
      · rw [hfind, linkAfter, linkAfter, List.getLast?_cons]
        cases pre.getLast? <;> rfl
      · rw [hinsert, records_cons hp]
        rfl

/-- **A node for the record**: one that is on neither list, or none. -/
theorem Shows.takeNode (h : Shows ud head cc fr q) (alloc : Alloc) :
    (ud.takeNode alloc = some (none, ud) ∧ alloc.malloc = false) ∨
      ∃ p n ud' fr', ud.takeNode alloc = some (some (p, n), ud') ∧ Shows ud' head cc fr' q ∧
        p ∉ cc ∧ p ∉ fr' ∧ p < ud'.nextPtr ∧ (∀ p', p' ≠ p → ud'.heap p' = ud.heap p') ∧
        ud'.ccList = ud.ccList ∧ ud'.ccNum = ud.ccNum ∧ ud'.currPoc = ud.currPoc := by
  have hshows := h
  obtain ⟨hcc, hfr, hnodup, hfresh, hwaiting, hout⟩ := h
  unfold AmUDDrvData.takeNode
  cases hfree : ud.freeList with
  | some p =>
    rw [hfree] at hfr
    obtain ⟨n, fr', rfl, hn, hfr'⟩ := hfr.exists_cons
    dsimp only
    rw [hn, Option.map_some]
    rw [List.nodup_middle, List.nodup_cons, List.mem_append, not_or] at hnodup
    refine Or.inr ⟨p, n, _, fr', rfl, ⟨hcc, hfr', hnodup.2, hfresh, hwaiting, hout⟩, hnodup.1.1,
      hnodup.1.2, ?_, fun _ _ => rfl, rfl, rfl, rfl⟩
    by_contra hge
    rw [hfresh p (not_lt.mp hge)] at hn
    cases hn
  | none =>
    rw [hfree] at hfr
    dsimp only
    split
    · have hnew : ∀ l, Chain AmCcData.next ud.heap head l → ud.nextPtr ∉ l := by
        intro l hl hmem
        obtain ⟨n, hn⟩ := hl.live hmem
        rw [hfresh _ le_rfl] at hn
        cases hn
      obtain rfl := hfr.eq_nil
      have hcc' := hnew cc hcc
      refine Or.inr ⟨ud.nextPtr, _, _, [], rfl, ⟨chain_update hcc hcc', ?_, hnodup, ?_, ?_, hout⟩,
        hcc', List.not_mem_nil, Nat.lt_succ_self _, fun p' hp' => Function.update_of_ne hp' ..,
        rfl, rfl, rfl⟩
      · show Chain _ _ ud.freeList []
        rw [hfree]
        exact Chain.nil
      · intro p hp
        have hne : p ≠ ud.nextPtr := by
          have : ud.nextPtr + 1 ≤ p := hp
          omega
        exact (Function.update_of_ne hne ..).trans (hfresh p (by
          have : ud.nextPtr + 1 ≤ p := hp
          omega))
      · exact (records_update hcc').trans hwaiting
    · rename_i hmalloc
      exact Or.inl ⟨rfl, by simpa using hmalloc⟩

/-- A write to a node on neither list. -/
theorem Shows.store {p : ℕ} (h : Shows ud head cc fr q) (hcc : p ∉ cc) (hfr : p ∉ fr)
    (hp : p < ud.nextPtr) (n : AmCcData) : Shows (ud.store p n) head cc fr q := by
  obtain ⟨hchain, hfree, hnodup, hfresh, hwaiting, hout⟩ := h
  refine ⟨chain_update hchain hcc, chain_update hfree hfr, hnodup, fun p' hp' => ?_,
    (records_update hcc).trans hwaiting, hout⟩
  have hle : ud.nextPtr ≤ p' := hp'
  exact (Function.update_of_ne (by omega) ..).trans (hfresh p' hle)

/-- **Linking a new node in**, where the walk has stopped. -/
theorem Shows.setLink {pre post : List ℕ} {p : ℕ} {n : AmCcData}
    (h : Shows ud ud.ccList (pre ++ post) fr q) (hcc : p ∉ pre ++ post) (hfr : p ∉ fr)
    (hp : ud.heap p = some n) (hpost : Chain AmCcData.next ud.heap n.next post) :
    ∃ ud', ud.setLink (linkAfter .head pre) p = some ud' ∧
      Shows ud' ud'.ccList (pre ++ p :: post) fr
        ⟨records ud.heap pre ++ n.toCcRecord :: records ud.heap post, q.out⟩ ∧
      ud'.ccNum = ud.ccNum ∧ ud'.currPoc = ud.currPoc := by
  obtain ⟨hchain, hfree, hnodup, hfresh, -, hout⟩ := h
  have hnodup' : ((pre ++ p :: post) ++ fr).Nodup := by
    rw [List.append_assoc, List.cons_append, List.nodup_middle, ← List.append_assoc,
      List.nodup_cons, List.mem_append, not_or]
    exact ⟨⟨hcc, hfr⟩, hnodup⟩
  rcases List.eq_nil_or_concat' pre with rfl | ⟨pre, a, rfl⟩
  · exact ⟨_, rfl, ⟨Chain.cons hp hpost, hfree, hnodup', hfresh, records_cons hp, hout⟩, rfl, rfl⟩
  · have hlink : linkAfter Link.head (pre ++ [a]) = .after a := by
      simp [linkAfter]
    rw [List.append_assoc, List.singleton_append] at hchain hcc
    have hnodupcc : (pre ++ a :: post).Nodup := by
      have := (List.nodup_append.mp hnodup).1
      rwa [List.append_assoc, List.singleton_append] at this
    obtain ⟨na, hna⟩ := hchain.live (List.mem_append_right pre List.mem_cons_self)
    have hpa : p ≠ a := by
      rintro rfl
      exact hcc (List.mem_append_right pre List.mem_cons_self)
    have hafr : a ∉ fr := fun hmem =>
      (List.nodup_append.mp hnodup).2.2 a (by simp) a hmem rfl
    -- the pointer that the new node takes over is that of the node before it
    have hnext : n.next = na.next := by
      obtain ⟨q', hq'⟩ := hchain.of_append
      obtain ⟨-, na', hna', hpost'⟩ := hq'.of_cons
      rw [hna, Option.some_inj] at hna'
      rw [hpost.pointer_unique hpost', hna']
    rw [hlink, AmUDDrvData.setLink, hna, Option.map_some]
    have hframe : ∀ p', p' ≠ a → (ud.store a { na with next := some p }).heap p' = ud.heap p' :=
      fun p' hp' => Function.update_of_ne hp' ..
    have hself : (ud.store a { na with next := some p }).heap a = some { na with next := some p } :=
      Function.update_self ..
    refine ⟨_, rfl, ⟨?_, chain_update hfree hafr, hnodup', fun p' hp' => ?_, ?_, hout⟩, rfl, rfl⟩
    · rw [List.append_assoc, List.singleton_append]
      exact hchain.insert_after hnodupcc hcc hna hself rfl ((hframe p hpa).trans hp) hnext
        fun p' ha _ => by rw [hframe p' ha]
    · have hne : p' ≠ a := by
        rintro rfl
        rw [hfresh p' hp'] at hna
        cases hna
      exact (hframe p' hne).trans (hfresh p' hp')
    · have hrecords : ∀ l : List ℕ,
          records (ud.store a { na with next := some p }).heap l = records ud.heap l := by
        refine fun l => records_congr fun p' _ => ?_
        by_cases hpa' : p' = a
        · rw [hpa', hself, hna]
          rfl
        · rw [hframe p' hpa']
      rw [hrecords, records_append, records_cons hp]

/-- The rest of `aml_add_cc_data`: the record is inserted, or there was no memory. -/
theorem Shows.insertAt {pre post : List ℕ} {q' : Option ℕ}
    (h : Shows ud ud.ccList (pre ++ post) fr q) (hpost : Chain AmCcData.next ud.heap q' post)
    (r : CcRecord) (alloc : Alloc) :
    ∃ ud' cc' fr', ud.insertAt r alloc (linkAfter .head pre) q' = some ud' ∧
      ud'.currPoc = ud.currPoc ∧
      ((Shows ud' ud'.ccList cc' fr'
          ⟨records ud.heap pre ++ r :: records ud.heap post, q.out⟩ ∧
          ud'.ccNum = ud.ccNum + 1) ∨
        (Shows ud' ud'.ccList cc' fr' q ∧ ud'.ccNum = ud.ccNum ∧
          (alloc.malloc && alloc.realloc) = false)) := by
  unfold AmUDDrvData.insertAt
  rcases h.takeNode alloc with ⟨htake, hmalloc⟩ |
    ⟨p, n, ud₁, fr', htake, hshows, hcc, hfr, hp, hframe, hlist, hnum, hpoc⟩
  · rw [htake, Option.bind_some]
    exact ⟨ud, _, fr, rfl, rfl, Or.inr ⟨h, rfl, by rw [hmalloc]; rfl⟩⟩
  · rw [htake, Option.bind_some]
    dsimp only
    split
    · rename_i hrealloc
      refine ⟨_, pre ++ post, fr', rfl, hpoc, Or.inr ⟨?_, hnum, ?_⟩⟩
      swap
      · rw [hrealloc.2, Bool.and_false]
      show Shows _ ud₁.ccList _ _ _
      rw [hlist]
      exact hshows.store hcc hfr hp _
    · set n' : AmCcData := ⟨r, q', max n.cap r.buf.length⟩ with hn'
      have hstore := hshows.store hcc hfr hp n'
      have hself : (ud₁.store p n').heap p = some n' := Function.update_self ..
      have hrest : ∀ p', p' ≠ p → (ud₁.store p n').heap p' = ud.heap p' := fun p' hp' =>
        (Function.update_of_ne hp' ..).trans (hframe p' hp')
      have hne : ∀ p' ∈ pre ++ post, p' ≠ p := fun p' hp' => ne_of_mem_of_not_mem hp' hcc
      have hchain : Chain AmCcData.next (ud₁.store p n').heap q' post :=
        hpost.congr fun p' hp' => by rw [hrest p' (hne p' (List.mem_append_right pre hp'))]
      rw [← hlist] at hstore
      obtain ⟨ud₂, hset, hshows₂, hnum₂, hpoc₂⟩ := hstore.setLink hcc hfr hself hchain
      have hpre : records (ud₁.store p n').heap pre = records ud.heap pre :=
        records_congr fun p' hp' => by rw [hrest p' (hne p' (List.mem_append_left post hp'))]
      have hpost' : records (ud₁.store p n').heap post = records ud.heap post :=
        records_congr fun p' hp' => by rw [hrest p' (hne p' (List.mem_append_right pre hp'))]
      rw [hpre, hpost'] at hshows₂
      rw [hset, Option.map_some]
      refine ⟨_, pre ++ p :: post, fr', rfl, hpoc₂.trans hpoc, Or.inl ⟨?_, ?_⟩⟩
      · obtain ⟨hcc₂, hfr₂, hnodup₂, hfresh₂, hwaiting₂, hout₂⟩ := hshows₂
        exact ⟨hcc₂, hfr₂, hnodup₂, hfresh₂, hwaiting₂, hout₂⟩
      · show ud₂.ccNum + 1 = _
        rw [hnum₂]
        exact congrArg (· + 1) hnum

/-! ## The calls -/

/-- **`aml_add_cc_data`** inserts the record into the buffer, in which it may first have
to make room. -/
theorem Refines.amlAddCcData (h : Refines ud v) (r : CcRecord) (alloc : Alloc) :
    ∃ ok : Bool, ((alloc.malloc && alloc.realloc) = true → ok = true) ∧
      Option.Rel Refines (ud.amlAddCcData r alloc) (v.add r ok) := by
  unfold AmUDDrvData.amlAddCcData CcQueue.add
  have hevict := h.evict
  generalize ud.evict = eud, v.evict = ev at hevict ⊢
  cases hevict with
  | @some ud₁ v₁ h₁ =>
    obtain ⟨ud₂, hflush, h₂⟩ := h₁.flushOld r
    obtain ⟨⟨cc, fr, hshows⟩, hnum, hpoc⟩ := h₂
    obtain ⟨pre, post, q', rfl, hfind, hpost, hinsert⟩ :=
      findPlace_spec (r := r) hshows.ccChain hshows.length_le .head
    obtain ⟨ud', cc', fr', hins, hpoc', hcase⟩ := hshows.insertAt hpost r alloc
    rw [Option.bind_some, hflush, Option.bind_some, hfind, Option.bind_some]
    dsimp only [Option.map_some]
    rw [hins]
    rcases hcase with ⟨hshows', hnum'⟩ | ⟨hshows', hnum', halloc⟩
    · refine ⟨true, fun _ => rfl, Option.Rel.some ⟨⟨cc', fr', ?_⟩, ?_, hpoc'.trans hpoc⟩⟩
      · rw [← hinsert, hshows.waiting] at hshows'
        exact hshows'
      · rw [hnum', hnum]
        rfl
    · refine ⟨false, fun hok => ?_, Option.Rel.some ⟨⟨cc', fr', hshows'⟩, hnum'.trans hnum,
        hpoc'.trans hpoc⟩⟩
      rw [halloc] at hok
      cases hok
  | none => exact ⟨true, fun _ => rfl, Option.Rel.none⟩

/-- The loop of `aml_mpeg_userdata_package`. -/
theorem Refines.drainLoop (h : Refines ud v) {fuel : ℕ}
    (hfuel : v.queue.waiting.length ≤ fuel) :
    ∃ ud', drainLoop fuel ud = some ud' ∧ Refines ud' v.drain := by
  induction fuel generalizing ud v with
  | zero =>
    have hnil : v.queue.waiting = [] := List.length_eq_zero_iff.mp (by omega)
    have hdrain : v.drain = v := CcQueue.drain_of_ne (by rw [hnil]; simp)
    obtain ⟨cc, fr, hshows⟩ := h.1
    unfold AmUDDrvData.drainLoop
    rw [hshows.head_eq_none hnil, hdrain]
    exact ⟨ud, rfl, h⟩
  | succ fuel ih =>
    obtain ⟨cc, fr, hshows⟩ := h.1
    unfold AmUDDrvData.drainLoop
    cases hw : v.queue.waiting with
    | nil =>
      have hdrain : v.drain = v := CcQueue.drain_of_ne (by rw [hw]; simp)
      rw [hshows.head_eq_none hw, hdrain]
      exact ⟨ud, rfl, h⟩
    | cons c w =>
      obtain ⟨p, n, cc', rfl, hhead, hn, rfl⟩ := hshows.exists_head hw
      rw [hhead]
      dsimp only
      rw [hn, Option.bind_some, h.2.2]
      split
      · rename_i hne
        have hdrain : v.drain = v := CcQueue.drain_of_ne (by rw [hw]; simpa using hne)
        rw [hdrain]
        exact ⟨ud, rfl, h⟩
      · rename_i heq
        rw [CcQueue.drain_of_eq hw (not_not.mp heq)]
        obtain ⟨ud', hwrite, hlists, hnum, hpoc⟩ := h.writeHead (by rw [hw]; simp)
        rw [hwrite, Option.bind_some]
        obtain ⟨cc'', fr'', hcc, hfr, hnodup, hfresh, hwaiting, hout⟩ := hlists
        refine ih ⟨⟨cc'', fr'', hcc, hfr, hnodup, hfresh, hwaiting, hout⟩, hnum,
          congrArg (fun poc => asSigned 32 (poc + 1)) hpoc⟩ ?_
        show v.queue.release.waiting.length ≤ fuel
        rw [Reorder.release_of_cons hw]
        rw [hw, List.length_cons] at hfuel
        show w.length ≤ fuel
        omega

/-- **`aml_mpeg_userdata_package`** writes the record through or adds it to the buffer. -/
theorem Refines.amlMpegUserdataPackage (h : Refines ud v) (type : ℤ) (r : CcRecord)
    (alloc : Alloc) :
    ∃ ok : Bool, ((alloc.malloc && alloc.realloc) = true → ok = true) ∧
      Option.Rel Refines (ud.amlMpegUserdataPackage type r alloc) (v.package type r ok) := by
  unfold AmUDDrvData.amlMpegUserdataPackage CcQueue.package
  by_cases hcaption : IsCaption r
  · simp only [if_pos hcaption]
    obtain ⟨ud₁, hflush, h₁⟩ : ∃ ud₁,
        (if type = iType then ud.amlFlushCcData else some ud) = some ud₁ ∧
          Refines ud₁ (if type = iType then v.flush else v) := by
      split
      · exact h.amlFlushCcData
      · exact ⟨ud, rfl, h⟩
    rw [hflush, Option.bind_some]
    generalize (if type = iType then v.flush else v) = v₁ at h₁ ⊢
    by_cases hnext : ud₁.IsNext r
    · have hnext' : r.poc = asSigned 32 (v₁.poc + 1) ∨ r.poc = v₁.poc := by
        rw [← h₁.2.2]
        exact hnext
      simp only [if_pos hnext, if_pos hnext']
      obtain ⟨⟨cc, fr, hcc, hfr, hnodup, hfresh, hwaiting, hout⟩, hnum, hpoc⟩ := h₁
      have hwrite : Refines { ud₁.amlWriteUserdata r with currPoc := r.poc }
          ⟨v₁.queue.pass r, v₁.num, r.poc⟩ :=
        ⟨⟨cc, fr, hcc, hfr, hnodup, hfresh, hwaiting, congrArg (· ++ [r]) hout⟩, hnum, rfl⟩
      obtain ⟨cc', fr', hshows⟩ := hwrite.1
      have hlen := hshows.length_eq
      have hle := hshows.length_le
      obtain ⟨ud', hdrain, h'⟩ := hwrite.drainLoop (hlen.trans_le hle)
      refine ⟨true, fun _ => rfl, ?_⟩
      rw [hdrain]
      exact Option.Rel.some h'
    · have hnext' : ¬ (r.poc = asSigned 32 (v₁.poc + 1) ∨ r.poc = v₁.poc) := by
        rw [← h₁.2.2]
        exact hnext
      simp only [if_neg hnext, if_neg hnext']
      exact h₁.amlAddCcData r alloc
  · simp only [if_neg hcaption]
    exact ⟨true, fun _ => rfl, Option.Rel.some h⟩

/-- **The linked lists implement the reorder buffer.**  Whether there was memory for a
record is all that the buffer does not know of a call. -/
theorem Refines.exec (h : Refines ud v) (e : Event) :
    ∃ ok : Bool, ((e.alloc.malloc && e.alloc.realloc) = true → ok = true) ∧
      Option.Rel Refines (ud.exec e) (execQueue v ok e) := by
  cases e with
  | add r alloc => exact h.amlAddCcData r alloc
  | package type r alloc => exact h.amlMpegUserdataPackage type r alloc
  | flush =>
    obtain ⟨ud', hflush, h'⟩ := h.amlFlushCcData
    refine ⟨true, fun _ => rfl, ?_⟩
    show Option.Rel Refines ud.amlFlushCcData _
    rw [hflush]
    exact Option.Rel.some h'

theorem refines_init : Refines init ⟨Reorder.empty, 0, -1⟩ :=
  ⟨⟨[], [], Chain.nil, Chain.nil, List.nodup_nil, fun _ _ => rfl, rfl, rfl⟩, rfl, rfl⟩

end AmUDDrvData
end AmlSubtitle
