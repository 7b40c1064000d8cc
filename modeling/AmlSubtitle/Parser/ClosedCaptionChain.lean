import AmlSubtitle.Lib.Ring
import AmlSubtitle.Lib.Run

/-!
# `parser/ClosedCaption.c`: the JSON chain

The decoder puts the JSON text of each caption on a circular doubly linked list, from
which the render thread takes those whose time has come; when no data came for ten
seconds the chain is cleared.  All three run under `cc->lock`.

* Memory is a function from addresses to nodes.  Following a link to where there is no
  node is an error, and so is a loop that does not come back to the head: a step then
  gives `none`.
* A node is allocated at any address that is free, so addresses are used again.  That
  `malloc` may fail for a node is left out, as in the source.
* `Decoder` has the fields of `cc` the three functions read, as they are when called:
  other calls write them.  `am_auto_detect_data_pgno` has then chosen `vbi_pgno`.
* `number`, `placed`, `rendered` and `freed` are history: nodes are numbered as they
  arrive, and the numbers of those rendered and freed are recorded.
* `exists_chain_of_run` says what every run keeps, `wellFormed_iff` in which runs the
  count is right as well.
-/

namespace AmlSubtitle
namespace ClosedCaptionChain

/-- An address. -/
abbrev Addr := ℕ

/-- The values of `flash_stat`. -/
inductive FlashStat where
  | flashNone
  | flashShow
  | flashHide
  deriving DecidableEq, Repr

/-- `ClosedCaptionDecoder_t`, what the chain's functions read of it: whether
`cpara.json_buffer` and `cpara.json_update` are set is all that matters of them. -/
structure Decoder where
  hide : Bool
  vfmt : ℤ
  vbi_pgno : ℤ
  flash_stat : FlashStat
  json_buffer : Bool
  json_update : Bool
  deriving DecidableEq, Repr

/-- `ClosedCaptionJsonChain_t`. -/
structure JsonChain where
  buffer : List UInt8
  pts : BitVec 32
  json_chain_next : Addr
  json_chain_prior : Addr
  count : ℤ
  number : ℕ
  deriving DecidableEq, Repr

/-- The nodes in memory. -/
abbrev Heap := Addr → Option JsonChain

/-- The chain and its history. -/
structure State where
  heap : Heap
  json_chain_head : Addr
  placed : ℕ
  rendered : List ℕ
  freed : List ℕ

/-- A write to the node at `p`. -/
def store (heap : Heap) (p : Addr) (f : JsonChain → JsonChain) : Option Heap :=
  (heap p).map fun n => Function.update heap p (some (f n))

/-! ## The decoder -/

/-- The chain as `ClosedCaptionCreate` makes it. -/
def create (head : Addr) : State where
  heap := Function.update (fun _ => none) head (some ⟨[], 0, head, head, 0, 0⟩)
  json_chain_head := head
  placed := 0
  rendered := []
  freed := []

/-- Adding to the chain in `am_cc_vbi_event_handler`; the new node is at `p`, and what
its links are before they are set is of no account. -/
def place (s : State) (buffer : List UInt8) (pts : BitVec 32) (p : Addr) : Option State := do
  let heap := Function.update s.heap p (some ⟨buffer, pts, 0, 0, 0, s.placed⟩)
  let head ← heap s.json_chain_head
  let heap ← store heap head.json_chain_prior fun n => { n with json_chain_next := p }
  let heap ← store heap s.json_chain_head fun n => { n with count := n.count + 1 }
  let heap ← store heap p fun n => { n with json_chain_next := s.json_chain_head }
  let head ← heap s.json_chain_head
  let heap ← store heap p fun n => { n with json_chain_prior := head.json_chain_prior }
  let heap ← store heap s.json_chain_head fun n => { n with json_chain_prior := p }
  some { s with heap := heap, placed := s.placed + 1 }

/-- `am_cc_vbi_event_handler` with a caption event; `json` is what `tvcc_to_json` wrote,
`none` if there was no memory for it or it failed. -/
def am_cc_vbi_event_handler (s : State) (cc : Decoder) (has_q_tone_data : Bool) (pgno : ℤ)
    (json : Option (List UInt8)) (pts : BitVec 32) (p : Addr) : Option State :=
  if cc.hide then some s
  else if has_q_tone_data then some s
  else if cc.vbi_pgno = pgno ∧ cc.flash_stat = .flashNone then
    match json with
    | none => some s
    | some buffer => place s buffer pts p
  else some s

/-! ## The render thread -/

/-- The loop of `am_cc_clear`. -/
def clearNodes (head : Addr) : ℕ → Heap → List ℕ → Addr → Option (Heap × List ℕ)
  | 0, heap, freed, node => if node = head then some (heap, freed) else none
  | fuel + 1, heap, freed, node =>
    if node = head then some (heap, freed)
    else do
      let n ← heap node
      clearNodes head fuel (Function.update heap node none) (freed ++ [n.number])
        n.json_chain_next

/-- `am_cc_clear`. -/
def am_cc_clear (s : State) : Option State := do
  let head ← s.heap s.json_chain_head
  let (heap, freed) ←
    clearNodes s.json_chain_head s.placed s.heap s.freed head.json_chain_next
  let heap ← store heap s.json_chain_head fun n => { n with json_chain_next := s.json_chain_head }
  let heap ← store heap s.json_chain_head fun n =>
    { n with json_chain_prior := s.json_chain_head }
  some { s with heap := heap, freed := freed }

/-- The time of a node is ahead, and not by more than five seconds. -/
def IsAhead (pts video_pts : BitVec 32) : Prop :=
  0 < (pts - video_pts).toInt ∧ (pts - video_pts).toInt < 450000

instance (pts video_pts : BitVec 32) : Decidable (IsAhead pts video_pts) :=
  inferInstanceAs (Decidable (_ ∧ _))

/-- `CLEAN_NODE` of `am_cc_render`: the node is taken out and freed.  The node that was
after it comes next. -/
def cleanNode (s : State) (node : Addr) : Option (State × Addr) := do
  let n ← s.heap node
  let heap ← store s.heap n.json_chain_prior fun m =>
    { m with json_chain_next := n.json_chain_next }
  let n ← heap node
  let heap ← store heap n.json_chain_next fun m =>
    { m with json_chain_prior := n.json_chain_prior }
  let n ← heap node
  let heap ← store heap s.json_chain_head fun m => { m with count := m.count - 1 }
  some ({ s with
    heap := Function.update heap node none
    freed := s.freed ++ [n.number] }, n.json_chain_next)

/-- A node is copied to `json_buffer` and the update called. -/
def renderNode (s : State) (cc : Decoder) (n : JsonChain) (has_data_to_render : Bool) : State :=
  if cc.json_update && has_data_to_render then { s with rendered := s.rendered ++ [n.number] }
  else s

/-- The loop of `am_cc_render`. -/
def renderNodes (cc : Decoder) (video_pts : BitVec 32) :
    ℕ → State → Addr → Bool → Option (State × Bool)
  | 0, s, node, has_data_to_render =>
    if node = s.json_chain_head then some (s, has_data_to_render) else none
  | fuel + 1, s, node, has_data_to_render =>
    if node = s.json_chain_head then some (s, has_data_to_render)
    else do
      let n ← s.heap node
      if cc.vfmt ≠ 100 ∧ IsAhead n.pts video_pts then some (s, false)
      else do
        let has_data_to_render := has_data_to_render || cc.json_buffer
        let (s, node) ← cleanNode (renderNode s cc n has_data_to_render) node
        renderNodes cc video_pts fuel s node has_data_to_render

/-- `am_cc_render`.  `am_cc_calc_caption_size` does not fail. -/
def am_cc_render (s : State) (cc : Decoder) (video_pts : BitVec 32) : Option (State × Bool) :=
  if cc.hide then some (s, false)
  else do
    let head ← s.heap s.json_chain_head
    renderNodes cc video_pts s.placed s head.json_chain_next false

/-! ## The system -/

/-- What happens next. -/
inductive Event where
  | caption (cc : Decoder) (has_q_tone_data : Bool) (pgno : ℤ) (json : Option (List UInt8))
      (pts : BitVec 32) (p : Addr)
  | render (cc : Decoder) (video_pts : BitVec 32)
  | clear
  deriving DecidableEq, Repr

/-- One event.  `malloc` gives no address that is in use. -/
def handle (s : State) : Event → Option State
  | .caption cc has_q_tone_data pgno json pts p =>
    if (s.heap p).isSome then some s
    else am_cc_vbi_event_handler s cc has_q_tone_data pgno json pts p
  | .render cc video_pts => (am_cc_render s cc video_pts).map Prod.fst
  | .clear => am_cc_clear s

/-- One event, after which nothing happens if it was an error. -/
def step (s : Option State) (e : Event) : Option State := s.bind (handle · e)

/-! ## What is asked of the chain -/

/-- The links of the nodes, and their numbers. -/
def nextOf (heap : Heap) (p : Addr) : Option Addr := (heap p).map JsonChain.json_chain_next

def priorOf (heap : Heap) (p : Addr) : Option Addr := (heap p).map JsonChain.json_chain_prior

def numberOf (heap : Heap) (p : Addr) : Option ℕ := (heap p).map JsonChain.number

def countOf (heap : Heap) (p : Addr) : Option ℤ := (heap p).map JsonChain.count

/-- The chain is circular, its nodes are those in memory, and its length is `dropped`
less than the count; those rendered were freed, in the order of their arrival, and each
node that arrived was freed once or is on the chain. -/
structure Chain (s : State) (l : List Addr) (dropped : ℕ) : Prop where
  ring : Ring (nextOf s.heap) (priorOf s.heap) s.json_chain_head l
  live : ∀ p, (s.heap p).isSome ↔ p ∈ s.json_chain_head :: l
  count : countOf s.heap s.json_chain_head = some ((l.length : ℤ) + dropped)
  rendered : s.rendered.Sublist s.freed
  freed : s.freed.map some ++ l.map (numberOf s.heap) = (List.range s.placed).map some

/-- The chain is as it should be, and nothing was lost or done twice. -/
def WellFormed (s : Option State) : Prop := ∃ t l, s = some t ∧ Chain t l 0

/-- A clear finds the chain empty. -/
def ClearsEmpty (s : Option State) : Event → Prop
  | .clear => ∀ t, s = some t → nextOf t.heap t.json_chain_head = some t.json_chain_head
  | _ => True

/-! ## Writes -/

section Writes

variable {heap : Heap} {p : Addr}

theorem nextOf_update (n : Option JsonChain) :
    nextOf (Function.update heap p n) =
      Function.update (nextOf heap) p (n.map JsonChain.json_chain_next) :=
  Function.comp_update (Option.map JsonChain.json_chain_next) heap p n

theorem priorOf_update (n : Option JsonChain) :
    priorOf (Function.update heap p n) =
      Function.update (priorOf heap) p (n.map JsonChain.json_chain_prior) :=
  Function.comp_update (Option.map JsonChain.json_chain_prior) heap p n

theorem numberOf_update (n : Option JsonChain) :
    numberOf (Function.update heap p n) =
      Function.update (numberOf heap) p (n.map JsonChain.number) :=
  Function.comp_update (Option.map JsonChain.number) heap p n

theorem countOf_update (n : Option JsonChain) :
    countOf (Function.update heap p n) =
      Function.update (countOf heap) p (n.map JsonChain.count) :=
  Function.comp_update (Option.map JsonChain.count) heap p n

/-- A write to the `next` link. -/
theorem exists_store_next (h : (heap p).isSome) (q : Addr) :
    ∃ heap', store heap p (fun n => { n with json_chain_next := q }) = some heap' ∧
      nextOf heap' = Function.update (nextOf heap) p (some q) ∧
      priorOf heap' = priorOf heap ∧ numberOf heap' = numberOf heap ∧
      countOf heap' = countOf heap := by
  obtain ⟨n, hn⟩ := Option.isSome_iff_exists.mp h
  refine ⟨_, by rw [store, hn, Option.map_some], nextOf_update _, ?_, ?_, ?_⟩
  · rw [priorOf_update, Function.update_eq_self_iff, priorOf, hn]
    rfl
  · rw [numberOf_update, Function.update_eq_self_iff, numberOf, hn]
    rfl
  · rw [countOf_update, Function.update_eq_self_iff, countOf, hn]
    rfl

/-- A write to the `prior` link. -/
theorem exists_store_prior (h : (heap p).isSome) (q : Addr) :
    ∃ heap', store heap p (fun n => { n with json_chain_prior := q }) = some heap' ∧
      nextOf heap' = nextOf heap ∧
      priorOf heap' = Function.update (priorOf heap) p (some q) ∧
      numberOf heap' = numberOf heap ∧ countOf heap' = countOf heap := by
  obtain ⟨n, hn⟩ := Option.isSome_iff_exists.mp h
  refine ⟨_, by rw [store, hn, Option.map_some], ?_, priorOf_update _, ?_, ?_⟩
  · rw [nextOf_update, Function.update_eq_self_iff, nextOf, hn]
    rfl
  · rw [numberOf_update, Function.update_eq_self_iff, numberOf, hn]
    rfl
  · rw [countOf_update, Function.update_eq_self_iff, countOf, hn]
    rfl

/-- A write to the count. -/
theorem exists_store_count {c : ℤ} (h : countOf heap p = some c) (f : ℤ → ℤ) :
    ∃ heap', store heap p (fun n => { n with count := f n.count }) = some heap' ∧
      nextOf heap' = nextOf heap ∧ priorOf heap' = priorOf heap ∧
      numberOf heap' = numberOf heap ∧
      countOf heap' = Function.update (countOf heap) p (some (f c)) := by
  obtain ⟨n, hn, rfl⟩ := Option.map_eq_some_iff.mp h
  refine ⟨_, by rw [store, hn, Option.map_some], ?_, ?_, ?_, countOf_update _⟩
  · rw [nextOf_update, Function.update_eq_self_iff, nextOf, hn]
    rfl
  · rw [priorOf_update, Function.update_eq_self_iff, priorOf, hn]
    rfl
  · rw [numberOf_update, Function.update_eq_self_iff, numberOf, hn]
    rfl

theorem isSome_numberOf : (numberOf heap p).isSome = (heap p).isSome := Option.isSome_map

end Writes

/-! ## The three functions -/

section Functions

variable {s : State} {l : List Addr} {dropped : ℕ}

theorem create_heap (head p : Addr) :
    (create head).heap p = if p = head then some ⟨[], 0, head, head, 0, 0⟩ else none :=
  Function.update_apply (fun _ => none) head _ p

theorem chain_create (head : Addr) : Chain (create head) [] 0 where
  ring := by
    have hnext : nextOf (create head).heap head = some head := by
      rw [nextOf, create_heap, if_pos rfl, Option.map_some]
    have hprior : priorOf (create head).heap head = some head := by
      rw [priorOf, create_heap, if_pos rfl, Option.map_some]
    exact Ring.empty hnext hprior
  live p := by
    show ((create head).heap p).isSome ↔ p ∈ [head]
    rw [List.mem_singleton, create_heap]
    split_ifs with hp
    · exact iff_of_true rfl hp
    · exact iff_of_false (by simp) hp
  count := by
    show countOf (create head).heap head = _
    rw [countOf, create_heap, if_pos rfl]
    rfl
  rendered := List.Sublist.refl []
  freed := rfl

/-- The nodes still on the chain arrived, so there are no more of them than arrived. -/
theorem Chain.length_le (h : Chain s l dropped) : l.length ≤ s.placed := by
  have hlen := congrArg List.length h.freed
  rw [List.length_append, List.length_map, List.length_map, List.length_map,
    List.length_range] at hlen
  omega

/-- **An arrival** puts its node at the end of the chain. -/
theorem Chain.place (h : Chain s l dropped) {p : Addr} (hp : s.heap p = none)
    (buffer : List UInt8) (pts : BitVec 32) :
    ∃ s', ClosedCaptionChain.place s buffer pts p = some s' ∧ Chain s' (l ++ [p]) dropped := by
  have hpl : p ∉ s.json_chain_head :: l := by
    rw [← h.live p, hp]
    simp
  have hhead : s.json_chain_head ≠ p := fun hh => hpl (hh ▸ List.mem_cons_self)
  obtain ⟨init, a, hinit, -, -, hprior⟩ := h.ring.exists_last
  have hal : a ∈ s.json_chain_head :: l := hinit ▸ List.mem_append_right _ (by simp)
  have hap : a ≠ p := ne_of_mem_of_not_mem hal hpl
  obtain ⟨head, hhead0, ha0⟩ := Option.map_eq_some_iff.mp hprior
  -- the four links and the count, one write after the other
  set heap0 := Function.update s.heap p (some ⟨buffer, pts, 0, 0, 0, s.placed⟩) with hheap0
  have hread0 : heap0 s.json_chain_head = some head := by
    rw [hheap0, Function.update_of_ne hhead, hhead0]
  have hlive0 : (heap0 a).isSome := by
    rw [hheap0, Function.update_of_ne hap]
    exact (h.live a).mpr hal
  obtain ⟨heap1, hstore1, hnext1, hprior1, hnumber1, hcount1⟩ := exists_store_next hlive0 p
  have hc1 : countOf heap1 s.json_chain_head = some ((l.length : ℤ) + dropped) := by
    rw [hcount1, hheap0, countOf_update, Function.update_of_ne hhead]
    exact h.count
  obtain ⟨heap2, hstore2, hnext2, hprior2, hnumber2, hcount2⟩ :=
    exists_store_count hc1 (· + 1)
  have hlive2 : (heap2 p).isSome := by
    rw [← isSome_numberOf, hnumber2, hnumber1, hheap0, numberOf_update, Function.update_self]
    rfl
  obtain ⟨heap3, hstore3, hnext3, hprior3, hnumber3, hcount3⟩ :=
    exists_store_next hlive2 s.json_chain_head
  have hpriorHead : priorOf heap3 s.json_chain_head = some a := by
    rw [hprior3, hprior2, hprior1, hheap0, priorOf_update, Function.update_of_ne hhead]
    exact hprior
  obtain ⟨head3, hread3, ha3⟩ := Option.map_eq_some_iff.mp hpriorHead
  have hlive3 : (heap3 p).isSome := by
    rw [← isSome_numberOf, hnumber3, isSome_numberOf]
    exact hlive2
  obtain ⟨heap4, hstore4, hnext4, hprior4, hnumber4, hcount4⟩ := exists_store_prior hlive3 a
  have hlive4 : (heap4 s.json_chain_head).isSome := by
    rw [← isSome_numberOf, hnumber4, isSome_numberOf, hread3]
    rfl
  obtain ⟨heap5, hstore5, hnext5, hprior5, hnumber5, hcount5⟩ := exists_store_prior hlive4 p
  have hnumber : numberOf heap5 = Function.update (numberOf s.heap) p (some s.placed) := by
    rw [hnumber5, hnumber4, hnumber3, hnumber2, hnumber1, hheap0, numberOf_update]
    rfl
  refine ⟨{ s with heap := heap5, placed := s.placed + 1 }, ?_, ?_, ?_, ?_, h.rendered, ?_⟩
  · rw [ClosedCaptionChain.place]
    simp only [Option.bind_eq_bind, ← hheap0, hread0, Option.bind_some, ha0, hstore1, hstore2,
      hstore3, hread3, ha3, hstore4, hstore5]
  · show Ring (nextOf heap5) (priorOf heap5) s.json_chain_head (l ++ [p])
    have hring := h.ring.insert hpl hprior
    rw [hnext5, hnext4, hnext3, hnext2, hnext1, hprior5, hprior4, hprior3, hprior2, hprior1,
      hheap0, nextOf_update, priorOf_update, Function.update_comm hap.symm, Function.update_idem,
      Function.update_idem]
    exact hring
  · intro q
    rw [← isSome_numberOf, hnumber]
    by_cases hq : q = p
    · rw [hq, Function.update_self]
      exact iff_of_true rfl (by simp)
    · rw [Function.update_of_ne hq, isSome_numberOf, h.live q]
      simp [hq]
  · show countOf heap5 s.json_chain_head = _
    rw [hcount5, hcount4, hcount3, hcount2, Function.update_self, List.length_append,
      List.length_singleton]
    push_cast
    rw [add_right_comm]
  · show s.freed.map some ++ (l ++ [p]).map (numberOf heap5) = (List.range (s.placed + 1)).map some
    have hold : l.map (numberOf heap5) = l.map (numberOf s.heap) := by
      refine List.map_congr_left fun q hq => ?_
      rw [hnumber, Function.update_of_ne]
      exact ne_of_mem_of_not_mem (List.mem_cons_of_mem _ hq) hpl
    rw [List.map_append, hold, ← List.append_assoc, h.freed, List.range_succ, List.map_append,
      List.map_singleton, List.map_singleton, hnumber, Function.update_self]

/-- **Taking out** the first node, which may have been rendered just before. -/
theorem Chain.cleanNode {x : Addr} {n : JsonChain} (h : Chain s (x :: l) dropped)
    (hn : s.heap x = some n) {rendered : List ℕ}
    (hrendered : rendered.Sublist (s.freed ++ [n.number])) :
    ∃ s' q, ClosedCaptionChain.cleanNode { s with rendered := rendered } x = some (s', q) ∧
      nextOf s'.heap s'.json_chain_head = some q ∧ s'.placed = s.placed ∧ Chain s' l dropped := by
  have hx : x ∉ s.json_chain_head :: l := by
    have hnodup := h.ring.nodup
    rw [List.nodup_cons, List.nodup_cons, List.mem_cons, not_or] at hnodup
    rw [List.mem_cons, not_or]
    exact ⟨Ne.symm hnodup.1.1, hnodup.2.1⟩
  have hxhead : x ≠ s.json_chain_head := fun hh => hx (hh ▸ List.mem_cons_self)
  obtain ⟨hpriorx, b, hbl, hnextx⟩ := h.ring.first_links
  have hbx : x ≠ b := fun hb => hx (hb ▸ hbl)
  have hlive : ∀ q, (numberOf s.heap q).isSome ↔ q ∈ s.json_chain_head :: x :: l := by
    intro q
    rw [isSome_numberOf]
    exact h.live q
  have hnext0 : n.json_chain_next = b := by
    rw [nextOf, hn, Option.map_some, Option.some_inj] at hnextx
    exact hnextx
  have hprior0 : n.json_chain_prior = s.json_chain_head := by
    rw [priorOf, hn, Option.map_some, Option.some_inj] at hpriorx
    exact hpriorx
  have hnumber0 : numberOf s.heap x = some n.number := by
    rw [numberOf, hn, Option.map_some]
  -- the head points to the node after, that one back to the head
  obtain ⟨heap1, hstore1, hnext1, hprior1, hnumber1, hcount1⟩ :=
    exists_store_next ((h.live _).mpr List.mem_cons_self) b
  obtain ⟨n1, hn1, hnextn1⟩ := Option.map_eq_some_iff.mp
    (show nextOf heap1 x = some b by rw [hnext1, Function.update_of_ne hxhead, hnextx])
  have hpriorn1 : n1.json_chain_prior = s.json_chain_head := by
    rw [← hprior1, priorOf, hn1, Option.map_some, Option.some_inj] at hpriorx
    exact hpriorx
  have hliveb : (heap1 b).isSome := by
    rw [← isSome_numberOf, hnumber1, hlive]
    rcases List.mem_cons.mp hbl with rfl | hbl
    · exact List.mem_cons_self
    · exact List.mem_cons_of_mem _ (List.mem_cons_of_mem _ hbl)
  obtain ⟨heap2, hstore2, hnext2, hprior2, hnumber2, hcount2⟩ :=
    exists_store_prior hliveb s.json_chain_head
  obtain ⟨n2, hn2, hnextn2⟩ := Option.map_eq_some_iff.mp
    (show nextOf heap2 x = some b by rw [hnext2, hnext1, Function.update_of_ne hxhead, hnextx])
  have hnumbern2 : n2.number = n.number := by
    rw [← hnumber1, ← hnumber2, numberOf, hn2, Option.map_some, Option.some_inj] at hnumber0
    exact hnumber0
  have hc2 : countOf heap2 s.json_chain_head = some (((x :: l).length : ℤ) + dropped) := by
    rw [hcount2, hcount1, h.count]
  obtain ⟨heap3, hstore3, hnext3, hprior3, hnumber3, hcount3⟩ := exists_store_count hc2 (· - 1)
  have hnumber : numberOf (Function.update heap3 x none) =
      Function.update (numberOf s.heap) x none := by
    rw [numberOf_update, hnumber3, hnumber2, hnumber1]
    rfl
  have hnextHead : nextOf (Function.update heap3 x none) s.json_chain_head = some b := by
    rw [nextOf_update, Function.update_of_ne hxhead.symm, hnext3, hnext2, hnext1,
      Function.update_self]
  refine ⟨{ s with
    heap := Function.update heap3 x none
    rendered := rendered
    freed := s.freed ++ [n.number] }, b, ?_, hnextHead, rfl, ?_, ?_, ?_, hrendered, ?_⟩
  · rw [ClosedCaptionChain.cleanNode]
    simp only [Option.bind_eq_bind, hn, Option.bind_some, hprior0, hnext0, hstore1, hn1, hnextn1,
      hpriorn1, hstore2, hn2, hnextn2, hnumbern2, hstore3]
  · show Ring (nextOf (Function.update heap3 x none)) (priorOf (Function.update heap3 x none))
      s.json_chain_head l
    have hcut : Ring (nextOf s.heap) (priorOf s.heap) s.json_chain_head ([] ++ x :: l) := h.ring
    have hring := hcut.unlink hpriorx hnextx
    refine hring.congr (fun q hq => ?_) fun q hq => ?_
    · rw [nextOf_update, Function.update_of_ne (ne_of_mem_of_not_mem hq hx), hnext3, hnext2,
        hnext1]
    · rw [priorOf_update, Function.update_of_ne (ne_of_mem_of_not_mem hq hx), hprior3, hprior2,
        hprior1]
  · intro q
    show (Function.update heap3 x none q).isSome ↔ q ∈ s.json_chain_head :: l
    rw [← isSome_numberOf, hnumber]
    by_cases hq : q = x
    · rw [hq, Function.update_self]
      exact iff_of_false (by simp) hx
    · rw [Function.update_of_ne hq, hlive, List.mem_cons, List.mem_cons, List.mem_cons]
      simp only [hq, false_or]
  · show countOf (Function.update heap3 x none) s.json_chain_head = _
    rw [countOf_update, Function.update_of_ne hxhead.symm, hcount3, Function.update_self,
      List.length_cons]
    push_cast
    rw [add_right_comm, add_sub_cancel_right]
  · show (s.freed ++ [n.number]).map some ++ l.map (numberOf (Function.update heap3 x none)) = _
    have hrest : l.map (numberOf (Function.update heap3 x none)) = l.map (numberOf s.heap) := by
      refine List.map_congr_left fun q hq => ?_
      rw [hnumber, Function.update_of_ne]
      exact ne_of_mem_of_not_mem (List.mem_cons_of_mem _ hq) hx
    have hfreed := h.freed
    rw [List.map_cons, hnumber0] at hfreed
    rw [hrest, List.map_append, List.append_assoc]
    exact hfreed

/-- **The render loop** takes nodes from the front of the chain only, and comes to its
end. -/
theorem Chain.renderNodes (cc : Decoder) (video_pts : BitVec 32) {fuel : ℕ} {node : Addr}
    (h : Chain s l dropped) (hnode : nextOf s.heap s.json_chain_head = some node)
    (hfuel : l.length ≤ fuel) (has_data_to_render : Bool) :
    ∃ s' l' b, ClosedCaptionChain.renderNodes cc video_pts fuel s node has_data_to_render =
      some (s', b) ∧ Chain s' l' dropped := by
  induction l generalizing s node fuel has_data_to_render with
  | nil =>
    obtain rfl : s.json_chain_head = node :=
      Option.some.inj (h.ring.next_head_nil.symm.trans hnode)
    refine ⟨s, [], has_data_to_render, ?_, h⟩
    cases fuel <;> rw [ClosedCaptionChain.renderNodes, if_pos rfl]
  | cons x l ih =>
    obtain rfl : x = node := Option.some.inj (h.ring.next_head.symm.trans hnode)
    have hxhead : x ≠ s.json_chain_head := by
      rintro rfl
      exact (List.nodup_cons.mp h.ring.nodup).1 List.mem_cons_self
    obtain ⟨fuel, rfl⟩ : ∃ f, fuel = f + 1 :=
      ⟨fuel - 1, by rw [List.length_cons] at hfuel; omega⟩
    obtain ⟨n, hn⟩ := Option.isSome_iff_exists.mp
      ((h.live x).mpr (List.mem_cons_of_mem _ List.mem_cons_self))
    rw [ClosedCaptionChain.renderNodes, if_neg hxhead, hn]
    by_cases hwait : cc.vfmt ≠ 100 ∧ IsAhead n.pts video_pts
    · refine ⟨s, x :: l, false, ?_, h⟩
      rw [Option.bind_eq_bind, Option.bind_some, if_pos hwait]
    · obtain ⟨rendered, hrender, hrendered⟩ : ∃ rendered,
          renderNode s cc n (has_data_to_render || cc.json_buffer) =
            { s with rendered := rendered } ∧ rendered.Sublist (s.freed ++ [n.number]) := by
        rw [renderNode]
        split_ifs
        · exact ⟨_, rfl, h.rendered.append (List.Sublist.refl _)⟩
        · exact ⟨_, rfl, h.rendered.trans (List.sublist_append_left _ _)⟩
      obtain ⟨s', q, hclean, hq, -, hchain⟩ := h.cleanNode hn hrendered
      obtain ⟨s'', l', b, heq, hchain'⟩ := ih hchain hq
        (Nat.le_of_succ_le_succ hfuel) (has_data_to_render || cc.json_buffer)
      refine ⟨s'', l', b, ?_, hchain'⟩
      simp only [Option.bind_eq_bind, Option.bind_some, if_neg hwait, hrender, hclean]
      exact heq

theorem Chain.am_cc_render (h : Chain s l dropped) (cc : Decoder) (video_pts : BitVec 32) :
    ∃ s' l' b, ClosedCaptionChain.am_cc_render s cc video_pts = some (s', b) ∧
      Chain s' l' dropped := by
  rw [ClosedCaptionChain.am_cc_render]
  split_ifs
  · exact ⟨s, l, false, rfl, h⟩
  · obtain ⟨head, hhead⟩ := Option.isSome_iff_exists.mp ((h.live _).mpr List.mem_cons_self)
    have hnode : nextOf s.heap s.json_chain_head = some head.json_chain_next := by
      rw [nextOf, hhead, Option.map_some]
    rw [hhead]
    exact h.renderNodes cc video_pts hnode h.length_le false

/-- **The loop of a clear** frees the nodes of the chain, each once. -/
theorem exists_clearNodes (freed : List ℕ) {head : Addr} {heap : Heap} {node : Addr} {fuel : ℕ}
    (hchain : (l ++ [head]).IsChain fun a b => nextOf heap a = some b)
    (hnode : (l ++ [head]).head? = some node) (hnodup : (head :: l).Nodup)
    (hfuel : l.length ≤ fuel) :
    ∃ heap' ns, clearNodes head fuel heap freed node = some (heap', freed ++ ns) ∧
      (∀ q, heap' q = if q ∈ l then none else heap q) ∧
      ns.map some = l.map (numberOf heap) := by
  induction l generalizing heap freed node fuel with
  | nil =>
    obtain rfl : head = node := Option.some.inj hnode
    refine ⟨heap, [], ?_, fun q => rfl, rfl⟩
    rw [List.append_nil]
    cases fuel <;> rw [clearNodes, if_pos rfl]
  | cons x l ih =>
    obtain rfl : x = node := Option.some.inj hnode
    have hxhead : x ≠ head := by
      rintro rfl
      exact (List.nodup_cons.mp hnodup).1 List.mem_cons_self
    have hxl : x ∉ l ++ [head] := by
      rw [List.mem_append, List.mem_singleton, not_or]
      exact ⟨(List.nodup_cons.mp (List.nodup_cons.mp hnodup).2).1, hxhead⟩
    obtain ⟨fuel, rfl⟩ : ∃ f, fuel = f + 1 :=
      ⟨fuel - 1, by rw [List.length_cons] at hfuel; omega⟩
    obtain ⟨b, fin, hfin⟩ := List.exists_cons_of_ne_nil
      (List.append_ne_nil_of_right_ne_nil l (List.cons_ne_nil head []))
    rw [List.cons_append, hfin, List.isChain_cons_cons, ← hfin] at hchain
    obtain ⟨n, hn, hb⟩ := Option.map_eq_some_iff.mp hchain.1
    have hchain' : (l ++ [head]).IsChain
        fun a b => nextOf (Function.update heap x none) a = some b := by
      refine hchain.2.imp_of_mem_imp fun u v hu _ huv => ?_
      rw [nextOf_update, Function.update_of_ne (ne_of_mem_of_not_mem hu hxl)]
      exact huv
    obtain ⟨heap', ns, hclear, hheap', hns⟩ := ih (freed ++ [n.number]) hchain'
      (by rw [hfin]; rfl)
      (List.Nodup.sublist (List.Sublist.cons_cons _ (List.sublist_cons_self _ _)) hnodup)
      (Nat.le_of_succ_le_succ hfuel)
    refine ⟨heap', n.number :: ns, ?_, fun q => ?_, ?_⟩
    · rw [clearNodes, if_neg hxhead, hn, List.append_cons]
      simp only [Option.bind_eq_bind, Option.bind_some, hb]
      exact hclear
    · rw [hheap' q]
      by_cases hq : q = x
      · rw [hq, Function.update_self, if_pos List.mem_cons_self, ite_self]
      · rw [Function.update_of_ne hq]
        exact if_congr (by rw [List.mem_cons, or_iff_right hq]) rfl rfl
    · have hrest : l.map (numberOf (Function.update heap x none)) = l.map (numberOf heap) := by
        refine List.map_congr_left fun q hq => ?_
        rw [numberOf_update, Function.update_of_ne]
        exact ne_of_mem_of_not_mem (List.mem_append_left _ hq) hxl
      rw [List.map_cons, hns, hrest, List.map_cons, numberOf, hn, Option.map_some]

/-- **A clear** empties the chain and leaves the count. -/
theorem Chain.am_cc_clear (h : Chain s l dropped) :
    ∃ s', ClosedCaptionChain.am_cc_clear s = some s' ∧ Chain s' [] (l.length + dropped) := by
  obtain ⟨head, hhead⟩ := Option.isSome_iff_exists.mp ((h.live _).mpr List.mem_cons_self)
  have hnode : (l ++ [s.json_chain_head]).head? = some head.json_chain_next := by
    have hnext : nextOf s.heap s.json_chain_head = some head.json_chain_next := by
      rw [nextOf, hhead, Option.map_some]
    cases l with
    | nil => exact h.ring.next_head_nil.symm.trans hnext
    | cons x l => exact h.ring.next_head.symm.trans hnext
  have hchain : (l ++ [s.json_chain_head]).IsChain fun a b => nextOf s.heap a = some b :=
    h.ring.chain.tail.imp fun _ _ hab => hab.1
  obtain ⟨heap0, ns, hclear, hheap0, hns⟩ :=
    exists_clearNodes s.freed hchain hnode h.ring.nodup h.length_le
  have hnot : s.json_chain_head ∉ l := (List.nodup_cons.mp h.ring.nodup).1
  have hheadLive : (heap0 s.json_chain_head).isSome := by
    rw [hheap0, if_neg hnot, hhead, Option.isSome_some]
  obtain ⟨heap1, hstore1, hnext1, hprior1, hnumber1, hcount1⟩ :=
    exists_store_next hheadLive s.json_chain_head
  have hheadLive1 : (heap1 s.json_chain_head).isSome := by
    rw [← isSome_numberOf, hnumber1, isSome_numberOf]
    exact hheadLive
  obtain ⟨heap2, hstore2, hnext2, hprior2, hnumber2, hcount2⟩ :=
    exists_store_prior hheadLive1 s.json_chain_head
  refine ⟨{ s with heap := heap2, freed := s.freed ++ ns }, ?_, ?_, ?_, ?_, ?_, ?_⟩
  · rw [ClosedCaptionChain.am_cc_clear]
    simp only [Option.bind_eq_bind, hhead, Option.bind_some, hclear, hstore1, hstore2]
  · show Ring (nextOf heap2) (priorOf heap2) s.json_chain_head []
    refine Ring.empty ?_ ?_
    · rw [hnext2, hnext1, Function.update_self]
    · rw [hprior2, Function.update_self]
  · intro q
    show (heap2 q).isSome ↔ q ∈ [s.json_chain_head]
    rw [← isSome_numberOf, hnumber2, hnumber1, isSome_numberOf, hheap0, List.mem_singleton]
    by_cases hq : q ∈ l
    · rw [if_pos hq]
      exact iff_of_false (by simp) (ne_of_mem_of_not_mem hq hnot)
    · rw [if_neg hq, h.live, List.mem_cons, or_iff_left hq]
  · show countOf heap2 s.json_chain_head = _
    rw [hcount2, hcount1, countOf, hheap0, if_neg hnot]
    refine h.count.trans ?_
    rw [List.length_nil, Nat.cast_zero, zero_add, Nat.cast_add]
  · exact h.rendered.trans (List.sublist_append_left _ _)
  · show (s.freed ++ ns).map some ++ [] = _
    rw [List.append_nil, List.map_append, hns]
    exact h.freed

end Functions

/-! ## Runs -/

/-- Arrivals and renders drop nothing. -/
theorem Chain.handle {s : State} {l : List Addr} {dropped : ℕ} (h : Chain s l dropped)
    {e : Event} (he : e ≠ .clear) :
    ∃ s' l', ClosedCaptionChain.handle s e = some s' ∧ Chain s' l' dropped := by
  cases e with
  | caption cc has_q_tone_data pgno json pts p =>
    rw [ClosedCaptionChain.handle]
    split
    · exact ⟨s, l, rfl, h⟩
    · rename_i hp
      unfold am_cc_vbi_event_handler
      split_ifs
      · exact ⟨s, l, rfl, h⟩
      · exact ⟨s, l, rfl, h⟩
      · cases json with
        | none => exact ⟨s, l, rfl, h⟩
        | some buffer =>
          obtain ⟨s', hplace, hchain⟩ := h.place (Option.not_isSome_iff_eq_none.mp hp) buffer pts
          exact ⟨s', _, hplace, hchain⟩
      · exact ⟨s, l, rfl, h⟩
  | render cc video_pts =>
    rw [ClosedCaptionChain.handle]
    obtain ⟨s', l', b, hrender, hchain⟩ := h.am_cc_render cc video_pts
    exact ⟨s', l', by rw [hrender, Option.map_some], hchain⟩
  | clear => exact absurd rfl he

/-- **Every run**, whatever its order, keeps the links and frees each node once; the
count is never too small. -/
theorem exists_chain_of_run (head : Addr) (es : List Event) :
    ∃ s l dropped, es.foldl step (some (create head)) = some s ∧ Chain s l dropped := by
  refine Run.invariant (I := fun t => ∃ s l dropped, t = some s ∧ Chain s l dropped) ?_
    ⟨create head, [], 0, rfl, chain_create head⟩ es
  rintro _ e ⟨s, l, dropped, rfl, h⟩
  by_cases he : e = .clear
  · obtain ⟨s', hclear, hchain⟩ := h.am_cc_clear
    exact ⟨s', [], _, he ▸ hclear, hchain⟩
  · obtain ⟨s', l', hstep, hchain⟩ := h.handle he
    exact ⟨s', l', dropped, hstep, hchain⟩

/-- **The JSON chain.**  In every state a run reaches the chain is well formed, its
length is the count, and nodes are rendered at most once and in order and freed once, if
and only if every clear of the run finds the chain empty. -/
theorem wellFormed_iff (head : Addr) (es : List Event) :
    (∀ s, Run.Reached step (some (create head)) es s → WellFormed s) ↔
      Run.Meets step ClearsEmpty (some (create head)) es := by
  refine Run.forall_reached_iff (I := WellFormed) (fun _ => id) ?_ ?_
    ⟨create head, [], rfl, chain_create head⟩ es
  · rintro _ e ⟨s, l, rfl, h⟩ hclears
    by_cases he : e = .clear
    · subst he
      obtain ⟨s', hclear, hchain⟩ := h.am_cc_clear
      rw [h.ring.eq_nil (hclears s rfl)] at hchain
      exact ⟨s', [], hclear, hchain⟩
    · obtain ⟨s', l', hstep, hchain⟩ := h.handle he
      exact ⟨s', l', hstep, hchain⟩
  · rintro _ e ⟨s, l, rfl, h⟩ hclears ⟨s', l', hstep, hchain⟩
    cases e with
    | clear =>
      -- the count still has the nodes that the clear has freed
      obtain ⟨s'', hclear, hchain'⟩ := h.am_cc_clear
      obtain rfl : s'' = s' := Option.some.inj (hclear.symm.trans hstep)
      have hnil : l' = [] := hchain.ring.eq_nil hchain'.ring.next_head_nil
      have hcount := hchain.count.symm.trans hchain'.count
      rw [hnil, Option.some_inj] at hcount
      have hl : l = [] := List.length_eq_zero_iff.mp (by simpa using hcount.symm)
      refine hclears ?_
      rintro _ ⟨⟩
      rw [hl] at h
      exact h.ring.next_head_nil
    | caption => exact hclears trivial
    | render => exact hclears trivial

/-- A decoder that shows analog captions of page 1. -/
def analog : Decoder := ⟨false, 100, 1, .flashNone, true, true⟩

/-- A caption arrives and is cleared. -/
def captionCleared : List Event := [.caption analog false 1 (some []) 0 1, .clear]

/-- A caption that is cleared before it is rendered: the chain is empty, and the count
is one. -/
theorem not_wellFormed_clear :
    ¬ ∀ s, Run.Reached step (some (create 0)) captionCleared s → WellFormed s := by
  intro h
  obtain ⟨t, l, ht, hchain⟩ := h _ (Run.reached_last _ _)
  have hnext : ((captionCleared.foldl step (some (create 0))).bind fun t =>
      nextOf t.heap t.json_chain_head) = (captionCleared.foldl step (some (create 0))).map
        State.json_chain_head := by
    decide
  have hcount : ((captionCleared.foldl step (some (create 0))).bind fun t =>
      countOf t.heap t.json_chain_head) = some 1 := by
    decide
  rw [ht, Option.bind_some] at hnext hcount
  have hnil : l = [] := hchain.ring.eq_nil hnext
  rw [hchain.count, hnil] at hcount
  exact absurd hcount (by decide)

end ClosedCaptionChain
end AmlSubtitle
