import Mathlib.Data.List.Nodup
import Mathlib.Tactic

/-!
# Singly linked lists threaded through a heap

A heap `H : P → Option N` maps the address of a live node to the node and every
other address to `none`.  A field `next : N → Option P` threads lists through the
nodes; one node may lie on several lists, one for each such field.

* `Chain next H q l`: starting at the pointer `q` and following `next`, the nodes
  visited are those at the addresses `l`, all live, and the last one's `next` is
  null.  A chain is never circular, and `l` is determined by `q`.
* `Chain.unlink`, `Chain.insert_after`: a list loses or gains a node in the middle.
* `findLink`: the walk with a pointer to a pointer, up to a given node, that code
  unlinking a node does.  It says where the pointer to the node is stored.
* `Threads next key H head`: for each key `k` the list at `head k` holds each live
  node of key `k` once, and no other.  This is what a family of lists that
  partition the heap by a key satisfies, and `Threads.push`, `Threads.unlink_head`
  and `Threads.unlink_after` are what inserting and removing a node do to it.
* `Threads.congr`: a write that changes neither `next` nor `key` of any node is not
  seen.
-/

namespace AmlSubtitle
namespace Thread

variable {P N K : Type*} {next : N → Option P} {key : N → K} {H H' : P → Option N}

/-! ## Chains -/

/-- The list at a pointer, by the addresses of its nodes. -/
inductive Chain (next : N → Option P) (H : P → Option N) : Option P → List P → Prop
  | nil : Chain next H none []
  | cons {p : P} {n : N} {l : List P} :
      H p = some n → Chain next H (next n) l → Chain next H (some p) (p :: l)

theorem Chain.eq_nil {l : List P} (h : Chain next H none l) : l = [] := by
  cases h
  rfl

theorem Chain.exists_cons {p : P} {l : List P} (h : Chain next H (some p) l) :
    ∃ n l', l = p :: l' ∧ H p = some n ∧ Chain next H (next n) l' := by
  cases h with
  | cons hp hl => exact ⟨_, _, rfl, hp, hl⟩

theorem Chain.of_cons {q : Option P} {p : P} {l : List P} (h : Chain next H q (p :: l)) :
    q = some p ∧ ∃ n, H p = some n ∧ Chain next H (next n) l := by
  cases h with
  | cons hp hl => exact ⟨rfl, _, hp, hl⟩

/-- A pointer determines its list. -/
theorem Chain.unique {q : Option P} {l l' : List P} (h : Chain next H q l)
    (h' : Chain next H q l') : l = l' := by
  induction h generalizing l' with
  | nil => exact h'.eq_nil.symm
  | cons hp hl ih =>
    obtain ⟨n, l'', rfl, hp', hl'⟩ := h'.exists_cons
    rw [hp, Option.some_inj] at hp'
    rw [ih (hp' ▸ hl')]

/-- A list determines its pointer. -/
theorem Chain.pointer_unique {q q' : Option P} {l : List P} (h : Chain next H q l)
    (h' : Chain next H q' l) : q = q' := by
  cases l with
  | nil =>
    cases h
    cases h'
    rfl
  | cons p l => rw [h.of_cons.1, h'.of_cons.1]

/-- The rest of a list. -/
theorem Chain.of_append {q : Option P} {pre post : List P} (h : Chain next H q (pre ++ post)) :
    ∃ q', Chain next H q' post := by
  induction pre generalizing q with
  | nil => exact ⟨q, h⟩
  | cons p pre ih =>
    obtain ⟨-, n, -, hl⟩ := h.of_cons
    exact ih hl

theorem Chain.eq_none_iff {q : Option P} {l : List P} (h : Chain next H q l) :
    q = none ↔ l = [] := by
  cases h <;> simp

/-- Every node of a list is live. -/
theorem Chain.live {q : Option P} {l : List P} (h : Chain next H q l) {p : P} (hp : p ∈ l) :
    ∃ n, H p = some n := by
  induction h with
  | nil => cases hp
  | cons hn _ ih =>
    rcases List.mem_cons.mp hp with rfl | hp
    · exact ⟨_, hn⟩
    · exact ih hp

/-- A list depends on the `next` fields of its own nodes only. -/
theorem Chain.congr {q : Option P} {l : List P} (h : Chain next H q l)
    (hH : ∀ p ∈ l, (H' p).map next = (H p).map next) : Chain next H' q l := by
  induction h with
  | nil => exact Chain.nil
  | @cons p n l hp hl ih =>
    have hp' : (H' p).map next = some (next n) := by
      rw [hH p List.mem_cons_self, hp, Option.map_some]
    obtain ⟨n', hn', hnext⟩ := Option.map_eq_some_iff.mp hp'
    refine Chain.cons hn' ?_
    rw [hnext]
    exact ih fun p' h' => hH p' (List.mem_cons_of_mem _ h')

/-- **Unlinking.**  Where the node before `t` takes over `t`'s pointer, the list
loses `t` and nothing else. -/
theorem Chain.unlink {q : Option P} {pre post : List P} {a t : P} {nt na : N}
    (h : Chain next H q (pre ++ a :: t :: post)) (hnodup : (pre ++ a :: t :: post).Nodup)
    (ht : H t = some nt) (ha : H' a = some na) (hna : next na = next nt)
    (hH : ∀ p, p ≠ a → p ≠ t → (H' p).map next = (H p).map next) :
    Chain next H' q (pre ++ a :: post) := by
  induction pre generalizing q with
  | nil =>
    obtain ⟨rfl, n, _, hl⟩ := h.of_cons
    obtain ⟨_, n', hn', hl'⟩ := hl.of_cons
    rw [ht, Option.some_inj] at hn'
    refine Chain.cons ha ?_
    rw [hna, hn']
    simp only [List.nil_append, List.nodup_cons, List.mem_cons, not_or] at hnodup
    refine hl'.congr fun p hp => hH p ?_ ?_
    · rintro rfl
      exact hnodup.1.2 hp
    · rintro rfl
      exact hnodup.2.1 hp
  | cons b pre ih =>
    rw [List.cons_append] at h hnodup
    obtain ⟨rfl, n, hn, hl⟩ := h.of_cons
    obtain ⟨hb, hnodup⟩ := List.nodup_cons.mp hnodup
    have hne : b ≠ a ∧ b ≠ t := by
      constructor <;> rintro rfl <;> exact hb (by simp)
    have hb' : (H' b).map next = some (next n) := by
      rw [hH b hne.1 hne.2, hn, Option.map_some]
    obtain ⟨n', hn', hnext⟩ := Option.map_eq_some_iff.mp hb'
    refine Chain.cons hn' ?_
    rw [hnext]
    exact ih hl hnodup

/-- **Inserting** behind a node: the new node, at `p`, takes over the pointer of the
node at `a`, which points to the new node instead. -/
theorem Chain.insert_after {q : Option P} {pre post : List P} {a p : P} {na na' n : N}
    (h : Chain next H q (pre ++ a :: post)) (hnodup : (pre ++ a :: post).Nodup)
    (hpre : p ∉ pre ++ a :: post) (ha : H a = some na) (ha' : H' a = some na')
    (hna' : next na' = some p) (hp : H' p = some n) (hn : next n = next na)
    (hH : ∀ p', p' ≠ a → p' ≠ p → (H' p').map next = (H p').map next) :
    Chain next H' q (pre ++ a :: p :: post) := by
  induction pre generalizing q with
  | nil =>
    obtain ⟨rfl, m, hm, hl⟩ := h.of_cons
    rw [ha, Option.some_inj] at hm
    rw [List.nil_append] at hpre hnodup
    refine Chain.cons ha' ?_
    rw [hna']
    refine Chain.cons hp ?_
    rw [hn, hm]
    refine hl.congr fun p' hp' => hH p' ?_ ?_
    · rintro rfl
      exact (List.nodup_cons.mp hnodup).1 hp'
    · rintro rfl
      exact hpre (List.mem_cons_of_mem _ hp')
  | cons b pre ih =>
    rw [List.cons_append] at h hnodup hpre
    obtain ⟨rfl, m, hm, hl⟩ := h.of_cons
    obtain ⟨hb, hnodup⟩ := List.nodup_cons.mp hnodup
    have hba : b ≠ a := by
      rintro rfl
      exact hb (by simp)
    have hbp : b ≠ p := by
      rintro rfl
      exact hpre List.mem_cons_self
    have hb' : (H' b).map next = some (next m) := by
      rw [hH b hba hbp, hm, Option.map_some]
    obtain ⟨m', hm', hnext⟩ := Option.map_eq_some_iff.mp hb'
    refine Chain.cons hm' ?_
    rw [hnext]
    exact ih hl hnodup fun hmem => hpre (List.mem_cons_of_mem _ hmem)

/-- A list of distinct addresses below a bound is no longer than the bound. -/
theorem length_le_of_lt {l : List ℕ} (hnodup : l.Nodup) {n : ℕ} (h : ∀ p ∈ l, p < n) :
    l.length ≤ n := by
  have hsub : l ⊆ List.range n := fun p hp => List.mem_range.mpr (h p hp)
  simpa using (hnodup.subperm hsub).length_le

/-! ## Looking for the pointer to a node -/

/-- Where a pointer of a list is stored: in the list's head, or in the node before. -/
inductive Link (P : Type*) where
  | head
  | after (p : P)
  deriving DecidableEq, Repr

/-- What a walk along a list comes to. -/
inductive Search (P : Type*) where
  | found (link : Link P)
  | absent
  | dangling
  deriving DecidableEq, Repr

/-- The walk along a list up to the node `t`, of at most `fuel` nodes. -/
def findLink [DecidableEq P] (next : N → Option P) (H : P → Option N) (t : P) :
    ℕ → Link P → Option P → Search P
  | _, _, none => .absent
  | 0, _, some _ => .dangling
  | fuel + 1, link, some p =>
    if p = t then
      .found link
    else
      match H p with
      | none => .dangling
      | some n => findLink next H t fuel (.after p) (next n)

/-- The pointer to the node after `pre`. -/
def linkAfter (link : Link P) (pre : List P) : Link P :=
  (pre.getLast?).elim link .after

/-- **The walk finds a node that is on the list**, at its predecessor. -/
theorem findLink_of_mem [DecidableEq P] {q : Option P} {l : List P} (h : Chain next H q l)
    {t : P} (ht : t ∈ l) {fuel : ℕ} (hfuel : l.length ≤ fuel) (link : Link P) :
    ∃ pre post, l = pre ++ t :: post ∧
      findLink next H t fuel link q = .found (linkAfter link pre) := by
  induction h generalizing fuel link with
  | nil => cases ht
  | @cons p n l hp hl ih =>
    obtain ⟨fuel, rfl⟩ : ∃ f, fuel = f + 1 := ⟨fuel - 1, by rw [List.length_cons] at hfuel; omega⟩
    rw [List.length_cons, Nat.add_le_add_iff_right] at hfuel
    by_cases hpt : p = t
    · refine ⟨[], l, by rw [hpt, List.nil_append], ?_⟩
      rw [findLink, if_pos hpt]
      rfl
    · have htl : t ∈ l := (List.mem_cons.mp ht).resolve_left (Ne.symm hpt)
      obtain ⟨pre, post, rfl, hfind⟩ := ih htl hfuel (.after p)
      refine ⟨p :: pre, post, rfl, ?_⟩
      rw [findLink, if_neg hpt, hp]
      dsimp only
      rw [hfind, linkAfter, linkAfter, List.getLast?_cons]
      cases pre.getLast? <;> rfl

/-! ## Families of lists -/

/-- The lists at `head` partition the live nodes by their keys. -/
def Threads (next : N → Option P) (key : N → K) (H : P → Option N) (head : K → Option P) :
    Prop :=
  ∀ k, ∃ l, Chain next H (head k) l ∧ l.Nodup ∧ ∀ p, p ∈ l ↔ ∃ n, H p = some n ∧ key n = k

/-- An empty heap has empty lists. -/
theorem Threads.empty : Threads next key (fun _ : P => none) (fun _ => none) :=
  fun _ => ⟨[], Chain.nil, List.nodup_nil, by simp⟩

/-- The list of a key, and where a node of that key stands on it. -/
theorem Threads.mem_list {head : K → Option P} (h : Threads next key H head) {k : K} {l : List P}
    (hl : Chain next H (head k) l) {p : P} : p ∈ l ↔ ∃ n, H p = some n ∧ key n = k := by
  obtain ⟨l', hl', _, hmem⟩ := h k
  rw [hl.unique hl']
  exact hmem p

theorem Threads.nodup {head : K → Option P} (h : Threads next key H head) {k : K} {l : List P}
    (hl : Chain next H (head k) l) : l.Nodup := by
  obtain ⟨l', hl', hnodup, _⟩ := h k
  rwa [hl.unique hl']

/-- Where a list is empty, no live node has its key. -/
theorem Threads.key_ne_of_head_none {head : K → Option P} (h : Threads next key H head) {k : K}
    (hk : head k = none) {p : P} {n : N} (hp : H p = some n) : key n ≠ k := by
  intro hkey
  have hl : Chain next H (head k) [] := by rw [hk]; exact Chain.nil
  have hmem := (h.mem_list hl).mpr ⟨n, hp, hkey⟩
  cases hmem

/-- The first node of a list. -/
theorem Threads.head_live {head : K → Option P} (h : Threads next key H head) {k : K} {p : P}
    (hk : head k = some p) : ∃ n, H p = some n ∧ key n = k := by
  obtain ⟨l, hl, _, hmem⟩ := h k
  rw [hk] at hl
  obtain ⟨n, l', rfl, _⟩ := hl.exists_cons
  exact (hmem p).mp List.mem_cons_self

/-- A write to fields other than `next` and `key` is not seen. -/
theorem Threads.congr {head : K → Option P} (h : Threads next key H head)
    (hnext : ∀ p, (H' p).map next = (H p).map next)
    (hkey : ∀ p, (H' p).map key = (H p).map key) : Threads next key H' head := by
  intro k
  obtain ⟨l, hl, hnodup, hmem⟩ := h k
  refine ⟨l, hl.congr fun p _ => hnext p, hnodup, fun p => ?_⟩
  rw [hmem p]
  have hiff : (∃ n, H' p = some n ∧ key n = k) ↔ (∃ n, H p = some n ∧ key n = k) := by
    rw [← Option.map_eq_some_iff, ← Option.map_eq_some_iff, hkey p]
  exact hiff.symm

variable [DecidableEq P] [DecidableEq K]

/-- **Inserting** a new node at the head of its list. -/
theorem Threads.push {head : K → Option P} (h : Threads next key H head) {p : P} {n : N}
    (hp : H p = none) (hn : next n = head (key n)) :
    Threads next key (Function.update H p (some n))
      (Function.update head (key n) (some p)) := by
  intro k
  obtain ⟨l, hl, hnodup, hmem⟩ := h k
  have hpl : p ∉ l := by
    rw [hmem p, hp]
    rintro ⟨_, ⟨⟩, _⟩
  have hframe : ∀ p' ∈ l, (Function.update H p (some n) p').map next = (H p').map next := by
    intro p' hp'
    rw [Function.update_of_ne (ne_of_mem_of_not_mem hp' hpl)]
  by_cases hk : k = key n
  · subst hk
    rw [Function.update_self]
    refine ⟨p :: l, Chain.cons (Function.update_self ..) ?_, List.nodup_cons.mpr ⟨hpl, hnodup⟩,
      fun p' => ?_⟩
    · rw [hn]
      exact hl.congr hframe
    · by_cases hpp : p' = p
      · simp [hpp]
      · rw [List.mem_cons, Function.update_of_ne hpp, hmem p']
        simp [hpp]
  · rw [Function.update_of_ne hk]
    refine ⟨l, hl.congr hframe, hnodup, fun p' => ?_⟩
    by_cases hpp : p' = p
    · subst hpp
      rw [Function.update_self]
      refine iff_of_false hpl ?_
      rintro ⟨n', hn', hk'⟩
      rw [Option.some_inj] at hn'
      exact hk (hn' ▸ hk'.symm)
    · rw [Function.update_of_ne hpp, hmem p']

/-- **Removing the first node** of a list. -/
theorem Threads.unlink_head {head : K → Option P} (h : Threads next key H head) {t : P} {n : N}
    (ht : H t = some n) (hhead : head (key n) = some t) :
    Threads next key (Function.update H t none) (Function.update head (key n) (next n)) := by
  intro k
  obtain ⟨l, hl, hnodup, hmem⟩ := h k
  by_cases hk : k = key n
  · subst hk
    rw [hhead] at hl
    obtain ⟨n', l', rfl, hn', hl'⟩ := hl.exists_cons
    rw [ht, Option.some_inj] at hn'
    obtain ⟨htl, hnodup⟩ := List.nodup_cons.mp hnodup
    rw [Function.update_self, hn']
    refine ⟨l', hl'.congr fun p hp => ?_, hnodup, fun p => ?_⟩
    · rw [Function.update_of_ne (ne_of_mem_of_not_mem hp htl)]
    · by_cases hpt : p = t
      · subst hpt
        simp [htl]
      · rw [Function.update_of_ne hpt, ← hn', ← hmem p, List.mem_cons]
        simp [hpt]
  · have htl : t ∉ l := by
      rw [hmem t, ht]
      rintro ⟨n', hn', hk'⟩
      rw [Option.some_inj] at hn'
      exact hk (hn' ▸ hk'.symm)
    rw [Function.update_of_ne hk]
    refine ⟨l, hl.congr fun p hp => ?_, hnodup, fun p => ?_⟩
    · rw [Function.update_of_ne (ne_of_mem_of_not_mem hp htl)]
    · by_cases hpt : p = t
      · subst hpt
        simp [htl]
      · rw [Function.update_of_ne hpt, hmem p]

/-- **Removing a later node** of a list: the node before it, at `a`, takes over its
pointer. -/
theorem Threads.unlink_after {head : K → Option P} (h : Threads next key H head) {t a : P}
    {n na na' : N} {pre post : List P} (ht : H t = some n) (ha : H a = some na)
    (hl : Chain next H (head (key n)) (pre ++ a :: t :: post))
    (hnext : next na' = next n) (hkey : key na' = key na) :
    Threads next key (Function.update (Function.update H a (some na')) t none) head := by
  have hnodup := h.nodup hl
  have hta : t ≠ a := by
    rintro rfl
    have htwice := (List.nodup_append.mp hnodup).2.1
    rw [List.nodup_cons] at htwice
    exact htwice.1 List.mem_cons_self
  have hH : ∀ p, p ≠ a → p ≠ t →
      Function.update (Function.update H a (some na')) t none p = H p := by
    intro p hpa hpt
    rw [Function.update_of_ne hpt, Function.update_of_ne hpa]
  have hA : Function.update (Function.update H a (some na')) t none a = some na' := by
    rw [Function.update_of_ne hta.symm, Function.update_self]
  -- the keys of all nodes other than `t` stay as they were
  have hkeys : ∀ k p, p ≠ t → ((∃ m, Function.update (Function.update H a (some na')) t none p
      = some m ∧ key m = k) ↔ ∃ m, H p = some m ∧ key m = k) := by
    intro k p hpt
    by_cases hpa : p = a
    · subst hpa
      rw [hA, ha]
      simp [hkey]
    · rw [hH p hpa hpt]
  intro k
  by_cases hk : k = key n
  · subst hk
    refine ⟨pre ++ a :: post, hl.unlink hnodup ht hA hnext fun p hpa hpt => by rw [hH p hpa hpt],
      ?_, fun p => ?_⟩
    · refine hnodup.sublist ?_
      exact List.Sublist.append_left ((List.sublist_cons_self t post).cons_cons a) pre
    · by_cases hpt : p = t
      · subst hpt
        have hnot : p ∉ pre ++ a :: post := by
          rw [List.append_cons, List.nodup_middle, List.nodup_cons] at hnodup
          simpa using hnodup.1
        simp [hnot]
      · rw [hkeys _ p hpt, ← h.mem_list hl]
        simp [hpt]
  · obtain ⟨l, hl', hnodup', hmem⟩ := h k
    have hmemOf : ∀ p ∈ pre ++ a :: t :: post, p ∉ l := by
      intro p hp hpl
      obtain ⟨m, hm, hkm⟩ := (h.mem_list hl).mp hp
      obtain ⟨m', hm', hkm'⟩ := (hmem p).mp hpl
      rw [hm, Option.some_inj] at hm'
      exact hk (by rw [← hkm', ← hm', hkm])
    have hal : a ∉ l := hmemOf a (by simp)
    have htl : t ∉ l := hmemOf t (by simp)
    refine ⟨l, hl'.congr fun p hp => ?_, hnodup', fun p => ?_⟩
    · rw [hH p (ne_of_mem_of_not_mem hp hal) (ne_of_mem_of_not_mem hp htl)]
    · by_cases hpt : p = t
      · subst hpt
        simp [htl]
      · rw [hkeys k p hpt, hmem p]

end Thread
end AmlSubtitle
