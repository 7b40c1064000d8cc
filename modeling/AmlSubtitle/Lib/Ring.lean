import Mathlib.Data.List.Chain
import Mathlib.Data.List.Nodup
import Mathlib.Tactic

/-!
# Circular doubly linked lists

A list that begins and ends at a head: each node points to the one after it and to the
one before, and so does the head.  The links are two partial functions on addresses,
which say nothing of an address where there is no node.

* `Ring next prior head l`: from the head, and back to it, the nodes are those at `l`,
  in this order, each once.
* `Ring.insert`: four writes put a new node in front of the head, at the end of the
  list.
* `Ring.unlink`: two writes take a node out, whatever its place.
* `Ring.congr`: the links of other addresses do not matter.
-/

namespace AmlSubtitle

variable {P : Type*}

/-- Two nodes that follow each other. -/
def Linked (next prior : P → Option P) (a b : P) : Prop := next a = some b ∧ prior b = some a

/-- The list at a head. -/
structure Ring (next prior : P → Option P) (head : P) (l : List P) : Prop where
  nodup : (head :: l).Nodup
  chain : (head :: l ++ [head]).IsChain (Linked next prior)

namespace Ring

variable {next prior next' prior' : P → Option P} {head x : P} {l pre post : List P}

/-- A list with no node. -/
theorem empty (hnext : next head = some head) (hprior : prior head = some head) :
    Ring next prior head [] where
  nodup := List.nodup_singleton head
  chain := List.isChain_pair.mpr ⟨hnext, hprior⟩

/-- A list depends on the links of its own nodes only. -/
theorem congr (h : Ring next prior head l) (hnext : ∀ a ∈ head :: l, next' a = next a)
    (hprior : ∀ a ∈ head :: l, prior' a = prior a) : Ring next' prior' head l where
  nodup := h.nodup
  chain := by
    have hmem : ∀ a ∈ head :: l ++ [head], a ∈ head :: l := by
      intro a ha
      rcases List.mem_append.mp ha with ha | ha
      · exact ha
      · exact List.mem_singleton.mp ha ▸ List.mem_cons_self
    refine h.chain.imp_of_mem_imp fun a b ha hb hab => ?_
    exact ⟨(hnext a (hmem a ha)).trans hab.1, (hprior b (hmem b hb)).trans hab.2⟩

/-! ## The neighbours of a node -/

/-- The first node. -/
theorem next_head (h : Ring next prior head (x :: l)) : next head = some x :=
  (List.isChain_cons_cons.mp h.chain).1.1

theorem next_head_nil (h : Ring next prior head []) : next head = some head :=
  (List.isChain_cons_cons.mp h.chain).1.1

/-- A head that points to itself has an empty list. -/
theorem eq_nil (h : Ring next prior head l) (hnext : next head = some head) : l = [] := by
  cases l with
  | nil => rfl
  | cons y l =>
    rw [h.next_head, Option.some_inj] at hnext
    exact absurd (hnext ▸ List.mem_cons_self) (List.nodup_cons.mp h.nodup).1

/-- What stands before and after the first node. -/
theorem first_links (h : Ring next prior head (x :: l)) :
    prior x = some head ∧ ∃ b ∈ head :: l, next x = some b := by
  have hchain := List.isChain_cons_cons.mp h.chain
  refine ⟨hchain.1.2, ?_⟩
  cases l with
  | nil => exact ⟨head, List.mem_cons_self, (List.isChain_pair.mp hchain.2).1⟩
  | cons b l =>
    exact ⟨b, List.mem_cons_of_mem _ List.mem_cons_self, (List.isChain_cons_cons.mp hchain.2).1.1⟩

/-- The last node, or the head where there is none. -/
theorem exists_last (h : Ring next prior head l) :
    ∃ init a, head :: l = init ++ [a] ∧ (init ++ [a]).IsChain (Linked next prior) ∧
      Linked next prior a head := by
  obtain ⟨init, a, hlast⟩ : ∃ init a, head :: l = init ++ [a] :=
    ⟨_, _, (List.dropLast_append_getLast (List.cons_ne_nil head l)).symm⟩
  have hchain := h.chain
  rw [hlast, List.append_assoc, List.singleton_append, List.isChain_append_cons_cons] at hchain
  exact ⟨init, a, hlast, hchain.1, hchain.2.1⟩

/-- What stands before and after a node. -/
theorem exists_neighbours (h : Ring next prior head (pre ++ x :: post)) :
    ∃ init a b fin, head :: pre = init ++ [a] ∧ post ++ [head] = b :: fin ∧
      (init ++ [a]).IsChain (Linked next prior) ∧ Linked next prior a x ∧
      Linked next prior x b ∧ (b :: fin).IsChain (Linked next prior) := by
  obtain ⟨init, a, hpre⟩ : ∃ init a, head :: pre = init ++ [a] :=
    ⟨_, _, (List.dropLast_append_getLast (List.cons_ne_nil head pre)).symm⟩
  obtain ⟨b, fin, hpost⟩ := List.exists_cons_of_ne_nil
    (List.append_ne_nil_of_right_ne_nil post (List.cons_ne_nil head []))
  have hchain := h.chain
  rw [← List.cons_append, hpre, List.append_assoc, List.append_assoc, List.singleton_append,
    List.cons_append, hpost, List.isChain_append_cons_cons, List.isChain_cons_cons] at hchain
  exact ⟨init, a, b, fin, hpre, hpost, hchain.1, hchain.2.1, hchain.2.2.1, hchain.2.2.2⟩

/-! ## Putting in and taking out -/

variable [DecidableEq P]

/-- **Inserting at the end**: the last node and the head take the new node between
them. -/
theorem insert (h : Ring next prior head l) (hx : x ∉ head :: l) {a : P}
    (ha : prior head = some a) :
    Ring (Function.update (Function.update next a (some x)) x (some head))
      (Function.update (Function.update prior x (some a)) head (some x)) head (l ++ [x]) := by
  obtain ⟨init, a', hlast, hchain, hnext, hprior⟩ := h.exists_last
  obtain rfl : a' = a := Option.some.inj (hprior.symm.trans ha)
  have hax : a' ≠ x := by
    rintro rfl
    exact hx (hlast ▸ by simp)
  have hhead : head ≠ x := fun hhead => hx (hhead ▸ List.mem_cons_self)
  refine ⟨?_, ?_⟩
  · rw [← List.cons_append]
    exact List.nodup_append'.mpr ⟨h.nodup, List.nodup_singleton x, by simpa using hx⟩
  · rw [← List.cons_append, hlast, List.append_assoc, List.append_assoc, List.singleton_append,
      List.singleton_append, List.isChain_append_cons_cons]
    refine ⟨?_, ⟨?_, ?_⟩, List.isChain_pair.mpr ⟨?_, ?_⟩⟩
    · refine hchain.imp_of_mem_tail_imp fun u v hu hv huv => ?_
      rw [← hlast] at hu hv
      have hvhead : v ≠ head := by
        rintro rfl
        exact (List.nodup_cons.mp h.nodup).1 hv
      have hua : u ≠ a' := by
        rintro rfl
        exact hvhead (Option.some.inj (huv.1.symm.trans hnext))
      have hux : u ≠ x := ne_of_mem_of_not_mem hu hx
      have hvx : v ≠ x := ne_of_mem_of_not_mem (List.mem_cons_of_mem _ hv) hx
      rw [Linked, Function.update_of_ne hux, Function.update_of_ne hua,
        Function.update_of_ne hvhead, Function.update_of_ne hvx]
      exact huv
    · rw [Function.update_of_ne hax, Function.update_self]
    · rw [Function.update_of_ne hhead.symm, Function.update_self]
    · rw [Function.update_self]
    · rw [Function.update_self]

/-- **Taking out**: the nodes before and after it point to each other. -/
theorem unlink (h : Ring next prior head (pre ++ x :: post)) {a b : P} (ha : prior x = some a)
    (hb : next x = some b) :
    Ring (Function.update next a (some b)) (Function.update prior b (some a)) head
      (pre ++ post) := by
  obtain ⟨init, a', b', fin, hpre, hpost, hinit, hax, hxb, hfin⟩ := h.exists_neighbours
  obtain rfl : a' = a := Option.some.inj (hax.2.symm.trans ha)
  obtain rfl : b' = b := Option.some.inj (hxb.1.symm.trans hb)
  have hnodup : ((head :: pre) ++ x :: post).Nodup := h.nodup
  have hx := List.nodup_middle.mp hnodup
  have hnot : x ∉ head :: pre ∧ x ∉ post ++ [head] := by
    have hx := (List.nodup_cons.mp hx).1
    simp only [List.mem_append, List.mem_cons, List.not_mem_nil, or_false] at hx ⊢
    tauto
  refine ⟨(List.nodup_cons.mp hx).2, ?_⟩
  rw [← List.cons_append, hpre, List.append_assoc, List.append_assoc, hpost,
    List.singleton_append, List.isChain_append_cons_cons]
  refine ⟨?_, ⟨Function.update_self .., Function.update_self ..⟩, ?_⟩
  · refine hinit.imp_of_mem_imp fun u v hu hv huv => ?_
    rw [← hpre] at hu hv
    have hua : u ≠ a' := by
      rintro rfl
      exact hnot.1 (Option.some.inj (huv.1.symm.trans hax.1) ▸ hv)
    have hvb : v ≠ b' := by
      rintro rfl
      exact hnot.1 (Option.some.inj (huv.2.symm.trans hxb.2) ▸ hu)
    rw [Linked, Function.update_of_ne hua, Function.update_of_ne hvb]
    exact huv
  · refine hfin.imp_of_mem_imp fun u v hu hv huv => ?_
    rw [← hpost] at hu hv
    have hua : u ≠ a' := by
      rintro rfl
      exact hnot.2 (Option.some.inj (huv.1.symm.trans hax.1) ▸ hv)
    have hvb : v ≠ b' := by
      rintro rfl
      exact hnot.2 (Option.some.inj (huv.2.symm.trans hxb.2) ▸ hu)
    rw [Linked, Function.update_of_ne hua, Function.update_of_ne hvb]
    exact huv

end Ring
end AmlSubtitle
