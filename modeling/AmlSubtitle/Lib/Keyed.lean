import Mathlib.Data.List.Nodup
import Mathlib.Tactic

/-!
# Lists of records kept by a key

The singly linked lists of records that code searches by an identifier: the
search returns the first record with the identifier, a write through the pointer
it returned changes that record, and unlinking the record removes it.

Where the keys of the list are pairwise distinct the three are what they look
like; the file says so in the form the callers need, and that the operations keep
the keys distinct.
-/

namespace AmlSubtitle
namespace Keyed

variable {α K : Type*} [DecidableEq K] (key : α → K)

/-- The first record with the key. -/
def get (l : List α) (k : K) : Option α := l.find? fun a => key a = k

/-- A write to the first record with the key. -/
def modify (l : List α) (k : K) (f : α → α) : List α :=
  match l with
  | [] => []
  | a :: l => if key a = k then f a :: l else a :: modify l k f

/-- The list without the first record with the key. -/
def remove (l : List α) (k : K) : List α := l.eraseP fun a => key a = k

variable {key} {l : List α} {k k' : K} {a : α}

/-! ## Searching -/

theorem get_cons (a : α) (l : List α) (k : K) :
    get key (a :: l) k = if key a = k then some a else get key l k := by
  rw [get, List.find?_cons]
  by_cases h : key a = k <;> simp [h, get]

theorem get_cons_self (l : List α) (h : key a = k) : get key (a :: l) k = some a := by
  rw [get_cons, if_pos h]

theorem get_cons_of_ne (l : List α) (h : key a ≠ k) : get key (a :: l) k = get key l k := by
  rw [get_cons, if_neg h]

theorem mem_of_get (h : get key l k = some a) : a ∈ l := List.mem_of_find?_eq_some h

theorem key_of_get (h : get key l k = some a) : key a = k := by
  simpa using List.find?_some h

theorem get_eq_none_iff : get key l k = none ↔ ∀ a ∈ l, key a ≠ k := by
  simp [get, List.find?_eq_none]

/-- Where the keys are distinct, every record is the one its key finds. -/
theorem get_of_mem (hnodup : (l.map key).Nodup) (h : a ∈ l) : get key l (key a) = some a := by
  induction l with
  | nil => cases h
  | cons b l ih =>
    rw [List.map_cons, List.nodup_cons] at hnodup
    rw [get_cons]
    rcases List.mem_cons.mp h with rfl | h
    · rw [if_pos rfl]
    · rw [if_neg, ih hnodup.2 h]
      intro hb
      exact hnodup.1 (hb ▸ List.mem_map_of_mem h)

/-- Where the keys are distinct, a key names one record. -/
theorem eq_of_key_eq {b : α} (hnodup : (l.map key).Nodup) (ha : a ∈ l) (hb : b ∈ l)
    (h : key a = key b) : a = b := by
  have hget := get_of_mem hnodup ha
  rw [h, get_of_mem hnodup hb] at hget
  exact (Option.some_inj.mp hget).symm

/-- A record put in front. -/
theorem nodup_cons (hnodup : (l.map key).Nodup) (h : get key l (key a) = none) :
    ((a :: l).map key).Nodup := by
  rw [List.map_cons, List.nodup_cons]
  refine ⟨fun hmem => ?_, hnodup⟩
  obtain ⟨b, hb, hkey⟩ := List.mem_map.mp hmem
  exact get_eq_none_iff.mp h b hb hkey

/-! ## Writing -/

/-- A write that leaves the key of the record it writes. -/
theorem keys_modify {f : α → α} (hf : ∀ a, key a = k → key (f a) = k) :
    (modify key l k f).map key = l.map key := by
  induction l with
  | nil => rfl
  | cons b l ih =>
    rw [modify]
    split
    · rename_i hb
      rw [List.map_cons, List.map_cons, hf b hb, hb]
    · rw [List.map_cons, List.map_cons, ih]

theorem get_modify_self {f : α → α} (hf : ∀ a, key a = k → key (f a) = k) :
    get key (modify key l k f) k = (get key l k).map f := by
  induction l with
  | nil => rfl
  | cons b l ih =>
    rw [modify, get_cons]
    split
    · rename_i hb
      rw [get_cons, if_pos (hf b hb), Option.map_some]
    · rename_i hb
      rw [get_cons, if_neg hb, ih]

theorem get_modify_of_ne {f : α → α} (hf : ∀ a, key a = k → key (f a) = k) (hne : k' ≠ k) :
    get key (modify key l k f) k' = get key l k' := by
  induction l with
  | nil => rfl
  | cons b l ih =>
    rw [modify]
    split
    · rename_i hb
      rw [get_cons, get_cons, hf b hb, hb, if_neg hne.symm, if_neg hne.symm]
    · rw [get_cons, get_cons, ih]

/-- A record of the list after a write is a record of the list before, or the one
that was written. -/
theorem mem_modify {f : α → α} (h : a ∈ modify key l k f) :
    a ∈ l ∨ ∃ b, get key l k = some b ∧ a = f b := by
  induction l with
  | nil => cases h
  | cons b l ih =>
    rw [modify] at h
    split at h
    · rename_i hb
      rcases List.mem_cons.mp h with rfl | h
      · exact Or.inr ⟨b, by rw [get_cons, if_pos hb], rfl⟩
      · exact Or.inl (List.mem_cons_of_mem _ h)
    · rename_i hb
      rcases List.mem_cons.mp h with rfl | h
      · exact Or.inl List.mem_cons_self
      · rcases ih h with h | ⟨c, hc, rfl⟩
        · exact Or.inl (List.mem_cons_of_mem _ h)
        · exact Or.inr ⟨c, by rw [get_cons, if_neg hb, hc], rfl⟩

/-! ## Removing -/

theorem mem_of_mem_remove (h : a ∈ remove key l k) : a ∈ l := List.mem_of_mem_eraseP h

theorem nodup_remove (hnodup : (l.map key).Nodup) : ((remove key l k).map key).Nodup :=
  hnodup.sublist (List.eraseP_sublist.map key)

theorem remove_cons (b : α) : remove key (b :: l) k =
    if key b = k then l else b :: remove key l k := by
  rw [remove, List.eraseP_cons]
  by_cases h : key b = k <;> simp [h, remove]

theorem get_remove_self (hnodup : (l.map key).Nodup) : get key (remove key l k) k = none := by
  induction l with
  | nil => rfl
  | cons b l ih =>
    rw [List.map_cons, List.nodup_cons] at hnodup
    rw [remove_cons]
    split
    · rename_i hb
      rw [get_eq_none_iff]
      intro c hc hkey
      exact hnodup.1 (by rw [hb, ← hkey]; exact List.mem_map_of_mem hc)
    · rename_i hb
      rw [get_cons, if_neg hb, ih hnodup.2]

theorem get_remove_of_ne (hne : k' ≠ k) : get key (remove key l k) k' = get key l k' := by
  induction l with
  | nil => rfl
  | cons b l ih =>
    rw [remove_cons]
    split
    · rename_i hb
      rw [get_cons, hb, if_neg hne.symm]
    · rw [get_cons, get_cons, ih]

end Keyed
end AmlSubtitle
