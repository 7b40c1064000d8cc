import Mathlib.Data.Nat.Bitwise
import Mathlib.Tactic

/-!
# Fields packed into words

Fields of `w` bits, `n` to a word, the first of a word in its highest bits.  The fields of an
array of words are numbered throughout.

* `fieldAt_put`: a value that is or-ed into a field that is zero becomes the field's, and no
  other field changes.
* `fieldAt_putAll`: the same for a list of values with their places, if no two have one place.
-/

namespace AmlSubtitle
namespace Packed

variable {w n : ℕ}

/-- The lowest bit of a field in its word. -/
def place (w n m : ℕ) : ℕ := w * (n - 1 - m % n)

/-- The value of a field. -/
def fieldAt (w n : ℕ) (words : ℕ → ℕ) (m : ℕ) : ℕ := words (m / n) >>> place w n m % 2 ^ w

/-- A value or-ed into a field. -/
def put (w n : ℕ) (words : ℕ → ℕ) (store : ℕ × ℕ) : ℕ → ℕ :=
  Function.update words (store.2 / n) (words (store.2 / n) ||| store.1 <<< place w n store.2)

theorem testBit_fieldAt (words : ℕ → ℕ) (m j : ℕ) :
    (fieldAt w n words m).testBit j =
      (decide (j < w) && (words (m / n)).testBit (place w n m + j)) := by
  rw [fieldAt, Nat.testBit_mod_two_pow, Nat.testBit_shiftRight]

/-- Two fields of a word lie apart. -/
theorem place_apart (hn : 0 < n) {k m : ℕ} (hword : k / n = m / n) (hne : k ≠ m) :
    place w n k + w ≤ place w n m ∨ place w n m + w ≤ place w n k := by
  have hk := Nat.div_add_mod k n
  have hm := Nat.div_add_mod m n
  have hklt := Nat.mod_lt k hn
  have hmlt := Nat.mod_lt m hn
  rw [hword] at hk
  unfold place
  rcases Nat.lt_or_gt_of_ne (show k % n ≠ m % n by omega) with hlt | hlt
  · right
    calc w * (n - 1 - m % n) + w = w * (n - 1 - m % n + 1) := by ring
      _ ≤ w * (n - 1 - k % n) := Nat.mul_le_mul_left _ (by omega)
  · left
    calc w * (n - 1 - k % n) + w = w * (n - 1 - k % n + 1) := by ring
      _ ≤ w * (n - 1 - m % n) := Nat.mul_le_mul_left _ (by omega)

theorem fieldAt_put (hn : 0 < n) {words : ℕ → ℕ} {c m : ℕ} (hc : c < 2 ^ w)
    (hzero : fieldAt w n words m = 0) (k : ℕ) :
    fieldAt w n (put w n words (c, m)) k = if k = m then c else fieldAt w n words k := by
  refine Nat.eq_of_testBit_eq fun j => ?_
  rw [testBit_fieldAt, put]
  dsimp only
  by_cases hj : j < w
  · by_cases hword : k / n = m / n
    · rw [hword, Function.update_self, Nat.testBit_or, Nat.testBit_shiftLeft]
      split_ifs with hkm
      · have hbit := congrArg (fun v => Nat.testBit v j) hzero
        simp only [testBit_fieldAt, hj, decide_true, Bool.true_and, Nat.zero_testBit] at hbit
        simp [hkm, hbit, hj]
      · have hclear : ∀ i, w ≤ i → c.testBit i = false := fun i hi =>
          Nat.testBit_lt_two_pow (hc.trans_le (Nat.pow_le_pow_right (by decide) hi))
        rw [testBit_fieldAt, hword]
        rcases place_apart (w := w) hn hword hkm with hbelow | habove
        · have hnot : ¬ place w n m ≤ place w n k + j := by omega
          simp [hnot]
        · rw [hclear (place w n k + j - place w n m) (by omega)]
          simp
    · have hkm : k ≠ m := fun h => hword (h ▸ rfl)
      rw [Function.update_of_ne hword, if_neg hkm, testBit_fieldAt]
  · have hclear : c.testBit j = false :=
      Nat.testBit_lt_two_pow (hc.trans_le (Nat.pow_le_pow_right (by decide) (not_lt.mp hj)))
    split_ifs with hkm
    · simp [hj, hclear]
    · simp [testBit_fieldAt, hj]

/-- **Stores** of values with their places. -/
theorem fieldAt_putAll (hn : 0 < n) {stores : List (ℕ × ℕ)} {words : ℕ → ℕ}
    (hc : ∀ store ∈ stores, store.1 < 2 ^ w) (hplaces : (stores.map Prod.snd).Nodup)
    (hzero : ∀ store ∈ stores, fieldAt w n words store.2 = 0) :
    (∀ store ∈ stores, fieldAt w n (stores.foldl (put w n) words) store.2 = store.1) ∧
      ∀ k, k ∉ stores.map Prod.snd →
        fieldAt w n (stores.foldl (put w n) words) k = fieldAt w n words k := by
  induction stores generalizing words with
  | nil => simp
  | cons store stores ih =>
    obtain ⟨c, m⟩ := store
    obtain ⟨hfirst, hc⟩ := List.forall_mem_cons.mp hc
    obtain ⟨hzero, hzeros⟩ := List.forall_mem_cons.mp hzero
    rw [List.map_cons, List.nodup_cons] at hplaces
    obtain ⟨hnew, hplaces⟩ := hplaces
    have hput := fieldAt_put hn hfirst hzero
    have hother : ∀ store ∈ stores, store.2 ≠ m := fun store hstore heq =>
      hnew (List.mem_map.mpr ⟨store, hstore, heq⟩)
    obtain ⟨hstored, hkept⟩ := @ih (put w n words (c, m)) hc hplaces fun store hstore => by
      rw [hput, if_neg (hother store hstore)]
      exact hzeros store hstore
    refine ⟨List.forall_mem_cons.mpr ⟨?_, hstored⟩, fun k hk => ?_⟩
    · refine (hkept m hnew).trans ?_
      rw [hput, if_pos rfl]
    · rw [List.map_cons, List.mem_cons, not_or] at hk
      refine (hkept k hk.2).trans ?_
      rw [hput, if_neg hk.1]

end Packed
end AmlSubtitle
