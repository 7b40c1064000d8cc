import Mathlib.Data.List.Rotate
import Mathlib.Tactic

/-!
# Circular arrays

A fixed array read and written with positions that wrap once at its end.  The
array is a list; what a reader standing at position `pos` sees is the list
rotated by `pos`, so the whole theory is stated through `List.rotate`.

* `copyOut` and `copyIn` are the two-piece copies a circular buffer makes: one
  `memcpy` up to the end of the array, one from its start.
* `copyOut_eq`: the copied bytes are a prefix of the rotated array.
* `rotate_copyIn`: seen from the write position, a write replaces a prefix.
* `take_rotate_copyIn`: seen from the read position, a write appends.
* `drop_take_rotate`: advancing the read position drops what was read.
-/

namespace AmlSubtitle
namespace Circular

variable {α : Type*}

/-- The position `n` places after `pos` in an array of length `size`, wrapping
when the end is passed.  The position `size` itself is kept: it stands for the
same place as `0`. -/
def advance (size pos n : ℕ) : ℕ :=
  if size < pos + n then pos + n - size else pos + n

/-- Overwrite `buf` with `bytes` from position `pos` on. -/
def blit (buf : List α) (pos : ℕ) (bytes : List α) : List α :=
  buf.take pos ++ bytes ++ buf.drop (pos + bytes.length)

/-- Copy `n` entries out, starting at `pos`: in two pieces when they pass the
end of the array. -/
def copyOut (buf : List α) (pos n : ℕ) : List α :=
  if buf.length < pos + n then
    (buf.drop pos).take (n - (pos + n - buf.length)) ++ buf.take (pos + n - buf.length)
  else
    (buf.drop pos).take n

/-- Copy `src` in, starting at `pos`: in two pieces when it passes the end of the
array. -/
def copyIn (buf : List α) (pos : ℕ) (src : List α) : List α :=
  if buf.length < pos + src.length then
    let excess := pos + src.length - buf.length
    blit (blit buf pos (src.take (src.length - excess))) 0 (src.drop (src.length - excess))
  else
    blit buf pos src

/-! ## Positions -/

theorem advance_le {size pos n : ℕ} (hpos : pos ≤ size) (hn : n ≤ size) :
    advance size pos n ≤ size := by
  unfold advance
  split <;> omega

theorem advance_mod {size pos n : ℕ} : advance size pos n % size = (pos + n) % size := by
  unfold advance
  split
  · rename_i h
    exact (Nat.mod_eq_sub_mod h.le).symm
  · rfl

/-- Rotations only depend on the position modulo the length. -/
theorem rotate_congr {l : List α} {m n : ℕ} (h : m % l.length = n % l.length) :
    l.rotate m = l.rotate n := by
  rw [← List.rotate_mod, h, List.rotate_mod]

/-! ## Overwriting -/

theorem length_blit {buf : List α} {pos : ℕ} {bytes : List α}
    (h : pos + bytes.length ≤ buf.length) : (blit buf pos bytes).length = buf.length := by
  simp only [blit, List.length_append, List.length_take, List.length_drop]
  omega

theorem take_blit {buf : List α} {pos : ℕ} {bytes : List α} (h : pos ≤ buf.length) :
    (blit buf pos bytes).take pos = buf.take pos := by
  rw [blit, List.append_assoc, List.take_append_of_le_length (by simp [h]), List.take_take,
    min_self]

theorem drop_blit {buf : List α} {pos : ℕ} {bytes : List α} (h : pos ≤ buf.length) :
    (blit buf pos bytes).drop pos = bytes ++ buf.drop (pos + bytes.length) := by
  have hlen : (buf.take pos).length = pos := by rw [List.length_take]; omega
  rw [blit, List.append_assoc, List.drop_append_of_le_length hlen.ge,
    List.drop_of_length_le hlen.le, List.nil_append]

/-! ## Copying out -/

/-- **The bytes copied out** are the first `n` of the array seen from `pos`. -/
theorem copyOut_eq {buf : List α} {pos n : ℕ} (hpos : pos ≤ buf.length) (hn : n ≤ buf.length) :
    copyOut buf pos n = (buf.rotate pos).take n := by
  rw [List.rotate_eq_drop_append_take hpos, copyOut]
  have hdrop : (buf.drop pos).length = buf.length - pos := List.length_drop
  split
  · rename_i hover
    rw [List.take_append, hdrop, List.take_of_length_le (by omega : (buf.drop pos).length ≤ n),
      List.take_of_length_le (by omega), List.take_take]
    congr 2
    omega
  · rename_i hfit
    rw [List.take_append_of_le_length (by omega)]

/-! ## Copying in -/

theorem length_copyIn {buf : List α} {pos : ℕ} {src : List α} (hpos : pos ≤ buf.length)
    (hsrc : src.length ≤ buf.length) : (copyIn buf pos src).length = buf.length := by
  unfold copyIn
  split
  · rename_i hover
    set s₁ := src.take (src.length - (pos + src.length - buf.length)) with hs₁
    set s₂ := src.drop (src.length - (pos + src.length - buf.length)) with hs₂
    have hl₁ : s₁.length = buf.length - pos := by rw [hs₁, List.length_take]; omega
    have hl₂ : s₂.length = pos + src.length - buf.length := by rw [hs₂, List.length_drop]; omega
    have hb : (blit buf pos s₁).length = buf.length := length_blit (by omega)
    show (blit (blit buf pos s₁) 0 s₂).length = buf.length
    rw [length_blit (by omega), hb]
  · rename_i hfit
    exact length_blit (by omega)

/-- Seen from the write position, a write replaces the first entries. -/
theorem rotate_copyIn {buf : List α} {pos : ℕ} {src : List α} (hpos : pos ≤ buf.length)
    (hsrc : src.length ≤ buf.length) :
    (copyIn buf pos src).rotate pos = src ++ (buf.rotate pos).drop src.length := by
  have hlen := length_copyIn hpos hsrc
  rw [List.rotate_eq_drop_append_take (by omega), List.rotate_eq_drop_append_take hpos]
  have hdrop : (buf.drop pos).length = buf.length - pos := List.length_drop
  unfold copyIn
  split
  · -- the write passes the end: the first piece fills it, the second starts excess
    rename_i hover
    set excess := pos + src.length - buf.length with hover_def
    set s₁ := src.take (src.length - excess) with hs₁
    set s₂ := src.drop (src.length - excess) with hs₂
    have hl₁ : s₁.length = buf.length - pos := by rw [hs₁, List.length_take]; omega
    have hl₂ : s₂.length = excess := by rw [hs₂, List.length_drop]; omega
    have hb : (blit buf pos s₁).length = buf.length := length_blit (by omega)
    have htail : (blit buf pos s₁).drop pos = s₁ := by
      rw [drop_blit hpos, List.drop_of_length_le (by omega), List.append_nil]
    have hblit : blit (blit buf pos s₁) 0 s₂ = s₂ ++ (blit buf pos s₁).drop excess := by
      rw [blit, List.take_zero, List.nil_append, Nat.zero_add, hl₂]
    have hD : (blit (blit buf pos s₁) 0 s₂).drop pos = s₁ := by
      rw [hblit, List.drop_append, List.drop_of_length_le (by omega), List.nil_append, hl₂,
        List.drop_drop, show excess + (pos - excess) = pos by omega, htail]
    have hT : (blit (blit buf pos s₁) 0 s₂).take pos = s₂ ++ (buf.take pos).drop excess := by
      rw [hblit, List.take_append, List.take_of_length_le (by omega), hl₂, ← List.drop_take,
        take_blit hpos]
    have hskip : (buf.drop pos ++ buf.take pos).drop src.length = (buf.take pos).drop excess := by
      rw [List.drop_append, List.drop_of_length_le (by omega), List.nil_append, hdrop,
        show src.length - (buf.length - pos) = excess by omega]
    rw [hD, hT, hskip, ← List.append_assoc, hs₁, hs₂, List.take_append_drop]
  · rename_i hfit
    rw [drop_blit hpos, take_blit hpos, List.append_assoc, List.drop_append_of_le_length (by omega),
      List.drop_drop]

/-- **A write appends.**  When the first `m` entries seen from `rpos` are in use
and the write position is the one after them, writing `src` into the free part
leaves them alone and puts `src` behind them. -/
theorem take_rotate_copyIn {buf : List α} {rpos wpos m : ℕ} {src : List α}
    (hw : wpos ≤ buf.length) (hmod : wpos % buf.length = (rpos + m) % buf.length)
    (hfit : m + src.length ≤ buf.length) :
    ((copyIn buf wpos src).rotate rpos).take (m + src.length) =
      (buf.rotate rpos).take m ++ src := by
  have hlen : (copyIn buf wpos src).length = buf.length := length_copyIn hw (by omega)
  set X := buf.rotate rpos with hX
  set X' := (copyIn buf wpos src).rotate rpos with hX'
  have hXlen : X.length = buf.length := by rw [hX, List.length_rotate]
  have hXlen' : X'.length = buf.length := by rw [hX', List.length_rotate, hlen]
  have hrot : X'.rotate m = src ++ (X.rotate m).drop src.length := by
    rw [hX, hX', List.rotate_rotate, List.rotate_rotate,
      ← rotate_congr hmod, ← rotate_congr (hlen.symm ▸ hmod), rotate_copyIn hw (by omega)]
  rw [List.rotate_eq_drop_append_take (by omega), List.rotate_eq_drop_append_take (by omega),
    List.drop_append_of_le_length (by rw [List.length_drop]; omega), ← List.append_assoc] at hrot
  have hsplit := List.append_inj hrot (by simp only [List.length_append, List.length_drop]; omega)
  have htake : X'.take (m + src.length) = X'.take m ++ (X'.drop m).take src.length :=
    List.take_add ..
  rw [htake, hsplit.1, hsplit.2, List.take_left]

/-! ## Advancing the read position -/

/-- **Reading drops.**  After the read position has moved over `n` of the `m`
entries in use, what is left in use is the rest of them. -/
theorem take_rotate_advance {buf : List α} {pos m n : ℕ} (hm : m ≤ buf.length) (hn : n ≤ m) :
    (buf.rotate (advance buf.length pos n)).take (m - n) = ((buf.rotate pos).take m).drop n := by
  have hlen : (buf.rotate pos).length = buf.length := List.length_rotate ..
  rw [rotate_congr advance_mod, ← List.rotate_rotate,
    List.rotate_eq_drop_append_take (by omega),
    List.take_append_of_le_length (by rw [List.length_drop]; omega), List.drop_take]

end Circular
end AmlSubtitle
