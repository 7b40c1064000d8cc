import AmlSubtitle.Parser.SmpteTtmlParser
import Mathlib.Data.List.TakeWhile

/-!
# The document in a TTML packet

`TtmlDecodeFrame` and `SmpteTtmlDecodeFrame` look for the first `<` of a packet and, from its end,
for the last `>`, and hand what is between them to the XML parser.

* `Extraction`: what is handed over and the places that are looked at.
* `skipTo`, `backTo`, `backBefore`: the loops; the search from the end begins as many bytes behind
  the first `<` as the packet is long.
* `extracts_iff`: what this means for the two decoders.
-/

namespace AmlSubtitle
namespace Ttml

open SmpteTtml

/-! ## The loops -/

/-- The memory from the start of a packet on. -/
def memory (payload : List UInt8) (behind : ℕ → UInt8) (k : ℕ) : UInt8 :=
  payload.getD k (behind (k - payload.length))

/-- What an extraction hands to the XML parser, and the places it looks at. -/
structure Extraction where
  buf : Text
  looked : List ℕ
  deriving DecidableEq, Repr

section Loops

variable (mem : ℕ → UInt8)

/-- `while (srcData[0] != '<' && srcLen > 0)`: where `srcData` is afterwards. -/
def skipTo : ℕ → ℕ → ℕ × List ℕ
  | 0, srcData => (srcData, [srcData])
  | srcLen + 1, srcData =>
    if mem srcData = 60 then (srcData, [srcData])
    else
      let (i, looked) := skipTo srcLen (srcData + 1)
      (i, srcData :: looked)

/-- `while (srcData[bufSize] != '>' && bufSize > 0)`. -/
def backTo (srcData : ℕ) : ℕ → ℕ × List ℕ
  | 0 => (0, [srcData])
  | bufSize + 1 =>
    if mem (srcData + (bufSize + 1)) = 62 then (bufSize + 1, [srcData + (bufSize + 1)])
    else
      let (n, looked) := backTo srcData bufSize
      (n, (srcData + (bufSize + 1)) :: looked)

/-- `while (bufSize > 0 && srcData[bufSize - 1] != '>')`. -/
def backBefore (srcData : ℕ) : ℕ → ℕ × List ℕ
  | 0 => (0, [])
  | bufSize + 1 =>
    if mem (srcData + bufSize) = 62 then (bufSize + 1, [srcData + bufSize])
    else
      let (n, looked) := backBefore srcData bufSize
      (n, (srcData + bufSize) :: looked)

/-- The loop that copies one byte more than the search has found. -/
def copied (srcData bufSize : ℕ) (looked : List ℕ) : Extraction where
  buf := (List.range (bufSize + 1)).map fun i => mem (srcData + i)
  looked := looked ++ (List.range (bufSize + 1)).map fun i => srcData + i

end Loops

/-- The extraction of `TtmlDecodeFrame`. -/
def ttmlExtraction (payload : List UInt8) (behind : ℕ → UInt8) : Extraction :=
  let mem := memory payload behind
  let (srcData, skipped) := skipTo mem payload.length 0
  let (bufSize, searched) := backTo mem srcData payload.length
  copied mem srcData bufSize (skipped ++ searched)

/-- The log that prints the packet as a string, up to its first zero.  Of the places behind the
packet only the first is listed. -/
def dumped (payload : List UInt8) : List ℕ :=
  List.range (payload.takeWhile (· ≠ 0)).length.succ

/-- The extraction of `SmpteTtmlDecodeFrame`. -/
def smpteExtraction (mDumpSub : Bool) (payload : List UInt8) (behind : ℕ → UInt8) : Extraction :=
  let mem := memory payload behind
  let logged := if mDumpSub then dumped payload else []
  let (srcData, skipped) := skipTo mem payload.length 0
  let (bufSize, searched) := backBefore mem srcData payload.length
  copied mem srcData bufSize (logged ++ skipped ++ searched)

/-! ## What an extraction has to do -/

/-- The first place of a byte. -/
def FirstAt (c : UInt8) (payload : List UInt8) (i : ℕ) : Prop :=
  payload[i]? = some c ∧ ∀ k < i, payload[k]? ≠ some c

/-- The last place of a byte. -/
def LastAt (c : UInt8) (payload : List UInt8) (j : ℕ) : Prop :=
  payload[j]? = some c ∧ ∀ k, j < k → payload[k]? ≠ some c

/-- Nothing outside the packet is looked at, and the document goes from the first `<` to the
last `>`. -/
structure Extracts (payload : List UInt8) (r : Extraction) : Prop where
  inside : ∀ k ∈ r.looked, k < payload.length
  exact : ∀ i j, FirstAt 60 payload i → LastAt 62 payload j → i ≤ j →
    r.buf = (payload.drop i).take (j + 1 - i)

/-! ## What the loops do -/

section Loops

variable {mem : ℕ → UInt8}

theorem getElem?_eq_memory {payload : List UInt8} (behind : ℕ → UInt8) {k : ℕ}
    (h : k < payload.length) : payload[k]? = some (memory payload behind k) := by
  rw [memory, List.getD_eq_getElem _ _ h, List.getElem?_eq_getElem h]

/-- The search for `<` looks at every byte up to where it stops. -/
structure Skipped (mem : ℕ → UInt8) (srcLen srcData : ℕ) (found : ℕ × List ℕ) : Prop where
  le : srcData ≤ found.1
  le_add : found.1 ≤ srcData + srcLen
  last_mem : found.1 ∈ found.2
  le_last : ∀ k ∈ found.2, k ≤ found.1
  eq : found.1 < srcData + srcLen → mem found.1 = 60
  ne : ∀ k, srcData ≤ k → k < found.1 → mem k ≠ 60

theorem skipped_skipTo (srcLen srcData : ℕ) :
    Skipped mem srcLen srcData (skipTo mem srcLen srcData) := by
  fun_induction skipTo mem srcLen srcData with
  | case1 srcData =>
    exact ⟨le_rfl, le_rfl, List.mem_singleton_self _,
      fun k hk => (List.eq_of_mem_singleton hk).le, fun h => absurd h (lt_irrefl _),
      fun k hle hlt => absurd hlt (Nat.not_lt.mpr hle)⟩
  | case2 srcLen srcData h =>
    exact ⟨le_rfl, Nat.le_add_right _ _, List.mem_singleton_self _,
      fun k hk => (List.eq_of_mem_singleton hk).le, fun _ => h,
      fun k hle hlt => absurd hlt (Nat.not_lt.mpr hle)⟩
  | case3 srcLen srcData h i looked heq ih =>
    rw [heq] at ih
    obtain ⟨hle, hadd, hmem, hlast, heq', hne⟩ := ih
    dsimp only at hle hadd hmem hlast heq' hne
    refine ⟨by dsimp only; omega, by dsimp only; omega, List.mem_cons_of_mem _ hmem, ?_, ?_, ?_⟩
    · intro k hk
      rcases List.mem_cons.mp hk with rfl | hk
      · dsimp only
        omega
      · exact hlast k hk
    · intro hlt
      dsimp only at hlt
      exact heq' (by omega)
    · intro k hk hlt
      rcases Nat.eq_or_lt_of_le hk with rfl | hk
      · exact h
      · exact hne k hk hlt

/-- The search from the end begins at the length. -/
theorem mem_backTo (srcData bufSize : ℕ) : srcData + bufSize ∈ (backTo mem srcData bufSize).2 := by
  cases bufSize with
  | zero => exact List.mem_singleton_self _
  | succ bufSize =>
    rw [backTo]
    split_ifs
    · exact List.mem_singleton_self _
    · exact List.mem_cons_self

/-- The search from the end stops behind the last `>`. -/
structure Searched (mem : ℕ → UInt8) (srcData bufSize : ℕ) (found : ℕ × List ℕ) : Prop where
  le : found.1 ≤ bufSize
  eq : 0 < found.1 → mem (srcData + (found.1 - 1)) = 62
  ne : ∀ k, found.1 ≤ k → k < bufSize → mem (srcData + k) ≠ 62
  inside : ∀ k ∈ found.2, k < srcData + bufSize
  first_mem : 0 < bufSize → srcData + (bufSize - 1) ∈ found.2

theorem searched_backBefore (srcData bufSize : ℕ) :
    Searched mem srcData bufSize (backBefore mem srcData bufSize) := by
  fun_induction backBefore mem srcData bufSize with
  | case1 =>
    exact ⟨le_rfl, fun h => absurd h (lt_irrefl _), fun k _ hk => absurd hk (Nat.not_lt_zero k),
      fun k hk => absurd hk List.not_mem_nil, fun h => absurd h (lt_irrefl _)⟩
  | case2 bufSize h =>
    refine ⟨le_rfl, fun _ => h, fun k hle hlt => ?_, fun k hk => ?_, fun _ => ?_⟩
    · dsimp only at hle
      omega
    · rw [List.eq_of_mem_singleton hk]
      omega
    · exact List.mem_singleton_self _
  | case3 bufSize h n looked heq ih =>
    rw [heq] at ih
    obtain ⟨hle, heq', hne, hinside, -⟩ := ih
    dsimp only at hle heq' hne hinside
    refine ⟨by dsimp only; omega, heq', fun k hk hlt => ?_, fun k hk => ?_, fun _ => ?_⟩
    · rcases Nat.lt_succ_iff_lt_or_eq.mp hlt with hlt | rfl
      · exact hne k hk hlt
      · exact h
    · rcases List.mem_cons.mp hk with rfl | hk
      · omega
      · have hlt := hinside k hk
        omega
    · exact List.mem_cons_self

theorem length_copied (srcData bufSize : ℕ) (looked : List ℕ) :
    (copied mem srcData bufSize looked).buf.length = bufSize + 1 := by
  rw [copied, List.length_map, List.length_range]

end Loops

/-! ## The two decoders -/

section Decoders

variable (payload : List UInt8) (behind : ℕ → UInt8)

/-- `TtmlDecodeFrame` looks behind every packet. -/
theorem not_extracts_ttml : ¬ Extracts payload (ttmlExtraction payload behind) := by
  intro h
  have hback : (skipTo (memory payload behind) payload.length 0).1 + payload.length ∈
      (ttmlExtraction payload behind).looked :=
    List.mem_append_left _ (List.mem_append_right _ (mem_backTo _ _))
  have hlt := h.inside _ hback
  omega

/-- The places that a search for `<` and one from the end look at. -/
theorem mem_looked_smpte {mDumpSub : Bool} {k : ℕ} :
    k ∈ (smpteExtraction mDumpSub payload behind).looked ↔
      let mem := memory payload behind
      let skipped := skipTo mem payload.length 0
      let searched := backBefore mem skipped.1 payload.length
      (mDumpSub = true ∧ k ∈ dumped payload) ∨ k ∈ skipped.2 ∨ k ∈ searched.2 ∨
        ∃ i ≤ searched.1, skipped.1 + i = k := by
  have hlogged : k ∈ (if mDumpSub then dumped payload else []) ↔
      mDumpSub = true ∧ k ∈ dumped payload := by
    cases mDumpSub <;> simp
  simp only [smpteExtraction, copied, List.mem_append, hlogged, List.mem_map, List.mem_range,
    Nat.lt_succ_iff, or_assoc]

/-- The log stays in a packet that has a zero. -/
theorem forall_dumped_iff : (∀ k ∈ dumped payload, k < payload.length) ↔ 0 ∈ payload := by
  have hfront := List.takeWhile_prefix (p := fun c : UInt8 => decide (c ≠ 0)) (l := payload)
  have hall : (payload.takeWhile (· ≠ 0)).length = payload.length ↔ 0 ∉ payload := by
    constructor
    · intro h hzero
      have hself := List.takeWhile_eq_self_iff.mp (hfront.eq_of_length h)
      exact absurd (hself 0 hzero) (by decide)
    · intro h
      have hself : ∀ c ∈ payload, decide (c ≠ 0) = true := fun c hc =>
        decide_eq_true fun hzero : c = 0 => h (hzero ▸ hc)
      rw [List.takeWhile_eq_self_iff.mpr hself]
  have hle := hfront.length_le
  rw [← not_iff_not, ← hall]
  constructor
  · intro h
    by_contra hne
    refine h fun k hk => ?_
    have hk' := List.mem_range.mp hk
    omega
  · intro h hlt
    have hlast := hlt _ (List.mem_range.mpr (Nat.lt_succ_self _))
    omega

/-- `SmpteTtmlDecodeFrame` stays in a packet that begins with `<`, and it hands over a byte too
many where there is a `>`. -/
theorem extracts_smpte_iff (mDumpSub : Bool) :
    Extracts payload (smpteExtraction mDumpSub payload behind) ↔
      payload.head? = some 60 ∧ 62 ∉ payload ∧ (mDumpSub = true → 0 ∈ payload) := by
  have hskip := @skipped_skipTo (memory payload behind) payload.length 0
  have hback := @searched_backBefore (memory payload behind)
    (skipTo (memory payload behind) payload.length 0).1 payload.length
  have hlook := fun k => @mem_looked_smpte payload behind mDumpSub k
  have hlength : (smpteExtraction mDumpSub payload behind).buf.length =
      (backBefore (memory payload behind) (skipTo (memory payload behind) payload.length 0).1
        payload.length).1 + 1 := length_copied _ _ _
  dsimp only at hlook
  generalize skipTo (memory payload behind) payload.length 0 = skipped at *
  generalize backBefore (memory payload behind) skipped.1 payload.length = searched at *
  have hmemory := fun k => @getElem?_eq_memory payload behind k
  constructor
  · intro h
    have hfound := h.inside _ ((hlook _).mpr (.inr (.inl hskip.last_mem)))
    have hend := h.inside _ ((hlook _).mpr (.inr (.inr (.inl (hback.first_mem (by omega))))))
    -- the search from the end begins inside the packet only if it begins with `<`
    have hzero : skipped.1 = 0 := by omega
    have hfirst := hskip.eq (by omega)
    rw [hzero] at hfirst hfound
    rw [hzero] at hback
    have hhead : payload[0]? = some 60 := by rw [hmemory 0 hfound, hfirst]
    refine ⟨by rw [List.head?_eq_getElem?, hhead], fun hmem => ?_, fun hdump => ?_⟩
    · obtain ⟨k, hk, hget⟩ := List.getElem_of_mem hmem
      have hlast : 0 < searched.1 := by
        by_contra hnone
        have hne := hback.ne k (by omega) hk
        rw [Nat.zero_add] at hne
        refine hne (Option.some.inj ?_)
        rw [← hmemory k hk, List.getElem?_eq_getElem hk, hget]
      have hle := hback.le
      have hexact := h.exact 0 (searched.1 - 1) ⟨hhead, fun k hk => absurd hk (Nat.not_lt_zero k)⟩
        ⟨?_, ?_⟩ (Nat.zero_le _)
      · have hlong := congrArg List.length hexact
        rw [hlength, List.drop_zero, List.length_take] at hlong
        omega
      · have heq := hback.eq hlast
        rw [Nat.zero_add] at heq
        rw [hmemory _ (by omega), heq]
      · intro k hk hsome
        obtain ⟨hlt, -⟩ := List.getElem?_eq_some_iff.mp hsome
        rw [hmemory k hlt, Option.some_inj] at hsome
        exact hback.ne k (by omega) hlt (by rw [Nat.zero_add, hsome])
    · exact (forall_dumped_iff payload).mp fun k hk => h.inside k ((hlook k).mpr (.inl ⟨hdump, hk⟩))
  · rintro ⟨hhead, hnone, hdump⟩
    rw [List.head?_eq_getElem?] at hhead
    obtain ⟨hpos, -⟩ := List.getElem?_eq_some_iff.mp hhead
    rw [hmemory 0 hpos, Option.some_inj] at hhead
    have hzero : skipped.1 = 0 := by
      by_contra hne
      exact hskip.ne 0 le_rfl (Nat.pos_of_ne_zero hne) hhead
    have hplace : ∀ {k : ℕ}, payload[k]? ≠ some 62 :=
      fun hsome => hnone (List.mem_of_getElem? hsome)
    have hlast : searched.1 = 0 := by
      by_contra hne
      have heq := hback.eq (Nat.pos_of_ne_zero hne)
      have hle := hback.le
      rw [hzero, Nat.zero_add] at heq
      exact hplace (by rw [hmemory (searched.1 - 1) (by omega), heq])
    refine ⟨fun k hk => ?_, fun i j hi hj hij => absurd hj.1 hplace⟩
    rcases (hlook k).mp hk with ⟨hlog, hk⟩ | hk | hk | ⟨i, hi, rfl⟩
    · exact (forall_dumped_iff payload).mpr (hdump hlog) k hk
    · have hle := hskip.le_last k hk
      omega
    · have hlt := hback.inside k hk
      omega
    · omega

/-- **The two decoders.** -/
theorem extracts_iff (mDumpSub : Bool) :
    ¬ Extracts payload (ttmlExtraction payload behind) ∧
      (Extracts payload (smpteExtraction mDumpSub payload behind) ↔
        payload.head? = some 60 ∧ 62 ∉ payload ∧ (mDumpSub = true → 0 ∈ payload)) :=
  ⟨not_extracts_ttml payload behind, extracts_smpte_iff payload behind mDumpSub⟩

end Decoders

/-- A document and nothing else, `<a/>`: each decoder looks at a byte behind it. -/
theorem not_extracts_document : ¬ ∀ (payload : List UInt8) (behind : ℕ → UInt8),
    Extracts payload (ttmlExtraction payload behind) ∧
      Extracts payload (smpteExtraction false payload behind) := by
  intro h
  have hinside := (h [60, 97, 47, 62] fun _ => 0).2.inside 4
  exact absurd (hinside (by decide)) (by decide)

end Ttml
end AmlSubtitle
