import AmlSubtitle.Lib.Words
import AmlSubtitle.Parser.PesDemux

/-!
# `parser/ExtParser/VobSubIndex.cpp`: reading a packet of the `.sub` file

`mpeg_run` looks for the next start code of the program stream and takes the packet behind it.
The file is its bytes, and its descriptor stands where `pos` says.

* A position is an `unsigned long`, but `idx` and `dataidx` are of 32 bits, and the bytes that
  remain are counted in an `int`.
* An allocation succeeds.  Of a buffer that is not read to the end nothing is known.
* `Packet`: a private-stream packet of MPEG-2, with its payload behind the substream id.
* `mpeg_run_meets_iff`: when no start position and no packet there leads to `abort` or to another
  payload, id or time stamp than those of the packet.
-/

namespace AmlSubtitle
namespace VobSub

open Words

/-! ## The stream -/

/-- `rar_eof`. -/
def rar_eof (file : List UInt8) (pos : ℕ) : Bool := file.length ≤ pos

/-- `rar_read` of one piece of `n` bytes: the bytes and the position behind them, or nothing. -/
def rar_read (file : List UInt8) (n pos : ℕ) : Option (List UInt8 × ℕ) :=
  let remain := asSigned 32 (file.length - pos)
  if rar_eof file pos then none
  else if 0 ≤ remain ∧ remain < n then none
  else some ((file.drop pos).take n, pos + n)

/-- `mpeg_t`, with the position of its stream. -/
structure Mpeg where
  pos : ℕ
  pts : ℕ
  aid : ℤ
  packet : List UInt8
  packet_size : ℕ
  deriving DecidableEq, Repr

/-- What comes of `mpeg_run`: it aborts, returns -1 or returns 0. -/
inductive Result where
  | aborted
  | error (m : Mpeg)
  | done (m : Mpeg)
  deriving DecidableEq, Repr

/-- Go on with the bytes that `rar_read` reads, or return -1. -/
def reading (file : List UInt8) (n : ℕ) (m : Mpeg) (next : List UInt8 → Mpeg → Result) : Result :=
  match rar_read file n m.pos with
  | none => .error m
  | some (buf, pos) => next buf { m with pos := pos }

/-- Go on with the byte that `rar_getc` reads, or return -1. -/
def getting (file : List UInt8) (m : Mpeg) (next : UInt8 → Mpeg → Result) : Result :=
  match file[m.pos]? with
  | none => .error m
  | some c => next c { m with pos := m.pos + 1 }

/-- `rar_seek` from the position on. -/
def skipping (n : ℕ) (m : Mpeg) : Mpeg := { m with pos := m.pos + n }

/-! ## `mpeg_run` -/

/-- `INT_MAX`. -/
def INT_MAX : ℕ := 2 ^ 31 - 1

def wanted : List UInt8 := [0, 0, 1]

/-- The loop that shifts the bytes of the file through `buf` up to a start code: the last byte of
it, and the position. -/
def sync : List UInt8 → List UInt8 → ℕ → Option UInt8 × ℕ
  | buf, [], pos => (if buf.take 3 = wanted then some (buf.getD 3 0) else none, pos)
  | buf, c :: rest, pos =>
    if buf.take 3 = wanted then (some (buf.getD 3 0), pos)
    else sync (buf.drop 1 ++ [c]) rest (pos + 1)

/-- The length of a packet. -/
def lenOf (buf : List UInt8) : ℕ := (buf.getD 0 0).toNat <<< 8 ||| (buf.getD 1 0).toNat

/-- The time stamp, as an `unsigned int`. -/
def ptsOf (buf : List UInt8) : ℕ :=
  (((buf.getD 0 0).toNat &&& 0x0e) <<< 29 ||| (buf.getD 1 0).toNat <<< 22 |||
    ((buf.getD 2 0).toNat &&& 0xfe) <<< 14 ||| (buf.getD 3 0).toNat <<< 7 |||
    (buf.getD 4 0).toNat >>> 1) % 2 ^ 32

/-- The bits around a time stamp are those of one without a decoding time. -/
def marksOk (buf : List UInt8) : Bool :=
  (buf.getD 0 0 &&& 0xf0 = 0x20) && (buf.getD 0 0 &&& 1 ≠ 0) && (buf.getD 2 0 &&& 1 ≠ 0) &&
    (buf.getD 4 0 &&& 1 ≠ 0)

/-- The time stamp, if the flags announce it alone. -/
def readPts (file : List UInt8) (pts_flags : UInt8) (m : Mpeg) (next : Mpeg → Result) : Result :=
  if pts_flags &&& 0xc0 = 0x80 then
    reading file 5 m fun buf m => next { m with pts := if marksOk buf then ptsOf buf else 0 }
  else
    next m

/-- The substream id and the payload. -/
def readPayload (file : List UInt8) (read_flag : Bool) (len idx : ℕ) (m : Mpeg) : Result :=
  match file[m.pos]? with
  | none => .error { m with aid := -1 }
  | some c =>
    let m := { m with
      pos := m.pos + 1
      aid := c.toNat
      packet_size := asUnsigned 32 (len - ((m.pos + 1) % 2 ^ 32 - idx)) }
    if read_flag then
      if 0 < m.packet_size ∧ m.packet_size < INT_MAX then
        match rar_read file m.packet_size m.pos with
        | none => .error { m with packet := [], packet_size := 0 }
        | some (packet, pos) => .done { m with packet := packet, pos := pos }
      else
        .done { m with packet := [] }
    else
      .done (skipping m.packet_size m)

/-- The header of a private-stream packet, from its first byte of flags on. -/
def readHeader (file : List UInt8) (read_flag : Bool) (len idx : ℕ) (c : UInt8) (m : Mpeg) :
    Result :=
  if c &&& 0xf0 = 0x20 then .aborted
  else if c &&& 0xf0 = 0x30 then .aborted
  else if c &&& 0xc0 = 0x80 then
    getting file m fun pts_flags m =>
      getting file m fun hdrlen m =>
        let dataidx := (m.pos + hdrlen.toNat) % 2 ^ 32
        if dataidx > (idx + len) % 2 ^ 32 then .error m
        else
          readPts file pts_flags m fun m =>
            readPayload file read_flag len idx { m with pos := dataidx }
  else
    .done m

/-- A packet of the private stream. -/
def privatePacket (file : List UInt8) (read_flag : Bool) (m : Mpeg) : Result :=
  reading file 2 m fun buf m =>
    let len := lenOf buf
    let idx := m.pos % 2 ^ 32
    getting file m fun c m =>
      if c &&& 0xc0 = 0x40 then
        -- skip STD scale & size
        getting file m fun _ m => getting file m fun c m => readHeader file read_flag len idx c m
      else
        readHeader file read_flag len idx c m

/-- A packet of another stream, or padding. -/
def skippedPacket (file : List UInt8) (m : Mpeg) : Result :=
  reading file 2 m fun buf m => .done (skipping (lenOf buf) m)

/-- The version that the first byte behind a pack's start code announces. -/
def packVersion (c : UInt8) : Option ℕ :=
  if c &&& 0xc0 = 0x40 then some 4
  else if c &&& 0xf0 = 0x20 then some 2
  else if c &&& 0xf0 = 0 then some 2
  else none

/-- The header of a pack. -/
def packHeader (file : List UInt8) (m : Mpeg) : Result :=
  getting file m fun c m =>
    match packVersion c with
    | none => .error m
    | some version =>
      if version = 4 then .done (skipping 9 m)
      else if version = 2 then .done (skipping 7 m)
      else .aborted

/-- `mpeg_run`. -/
def mpeg_run (file : List UInt8) (read_flag : Bool) (m : Mpeg) : Result :=
  reading file 4 { m with aid := -1, packet_size := 0 } fun buf m =>
    match sync buf (file.drop m.pos) m.pos with
    | (none, pos) => .error { m with pos := pos }
    | (some c, pos) =>
      let m := { m with pos := pos }
      if c = 0xb9 then .done m
      else if c = 0xba then packHeader file m
      else if c = 0xbd then privatePacket file read_flag m
      else if c = 0xbe then skippedPacket file m
      else if 0xc0 ≤ c ∧ c < 0xf0 then skippedPacket file m
      else .error m

/-! ## Start codes -/

/-- The text begins with the start code `d`. -/
def BeginsWith (d : UInt8) (bytes : List UInt8) : Prop := ∃ rest, bytes = 0 :: 0 :: 1 :: d :: rest

/-- The first start code of a text stands at `k`, and is `d`. -/
structure FirstStart (bytes : List UInt8) (k : ℕ) (d : UInt8) : Prop where
  here : BeginsWith d (bytes.drop k)
  first : ∀ j < k, ∀ d', ¬ BeginsWith d' (bytes.drop j)

theorem BeginsWith.unique {c d : UInt8} {bytes : List UInt8} (h : BeginsWith c bytes)
    (h' : BeginsWith d bytes) : c = d := by
  obtain ⟨rest, rfl⟩ := h
  obtain ⟨rest', heq⟩ := h'
  simp only [List.cons.injEq, true_and] at heq
  exact heq.1

theorem FirstStart.unique {bytes : List UInt8} {k k' : ℕ} {c d : UInt8}
    (h : FirstStart bytes k c) (h' : FirstStart bytes k' d) : k = k' ∧ c = d := by
  have hk : k = k' := by
    rcases lt_trichotomy k k' with hlt | rfl | hlt
    · exact absurd h.here (h'.first k hlt c)
    · rfl
    · exact absurd h'.here (h.first k' hlt d)
  subst hk
  exact ⟨rfl, h.here.unique h'.here⟩

theorem firstStart_succ {a : UInt8} {bytes : List UInt8} {k : ℕ} {d : UInt8}
    (ha : ∀ d', ¬ BeginsWith d' (a :: bytes)) :
    FirstStart (a :: bytes) (k + 1) d ↔ FirstStart bytes k d := by
  constructor
  · rintro ⟨hhere, hfirst⟩
    exact ⟨hhere, fun j hj => hfirst (j + 1) (Nat.succ_lt_succ hj)⟩
  · rintro ⟨hhere, hfirst⟩
    refine ⟨hhere, fun j hj => ?_⟩
    cases j with
    | zero => exact ha
    | succ j => exact hfirst j (Nat.lt_of_succ_lt_succ hj)

/-- **The loop finds the first start code.** -/
theorem sync_eq_some_iff {buf rest : List UInt8} (hbuf : buf.length = 4) {pos q : ℕ} {d : UInt8} :
    sync buf rest pos = (some d, q) ↔ ∃ k, FirstStart (buf ++ rest) k d ∧ q = pos + k := by
  induction rest generalizing buf pos with
  | nil =>
    obtain ⟨a, b, c, e, rfl⟩ := List.length_eq_four.mp hbuf
    rw [sync]
    by_cases hwanted : [a, b, c, e].take 3 = wanted
    · obtain ⟨rfl, rfl, rfl⟩ : a = 0 ∧ b = 0 ∧ c = 1 := by simpa [wanted] using hwanted
      have hzero : FirstStart [0, 0, 1, e] 0 e := ⟨⟨[], rfl⟩, fun j hj => absurd hj (by omega)⟩
      rw [if_pos hwanted]
      constructor
      · intro h
        obtain ⟨rfl, rfl⟩ : e = d ∧ pos = q := by simpa using h
        exact ⟨0, hzero, rfl⟩
      · rintro ⟨k, hk, rfl⟩
        obtain ⟨rfl, rfl⟩ := hzero.unique hk
        rfl
    · rw [if_neg hwanted]
      refine iff_of_false (by simp) ?_
      rintro ⟨k, ⟨⟨rest, hrest⟩, -⟩, -⟩
      cases k with
      | zero =>
        simp only [List.append_nil, List.drop_zero, List.cons.injEq] at hrest
        exact hwanted (by rw [hrest.1, hrest.2.1, hrest.2.2.1]; rfl)
      | succ k =>
        have hlength := congrArg List.length hrest
        simp only [List.append_nil, List.length_drop, List.length_cons, List.length_nil]
          at hlength
        omega
  | cons x rest ih =>
    obtain ⟨a, b, c, e, rfl⟩ := List.length_eq_four.mp hbuf
    rw [sync]
    by_cases hwanted : [a, b, c, e].take 3 = wanted
    · obtain ⟨rfl, rfl, rfl⟩ : a = 0 ∧ b = 0 ∧ c = 1 := by simpa [wanted] using hwanted
      have hzero : FirstStart ([0, 0, 1, e] ++ x :: rest) 0 e :=
        ⟨⟨x :: rest, rfl⟩, fun j hj => absurd hj (by omega)⟩
      rw [if_pos hwanted]
      constructor
      · intro h
        obtain ⟨rfl, rfl⟩ : e = d ∧ pos = q := by simpa using h
        exact ⟨0, hzero, rfl⟩
      · rintro ⟨k, hk, rfl⟩
        obtain ⟨rfl, rfl⟩ := hzero.unique hk
        rfl
    · have hnot : ∀ d', ¬ BeginsWith d' (a :: b :: c :: e :: x :: rest) := by
        rintro d' ⟨rest', heq⟩
        simp only [List.cons.injEq] at heq
        exact hwanted (by rw [heq.1, heq.2.1, heq.2.2.1]; rfl)
      have hdrop : [a, b, c, e].drop 1 ++ [x] ++ rest = b :: c :: e :: x :: rest := rfl
      rw [if_neg hwanted, ih (by simp), hdrop]
      constructor
      · rintro ⟨k, hk, rfl⟩
        exact ⟨k + 1, (firstStart_succ hnot).mpr hk, by omega⟩
      · rintro ⟨k, hk, rfl⟩
        cases k with
        | zero => exact absurd hk.here (hnot d)
        | succ k => exact ⟨k, (firstStart_succ hnot).mp hk, by omega⟩

theorem rar_read_eq_some {file buf : List UInt8} {n pos q : ℕ}
    (h : rar_read file n pos = some (buf, q)) :
    buf = (file.drop pos).take n ∧ q = pos + n := by
  unfold rar_read at h
  dsimp only at h
  split_ifs at h
  simp only [Option.some.injEq, Prod.mk.injEq] at h
  exact ⟨h.1.symm, h.2.symm⟩

theorem rar_read_of_isSome {file : List UInt8} {n pos : ℕ} (h : (rar_read file n pos).isSome) :
    rar_read file n pos = some ((file.drop pos).take n, pos + n) := by
  obtain ⟨⟨buf, q⟩, hread⟩ := Option.isSome_iff_exists.mp h
  obtain ⟨rfl, rfl⟩ := rar_read_eq_some hread
  exact hread

/-- Where a short piece can be read, it is in the file. -/
theorem le_of_rar_read {file : List UInt8} {n pos : ℕ} (h : (rar_read file n pos).isSome)
    (hn : n ≤ 2 ^ 31) : pos + n ≤ file.length := by
  unfold rar_read at h
  dsimp only at h
  split_ifs at h with heof hremain
  · simp at h
  · simp at h
  · have hlt : pos < file.length :=
      Nat.lt_of_not_le (of_decide_eq_false (Bool.eq_false_iff.mpr heof))
    by_contra hgt
    have hremaining : asSigned 32 (file.length - pos) = (file.length - pos : ℤ) :=
      asSigned_eq (by omega) (by omega)
    rw [hremaining] at hremain
    omega

/-! ## Where the call aborts -/

section Aborts

variable {file : List UInt8} {read_flag : Bool} {m : Mpeg}

/-- The byte of flags that decides on the kind of a header. -/
def headerByte (file : List UInt8) (pos : ℕ) : Option UInt8 :=
  file[pos]?.bind fun c => if c &&& 0xc0 = 0x40 then file[pos + 2]? else some c

/-- The next start code is that of a private stream, and the header behind it that of MPEG-1 with
a time stamp. -/
def MeetsMpeg1 (file : List UInt8) (pos : ℕ) : Prop :=
  ∃ k, FirstStart (file.drop pos) k 0xbd ∧ (rar_read file 4 pos).isSome ∧
    (rar_read file 2 (pos + k + 4)).isSome ∧
    ∃ c, headerByte file (pos + k + 6) = some c ∧ (c &&& 0xf0 = 0x20 ∨ c &&& 0xf0 = 0x30)

theorem error_ne_aborted (m : Mpeg) : Result.error m ≠ .aborted := fun h => Result.noConfusion h

theorem done_ne_aborted (m : Mpeg) : Result.done m ≠ .aborted := fun h => Result.noConfusion h

theorem reading_ne_aborted {n : ℕ} {next : List UInt8 → Mpeg → Result}
    (h : ∀ buf m, next buf m ≠ .aborted) : reading file n m next ≠ .aborted := by
  unfold reading
  split
  · exact error_ne_aborted _
  · exact h _ _

theorem getting_ne_aborted {next : UInt8 → Mpeg → Result} (h : ∀ c m, next c m ≠ .aborted) :
    getting file m next ≠ .aborted := by
  unfold getting
  split
  · exact error_ne_aborted _
  · exact h _ _

theorem readPayload_ne_aborted (len idx : ℕ) :
    readPayload file read_flag len idx m ≠ .aborted := by
  unfold readPayload
  split
  · exact error_ne_aborted _
  · dsimp only
    split_ifs
    · split
      · exact error_ne_aborted _
      · exact done_ne_aborted _
    · exact done_ne_aborted _
    · exact done_ne_aborted _

theorem readHeader_eq_aborted_iff (len idx : ℕ) (c : UInt8) :
    readHeader file read_flag len idx c m = .aborted ↔ c &&& 0xf0 = 0x20 ∨ c &&& 0xf0 = 0x30 := by
  unfold readHeader
  split_ifs with h₁ h₂ h₃
  · exact iff_of_true rfl (.inl h₁)
  · exact iff_of_true rfl (.inr h₂)
  · refine iff_of_false (getting_ne_aborted fun _ _ => getting_ne_aborted fun _ _ => ?_)
      (not_or.mpr ⟨h₁, h₂⟩)
    dsimp only
    split_ifs
    · exact error_ne_aborted _
    · unfold readPts
      split_ifs
      · exact reading_ne_aborted fun _ _ => readPayload_ne_aborted len idx
      · exact readPayload_ne_aborted len idx
  · exact iff_of_false id (not_or.mpr ⟨h₁, h₂⟩)

theorem not_headerByte_none {C : UInt8 → Prop} : ¬ ∃ c, (none : Option UInt8) = some c ∧ C c := by
  rintro ⟨c, h, -⟩
  exact absurd h.symm (Option.some_ne_none c)

theorem privatePacket_eq_aborted_iff : privatePacket file read_flag m = .aborted ↔
    (rar_read file 2 m.pos).isSome ∧
      ∃ c, headerByte file (m.pos + 2) = some c ∧ (c &&& 0xf0 = 0x20 ∨ c &&& 0xf0 = 0x30) := by
  unfold privatePacket reading
  cases hread : rar_read file 2 m.pos with
  | none => exact iff_of_false (error_ne_aborted _) fun h => absurd h.1 Bool.false_ne_true
  | some answer =>
    obtain ⟨buf, pos⟩ := answer
    obtain ⟨rfl, rfl⟩ := rar_read_eq_some hread
    simp only [Option.isSome_some, true_and]
    unfold getting headerByte
    dsimp only
    cases hc : file[m.pos + 2]? with
    | none =>
      exact iff_of_false (error_ne_aborted _) not_headerByte_none
    | some c =>
      rw [Option.bind_some]
      dsimp only
      split_ifs with hstd
      · cases hscale : file[m.pos + 2 + 1]? with
        | none =>
          have hend : file[m.pos + 2 + 2]? = none := by
            rw [List.getElem?_eq_none_iff] at hscale ⊢
            omega
          rw [hend]
          exact iff_of_false (error_ne_aborted _) not_headerByte_none
        | some d =>
          dsimp only
          rw [Nat.add_assoc (m.pos + 2) 1 1]
          cases hd : file[m.pos + 2 + (1 + 1)]? with
          | none =>
            exact iff_of_false (error_ne_aborted _) not_headerByte_none
          | some d => simp [readHeader_eq_aborted_iff]
      · simp [readHeader_eq_aborted_iff]

theorem packHeader_ne_aborted : packHeader file m ≠ .aborted := by
  refine getting_ne_aborted fun c m => ?_
  unfold packVersion
  split_ifs
  · exact done_ne_aborted _
  · exact done_ne_aborted _
  · exact done_ne_aborted _
  · exact error_ne_aborted _

theorem skippedPacket_ne_aborted : skippedPacket file m ≠ .aborted :=
  reading_ne_aborted fun _ _ => done_ne_aborted _

/-- The loop over the bytes behind `pos` finds the first start code there. -/
theorem sync_read_iff {pos q : ℕ} {c : UInt8} (hstart : (rar_read file 4 pos).isSome) :
    sync ((file.drop pos).take 4) (file.drop (pos + 4)) (pos + 4) = (some c, q) ↔
      ∃ k, FirstStart (file.drop pos) k c ∧ q = pos + 4 + k := by
  have hle := le_of_rar_read hstart (by decide)
  have hlength : ((file.drop pos).take 4).length = 4 := by
    rw [List.length_take, List.length_drop]
    omega
  rw [sync_eq_some_iff hlength, ← List.drop_drop, List.take_append_drop]

/-- At the first start code the call goes on with what stands behind it. -/
theorem mpeg_run_start {k : ℕ} {c : UInt8} (hstart : (rar_read file 4 m.pos).isSome)
    (hk : FirstStart (file.drop m.pos) k c) :
    mpeg_run file read_flag m =
      (fun m : Mpeg =>
        if c = 0xb9 then .done m
        else if c = 0xba then packHeader file m
        else if c = 0xbd then privatePacket file read_flag m
        else if c = 0xbe then skippedPacket file m
        else if 0xc0 ≤ c ∧ c < 0xf0 then skippedPacket file m
        else .error m) { m with aid := -1, packet_size := 0, pos := m.pos + k + 4 } := by
  have hsync : sync ((file.drop m.pos).take 4) (file.drop (m.pos + 4)) (m.pos + 4) =
      (some c, m.pos + k + 4) := (sync_read_iff hstart).mpr ⟨k, hk, by omega⟩
  unfold mpeg_run reading
  rw [rar_read_of_isSome hstart]
  dsimp only
  rw [hsync]

theorem mpeg_run_eq_aborted_iff :
    mpeg_run file read_flag m = .aborted ↔ MeetsMpeg1 file m.pos := by
  constructor
  · intro h
    have hstart : (rar_read file 4 m.pos).isSome := by
      rw [← Option.ne_none_iff_isSome]
      intro hnone
      unfold mpeg_run reading at h
      rw [hnone] at h
      exact error_ne_aborted _ h
    obtain ⟨c, k, hk⟩ : ∃ c k, FirstStart (file.drop m.pos) k c := by
      rcases hsync : sync ((file.drop m.pos).take 4) (file.drop (m.pos + 4)) (m.pos + 4) with
        ⟨_ | c, pos⟩
      · unfold mpeg_run reading at h
        rw [rar_read_of_isSome hstart] at h
        dsimp only at h
        rw [hsync] at h
        exact absurd h (error_ne_aborted _)
      · obtain ⟨k, hk, -⟩ := (sync_read_iff hstart).mp hsync
        exact ⟨c, k, hk⟩
    rw [mpeg_run_start hstart hk] at h
    dsimp only at h
    split_ifs at h with hend hpack hprivate hpadding hother
    · exact absurd h packHeader_ne_aborted
    · obtain ⟨hread, c', hc', habort⟩ := privatePacket_eq_aborted_iff.mp h
      exact ⟨k, hprivate ▸ hk, hstart, hread, c', hc', habort⟩
    · exact absurd h skippedPacket_ne_aborted
    · exact absurd h skippedPacket_ne_aborted
  · rintro ⟨k, hk, hstart, hlength, c, hc, habort⟩
    rw [mpeg_run_start hstart hk]
    exact privatePacket_eq_aborted_iff.mpr ⟨hlength, c, hc, habort⟩

end Aborts

/-! ## Packets -/

/-- A time stamp of a PES header, with the bits around it. -/
structure IsStamp (mark : UInt8) (bytes : List UInt8) : Prop where
  five_le : 5 ≤ bytes.length
  mark : bytes.getD 0 0 &&& 0xf0 = mark
  first : bytes.getD 0 0 &&& 1 = 1
  third : bytes.getD 2 0 &&& 1 = 1
  fifth : bytes.getD 4 0 &&& 1 = 1

/-- A packet of the private stream in MPEG-2: the flags, the rest of the header with the time
stamps that the flags announce, the substream id and the payload. -/
structure Packet where
  flags : UInt8
  ptsFlags : UInt8
  header : List UInt8
  aid : UInt8
  payload : List UInt8
  isMpeg2 : flags &&& 0xc0 = 0x80
  stamped : ptsFlags &&& 0xc0 = 0 ∨ (ptsFlags &&& 0xc0 = 0x80 ∧ IsStamp 0x20 header) ∨
    (ptsFlags &&& 0xc0 = 0xc0 ∧ IsStamp 0x30 header ∧ IsStamp 0x10 (header.drop 5))
  header_lt : header.length < 2 ^ 8
  length_lt : 4 + header.length + payload.length < 2 ^ 16

namespace Packet

/-- `PES_packet_length`. -/
def len (p : Packet) : ℕ := 4 + p.header.length + p.payload.length

/-- What stands behind the start code and the length. -/
def body (p : Packet) : List UInt8 :=
  p.flags :: p.ptsFlags :: UInt8.ofNat p.header.length :: (p.header ++ p.aid :: p.payload)

def bytes (p : Packet) : List UInt8 := 0 :: 0 :: 1 :: 0xbd :: (beBytes 2 p.len ++ p.body)

/-- The time stamp, if the flags announce one. -/
def pts (p : Packet) : Option ℕ :=
  if p.ptsFlags &&& 0xc0 = 0 then none else some (PesDemux.encodedPts (Dvb.sourceOf p.header))

/-- A time stamp that stands alone is one of five bytes. -/
theorem isStamp_of_alone (p : Packet) (h : p.ptsFlags &&& 0xc0 = 0x80) : IsStamp 0x20 p.header := by
  rcases p.stamped with hnone | ⟨-, hstamp⟩ | ⟨hboth, -⟩
  · exact absurd (hnone.symm.trans h) (by decide)
  · exact hstamp
  · exact absurd (hboth.symm.trans h) (by decide)

end Packet

/-- The next start code behind `pos` stands `k` bytes on, and is that of the packet. -/
def Met (file : List UInt8) (pos k : ℕ) (p : Packet) : Prop :=
  FirstStart (file.drop pos) k 0xbd ∧ p.bytes <+: file.drop (pos + k)

/-- The call returns 0, and the buffer, the id and the time stamp are those of the packet. -/
def ReadAs (result : Result) (p : Packet) : Prop :=
  ∃ m, result = .done m ∧ m.packet = p.payload ∧ m.packet_size = p.payload.length ∧
    m.aid = p.aid.toNat ∧ ∀ pts ∈ p.pts, m.pts = pts

/-- The call does not abort, and reads the packet that it meets. -/
def Correct (file : List UInt8) (read_flag : Bool) (m : Mpeg) : Prop :=
  mpeg_run file read_flag m ≠ .aborted ∧
    (read_flag = true → ∀ k p, Met file m.pos k p → ReadAs (mpeg_run file read_flag m) p)

/-! ## Which packets are read right -/

/-- `idx`, for a packet at `place`. -/
def idxOf (place : ℕ) : ℕ := (place + 6) % 2 ^ 32

/-- `dataidx`, for a packet at `place`. -/
def dataidxOf (place : ℕ) (p : Packet) : ℕ := (place + 9 + p.header.length) % 2 ^ 32

/-- The time stamp is read: it is the only one and has no more than 32 bits, or it is that of the
packet before. -/
def StampRead (old : ℕ) (p : Packet) : Prop :=
  ∀ pts ∈ p.pts, if p.ptsFlags &&& 0xc0 = 0x80 then pts < 2 ^ 32 else old = pts

/-- The packet at `place` is read right: `rar_read` reads each piece of it, the positions do not
overflow, or overflow to a place where the same bytes stand, and the time stamp is read. -/
structure ReadRight (file : List UInt8) (m : Mpeg) (place : ℕ) (p : Packet) : Prop where
  start : (rar_read file 4 m.pos).isSome
  length : (rar_read file 2 (place + 4)).isSome
  inside : dataidxOf place p ≤ (idxOf place + p.len) % 2 ^ 32
  stamp : p.ptsFlags &&& 0xc0 = 0x80 → (rar_read file 5 (place + 9)).isSome
  same : p.aid :: p.payload <+: file.drop (dataidxOf place p)
  whole : p.payload ≠ [] →
    (rar_read file p.payload.length (dataidxOf place p + 1)).isSome
  pts : StampRead m.pts p

section Packets

variable {file : List UInt8} {m : Mpeg} {place : ℕ} {p : Packet}

theorem lenOf_beBytes {n : ℕ} (h : n < 2 ^ 16) : lenOf (beBytes 2 n) = n := by
  have hbytes : beBytes 2 n = [UInt8.ofNat (n / 256), UInt8.ofNat n] := rfl
  rw [hbytes, lenOf]
  show (UInt8.ofNat (n / 256)).toNat <<< 8 ||| (UInt8.ofNat n).toNat = n
  rw [shift_or, UInt8.toNat_ofNat', UInt8.toNat_ofNat']
  omega

/-- The header of MPEG-2 is neither of those that abort. -/
theorem mpeg2_flags {c : UInt8} (h : c &&& 0xc0 = 0x80) :
    c &&& 0xc0 ≠ 0x40 ∧ c &&& 0xf0 ≠ 0x20 ∧ c &&& 0xf0 ≠ 0x30 := by
  have hnarrow : c &&& 0xc0 = (c &&& 0xf0) &&& 0xc0 := by
    rw [UInt8.and_assoc]
    rfl
  refine ⟨?_, fun hlow => ?_, fun hlow => ?_⟩
  · rw [h]
    decide
  · rw [hnarrow, hlow] at h
    exact absurd h (by decide)
  · rw [hnarrow, hlow] at h
    exact absurd h (by decide)

/-- The bits of the time stamp, in the places where the header has them. -/
theorem ptsOf_eq (header : List UInt8) :
    ptsOf (header.take 5) = PesDemux.encodedPts (Dvb.sourceOf header) % 2 ^ 32 := by
  have hget : ∀ k < 5, (header.take 5).getD k 0 = Dvb.sourceOf header k := by
    intro k hk
    rw [Dvb.sourceOf, List.getD_eq_getElem?_getD, List.getD_eq_getElem?_getD,
      List.getElem?_take_of_lt hk]
  have hlast : ∀ b < 256, (b &&& 0xfe) >>> 1 = b >>> 1 := by decide +kernel
  have h1 : (Dvb.sourceOf header 1).toNat < 256 := UInt8.toNat_lt _
  have h3 : (Dvb.sourceOf header 3).toNat < 256 := UInt8.toNat_lt _
  have h4 : (Dvb.sourceOf header 4).toNat < 256 := UInt8.toNat_lt _
  rw [← PesDemux.pesPts_eq, Dvb.pesPts, PesDemux.and_ff _ h1, PesDemux.and_ff _ h3, hlast _ h4,
    ptsOf, hget 0 (by decide), hget 1 (by decide), hget 2 (by decide), hget 3 (by decide),
    hget 4 (by decide)]

theorem IsStamp.marksOk {header : List UInt8} (h : IsStamp 0x20 header) :
    marksOk (header.take 5) = true := by
  have hget : ∀ k < 5, (header.take 5).getD k 0 = header.getD k 0 := by
    intro k hk
    rw [List.getD_eq_getElem?_getD, List.getD_eq_getElem?_getD, List.getElem?_take_of_lt hk]
  rw [VobSub.marksOk, hget 0 (by decide), hget 2 (by decide), hget 4 (by decide), h.mark, h.first,
    h.third, h.fifth]
  decide

/-! ## Reading a packet, step by step -/

theorem not_readAs_error : ¬ ReadAs (.error m) p := by
  rintro ⟨_, h, -⟩
  exact Result.noConfusion h

theorem readAs_reading {n : ℕ} {next : List UInt8 → Mpeg → Result} :
    ReadAs (reading file n m next) p ↔ (rar_read file n m.pos).isSome ∧
      ReadAs (next ((file.drop m.pos).take n) { m with pos := m.pos + n }) p := by
  unfold reading
  cases hread : rar_read file n m.pos with
  | none => exact iff_of_false not_readAs_error fun h => absurd h.1 Bool.false_ne_true
  | some answer =>
    obtain ⟨buf, q⟩ := answer
    obtain ⟨rfl, rfl⟩ := rar_read_eq_some hread
    exact (and_iff_right rfl).symm

theorem getting_eq {c : UInt8} {next : UInt8 → Mpeg → Result} (h : file[m.pos]? = some c) :
    getting file m next = next c { m with pos := m.pos + 1 } := by
  rw [getting, h]

/-- The bytes of a packet, in the file. -/
theorem body_of_prefix (h : p.bytes <+: file.drop place) :
    (file.drop (place + 4)).take 2 = beBytes 2 p.len ∧
      ∃ rest, file.drop (place + 6) = p.body ++ rest := by
  obtain ⟨rest, hrest⟩ := h
  have hfour : file.drop (place + 4) = beBytes 2 p.len ++ (p.body ++ rest) := by
    rw [← List.drop_drop, ← hrest, Packet.bytes]
    simp
  have hlength : (beBytes 2 p.len).length = 2 := length_beBytes 2 _
  refine ⟨?_, rest, ?_⟩
  · rw [hfour, List.take_left' hlength]
  · rw [← List.drop_drop (i := 2) (j := place + 4), hfour, List.drop_left' hlength]

theorem aid_inj {c d : UInt8} (h : (c.toNat : ℤ) = d.toNat) : c = d :=
  UInt8.toNat_inj.mp (Nat.cast_inj.mp h)

theorem readAs_readPayload {idx : ℕ} (hpos : m.pos = dataidxOf place p) (hidx : idx = idxOf place) :
    ReadAs (readPayload file true p.len idx m) p ↔
      p.aid :: p.payload <+: file.drop (dataidxOf place p) ∧
        (p.payload ≠ [] → (rar_read file p.payload.length (dataidxOf place p + 1)).isSome) ∧
        ∀ pts ∈ p.pts, m.pts = pts := by
  have hsize : asUnsigned 32 (p.len - ((m.pos + 1) % 2 ^ 32 - idx)) = p.payload.length := by
    have hlen := p.length_lt
    rw [asUnsigned, hpos, hidx, dataidxOf, idxOf, Packet.len]
    omega
  have hmax : p.payload.length < INT_MAX := by
    have hlen := p.length_lt
    rw [INT_MAX]
    omega
  unfold readPayload
  rw [← hpos]
  cases haid : file[m.pos]? with
  | none =>
    refine iff_of_false not_readAs_error fun h => ?_
    obtain ⟨rest, hrest⟩ := h.1
    have hend := List.getElem?_eq_none_iff.mp haid
    rw [List.drop_eq_nil_of_le hend] at hrest
    exact absurd hrest (by simp)
  | some c =>
    have hdrop : file.drop m.pos = c :: file.drop (m.pos + 1) := by
      obtain ⟨hlt, hc⟩ := List.getElem?_eq_some_iff.mp haid
      rw [List.drop_eq_getElem_cons hlt, hc]
    rw [hdrop, List.cons_prefix_cons]
    simp only [hsize, if_true]
    by_cases hempty : p.payload = []
    · rw [if_neg (by simp [hempty])]
      constructor
      · rintro ⟨m', hm', -, -, hc, hpts⟩
        obtain rfl := Result.done.inj hm'
        refine ⟨⟨?_, ?_⟩, fun hne => absurd hempty hne, hpts⟩
        · exact (aid_inj hc).symm
        · rw [hempty]
          exact List.nil_prefix
      · rintro ⟨⟨rfl, -⟩, -, hpts⟩
        exact ⟨_, rfl, hempty.symm, rfl, rfl, hpts⟩
    · have hpos' : 0 < p.payload.length := List.length_pos_iff.mpr hempty
      rw [if_pos ⟨hpos', hmax⟩]
      cases hread : rar_read file p.payload.length (m.pos + 1) with
      | none =>
        exact iff_of_false not_readAs_error fun h => absurd (h.2.1 hempty) Bool.false_ne_true
      | some answer =>
        obtain ⟨hbuf, -⟩ := rar_read_eq_some (show _ = some (answer.1, answer.2) from hread)
        constructor
        · rintro ⟨m', hm', hpacket, -, hc, hpts⟩
          obtain rfl := Result.done.inj hm'
          refine ⟨⟨?_, ?_⟩, fun _ => rfl, hpts⟩
          · exact (aid_inj hc).symm
          · rw [← hpacket, hbuf]
            exact List.take_prefix _ _
        · rintro ⟨⟨rfl, hprefix⟩, -, hpts⟩
          exact ⟨_, rfl, hbuf.trans (List.prefix_iff_eq_take.mp hprefix).symm, rfl, rfl, hpts⟩

/-- What the flags and the rest of the header lead to. -/
theorem readAs_readHeader {rest : List UInt8} (hpos : m.pos = place + 7)
    (hbody : file.drop (place + 6) = p.body ++ rest) :
    ReadAs (readHeader file true p.len (idxOf place) p.flags m) p ↔
      dataidxOf place p ≤ (idxOf place + p.len) % 2 ^ 32 ∧
        (p.ptsFlags &&& 0xc0 = 0x80 → (rar_read file 5 (place + 9)).isSome) ∧
        p.aid :: p.payload <+: file.drop (dataidxOf place p) ∧
        (p.payload ≠ [] → (rar_read file p.payload.length (dataidxOf place p + 1)).isSome) ∧
        StampRead m.pts p := by
  obtain ⟨-, hmpeg1, hmpeg1'⟩ := mpeg2_flags p.isMpeg2
  have hptsFlags : file[m.pos]? = some p.ptsFlags := by
    rw [hpos, show place + 7 = place + 6 + 1 from rfl, ← List.getElem?_drop, hbody]
    rfl
  have hhdrlen : file[m.pos + 1]? = some (UInt8.ofNat p.header.length) := by
    rw [hpos, show place + 7 + 1 = place + 6 + 2 from rfl, ← List.getElem?_drop, hbody]
    rfl
  have hheader : file.drop (place + 9) = p.header ++ (p.aid :: p.payload ++ rest) := by
    rw [← List.drop_drop (i := 3) (j := place + 6), hbody]
    simp [Packet.body]
  have hdataidx : (m.pos + 1 + 1 + (UInt8.ofNat p.header.length).toNat) % 2 ^ 32 =
      dataidxOf place p := by
    rw [UInt8.toNat_ofNat', Nat.mod_eq_of_lt p.header_lt, hpos, dataidxOf]
  rw [readHeader, if_neg hmpeg1, if_neg hmpeg1', if_pos p.isMpeg2, getting_eq hptsFlags,
    getting_eq hhdrlen]
  dsimp only
  rw [hdataidx]
  by_cases hinside : dataidxOf place p ≤ (idxOf place + p.len) % 2 ^ 32
  swap
  · rw [if_pos (Nat.lt_of_not_le hinside)]
    exact iff_of_false not_readAs_error fun h => hinside h.1
  rw [if_neg (Nat.not_lt_of_le hinside), and_iff_right hinside, readPts]
  by_cases halone : p.ptsFlags &&& 0xc0 = 0x80
  · have hstamp := p.isStamp_of_alone halone
    have htake : (file.drop (place + 9)).take 5 = p.header.take 5 := by
      rw [hheader, List.take_append_of_le_length hstamp.five_le]
    have hpts : p.pts = some (PesDemux.encodedPts (Dvb.sourceOf p.header)) := by
      rw [Packet.pts, if_neg (fun h => absurd (h.symm.trans halone) (by decide))]
    rw [if_pos halone, readAs_reading, readAs_readPayload rfl rfl]
    dsimp only
    rw [hpos, htake, if_pos hstamp.marksOk, ptsOf_eq]
    refine and_congr (by simp [halone]) (and_congr_right fun _ => and_congr_right fun _ => ?_)
    simp only [StampRead, hpts, Option.mem_some_iff, forall_eq', if_pos halone]
    exact Nat.mod_eq_iff_lt (by decide)
  · rw [if_neg halone, readAs_readPayload rfl rfl]
    simp only [StampRead, if_neg halone]
    tauto

/-- **A packet that is met is read as it is exactly when it is read right.** -/
theorem readAs_iff {k : ℕ} (hmet : Met file m.pos k p) :
    ReadAs (mpeg_run file true m) p ↔ ReadRight file m (m.pos + k) p := by
  obtain ⟨hbytes, rest, hbody⟩ := body_of_prefix hmet.2
  have hlen : p.len < 2 ^ 16 := p.length_lt
  have hflags : file[m.pos + k + 6]? = some p.flags := by
    rw [show m.pos + k + 6 = m.pos + k + 6 + 0 from rfl, ← List.getElem?_drop, hbody]
    rfl
  by_cases hstart : (rar_read file 4 m.pos).isSome
  swap
  · refine iff_of_false (fun h => ?_) fun h => hstart h.start
    unfold mpeg_run at h
    exact hstart (readAs_reading.mp h).1
  rw [mpeg_run_start hstart hmet.1]
  have hend : ¬ (0xbd : UInt8) = 0xb9 := by decide
  have hpack : ¬ (0xbd : UInt8) = 0xba := by decide
  simp only [hend, hpack, if_false, if_true]
  rw [privatePacket, readAs_reading]
  dsimp only
  rw [getting_eq hflags, if_neg (mpeg2_flags p.isMpeg2).1, hbytes, lenOf_beBytes hlen]
  have hread := readAs_readHeader
    (m := { m with aid := -1, packet_size := 0, pos := m.pos + k + 7 }) rfl hbody
  refine (and_congr_right fun _ => hread).trans ?_
  constructor
  · rintro ⟨hlength, hinside, hstamp, hsame, hwhole, hpts⟩
    exact ⟨hstart, hlength, hinside, hstamp, hsame, hwhole, hpts⟩
  · rintro ⟨-, hlength, hinside, hstamp, hsame, hwhole, hpts⟩
    exact ⟨hlength, hinside, hstamp, hsame, hwhole, hpts⟩

/-- In a file of less than 2 GiB each piece that stands there is read. -/
theorem isSome_rar_read {n pos : ℕ} (hfile : file.length < 2 ^ 31) (hn : 0 < n)
    (h : pos + n ≤ file.length) : (rar_read file n pos).isSome := by
  have hremain : asSigned 32 (file.length - pos) = (file.length - pos : ℤ) :=
    asSigned_eq (by omega) (by omega)
  have heof : rar_eof file pos = false := decide_eq_false (by omega)
  unfold rar_read
  rw [hremain, heof]
  dsimp only
  rw [if_neg Bool.false_ne_true, if_neg (by omega)]
  rfl

/-- **In a file of less than 2 GiB only the time stamp can be read wrong.** -/
theorem readRight_iff {k : ℕ} (hfile : file.length < 2 ^ 31) (hmet : Met file m.pos k p) :
    ReadRight file m (m.pos + k) p ↔ StampRead m.pts p := by
  refine ⟨ReadRight.pts, fun hpts => ?_⟩
  obtain ⟨-, rest, hbody⟩ := body_of_prefix hmet.2
  have hlength := congrArg List.length hbody
  simp only [List.length_drop, Packet.body, List.length_append, List.length_cons] at hlength
  have hend : m.pos + k + 10 + p.header.length + p.payload.length ≤ file.length := by omega
  have hidx : idxOf (m.pos + k) = m.pos + k + 6 := Nat.mod_eq_of_lt (by omega)
  have hdataidx : dataidxOf (m.pos + k) p = m.pos + k + 9 + p.header.length :=
    Nat.mod_eq_of_lt (by omega)
  have hlen : p.len = 4 + p.header.length + p.payload.length := rfl
  refine ⟨isSome_rar_read hfile (by decide) (by omega),
    isSome_rar_read hfile (by decide) (by omega), ?_, fun halone => ?_, ?_, fun hne => ?_, hpts⟩
  · rw [hidx, hdataidx, Nat.mod_eq_of_lt (by omega)]
    omega
  · have hfive := (p.isStamp_of_alone halone).five_le
    exact isSome_rar_read hfile (by decide) (by omega)
  · refine ⟨rest, ?_⟩
    rw [hdataidx, show m.pos + k + 9 + p.header.length = m.pos + k + 6 + (3 + p.header.length) by
      omega, ← List.drop_drop, hbody]
    simp [Packet.body, Nat.add_comm 3]
  · rw [hdataidx]
    exact isSome_rar_read hfile (List.length_pos_iff.mpr hne) (by omega)

end Packets

/-- **The call reads what it meets exactly when no header of MPEG-1 with a time stamp comes next,
and the packet that comes next, if it is to be read, is read right.** -/
theorem mpeg_run_meets_iff (file : List UInt8) (read_flag : Bool) (m : Mpeg) :
    Correct file read_flag m ↔ ¬ MeetsMpeg1 file m.pos ∧
      (read_flag = true → ∀ k p, Met file m.pos k p → ReadRight file m (m.pos + k) p) := by
  rw [Correct, ne_eq, mpeg_run_eq_aborted_iff]
  refine and_congr_right fun _ => ?_
  constructor
  · rintro h rfl k p hmet
    exact (readAs_iff hmet).mp (h rfl k p hmet)
  · rintro h rfl k p hmet
    exact (readAs_iff hmet).mpr (h rfl k p hmet)

/-- A packet of one byte, whose header is that of MPEG-1 with a time stamp. -/
def mpeg1Packet : List UInt8 := [0, 0, 1, 0xbd, 0, 1, 0x21]

theorem not_correct_mpeg1Packet :
    ¬ ∀ (file : List UInt8) (read_flag : Bool) (m : Mpeg), Correct file read_flag m := by
  intro h
  have haborted : mpeg_run mpeg1Packet true ⟨0, 0, -1, [], 0⟩ = .aborted := by decide
  exact (h mpeg1Packet true ⟨0, 0, -1, [], 0⟩).1 haborted

end VobSub
end AmlSubtitle
