import AmlSubtitle.Ipc.IpcDataTypes

/-!
# `client/SubtitleReportAPI.cpp`: sending

The client writes a message to the message queue as a header and a payload.  The
queue is not in the repository: a run of the sending loop takes from it, once a
pass, the free space `availableToWrite` reports and whether `writeBlocking`
succeeds.  The queue's contract, used as a hypothesis below, is that a write of
no more than the reported space succeeds.

`fmqSendDataLocked` writes in pieces when the space is short, and hands
`writeBlocking` the same pointer each time: every piece starts at the first byte
of the data.  What reaches the queue is therefore the data exactly when each
piece happens to repeat the beginning of the data (`PiecesRepeat`), as it does
when there is one piece.
-/

namespace AmlSubtitle

open Words

/-- What the queue answers in one pass of the sending loop. -/
structure QueueAnswer where
  availableToWrite : ℕ
  writeBlocking : Bool
  deriving DecidableEq, Repr

/-- `HEADER_SIZE` of the client. -/
def HEADER_SIZE : ℕ := 4 * 5

/-- `makeHeader`: five words in the machine's own, little-endian, order. -/
def makeHeader (sessionId : ℤ) (t : PayloadType) (payloadSize : ℤ) : List UInt8 :=
  leBytes 4 START_FLAG ++ leBytes 4 (asUnsigned 32 sessionId) ++ leBytes 4 MAGIC_FLAG ++
    leBytes 4 (asUnsigned 32 payloadSize) ++ leBytes 4 t.code

/-- How far a call of the sending loop has come: still waiting for the queue's
next answer, or returned. -/
inductive SendStatus where
  | running
  | returned (ok : Bool)
  deriving DecidableEq, Repr

/-- The pieces written to the queue, in write order, the status of the call, and
the answers of the queue it has not used. -/
structure SendRun where
  pieces : List (List UInt8)
  status : SendStatus
  rest : List QueueAnswer
  deriving DecidableEq, Repr

/-- The bytes written, concatenated in write order. -/
def SendRun.written (r : SendRun) : List UInt8 := r.pieces.flatten

/-- The `while` loop of `fmqSendDataLocked`. -/
def sendLoop (data : List UInt8) (wrote remainSize : ℕ) : List QueueAnswer → SendRun
  | [] => ⟨[], if wrote < data.length then .running else .returned true, []⟩
  | q :: qs =>
    if wrote < data.length then
      let needWrite := if remainSize > q.availableToWrite then q.availableToWrite else remainSize
      if q.writeBlocking then
        -- the pointer handed to `writeBlocking` is `data`, in every pass
        let r := sendLoop data (wrote + needWrite) (remainSize - needWrite) qs
        { r with pieces := data.take needWrite :: r.pieces }
      else
        ⟨[], .returned false, qs⟩
    else
      ⟨[], .returned true, q :: qs⟩

/-- `fmqSendDataLocked`; `none` is a null `data`. -/
def fmqSendDataLocked (data : Option (List UInt8)) (answers : List QueueAnswer) : SendRun :=
  match data with
  | some data => sendLoop data 0 data.length answers
  | none => ⟨[], .returned false, answers⟩

/-- `SubSource_SendData` on an open handle of session `sId`: the header, then the
data, whatever became of the header. -/
def subSourceSendData (sId : ℤ) (data : List UInt8) (answers : List QueueAnswer) : SendRun :=
  let header := fmqSendDataLocked (some (makeHeader sId .subData data.length)) answers
  match header.status with
  | .running => header
  | .returned _ =>
    let payload := fmqSendDataLocked (some data) header.rest
    { payload with pieces := header.pieces ++ payload.pieces }

@[simp] theorem length_makeHeader (sId : ℤ) (t : PayloadType) (n : ℤ) :
    (makeHeader sId t n).length = HEADER_SIZE := by
  simp [makeHeader, HEADER_SIZE]

/-! ## The places where the pieces start -/

/-- The free space the queue has reported in its first `k` answers. -/
def reported (answers : List QueueAnswer) (k : ℕ) : ℕ :=
  ((answers.take k).map QueueAnswer.availableToWrite).sum

/-- Every byte equals the one as far from the start of the data as this one is
from the start of its piece; the piece of pass `k` starts where the space
reported before it ends. -/
def PiecesRepeat (data : List UInt8) (answers : List QueueAnswer) : Prop :=
  ∀ k i, reported answers k ≤ i → i < reported answers (k + 1) → i < data.length →
    data[i]? = data[i - reported answers k]?

/-- The answers left when the queue has reported `n` bytes of free space. -/
def answersAfter : ℕ → List QueueAnswer → List QueueAnswer
  | 0, answers => answers
  | _ + 1, [] => []
  | n + 1, q :: qs => answersAfter (n + 1 - q.availableToWrite) qs

@[simp] theorem reported_zero (answers : List QueueAnswer) : reported answers 0 = 0 := rfl

@[simp] theorem reported_cons_succ (q : QueueAnswer) (qs : List QueueAnswer) (k : ℕ) :
    reported (q :: qs) (k + 1) = q.availableToWrite + reported qs k := by
  simp [reported]

/-- One report: everything fits, and the only piece is the data. -/
theorem piecesRepeat_of_le {data : List UInt8} {q : QueueAnswer} {qs : List QueueAnswer}
    (h : data.length ≤ q.availableToWrite) : PiecesRepeat data (q :: qs) := by
  intro k i hk _ hi
  cases k with
  | zero => rfl
  | succ k =>
    rw [reported_cons_succ] at hk
    omega

/-! ## What the loop writes -/

/-- The pieces of a loop that is `w` bytes into the data. -/
def PiecesRepeatFrom (data : List UInt8) (w : ℕ) (answers : List QueueAnswer) : Prop :=
  ∀ k i, w + reported answers k ≤ i → i < w + reported answers (k + 1) → i < data.length →
    data[i]? = data[i - (w + reported answers k)]?

theorem piecesRepeatFrom_zero {data : List UInt8} {answers : List QueueAnswer} :
    PiecesRepeatFrom data 0 answers ↔ PiecesRepeat data answers := by
  simp only [PiecesRepeatFrom, PiecesRepeat, Nat.zero_add]

theorem piecesRepeatFrom_of_length_le {data : List UInt8} {w : ℕ} {answers : List QueueAnswer}
    (h : data.length ≤ w) : PiecesRepeatFrom data w answers := by
  intro k i hk _ hi
  omega

/-- The first piece repeats the beginning of the data, and so do the others. -/
theorem piecesRepeatFrom_cons {data : List UInt8} {w : ℕ} {q : QueueAnswer}
    {qs : List QueueAnswer} :
    PiecesRepeatFrom data w (q :: qs) ↔
      (data.drop w).take q.availableToWrite = data.take (min q.availableToWrite (data.length - w)) ∧
        PiecesRepeatFrom data (w + q.availableToWrite) qs := by
  constructor
  · intro h
    refine ⟨?_, fun k i hk hk' hi => ?_⟩
    · refine List.ext_getElem? fun j => ?_
      rw [List.getElem?_take, List.getElem?_drop, List.getElem?_take]
      by_cases hj : j < q.availableToWrite
      · by_cases hjw : w + j < data.length
        · have hrep := h 0 (w + j) (by simp) (by simpa using hj) hjw
          rw [reported_zero, Nat.add_zero, Nat.add_sub_cancel_left] at hrep
          rw [if_pos hj, if_pos (by omega), hrep]
        · rw [if_pos hj, if_neg (by omega), List.getElem?_eq_none (by omega)]
      · rw [if_neg hj, if_neg (by omega)]
    · have hrep := h (k + 1) i (by rw [reported_cons_succ]; omega)
        (by rw [reported_cons_succ]; omega) hi
      rwa [reported_cons_succ, ← Nat.add_assoc] at hrep
  · rintro ⟨hfirst, hrest⟩ k i hk hk' hi
    cases k with
    | zero =>
      rw [reported_zero] at hk ⊢
      rw [reported_cons_succ, reported_zero] at hk'
      have hi' : ((data.drop w).take q.availableToWrite)[i - w]? =
          (data.take (min q.availableToWrite (data.length - w)))[i - w]? := by rw [hfirst]
      rw [List.getElem?_take, if_pos (by omega), List.getElem?_drop, List.getElem?_take,
        if_pos (by omega), Nat.add_sub_cancel' (by omega)] at hi'
      exact hi'
    | succ k =>
      rw [reported_cons_succ] at hk hk' ⊢
      rw [← Nat.add_assoc]
      exact hrest k i (by omega) (by omega) hi

variable {answers : List QueueAnswer}

/-- One piece: the loop goes on behind it. -/
theorem sendLoop_cons {data : List UInt8} {w : ℕ} {q : QueueAnswer} (qs : List QueueAnswer)
    (hq : q.writeBlocking = true) (hlt : w < data.length) {need : ℕ}
    (hneed : need = min q.availableToWrite (data.length - w)) :
    sendLoop data w (data.length - w) (q :: qs) =
        { sendLoop data (w + need) (data.length - (w + need)) qs with
          pieces := data.take need ::
            (sendLoop data (w + need) (data.length - (w + need)) qs).pieces } ∧
      answersAfter (data.length - w) (q :: qs) = answersAfter (data.length - (w + need)) qs := by
  have hsource : (if data.length - w > q.availableToWrite then q.availableToWrite
      else data.length - w) = need := by
    rw [hneed]
    split <;> omega
  constructor
  · rw [sendLoop, if_pos hlt, if_pos hq, hsource, Nat.sub_sub]
  · obtain ⟨n, hn⟩ : ∃ n, data.length - w = n + 1 := ⟨data.length - w - 1, by omega⟩
    rw [hn, answersAfter, ← hn]
    congr 1
    omega

/-- What is written behind a piece is the data from there on when the piece is its beginning
and the rest follows. -/
theorem take_append_eq_drop_iff {data written : List UInt8} {w need : ℕ}
    (h : w + need ≤ data.length) :
    data.take need ++ written = data.drop w ↔
      (data.drop w).take need = data.take need ∧ written = data.drop (w + need) := by
  have hsplit : data.drop w = (data.drop w).take need ++ data.drop (w + need) := by
    rw [← List.drop_drop, List.take_append_drop]
  constructor
  · intro hwritten
    rw [hsplit] at hwritten
    have hlens : (data.take need).length = ((data.drop w).take need).length := by
      rw [List.length_take, List.length_take, List.length_drop]
      omega
    obtain ⟨hpiece, hrest⟩ := List.append_inj hwritten hlens
    exact ⟨hpiece.symm, hrest⟩
  · rintro ⟨hpiece, hrest⟩
    rw [hrest, ← hpiece, ← hsplit]

/-- **What the loop writes**, from `w` bytes into the data on, when the queue
keeps its contract and the loop returns. -/
theorem sendLoop_spec (data : List UInt8) (hq : ∀ q ∈ answers, q.writeBlocking = true) (w : ℕ)
    (hw : w ≤ data.length) (hret : (sendLoop data w (data.length - w) answers).status ≠ .running) :
    (sendLoop data w (data.length - w) answers).status = .returned true ∧
      (sendLoop data w (data.length - w) answers).rest = answersAfter (data.length - w) answers ∧
      (sendLoop data w (data.length - w) answers).written.length = data.length - w ∧
      ((sendLoop data w (data.length - w) answers).written = data.drop w ↔
        PiecesRepeatFrom data w answers) := by
  induction answers generalizing w with
  | nil =>
    have hdone : ¬ w < data.length := by
      intro hlt
      exact hret (by simp [sendLoop, hlt])
    have hzero : data.length - w = 0 := by omega
    rw [hzero]
    refine ⟨by simp [sendLoop, hdone], rfl, rfl, ?_⟩
    rw [List.drop_of_length_le (by omega)]
    exact ⟨fun _ => piecesRepeatFrom_of_length_le (by omega), fun _ => rfl⟩
  | cons q qs ih =>
    by_cases hlt : w < data.length
    · obtain ⟨need, hneed⟩ : ∃ need, need = min q.availableToWrite (data.length - w) := ⟨_, rfl⟩
      obtain ⟨hstep, hafter⟩ := sendLoop_cons qs (hq q List.mem_cons_self) hlt hneed
      rw [hstep] at hret ⊢
      obtain ⟨hstatus, hrest, hlen, hiff⟩ :=
        ih (fun q' hq' => hq q' (List.mem_cons_of_mem _ hq')) (w + need) (by omega) hret
      refine ⟨hstatus, hrest.trans hafter.symm, ?_, ?_⟩
      · rw [SendRun.written, List.flatten_cons, List.length_append, List.length_take]
        rw [SendRun.written] at hlen
        omega
      · have htake : (data.drop w).take need = (data.drop w).take q.availableToWrite := by
          rw [hneed, ← List.length_drop, ← List.take_eq_take_min]
        have hfrom : PiecesRepeatFrom data (w + need) qs ↔
            PiecesRepeatFrom data (w + q.availableToWrite) qs := by
          rcases Nat.le_total q.availableToWrite (data.length - w) with hle | hle
          · rw [hneed, min_eq_left hle]
          · exact ⟨fun _ => piecesRepeatFrom_of_length_le (by omega),
              fun _ => piecesRepeatFrom_of_length_le (by omega)⟩
        rw [piecesRepeatFrom_cons, ← hneed, ← htake, ← hfrom, ← hiff, SendRun.written,
          List.flatten_cons, ← SendRun.written, take_append_eq_drop_iff (by omega)]
    · have hzero : data.length - w = 0 := by omega
      rw [hzero]
      have hstop : sendLoop data w 0 (q :: qs) = ⟨[], .returned true, q :: qs⟩ := by
        rw [sendLoop, if_neg hlt]
      rw [hstop, List.drop_of_length_le (by omega)]
      exact ⟨rfl, rfl, rfl, fun _ => piecesRepeatFrom_of_length_le (by omega), fun _ => rfl⟩

/-! ## What reaches the queue -/

theorem mem_of_mem_answersAfter {q : QueueAnswer} {n : ℕ} (h : q ∈ answersAfter n answers) :
    q ∈ answers := by
  induction n, answers using answersAfter.induct with
  | case1 answers => rwa [answersAfter] at h
  | case2 n => rwa [answersAfter] at h
  | case3 n q' qs ih =>
    rw [answersAfter] at h
    exact List.mem_cons_of_mem _ (ih h)

/-- A finished call writes as many bytes as it was given, and they are the data
exactly when the pieces repeat its beginning. -/
theorem fmqSendDataLocked_spec (data : List UInt8) (hq : ∀ q ∈ answers, q.writeBlocking = true)
    (hret : (fmqSendDataLocked (some data) answers).status ≠ .running) :
    (fmqSendDataLocked (some data) answers).status = .returned true ∧
      (fmqSendDataLocked (some data) answers).rest = answersAfter data.length answers ∧
      (fmqSendDataLocked (some data) answers).written.length = data.length ∧
      ((fmqSendDataLocked (some data) answers).written = data ↔ PiecesRepeat data answers) := by
  rw [← piecesRepeatFrom_zero]
  exact sendLoop_spec data hq 0 (Nat.zero_le _) hret

/-- A finished `SubSource_SendData` has finished its two calls. -/
theorem subSourceSendData_eq {sId : ℤ} {data : List UInt8}
    (hq : ∀ q ∈ answers, q.writeBlocking = true)
    (hret : (subSourceSendData sId data answers).status ≠ .running) :
    let header := makeHeader sId .subData data.length
    let rest := answersAfter HEADER_SIZE answers
    (fmqSendDataLocked (some header) answers).status ≠ .running ∧
      (fmqSendDataLocked (some data) rest).status ≠ .running ∧
      (subSourceSendData sId data answers).written =
        (fmqSendDataLocked (some header) answers).written ++
          (fmqSendDataLocked (some data) rest).written := by
  intro header rest
  have hhead : (fmqSendDataLocked (some header) answers).status ≠ .running := by
    intro hrun
    refine hret ?_
    rw [subSourceSendData, hrun]
    exact hrun
  obtain ⟨hstatus, hrest, -, -⟩ := fmqSendDataLocked_spec header hq hhead
  rw [length_makeHeader] at hrest
  have hcall : subSourceSendData sId data answers =
      { fmqSendDataLocked (some data) rest with
        pieces := (fmqSendDataLocked (some header) answers).pieces ++
          (fmqSendDataLocked (some data) rest).pieces } := by
    rw [subSourceSendData, hstatus, hrest]
  rw [hcall] at hret ⊢
  exact ⟨hhead, hret, List.flatten_append⟩

/-- **When a message reaches the queue.**  With a queue that keeps its contract, a
finished `fmqSendDataLocked` has written its data exactly when every piece
repeats the beginning of the data, and a finished `SubSource_SendData` has
written header and payload exactly when that holds of both. -/
theorem written_eq_iff_piecesRepeat (sId : ℤ) (data : List UInt8) (answers : List QueueAnswer)
    (hq : ∀ q ∈ answers, q.writeBlocking = true) :
    ((fmqSendDataLocked (some data) answers).status ≠ .running →
        ((fmqSendDataLocked (some data) answers).written = data ↔ PiecesRepeat data answers)) ∧
      ((subSourceSendData sId data answers).status ≠ .running →
        ((subSourceSendData sId data answers).written =
            makeHeader sId .subData data.length ++ data ↔
          PiecesRepeat (makeHeader sId .subData data.length) answers ∧
            PiecesRepeat data (answersAfter HEADER_SIZE answers))) := by
  refine ⟨fun hret => (fmqSendDataLocked_spec data hq hret).2.2.2, fun hret => ?_⟩
  obtain ⟨hhead, hpay, hwritten⟩ := subSourceSendData_eq hq hret
  obtain ⟨-, -, hlen, hiff⟩ := fmqSendDataLocked_spec _ hq hhead
  obtain ⟨-, -, -, hiff'⟩ := fmqSendDataLocked_spec data
    (fun q h => hq q (mem_of_mem_answersAfter h)) hpay
  rw [hwritten, ← hiff, ← hiff']
  exact ⟨fun h => List.append_inj h hlen, fun h => by rw [h.1, h.2]⟩

/-- Three bytes sent as a header in one piece and a payload in two. -/
theorem written_eq_iff_piecesRepeat_three_bytes :
    ((fmqSendDataLocked (some [1, 2, 1]) [⟨32, true⟩]).written = [1, 2, 1] ↔
        PiecesRepeat [1, 2, 1] [⟨32, true⟩]) ∧
      ((subSourceSendData 7 [1, 2, 1] [⟨32, true⟩, ⟨0, true⟩, ⟨2, true⟩, ⟨9, true⟩]).written =
          makeHeader 7 .subData 3 ++ [1, 2, 1] ↔
        PiecesRepeat (makeHeader 7 .subData 3) [⟨32, true⟩, ⟨0, true⟩, ⟨2, true⟩, ⟨9, true⟩] ∧
          PiecesRepeat [1, 2, 1]
            (answersAfter HEADER_SIZE [⟨32, true⟩, ⟨0, true⟩, ⟨2, true⟩, ⟨9, true⟩])) :=
  ⟨(written_eq_iff_piecesRepeat 7 [1, 2, 1] [⟨32, true⟩] (by decide)).1 (by decide),
    (written_eq_iff_piecesRepeat 7 [1, 2, 1] [⟨32, true⟩, ⟨0, true⟩, ⟨2, true⟩, ⟨9, true⟩]
      (by decide)).2 (by decide)⟩

/-- Two bytes and a queue with room for one at a time: the first byte is sent
twice, and `SubSource_SendData` delivers it so behind an intact header. -/
theorem fmqSendDataLocked_two_pieces :
    fmqSendDataLocked (some [0x41, 0x42]) [⟨1, true⟩, ⟨1, true⟩] =
        ⟨[[0x41], [0x41]], .returned true, []⟩ ∧
      (fmqSendDataLocked (some [0x41, 0x42]) [⟨1, true⟩, ⟨1, true⟩]).written ≠ [0x41, 0x42] ∧
      (subSourceSendData 0 [0x41, 0x42] [⟨20, true⟩, ⟨1, true⟩, ⟨1, true⟩]).written ≠
        makeHeader 0 .subData 2 ++ [0x41, 0x42] := by
  decide

end AmlSubtitle
