import AmlSubtitle.Lib.Reorder
import AmlSubtitle.Lib.Thread
import AmlSubtitle.Lib.Words

/-!
# `io/Userdata.c`: the closed-caption reorder buffer

Pictures arrive in decoding order and their captions are wanted in display order,
so the caption data of MPEG and SCTE-20 pictures wait in `cc_list`, a singly linked
list sorted by time stamp and picture order.  Nodes that have been written out wait
on `free_list` for their next use.

The nodes live in a heap, `next` fields and list heads are pointers into it, and
`nextPtr` is the address `malloc` gives next.  A null or dangling pointer that is
followed is the result `none`; so is a walk of more nodes than were ever allocated,
which only a circular list allows.  `written` is the sequence of `write_package`
calls.  The branches of `aml_add_cc_data` in which `malloc` or `realloc` fails are
taken as the call says (`Alloc`).

The header of `Reorder` says what the buffer is for.  `Shows` relates the linked
lists to it, and the theorem behind each function says what the function does to
both; `Io.UserdataCount` and `Io.UserdataOrder` use nothing else.
-/

namespace AmlSubtitle

open Thread Words

/-- The caption data of one picture. -/
structure CcRecord where
  poc : ℤ
  buf : List UInt8
  pts : ℤ
  ptsValid : ℤ
  duration : ℤ
  deriving DecidableEq

/-- `AM_CCData`; `size` is the length of `buf`. -/
structure AmCcData extends CcRecord where
  next : Option ℕ
  cap : ℕ

/-- What the allocator answers in a call. -/
structure Alloc where
  malloc : Bool
  realloc : Bool

/-- The fields of `AM_UDDrvData` that the reorder buffer uses, and its memory. -/
structure AmUDDrvData where
  heap : ℕ → Option AmCcData
  nextPtr : ℕ
  ccList : Option ℕ
  freeList : Option ℕ
  ccNum : ℤ
  currPoc : ℤ
  currPts : ℤ
  currDuration : ℤ
  written : List CcRecord

/-- The walk of `aml_add_cc_data` stops in front of `cc`: the new record comes before. -/
def CcRecord.Before (r cc : CcRecord) : Prop :=
  if cc.pts = r.pts then r.poc < cc.poc else r.pts < cc.pts

instance : DecidableRel CcRecord.Before := fun r cc => by
  unfold CcRecord.Before
  infer_instance

namespace AmUDDrvData

/-- `MAX_CC_NUM`. -/
def maxCcNum : ℤ := 64

/-- The state after the device is opened. -/
def init : AmUDDrvData where
  heap := fun _ => none
  nextPtr := 0
  ccList := none
  freeList := none
  ccNum := 0
  currPoc := -1
  currPts := 0
  currDuration := 0
  written := []

/-- `aml_write_userdata`. -/
def amlWriteUserdata (ud : AmUDDrvData) (r : CcRecord) : AmUDDrvData :=
  { ud with
    written := ud.written ++ [r]
    currPts := if r.ptsValid = 0 then ud.currPts + ud.currDuration else r.pts
    currDuration := r.duration }

/-- A write to the node at `p`. -/
def store (ud : AmUDDrvData) (p : ℕ) (cc : AmCcData) : AmUDDrvData :=
  { ud with heap := Function.update ud.heap p (some cc) }

/-- `cc->next = ud->free_list; ud->free_list = cc`. -/
def recycle (ud : AmUDDrvData) (p : ℕ) (cc : AmCcData) : AmUDDrvData :=
  { ud.store p { cc with next := ud.freeList } with freeList := some p }

/-- The loop of `aml_flush_cc_data`, from the node `cc` on. -/
def flushLoop : ℕ → Option ℕ → AmUDDrvData → Option AmUDDrvData
  | _, none, ud => some ud
  | 0, some _, _ => none
  | fuel + 1, some p, ud =>
    (ud.heap p).bind fun cc =>
      flushLoop fuel cc.next ((ud.amlWriteUserdata cc.toCcRecord).recycle p cc)

/-- `aml_flush_cc_data`. -/
def amlFlushCcData (ud : AmUDDrvData) : Option AmUDDrvData :=
  (flushLoop ud.nextPtr ud.ccList ud).map fun ud =>
    { ud with ccList := none, ccNum := 0, currPoc := -1 }

/-- Write the first node out and recycle it; without one, its fields are read through
a null pointer. -/
def writeHead (ud : AmUDDrvData) : Option AmUDDrvData :=
  ud.ccList.bind fun p => (ud.heap p).map fun cc =>
    ({ ud.amlWriteUserdata cc.toCcRecord with ccList := cc.next }).recycle p cc

/-- The walk of `aml_add_cc_data`: the place `pcc` where it stops, and `*pcc`. -/
def findPlace (heap : ℕ → Option AmCcData) (r : CcRecord) :
    ℕ → Link ℕ → Option ℕ → Option (Link ℕ × Option ℕ)
  | _, pcc, none => some (pcc, none)
  | 0, _, some _ => none
  | fuel + 1, pcc, some p =>
    (heap p).bind fun cc =>
      if r.Before cc.toCcRecord then some (pcc, some p)
      else findPlace heap r fuel (.after p) cc.next

/-- A node from `free_list` or from `malloc`, whose failure leaves no node. -/
def takeNode (ud : AmUDDrvData) (alloc : Alloc) : Option (Option (ℕ × AmCcData) × AmUDDrvData) :=
  match ud.freeList with
  | some p => (ud.heap p).map fun cc => (some (p, cc), { ud with freeList := cc.next })
  | none =>
    if alloc.malloc then
      let cc : AmCcData := ⟨⟨0, [], 0, 0, 0⟩, none, 0⟩
      some (some (ud.nextPtr, cc), { ud.store ud.nextPtr cc with nextPtr := ud.nextPtr + 1 })
    else
      some (none, ud)

/-- `*pcc = cc`. -/
def setLink (ud : AmUDDrvData) (pcc : Link ℕ) (p : ℕ) : Option AmUDDrvData :=
  match pcc with
  | .head => some { ud with ccList := some p }
  | .after a => (ud.heap a).map fun na => ud.store a { na with next := some p }

/-- The rest of `aml_add_cc_data`, after the walk. -/
def insertAt (ud : AmUDDrvData) (r : CcRecord) (alloc : Alloc) (pcc : Link ℕ) (q : Option ℕ) :
    Option AmUDDrvData :=
  (ud.takeNode alloc).bind fun (node, ud) =>
    match node with
    | none => some ud
    | some (p, cc) =>
      if cc.cap < r.buf.length ∧ alloc.realloc = false then
        -- the node is on neither list any more
        some (ud.store p { cc with buf := [] })
      else
        ((ud.store p ⟨r, q, max cc.cap r.buf.length⟩).setLink pcc p).map fun ud =>
          { ud with ccNum := ud.ccNum + 1 }

/-- A full buffer writes its first record out. -/
def evict (ud : AmUDDrvData) : Option AmUDDrvData :=
  if maxCcNum ≤ ud.ccNum then
    ud.writeHead.map fun ud => { ud with ccNum := ud.ccNum - 1 }
  else
    some ud

/-- A picture far before the first record flushes the buffer. -/
def flushOld (ud : AmUDDrvData) (r : CcRecord) : Option AmUDDrvData :=
  match ud.ccList with
  | none => some ud
  | some p => (ud.heap p).bind fun cc =>
    if r.poc < asSigned 32 (cc.poc - 30) then ud.amlFlushCcData else some ud

/-- `aml_add_cc_data`. -/
def amlAddCcData (ud : AmUDDrvData) (r : CcRecord) (alloc : Alloc) : Option AmUDDrvData :=
  ud.evict.bind fun ud => (ud.flushOld r).bind fun ud =>
    (findPlace ud.heap r ud.nextPtr .head ud.ccList).bind fun (pcc, q) =>
      ud.insertAt r alloc pcc q

/-- The loop of `aml_mpeg_userdata_package`: the records that follow on a picture that
was written through. -/
def drainLoop : ℕ → AmUDDrvData → Option AmUDDrvData
  | fuel, ud =>
    match ud.ccList, fuel with
    | none, _ => some ud
    | some _, 0 => none
    | some p, fuel + 1 => (ud.heap p).bind fun cc =>
      if asSigned 32 (ud.currPoc + 1) ≠ cc.poc then some ud
      else ud.writeHead.bind fun ud =>
        drainLoop fuel { ud with currPoc := asSigned 32 (ud.currPoc + 1) }

/-- The caption data of `p` is that of a closed-caption picture. -/
def IsCaption (r : CcRecord) : Prop := 5 ≤ r.buf.length ∧ r.buf[4]? = some 3

instance (r : CcRecord) : Decidable (IsCaption r) := by
  unfold IsCaption
  infer_instance

/-- The picture of `r` is the last one written through or the one after it. -/
def IsNext (ud : AmUDDrvData) (r : CcRecord) : Prop :=
  r.poc = asSigned 32 (ud.currPoc + 1) ∨ r.poc = ud.currPoc

instance (ud : AmUDDrvData) (r : CcRecord) : Decidable (ud.IsNext r) := by
  unfold IsNext
  infer_instance

/-- `I_TYPE`. -/
def iType : ℤ := 1

/-- `aml_mpeg_userdata_package`. -/
def amlMpegUserdataPackage (ud : AmUDDrvData) (type : ℤ) (r : CcRecord) (alloc : Alloc) :
    Option AmUDDrvData :=
  if IsCaption r then
    (if type = iType then ud.amlFlushCcData else some ud).bind fun ud =>
      if ud.IsNext r then
        let ud := { ud.amlWriteUserdata r with currPoc := r.poc }
        drainLoop ud.nextPtr ud
      else
        ud.amlAddCcData r alloc
  else
    some ud

end AmUDDrvData
end AmlSubtitle
