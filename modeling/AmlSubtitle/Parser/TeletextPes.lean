import AmlSubtitle.Lib.Delimited
import AmlSubtitle.Parser.DvbHwPackets

/-!
# The collection of teletext packets

`getDvbTeletextSpu` of `TeletextParser.cpp`, which puts the bytes behind a start code into
`originBuffer` until the next one comes, and hands them to `hwDemuxParse`.  A call takes bytes
until the source has none left, so that a list of calls is a list of what they find there; a call
that writes outside a buffer is `none`.

* `nextStart`: the bytes that the loop reads up to the next start that it sees.
* `collect_of_started`, `collect_of_not_started`: the loop up to there.
* `calls_of_collectable`: the packets of a stream are handed over if one call sees all of them.
-/

namespace AmlSubtitle
namespace Teletext

open Dvb Words Delimited

/-! ## The loop -/

def ATV_TELETEXT_DATA_LEN : ℕ := 42

/-- The size of `originBuffer` and of `transportBuffer`. -/
def bufferSize : ℕ := 16384

/-- The start of a packet of analogue teletext. -/
def IsAtv (packetHeader : ℕ) : Prop :=
  (packetHeader &&& 0xffffffffff) >>> 8 = AML_PARSER_SYNC_WORD ∧ packetHeader &&& 0xff = 0x41

instance : DecidablePred IsAtv := fun h => by
  unfold IsAtv
  infer_instance

/-- What `softDemuxParse` leaves of the source.  A negative length is too much for `malloc`. -/
def softRest (src : List UInt8) : List UInt8 :=
  let tmpbuf := src.take 19
  let src := src.drop 19
  if tmpbuf.length = 19 then src.drop (subPeekAsInt32 (tmpbuf.drop 3)).toNat else src

/-- What `atvHwDemuxParse` leaves of the source. -/
def atvRest (src : List UInt8) : List UInt8 :=
  let tmpbuf := src.take 4
  let src := src.drop 4
  if tmpbuf.length = 4 then src.drop ATV_TELETEXT_DATA_LEN else src

theorem length_softRest_le (src : List UInt8) : (softRest src).length ≤ src.length := by
  unfold softRest
  dsimp only
  split_ifs <;> simp only [List.length_drop] <;> omega

theorem length_atvRest_le (src : List UInt8) : (atvRest src).length ≤ src.length := by
  unfold atvRest
  dsimp only
  split_ifs <;> simp only [List.length_drop] <;> omega

/-- The variables of the loop; `originBuffer` is what stands before `bufIndex`, and `handed` what
`hwDemuxParse` is given. -/
structure Collect where
  packetHeader : ℕ
  packetHeaderFirst : Bool
  originBuffer : List UInt8
  handed : List (List UInt8)

namespace Collect

/-- `originBuffer[bufIndex++] = tmpbuf[0]`, if there was a start code. -/
def put (b : UInt8) (s : Collect) : Option Collect :=
  if s.packetHeaderFirst then
    if s.originBuffer.length < bufferSize then
      some { s with originBuffer := s.originBuffer ++ [b] }
    else none
  else some s

/-- A start code.  The size of the copy is `bufIndex - 4`. -/
def start (s : Collect) : Option Collect :=
  if s.packetHeaderFirst then
    if 4 ≤ s.originBuffer.length then
      some { s with
        packetHeader := 0
        originBuffer := []
        handed := s.handed ++ [s.originBuffer.take (s.originBuffer.length - 4)] }
    else none
  else some { s with packetHeader := 0, packetHeaderFirst := true, originBuffer := [] }

end Collect

/-- The loop of `getDvbTeletextSpu`: what is handed over until there are no more bytes. -/
def collect : List UInt8 → Collect → Option (List (List UInt8))
  | [], s => some s.handed
  | b :: src, s =>
    (s.put b).bind fun s =>
      let packetHeader := nextHeader s.packetHeader b
      if IsHardware packetHeader then
        s.start.bind fun s => collect src s
      else if IsSoftware packetHeader then
        collect (softRest src) { s with packetHeader := 0 }
      else if IsAtv packetHeader then
        collect (atvRest src) { s with packetHeader := 0 }
      else
        collect src { s with packetHeader := packetHeader }
termination_by src => src.length
decreasing_by
  · exact Nat.lt_succ_self _
  · exact Nat.lt_succ_of_le (length_softRest_le _)
  · exact Nat.lt_succ_of_le (length_atvRest_le _)
  · exact Nat.lt_succ_self _

/-- `getDvbTeletextSpu`, with these bytes in the source. -/
def getDvbTeletextSpu (src : List UInt8) : Option (List (List UInt8)) :=
  collect src { packetHeader := 0, packetHeaderFirst := false, originBuffer := [], handed := [] }

/-- What is handed over in call after call. -/
def calls (srcs : List (List UInt8)) : Option (List (List UInt8)) :=
  (srcs.mapM getDvbTeletextSpu).map List.flatten

/-! ## Up to the next start -/

/-- The bytes that the loop itself reads up to the next start code that it sees, and what stands
behind it if there is one. -/
def nextStart : ℕ → List UInt8 → List UInt8 × Option (List UInt8)
  | _, [] => ([], none)
  | packetHeader, b :: src =>
    let packetHeader := nextHeader packetHeader b
    if IsHardware packetHeader then
      ([b], some src)
    else
      let next :=
        if IsSoftware packetHeader then nextStart 0 (softRest src)
        else if IsAtv packetHeader then nextStart 0 (atvRest src)
        else nextStart packetHeader src
      (b :: next.1, next.2)
termination_by _ src => src.length
decreasing_by
  · exact Nat.lt_succ_of_le (length_softRest_le _)
  · exact Nat.lt_succ_of_le (length_atvRest_le _)
  · exact Nat.lt_succ_self _

/-- The window and the source behind a byte that is not the last of a start code. -/
def passed (packetHeader : ℕ) (src : List UInt8) : ℕ × List UInt8 :=
  if IsSoftware packetHeader then (0, softRest src)
  else if IsAtv packetHeader then (0, atvRest src)
  else (packetHeader, src)

theorem length_passed_le (packetHeader : ℕ) (src : List UInt8) :
    (passed packetHeader src).2.length ≤ src.length := by
  unfold passed
  split_ifs
  · exact length_softRest_le src
  · exact length_atvRest_le src
  · exact le_rfl

theorem nextStart_cons (packetHeader : ℕ) (b : UInt8) (src : List UInt8) :
    nextStart packetHeader (b :: src) =
      let window := nextHeader packetHeader b
      if IsHardware window then ([b], some src)
      else
        let next := nextStart (passed window src).1 (passed window src).2
        (b :: next.1, next.2) := by
  rw [nextStart]
  unfold passed
  dsimp only
  split_ifs <;> rfl

theorem collect_cons (b : UInt8) (src : List UInt8) (s : Collect) :
    collect (b :: src) s =
      (s.put b).bind fun t =>
        let window := nextHeader t.packetHeader b
        if IsHardware window then t.start.bind fun u => collect src u
        else collect (passed window src).2 { t with packetHeader := (passed window src).1 } := by
  rw [collect]
  congr 1
  funext t
  dsimp only
  rw [passed]
  split_ifs <;> rfl

/-- Before the first start code nothing is put away. -/
theorem collect_of_not_started (src : List UInt8) (s : Collect)
    (hfirst : s.packetHeaderFirst = false) :
    collect src s =
      match (nextStart s.packetHeader src).2 with
      | none => some s.handed
      | some behind => collect behind ⟨0, true, [], s.handed⟩ := by
  induction hlen : src.length using Nat.strongRecOn generalizing src s with
  | _ n ih =>
    cases src with
    | nil => rw [collect, nextStart]
    | cons b src =>
      have hput : s.put b = some s := by rw [Collect.put, hfirst, if_neg (by decide)]
      rw [collect_cons, nextStart_cons, hput, Option.bind_some]
      dsimp only
      split_ifs with hstart
      · have hnew : s.start = some ⟨0, true, [], s.handed⟩ := by
          rw [Collect.start, hfirst, if_neg (by decide)]
        rw [hnew, Option.bind_some]
      · have hle := length_passed_le (nextHeader s.packetHeader b) src
        exact ih _ (by rw [← hlen, List.length_cons]; omega) _
          { s with packetHeader := (passed (nextHeader s.packetHeader b) src).1 } hfirst rfl

/-- Behind a start code the bytes are put away up to the next one. -/
theorem collect_of_started (src : List UInt8) (s : Collect) (hfirst : s.packetHeaderFirst = true)
    (hlength : s.originBuffer.length ≤ bufferSize) :
    collect src s =
      let next := nextStart s.packetHeader src
      let originBuffer := s.originBuffer ++ next.1
      if bufferSize < originBuffer.length then none
      else
        match next.2 with
        | none => some s.handed
        | some behind =>
          if originBuffer.length < 4 then none
          else collect behind
            ⟨0, true, [], s.handed ++ [originBuffer.take (originBuffer.length - 4)]⟩ := by
  induction hlen : src.length using Nat.strongRecOn generalizing src s with
  | _ n ih =>
    cases src with
    | nil =>
      rw [collect, nextStart]
      dsimp only
      rw [List.append_nil, if_neg (not_lt.mpr hlength)]
    | cons b src =>
      rw [collect_cons, nextStart_cons]
      dsimp only
      by_cases hfull : s.originBuffer.length < bufferSize
      · have hput : s.put b = some { s with originBuffer := s.originBuffer ++ [b] } := by
          rw [Collect.put, hfirst, if_pos rfl, if_pos hfull]
        have hone : (s.originBuffer ++ [b]).length ≤ bufferSize := by
          rw [List.length_append, List.length_singleton]
          exact hfull
        rw [hput, Option.bind_some]
        dsimp only
        by_cases hstart : IsHardware (nextHeader s.packetHeader b)
        · rw [if_pos hstart, if_pos hstart, if_neg (not_lt.mpr hone), Collect.start]
          dsimp only
          rw [hfirst, if_pos rfl]
          rcases lt_or_ge (s.originBuffer ++ [b]).length 4 with hshort | hlong
          · rw [if_neg (not_le.mpr hshort), if_pos hshort]
            rfl
          · rw [if_pos hlong, if_neg (not_lt.mpr hlong)]
            rfl
        · have hle := length_passed_le (nextHeader s.packetHeader b) src
          have hrest := ih _ (by rw [← hlen, List.length_cons]; omega)
            (passed (nextHeader s.packetHeader b) src).2
            { s with
              originBuffer := s.originBuffer ++ [b]
              packetHeader := (passed (nextHeader s.packetHeader b) src).1 } hfirst hone rfl
          rw [if_neg hstart, if_neg hstart, hrest]
          dsimp only
          rw [List.append_assoc, List.singleton_append]
      · have hput : s.put b = none := by rw [Collect.put, hfirst, if_pos rfl, if_neg hfull]
        have hover : ∀ bs : List UInt8, bufferSize < (s.originBuffer ++ b :: bs).length := by
          intro bs
          rw [List.length_append, List.length_cons]
          omega
        rw [hput, Option.bind_none]
        split_ifs <;> first | rfl | exact absurd (hover _) ‹_›

/-! ## A packet between two start codes -/

theorem isAtv_windowOf (read : List UInt8) :
    IsAtv (windowOf read) ↔ syncBytes 0x41 <:+ [0, 0, 0, 0, 0] ++ read := by
  have h := beValue_mod_eq_iff (syncBytes 0x41) read
  have hlength : (syncBytes 0x41).length = 5 := rfl
  have hvalue : beValue (syncBytes 0x41) = AML_PARSER_SYNC_WORD * 256 + 0x41 := rfl
  have hzeros : [0, 0, 0, 0, 0] = List.replicate 5 (0 : UInt8) := rfl
  rw [hlength, hvalue] at h
  rw [hzeros, ← h, IsAtv, show 0xffffffffff = 2 ^ 40 - 1 from rfl, show 0xff = 2 ^ 8 - 1 from rfl,
    Nat.and_two_pow_sub_one_eq_mod, Nat.and_two_pow_sub_one_eq_mod, Nat.shiftRight_eq_div_pow,
    windowOf]
  omega

/-- A packet that is taken for what it is: no sync word of another packet is in it, and it does
not begin with the end of a start code, which is taken for a start code after one. -/
structure Taken (p : List UInt8) : Prop where
  startCode : ¬ startCode <:+: p
  syncBytes : ∀ last ∈ [(0x77 : UInt8), 0xaa, 0x41], ¬ syncBytes last <:+: p
  falseStart : ¬ ([1, 0xbd] <+: p ∨ [0, 1, 0xbd] <+: p)

/-- The three sync words one by one. -/
theorem taken_of_words {p : List UInt8} (hcode : ¬ startCode <:+: p)
    (hrest : ¬ syncBytes 0x77 <:+: p) (hdvb : ¬ syncBytes 0xaa <:+: p)
    (hatv : ¬ syncBytes 0x41 <:+: p) (hstart : ¬ ([1, 0xbd] <+: p ∨ [0, 1, 0xbd] <+: p)) :
    Taken p := by
  refine ⟨hcode, ?_, hstart⟩
  rw [List.forall_mem_cons, List.forall_mem_cons, List.forall_mem_singleton]
  exact ⟨hrest, hdvb, hatv⟩

/-- Nothing starts in the packet. -/
theorem Taken.quiet {p : List UInt8} (h : Taken p) {v : List UInt8} (hv : v <+: p ++ [0, 0, 1]) :
    Quiet v ∧ ¬ IsAtv (windowOf v) := by
  have hsync : ∀ last ∈ [(0x77 : UInt8), 0xaa], ¬ Dvb.syncBytes last <:+: p := by
    intro last hlast
    refine h.syncBytes last ?_
    rcases List.mem_pair.mp hlast with rfl | rfl <;> decide
  let packet : PesPacket := ⟨p, [], h.startCode, hsync, by decide⟩
  have hstart : ¬ packet.FalseStart := h.falseStart
  refine ⟨ quiet_prefix hstart hv, fun hatv => ?_⟩
  have hsuffix := syncBytes_suffix ((isAtv_windowOf v).mp hatv)
  have hgap := prefix_gap ((List.suffix_append [0x41, 0x4d, 0x4c, 0x55] [0x41]).trans hsuffix)
    (by decide) hv
  exact h.syncBytes 0x41 (by decide) (hsuffix.isInfix.trans hgap.isInfix)

/-- The loop goes over bytes in which nothing starts. -/
theorem nextStart_append {read skipped : List UInt8} (src : List UInt8)
    (h : ∀ v, v ≠ [] → v <+: skipped → Quiet (read ++ v) ∧ ¬ IsAtv (windowOf (read ++ v))) :
    nextStart (windowOf read) (skipped ++ src) =
      (skipped ++ (nextStart (windowOf (read ++ skipped)) src).1,
        (nextStart (windowOf (read ++ skipped)) src).2) := by
  induction skipped generalizing read with
  | nil => rw [List.append_nil, List.nil_append, List.nil_append]
  | cons b skipped ih =>
    obtain ⟨⟨hhw, hsw⟩, hatv⟩ := h [b] (by simp) (by simp)
    have hnext : ∀ v, v ≠ [] → v <+: skipped →
        Quiet (read ++ [b] ++ v) ∧ ¬ IsAtv (windowOf (read ++ [b] ++ v)) := by
      intro v _ hv
      rw [List.append_assoc]
      exact h ([b] ++ v) (by simp) (by simpa using hv)
    have hpassed : passed (windowOf (read ++ [b])) (skipped ++ src)
        = (windowOf (read ++ [b]), skipped ++ src) := by
      rw [passed, if_neg hsw, if_neg hatv]
    rw [List.cons_append, nextStart_cons, nextHeader_windowOf]
    dsimp only
    rw [if_neg hhw, hpassed]
    dsimp only
    rw [ih hnext, List.append_assoc, List.singleton_append]
    rfl

/-- The next start is the one behind the packet. -/
theorem Taken.nextStart_eq {p : List UInt8} (h : Taken p) (rest : List UInt8) :
    nextStart 0 (p ++ (Dvb.startCode ++ rest)) = (p ++ Dvb.startCode, some rest) := by
  have hquiet : ∀ v, v ≠ [] → v <+: p ++ [0, 0, 1] →
      Quiet ([] ++ v) ∧ ¬ IsAtv (windowOf ([] ++ v)) := fun v _ hv => h.quiet hv
  have hbytes : p ++ (Dvb.startCode ++ rest) = (p ++ [0, 0, 1]) ++ 0xbd :: rest := by
    simp [Dvb.startCode]
  have hcode : Dvb.startCode <:+ [0, 0, 0, 0] ++ ([] ++ (p ++ [0, 0, 1]) ++ [0xbd]) :=
    ⟨[0, 0, 0, 0] ++ p, by simp [Dvb.startCode]⟩
  have hzero : 0 = windowOf [] := rfl
  rw [hbytes, hzero, nextStart_append _ hquiet, nextStart_cons, nextHeader_windowOf]
  dsimp only
  rw [if_pos ((isHardware_windowOf _).mpr hcode)]
  simp [Dvb.startCode]

/-- A packet that `originBuffer` has room for is handed over. -/
theorem Taken.collect_eq {p : List UInt8} (h : Taken p) (hle : p.length + 4 ≤ bufferSize)
    (handed : List (List UInt8)) (rest : List UInt8) :
    collect (p ++ (Dvb.startCode ++ rest)) ⟨0, true, [], handed⟩
      = collect rest ⟨0, true, [], handed ++ [p]⟩ := by
  have hlength : (p ++ Dvb.startCode).length = p.length + 4 := List.length_append
  rw [collect_of_started _ _ rfl (Nat.zero_le _)]
  dsimp only
  rw [h.nextStart_eq, List.nil_append, hlength, if_neg (by omega)]
  dsimp only
  rw [if_neg (by omega), Nat.add_sub_cancel, List.take_left]

/-- No start follows. -/
theorem Taken.nextStart_none {p : List UInt8} (h : Taken p) : nextStart 0 p = (p, none) := by
  have hquiet : ∀ v, v ≠ [] → v <+: p → Quiet ([] ++ v) ∧ ¬ IsAtv (windowOf ([] ++ v)) :=
    fun v _ hv => h.quiet (hv.trans (List.prefix_append p _))
  have hnext := nextStart_append [] hquiet
  rw [List.append_nil, nextStart, List.append_nil] at hnext
  exact hnext

theorem taken_nil : Taken [] := by
  refine taken_of_words ?_ ?_ ?_ ?_ ?_ <;> decide

/-- A start code and no other behind it: nothing is handed over, and a packet that
`originBuffer` has no room for is written behind it. -/
theorem Taken.getDvbTeletextSpu_eq {p : List UInt8} (h : Taken p) :
    getDvbTeletextSpu (Dvb.startCode ++ p) = if bufferSize < p.length then none else some [] := by
  have hstart : nextStart 0 (Dvb.startCode ++ p) = (Dvb.startCode, some p) :=
    taken_nil.nextStart_eq p
  rw [getDvbTeletextSpu, collect_of_not_started _ _ rfl, hstart]
  dsimp only
  rw [collect_of_started _ _ rfl (Nat.zero_le _)]
  dsimp only
  rw [h.nextStart_none, List.nil_append]

/-! ## The stream -/

/-- One call sees all start codes of the stream, and nothing else for one.  Behind the last one
it puts away no more bytes than `originBuffer` has room for. -/
structure OneCall (before : List (List UInt8)) (lead : List UInt8) (packets : List (List UInt8))
    (tail : List UInt8) (after : List (List UInt8)) : Prop where
  others : ∀ src ∈ before ++ after, (nextStart 0 src).2 = none
  first : (nextStart 0 (lead ++ (startCode ++ (packets.flatMap (· ++ startCode) ++ tail)))).2
    = some (packets.flatMap (· ++ startCode) ++ tail)
  taken : ∀ p ∈ packets, Taken p ∧ p.length + 4 ≤ bufferSize
  last : (nextStart 0 tail).2 = none
  length_le : (nextStart 0 tail).1.length ≤ bufferSize
  before_startCode : ¬ startCode <:+: before.flatten ++ lead
  after_startCode : ¬ startCode <:+: tail ++ after.flatten

/-- What the calls find. -/
def sources (before : List (List UInt8)) (lead : List UInt8) (packets : List (List UInt8))
    (tail : List UInt8) (after : List (List UInt8)) : List (List UInt8) :=
  before ++ (lead ++ (startCode ++ (packets.flatMap (· ++ startCode) ++ tail))) :: after

section OneCall

variable {before packets after : List (List UInt8)} {lead tail : List UInt8}

/-- The call that sees the packets. -/
theorem OneCall.getDvbTeletextSpu_eq (h : OneCall before lead packets tail after) :
    getDvbTeletextSpu (lead ++ (startCode ++ (packets.flatMap (· ++ startCode) ++ tail)))
      = some packets := by
  have hpackets : ∀ (qs handed : List (List UInt8)),
      (∀ p ∈ qs, Taken p ∧ p.length + 4 ≤ bufferSize) →
      collect (qs.flatMap (· ++ startCode) ++ tail) ⟨0, true, [], handed⟩
        = collect tail ⟨0, true, [], handed ++ qs⟩ := by
    intro qs
    induction qs with
    | nil =>
      intro handed _
      rw [List.flatMap_nil, List.nil_append, List.append_nil]
    | cons p qs ih =>
      intro handed hqs
      rw [List.flatMap_cons, List.append_assoc, List.append_assoc,
        (hqs p List.mem_cons_self).1.collect_eq (hqs p List.mem_cons_self).2,
        ih _ fun q hq => hqs q (List.mem_cons_of_mem _ hq), List.append_assoc,
        List.singleton_append]
  rw [getDvbTeletextSpu, collect_of_not_started _ _ rfl, h.first]
  dsimp only
  rw [hpackets packets [] h.taken, collect_of_started _ _ rfl (Nat.zero_le _)]
  dsimp only
  rw [List.nil_append, if_neg (not_lt.mpr h.length_le), h.last, List.nil_append]

/-- A call that sees no start code hands nothing over. -/
theorem mapM_none (srcs : List (List UInt8)) (h : ∀ src ∈ srcs, (nextStart 0 src).2 = none) :
    srcs.mapM getDvbTeletextSpu = some (srcs.map fun _ => []) := by
  induction srcs with
  | nil => rfl
  | cons src srcs ih =>
    have hone : getDvbTeletextSpu src = some [] := by
      rw [getDvbTeletextSpu, collect_of_not_started _ _ rfl, h src List.mem_cons_self]
    rw [List.mapM_cons, hone, ih fun s hs => h s (List.mem_cons_of_mem _ hs)]
    rfl

/-- A start code does not end with its own beginning. -/
theorem startCode_notInside {p : List UInt8} (h : ¬ startCode <:+: p) :
    ¬ startCode <:+: p ++ startCode.dropLast := by
  have hstep : ∀ {q : List UInt8} {b : UInt8}, b ≠ 0xbd → ¬ startCode <:+: q →
      ¬ startCode <:+: q ++ [b] := by
    intro q b hb hq hin
    rcases List.infix_concat_iff.mp hin with hsuffix | hin
    · have hlast : [0xbd] <:+ [b] := List.suffix_of_suffix_length_le
        ((List.suffix_append [0, 0, 1] [0xbd]).trans hsuffix) (List.suffix_append _ _) le_rfl
      exact hb (List.cons.inj (hlast.eq_of_length rfl)).1.symm
    · exact hq hin
  have hthree := hstep (b := 1) (by decide) (hstep (b := 0) (by decide) (hstep (b := 0)
    (by decide) h))
  simpa [startCode] using hthree

/-- **The packets of a stream.**  They are handed over once each and as they are. -/
theorem OneCall.calls_eq (h : OneCall before lead packets tail after) :
    calls (sources before lead packets tail after)
      = some (between startCode (sources before lead packets tail after).flatten) := by
  have hbetween : between startCode (sources before lead packets tail after).flatten = packets := by
    have hflat : (sources before lead packets tail after).flatten = (before.flatten ++ lead)
        ++ (startCode ++ (packets.flatMap (· ++ startCode) ++ (tail ++ after.flatten))) := by
      simp [sources]
    rw [hflat, between_eq (by decide) (startCode_notInside h.before_startCode)
      (fun p hp => startCode_notInside (h.taken p hp).1.startCode) h.after_startCode]
  have hbefore := mapM_none before fun src hsrc => h.others src (List.mem_append_left _ hsrc)
  have hafter := mapM_none after fun src hsrc => h.others src (List.mem_append_right _ hsrc)
  rw [hbetween, calls, sources, List.mapM_append, hbefore, List.mapM_cons, h.getDvbTeletextSpu_eq,
    hafter]
  simp

end OneCall

/-- One call sees all start codes of the stream; or no call sees any, and there is no packet
between two of them. -/
def Collectable (srcs : List (List UInt8)) : Prop :=
  (∃ before lead packets tail after,
      srcs = sources before lead packets tail after ∧ OneCall before lead packets tail after) ∨
    (∀ src ∈ srcs, (nextStart 0 src).2 = none) ∧ (parts startCode srcs.flatten).length ≤ 2

/-- **The packets of a stream**, over all calls. -/
theorem calls_of_collectable (srcs : List (List UInt8)) (h : Collectable srcs) :
    calls srcs = some (between startCode srcs.flatten) := by
  rcases h with ⟨before, lead, packets, tail, after, rfl, h⟩ | ⟨hnone, hlength⟩
  · exact h.calls_eq
  · have hbetween : between startCode srcs.flatten = [] := by
      rw [between, ← List.length_eq_zero_iff, List.length_dropLast, List.length_tail]
      omega
    rw [calls, mapM_none srcs hnone, hbetween]
    simp

/-- Two packets of one call. -/
theorem calls_twoPackets :
    calls [startCode ++ ([0x10] ++ (startCode ++ ([0x11, 0x12] ++ startCode)))]
      = some (between startCode
        [startCode ++ ([0x10] ++ (startCode ++ ([0x11, 0x12] ++ startCode)))].flatten) := by
  have htaken : ∀ p ∈ [[0x10], [0x11, 0x12]], Taken p ∧ p.length + 4 ≤ bufferSize := by
    rw [List.forall_mem_cons, List.forall_mem_singleton]
    refine ⟨⟨taken_of_words ?_ ?_ ?_ ?_ ?_, ?_⟩, taken_of_words ?_ ?_ ?_ ?_ ?_, ?_⟩ <;> decide
  have hlast : nextStart 0 [] = ([], none) := by rw [nextStart]
  refine calls_of_collectable _ (.inl ⟨[], [], [[0x10], [0x11, 0x12]], [], [], rfl, ?_⟩)
  refine ⟨by simp, ?_, htaken, by rw [hlast], by rw [hlast]; exact Nat.zero_le _, by decide,
    by decide⟩
  exact congrArg Prod.snd (taken_nil.nextStart_eq _)

/-- A packet that two calls share. -/
theorem not_calls_shared :
    ¬ ∀ srcs : List (List UInt8), calls srcs = some (between startCode srcs.flatten) := by
  intro h
  have htaken : Taken [0x10] := by refine taken_of_words ?_ ?_ ?_ ?_ ?_ <;> decide
  have hfirst : getDvbTeletextSpu (startCode ++ [0x10]) = some [] := htaken.getDvbTeletextSpu_eq
  have hsecond : getDvbTeletextSpu (startCode ++ []) = some [] := taken_nil.getDvbTeletextSpu_eq
  have hboth := h [startCode ++ [0x10], startCode ++ []]
  have hbetween : between startCode [startCode ++ [0x10], startCode ++ []].flatten = [[0x10]] := by
    decide
  rw [calls, List.mapM_cons, hfirst, List.mapM_cons, hsecond, hbetween] at hboth
  revert hboth
  decide

end Teletext
end AmlSubtitle
