import AmlSubtitle.Parser.VobSubBitmap
import AmlSubtitle.Parser.VobSubPacket

/-!
# `parser/ExtParser/VobSubIndex.cpp`: the units of the `.sub` file

`genSubBitmap` seeks to the place of a unit in the program stream, takes the first packet there, and
goes on with the packets behind it until the unit has as many bytes as its first two bytes say.

* An allocation succeeds.  What stands in `rawsubdata` behind the bytes that were read is `junk`.
* `fuel` bounds the loops over the packets.
* `Element`: a packet of a subtitle, or what is passed over between the packets.
* `Took` and `mpeg_run_element`: what `mpeg_run` does with each element.
* `payloadOf`: the payload of the packets of a track, up to a packet of another one.
* `gatherUnit_elements`: what is gathered from any elements.
* `genSubBitmap_unit`: every unit of a file of units is drawn from its place, however it was cut
  into packets and whatever is passed over between them.
-/

namespace AmlSubtitle
namespace VobSub

open Words
open Dvb (Source sourceOf)

/-! ## The loops over the packets -/

/-- A packet of the track that is selected. -/
def isOfTrack (mSelectedTrackId aid : ℤ) : Bool :=
  asUnsigned 32 aid &&& 0xe0 = 0x20 && ((asUnsigned 32 aid &&& 0x1f : ℕ) : ℤ) = mSelectedTrackId

/-- What the loops over the packets come to: `rawsubdata`, of which the last `sublen` bytes are
missing, or no unit; `outside` is a read behind a packet of one byte. -/
inductive Gathered where
  | aborted
  | outside
  | nothing (mpg : Mpeg)
  | unit (rawsubdata : List UInt8) (sublen : ℕ) (mpg : Mpeg)
  deriving DecidableEq, Repr

/-- The loop over the packets behind the first one. -/
def gatherRest (file : List UInt8) (mSelectedTrackId : ℤ) :
    ℕ → Mpeg → List UInt8 → ℕ → Option Gathered
  | 0, _, _, _ => none
  | fuel + 1, mpg, rawsubdata, sublen =>
    let next := fun mpg : Mpeg =>
      if mpg.packet_size = 0 then gatherRest file mSelectedTrackId fuel mpg rawsubdata sublen
      else if isOfTrack mSelectedTrackId mpg.aid then
        let len := min mpg.packet_size sublen
        gatherRest file mSelectedTrackId fuel { mpg with packet := [] }
          (rawsubdata ++ mpg.packet.take len) (sublen - len)
      else
        some (.unit rawsubdata sublen { mpg with packet := [] })
    if rar_eof file mpg.pos || sublen = 0 then some (.unit rawsubdata sublen mpg)
    else
      match mpeg_run file true mpg with
      | .aborted => some .aborted
      | .error mpg => if rar_eof file mpg.pos then next mpg else some (.unit rawsubdata sublen mpg)
      | .done mpg => next mpg

/-- The loop up to the first packet that is not empty, and the packets of its unit. -/
def gatherUnit (file : List UInt8) (mSelectedTrackId : ℤ) : ℕ → Mpeg → Option Gathered
  | 0, _ => none
  | fuel + 1, mpg =>
    let next := fun mpg : Mpeg =>
      if mpg.packet_size = 0 then gatherUnit file mSelectedTrackId fuel mpg
      else if isOfTrack mSelectedTrackId mpg.aid then
        match mpg.packet with
        | byte0 :: byte1 :: _ =>
          let sublen := byte0.toNat <<< 8 ||| byte1.toNat
          let len := min mpg.packet_size sublen
          gatherRest file mSelectedTrackId fuel { mpg with packet := [] } (mpg.packet.take len)
            (sublen - len)
        | _ => some .outside
      else
        some (.nothing mpg)
    if rar_eof file mpg.pos then some (.nothing mpg)
    else
      match mpeg_run file true mpg with
      | .aborted => some .aborted
      | .error mpg => if rar_eof file mpg.pos then next mpg else some (.nothing mpg)
      | .done mpg => next mpg

/-! ## `genSubBitmap` -/

/-- What `genSubBitmap` sets in `AML_SPUVAR`. -/
structure SpuVar where
  spu_alpha : ℕ
  spu_color : ℕ
  buffer_size : ℕ
  spu_data : List ℕ
  spu_start_x : ℕ
  spu_start_y : ℕ
  spu_height : ℕ
  spu_width : ℕ
  m_delay : ℤ
  spu_origin_display_w : ℕ
  spu_origin_display_h : ℕ
  deriving DecidableEq, Repr

/-- The size of the frames, that of the video if the index tells none. -/
def originSize (mOrigFrame video : ℕ × ℕ) : ℕ × ℕ :=
  if mOrigFrame.1 = 0 ∨ mOrigFrame.2 = 0 then video else mOrigFrame

/-- What is drawn of the bytes of a unit, if `do_vob_sub_cmd` returns. -/
def renderUnit (palette : ℤ → ℕ) (mOrigFrame video : ℕ × ℕ) (pts : ℤ) (rawsubdata : Source)
    (fuel : ℕ) : Option (Option SpuVar) :=
  let result := do_vob_sub_cmd rawsubdata fuel {}
  let bitmap := drawBitmap palette rawsubdata fuel result.spu
  result.ret.map fun ret =>
    if ret = SUCCESS then
      some
        { spu_alpha := bitmap.spu.spuAlpha
          spu_color := bitmap.spu.spuColor
          buffer_size := bitmap.spu.spuHeight * bitmap.spu.spuWidth * 4 % 2 ^ 32
          spu_data := bitmap.converted.dist
          spu_start_x := bitmap.spu.spuStartX
          spu_start_y := bitmap.spu.spuStartY
          spu_height := bitmap.spu.spuHeight
          spu_width := bitmap.spu.spuWidth
          m_delay := pts + result.duration
          spu_origin_display_w := (originSize mOrigFrame video).1
          spu_origin_display_h := (originSize mOrigFrame video).2 }
    else
      none

/-- The bytes of a buffer, and what stands behind them. -/
def behind (bytes : List UInt8) (junk : Source) : Source := fun k => bytes.getD k (junk k)

/-- `genSubBitmap`: what it draws, if it draws anything; and nothing if it does not return. -/
def genSubBitmap (file : List UInt8) (mSelectedTrackId : ℤ) (palette : ℤ → ℕ)
    (mOrigFrame video : ℕ × ℕ) (junk : Source) (fuel : ℕ) (mpg : Mpeg) (pts pos : ℤ) :
    Option (Option SpuVar) :=
  if pos < 0 then some none
  else
    match gatherUnit file mSelectedTrackId fuel { mpg with pos := pos.toNat } with
    | some (.unit rawsubdata _ _) =>
      renderUnit palette mOrigFrame video pts (behind rawsubdata junk) fuel
    | some (.nothing _) => some none
    | _ => none

/-! ## The elements of a program stream -/

/-- An element of the stream: the end code, the header of a pack, padding or a packet of another
stream, or a packet of the private stream. -/
inductive Element where
  | endCode
  | mpeg2Pack (c : UInt8) (rest : List UInt8) (version : packVersion c = some 4)
      (length : rest.length = 9)
  | mpeg1Pack (c : UInt8) (rest : List UInt8) (version : packVersion c = some 2)
      (length : rest.length = 7)
  | stream (id : UInt8) (content : List UInt8) (known : id = 0xbe ∨ 0xc0 ≤ id ∧ id < 0xf0)
      (length : content.length < 2 ^ 16)
  | packet (p : Packet)

namespace Element

/-- The bytes of an element. -/
def bytes : Element → List UInt8
  | endCode => [0, 0, 1, 0xb9]
  | mpeg2Pack c rest _ _ => 0 :: 0 :: 1 :: 0xba :: c :: rest
  | mpeg1Pack c rest _ _ => 0 :: 0 :: 1 :: 0xba :: c :: rest
  | stream id content _ _ => 0 :: 0 :: 1 :: id :: (beBytes 2 content.length ++ content)
  | packet p => p.bytes

/-- The substream, of a packet of the private stream. -/
def aid : Element → ℤ
  | packet p => p.aid.toNat
  | _ => -1

/-- The payload, of a packet of the private stream. -/
def payload : Element → List UInt8
  | packet p => p.payload
  | _ => []

theorem exists_start (e : Element) : ∃ c rest, e.bytes = 0 :: 0 :: 1 :: c :: rest := by
  cases e with
  | endCode => exact ⟨_, _, rfl⟩
  | mpeg2Pack c rest => exact ⟨_, _, rfl⟩
  | mpeg1Pack c rest => exact ⟨_, _, rfl⟩
  | stream id content => exact ⟨_, _, rfl⟩
  | packet p => exact ⟨_, _, rfl⟩

theorem length_pos (e : Element) : 0 < e.bytes.length := by
  obtain ⟨c, rest, h⟩ := e.exists_start
  rw [h]
  exact Nat.succ_pos _

end Element

/-! ## What is read of an element -/

/-- The call returns 0 at a position, with an id and a payload. -/
def Took (result : Result) (pos : ℕ) (aid : ℤ) (payload : List UInt8) : Prop :=
  ∃ m, result = .done m ∧ m.pos = pos ∧ m.aid = aid ∧ m.packet_size = payload.length ∧
    (payload ≠ [] → m.packet = payload)

section Took

variable {file : List UInt8} {m : Mpeg}

/-- A start code here is the first one. -/
theorem firstStart_zero {c : UInt8} {rest bytes : List UInt8}
    (h : bytes = 0 :: 0 :: 1 :: c :: rest) : FirstStart bytes 0 c :=
  ⟨⟨rest, h⟩, fun _ hj => absurd hj (Nat.not_lt_zero _)⟩

theorem getElem?_of_drop {k : ℕ} {c : UInt8} {rest : List UInt8} (h : file.drop k = c :: rest) :
    file[k]? = some c := by
  rw [← Nat.add_zero k, ← List.getElem?_drop, h]
  rfl

theorem drop_of_append {bytes rest : List UInt8} {k n : ℕ} (h : file.drop k = bytes ++ rest)
    (hn : bytes.length = n) : file.drop (k + n) = rest := by
  rw [← List.drop_drop, h, List.drop_left' hn]

theorem drop_of_cons {c : UInt8} {rest : List UInt8} {k : ℕ} (h : file.drop k = c :: rest) :
    file.drop (k + 1) = rest := by
  rw [← List.drop_drop, h, List.drop_one, List.tail_cons]

theorem add_length_le {bytes rest : List UInt8} {k : ℕ} (h : file.drop k = bytes ++ rest)
    (hne : bytes ≠ []) : k + bytes.length ≤ file.length := by
  have hlength := congrArg List.length h
  have hpos := List.length_pos_iff.mpr hne
  rw [List.length_drop, List.length_append] at hlength
  omega

/-- A piece that stands there is read. -/
theorem reading_of_drop (hfile : file.length < 2 ^ 31) {bytes rest : List UInt8} {n : ℕ}
    (h : file.drop m.pos = bytes ++ rest) (hn : bytes.length = n) (hpos : 0 < n)
    (next : List UInt8 → Mpeg → Result) :
    reading file n m next = next bytes { m with pos := m.pos + n } := by
  have hne : bytes ≠ [] := List.length_pos_iff.mp (hn.symm ▸ hpos)
  have hle := add_length_le h hne
  rw [reading, rar_read_of_isSome (isSome_rar_read hfile hpos (hn ▸ hle)), h, List.take_left' hn]

/-- A packet of another stream, and padding, are passed over. -/
theorem skippedPacket_of_drop (hfile : file.length < 2 ^ 31) {content rest : List UInt8}
    (h : file.drop m.pos = beBytes 2 content.length ++ rest) (hlen : content.length < 2 ^ 16) :
    skippedPacket file m = .done { m with pos := m.pos + (2 + content.length) } := by
  rw [skippedPacket, reading_of_drop hfile h (length_beBytes 2 _) (by decide), lenOf_beBytes hlen,
    skipping, Nat.add_assoc]

/-- The header of a pack is passed over. -/
theorem packHeader_of_drop {c : UInt8} {rest : List UInt8} (h : file.drop m.pos = c :: rest) :
    packHeader file m = match packVersion c with
      | none => .error { m with pos := m.pos + 1 }
      | some version =>
        if version = 4 then .done { m with pos := m.pos + 10 }
        else if version = 2 then .done { m with pos := m.pos + 8 } else .aborted := by
  rw [packHeader, getting_eq (getElem?_of_drop h)]
  rfl

/-- The substream id and the payload. -/
theorem took_readPayload (hfile : file.length < 2 ^ 31) {aid : UInt8} {payload rest : List UInt8}
    {len idx : ℕ} (h : file.drop m.pos = aid :: (payload ++ rest))
    (hsize : len = m.pos + 1 + payload.length - idx) (hidx : idx ≤ m.pos) (hlen : len < 2 ^ 16) :
    Took (readPayload file true len idx m) (m.pos + 1 + payload.length) aid.toNat payload := by
  have hle : m.pos + 1 ≤ file.length := by
    have hcons : file.drop m.pos = [aid] ++ (payload ++ rest) := h
    exact add_length_le hcons (List.cons_ne_nil _ _)
  have hpacket : asUnsigned 32 (len - ((m.pos + 1) % 2 ^ 32 - idx)) = payload.length := by
    rw [asUnsigned, hsize]
    omega
  have hmax : payload.length < INT_MAX := by
    rw [INT_MAX]
    omega
  rw [readPayload, getElem?_of_drop h]
  dsimp only
  rw [hpacket, if_pos rfl]
  by_cases hempty : payload = []
  · rw [if_neg (fun hpos => absurd (List.length_pos_iff.mp hpos.1) (not_not.mpr hempty))]
    exact ⟨_, rfl, by rw [hempty]; rfl, rfl, rfl, fun hne => absurd hempty hne⟩
  · have hdrop : file.drop (m.pos + 1) = payload ++ rest :=
      drop_of_cons h
    have hpos := List.length_pos_iff.mpr hempty
    rw [if_pos ⟨hpos, hmax⟩,
      rar_read_of_isSome (isSome_rar_read hfile hpos (add_length_le hdrop hempty)), hdrop,
      List.take_left' rfl]
    exact ⟨_, rfl, rfl, rfl, rfl, fun _ => rfl⟩

/-- A packet of the private stream, from its length on. -/
theorem took_privatePacket (hfile : file.length < 2 ^ 31) (p : Packet) {rest : List UInt8}
    (h : file.drop m.pos = beBytes 2 p.len ++ (p.body ++ rest)) :
    Took (privatePacket file true m) (m.pos + 2 + p.len) p.aid.toNat p.payload := by
  obtain ⟨hscale, hmpeg1, hmpeg1'⟩ := mpeg2_flags p.isMpeg2
  have hbody : file.drop (m.pos + 2) = p.body ++ rest := drop_of_append h (length_beBytes 2 _)
  have hflags : file.drop (m.pos + 2) = p.flags :: (p.body.tail ++ rest) := hbody
  have hptsFlags : file.drop (m.pos + 2 + 1) = p.ptsFlags :: (p.body.tail.tail ++ rest) :=
    drop_of_cons hflags
  have hhdrlen : file.drop (m.pos + 2 + 1 + 1) =
      UInt8.ofNat p.header.length :: (p.header ++ (p.aid :: (p.payload ++ rest))) := by
    refine (drop_of_cons hptsFlags).trans ?_
    simp only [Packet.body, List.tail_cons, List.cons_append, List.append_assoc]
  have hheader : file.drop (m.pos + 2 + 1 + 1 + 1) =
      p.header ++ (p.aid :: (p.payload ++ rest)) :=
    drop_of_cons hhdrlen
  have hpayload : file.drop (m.pos + 2 + 1 + 1 + 1 + p.header.length) =
      p.aid :: (p.payload ++ rest) := drop_of_append hheader rfl
  have hle : m.pos + 2 + 1 + 1 + 1 + p.header.length + 1 ≤ file.length := by
    have hcons : file.drop (m.pos + 2 + 1 + 1 + 1 + p.header.length) =
      [p.aid] ++ (p.payload ++ rest) := hpayload
    exact add_length_le hcons (List.cons_ne_nil _ _)
  have hlen : p.len = 4 + p.header.length + p.payload.length := rfl
  have hlt : p.len < 2 ^ 16 := p.length_lt
  have hdataidx : (m.pos + 2 + 1 + 1 + 1 + (UInt8.ofNat p.header.length).toNat) % 2 ^ 32 =
      m.pos + 2 + 1 + 1 + 1 + p.header.length := by
    rw [UInt8.toNat_ofNat', Nat.mod_eq_of_lt p.header_lt, Nat.mod_eq_of_lt (by omega)]
  have hidx : (m.pos + 2) % 2 ^ 32 = m.pos + 2 := Nat.mod_eq_of_lt (by omega)
  have htook : ∀ pts, Took (readPayload file true p.len (m.pos + 2)
      { m with pos := m.pos + 2 + 1 + 1 + 1 + p.header.length, pts := pts })
      (m.pos + 2 + p.len) p.aid.toNat p.payload := by
    intro pts
    have hend : m.pos + 2 + 1 + 1 + 1 + p.header.length + 1 + p.payload.length =
        m.pos + 2 + p.len := by omega
    rw [← hend]
    exact took_readPayload hfile hpayload (by dsimp only; omega) (by dsimp only; omega) hlt
  rw [privatePacket, reading_of_drop hfile h (length_beBytes 2 _) (by decide), lenOf_beBytes hlt]
  dsimp only
  rw [getting_eq (getElem?_of_drop hflags), if_neg hscale, readHeader, if_neg hmpeg1,
    if_neg hmpeg1', if_pos p.isMpeg2, getting_eq (getElem?_of_drop hptsFlags),
    getting_eq (getElem?_of_drop hhdrlen)]
  dsimp only
  rw [hdataidx, hidx, if_neg (Nat.not_lt_of_le _), readPts]
  · split_ifs with halone
    · have hstamp := p.isStamp_of_alone halone
      have hfive : (p.header.take 5).length = 5 := List.length_take_of_le hstamp.five_le
      have hsplit : file.drop (m.pos + 2 + 1 + 1 + 1) =
          p.header.take 5 ++ (p.header.drop 5 ++ (p.aid :: (p.payload ++ rest))) := by
        rw [← List.append_assoc, List.take_append_drop, hheader]
      rw [reading_of_drop hfile hsplit hfive (by decide)]
      exact htook _
    · exact htook m.pts
  · rw [Nat.mod_eq_of_lt (by omega)]
    omega

/-- What `mpeg_run` goes on with behind a start code. -/
def started (m : Mpeg) : Mpeg := { m with aid := -1, packet_size := 0, pos := m.pos + 0 + 4 }

/-- **An element is read**: the call returns behind it, with what it has. -/
theorem mpeg_run_element (hfile : file.length < 2 ^ 31) (e : Element) {rest : List UInt8}
    (h : file.drop m.pos = e.bytes ++ rest) :
    Took (mpeg_run file true m) (m.pos + e.bytes.length) e.aid e.payload := by
  obtain ⟨c, bytes, hbytes⟩ := e.exists_start
  have hcode : file.drop m.pos = 0 :: 0 :: 1 :: c :: (bytes ++ rest) := by rw [h, hbytes]; rfl
  have hfour : file.drop m.pos = [0, 0, 1, c] ++ (bytes ++ rest) := hcode
  have hstart : (rar_read file 4 m.pos).isSome :=
    isSome_rar_read hfile (by decide) (add_length_le hfour (List.cons_ne_nil _ _))
  have hnext : file.drop (m.pos + 0 + 4) = bytes ++ rest := drop_of_append hfour rfl
  rw [mpeg_run_start hstart (firstStart_zero hcode)]
  cases e with
  | endCode =>
    obtain ⟨rfl, rfl⟩ : c = 0xb9 ∧ bytes = [] := by simpa [Element.bytes, eq_comm] using hbytes
    exact ⟨_, rfl, rfl, rfl, rfl, fun hne => absurd rfl hne⟩
  | mpeg2Pack c' content hversion hlength =>
    obtain ⟨rfl, rfl⟩ : c = 0xba ∧ bytes = c' :: content := by
      simpa [Element.bytes, eq_comm] using hbytes
    have hpack := packHeader_of_drop (m := started m) hnext
    rw [hversion] at hpack
    refine ⟨_, hpack, ?_, rfl, rfl, fun hne => absurd rfl hne⟩
    simp only [started, Element.bytes, List.length_cons, hlength]
  | mpeg1Pack c' content hversion hlength =>
    obtain ⟨rfl, rfl⟩ : c = 0xba ∧ bytes = c' :: content := by
      simpa [Element.bytes, eq_comm] using hbytes
    have hpack := packHeader_of_drop (m := started m) hnext
    rw [hversion] at hpack
    refine ⟨_, hpack, ?_, rfl, rfl, fun hne => absurd rfl hne⟩
    simp only [started, Element.bytes, List.length_cons, hlength]
  | stream id content hknown hlength =>
    obtain ⟨rfl, rfl⟩ : c = id ∧ bytes = beBytes 2 content.length ++ content := by
      simpa [Element.bytes, eq_comm] using hbytes
    rw [List.append_assoc] at hnext
    have hskipped := skippedPacket_of_drop (m := started m) hfile hnext hlength
    have hcases : ¬ c = 0xb9 ∧ ¬ c = 0xba ∧ ¬ c = 0xbd := by
      rcases hknown with rfl | ⟨hlow, -⟩
      · decide
      · exact ⟨fun h => absurd (h ▸ hlow) (by decide), fun h => absurd (h ▸ hlow) (by decide),
          fun h => absurd (h ▸ hlow) (by decide)⟩
    have hrun : (if c = 0xbe then skippedPacket file (started m)
        else if 0xc0 ≤ c ∧ c < 0xf0 then skippedPacket file (started m)
        else .error (started m)) = skippedPacket file (started m) := by
      rcases hknown with hpadding | hother
      · exact if_pos hpadding
      · rw [if_pos hother, ite_self]
    dsimp only
    rw [if_neg hcases.1, if_neg hcases.2.1, if_neg hcases.2.2]
    refine ⟨_, hrun.trans hskipped, ?_, rfl, rfl, fun hne => absurd rfl hne⟩
    simp only [started, Element.bytes, List.length_cons, List.length_append, length_beBytes]
    omega
  | packet p =>
    obtain ⟨rfl, rfl⟩ : c = 0xbd ∧ bytes = beBytes 2 p.len ++ p.body := by
      simpa [Element.bytes, Packet.bytes, eq_comm] using hbytes
    rw [List.append_assoc] at hnext
    have htook := took_privatePacket (m := started m) hfile p hnext
    have hend : (started m).pos + 2 + p.len = m.pos + (Element.packet p).bytes.length := by
      simp only [started, Element.bytes, Packet.bytes, Packet.body, Packet.len, List.length_cons,
        List.length_append, length_beBytes]
      omega
    rw [hend] at htook
    exact htook

end Took

/-! ## What is gathered -/

/-- The payload of the packets of a track, up to a packet of another one that is not empty. -/
def payloadOf (track : ℤ) : List Element → List UInt8
  | [] => []
  | e :: es =>
    if e.payload = [] then payloadOf track es
    else if isOfTrack track e.aid then e.payload ++ payloadOf track es
    else []

/-- What is missing of `a ++ b` is taken from `a` and then from `b`. -/
theorem take_min_append (a b : List UInt8) (n : ℕ) :
    a.take (min a.length n) ++ b.take (n - min a.length n) = (a ++ b).take n ∧
      n - min a.length n - b.length = n - (a ++ b).length := by
  have hlen : n - min a.length n = n - a.length := by omega
  have htake : a.take (min a.length n) = a.take n := by
    rw [Nat.min_comm, ← List.take_take, List.take_length]
  rw [hlen, htake, List.take_append, List.length_append, Nat.sub_sub]
  exact ⟨rfl, rfl⟩

section Gather

variable {file : List UInt8} {track : ℤ}

theorem rar_eof_of_drop {pos : ℕ} {e : Element} {rest : List UInt8}
    (h : file.drop pos = e.bytes ++ rest) : rar_eof file pos = false := by
  have hle := add_length_le h (List.length_pos_iff.mp e.length_pos)
  have hpos := e.length_pos
  exact decide_eq_false (by omega)

/-- **The packets behind the first one**: the payload of the track is put behind what is there, as
far as it is missing. -/
theorem gatherRest_elements (hfile : file.length < 2 ^ 31) (es : List Element) (tail : List UInt8) :
    ∀ {fuel : ℕ} {mpg : Mpeg} {rawsubdata : List UInt8} {sublen : ℕ},
      file.drop mpg.pos = es.flatMap Element.bytes ++ tail → es.length < fuel →
      (sublen ≤ (payloadOf track es).length ∨ tail = []) →
      ∃ mpg', gatherRest file track fuel mpg rawsubdata sublen =
        some (.unit (rawsubdata ++ (payloadOf track es).take sublen)
          (sublen - (payloadOf track es).length) mpg') := by
  have hnone : ∀ {fuel : ℕ} {mpg : Mpeg} {rawsubdata : List UInt8} {es : List Element}, 0 < fuel →
      gatherRest file track fuel mpg rawsubdata 0 = some (.unit
        (rawsubdata ++ (payloadOf track es).take 0) (0 - (payloadOf track es).length) mpg) := by
    intro fuel mpg rawsubdata es hfuel
    obtain ⟨fuel, rfl⟩ := Nat.exists_eq_add_one_of_ne_zero hfuel.ne'
    rw [gatherRest, decide_eq_true rfl, Bool.or_true, if_pos rfl, List.take_zero, List.append_nil,
      Nat.zero_sub]
  induction es with
  | nil =>
    intro fuel mpg rawsubdata sublen h hfuel htail
    obtain ⟨fuel, rfl⟩ := Nat.exists_eq_add_one_of_ne_zero hfuel.ne'
    rcases htail with hzero | rfl
    · obtain rfl := Nat.le_zero.mp hzero
      exact ⟨mpg, hnone (Nat.succ_pos fuel)⟩
    · have heof : rar_eof file mpg.pos = true := decide_eq_true (List.drop_eq_nil_iff.mp h)
      rw [gatherRest, heof, Bool.true_or, if_pos rfl, payloadOf, List.take_nil, List.append_nil]
      exact ⟨mpg, rfl⟩
  | cons e es ih =>
    intro fuel mpg rawsubdata sublen h hfuel htail
    obtain ⟨fuel, rfl⟩ := Nat.exists_eq_add_one_of_ne_zero (Nat.ne_zero_of_lt hfuel)
    rcases Nat.eq_zero_or_pos sublen with rfl | hpos
    · exact ⟨mpg, hnone (Nat.succ_pos fuel)⟩
    rw [List.flatMap_cons, List.append_assoc] at h
    obtain ⟨m, hrun, hplace, haid, hsize, hpacket⟩ := mpeg_run_element hfile e h
    have hdrop : file.drop m.pos = es.flatMap Element.bytes ++ tail := by
      rw [hplace]
      exact drop_of_append h rfl
    have hfuel' : es.length < fuel := Nat.lt_of_succ_lt_succ hfuel
    rw [gatherRest, rar_eof_of_drop h, decide_eq_false hpos.ne', Bool.or_self,
      if_neg Bool.false_ne_true, hrun]
    dsimp only
    rw [hsize, haid]
    by_cases hempty : e.payload = []
    · rw [payloadOf, if_pos hempty] at htail ⊢
      rw [if_pos (by rw [hempty]; rfl)]
      exact ih hdrop hfuel' htail
    rw [if_neg (fun hlen => hempty (List.length_eq_zero_iff.mp hlen))]
    by_cases hown : isOfTrack track e.aid = true
    · have hpayload : payloadOf track (e :: es) = e.payload ++ payloadOf track es := by
        rw [payloadOf, if_neg hempty, if_pos hown]
      rw [hpayload, List.length_append] at htail
      obtain ⟨mpg', hrest⟩ := @ih fuel ⟨m.pos, m.pts, e.aid, [], e.payload.length⟩
        (rawsubdata ++ m.packet.take (min e.payload.length sublen))
        (sublen - min e.payload.length sublen) hdrop hfuel' (htail.imp_left fun hle => by omega)
      obtain ⟨htake, hleft⟩ := take_min_append e.payload (payloadOf track es) sublen
      refine ⟨mpg', ?_⟩
      rw [if_pos hown, hrest, hpacket hempty, hpayload, List.append_assoc, htake, hleft]
    · rw [if_neg hown, payloadOf, if_neg hempty, if_neg hown, List.take_nil, List.append_nil]
      exact ⟨_, rfl⟩

/-- What has no payload is passed over. -/
theorem gatherUnit_skipped (hfile : file.length < 2 ^ 31) (skipped : List Element)
    (hskipped : ∀ e ∈ skipped, e.payload = []) (fuel : ℕ) {mpg : Mpeg} {rest : List UInt8}
    {e : Element} (h : file.drop mpg.pos = skipped.flatMap Element.bytes ++ (e.bytes ++ rest)) :
    ∃ mpg', file.drop mpg'.pos = e.bytes ++ rest ∧
      gatherUnit file track (skipped.length + fuel) mpg = gatherUnit file track fuel mpg' := by
  induction skipped generalizing mpg with
  | nil =>
    rw [List.length_nil, Nat.zero_add]
    exact ⟨mpg, h, rfl⟩
  | cons e' skipped ih =>
    obtain ⟨hnone, hskipped⟩ := List.forall_mem_cons.mp hskipped
    rw [List.flatMap_cons, List.append_assoc] at h
    obtain ⟨m, hrun, hplace, -, hsize, -⟩ := mpeg_run_element hfile e' h
    have hdrop : file.drop m.pos = skipped.flatMap Element.bytes ++ (e.bytes ++ rest) := by
      rw [hplace]
      exact drop_of_append h rfl
    obtain ⟨mpg', hrest, hgather⟩ := ih hskipped hdrop
    refine ⟨mpg', hrest, ?_⟩
    rw [List.length_cons, Nat.succ_add, gatherUnit, rar_eof_of_drop h, if_neg Bool.false_ne_true,
      hrun]
    dsimp only
    rw [hsize, if_pos (by rw [hnone]; rfl), hgather]

/-- **What is gathered from any elements**: if the first packet that is not empty is one of the
track, its unit gets the payload of the track behind it, up to a packet of another track. -/
theorem gatherUnit_elements (hfile : file.length < 2 ^ 31) (skipped : List Element)
    (hskipped : ∀ e ∈ skipped, e.payload = []) {e : Element} {byte0 byte1 : UInt8}
    {payload : List UInt8} (hpayload : e.payload = byte0 :: byte1 :: payload)
    (hown : isOfTrack track e.aid = true) (es : List Element) (tail : List UInt8) {fuel : ℕ}
    {mpg : Mpeg} (h : file.drop mpg.pos = (skipped ++ e :: es).flatMap Element.bytes ++ tail)
    (hfuel : (skipped ++ e :: es).length < fuel)
    (htail : byte0.toNat <<< 8 ||| byte1.toNat ≤ (payloadOf track (e :: es)).length ∨ tail = []) :
    ∃ mpg', gatherUnit file track fuel mpg = some (.unit
      ((payloadOf track (e :: es)).take (byte0.toNat <<< 8 ||| byte1.toNat))
      ((byte0.toNat <<< 8 ||| byte1.toNat) - (payloadOf track (e :: es)).length) mpg') := by
  have hempty : ¬ e.payload = [] := by
    rw [hpayload]
    exact List.cons_ne_nil _ _
  rw [List.length_append, List.length_cons] at hfuel
  obtain ⟨fuel, rfl⟩ := Nat.exists_eq_add_of_le (show skipped.length + 1 ≤ fuel by omega)
  rw [List.flatMap_append, List.flatMap_cons, List.append_assoc, List.append_assoc] at h
  obtain ⟨mpg, hrest, hgather⟩ := @gatherUnit_skipped file track hfile skipped hskipped (1 + fuel)
    mpg (es.flatMap Element.bytes ++ tail) e h
  obtain ⟨m, hrun, hplace, haid, hsize, hpacket⟩ := mpeg_run_element hfile e hrest
  have hdrop : file.drop m.pos = es.flatMap Element.bytes ++ tail := by
    rw [hplace]
    exact drop_of_append hrest rfl
  generalize hsublen : byte0.toNat <<< 8 ||| byte1.toNat = sublen at htail ⊢
  have hboth : payloadOf track (e :: es) = e.payload ++ payloadOf track es := by
    rw [payloadOf, if_neg hempty, if_pos hown]
  rw [hboth, List.length_append] at htail
  obtain ⟨mpg', hunit⟩ := @gatherRest_elements file track hfile es tail fuel
    ⟨m.pos, m.pts, e.aid, [], e.payload.length⟩ (e.payload.take (min e.payload.length sublen))
    (sublen - min e.payload.length sublen) hdrop (by omega) (htail.imp_left fun hle => by omega)
  obtain ⟨htake, hleft⟩ := take_min_append e.payload (payloadOf track es) sublen
  refine ⟨mpg', ?_⟩
  rw [Nat.add_assoc, hgather, Nat.add_comm 1 fuel, gatherUnit, rar_eof_of_drop hrest,
    if_neg Bool.false_ne_true, hrun]
  dsimp only
  rw [hsize, haid, if_neg (fun hlen => hempty (List.length_eq_zero_iff.mp hlen)), if_pos hown,
    hpacket hempty, hpayload]
  dsimp only
  rw [hsublen, ← hpayload, hunit, hboth, htake, hleft]

end Gather

/-! ## Files of units -/

/-- A unit of a track: its bytes, of which the first two tell how many there are, are cut into
packets of the track, and other things are passed over between these. -/
structure SubUnit where
  track : ℕ
  elements : List Element
  track_lt : track < 32
  own : ∀ e ∈ elements, e.payload ≠ [] → e.aid = 0x20 + track
  first : ∀ payload ∈ (elements.map Element.payload).find? (· ≠ []), 2 ≤ payload.length
  sized : (elements.flatMap Element.payload).take 2 =
    beBytes 2 (elements.flatMap Element.payload).length
  length_lt : (elements.flatMap Element.payload).length < 2 ^ 16

namespace SubUnit

/-- The bytes that are cut into packets. -/
def data (u : SubUnit) : List UInt8 := u.elements.flatMap Element.payload

/-- The bytes of the file. -/
def bytes (u : SubUnit) : List UInt8 := u.elements.flatMap Element.bytes

end SubUnit

/-- The id of a substream tells its track. -/
theorem isOfTrack_iff {track : ℕ} (h : track < 32) (mSelectedTrackId : ℤ) :
    isOfTrack mSelectedTrackId (0x20 + track) = true ↔ mSelectedTrackId = track := by
  have hid : ∀ t < 32, (asUnsigned 32 (0x20 + (t : ℕ)) &&& 0xe0) = 0x20 ∧
      (asUnsigned 32 (0x20 + (t : ℕ)) &&& 0x1f) = t := by decide +kernel
  obtain ⟨hhigh, hlow⟩ := hid track h
  rw [isOfTrack, hhigh, hlow, decide_eq_true rfl, Bool.true_and, decide_eq_true_eq, eq_comm]

/-- The first element that has a payload. -/
theorem exists_first {es : List Element} (h : es.flatMap Element.payload ≠ []) :
    ∃ skipped e rest, es = skipped ++ e :: rest ∧ (∀ e' ∈ skipped, e'.payload = []) ∧
      e.payload ≠ [] ∧ (es.map Element.payload).find? (· ≠ []) = some e.payload := by
  induction es with
  | nil => exact absurd rfl h
  | cons e es ih =>
    by_cases hempty : e.payload = []
    · rw [List.flatMap_cons, hempty, List.nil_append] at h
      obtain ⟨skipped, e', rest, rfl, hskipped, hne, hfind⟩ := ih h
      refine ⟨e :: skipped, e', rest, rfl, List.forall_mem_cons.mpr ⟨hempty, hskipped⟩, hne, ?_⟩
      rw [List.map_cons, List.find?_cons_of_neg, hfind]
      rw [hempty]
      decide
    · refine ⟨[], e, es, rfl, fun _ h => absurd h List.not_mem_nil, hempty, ?_⟩
      rw [List.map_cons, List.find?_cons_of_pos]
      exact decide_eq_true hempty

/-- All packets of a unit are of its track. -/
theorem payloadOf_own {track : ℤ} {es : List Element}
    (h : ∀ e ∈ es, e.payload ≠ [] → isOfTrack track e.aid = true) :
    payloadOf track es = es.flatMap Element.payload := by
  induction es with
  | nil => rfl
  | cons e es ih =>
    obtain ⟨he, hes⟩ := List.forall_mem_cons.mp h
    rw [payloadOf, List.flatMap_cons, ih hes]
    by_cases hempty : e.payload = []
    · rw [if_pos hempty, hempty, List.nil_append]
    · rw [if_neg hempty, if_pos (he hempty)]

section Units

variable {file : List UInt8}

/-- The first packet of a unit, which tells how many bytes there are. -/
theorem SubUnit.exists_head (u : SubUnit) : ∃ skipped e rest byte0 byte1 payload,
    u.elements = skipped ++ e :: rest ∧ (∀ e' ∈ skipped, e'.payload = []) ∧
      e.payload = byte0 :: byte1 :: payload ∧ byte0.toNat <<< 8 ||| byte1.toNat = u.data.length ∧
      u.data = (e :: rest).flatMap Element.payload ∧ e.aid = 0x20 + u.track := by
  have hne : u.elements.flatMap Element.payload ≠ [] := by
    intro hnil
    have hlength := congrArg List.length u.sized
    rw [hnil, length_beBytes] at hlength
    exact absurd hlength (by decide)
  obtain ⟨skipped, e, rest, hes, hskipped, hempty, hfind⟩ := exists_first hne
  have htwo := u.first e.payload hfind
  obtain ⟨byte0, byte1, payload, hpayload⟩ : ∃ byte0 byte1 payload,
      e.payload = byte0 :: byte1 :: payload := by
    generalize e.payload = bytes at htwo
    rcases bytes with _ | ⟨byte0, _ | ⟨byte1, payload⟩⟩
    · exact absurd htwo (Nat.not_succ_le_zero 1)
    · exact absurd htwo (Nat.not_succ_le_self 1)
    · exact ⟨byte0, byte1, payload, rfl⟩
  have hdata : u.data = (e :: rest).flatMap Element.payload := by
    have hnil : skipped.flatMap Element.payload = [] := List.flatMap_eq_nil_iff.mpr hskipped
    rw [SubUnit.data, hes, List.flatMap_append, hnil, List.nil_append]
  have htake : beBytes 2 u.data.length = [byte0, byte1] := by
    have hsized : u.data.take 2 = beBytes 2 u.data.length := u.sized
    rw [← hsized, hdata, List.flatMap_cons, hpayload]
    rfl
  have hlen := lenOf_beBytes u.length_lt
  rw [show u.elements.flatMap Element.payload = u.data from rfl, htake] at hlen
  have hmem : e ∈ u.elements := hes ▸ List.mem_append_right _ List.mem_cons_self
  exact ⟨skipped, e, rest, byte0, byte1, payload, hes, hskipped, hpayload, hlen, hdata,
    u.own e hmem hempty⟩

/-- **A unit is gathered at its place.** -/
theorem gatherUnit_unit (hfile : file.length < 2 ^ 31) (u : SubUnit) {tail : List UInt8} {fuel : ℕ}
    {mpg : Mpeg} (h : file.drop mpg.pos = u.bytes ++ tail) (hfuel : u.elements.length < fuel) :
    ∃ mpg', gatherUnit file u.track fuel mpg = some (.unit u.data 0 mpg') := by
  obtain ⟨skipped, e, rest, byte0, byte1, payload, hes, hskipped, hpayload, hlen, hdata, haid⟩ :=
    u.exists_head
  have hown : ∀ e' ∈ u.elements, e'.payload ≠ [] → isOfTrack u.track e'.aid = true := by
    intro e' he' hne
    rw [u.own e' he' hne]
    exact (isOfTrack_iff u.track_lt u.track).mpr rfl
  have hpayloadOf : payloadOf u.track (e :: rest) = u.data := by
    rw [hdata]
    refine payloadOf_own fun e' he' => hown e' ?_
    rw [hes]
    exact List.mem_append_right _ he'
  have heq := hown e (hes ▸ List.mem_append_right _ List.mem_cons_self)
    (hpayload ▸ List.cons_ne_nil _ _)
  rw [SubUnit.bytes, hes] at h
  rw [hes] at hfuel
  obtain ⟨mpg', hgather⟩ := gatherUnit_elements hfile skipped hskipped hpayload heq rest tail h
    hfuel (.inl (by rw [hlen, hpayloadOf]))
  rw [hlen, hpayloadOf, List.take_length, Nat.sub_self] at hgather
  exact ⟨mpg', hgather⟩

/-- The unit of another track is none. -/
theorem gatherUnit_other (hfile : file.length < 2 ^ 31) (u : SubUnit) {mSelectedTrackId : ℤ}
    (hother : mSelectedTrackId ≠ u.track) {tail : List UInt8} {fuel : ℕ} {mpg : Mpeg}
    (h : file.drop mpg.pos = u.bytes ++ tail) (hfuel : u.elements.length < fuel) :
    ∃ mpg', gatherUnit file mSelectedTrackId fuel mpg = some (.nothing mpg') := by
  obtain ⟨skipped, e, rest, byte0, byte1, payload, hes, hskipped, hpayload, -, -, haid⟩ :=
    u.exists_head
  have hnot : ¬ isOfTrack mSelectedTrackId e.aid = true := by
    rw [haid, isOfTrack_iff u.track_lt]
    exact hother
  rw [SubUnit.bytes, hes] at h
  rw [hes] at hfuel
  rw [List.length_append, List.length_cons] at hfuel
  obtain ⟨fuel, rfl⟩ := Nat.exists_eq_add_of_le (show skipped.length + 1 ≤ fuel by omega)
  rw [List.flatMap_append, List.flatMap_cons, List.append_assoc, List.append_assoc] at h
  obtain ⟨mpg, hrest, hgather⟩ := @gatherUnit_skipped file mSelectedTrackId hfile skipped hskipped
    (1 + fuel) mpg (rest.flatMap Element.bytes ++ tail) e h
  obtain ⟨m, hrun, -, hid, hsize, -⟩ := mpeg_run_element hfile e hrest
  rw [Nat.add_assoc, hgather, Nat.add_comm 1 fuel, gatherUnit, rar_eof_of_drop hrest,
    if_neg Bool.false_ne_true, hrun]
  dsimp only
  rw [hsize, hid, if_neg (by rw [hpayload]; exact Nat.succ_ne_zero _), if_neg hnot]
  exact ⟨_, rfl⟩

theorem SubUnit.length_elements_le (u : SubUnit) : u.elements.length ≤ u.bytes.length := by
  rw [SubUnit.bytes]
  induction u.elements with
  | nil => exact Nat.zero_le _
  | cons e es ih =>
    have hpos := e.length_pos
    rw [List.flatMap_cons, List.length_append, List.length_cons]
    omega

end Units

/-- **Each unit of a file is drawn from its place**, however it is cut into packets and whatever is
passed over between these, and no unit of another track is. -/
theorem genSubBitmap_unit {units before after : List SubUnit} {u : SubUnit}
    (hunits : units = before ++ u :: after) {tail : List UInt8} {file : List UInt8}
    (hfile : file = units.flatMap SubUnit.bytes ++ tail) (hsmall : file.length < 2 ^ 31)
    (mSelectedTrackId : ℤ) (palette : ℤ → ℕ) (mOrigFrame video : ℕ × ℕ) (junk : Source) {fuel : ℕ}
    (hfuel : file.length < fuel) (mpg : Mpeg) (pts : ℤ) :
    genSubBitmap file mSelectedTrackId palette mOrigFrame video junk fuel mpg pts
        (before.flatMap SubUnit.bytes).length =
      if mSelectedTrackId = u.track then
        renderUnit palette mOrigFrame video pts (behind u.data junk) fuel
      else some none := by
  have hdrop : file.drop (before.flatMap SubUnit.bytes).length =
      u.bytes ++ (after.flatMap SubUnit.bytes ++ tail) := by
    rw [hfile, hunits, List.flatMap_append, List.flatMap_cons, List.append_assoc,
      List.drop_left' rfl, List.append_assoc]
  have hlength : u.bytes.length ≤ file.length := by
    rw [hfile, hunits, List.flatMap_append, List.flatMap_cons]
    simp only [List.length_append]
    omega
  have hfuel' : u.elements.length < fuel := by
    have hle := u.length_elements_le
    omega
  rw [genSubBitmap, if_neg (Int.not_lt.mpr (Int.natCast_nonneg _)), Int.toNat_natCast]
  by_cases hown : mSelectedTrackId = u.track
  · obtain ⟨mpg', hgather⟩ := @gatherUnit_unit file hsmall u (after.flatMap SubUnit.bytes ++ tail)
      fuel { mpg with pos := (before.flatMap SubUnit.bytes).length } hdrop hfuel'
    rw [hown, if_pos rfl, hgather]
  · obtain ⟨mpg', hgather⟩ := @gatherUnit_other file hsmall u mSelectedTrackId hown
      (after.flatMap SubUnit.bytes ++ tail) fuel
      { mpg with pos := (before.flatMap SubUnit.bytes).length } hdrop hfuel'
    rw [if_neg hown, hgather]

/-- A packet with no time stamp. -/
def plainPacket (aid : UInt8) (payload : List UInt8) (h : payload.length < 2 ^ 15) : Packet where
  flags := 0x80
  ptsFlags := 0
  header := []
  aid := aid
  payload := payload
  isMpeg2 := rfl
  stamped := .inl rfl
  header_lt := by decide
  length_lt := by
    rw [List.length_nil]
    omega

/-- A unit of track 0 with no commands. -/
def emptyUnit : SubUnit where
  track := 0
  elements := [.packet (plainPacket 0x20 [0, 4, 0, 0] (by decide))]
  track_lt := by decide
  own := fun e he _ => List.eq_of_mem_singleton he ▸ rfl
  first := by decide
  sized := rfl
  length_lt := by decide

/-- A unit of track 1 with a picture of eight columns and two lines, cut behind three bytes. -/
def twoLines : SubUnit where
  track := 1
  elements := [.packet (plainPacket 0x21 [0, 31, 0] (by decide)),
    .mpeg2Pack 0x44 [0, 4, 0, 4, 1, 1, 0x89, 0xc3, 0xf8] (by decide) rfl, .endCode,
    .packet (plainPacket 0x21 [8, 0, 1, 0, 2, 0, 0, 0, 8, 3, 0x32, 0x10, 4, 0xff, 0xf0,
      5, 0, 0, 7, 0, 0, 1, 6, 0, 4, 0, 6, 0xff] (by decide))]
  track_lt := by decide
  own := by
    intro e he hne
    simp only [List.mem_cons, List.not_mem_nil, or_false] at he
    rcases he with rfl | rfl | rfl | rfl
    · rfl
    · exact absurd rfl hne
    · exact absurd rfl hne
    · rfl
  first := by decide
  sized := rfl
  length_lt := by decide

end VobSub
end AmlSubtitle
