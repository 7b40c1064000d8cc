import AmlSubtitle.Parser.DvdControl

/-!
# `parser/ExtParser/VobSubIndex.cpp`: the commands of a subtitle packet

`do_vob_sub_cmd` passes over the commands of a packet, and `doDCSQC` over the sequences behind
them.  The packet is a `Source`, and the bytes of it that were allocated are its first `size`.

* `doDCSQC`, `CommandID` and the lengths of the parameters are those of the DVD parser.
* `Sequences` and `Commands`: the packets whose commands lie in these bytes, as far as they are
  read.
* `do_vob_sub_cmd_inside_iff`: these are the ones that are read inside, with whatever is asked of
  the fields that they set.
-/

namespace AmlSubtitle
namespace VobSub

open Dvb (Source)
open AmlSubtitle.Dvd (CommandID Inside parameter areaStart parameterReads spuCmdNext dcsqcCommand
  dcsqcLoop doDCSQC inside_append inside_range' inside_singleton)
open Words

/-! ## `do_vob_sub_cmd` -/

/-- The fields of `VOB_SPUVAR` that a packet sets. -/
structure VobSpu where
  spuColor : ℕ := 0
  spuAlpha : ℕ := 0
  spuStartX : ℕ := 0
  spuStartY : ℕ := 0
  spuWidth : ℕ := 0
  spuHeight : ℕ := 0
  topPxdAddr : ℕ := 0
  bottomPxdAddr : ℕ := 0
  displayPending : ℕ := 0
  deriving DecidableEq, Repr

def SUCCESS : ℤ := 1

def FAIL : ℤ := 0

/-- The last place of a `SET_DAREA`, from three bytes. -/
def areaLast (data : Source) (p : ℕ) : ℕ :=
  ((data (p + 1)).toNat &&& 0x07) <<< 8 ||| (data (p + 2)).toNat

/-- The size of a `SET_DAREA`, an `unsigned short` that nothing cuts off. -/
def areaExtent (data : Source) (p : ℕ) : ℕ :=
  asUnsigned 16 ((areaLast data p : ℤ) - areaStart data p + 1)

/-- What a command sets; its parameters are from `p` on. -/
def setCommand (data : Source) (spu : VobSpu) (p : ℕ) : CommandID → VobSpu
  | .FSTA_DSP => { spu with displayPending := 2 }
  | .STA_DSP => { spu with displayPending := 1 }
  | .STP_DSP => { spu with displayPending := 0 }
  | .SET_COLOR => { spu with spuColor := parameter data p }
  | .SET_CONTR => { spu with spuAlpha := parameter data p }
  | .SET_DAREA =>
    { spu with
      spuStartX := areaStart data p
      spuWidth := areaExtent data p
      spuStartY := areaStart data (p + 3)
      spuHeight := areaExtent data (p + 3) }
  | .SET_DSPXA =>
    { spu with topPxdAddr := parameter data p, bottomPxdAddr := parameter data (p + 2) }
  | .CHG_COLCON => spu
  | .CMD_END => spu

/-- What `do_vob_sub_cmd` sets and returns, if it does, and what it has read. -/
structure CmdResult where
  spu : VobSpu
  ret : Option ℤ
  duration : ℕ := 0
  reads : List ℕ

/-- The end of the commands: the time that the sequences behind them take. -/
def cmdEnd (data : Source) (fuel m_SubPicSize : ℕ) (spu : VobSpu) (pCmdData : ℕ) : CmdResult :=
  if pCmdData + 6 ≤ m_SubPicSize then
    let sequences := doDCSQC data (m_SubPicSize - 6) fuel pCmdData
    { spu := spu
      ret := sequences.delay.map fun _ => SUCCESS
      duration := sequences.delay.getD 0 * 1024
      reads := sequences.reads }
  else
    { spu := spu, ret := some SUCCESS, reads := [] }

/-- The loop over the commands, of at most `steps` passes. -/
def cmdLoop (data : Source) (fuel m_SubPicSize : ℕ) : ℕ → VobSpu → ℕ → CmdResult
  | 0, spu, _ => { spu := spu, ret := some FAIL, reads := [] }
  | steps + 1, spu, pCmdData =>
    if pCmdData < m_SubPicSize then
      match CommandID.ofByte (data pCmdData) with
      | none => { spu := spu, ret := some FAIL, reads := [pCmdData] }
      | some command =>
        let next := spuCmdNext data pCmdData command
        let rest :=
          if command = .CMD_END then
            cmdEnd data fuel m_SubPicSize spu next
          else
            cmdLoop data fuel m_SubPicSize steps (setCommand data spu (pCmdData + 1) command) next
        { rest with reads := List.range' pCmdData (1 + parameterReads command) ++ rest.reads }
    else
      { spu := spu, ret := some FAIL, reads := [] }

def m_SubPicSize (data : Source) : ℕ := (data 0).toNat <<< 8 ||| (data 1).toNat

def m_OffsetToCmd (data : Source) : ℕ := (data 2).toNat <<< 8 ||| (data 3).toNat

/-- `do_vob_sub_cmd`.  Each pass goes on, so that there are no more than the packet has bytes. -/
def do_vob_sub_cmd (data : Source) (fuel : ℕ) (spu : VobSpu) : CmdResult :=
  let rest :=
    if m_SubPicSize data ≤ m_OffsetToCmd data then
      { spu := spu, ret := some FAIL, reads := [] }
    else
      cmdLoop data fuel (m_SubPicSize data) (m_SubPicSize data) spu (m_OffsetToCmd data + 4)
  { rest with reads := [0, 1, 2, 3] ++ rest.reads }

/-! ## The sequences of `doDCSQC` -/

/-- The commands of a sequence from `p` on are read inside, up to the end of it at `q`. -/
inductive Passed (data : Source) (size pend : ℕ) : ℕ → Bool → ℕ → Bool → Prop where
  | unknown {p stoped} (hp : p < size) (hcommand : CommandID.ofByte (data p) = none) :
      Passed data size pend p stoped pend stoped
  | last {p stoped} (hp : p < size) (hcommand : CommandID.ofByte (data p) = some .CMD_END) :
      Passed data size pend p stoped (p + 1) stoped
  | command {p stoped command q st} (hcommand : CommandID.ofByte (data p) = some command)
      (hend : command ≠ .CMD_END)
      (hreads : Inside 0 size (dcsqcCommand data pend p (some command)).1)
      (hrest : Passed data size pend (dcsqcCommand data pend p (some command)).2
        (stoped || command = .STP_DSP) q st) : Passed data size pend p stoped q st

/-- The sequences from `p` on are read inside: a header, commands, and what stands behind them
if none of them stops the display. -/
inductive Sequences (data : Source) (size pend : ℕ) : ℕ → Prop where
  | sequence {p q st} (hheader : p + 4 ≤ size)
      (hpassed : Passed data size pend (p + 4) false q st)
      (hrest : q < pend → st = false → Sequences data size pend q) : Sequences data size pend p

section Sequences

variable {data : Source} {size pend p q : ℕ} {stoped st : Bool}

/-- A command is passed over. -/
theorem lt_dcsqcCommand (data : Source) (pend p : ℕ) (command : CommandID) :
    p < (dcsqcCommand data pend p (some command)).2 := by
  cases command <;> simp only [dcsqcCommand] <;> omega

/-- A command is read where it stands. -/
theorem mem_dcsqcCommand (data : Source) (pend p : ℕ) (command : CommandID) :
    p ∈ (dcsqcCommand data pend p (some command)).1 := by
  cases command <;> simp [dcsqcCommand]

theorem Passed.lt (h : Passed data size pend p stoped q st) : p < size ∧ (p < q ∨ q = pend) := by
  induction h with
  | unknown hp => exact ⟨hp, .inr rfl⟩
  | last hp => exact ⟨hp, .inl (Nat.lt_succ_self _)⟩
  | @command p stoped command q st hcommand hend hreads hrest ih =>
    have hnext := lt_dcsqcCommand data pend p command
    exact ⟨(hreads p (mem_dcsqcCommand data pend p command)).2, ih.2.imp_left hnext.trans⟩

/-- The loop over commands that are read inside. -/
theorem Passed.inside (h : Passed data size pend p stoped q st) (fuel : ℕ) :
    Inside 0 size (dcsqcLoop data pend fuel p stoped).reads ∧
      ∀ finish ∈ (dcsqcLoop data pend fuel p stoped).finish, finish = (q, st) := by
  induction h generalizing fuel with
  | unknown hp hcommand =>
    cases fuel with
    | zero => simp [dcsqcLoop, Inside]
    | succ fuel =>
      rw [Dvd.dcsqcLoop_unknown pend hcommand]
      exact ⟨inside_singleton (Nat.zero_le _) hp, fun _ hfinish => (Option.some.inj hfinish).symm⟩
  | last hp hcommand =>
    cases fuel with
    | zero => simp [dcsqcLoop, Inside]
    | succ fuel =>
      rw [Dvd.dcsqcLoop_end pend hcommand]
      exact ⟨inside_singleton (Nat.zero_le _) hp, fun _ hfinish => (Option.some.inj hfinish).symm⟩
  | command hcommand hend hreads hrest ih =>
    cases fuel with
    | zero => simp [dcsqcLoop, Inside]
    | succ fuel =>
      rw [Dvd.dcsqcLoop_command pend hend hcommand]
      exact ⟨inside_append.mpr ⟨hreads, (ih fuel).1⟩, (ih fuel).2⟩

/-- With enough fuel the loop comes to its end. -/
theorem Passed.finish (h : Passed data size pend p stoped q st) :
    ∃ n, ∀ fuel ≥ n, (dcsqcLoop data pend fuel p stoped).finish = some (q, st) := by
  induction h with
  | unknown hp hcommand =>
    refine ⟨1, fun fuel hfuel => ?_⟩
    obtain ⟨fuel, rfl⟩ : ∃ k, fuel = k + 1 := ⟨fuel - 1, by omega⟩
    rw [Dvd.dcsqcLoop_unknown pend hcommand]
  | last hp hcommand =>
    refine ⟨1, fun fuel hfuel => ?_⟩
    obtain ⟨fuel, rfl⟩ : ∃ k, fuel = k + 1 := ⟨fuel - 1, by omega⟩
    rw [Dvd.dcsqcLoop_end pend hcommand]
  | command hcommand hend hreads hrest ih =>
    obtain ⟨n, hn⟩ := ih
    refine ⟨n + 1, fun fuel hfuel => ?_⟩
    obtain ⟨fuel, rfl⟩ : ∃ k, fuel = k + 1 := ⟨fuel - 1, by omega⟩
    rw [Dvd.dcsqcLoop_command pend hend hcommand]
    exact hn fuel (by omega)

/-- Commands that are read inside come to an end. -/
theorem exists_passed
    (h : ∃ n, ∀ fuel ≥ n, Inside 0 size (dcsqcLoop data pend fuel p stoped).reads) :
    ∃ q st, Passed data size pend p stoped q st := by
  induction hleft : size - p using Nat.strong_induction_on generalizing p stoped with
  | _ left ih =>
    obtain ⟨n, hn⟩ := h
    cases hcommand : CommandID.ofByte (data p) with
    | none =>
      have hreads := hn (n + 1) (Nat.le_succ n)
      rw [Dvd.dcsqcLoop_unknown pend hcommand] at hreads
      exact ⟨pend, stoped, .unknown (hreads p (by simp)).2 hcommand⟩
    | some command =>
      by_cases hend : command = .CMD_END
      · subst hend
        have hreads := hn (n + 1) (Nat.le_succ n)
        rw [Dvd.dcsqcLoop_end pend hcommand] at hreads
        exact ⟨p + 1, stoped, .last (hreads p (by simp)).2 hcommand⟩
      · have hloop : ∀ fuel ≥ n, Inside 0 size (dcsqcCommand data pend p (some command)).1 ∧
            Inside 0 size (dcsqcLoop data pend fuel (dcsqcCommand data pend p (some command)).2
              (stoped || command = .STP_DSP)).reads := by
          intro fuel hfuel
          have hreads := hn (fuel + 1) (by omega)
          rw [Dvd.dcsqcLoop_command pend hend hcommand] at hreads
          exact inside_append.mp hreads
        have hreads := (hloop n le_rfl).1
        have hp := (hreads p (mem_dcsqcCommand data pend p command)).2
        have hnext := lt_dcsqcCommand data pend p command
        obtain ⟨q, st, hpassed⟩ := ih (size - (dcsqcCommand data pend p (some command)).2)
          (by omega) ⟨n, fun fuel hfuel => (hloop fuel hfuel).2⟩ rfl
        exact ⟨q, st, .command hcommand hend hreads hpassed⟩

/-- What `doDCSQC` reads: a header, a loop, and what the next call reads. -/
theorem inside_doDCSQC_succ_iff {fuel : ℕ} :
    Inside 0 size (doDCSQC data pend (fuel + 1) p).reads ↔
      p + 4 ≤ size ∧ Inside 0 size (dcsqcLoop data pend fuel (p + 4) false).reads ∧
        ∀ q, (dcsqcLoop data pend fuel (p + 4) false).finish = some (q, false) → q < pend →
          Inside 0 size (doDCSQC data pend fuel q).reads := by
  have hheader : Inside 0 size [p, p + 1, p + 2, p + 3] ↔ p + 4 ≤ size :=
    @inside_range' 0 size 3 p (Nat.zero_le p)
  rw [doDCSQC]
  dsimp only
  cases hfinish : (dcsqcLoop data pend fuel (p + 4) false).finish with
  | none =>
    dsimp only
    rw [inside_append, hheader]
    simp
  | some finish =>
    obtain ⟨q, st⟩ := finish
    dsimp only
    by_cases hmore : q < pend ∧ st = false
    · rw [if_pos hmore, inside_append, inside_append, hheader, and_assoc]
      simp [hmore]
    · rw [if_neg hmore, inside_append, hheader]
      refine and_congr_right fun _ => (and_iff_left fun q' hq' hlt => absurd ?_ hmore).symm
      obtain ⟨rfl, rfl⟩ := Prod.mk.inj (Option.some.inj hq')
      exact ⟨hlt, rfl⟩

theorem Sequences.inside (h : Sequences data size pend p) (fuel : ℕ) :
    Inside 0 size (doDCSQC data pend fuel p).reads := by
  induction h generalizing fuel with
  | sequence hheader hpassed hrest ih =>
    cases fuel with
    | zero => simp [doDCSQC, Inside]
    | succ fuel =>
      obtain ⟨hreads, hfinish⟩ := hpassed.inside fuel
      refine inside_doDCSQC_succ_iff.mpr ⟨hheader, hreads, fun q hq hlt => ?_⟩
      obtain ⟨rfl, rfl⟩ := Prod.mk.inj (hfinish _ hq)
      exact ih hlt rfl fuel

/-- With enough fuel `doDCSQC` returns. -/
theorem Sequences.returns (h : Sequences data size pend p) :
    ∃ n, ∀ fuel ≥ n, (doDCSQC data pend fuel p).delay ≠ none := by
  induction h with
  | @sequence p q st hheader hpassed hrest ih =>
    obtain ⟨n, hn⟩ := hpassed.finish
    by_cases hmore : q < pend ∧ st = false
    · obtain ⟨n', hn'⟩ := ih hmore.1 hmore.2
      refine ⟨max n n' + 1, fun fuel hfuel => ?_⟩
      obtain ⟨fuel, rfl⟩ : ∃ k, fuel = k + 1 := ⟨fuel - 1, by omega⟩
      rw [doDCSQC, hn fuel (by omega)]
      dsimp only
      rw [if_pos hmore]
      simpa using hn' fuel (by omega)
    · refine ⟨n + 1, fun fuel hfuel => ?_⟩
      obtain ⟨fuel, rfl⟩ : ∃ k, fuel = k + 1 := ⟨fuel - 1, by omega⟩
      rw [doDCSQC, hn fuel (by omega)]
      dsimp only
      rw [if_neg hmore]
      exact Option.some_ne_none _

/-- Sequences that are read inside come to an end. -/
theorem sequences_of_inside
    (h : ∃ n, ∀ fuel ≥ n, Inside 0 size (doDCSQC data pend fuel p).reads) :
    Sequences data size pend p := by
  induction hleft : size - p using Nat.strong_induction_on generalizing p with
  | _ left ih =>
    obtain ⟨n, hn⟩ := h
    have hcall := fun fuel (hfuel : fuel ≥ n) =>
      inside_doDCSQC_succ_iff.mp (hn (fuel + 1) (Nat.le_succ_of_le hfuel))
    obtain ⟨q, st, hpassed⟩ := exists_passed ⟨n, fun fuel hfuel => (hcall fuel hfuel).2.1⟩
    have hheader := (hcall n le_rfl).1
    refine .sequence hheader hpassed fun hlt hst => ?_
    obtain ⟨n', hn'⟩ := hpassed.finish
    have hq : p < q := by
      have hcases := hpassed.lt.2
      omega
    refine ih (size - q) (by omega) ⟨max n n', fun fuel hfuel => ?_⟩ rfl
    exact (hcall fuel (by omega)).2.2 q (hst ▸ hn' fuel (by omega)) hlt

theorem sequences_iff : (∀ fuel, Inside 0 size (doDCSQC data pend fuel p).reads) ↔
    Sequences data size pend p :=
  ⟨fun h => sequences_of_inside ⟨0, fun fuel _ => h fuel⟩, Sequences.inside⟩

end Sequences

/-! ## The commands of a packet -/

/-- The commands from `p` on are read inside, and so are the sequences behind them; what they have
set fits when they come to their end. -/
inductive Commands (data : Source) (size : ℕ) (Fits : VobSpu → Prop) : VobSpu → ℕ → Prop where
  | past {spu p} (hp : m_SubPicSize data ≤ p) : Commands data size Fits spu p
  | unknown {spu p} (hp : p < m_SubPicSize data) (hin : p < size)
      (hcommand : CommandID.ofByte (data p) = none) : Commands data size Fits spu p
  | command {spu p command} (hp : p < m_SubPicSize data)
      (hcommand : CommandID.ofByte (data p) = some command) (hend : command ≠ .CMD_END)
      (hin : p + 1 + parameterReads command ≤ size)
      (hrest : Commands data size Fits (setCommand data spu (p + 1) command)
        (spuCmdNext data p command)) : Commands data size Fits spu p
  | last {spu p} (hp : p < m_SubPicSize data) (hin : p < size)
      (hcommand : CommandID.ofByte (data p) = some .CMD_END)
      (hrest : p + 7 ≤ m_SubPicSize data → Sequences data size (m_SubPicSize data - 6) (p + 1))
      (hfits : Fits spu) : Commands data size Fits spu p

/-- The commands of a packet, with its first four bytes. -/
def Admits (data : Source) (size : ℕ) (Fits : VobSpu → Prop) (spu : VobSpu) : Prop :=
  4 ≤ size ∧ (m_OffsetToCmd data < m_SubPicSize data →
    Commands data size Fits spu (m_OffsetToCmd data + 4))

/-- A run reads inside, and what it has set fits if it returns `SUCCESS`. -/
def CmdResult.Good (size : ℕ) (Fits : VobSpu → Prop) (r : CmdResult) : Prop :=
  Inside 0 size r.reads ∧ (r.ret = some SUCCESS → Fits r.spu)

section Commands

variable {data : Source} {size p steps : ℕ} {Fits : VobSpu → Prop} {spu : VobSpu}

theorem success_ne_fail : some SUCCESS ≠ some FAIL := by decide

/-- A run that fails. -/
theorem good_fail {reads : List ℕ} : (CmdResult.mk spu (some FAIL) 0 reads).Good size Fits ↔
    Inside 0 size reads :=
  and_iff_left fun h => absurd h.symm success_ne_fail

/-- A run behind a command. -/
theorem good_append {reads : List ℕ} {r : CmdResult} :
    ({ r with reads := reads ++ r.reads } : CmdResult).Good size Fits ↔
      Inside 0 size reads ∧ r.Good size Fits := by
  rw [CmdResult.Good, CmdResult.Good, inside_append, and_assoc]

/-- The end of the commands. -/
theorem good_cmdEnd_iff : (∀ fuel, (cmdEnd data fuel (m_SubPicSize data) spu p).Good size Fits) ↔
    (p + 6 ≤ m_SubPicSize data → Sequences data size (m_SubPicSize data - 6) p) ∧ Fits spu := by
  by_cases hmore : p + 6 ≤ m_SubPicSize data
  · simp only [cmdEnd, CmdResult.Good, hmore, true_imp_iff]
    constructor
    · intro h
      have hsequences := sequences_iff.mp fun fuel => (h fuel).1
      obtain ⟨n, hn⟩ := hsequences.returns
      obtain ⟨delay, hdelay⟩ := Option.ne_none_iff_exists'.mp (hn n le_rfl)
      exact ⟨hsequences, (h n).2 (by rw [hdelay]; rfl)⟩
    · rintro ⟨hsequences, hfits⟩ fuel
      exact ⟨hsequences.inside fuel, fun _ => hfits⟩
  · simp [cmdEnd, hmore, CmdResult.Good, Inside]

/-- The end of the commands, in front of the sequences. -/
theorem commands_end_iff (hp : p < m_SubPicSize data)
    (hcommand : CommandID.ofByte (data p) = some .CMD_END) :
    Commands data size Fits spu p ↔ p < size ∧
      (p + 7 ≤ m_SubPicSize data → Sequences data size (m_SubPicSize data - 6) (p + 1)) ∧
        Fits spu := by
  constructor
  · intro h
    cases h with
    | past hp' => omega
    | unknown _ _ hcommand' => simp [hcommand] at hcommand'
    | command _ hcommand' hend =>
      exact absurd (Option.some.inj (hcommand'.symm.trans hcommand)) hend
    | last _ hin _ hrest hfits => exact ⟨hin, hrest, hfits⟩
  · rintro ⟨hin, hrest, hfits⟩
    exact .last hp hin hcommand hrest hfits

/-- A command in front of others. -/
theorem commands_command_iff (hp : p < m_SubPicSize data) {command : CommandID}
    (hend : command ≠ .CMD_END) (hcommand : CommandID.ofByte (data p) = some command) :
    Commands data size Fits spu p ↔ p + 1 + parameterReads command ≤ size ∧
      Commands data size Fits (setCommand data spu (p + 1) command)
        (spuCmdNext data p command) := by
  constructor
  · intro h
    cases h with
    | past hp' => omega
    | unknown _ _ hcommand' => simp [hcommand] at hcommand'
    | command _ hcommand' _ hin hrest =>
      obtain rfl := Option.some.inj (hcommand.symm.trans hcommand')
      exact ⟨hin, hrest⟩
    | last _ _ hcommand' => exact absurd (Option.some.inj (hcommand.symm.trans hcommand')) hend
  · rintro ⟨hin, hrest⟩
    exact .command hp hcommand hend hin hrest

theorem lt_spuCmdNext (data : Source) (p : ℕ) (command : CommandID) :
    p < spuCmdNext data p command := by
  cases command <;> simp only [spuCmdNext] <;> omega

/-- The loop over the commands. -/
theorem good_cmdLoop_iff (hsteps : m_SubPicSize data ≤ p + steps) :
    (∀ fuel, (cmdLoop data fuel (m_SubPicSize data) steps spu p).Good size Fits) ↔
      Commands data size Fits spu p := by
  have hnil : Inside 0 size [] := fun k hk => absurd hk List.not_mem_nil
  induction steps generalizing p spu with
  | zero => exact iff_of_true (fun _ => good_fail.mpr hnil) (.past hsteps)
  | succ steps ih =>
    simp only [cmdLoop]
    by_cases hp : p < m_SubPicSize data
    · simp only [if_pos hp]
      cases hcommand : CommandID.ofByte (data p) with
      | none =>
        simp only [good_fail, forall_const]
        constructor
        · intro h
          exact .unknown hp (h p (by simp)).2 hcommand
        · intro h
          cases h with
          | past hp' => omega
          | unknown _ hin _ => exact inside_singleton (Nat.zero_le _) hin
          | command _ hcommand' => simp [hcommand] at hcommand'
          | last _ _ hcommand' => simp [hcommand] at hcommand'
      | some command =>
        simp only [good_append, forall_and_left, inside_range' (Nat.zero_le p)]
        by_cases hend : command = .CMD_END
        · subst hend
          simp only [if_true]
          rw [commands_end_iff hp hcommand]
          exact and_congr_right fun _ => good_cmdEnd_iff
        · simp only [if_neg hend]
          rw [commands_command_iff hp hend hcommand]
          have hnext := lt_spuCmdNext data p command
          exact and_congr_right fun _ => ih (by omega)
    · simp only [if_neg hp]
      exact iff_of_true (fun _ => good_fail.mpr hnil) (.past (not_lt.mp hp))

/-- **A packet is read inside, and what it sets fits,** exactly if its commands are. -/
theorem do_vob_sub_cmd_inside_iff :
    (∀ fuel, (do_vob_sub_cmd data fuel spu).Good size Fits) ↔ Admits data size Fits spu := by
  have hheader : Inside 0 size [0, 1, 2, 3] ↔ 4 ≤ size := @inside_range' 0 size 3 0 le_rfl
  simp only [do_vob_sub_cmd, good_append, forall_and_left, hheader, Admits]
  refine and_congr_right fun _ => ?_
  by_cases hoffset : m_SubPicSize data ≤ m_OffsetToCmd data
  · simp only [if_pos hoffset]
    refine iff_of_true (fun _ => good_fail.mpr ?_) fun hlt => absurd hoffset (not_le.mpr hlt)
    exact fun k hk => absurd hk List.not_mem_nil
  · simp only [if_neg hoffset]
    rw [good_cmdLoop_iff (by omega)]
    exact (imp_iff_right (not_le.mp hoffset)).symm

end Commands

end VobSub
end AmlSubtitle
