import AmlSubtitle.Parser.DvdParser

/-!
# The control area of a DVD frame

The bytes of a frame behind its pixels are sequences of commands, each of its own length.
`getSpuCmd` passes over the commands of the first sequence, `doDCSQC` over those of the
others; neither asks how long the frame is before it reads a parameter, and both skip some
commands by a wrong length.

* `SpuCommands` and `DcsqcCommands` are the control areas that each of them gets through: all
  the commands, and whatever is read of them, lie in the frame, and none is of the kind that it
  skips by a wrong length.
* `keepsToControlArea_iff`: exactly with those does the whole of it come to an end, without a read
  outside the control area and with the right length for every command.
-/

namespace AmlSubtitle
namespace Dvd

open Dvb (Source sourceOf)

/-- The length of a command, itself included.  The size of a colour change counts its own two
bytes. -/
def encodedLength (data : Source) (p : ℕ) : CommandID → ℕ
  | .FSTA_DSP | .STA_DSP | .STP_DSP | .CMD_END => 1
  | .SET_COLOR | .SET_CONTR => 3
  | .SET_DAREA => 7
  | .SET_DSPXA => 5
  | .CHG_COLCON => 1 + parameter data (p + 1)

theorem encodedLength_pos (data : Source) (p : ℕ) (command : CommandID) :
    0 < encodedLength data p command := by
  cases command <;> simp [encodedLength]

/-- The reads lie between two places. -/
def Inside (first last : ℕ) (reads : List ℕ) : Prop := ∀ k ∈ reads, first ≤ k ∧ k < last

/-- Every command is passed over by its length. -/
def Exact (data : Source) (passes : List Pass) : Prop :=
  ∀ pass ∈ passes, ∀ command, CommandID.ofByte (data pass.pos) = some command →
    pass.next = pass.pos + encodedLength data pass.pos command

section Lists

variable {first last : ℕ} {reads reads' : List ℕ} {data : Source} {pass : Pass}
  {passes passes' : List Pass}

theorem inside_append : Inside first last (reads ++ reads') ↔
    Inside first last reads ∧ Inside first last reads' := List.forall_mem_append

theorem inside_range' {n p : ℕ} (hfirst : first ≤ p) :
    Inside first last (List.range' p (1 + n)) ↔ p + 1 + n ≤ last := by
  constructor
  · intro h
    have hlast := h (p + n) (List.mem_range'_1.mpr (by omega))
    omega
  · intro h k hk
    have hrange := List.mem_range'_1.mp hk
    omega

theorem exact_cons : Exact data (pass :: passes) ↔
    (∀ command, CommandID.ofByte (data pass.pos) = some command →
      pass.next = pass.pos + encodedLength data pass.pos command) ∧ Exact data passes :=
  List.forall_mem_cons

theorem exact_append : Exact data (passes ++ passes') ↔
    Exact data passes ∧ Exact data passes' := List.forall_mem_append

end Lists

/-! ## The sequences of `doDCSQC` -/

/-- The commands that `doDCSQC` skips by their own length.  A colour change is among them only
where the command's byte and the high byte of the size, taken for the size, happen to fit. -/
def DcsqcSkips (data : Source) (length p : ℕ) (command : CommandID) : Prop :=
  command ≠ .CMD_END ∧ command ≠ .SET_DSPXA ∧
    (command = .CHG_COLCON → p + 1 < length ∧ parameter data (p + 1) = 0x708)

/-- The commands of a sequence from `p` on and the sequences behind it, for a frame of some
length. -/
inductive DcsqcCommands (data : Source) (length : ℕ) : ℕ → Bool → Prop where
  | command {p stoped command} (hp : p < length)
      (hcommand : CommandID.ofByte (data p) = some command)
      (hskips : DcsqcSkips data length p command)
      (hrest : DcsqcCommands data length (p + encodedLength data p command)
        (stoped || command = .STP_DSP)) : DcsqcCommands data length p stoped
  | unknown {p stoped} (hp : p < length) (hcommand : CommandID.ofByte (data p) = none) :
      DcsqcCommands data length p stoped
  | last {p stoped} (hp : p < length) (hcommand : CommandID.ofByte (data p) = some .CMD_END)
      (hlast : length ≤ p + 7 ∨ stoped = true) : DcsqcCommands data length p stoped
  | next {p} (hp : p + 7 < length) (hcommand : CommandID.ofByte (data p) = some .CMD_END)
      (hrest : DcsqcCommands data length (p + 5) false) : DcsqcCommands data length p false

section Dcsqc

variable {data : Source} {length : ℕ}

theorem ofByte_colourChange {b : UInt8} (h : CommandID.ofByte b = some .CHG_COLCON) :
    b.toNat = 7 := by
  unfold CommandID.ofByte at h
  split at h <;> first | assumption | cases h

/-- A colour change is skipped by its length where its size happens to fit. -/
theorem colourChange_iff {p : ℕ} (h : (data p).toNat = 7) :
    p + 2 + dcsqcTemp data p = p + (1 + parameter data (p + 1)) ↔
      parameter data (p + 1) = 0x708 := by
  have hhigh := (data (p + 1)).toNat_lt
  have hlow := (data (p + 1 + 1)).toNat_lt
  have htemp : dcsqcTemp data p = 1792 + (data (p + 1)).toNat := by
    rw [dcsqcTemp, h]
    exact Nat.mod_eq_of_lt (by omega)
  rw [htemp, parameter, Nat.shiftLeft_eq]
  omega

/-- A command of a sequence is read in the frame and skipped by its length, or else it is not
one of those. -/
theorem dcsqcCommand_iff {first p : ℕ} (hfirst : first ≤ p) (pend : ℕ) {command : CommandID}
    (hend : command ≠ .CMD_END) (hcommand : CommandID.ofByte (data p) = some command) :
    Inside first length (dcsqcCommand data pend p (some command)).1 ∧
        (dcsqcCommand data pend p (some command)).2 = p + encodedLength data p command ↔
      p < length ∧ DcsqcSkips data length p command := by
  cases command with
  | CMD_END => exact absurd rfl hend
  | CHG_COLCON =>
    have hchange := colourChange_iff (ofByte_colourChange hcommand)
    have hfirst' : first ≤ p + 1 := by omega
    simp [Inside, DcsqcSkips, dcsqcCommand, encodedLength, hchange, hfirst, hfirst']
    tauto
  | _ => simp [Inside, DcsqcSkips, dcsqcCommand, encodedLength, hfirst]

theorem dcsqcLoop_command {p fuel : ℕ} (pend : ℕ) {command : CommandID}
    (hend : command ≠ .CMD_END) (hcommand : CommandID.ofByte (data p) = some command)
    (stoped : Bool) :
    dcsqcLoop data pend (fuel + 1) p stoped =
      let pass := dcsqcCommand data pend p (some command)
      let rest := dcsqcLoop data pend fuel pass.2 (stoped || command = .STP_DSP)
      { rest with reads := pass.1 ++ rest.reads, passes := ⟨p, pass.2⟩ :: rest.passes } := by
  rw [dcsqcLoop, hcommand]
  dsimp only
  rw [if_neg (by simpa using hend)]
  simp

theorem dcsqcLoop_end {p fuel : ℕ} (pend : ℕ)
    (hcommand : CommandID.ofByte (data p) = some .CMD_END) (stoped : Bool) :
    dcsqcLoop data pend (fuel + 1) p stoped = ⟨[p], [⟨p, p + 1⟩], some (p + 1, stoped)⟩ := by
  rw [dcsqcLoop, hcommand]
  exact if_pos (.inr rfl)

theorem dcsqcLoop_unknown {p fuel : ℕ} (pend : ℕ)
    (hcommand : CommandID.ofByte (data p) = none) (stoped : Bool) :
    dcsqcLoop data pend (fuel + 1) p stoped = ⟨[p], [⟨p, pend⟩], some (pend, stoped)⟩ := by
  rw [dcsqcLoop, hcommand]
  exact if_pos (.inl rfl)

/-- A loop that gets through comes from commands that it gets through. -/
theorem dcsqcCommands_of_loop {first fuel p q : ℕ} {stoped st : Bool} (hfirst : first ≤ p)
    (hfinish : (dcsqcLoop data (length - 6) fuel p stoped).finish = some (q, st))
    (hinside : Inside first length (dcsqcLoop data (length - 6) fuel p stoped).reads)
    (hexact : Exact data (dcsqcLoop data (length - 6) fuel p stoped).passes)
    (hnext : first ≤ q → q < length - 6 → st = false → DcsqcCommands data length (q + 4) false) :
    DcsqcCommands data length p stoped := by
  induction fuel generalizing p stoped with
  | zero => simp [dcsqcLoop] at hfinish
  | succ fuel ih =>
    cases hcommand : CommandID.ofByte (data p) with
    | none =>
      rw [dcsqcLoop_unknown _ hcommand] at hinside
      exact .unknown (hinside p (by simp)).2 hcommand
    | some command =>
      by_cases hend : command = .CMD_END
      · rw [hend] at hcommand
        rw [dcsqcLoop_end _ hcommand] at hfinish hinside
        have hp := (hinside p (by simp)).2
        obtain ⟨rfl, rfl⟩ := Prod.mk.inj (Option.some.inj hfinish)
        by_cases hlast : length ≤ p + 7 ∨ stoped = true
        · exact .last hp hcommand hlast
        · push Not at hlast
          obtain ⟨hmore, hstoped⟩ := hlast
          obtain rfl := Bool.eq_false_of_not_eq_true hstoped
          exact .next hmore hcommand (hnext (by omega) (by omega) rfl)
      · rw [dcsqcLoop_command _ hend hcommand] at hfinish hinside hexact
        obtain ⟨hreads, hinside⟩ := inside_append.mp hinside
        obtain ⟨hskip, hexact⟩ := exact_cons.mp hexact
        have hlength : (dcsqcCommand data (length - 6) p (some command)).2 =
            p + encodedLength data p command := hskip command hcommand
        obtain ⟨hp, hskips⟩ := (dcsqcCommand_iff hfirst _ hend hcommand).mp ⟨hreads, hlength⟩
        dsimp only at hfinish
        rw [hlength] at hfinish hinside hexact
        have hpos := encodedLength_pos data p command
        exact .command hp hcommand hskips (ih (by omega) hfinish hinside hexact)

/-- The rest of a run of `doDCSQC` comes to an end and keeps to the frame. -/
structure DcsqcResult.Good (data : Source) (first length : ℕ) (r : DcsqcResult) : Prop where
  terminates : r.delay ≠ none
  inside : Inside first length r.reads
  exact : Exact data r.passes

/-- A run that gets through comes from sequences that it gets through. -/
theorem dcsqcCommands_of_good {first fuel p : ℕ} (hfirst : first ≤ p)
    (h : (doDCSQC data (length - 6) fuel p).Good data first length) :
    DcsqcCommands data length (p + 4) false := by
  induction fuel generalizing p with
  | zero => exact absurd rfl h.terminates
  | succ fuel ih =>
    rw [doDCSQC] at h
    dsimp only at h
    cases hfinish : (dcsqcLoop data (length - 6) fuel (p + 4) false).finish with
    | none =>
      rw [hfinish] at h
      exact absurd rfl h.terminates
    | some finish =>
      obtain ⟨q, stoped⟩ := finish
      rw [hfinish] at h
      dsimp only at h
      by_cases hmore : q < length - 6 ∧ stoped = false
      · rw [if_pos hmore] at h
        obtain ⟨hterminates, hinside, hexact⟩ := h
        obtain ⟨hreads, hrest⟩ := inside_append.mp hinside
        obtain ⟨-, hloop⟩ := inside_append.mp hreads
        obtain ⟨hpasses, hpasses'⟩ := exact_append.mp hexact
        refine dcsqcCommands_of_loop (by omega) hfinish hloop hpasses fun hq _ _ => ?_
        refine ih hq ⟨?_, hrest, hpasses'⟩
        simpa using hterminates
      · rw [if_neg hmore] at h
        obtain ⟨-, hloop⟩ := inside_append.mp h.inside
        exact dcsqcCommands_of_loop (by omega) hfinish hloop h.exact
          fun _ hq hst => absurd ⟨hq, hst⟩ hmore

/-- The loop comes to an end and keeps to the frame. -/
structure DcsqcLoop.Good (data : Source) (first length : ℕ) (finish : ℕ × Bool)
    (loop : DcsqcLoop) : Prop where
  finish : loop.finish = some finish
  inside : Inside first length loop.reads
  exact : Exact data loop.passes

/-- A header in front of a loop that keeps to the frame, and what comes behind it. -/
theorem DcsqcLoop.Good.doDCSQC {first fuel p q : ℕ} {stoped : Bool} (hfirst : first ≤ p)
    (hp : p + 3 < length)
    (h : (dcsqcLoop data (length - 6) fuel (p + 4) false).Good data first length (q, stoped))
    (hrest : q < length - 6 ∧ stoped = false →
      (Dvd.doDCSQC data (length - 6) fuel q).Good data first length) :
    (Dvd.doDCSQC data (length - 6) (fuel + 1) p).Good data first length := by
  have hheader : Inside first length (List.range' p (1 + 3)) :=
    (inside_range' hfirst).mpr (by omega)
  rw [Dvd.doDCSQC]
  dsimp only
  rw [h.finish]
  dsimp only
  by_cases hmore : q < length - 6 ∧ stoped = false
  · obtain ⟨hterminates, hinside, hexact⟩ := hrest hmore
    rw [if_pos hmore]
    refine ⟨by simpa using hterminates, ?_, exact_append.mpr ⟨h.exact, hexact⟩⟩
    exact inside_append.mpr ⟨inside_append.mpr ⟨hheader, h.inside⟩, hinside⟩
  · rw [if_neg hmore]
    exact ⟨by simp, inside_append.mpr ⟨hheader, h.inside⟩, h.exact⟩

theorem inside_singleton {first p : ℕ} (hfirst : first ≤ p) (hp : p < length) :
    Inside first length [p] := fun _ hk => List.mem_singleton.mp hk ▸ ⟨hfirst, hp⟩

theorem DcsqcLoop.Good.end {first p fuel : ℕ} (hfirst : first ≤ p) (hp : p < length)
    (hcommand : CommandID.ofByte (data p) = some .CMD_END) (stoped : Bool) :
    (dcsqcLoop data (length - 6) (fuel + 1) p stoped).Good data first length (p + 1, stoped) := by
  rw [dcsqcLoop_end _ hcommand]
  refine ⟨rfl, inside_singleton hfirst hp, fun pass hmem command h => ?_⟩
  obtain rfl := List.mem_singleton.mp hmem
  obtain rfl := Option.some.inj (hcommand.symm.trans h)
  rfl

/-- **Sequences that it gets through.**  With enough fuel the loop comes to its end, and so does
what follows behind it. -/
theorem DcsqcCommands.good {p : ℕ} {stoped : Bool} (h : DcsqcCommands data length p stoped)
    {first : ℕ} (hfirst : first ≤ p) :
    ∃ n q st, ∀ fuel ≥ n,
      (dcsqcLoop data (length - 6) fuel p stoped).Good data first length (q, st) ∧
        (q < length - 6 ∧ st = false →
          (doDCSQC data (length - 6) fuel q).Good data first length) := by
  induction h with
  | @command p stoped command hp hcommand hskips _ ih =>
    have hend := hskips.1
    obtain ⟨hreads, hlength⟩ := (dcsqcCommand_iff hfirst (length - 6) hend hcommand).mpr
      ⟨hp, hskips⟩
    obtain ⟨n, q, st, hn⟩ := ih (hfirst.trans (Nat.le_add_right _ _))
    refine ⟨n + 1, q, st, fun fuel hfuel => ⟨?_, (hn fuel (by omega)).2⟩⟩
    obtain ⟨fuel, rfl⟩ : ∃ k, fuel = k + 1 := ⟨fuel - 1, by omega⟩
    obtain ⟨hfinish, hinside, hexact⟩ := (hn fuel (by omega)).1
    rw [dcsqcLoop_command _ hend hcommand]
    dsimp only
    rw [hlength]
    refine ⟨hfinish, inside_append.mpr ⟨hreads, hinside⟩, exact_cons.mpr ⟨?_, hexact⟩⟩
    intro command' hcommand'
    obtain rfl := Option.some.inj (hcommand.symm.trans hcommand')
    rfl
  | @unknown p stoped hp hcommand =>
    refine ⟨1, length - 6, stoped, fun fuel hfuel => ⟨?_, fun hlt => absurd hlt.1 (lt_irrefl _)⟩⟩
    obtain ⟨fuel, rfl⟩ : ∃ k, fuel = k + 1 := ⟨fuel - 1, by omega⟩
    rw [dcsqcLoop_unknown _ hcommand]
    refine ⟨rfl, inside_singleton hfirst hp, fun pass hmem command h => ?_⟩
    obtain rfl := List.mem_singleton.mp hmem
    exact absurd (hcommand.symm.trans h) (by simp)
  | @last p stoped hp hcommand hlast =>
    refine ⟨1, p + 1, stoped, fun fuel hfuel => ⟨?_, fun hlt => ?_⟩⟩
    · obtain ⟨fuel, rfl⟩ : ∃ k, fuel = k + 1 := ⟨fuel - 1, by omega⟩
      exact .end hfirst hp hcommand stoped
    · rcases hlast with hlast | hlast
      · omega
      · simp [hlast] at hlt
  | @next p hp hcommand _ ih =>
    obtain ⟨n, q, st, hn⟩ := ih (by omega)
    refine ⟨n + 1, p + 1, false, fun fuel hfuel => ?_⟩
    obtain ⟨fuel, rfl⟩ : ∃ k, fuel = k + 1 := ⟨fuel - 1, by omega⟩
    obtain ⟨hloop, hrest⟩ := hn fuel (by omega)
    exact ⟨.end hfirst (by omega) hcommand false,
      fun _ => hloop.doDCSQC (by omega) (by omega) hrest⟩

/-- The sequences that `doDCSQC` gets through. -/
theorem good_doDCSQC_iff {first p : ℕ} (hfirst : first ≤ p) (hp : p + 3 < length) :
    (∃ n, ∀ fuel ≥ n, (doDCSQC data (length - 6) fuel p).Good data first length) ↔
      DcsqcCommands data length (p + 4) false := by
  constructor
  · rintro ⟨n, h⟩
    exact dcsqcCommands_of_good hfirst (h n le_rfl)
  · intro h
    obtain ⟨n, q, st, hn⟩ := h.good (hfirst.trans (Nat.le_add_right _ _))
    refine ⟨n + 1, fun fuel hfuel => ?_⟩
    obtain ⟨fuel, rfl⟩ : ∃ k, fuel = k + 1 := ⟨fuel - 1, by omega⟩
    obtain ⟨hloop, hrest⟩ := hn fuel (by omega)
    exact hloop.doDCSQC hfirst hp hrest

end Dcsqc

/-! ## The first sequence -/

/-- The commands of the first sequence from `p` on and the sequences behind it, for a frame of
some length. -/
inductive SpuCommands (data : Source) (length : ℕ) : ℕ → Prop where
  | past {p} (hp : length ≤ p) : SpuCommands data length p
  | command {p command} (hcommand : CommandID.ofByte (data p) = some command)
      (hend : command ≠ .CMD_END) (hchange : command ≠ .CHG_COLCON)
      (hp : p + encodedLength data p command ≤ length)
      (hrest : SpuCommands data length (p + encodedLength data p command)) :
      SpuCommands data length p
  | unknown {p} (hp : p < length) (hcommand : CommandID.ofByte (data p) = none) :
      SpuCommands data length p
  | last {p} (hp : p < length) (hcommand : CommandID.ofByte (data p) = some .CMD_END)
      (hlast : length < p + 7) : SpuCommands data length p
  | next {p} (hp : p + 7 ≤ length) (hcommand : CommandID.ofByte (data p) = some .CMD_END)
      (hrest : DcsqcCommands data length (p + 5) false) : SpuCommands data length p

/-- A condition that does not depend on the fuel. -/
theorem and_from_on_iff {C : Prop} {B : ℕ → Prop} :
    (∃ n, ∀ fuel ≥ n, C ∧ B fuel) ↔ C ∧ ∃ n, ∀ fuel ≥ n, B fuel := by
  constructor
  · rintro ⟨n, h⟩
    exact ⟨(h n le_rfl).1, n, fun fuel hfuel => (h fuel hfuel).2⟩
  · rintro ⟨hC, n, h⟩
    exact ⟨n, fun fuel hfuel => ⟨hC, h fuel hfuel⟩⟩

section Spu

variable {data : Source} {first length p : ℕ}

/-- A run comes to an end and keeps to the frame. -/
structure SpuCmdResult.Good (data : Source) (first length : ℕ) (r : SpuCmdResult) : Prop where
  terminates : r.ret ≠ none
  inside : Inside first length r.reads
  exact : Exact data r.passes

/-- A command of the first sequence is read in the frame and skipped by its length, or else it
is a colour change or lies in part behind the frame. -/
theorem spuCommand_iff (hfirst : first ≤ p) (command : CommandID) :
    Inside first length (List.range' p (1 + parameterReads command)) ∧
        spuCmdNext data p command = p + encodedLength data p command ↔
      p + encodedLength data p command ≤ length ∧ command ≠ .CHG_COLCON := by
  rw [inside_range' hfirst]
  cases command with
  | CHG_COLCON =>
    simp only [parameterReads, spuCmdNext, encodedLength, ne_eq, not_true_eq_false, and_false,
      iff_false]
    omega
  | _ => simp [parameterReads, spuCmdNext, encodedLength, Nat.add_assoc]

@[simp] theorem setCommand_spuData (spu : DvdSpu) (p : ℕ) (command : CommandID) :
    (setCommand spu p command).spuData = spu.spuData := by
  cases command <;> rfl

@[simp] theorem setCommand_length (spu : DvdSpu) (p : ℕ) (command : CommandID) :
    (setCommand spu p command).length = spu.length := by
  cases command <;> rfl

/-- The end of the first sequence. -/
theorem good_spuCmdEnd_iff {spu : DvdSpu} (hfirst : first ≤ p) :
    (∃ n, ∀ fuel ≥ n, (spuCmdEnd fuel spu p).Good spu.spuData first spu.length) ↔
      (p + 6 ≤ spu.length → DcsqcCommands spu.spuData spu.length (p + 4) false) := by
  by_cases hmore : p + 6 ≤ spu.length
  · have hgood : ∀ fuel, (spuCmdEnd fuel spu p).Good spu.spuData first spu.length ↔
        (doDCSQC spu.spuData (spu.length - 6) fuel p).Good spu.spuData first spu.length := by
      intro fuel
      rw [spuCmdEnd, if_pos hmore]
      dsimp only
      cases hdelay : (doDCSQC spu.spuData (spu.length - 6) fuel p).delay with
      | none => exact ⟨fun h => absurd rfl h.terminates, fun h => absurd hdelay h.terminates⟩
      | some delay =>
        exact ⟨fun h => ⟨by simp [hdelay], h.inside, h.exact⟩,
          fun h => ⟨by simp, h.inside, h.exact⟩⟩
    simp only [hgood, hmore, true_imp_iff]
    exact good_doDCSQC_iff hfirst (by omega)
  · refine iff_of_true ⟨0, fun fuel _ => ?_⟩ fun h => absurd h hmore
    rw [spuCmdEnd, if_neg hmore]
    exact ⟨by simp, by simp [Inside], by simp [Exact]⟩

/-- A command in front of what keeps to the frame. -/
theorem good_command_iff (hfirst : first ≤ p) {command : CommandID}
    (hcommand : CommandID.ofByte (data p) = some command) (rest : SpuCmdResult) :
    SpuCmdResult.Good data first length { rest with
        reads := List.range' p (1 + parameterReads command) ++ rest.reads
        passes := ⟨p, spuCmdNext data p command⟩ :: rest.passes } ↔
      (p + encodedLength data p command ≤ length ∧ command ≠ .CHG_COLCON) ∧
        rest.Good data first length := by
  rw [← spuCommand_iff hfirst command]
  constructor
  · rintro ⟨hterminates, hinside, hexact⟩
    obtain ⟨hreads, hinside⟩ := inside_append.mp hinside
    obtain ⟨hskip, hexact⟩ := exact_cons.mp hexact
    exact ⟨⟨hreads, hskip command hcommand⟩, hterminates, hinside, hexact⟩
  · rintro ⟨⟨hreads, hskip⟩, hterminates, hinside, hexact⟩
    refine ⟨hterminates, inside_append.mpr ⟨hreads, hinside⟩, exact_cons.mpr ⟨?_, hexact⟩⟩
    intro command' hcommand'
    obtain rfl := Option.some.inj (hcommand.symm.trans hcommand')
    exact hskip

/-- The end of a sequence in front of the others. -/
theorem spuCommands_end_iff (hp : p < length)
    (hcommand : CommandID.ofByte (data p) = some .CMD_END) :
    SpuCommands data length p ↔
      (p + 1 + 6 ≤ length → DcsqcCommands data length (p + 1 + 4) false) := by
  constructor
  · intro h hmore
    cases h with
    | past hp' => omega
    | command hcommand' hend => exact absurd (Option.some.inj (hcommand'.symm.trans hcommand)) hend
    | unknown _ hcommand' => simp [hcommand] at hcommand'
    | last _ _ hlast => omega
    | next _ _ hrest => exact hrest
  · intro h
    by_cases hmore : p + 7 ≤ length
    · exact .next hmore hcommand (h hmore)
    · exact .last hp hcommand (by omega)

/-- A command in front of others. -/
theorem spuCommands_command_iff (hp : p < length) {command : CommandID}
    (hend : command ≠ .CMD_END) (hcommand : CommandID.ofByte (data p) = some command) :
    SpuCommands data length p ↔
      (p + encodedLength data p command ≤ length ∧ command ≠ .CHG_COLCON) ∧
        SpuCommands data length (p + encodedLength data p command) := by
  constructor
  · intro h
    cases h with
    | past hp' => omega
    | command hcommand' _ hchange hlength hrest =>
      obtain rfl := Option.some.inj (hcommand.symm.trans hcommand')
      exact ⟨⟨hlength, hchange⟩, hrest⟩
    | unknown _ hcommand' => simp [hcommand] at hcommand'
    | last _ hcommand' => exact absurd (Option.some.inj (hcommand.symm.trans hcommand')) hend
    | next _ hcommand' => exact absurd (Option.some.inj (hcommand.symm.trans hcommand')) hend
  · rintro ⟨⟨hlength, hchange⟩, hrest⟩
    exact .command hcommand hend hchange hlength hrest

/-- The first sequence that `getSpuCmd` gets through. -/
theorem good_spuCmdLoop_iff {steps : ℕ} {spu : DvdSpu} (hfirst : first ≤ p)
    (hsteps : spu.length ≤ p + steps) :
    (∃ n, ∀ fuel ≥ n, (spuCmdLoop fuel steps spu p).Good spu.spuData first spu.length) ↔
      SpuCommands spu.spuData spu.length p := by
  have hnone : ∀ (spu spu' : DvdSpu) reads, Inside first spu.length reads →
      SpuCmdResult.Good spu.spuData first spu.length ⟨spu', some (-1), reads, []⟩ :=
    fun _ _ reads hreads => ⟨by simp, hreads, by simp [Exact]⟩
  induction steps generalizing p spu with
  | zero => exact iff_of_true ⟨0, fun _ _ => hnone spu _ [] (by simp [Inside])⟩ (.past hsteps)
  | succ steps ih =>
    simp only [spuCmdLoop]
    by_cases hp : p < spu.length
    · simp only [if_pos hp]
      cases hcommand : CommandID.ofByte (spu.spuData p) with
      | none =>
        exact iff_of_true ⟨0, fun _ _ => hnone spu _ _ (inside_singleton hfirst hp)⟩
          (.unknown hp hcommand)
      | some command =>
        simp only [good_command_iff hfirst hcommand, and_from_on_iff]
        by_cases hend : command = .CMD_END
        · subst hend
          simp only [if_true]
          rw [spuCommands_end_iff hp hcommand]
          refine (and_iff_right ⟨hp, by simp⟩).trans ?_
          exact good_spuCmdEnd_iff (hfirst.trans (Nat.le_succ p))
        · simp only [if_neg hend]
          rw [spuCommands_command_iff hp hend hcommand]
          refine and_congr_right fun hlength => ?_
          have hnext := ((spuCommand_iff hfirst command).mpr hlength).2
          have hpos := encodedLength_pos spu.spuData p command
          have hrest := @ih (p + encodedLength spu.spuData p command)
            (setCommand spu (p + 1) command) (by omega)
            (by rw [setCommand_length]; omega)
          rw [hnext]
          simpa using hrest
    · simp only [if_neg hp]
      exact iff_of_true ⟨0, fun _ _ => hnone spu _ [] (by simp [Inside])⟩ (.past (not_lt.mp hp))

end Spu

/-! ## The control area -/

/-- What passing over the control area is to keep to. -/
structure KeepsToControlArea (fuel : ℕ) (spu : DvdSpu) : Prop where
  terminates : (getSpuCmd fuel spu).ret ≠ none
  inside : Inside spu.cmdOffset spu.length (getSpuCmd fuel spu).reads
  exact : Exact spu.spuData (getSpuCmd fuel spu).passes

/-- **The control area** is passed over to its end, without a read outside it and each command
by its own length, exactly when its sequences are of the commands that the two functions get
through. -/
theorem keepsToControlArea_iff (spu : DvdSpu) :
    (∃ n, ∀ fuel ≥ n, KeepsToControlArea fuel spu) ↔
      SpuCommands spu.spuData spu.length (spu.cmdOffset + 4) := by
  by_cases hcmd : spu.length ≤ spu.cmdOffset
  · refine iff_of_true ⟨0, fun fuel _ => ?_⟩ (.past (by omega))
    constructor
    all_goals
      rw [getSpuCmd, if_pos hcmd]
      simp [Inside, Exact]
  · have hloop : (∃ n, ∀ fuel ≥ n,
        (spuCmdLoop fuel spu.length spu (spu.cmdOffset + 4)).Good spu.spuData spu.cmdOffset
          spu.length) ↔ SpuCommands spu.spuData spu.length (spu.cmdOffset + 4) :=
      good_spuCmdLoop_iff (Nat.le_add_right _ 4) (by omega)
    rw [← hloop]
    refine exists_congr fun n => forall₂_congr fun fuel _ => ?_
    have hrun : getSpuCmd fuel spu = spuCmdLoop fuel spu.length spu (spu.cmdOffset + 4) :=
      if_neg hcmd
    rw [← hrun]
    exact ⟨fun h => ⟨h.terminates, h.inside, h.exact⟩, fun h => ⟨h.terminates, h.inside, h.exact⟩⟩

/-- A frame without pixels whose first sequence changes no colour: the size of the change is
that of its own two bytes. -/
def colourChange : DvdSpu where
  spuData := sourceOf [0, 14, 0, 4, 0, 0, 0, 4, 7, 0, 2, 0xff, 0xff, 0xff]
  cmdOffset := 4
  length := 14

/-- The change is of three bytes, and five are skipped. -/
theorem not_keepsToControlArea_colourChange :
    ¬ ∀ spu : DvdSpu, ∃ n, ∀ fuel ≥ n, KeepsToControlArea fuel spu := by
  intro h
  obtain ⟨n, hn⟩ := h colourChange
  have hpasses : (getSpuCmd n colourChange).passes = [⟨8, 13⟩, ⟨13, 14⟩] := rfl
  have hexact := (hn n le_rfl).exact
  rw [hpasses] at hexact
  have hskip := hexact ⟨8, 13⟩ (by simp) .CHG_COLCON rfl
  exact absurd hskip (by decide)

end Dvd
end AmlSubtitle
