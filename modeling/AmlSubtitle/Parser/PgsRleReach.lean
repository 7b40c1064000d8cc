import AmlSubtitle.Parser.PgsRle

/-!
# The bytes that `decodeRle` reads

`decodeRle` looks for the end of its data between codes only.

* `Codes` splits data into whole codes and what is left; `Truncated` data are a code that is not
  whole.
* `Stops` says that the decoder ends at one of some codes.
* `staysInside_iff`: no byte behind the data is read exactly when the decoder ends at one of the
  whole codes, or there is no other.
-/

namespace AmlSubtitle
namespace Pgs

open Words

/-! ## Whole codes -/

/-- Data that are some whole codes, with the lengths of their runs, and what is left. -/
inductive Codes : List UInt8 → List ℕ → List UInt8 → Prop
  | nil (rest : List UInt8) : Codes rest [] rest
  | cons {code bytes rest : List UInt8} {color : UInt8} {run : ℕ} {runs : List ℕ} :
      RleCode code color run → Codes bytes runs rest → Codes (code ++ bytes) (run :: runs) rest

/-- A code that is not whole: there are data, and they do not begin with a code. -/
def Truncated (bytes : List UInt8) : Prop :=
  bytes ≠ [] ∧ ∀ code color run rest, RleCode code color run → bytes ≠ code ++ rest

/-- The pixels after one more run. -/
def addRun (w h count run : ℕ) : ℕ := if Fits w h count run then count + run else count

/-- The decoder ends at a run, after `lines` lines and `count` pixels: the end of a line is the
last, or it is not at the end of a line of pixels, or the run is written outside. -/
def StopsAt (w h lines count run : ℕ) : Prop :=
  if run = 0 then w = 0 ∨ Int.tmod (asSigned 32 count) w > 0 ∨ h ≤ lines + 1
  else Fits w h count run ∧ ¬ Inside w h count run

/-- The decoder ends at one of some runs, if it starts after `lines` lines and `count` pixels. -/
def Stops (w h lines count : ℕ) (runs : List ℕ) : Prop :=
  ∃ before run after, runs = before ++ run :: after ∧
    StopsAt w h (lines + before.count 0) (before.foldl (addRun w h) count) run

/-- **No byte behind the data is read.** -/
def StaysInside (rle : List UInt8) (w h : ℕ) : Prop :=
  ∀ behind, (decodeRleInt rle behind w h).reach ≤ rle.length

section Stops

variable {w h lines count run : ℕ} {runs : List ℕ}

theorem addRun_zero : addRun w h count 0 = count := by
  unfold addRun
  split_ifs <;> rfl

theorem not_stops_nil : ¬ Stops w h lines count [] := by
  rintro ⟨before, run, after, hsplit, -⟩
  exact absurd hsplit.symm (List.append_ne_nil_of_right_ne_nil _ (List.cons_ne_nil _ _))

theorem stops_cons : Stops w h lines count (run :: runs) ↔ StopsAt w h lines count run ∨
    Stops w h (lines + if run = 0 then 1 else 0) (addRun w h count run) runs := by
  have hcount : ∀ before : List ℕ, (run :: before).count 0 =
      (if run = 0 then 1 else 0) + before.count 0 := by
    intro before
    rw [List.count_cons, Nat.add_comm]
    simp only [beq_iff_eq]
  constructor
  · rintro ⟨before, run', after, hsplit, hstops⟩
    cases before with
    | nil =>
      obtain ⟨rfl, rfl⟩ := List.cons.inj hsplit
      rw [List.count_nil, Nat.add_zero, List.foldl_nil] at hstops
      exact Or.inl hstops
    | cons _ before =>
      obtain ⟨rfl, rfl⟩ := List.cons.inj hsplit
      rw [hcount, ← Nat.add_assoc, List.foldl_cons] at hstops
      exact Or.inr ⟨before, run', after, rfl, hstops⟩
  · rintro (hstops | ⟨before, run', after, rfl, hstops⟩)
    · refine ⟨[], run, runs, rfl, ?_⟩
      rw [List.count_nil, Nat.add_zero, List.foldl_nil]
      exact hstops
    · refine ⟨run :: before, run', after, rfl, ?_⟩
      rw [hcount, ← Nat.add_assoc, List.foldl_cons]
      exact hstops

end Stops

/-! ## Data that begin with a code, and data that do not -/

section Codes

variable {rle code code' bytes rest rest' : List UInt8} {color color' : UInt8}
  {behind : Source} {w h lines count pos run run' : ℕ}

/-- A code does not begin another one. -/
theorem rleCode_unique (hcode : RleCode code color run) (hcode' : RleCode code' color' run')
    (h : code ++ rest = code' ++ rest') : code = code' ∧ run = run' ∧ rest = rest' := by
  have hread : readCode (rleSource (code ++ rest) fun _ => 0) 0 = ⟨color, run, 0 + code.length⟩ :=
    readCode_of_drop hcode List.drop_zero
  have hread' : readCode (rleSource (code ++ rest) fun _ => 0) 0 =
      ⟨color', run', 0 + code'.length⟩ :=
    readCode_of_drop hcode' (List.drop_zero.trans h)
  rw [hread, Code.mk.injEq] at hread'
  obtain ⟨hbytes, hrest⟩ := List.append_inj h (by omega)
  exact ⟨hbytes, hread'.2.1, hrest⟩

/-- A byte has two flags and six low bits. -/
theorem flags_eq : ∀ n < 256, UInt8.ofNat n = UInt8.ofNat
    ((if UInt8.ofNat n &&& 0x80 ≠ 0 then 0x80 else 0) +
      (if UInt8.ofNat n &&& 0x40 ≠ 0 then 0x40 else 0) + (UInt8.ofNat n &&& 0x3f).toNat) := by
  decide +kernel

/-- **Any second byte** begins the rest of a code: one byte more with either of its flags. -/
theorem rleCode_flags (flags byte color : UInt8) :
    if flags &&& 0x40 ≠ 0 then
      if flags &&& 0x80 ≠ 0 then ∃ run, RleCode [0, flags, byte, color] color run
      else ∃ run, RleCode [0, flags, byte] 0 run
    else if flags &&& 0x80 ≠ 0 then ∃ run, RleCode [0, flags, color] color run
    else ∃ run, RleCode [0, flags] 0 run := by
  have hflags := flags_eq flags.toNat flags.toNat_lt
  rw [UInt8.ofNat_toNat] at hflags
  have hlow : (flags &&& 0x3f).toNat < 64 := by
    rw [UInt8.toNat_and]
    exact Nat.and_lt_two_pow _ (by decide : 0x3f < 2 ^ 6)
  have hbyte : byte.toNat < 256 := byte.toNat_lt
  have hdiv : ((flags &&& 0x3f).toNat * 256 + byte.toNat) / 256 = (flags &&& 0x3f).toNat := by
    omega
  have hmod : UInt8.ofNat ((flags &&& 0x3f).toNat * 256 + byte.toNat) = byte :=
    UInt8.toNat_inj.mp (by rw [UInt8.toNat_ofNat']; omega)
  split_ifs at hflags ⊢
  · have hcode : RleCode _ color ((flags &&& 0x3f).toNat * 256 + byte.toNat) :=
      RleCode.colorLong (by omega)
    rw [hdiv, hmod, ← hflags] at hcode
    exact ⟨_, hcode⟩
  · have hcode : RleCode _ 0 ((flags &&& 0x3f).toNat * 256 + byte.toNat) :=
      RleCode.zerosLong (by omega)
    rw [hdiv, hmod] at hcode
    rw [Nat.zero_add] at hflags
    rw [← hflags] at hcode
    exact ⟨_, hcode⟩
  · have hcode : RleCode _ color (flags &&& 0x3f).toNat := RleCode.color hlow
    rw [Nat.add_zero] at hflags
    rw [← hflags] at hcode
    exact ⟨_, hcode⟩
  · have hcode := RleCode.zeros hlow
    rw [Nat.zero_add] at hflags
    rw [← hflags] at hcode
    exact ⟨_, hcode⟩

/-- **A truncated code** is read beyond its end. -/
theorem lt_next_of_truncated (hdrop : rle.drop pos = bytes) (htruncated : Truncated bytes) :
    rle.length < (readCode (rleSource rle behind) pos).next := by
  obtain ⟨hne, hcode⟩ := htruncated
  have hlength : rle.length = pos + bytes.length := by
    have hpos := List.length_pos_of_ne_nil hne
    rw [← hdrop, List.length_drop] at hpos ⊢
    omega
  have hbyte : ∀ i < bytes.length, rleSource rle behind (pos + i) = bytes.getD i 0 :=
    fun i hi => rleSource_of_drop (hdrop.trans (List.append_nil _).symm) hi
  rw [hlength]
  unfold readCode
  dsimp only
  obtain ⟨color, bytes, rfl⟩ := List.exists_cons_of_ne_nil hne
  have hfirst : rleSource rle behind pos = color := hbyte 0 (by simp)
  rw [hfirst]
  by_cases hzero : color = 0
  swap
  · exact absurd rfl (hcode [color] color 1 bytes (.pixel hzero))
  rw [if_pos hzero]
  subst hzero
  rcases bytes with _ | ⟨flags, bytes⟩
  · -- the flags are missing
    split_ifs <;> simp
  have hflags : rleSource rle behind (pos + 1) = flags := hbyte 1 (by simp)
  rw [hflags]
  rcases bytes with _ | ⟨byte, bytes⟩
  · -- without flags, the code is whole
    have hwhole := rleCode_flags flags 0 0
    split_ifs at hwhole ⊢
    · simp
    · simp
    · simp
    · obtain ⟨run, hwhole⟩ := hwhole
      exact absurd rfl (hcode _ _ _ [] hwhole)
  rcases bytes with _ | ⟨color, bytes⟩
  · -- with one flag, the code is whole
    have hwhole := rleCode_flags flags byte byte
    split_ifs at hwhole ⊢
    · simp
    all_goals
      obtain ⟨run, hwhole⟩ := hwhole
    · exact absurd rfl (hcode _ _ _ [] hwhole)
    · exact absurd rfl (hcode _ _ _ [] hwhole)
    · exact absurd rfl (hcode _ _ _ [byte] hwhole)
  · have hwhole := rleCode_flags flags byte color
    have hwhole' := rleCode_flags flags byte byte
    split_ifs at hwhole hwhole' ⊢
    all_goals
      obtain ⟨run, hwhole⟩ := hwhole
      obtain ⟨run', hwhole'⟩ := hwhole'
    · exact absurd rfl (hcode _ _ _ bytes hwhole)
    · exact absurd rfl (hcode _ _ _ (color :: bytes) hwhole')
    · exact absurd rfl (hcode _ _ _ (color :: bytes) hwhole)
    · exact absurd rfl (hcode _ _ _ (byte :: color :: bytes) hwhole)

/-- The loop reads on from where it is. -/
theorem le_reach_rleLoop {buf : Source} {size : ℕ} {pixels : List UInt8} :
    pos ≤ (rleLoop buf size w h pos lines pixels).reach := by
  fun_induction rleLoop buf size w h pos lines pixels with
  | case1 pos lines pixels code _ _ _ ih => exact (lt_next_readCode buf pos).le.trans ih
  | case2 pos => exact (lt_next_readCode buf pos).le
  | case3 pos => exact (lt_next_readCode buf pos).le
  | case4 pos => exact (lt_next_readCode buf pos).le
  | case5 pos lines pixels code _ _ _ _ _ ih => exact (lt_next_readCode buf pos).le.trans ih
  | case6 pos lines pixels code _ _ _ ih => exact (lt_next_readCode buf pos).le.trans ih
  | case7 => exact le_rfl

/-- In the loop a code is read. -/
theorem next_le_reach_rleLoop {buf : Source} {size : ℕ} {pixels : List UInt8}
    (hloop : pos < size ∧ lines < h) :
    (readCode buf pos).next ≤ (rleLoop buf size w h pos lines pixels).reach := by
  rw [rleLoop, if_pos hloop]
  split_ifs
  · exact le_reach_rleLoop
  · exact le_rfl
  · exact le_rfl
  · exact le_rfl
  · exact le_reach_rleLoop
  · exact le_reach_rleLoop

/-- The decoder ends in front of a truncated code: at the first code, or behind it. -/
theorem forall_codes_cons (hcode : RleCode code color run) :
    (∀ runs rest, Codes (code ++ bytes) runs rest → Truncated rest → Stops w h lines count runs) ↔
      StopsAt w h lines count run ∨ ∀ runs rest, Codes bytes runs rest → Truncated rest →
        Stops w h (lines + if run = 0 then 1 else 0) (addRun w h count run) runs := by
  constructor
  · intro hstops
    by_cases hat : StopsAt w h lines count run
    · exact Or.inl hat
    · refine Or.inr fun runs rest hcodes htruncated => ?_
      exact (stops_cons.mp (hstops _ _ (.cons hcode hcodes) htruncated)).resolve_left hat
  · intro hstops runs rest hcodes htruncated
    generalize hbytes : code ++ bytes = l at hcodes
    cases hcodes with
    | nil => exact absurd hbytes.symm (htruncated.2 _ _ _ _ hcode)
    | cons hcode' hcodes =>
      obtain ⟨-, rfl, rfl⟩ := rleCode_unique hcode hcode' hbytes
      exact stops_cons.mpr (hstops.imp_right fun hrest => hrest _ _ hcodes htruncated)

/-- Behind no data there is no truncated code. -/
theorem not_truncated_of_nil {runs : List ℕ} (hcodes : Codes [] runs rest) : ¬ Truncated rest := by
  intro htruncated
  generalize hbytes : ([] : List UInt8) = l at hcodes
  cases hcodes with
  | nil => exact absurd hbytes.symm htruncated.1
  | cons hcode =>
    have hlength := congrArg List.length hbytes
    have hcodepos := length_pos_rleCode hcode
    rw [List.length_append, List.length_nil] at hlength
    omega

/-- **What the loop reads**, with `bytes` left: they are enough exactly when it ends in front of
a truncated code. -/
theorem reach_rleLoop_iff {pixels : List UInt8} (hlines : lines < h)
    (hdrop : rle.drop pos = bytes) (hpos : pos ≤ rle.length) :
    (rleLoop (rleSource rle behind) rle.length w h pos lines pixels).reach ≤ rle.length ↔
      ∀ runs rest, Codes bytes runs rest → Truncated rest →
        Stops w h lines pixels.length runs := by
  induction hn : bytes.length using Nat.strong_induction_on
    generalizing bytes pos lines pixels with
  | _ n ih =>
  by_cases hnil : bytes = []
  · -- there is no code left
    subst hnil
    rw [rleLoop_end (List.drop_eq_nil_iff.mp hdrop)]
    exact iff_of_true hpos fun runs rest hcodes htruncated =>
      absurd htruncated (not_truncated_of_nil hcodes)
  have hlength : rle.length = pos + bytes.length := by
    rw [← hdrop, List.length_drop]
    omega
  have hlt : pos < rle.length := by
    have := List.length_pos_of_ne_nil hnil
    omega
  by_cases htruncated : Truncated bytes
  · refine iff_of_false (fun hreach => ?_) fun hstops => ?_
    · have hnext : rle.length < (readCode (rleSource rle behind) pos).next :=
        lt_next_of_truncated hdrop htruncated
      have hread : (readCode (rleSource rle behind) pos).next ≤
          (rleLoop (rleSource rle behind) rle.length w h pos lines pixels).reach :=
        next_le_reach_rleLoop ⟨hlt, hlines⟩
      omega
    · exact not_stops_nil (hstops [] bytes (.nil bytes) htruncated)
  -- there is a whole code
  obtain ⟨code, color, run, rest, hcode, rfl⟩ : ∃ code color run rest, RleCode code color run ∧
      bytes = code ++ rest := by
    by_contra hnone
    exact htruncated ⟨hnil, fun code color run rest hcode hbytes =>
      hnone ⟨code, color, run, rest, hcode, hbytes⟩⟩
  have hcodepos := length_pos_rleCode hcode
  rw [List.length_append] at hn hlength
  have hnext : pos + code.length ≤ rle.length := by omega
  have hrest := drop_append hdrop
  rw [forall_codes_cons hcode, rleLoop]
  simp only [readCode_of_drop hcode hdrop]
  rw [if_pos ⟨hlt, hlines⟩]
  have hstep : ∀ {lines pixels}, lines < h →
      ((rleLoop (rleSource rle behind) rle.length w h (pos + code.length) lines pixels).reach ≤
        rle.length ↔ ∀ runs rest', Codes rest runs rest' → Truncated rest' →
          Stops w h lines pixels.length runs) :=
    fun hlines => ih rest.length (by omega) hlines hrest hnext rfl
  unfold StopsAt
  by_cases hzero : run = 0
  · subst hzero
    rw [if_neg (by omega), if_pos rfl, if_pos rfl, if_pos rfl, addRun_zero]
    by_cases hw : w = 0
    · rw [if_pos hw]
      exact iff_of_true hnext (Or.inl (Or.inl hw))
    rw [if_neg hw]
    by_cases hmod : Int.tmod (asSigned 32 pixels.length) w > 0
    · rw [if_pos hmod]
      exact iff_of_true hnext (Or.inl (Or.inr (Or.inl hmod)))
    rw [if_neg hmod]
    by_cases hlast : h ≤ lines + 1
    · rw [rleLoop, if_neg (by omega)]
      exact iff_of_true hnext (Or.inl (Or.inr (Or.inr hlast)))
    · rw [hstep (by omega)]
      refine (or_iff_right ?_).symm
      rintro (h | h | h)
      · exact hw h
      · exact hmod h
      · exact hlast h
  · unfold addRun
    rw [if_neg hzero, if_neg hzero, if_neg hzero, Nat.add_zero]
    by_cases hfits : Fits w h pixels.length run
    · rw [if_pos ⟨Nat.pos_of_ne_zero hzero, hfits⟩, if_pos hfits]
      by_cases hinside : Inside w h pixels.length run
      · rw [if_pos hinside, hstep hlines, List.length_append, List.length_replicate]
        exact (or_iff_right fun hout => hout.2 hinside).symm
      · rw [if_neg hinside]
        exact iff_of_true hnext (Or.inl ⟨hfits, hinside⟩)
    · rw [if_neg fun hwrite => hfits hwrite.2, if_neg hfits, hstep hlines]
      exact (or_iff_right fun hout => hfits hout.1).symm

end Codes

/-- **No byte behind the data is read** exactly when nothing is decoded, or the decoder ends
before a code that is not whole. -/
theorem staysInside_iff (rle : List UInt8) (w h : ℕ) :
    StaysInside rle w h ↔ h = 0 ∨
      ∀ runs rest, Codes rle runs rest → Truncated rest → Stops w h 0 0 runs := by
  have hbehind : ∀ behind, 0 < h → rle ≠ [] →
      ((decodeRleInt rle behind w h).reach ≤ rle.length ↔
        ∀ runs rest, Codes rle runs rest → Truncated rest → Stops w h 0 0 runs) := by
    intro behind hh hrle
    rw [decodeRleInt, if_neg hrle]
    exact reach_rleLoop_iff hh List.drop_zero (Nat.zero_le _)
  by_cases hh : h = 0
  · refine iff_of_true (fun behind => ?_) (Or.inl hh)
    rw [decodeRleInt]
    split_ifs
    · exact Nat.zero_le _
    · rw [rleLoop, if_neg (by omega)]
      exact Nat.zero_le _
  rw [or_iff_right hh]
  by_cases hrle : rle = []
  · subst hrle
    refine iff_of_true (fun behind => ?_) fun runs rest hcodes htruncated => ?_
    · rw [decodeRleInt, if_pos rfl]
      exact Nat.zero_le _
    · exact absurd htruncated (not_truncated_of_nil hcodes)
  · constructor
    · exact fun hinside => (hbehind (fun _ => 0) (by omega) hrle).mp (hinside _)
    · exact fun hstops behind => (hbehind behind (by omega) hrle).mpr hstops

/-- A zero as the only byte of the data is read with the byte behind it. -/
theorem not_staysInside_zero : ¬ StaysInside [0] 1 1 := by
  intro hinside
  have htruncated : Truncated [0] := by
    refine ⟨List.cons_ne_nil _ _, fun code color run rest hcode hbytes => ?_⟩
    cases hcode with
    | pixel hcolor => exact hcolor (List.cons.inj hbytes).1.symm
    | zeros => exact absurd (List.cons.inj hbytes).2.symm (List.cons_ne_nil _ _)
    | zerosLong => exact absurd (List.cons.inj hbytes).2.symm (List.cons_ne_nil _ _)
    | color => exact absurd (List.cons.inj hbytes).2.symm (List.cons_ne_nil _ _)
    | colorLong => exact absurd (List.cons.inj hbytes).2.symm (List.cons_ne_nil _ _)
  have hnext : ([0] : List UInt8).length < (readCode (rleSource [0] fun _ => 0) 0).next :=
    lt_next_of_truncated rfl htruncated
  have hreach := hinside fun _ => 0
  rw [decodeRleInt, if_neg (List.cons_ne_nil _ _)] at hreach
  have hread := (next_le_reach_rleLoop ⟨Nat.one_pos, Nat.one_pos⟩).trans hreach
  exact absurd hread (not_le.mpr hnext)

end Pgs
end AmlSubtitle
