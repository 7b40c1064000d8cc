import AmlSubtitle.Parser.DvbParser

/-!
# The entries of a CLUT segment

What `parseClutSegment` reads and writes, and what the entries of the segment ask for.

* `clutReads`, `clutWrites`: the bytes that the loop reads and the entries of the tables that
  it writes; `clutEntries_eq` says that the words of the CLUT are written so.
* `completeEntries`, `meantWrites`: the entries that lie in the segment, and what they ask for.
* `appliesEntries_iff`: for which segments each complete entry is applied, inside its tables,
  without a look behind the segment.
-/

namespace AmlSubtitle
namespace Dvb

open DVBSubContext

/-- A colour for an entry of a table. -/
structure ClutWrite where
  table : ClutTable
  entryId : ℕ
  colour : UInt32
  deriving DecidableEq, Repr

/-- Writes to the words of a CLUT, one after the other. -/
def applyWrites (words : List UInt32) (writes : List ClutWrite) : List UInt32 :=
  writes.foldl (fun words write => writeClut words write.table write.entryId write.colour) words

section Entry

variable (buf : Source) (i : ℕ)

/-- `entry_id`. -/
def entryId : ℕ := (buf i).toNat

/-- `depth`. -/
def entryDepth : ℕ := (buf (i + 1)).toNat &&& 0xe0

/-- `fullRange`. -/
def entryFullRange : Bool := (buf (i + 1)).toNat &&& 1 == 1

/-- The bytes of an entry. -/
def entrySize : ℕ := if entryFullRange buf i then 6 else 4

/-- The entry has a flag for a table. -/
def Flagged : Prop := entryDepth buf i ≠ 0

instance : Decidable (Flagged buf i) := inferInstanceAs (Decidable (_ ≠ _))

/-- A write to a table, where its flag is set. -/
def flagWrite (flag : ℕ) (table : ClutTable) : List ClutWrite :=
  if entryDepth buf i &&& flag ≠ 0 then
    [{ table := table
       entryId := entryId buf i
       colour := entryColour buf (i + 2) (entryFullRange buf i) }]
  else
    []

/-- What the entry asks for. -/
def entryWrites : List ClutWrite :=
  flagWrite buf i 0x80 .clut4 ++ flagWrite buf i 0x40 .clut16 ++ flagWrite buf i 0x20 .clut256

/-- The entry's index lies in each of the tables that its flags select. -/
def IdFits : Prop :=
  (entryDepth buf i &&& 0x80 ≠ 0 → entryId buf i < 4) ∧
    (entryDepth buf i &&& 0x40 ≠ 0 → entryId buf i < 16)

/-- The bytes of an entry that is decoded. -/
def entryReads : List ℕ := (List.range (entrySize buf i)).map (i + ·)

end Entry

/-- What the loop of `parseClutSegment` writes, in at most `fuel` passes. -/
def clutWrites (buf : Source) (bufEnd : ℕ) : ℕ → ℕ → List ClutWrite
  | 0, _ => []
  | fuel + 1, i =>
    if i + 4 < bufEnd then
      if entryDepth buf i = 0 then
        []
      else
        entryWrites buf i ++ clutWrites buf bufEnd fuel (i + entrySize buf i)
    else
      []

/-- The bytes that the loop reads. -/
def clutReads (buf : Source) (bufEnd : ℕ) : ℕ → ℕ → List ℕ
  | 0, _ => []
  | fuel + 1, i =>
    if i + 4 < bufEnd then
      if entryDepth buf i = 0 then
        [i, i + 1]
      else
        entryReads buf i ++ clutReads buf bufEnd fuel (i + entrySize buf i)
    else
      []

/-- Where the entries start that lie in the segment from `i` on, of at most `fuel`. -/
def completeEntries (buf : Source) (bufSize : ℕ) : ℕ → ℕ → List ℕ
  | 0, _ => []
  | fuel + 1, i =>
    if i + entrySize buf i ≤ bufSize then
      i :: completeEntries buf bufSize fuel (i + entrySize buf i)
    else
      []

/-- Where the complete entries end. -/
def entriesEnd (buf : Source) (bufSize : ℕ) : ℕ → ℕ → ℕ
  | 0, i => i
  | fuel + 1, i =>
    if i + entrySize buf i ≤ bufSize then
      entriesEnd buf bufSize fuel (i + entrySize buf i)
    else
      i

theorem applyWrites_append (words : List UInt32) (first second : List ClutWrite) :
    applyWrites words (first ++ second) = applyWrites (applyWrites words first) second :=
  List.foldl_append

section Loop

variable {buf : Source} {bufSize fuel i : ℕ}

theorem four_le_entrySize (buf : Source) (i : ℕ) : 4 ≤ entrySize buf i := by
  rw [entrySize]
  split_ifs <;> omega

theorem entrySize_cases (buf : Source) (i : ℕ) : entrySize buf i = 4 ∨ entrySize buf i = 6 := by
  rw [entrySize]
  split_ifs
  · exact .inr rfl
  · exact .inl rfl

theorem applyWrites_flagWrite (words : List UInt32) (flag : ℕ) (table : ClutTable) :
    applyWrites words (flagWrite buf i flag table) =
      if entryDepth buf i &&& flag ≠ 0 then
        writeClut words table (entryId buf i) (entryColour buf (i + 2) (entryFullRange buf i))
      else words := by
  rw [flagWrite]
  split_ifs <;> rfl

/-- A pass of the loop. -/
theorem clutEntries_succ (words : List UInt32) :
    clutEntries buf bufSize (fuel + 1) i words =
      if i + 4 < bufSize then
        if entryDepth buf i = 0 then words
        else clutEntries buf bufSize fuel (i + entrySize buf i)
          (applyWrites words (entryWrites buf i))
      else words := by
  have hsize : i + entrySize buf i = if entryFullRange buf i then i + 6 else i + 4 := by
    rw [entrySize]
    split_ifs <;> rfl
  rw [entryWrites, applyWrites_append, applyWrites_append, applyWrites_flagWrite,
    applyWrites_flagWrite, applyWrites_flagWrite, hsize]
  rfl

/-- **The words of the CLUT are written so.** -/
theorem clutEntries_eq (words : List UInt32) :
    clutEntries buf bufSize fuel i words = applyWrites words (clutWrites buf bufSize fuel i) := by
  induction fuel generalizing i words with
  | zero => rfl
  | succ fuel ih =>
    rw [clutEntries_succ, clutWrites]
    split_ifs
    · rfl
    · rw [ih, applyWrites_append]
    · rfl

/-! ## Which segments are applied -/

/-- What the flags of an entry select. -/
theorem entryWrites_eq_nil : entryWrites buf i = [] ↔ ¬ Flagged buf i := by
  have hflags : ∀ b < 256, (b &&& 0xe0) &&& 0x80 = 0 → (b &&& 0xe0) &&& 0x40 = 0 →
      (b &&& 0xe0) &&& 0x20 = 0 → b &&& 0xe0 = 0 := by decide +kernel
  have hdepth := hflags (buf (i + 1)).toNat (buf (i + 1)).toNat_lt
  rw [← entryDepth] at hdepth
  rw [Flagged, not_not, entryWrites, List.append_eq_nil_iff, List.append_eq_nil_iff, flagWrite,
    flagWrite, flagWrite]
  constructor
  · rintro ⟨⟨h80, h40⟩, h20⟩
    exact hdepth (by simpa using h80) (by simpa using h40) (by simpa using h20)
  · intro h
    simp [h]

/-- An entry's index lies in the tables that it is written to. -/
theorem idFits_iff :
    IdFits buf i ↔ ∀ write ∈ entryWrites buf i, write.entryId < write.table.size := by
  have hbyte : entryId buf i < 256 := (buf i).toNat_lt
  simp only [entryWrites, List.forall_mem_append, IdFits, flagWrite]
  split_ifs with h80 h40 h20 h20 h40 h20 h20
  all_goals simp [h80, h40, ClutTable.size, hbyte]

/-- The loop applies the complete entries, inside the tables and the segment. -/
structure LoopApplies (buf : Source) (bufSize fuel i : ℕ) : Prop where
  applied : clutWrites buf bufSize fuel i =
    (completeEntries buf bufSize fuel i).flatMap (entryWrites buf)
  tables : ∀ write ∈ clutWrites buf bufSize fuel i, write.entryId < write.table.size
  inside : ∀ k ∈ clutReads buf bufSize fuel i, k < bufSize

/-- The entries are such that the loop does so. -/
structure EntriesFit (buf : Source) (bufSize fuel i : ℕ) : Prop where
  ids : ∀ e ∈ completeEntries buf bufSize fuel i, IdFits buf e
  -- the loop goes on only with five bytes left
  last : ∀ e ∈ completeEntries buf bufSize fuel i,
    Flagged buf e → entryFullRange buf e = false → e + 4 ≠ bufSize
  -- and does so with a full entry that has six
  cut : entriesEnd buf bufSize fuel i + 5 = bufSize →
    Flagged buf (entriesEnd buf bufSize fuel i) →
      ∃ e ∈ completeEntries buf bufSize fuel i, ¬ Flagged buf e
  -- an entry without a flag is the last that it looks at
  flagged : (completeEntries buf bufSize fuel i).Pairwise fun first second =>
    Flagged buf second → Flagged buf first

/-- An entry with flags that is not at the end of the segment. -/
theorem entriesFit_flagged (hcomplete : i + entrySize buf i ≤ bufSize) (hflagged : Flagged buf i)
    (hmore : i + 4 < bufSize) :
    EntriesFit buf bufSize (fuel + 1) i ↔
      IdFits buf i ∧ EntriesFit buf bufSize fuel (i + entrySize buf i) := by
  have hentries : completeEntries buf bufSize (fuel + 1) i =
      i :: completeEntries buf bufSize fuel (i + entrySize buf i) := by
    rw [completeEntries, if_pos hcomplete]
  have hend : entriesEnd buf bufSize (fuel + 1) i =
      entriesEnd buf bufSize fuel (i + entrySize buf i) := by
    rw [entriesEnd, if_pos hcomplete]
  constructor
  · rintro ⟨hids, hlast, hcut, hflags⟩
    rw [hentries] at hids hlast hcut hflags
    rw [hend] at hcut
    refine ⟨hids i (by simp), fun e he => hids e (by simp [he]),
      fun e he => hlast e (by simp [he]), fun h5 hf => ?_, (List.pairwise_cons.mp hflags).2⟩
    obtain ⟨e, he, hnot⟩ := hcut h5 hf
    rcases List.mem_cons.mp he with rfl | he
    · exact absurd hflagged hnot
    · exact ⟨e, he, hnot⟩
  · rintro ⟨hid, hids, hlast, hcut, hflags⟩
    refine ⟨?_, ?_, ?_, ?_⟩
    · rw [hentries, List.forall_mem_cons]
      exact ⟨hid, hids⟩
    · rw [hentries, List.forall_mem_cons]
      exact ⟨fun _ _ => by omega, hlast⟩
    · rw [hentries, hend]
      intro h5 hf
      obtain ⟨e, he, hnot⟩ := hcut h5 hf
      exact ⟨e, List.mem_cons_of_mem _ he, hnot⟩
    · rw [hentries, List.pairwise_cons]
      exact ⟨fun _ _ _ => hflagged, hflags⟩

/-- An entry without flags: none behind it may have any. -/
theorem entriesFit_flagless (hcomplete : i + entrySize buf i ≤ bufSize)
    (hflagless : ¬ Flagged buf i) :
    EntriesFit buf bufSize (fuel + 1) i ↔
      ∀ e ∈ completeEntries buf bufSize fuel (i + entrySize buf i), ¬ Flagged buf e := by
  have hentries : completeEntries buf bufSize (fuel + 1) i =
      i :: completeEntries buf bufSize fuel (i + entrySize buf i) := by
    rw [completeEntries, if_pos hcomplete]
  have hfits : ∀ {e}, ¬ Flagged buf e → IdFits buf e := by
    intro e he
    rw [idFits_iff, entryWrites_eq_nil.mpr he]
    simp
  constructor
  · rintro ⟨-, -, -, hflags⟩ e he hflagged
    rw [hentries, List.pairwise_cons] at hflags
    exact hflagless (hflags.1 e he hflagged)
  · intro hnone
    have hall : ∀ e ∈ completeEntries buf bufSize (fuel + 1) i, ¬ Flagged buf e := by
      rw [hentries, List.forall_mem_cons]
      exact ⟨hflagless, hnone⟩
    refine ⟨fun e he => hfits (hall e he), fun e he hf => absurd hf (hall e he), fun _ _ => ?_,
      List.pairwise_of_forall_mem_list fun e _ e' he' hf => absurd hf (hall e' he')⟩
    exact ⟨i, by rw [hentries]; exact List.mem_cons_self, hflagless⟩

/-- An entry with flags that is not at the end of the segment is applied. -/
theorem loopApplies_flagged (hcomplete : i + entrySize buf i ≤ bufSize) (hflagged : Flagged buf i)
    (hmore : i + 4 < bufSize) :
    LoopApplies buf bufSize (fuel + 1) i ↔
      (∀ write ∈ entryWrites buf i, write.entryId < write.table.size) ∧
        LoopApplies buf bufSize fuel (i + entrySize buf i) := by
  have hwrites : clutWrites buf bufSize (fuel + 1) i =
      entryWrites buf i ++ clutWrites buf bufSize fuel (i + entrySize buf i) := by
    rw [clutWrites, if_pos hmore, if_neg hflagged]
  have hreads : clutReads buf bufSize (fuel + 1) i =
      entryReads buf i ++ clutReads buf bufSize fuel (i + entrySize buf i) := by
    rw [clutReads, if_pos hmore, if_neg hflagged]
  have hmeant : (completeEntries buf bufSize (fuel + 1) i).flatMap (entryWrites buf) =
      entryWrites buf i ++ (completeEntries buf bufSize fuel (i + entrySize buf i)).flatMap
        (entryWrites buf) := by
    rw [completeEntries, if_pos hcomplete, List.flatMap_cons]
  have hown : ∀ k ∈ entryReads buf i, k < bufSize := by
    intro k hk
    obtain ⟨m, hm, rfl⟩ := List.mem_map.mp hk
    have hlt := List.mem_range.mp hm
    omega
  constructor
  · rintro ⟨happlied, htables, hinside⟩
    rw [hwrites, hmeant] at happlied
    rw [hwrites, List.forall_mem_append] at htables
    rw [hreads, List.forall_mem_append] at hinside
    exact ⟨htables.1, List.append_cancel_left happlied, htables.2, hinside.2⟩
  · rintro ⟨hids, happlied, htables, hinside⟩
    refine ⟨by rw [hwrites, hmeant, happlied], ?_, ?_⟩
    · rw [hwrites, List.forall_mem_append]
      exact ⟨hids, htables⟩
    · rw [hreads, List.forall_mem_append]
      exact ⟨hown, hinside⟩

/-- The loop returns at an entry without flags. -/
theorem loopApplies_flagless (hcomplete : i + entrySize buf i ≤ bufSize)
    (hflagless : ¬ Flagged buf i) (hmore : i + 4 < bufSize) :
    LoopApplies buf bufSize (fuel + 1) i ↔
      ∀ e ∈ completeEntries buf bufSize fuel (i + entrySize buf i), ¬ Flagged buf e := by
  have hdepth : entryDepth buf i = 0 := not_not.mp hflagless
  have hwrites : clutWrites buf bufSize (fuel + 1) i = [] := by
    rw [clutWrites, if_pos hmore, if_pos hdepth]
  have hreads : clutReads buf bufSize (fuel + 1) i = [i, i + 1] := by
    rw [clutReads, if_pos hmore, if_pos hdepth]
  have hmeant : (completeEntries buf bufSize (fuel + 1) i).flatMap (entryWrites buf) = [] ↔
      ∀ e ∈ completeEntries buf bufSize fuel (i + entrySize buf i), ¬ Flagged buf e := by
    rw [completeEntries, if_pos hcomplete, List.flatMap_eq_nil_iff, List.forall_mem_cons]
    simp only [entryWrites_eq_nil, hflagless, not_false_eq_true, true_and]
  rw [← hmeant]
  constructor
  · rintro ⟨happlied, -, -⟩
    exact happlied.symm.trans hwrites
  · intro hnil
    refine ⟨hwrites.trans hnil.symm, by simp [hwrites], ?_⟩
    rw [hreads]
    simp
    omega

/-- A reduced entry at the end of the segment is left out. -/
theorem loopApplies_last (hcomplete : i + entrySize buf i ≤ bufSize)
    (hmore : ¬ i + 4 < bufSize) :
    LoopApplies buf bufSize (fuel + 1) i ↔ EntriesFit buf bufSize (fuel + 1) i := by
  have hsize := four_le_entrySize buf i
  have hfour : entrySize buf i = 4 := by omega
  have hreduced : entryFullRange buf i = false := by
    by_contra hfull
    rw [entrySize, if_pos (by simpa using hfull)] at hfour
    omega
  have hrest : completeEntries buf bufSize fuel (i + entrySize buf i) = [] := by
    cases fuel with
    | zero => rfl
    | succ fuel =>
      have hnext := four_le_entrySize buf (i + entrySize buf i)
      rw [completeEntries, if_neg (by omega)]
  have hentries : completeEntries buf bufSize (fuel + 1) i = [i] := by
    rw [completeEntries, if_pos hcomplete, hrest]
  have hwrites : clutWrites buf bufSize (fuel + 1) i = [] := by rw [clutWrites, if_neg hmore]
  have hreads : clutReads buf bufSize (fuel + 1) i = [] := by rw [clutReads, if_neg hmore]
  have hmeant : (completeEntries buf bufSize (fuel + 1) i).flatMap (entryWrites buf) = [] ↔
      ¬ Flagged buf i := by
    rw [hentries, List.flatMap_singleton, entryWrites_eq_nil]
  have hend : entriesEnd buf bufSize (fuel + 1) i = i + entrySize buf i := by
    rw [entriesEnd, if_pos hcomplete]
    cases fuel with
    | zero => rfl
    | succ fuel =>
      have hnext := four_le_entrySize buf (i + entrySize buf i)
      rw [entriesEnd, if_neg (by omega)]
  have hfit : EntriesFit buf bufSize (fuel + 1) i ↔ ¬ Flagged buf i := by
    constructor
    · rintro ⟨-, hlast, -, -⟩ hflagged
      exact hlast i (by simp [hentries]) hflagged hreduced (by omega)
    · intro hflagless
      rw [entriesFit_flagless hcomplete hflagless, hrest]
      simp
  rw [hfit, ← hmeant]
  constructor
  · rintro ⟨happlied, -, -⟩
    exact happlied.symm.trans hwrites
  · intro hnil
    exact ⟨hwrites.trans hnil.symm, by simp [hwrites], by simp [hreads]⟩

/-- An entry that is cut off: the loop does not stop at a full one that lacks its last byte. -/
theorem loopApplies_cut (hcut : ¬ i + entrySize buf i ≤ bufSize) :
    LoopApplies buf bufSize (fuel + 1) i ↔ EntriesFit buf bufSize (fuel + 1) i := by
  have hentries : completeEntries buf bufSize (fuel + 1) i = [] := by
    rw [completeEntries, if_neg hcut]
  have hend : entriesEnd buf bufSize (fuel + 1) i = i := by rw [entriesEnd, if_neg hcut]
  have hfit : EntriesFit buf bufSize (fuel + 1) i ↔ ¬ (i + 5 = bufSize ∧ Flagged buf i) := by
    constructor
    · rintro ⟨-, -, hcut, -⟩ ⟨h5, hflagged⟩
      rw [hend, hentries] at hcut
      simpa using hcut h5 hflagged
    · intro hnot
      refine ⟨by simp [hentries], by simp [hentries], ?_, by simp [hentries]⟩
      rw [hend]
      exact fun h5 hflagged => absurd ⟨h5, hflagged⟩ hnot
  rw [hfit]
  have hcases := entrySize_cases buf i
  by_cases hmore : i + 4 < bufSize
  · by_cases hflagged : Flagged buf i
    · refine iff_of_false ?_ fun hnot => hnot ⟨by omega, hflagged⟩
      rintro ⟨happlied, -, -⟩
      rw [hentries, clutWrites, if_pos hmore, if_neg hflagged] at happlied
      exact entryWrites_eq_nil.mp (List.append_eq_nil_iff.mp happlied).1 hflagged
    · have hdepth : entryDepth buf i = 0 := not_not.mp hflagged
      refine iff_of_true ⟨?_, ?_, ?_⟩ fun h => hflagged h.2
      · rw [hentries, clutWrites, if_pos hmore, if_pos hdepth]
        rfl
      · rw [clutWrites, if_pos hmore, if_pos hdepth]
        simp
      · rw [clutReads, if_pos hmore, if_pos hdepth]
        simp
        omega
  · refine iff_of_true ⟨?_, ?_, ?_⟩ (by omega)
    · rw [hentries, clutWrites, if_neg hmore]
      rfl
    · rw [clutWrites, if_neg hmore]
      simp
    · rw [clutReads, if_neg hmore]
      simp

/-- **The loop**: it applies the complete entries exactly when they are such. -/
theorem loopApplies_iff (hfuel : bufSize ≤ i + fuel) :
    LoopApplies buf bufSize fuel i ↔ EntriesFit buf bufSize fuel i := by
  induction fuel generalizing i with
  | zero =>
    refine iff_of_true ⟨rfl, by simp [clutWrites], by simp [clutReads]⟩
      ⟨by simp [completeEntries], by simp [completeEntries], ?_, by simp [completeEntries]⟩
    rw [entriesEnd]
    omega
  | succ fuel ih =>
    have hsize := four_le_entrySize buf i
    by_cases hcomplete : i + entrySize buf i ≤ bufSize
    · by_cases hmore : i + 4 < bufSize
      · by_cases hflagged : Flagged buf i
        · rw [entriesFit_flagged hcomplete hflagged hmore, idFits_iff, ← ih (by omega),
            loopApplies_flagged hcomplete hflagged hmore]
        · rw [entriesFit_flagless hcomplete hflagged,
            loopApplies_flagless hcomplete hflagged hmore]
      · exact loopApplies_last hcomplete hmore
    · exact loopApplies_cut hcomplete

end Loop

/-! ## The segment -/

/-- What `parseClutSegment` writes. -/
def segmentWrites (buf : Source) (bufSize : ℕ) : List ClutWrite := clutWrites buf bufSize bufSize 2

/-- The bytes that `parseClutSegment` reads; it passes over the version. -/
def segmentReads (buf : Source) (bufSize : ℕ) : List ℕ := 0 :: clutReads buf bufSize bufSize 2

/-- Where the entries start that lie in the segment. -/
def segmentEntries (buf : Source) (bufSize : ℕ) : List ℕ := completeEntries buf bufSize bufSize 2

/-- What the complete entries ask for, each once. -/
def meantWrites (buf : Source) (bufSize : ℕ) : List ClutWrite :=
  (segmentEntries buf bufSize).flatMap (entryWrites buf)

/-- Writes to the CLUT with a given id, which is there afterwards, and to nothing else. -/
def writeToClut (ctx : DVBSubContext) (clutId : ℕ) (writes : List ClutWrite) : DVBSubContext :=
  let clutList :=
    if (ctx.getClut clutId).isNone then
      { id := clutId, words := gDefaultClut } :: ctx.clutList
    else
      ctx.clutList
  { ctx with
    clutList := Keyed.modify DVBSubCLUT.id clutList clutId fun clut =>
      { clut with words := applyWrites clut.words writes } }

/-- Each complete entry is applied once, to its index of the tables that its flags select, and
nothing else is changed or read. -/
structure AppliesEntries (ctx : DVBSubContext) (buf : Source) (bufSize : ℕ) : Prop where
  applied : segmentWrites buf bufSize = meantWrites buf bufSize
  changes : ctx.parseClutSegment buf bufSize =
    writeToClut ctx (buf 0).toNat (meantWrites buf bufSize)
  tables : ∀ write ∈ segmentWrites buf bufSize, write.entryId < write.table.size
  inside : ∀ k ∈ segmentReads buf bufSize, k < bufSize

/-- What a segment does is what it writes. -/
theorem parseClutSegment_eq (ctx : DVBSubContext) (buf : Source) (bufSize : ℕ) :
    ctx.parseClutSegment buf bufSize =
      writeToClut ctx (buf 0).toNat (segmentWrites buf bufSize) := by
  rw [parseClutSegment, writeToClut, segmentWrites]
  simp only [clutEntries_eq]

/-- **CLUT segments**: each complete entry is applied, inside its tables and without a look
behind the segment, exactly when the segment has a first byte and its entries fit. -/
theorem appliesEntries_iff (ctx : DVBSubContext) (buf : Source) (bufSize : ℕ) :
    AppliesEntries ctx buf bufSize ↔ 0 < bufSize ∧ EntriesFit buf bufSize bufSize 2 := by
  rw [← loopApplies_iff (by omega)]
  constructor
  · rintro ⟨happlied, -, htables, hinside⟩
    rw [segmentReads, List.forall_mem_cons] at hinside
    exact ⟨hinside.1, happlied, htables, hinside.2⟩
  · rintro ⟨hheader, happlied, htables, hinside⟩
    refine ⟨happlied, ?_, htables, ?_⟩
    · rw [parseClutSegment_eq, segmentWrites, happlied]
      rfl
    · rw [segmentReads, List.forall_mem_cons]
      exact ⟨hheader, hinside⟩

/-- White for entry 1 of all three tables, as a reduced entry. -/
def oneReduced : List UInt8 := [0, 0, 1, 0xe0, 0xfe, 0x08]

/-- The entry ends with the segment, and is left out. -/
theorem not_appliesEntries_oneReduced :
    ¬ ∀ (ctx : DVBSubContext) (buf : Source) (bufSize : ℕ), AppliesEntries ctx buf bufSize := by
  intro h
  have happlied := (h init (sourceOf oneReduced) oneReduced.length).applied
  exact absurd (congrArg List.length happlied) (by decide +kernel)

end Dvb
end AmlSubtitle
