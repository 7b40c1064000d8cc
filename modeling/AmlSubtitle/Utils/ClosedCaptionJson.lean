import AmlSubtitle.Utils.DtvccServiceDocument
import AmlSubtitle.Utils.VbiPageCut

/-!
# `utils/ClosedCaptionJson.c`: the document of a caption decoder

`tvcc_to_json`, with `vbi_fetch_cc_page` of the decoder.

* The clock is an argument: `flash` is what `o_init` makes of it.  The first component of the
  result is whether the call returns 0.
* `Reported`: when it does, the buffer holds a zero-terminated JSON text.
* `reported_of_rowsFit`: **this holds of every service, and of every page that is not cut
  between its first row and its last.**  A page that is cut there is never written as a JSON
  text (`not_wellFormed_of_not_rowsFit`), but it can be reported (`not_reported_cut`).
-/

namespace AmlSubtitle
namespace ClosedCaptionJson

open Json Words

/-- The part of `tvcc_decoder` that is read: the pages shown on the eight caption channels,
and the services. -/
structure TvccDecoder where
  vbi : Fin 8 → VbiPage
  dtvcc : DtvccDecoder

/-- `vbi_fetch_cc_page`. -/
def vbi_fetch_cc_page (td : TvccDecoder) (pgno : ℤ) : Option VbiPage :=
  if pgno < 1 ∨ pgno > 8 then none else some (td.vbi (Fin.ofNat 8 (pgno - 1).toNat))

/-- `CLOSED_CAPTION_SERVICE6`. -/
def CLOSED_CAPTION_SERVICE6 : ℤ := 14

/-- `tvcc_to_json`. -/
def tvcc_to_json (td : TvccDecoder) (pgno : ℤ) (len : ℕ) (flash : Bool) : Bool × Output :=
  let out := o_init len flash
  if pgno ≤ 8 then
    match vbi_fetch_cc_page td pgno with
    | none => (false, out)
    | some pg => vbi_page_to_json pg out
  else if pgno > CLOSED_CAPTION_SERVICE6 then (false, out)
  else dtvcc_service_to_json td.dtvcc (td.dtvcc.service (Fin.ofNat 6 (pgno - 1 - 8).toNat)) out

/-- A call that returns 0 leaves a JSON text in the buffer, with a zero behind it. -/
def Reported (len : ℕ) (res : Bool × Output) : Prop :=
  res.1 = true → res.2.text.length < len ∧ (0 : UInt8) ∉ res.2.text ∧ WellFormed res.2.text

/-- The document of a page is not cut between its first row and its last: either there is no
room up to the first, or there is room up to the end of the last. -/
def RowsFit (td : TvccDecoder) (pgno : ℤ) (len : ℕ) (flash : Bool) : Prop :=
  ∀ pg, vbi_fetch_cc_page td pgno = some pg →
    asSigned 32 len ≤ (vbiPageHeadText pg).length ∨
      ((vbiPageRowsText pg flash).length : ℤ) < asSigned 32 len

theorem o_init_left (len : ℕ) (flash : Bool) : (o_init len flash).left = asSigned 32 len := by
  rw [o_init]

/-- A whole document is reported. -/
theorem reported_wrote {len : ℕ} {flash : Bool} {d : Text} (hvalue : Value d)
    (hroom : (d.length : ℤ) < (o_init len flash).left) :
    Reported len (true, (o_init len flash).wrote d true) := by
  intro _
  refine ⟨?_, hvalue.level.zero_not_mem, hvalue.wellFormed⟩
  rw [o_init_left] at hroom
  have hlt : (d.length : ℤ) < len := hroom.trans_le (asSigned_le 32 len)
  show d.length < len
  exact_mod_cast hlt

theorem reported_page {pg : VbiPage} {len : ℕ} {flash : Bool}
    (hfit : asSigned 32 len ≤ (vbiPageHeadText pg).length ∨
      ((vbiPageRowsText pg flash).length : ℤ) < asSigned 32 len) :
    Reported len (vbi_page_to_json pg (o_init len flash)) := by
  intro hok
  have hprop : (o_init len flash).has_prop = false := rfl
  have hflash : (o_init len flash).flash = flash := rfl
  rw [← o_init_left len flash] at hfit
  rcases hfit with hhead | hrows
  · exact absurd hok (ne_true_of_eq_false (vbi_page_to_json_stops hprop hhead))
  · obtain ⟨hroom, hres⟩ := vbi_page_to_json_of_rows_fit hprop hflash hrows hok
    rw [hres]
    exact reported_wrote (value_vbiPageText pg flash) hroom rfl

theorem reported_service {td : DtvccDecoder} {srv : DtvccService} {len : ℕ} {flash : Bool} :
    Reported len (dtvcc_service_to_json td srv (o_init len flash)) := by
  intro hok
  have hprop : (o_init len flash).has_prop = false := rfl
  have hflash : (o_init len flash).flash = flash := rfl
  have hemits : Emits flash (dtvcc_service_to_json td srv) false (serviceText td flash srv) true :=
    emits_service srv
  have hpos : 0 < (o_init len flash).left := by
    by_contra hleft
    exact absurd hok (ne_true_of_eq_false (symbol_of_no_room _ _ (not_lt.mp hleft)))
  have hroom : ((serviceText td flash srv).length : ℤ) < (o_init len flash).left := by
    by_contra hroom
    exact absurd hok (ne_true_of_eq_false (hemits.stops _ hprop hflash hpos (not_lt.mp hroom)))
  rw [hemits.fits _ hprop hflash hroom]
  exact reported_wrote (value_serviceText srv) hroom rfl

/-- **What is reported is a JSON text.** -/
theorem reported_of_rowsFit (td : TvccDecoder) (pgno : ℤ) (len : ℕ) (flash : Bool)
    (hfit : RowsFit td pgno len flash) : Reported len (tvcc_to_json td pgno len flash) := by
  rw [tvcc_to_json]
  split_ifs with hpage hservice
  · rcases hfetch : vbi_fetch_cc_page td pgno with _ | pg
    · exact fun hok => absurd hok Bool.false_ne_true
    · exact reported_page (hfit pg hfetch)
  · exact fun hok => absurd hok Bool.false_ne_true
  · exact reported_service

/-- **A page that is cut is reported only as a text that is none.** -/
theorem not_wellFormed_of_not_rowsFit {td : TvccDecoder} {pgno : ℤ} {len : ℕ} {flash : Bool}
    (hfit : ¬RowsFit td pgno len flash) (hok : (tvcc_to_json td pgno len flash).1 = true) :
    ¬WellFormed (tvcc_to_json td pgno len flash).2.text := by
  obtain ⟨pg, hpg⟩ := not_forall.mp hfit
  obtain ⟨hfetch, hcut⟩ := Classical.not_imp.mp hpg
  obtain ⟨hhead, hrows⟩ := not_or.mp hcut
  have hpage : pgno ≤ 8 := by
    rw [vbi_fetch_cc_page] at hfetch
    split_ifs at hfetch with hpgno
    exact (not_lt.mp (not_or.mp hpgno).2)
  rw [tvcc_to_json, if_pos hpage, hfetch] at hok ⊢
  dsimp only at hok ⊢
  rw [← o_init_left len flash] at hhead hrows
  exact not_wellFormed_of_cut rfl rfl (not_le.mp hhead) (not_lt.mp hrows) hok

/-! ## A page that is cut -/

/-- A decoder with one letter in the first row of its caption pages, and no windows. -/
def oneLetter : TvccDecoder where
  vbi _ :=
    { pgno := 1
      rows := 15
      columns := 34
      text i := if i = 0 then ⟨false, false, false, VBI_OPAQUE, 7, 0, 65⟩ else VbiChar.zero
      color_map i := if i = 7 then 0xffffff else 0
      decoded i := by
        split_ifs
        · exact Or.inr (by decide)
        · exact Or.inl rfl }
  dtvcc :=
    { lang := ascii "eng"
      decoder_param := 0
      service _ := ⟨fun _ => ⟨fun _ _ => 0, fun _ _ => DtvccPenStyle.zero, false, 0, 0, 0, 0, false,
        0, 0, false, false, 0, 0, ⟨.left, .left_right, .left_right, false, .snap, .left_right, 0, 0,
          .solid, .none, 0, false, 0⟩, 0, .none⟩⟩ }

theorem reported_oneLetter : Reported 1100 (tvcc_to_json oneLetter 1 1100 false) :=
  reported_of_rowsFit oneLetter 1 1100 false (by
    intro pg hpg
    obtain rfl : oneLetter.vbi 0 = pg := Option.some.inj hpg
    exact Or.inr (by decide +kernel))

/-- In 980 bytes the last row is cut behind its first bracket, and the call returns 0. -/
theorem not_reported_cut : ¬Reported 980 (tvcc_to_json oneLetter 1 980 false) := by
  have hok : (tvcc_to_json oneLetter 1 980 false).1 = true := by decide +kernel
  refine fun hreported => absurd (hreported hok).2.2 (not_wellFormed_of_not_rowsFit ?_ hok)
  intro hfit
  rcases hfit (oneLetter.vbi 0) rfl with hhead | hrows
  · exact absurd hhead (by decide +kernel)
  · exact absurd hrows (by decide +kernel)

end ClosedCaptionJson
end AmlSubtitle
