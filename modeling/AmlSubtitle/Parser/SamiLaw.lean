import AmlSubtitle.Parser.SamiDecoding

/-!
# When a SAMI body is decoded

* `Body`: some lines, and the blocks.
* `Decodes`: the items are those of the blocks with text, each from the start of its block to the
  start of the next one, and there is no write out of bounds.
* `Decodable`: what it takes, block by block.  A block whose `SYNC` tag ends an item is lost, so
  that no block with text may follow another one.
* `decodes_blocks_iff`: the one if the other.
-/

namespace AmlSubtitle
namespace Sami

open Scanf ExtSubStreamReader TextSubtitle

/-! ## Bodies -/

/-- Some lines, and some blocks, of which the first stands behind some bytes of its line. -/
structure Body where
  lead : List (List UInt8)
  indent : List UInt8
  blocks : List Block
  no_start : ∀ l ∈ indent :: lead, strIStr startEq l = none
  no_slacktime : ∀ l ∈ lead ++ prepend indent (blockLines blocks), strIStr slacktime l = none

/-- The lines of a body. -/
def Body.lines (body : Body) : List (List UInt8) :=
  body.lead ++ prepend body.indent (blockLines body.blocks)

/-- Each block, with the next one. -/
def withNext : List Block → List (Block × Option Block)
  | [] => []
  | b :: bs => (b, bs.head?) :: withNext bs

/-- The blocks with text. -/
def spoken (bs : List Block) : List (Block × Option Block) := (withNext bs).filter (·.1.hasText)

/-- The item of a block ends just in front of the next one. -/
structure Matches (b : Block × Option Block) (item : ExtSubItem) : Prop where
  start_eq : item.start = sub_ms2pts (b.1.start / 10)
  stop_eq : ∀ next ∈ b.2, item.stop = sub_ms2pts (next.start / 10 - 1)

/-- The items are those of the blocks with text, and there is no write out of bounds. -/
def Decodes (bs : List Block) (result : Option (List ExtSubItem)) : Prop :=
  ∃ its, result = some its ∧ List.Forall₂ Matches (spoken bs) its

/-! ## The condition -/

/-- The item of a block with text ends where it should. -/
def Block.InTime (b b' : Block) : Prop :=
  20 ≤ b'.start ∨ b.start < 10 ∧ 10 ≤ b'.start ∧ isVisible b.lastRow = true

/-- The decoding stops behind a block. -/
def Block.Stops (b b' : Block) : Prop := b'.start < 20 ∧ isVisible b.lastRow = false

/-- The last block is an item exactly if it has text. -/
structure Block.Ends (b : Block) (stop : ℤ) : Prop where
  fits : (sheetOf (b.seen false)).Fits
  ended : 10 ≤ b.start → stop ≤ 0 → (sheetOf (b.seen false)).leftover.length ≤ LINE_LEN
  hasText_iff : b.hasText = true ↔
    10 ≤ b.start ∧ (0 < stop ∨ isVisible (sheetOf (b.seen false)).leftover = true)

/-- What it takes that the items are those of the blocks with text. -/
def Decodable : Mode → List Block → Prop
  | _, [] => True
  | .skip, b :: bs =>
    b.hasText = false ∧ Decodable (if b.content.length = 1 then .skip else .find 0) bs
  | .find stop, [b] => b.Ends stop
  | .find _, b :: b' :: bs => b.sheet.Fits ∧
    if b.hasText then b.shows = true ∧ b.InTime b' ∧ Decodable .skip (b' :: bs)
    else if b.shows then b.Stops b' ∧ ∀ c ∈ b' :: bs, c.hasText = false
    else Decodable (.find (b'.start / 10 - 1)) (b' :: bs)

/-! ## Items and blocks -/

section Cons

variable {b : Block} {bs : List Block} {result : Option (List ExtSubItem)} {item : ExtSubItem}

theorem spoken_cons_of_false (h : b.hasText = false) : spoken (b :: bs) = spoken bs :=
  List.filter_cons_of_neg (by rw [h]; exact Bool.false_ne_true)

theorem spoken_cons (h : b.hasText = true) : spoken (b :: bs) = (b, bs.head?) :: spoken bs :=
  List.filter_cons_of_pos h

theorem mem_of_mem_spoken {x : Block × Option Block} (h : x ∈ spoken bs) : x.1 ∈ bs := by
  have hmap : (withNext bs).map Prod.fst = bs := by
    clear h
    induction bs with
    | nil => rfl
    | cons b bs ih => rw [withNext, List.map_cons, ih]
  exact hmap ▸ List.mem_map_of_mem (List.mem_of_mem_filter h)

theorem spoken_eq_nil_iff : spoken bs = [] ↔ ∀ c ∈ bs, c.hasText = false := by
  induction bs with
  | nil => exact iff_of_true rfl fun _ hc => absurd hc List.not_mem_nil
  | cons b bs ih =>
    rw [List.forall_mem_cons, ← ih]
    cases htext : b.hasText with
    | false => rw [spoken_cons_of_false htext, and_iff_right rfl]
    | true =>
      rw [spoken_cons htext]
      exact iff_of_false (List.cons_ne_nil _ _) fun h => absurd h.1.symm Bool.false_ne_true

theorem decodes_cons_of_false (h : b.hasText = false) :
    Decodes (b :: bs) result ↔ Decodes bs result := by
  unfold Decodes
  rw [spoken_cons_of_false h]

theorem decodes_cons_iff (h : b.hasText = true) :
    Decodes (b :: bs) (result.map (item :: ·)) ↔
      Matches (b, bs.head?) item ∧ Decodes bs result := by
  unfold Decodes
  rw [spoken_cons h]
  constructor
  · rintro ⟨its, hits, hall⟩
    obtain ⟨its', rfl, rfl⟩ := Option.map_eq_some_iff.mp hits
    obtain ⟨hitem, hrest⟩ := List.forall₂_cons.mp hall
    exact ⟨hitem, its', rfl, hrest⟩
  · rintro ⟨hitem, its, rfl, hrest⟩
    exact ⟨item :: its, rfl, .cons hitem hrest⟩

theorem decodes_nil_iff : Decodes bs (some []) ↔ ∀ c ∈ bs, c.hasText = false := by
  rw [← spoken_eq_nil_iff]
  constructor
  · rintro ⟨its, hits, hall⟩
    rw [← Option.some.inj hits] at hall
    exact List.forall₂_nil_right_iff.mp hall
  · intro hnil
    exact ⟨[], rfl, List.forall₂_nil_right_iff.mpr hnil⟩

theorem decodes_nil : Decodes [] (some []) :=
  decodes_nil_iff.mpr fun _ hc => absurd hc List.not_mem_nil

/-- The first item starts with a block. -/
theorem Decodes.exists_start (h : Decodes bs (result.map (item :: ·))) :
    ∃ c ∈ bs, item.start = sub_ms2pts (c.start / 10) := by
  obtain ⟨its, hits, hall⟩ := h
  obtain ⟨its', -, rfl⟩ := Option.map_eq_some_iff.mp hits
  cases hspoken : spoken bs with
  | nil =>
    rw [hspoken] at hall
    exact absurd (List.forall₂_nil_left_iff.mp hall) (List.cons_ne_nil _ _)
  | cons x xs =>
    rw [hspoken] at hall
    exact ⟨x.1, mem_of_mem_spoken (hspoken ▸ List.mem_cons_self),
      (List.forall₂_cons.mp hall).1.start_eq⟩

theorem start_of_finish {v : Vars} {item : ExtSubItem} (h : finish v = some (some item)) :
    item.start = v.start := by
  rw [finish] at h
  split_ifs at h
  · obtain ⟨text, -, htext⟩ := Option.map_eq_some_iff.mp h
    split_ifs at htext
    rw [← Option.some.inj htext]
  · rw [← Option.some.inj (Option.some.inj h)]

/-- Each item starts with a block. -/
theorem start_of_items {bs : List Block} : ∀ {mode : Mode} {its : List ExtSubItem},
    items mode bs = some its → ∀ item ∈ its, ∃ c ∈ bs, item.start = sub_ms2pts (c.start / 10) := by
  induction bs with
  | nil =>
    intro mode its hits item hitem
    have hnil : items mode [] = some [] := by cases mode <;> rfl
    rw [← Option.some.inj (hnil.symm.trans hits)] at hitem
    exact absurd hitem List.not_mem_nil
  | cons b bs ih =>
    intro mode its hits item hitem
    -- the items of the blocks behind this one
    have hlater : ∀ {mode : Mode} {its : List ExtSubItem}, items mode bs = some its → item ∈ its →
        ∃ c ∈ b :: bs, item.start = sub_ms2pts (c.start / 10) := by
      intro mode its hits hitem
      obtain ⟨c, hc, hstart⟩ := ih hits item hitem
      exact ⟨c, List.mem_cons_of_mem b hc, hstart⟩
    cases mode with
    | skip => exact hlater hits hitem
    | find stop =>
      cases bs with
      | nil =>
        rw [items] at hits
        obtain ⟨v, hv, hits⟩ := Option.bind_eq_some_iff.mp hits
        have hstart : v.start = b.start / 10 := congrArg (·.2.1) (copyPieces_fixed hv)
        split_ifs at hits
        · obtain ⟨found, hfound, rfl⟩ := Option.map_eq_some_iff.mp hits
          cases found with
          | none => exact absurd hitem List.not_mem_nil
          | some found =>
            refine ⟨b, List.mem_cons_self, ?_⟩
            rw [List.eq_of_mem_singleton hitem, finishItem, start_of_finish hfound, hstart]
        · rw [← Option.some.inj hits] at hitem
          exact absurd hitem List.not_mem_nil
      | cons b' bs =>
        rw [items] at hits
        obtain ⟨v, hv, hits⟩ := Option.bind_eq_some_iff.mp hits
        have hstart : v.start = b.start / 10 := congrArg (·.2.1) (b.fixed_copied hv)
        split_ifs at hits
        · exact hlater hits hitem
        · obtain ⟨found, hfound, hits⟩ := Option.bind_eq_some_iff.mp hits
          cases found with
          | none =>
            rw [← Option.some.inj hits] at hitem
            exact absurd hitem List.not_mem_nil
          | some found =>
            obtain ⟨its', hits', rfl⟩ := Option.map_eq_some_iff.mp hits
            rcases List.mem_cons.mp hitem with rfl | hitem
            · exact ⟨b, List.mem_cons_self, by rw [finishItem, start_of_finish hfound, hstart]⟩
            · exact hlater hits' hitem

end Cons

/-! ## The last block -/

/-- The only item is that of the only block, if it has text. -/
theorem decodes_singleton_iff {b : Block} {item : ExtSubItem}
    (hstart : item.start = sub_ms2pts (b.start / 10)) :
    Decodes [b] (some [item]) ↔ b.hasText = true := by
  cases htext : b.hasText with
  | false =>
    rw [decodes_cons_of_false htext]
    refine iff_of_false (fun h => ?_) Bool.false_ne_true
    obtain ⟨c, hc, -⟩ := @Decodes.exists_start _ (some []) _ h
    exact absurd hc List.not_mem_nil
  | true =>
    refine iff_of_true ?_ rfl
    exact (@decodes_cons_iff _ _ (some []) _ htext).mpr ⟨⟨hstart, nofun⟩, decodes_nil⟩

theorem not_decodes_none (bs : List Block) : ¬ Decodes bs none := fun ⟨_, h, _⟩ =>
  Option.some_ne_none _ h.symm

/-- **The last block.** -/
theorem decodes_last_iff (b : Block) (stop : ℤ) :
    Decodes [b] (items (.find stop) [b]) ↔ b.Ends stop := by
  have hfits := (b.shows_enterText stop).isSome_copyPieces_iff (b.ok_seen false)
  rw [items]
  cases hv : copyPieces (b.enterText stop) (b.seen false) with
  | none =>
    rw [hv] at hfits
    exact iff_of_false (not_decodes_none [b]) fun h => absurd (hfits.mpr h.fits) Bool.false_ne_true
  | some v =>
    rw [hv] at hfits
    have hfits := hfits.mp rfl
    have hfinish := (b.shows_copyPieces hv).finish_eq
    have hfixed := copyPieces_fixed hv
    simp only [Vars.fixed, Block.enterText, Prod.mk.injEq] at hfixed
    obtain ⟨-, hstart, hstop, -⟩ := hfixed
    rw [hstart, hstop] at hfinish
    have hitem : ∀ item : ExtSubItem, item.start = b.start / 10 → 10 ≤ b.start →
        (0 < stop ∨ isVisible (sheetOf (b.seen false)).leftover = true) →
        (stop ≤ 0 → (sheetOf (b.seen false)).leftover.length ≤ LINE_LEN) →
        (Decodes [b] (some [finishItem item]) ↔ b.Ends stop) := by
      intro item hitem h10 hshown hle
      rw [decodes_singleton_iff (by rw [finishItem, hitem])]
      exact ⟨fun htext => ⟨hfits, fun _ => hle, iff_of_true htext ⟨h10, hshown⟩⟩,
        fun h => h.hasText_iff.mpr ⟨h10, hshown⟩⟩
    have hnone : ¬ (10 ≤ b.start ∧
          (0 < stop ∨ isVisible (sheetOf (b.seen false)).leftover = true)) →
        (10 ≤ b.start → stop ≤ 0 → (sheetOf (b.seen false)).leftover.length ≤ LINE_LEN) →
        (Decodes [b] (some []) ↔ b.Ends stop) := by
      intro hnot hle
      rw [decodes_nil_iff, List.forall_mem_singleton, ← Bool.not_eq_true]
      exact ⟨fun htext => ⟨hfits, hle, iff_of_false htext hnot⟩, fun h => mt h.hasText_iff.mp hnot⟩
    rw [Option.bind_some, hfinish]
    split_ifs with h10 hstop hle hvisible
    · exact hitem _ rfl h10 (.inl hstop) fun hle => absurd hstop (not_lt.mpr hle)
    · exact hitem _ rfl h10 (.inr hvisible) fun _ => hle
    · exact hnone (fun h => h.2.elim hstop hvisible) fun _ _ => hle
    · exact iff_of_false (not_decodes_none [b]) fun h => hle (h.ended h10 (not_lt.mp hstop))
    · exact hnone (fun h => h10 h.1) fun h => absurd h h10

/-! ## Blocks that another one follows -/

/-- The starts increase, in hundredths of a second. -/
def Increasing (bs : List Block) : Prop := bs.Pairwise fun b b' => b.start / 10 < b'.start / 10

section Followed

variable {b b' : Block} {bs : List Block} {result : Option (List ExtSubItem)} {item : ExtSubItem}

theorem start_ne {c : Block} (hincreasing : Increasing (b :: bs)) (hc : c ∈ bs) :
    sub_ms2pts (b.start / 10) ≠ sub_ms2pts (c.start / 10) := by
  have hlt := List.rel_of_pairwise_cons hincreasing hc
  unfold sub_ms2pts
  omega

/-- A block with no item has no text. -/
theorem hasText_eq_false {mode : Mode} (hincreasing : Increasing (b :: bs))
    (h : Decodes (b :: bs) (items mode bs)) : b.hasText = false := by
  obtain ⟨its, hits, hall⟩ := h
  by_contra htext
  rw [Bool.not_eq_false] at htext
  rw [spoken_cons htext] at hall
  cases hall with
  | cons hitem _ =>
    obtain ⟨c, hc, hstart⟩ := start_of_items hits _ List.mem_cons_self
    exact start_ne hincreasing hc (hitem.start_eq.symm.trans hstart)

/-- A block with an item has text. -/
theorem hasText_of_map (hincreasing : Increasing (b :: bs))
    (hstart : item.start = sub_ms2pts (b.start / 10))
    (h : Decodes (b :: bs) (result.map (item :: ·))) : b.hasText = true := by
  by_contra htext
  rw [decodes_cons_of_false ((Bool.not_eq_true _).mp htext)] at h
  obtain ⟨c, hc, hstart'⟩ := h.exists_start
  exact start_ne hincreasing hc (hstart.symm.trans hstart')

/-- **A block with an item.** -/
theorem decodes_item (hstart : item.start = b.start / 10) (hshows : b.shows = true)
    (hnot : ¬ b.Stops b') (htime : item.stop = (b'.start / 10 - 1 : ℤ) ↔ b.InTime b')
    (hfits : b.sheet.Fits)
    (ih : (Decodable .skip (b' :: bs) → Decodes (b' :: bs) result) ∧
      (Increasing (b' :: bs) → Decodes (b' :: bs) result → Decodable .skip (b' :: bs)))
    (stop : ℤ) :
    (Decodable (.find stop) (b :: b' :: bs) →
        Decodes (b :: b' :: bs) (result.map (finishItem item :: ·))) ∧
      (Increasing (b :: b' :: bs) → Decodes (b :: b' :: bs) (result.map (finishItem item :: ·)) →
        Decodable (.find stop) (b :: b' :: bs)) := by
  have hpts : (finishItem item).start = sub_ms2pts (b.start / 10) := by rw [finishItem, hstart]
  have hmatches : Matches (b, some b') (finishItem item) ↔ b.InTime b' := by
    rw [← htime]
    constructor
    · intro h
      have hstop := h.stop_eq b' rfl
      unfold finishItem sub_ms2pts at hstop
      dsimp only at hstop
      omega
    · intro hstop
      exact ⟨hpts, fun next hnext => by rw [← Option.some.inj hnext, finishItem, hstop]⟩
  rw [Decodable]
  constructor
  · rintro ⟨-, h⟩
    cases htext : b.hasText with
    | false =>
      rw [htext, if_neg Bool.false_ne_true, if_pos hshows] at h
      exact absurd h.1 hnot
    | true =>
      rw [htext, if_pos rfl] at h
      exact (decodes_cons_iff htext).mpr ⟨hmatches.mpr h.2.1, ih.1 h.2.2⟩
  · intro hincreasing h
    have htext := hasText_of_map hincreasing hpts h
    obtain ⟨hitem, hrest⟩ := (decodes_cons_iff htext).mp h
    rw [htext, if_pos rfl]
    exact ⟨hfits, hshows, hmatches.mp hitem, ih.2 hincreasing.of_cons hrest⟩

/-- **A block of which nothing is to be seen.** -/
theorem decodes_unseen (hshows : b.shows = false) (hfits : b.sheet.Fits)
    (ih : (Decodable (.find (b'.start / 10 - 1)) (b' :: bs) →
        Decodes (b' :: bs) (items (.find (b'.start / 10 - 1)) (b' :: bs))) ∧
      (Increasing (b' :: bs) → Decodes (b' :: bs) (items (.find (b'.start / 10 - 1)) (b' :: bs)) →
        Decodable (.find (b'.start / 10 - 1)) (b' :: bs)))
    (stop : ℤ) :
    (Decodable (.find stop) (b :: b' :: bs) →
        Decodes (b :: b' :: bs) (items (.find (b'.start / 10 - 1)) (b' :: bs))) ∧
      (Increasing (b :: b' :: bs) →
        Decodes (b :: b' :: bs) (items (.find (b'.start / 10 - 1)) (b' :: bs)) →
        Decodable (.find stop) (b :: b' :: bs)) := by
  rw [Decodable, hshows]
  constructor
  · rintro ⟨-, h⟩
    cases htext : b.hasText with
    | false =>
      rw [htext, if_neg Bool.false_ne_true, if_neg Bool.false_ne_true] at h
      exact (decodes_cons_of_false htext).mpr (ih.1 h)
    | true =>
      rw [htext, if_pos rfl] at h
      exact absurd h.1 Bool.false_ne_true
  · intro hincreasing h
    have htext := hasText_eq_false hincreasing h
    rw [htext, if_neg Bool.false_ne_true, if_neg Bool.false_ne_true]
    exact ⟨hfits, ih.2 hincreasing.of_cons ((decodes_cons_of_false htext).mp h)⟩

/-- **A block behind which the decoding stops.** -/
theorem decodes_stopped (hshows : b.shows = true) (hstops : b.Stops b') (hfits : b.sheet.Fits)
    (stop : ℤ) :
    (Decodable (.find stop) (b :: b' :: bs) → Decodes (b :: b' :: bs) (some [])) ∧
      (Increasing (b :: b' :: bs) → Decodes (b :: b' :: bs) (some []) →
        Decodable (.find stop) (b :: b' :: bs)) := by
  rw [Decodable, decodes_nil_iff]
  constructor
  · rintro ⟨-, h⟩
    cases htext : b.hasText with
    | false =>
      rw [htext, if_neg Bool.false_ne_true, if_pos hshows] at h
      exact List.forall_mem_cons.mpr ⟨htext, h.2⟩
    | true =>
      rw [htext, if_pos rfl] at h
      rcases h.2.1 with h20 | ⟨-, -, hvisible⟩
      · exact absurd hstops.1 (Nat.not_lt.mpr h20)
      · exact absurd (hvisible.symm.trans hstops.2) (Bool.false_ne_true ·.symm)
  · intro _ hall
    obtain ⟨htext, hrest⟩ := List.forall_mem_cons.mp hall
    rw [htext, if_neg Bool.false_ne_true, if_pos hshows]
    exact ⟨hfits, hstops, hrest⟩

end Followed

/-- **The items** are those of the blocks with text, where the condition holds, and where the starts
increase only there. -/
theorem decodes_items (bs : List Block) : ∀ mode : Mode,
    (Decodable mode bs → Decodes bs (items mode bs)) ∧
      (Increasing bs → Decodes bs (items mode bs) → Decodable mode bs) := by
  induction bs with
  | nil =>
    intro mode
    cases mode <;> exact ⟨fun _ => decodes_nil, fun _ _ => trivial⟩
  | cons b bs ih =>
    intro mode
    cases mode with
    | skip =>
      rw [items, Decodable]
      constructor
      · rintro ⟨htext, h⟩
        exact (decodes_cons_of_false htext).mpr ((ih _).1 h)
      · intro hincreasing h
        have htext := hasText_eq_false hincreasing h
        exact ⟨htext, (ih _).2 hincreasing.of_cons ((decodes_cons_of_false htext).mp h)⟩
    | find stop =>
      cases bs with
      | nil =>
        rw [decodes_last_iff]
        exact ⟨fun h => h, fun _ h => h⟩
      | cons b' bs =>
        have hsome := b.isSome_copied_iff stop (b'.start / 10 - 1)
        rw [items]
        cases hw : b.copied stop (b'.start / 10 - 1) with
        | none =>
          rw [hw] at hsome
          exact ⟨fun h => absurd (hsome.mpr h.1) Bool.false_ne_true,
            fun _ h => absurd h (not_decodes_none _)⟩
        | some w =>
          rw [hw] at hsome
          have hfits := hsome.mp rfl
          have hlines := b.lines_copied_iff hw
          obtain ⟨hlate, hearly⟩ := b.finish_copied hw
          rw [Option.bind_some]
          by_cases hnil : w.lines = []
          · rw [if_pos hnil]
            exact decodes_unseen ((Bool.not_eq_true _).mp fun h => hlines.mpr h hnil) hfits
              (ih _) stop
          · have hshows := hlines.mp hnil
            rw [if_neg hnil]
            by_cases h20 : 20 ≤ b'.start
            · rw [hlate h20]
              exact decodes_item rfl hshows (fun h => absurd h.1 (by omega))
                (iff_of_true rfl (.inl h20)) hfits (ih .skip) stop
            · have hfinish := hearly (Nat.lt_of_not_le h20)
              cases hvisible : isVisible b.lastRow with
              | true =>
                rw [hvisible, if_pos rfl] at hfinish
                obtain ⟨lines, hfinish⟩ := hfinish
                rw [hfinish]
                refine decodes_item rfl hshows (fun h => ?_) ?_ hfits (ih .skip) stop
                · exact absurd (hvisible.symm.trans h.2) Bool.true_eq_false.mp
                · rw [Block.InTime, and_iff_left hvisible]
                  dsimp only
                  omega
              | false =>
                rw [hvisible, if_neg Bool.false_ne_true] at hfinish
                rw [hfinish]
                exact decodes_stopped hshows ⟨Nat.lt_of_not_le h20, hvisible⟩ hfits stop

/-! ## Bodies that are decoded -/

theorem Feeds.zero_notMem {r : Reader} {ls : List (List UInt8)} (h : Feeds r ls) :
    ∀ l ∈ ls, 0 ∉ l := by
  obtain ⟨crlf, content, hready, hcontent, rfl⟩ := h
  exact (delivers_of_isReadable crlf hready hcontent).zero_notMem

theorem Quiet.of_prepend {x : List UInt8} {ls : List (List UInt8)} (h : Quiet (prepend x ls)) :
    Quiet ls := by
  cases ls with
  | nil => exact h
  | cons l ls => exact Quiet.suffix h (List.suffix_append x l)

theorem feeds_inOneRead {ls : List (List UInt8)} (hne : joinLines ls ≠ [])
    (hlen : (joinLines ls).length ≤ LINE_LEN) (h : ∀ l ∈ ls, IsPlain l)
    (hhead : ∀ c ∈ (joinLines ls).head?, c.toNat < 0xF8) : Feeds (inOneRead ls hne hlen) ls :=
  ⟨false, joinLines ls, ready_create hhead 0 (bytesOf_cons _ [] |>.trans (List.append_nil _)),
    (isReadable_joinLines h).2, (isReadable_joinLines h).1⟩

/-- The line `<SYNC Start=1000><P>a`. -/
def firstBlock : Block where
  opening := [60, 83, 89, 78, 67, 32, 83, 116, 97, 114, 116, 61]
  digits := [49, 48, 48, 48]
  attributes := []
  content := [[.tag [80], .text [97]], []]
  lower_opening := by decide
  digits_ne_nil := List.cons_ne_nil _ _
  isDigits := by decide +kernel
  no_zero := by decide
  digits_lt := by decide
  attributes_head := nofun
  no_end := nofun
  isLine := by
    refine List.forall_mem_cons.mpr ⟨⟨?_, ?_, rfl⟩, fun ps hps => ?_⟩
    · simp [Piece.Ok]
    · exact List.isChain_pair.mpr fun h => h.1
    · rw [List.eq_of_mem_singleton hps]
      exact ⟨nofun, List.isChain_nil, rfl⟩
  starts := .inl rfl

/-- The line `<SYNC Start=2000><P>a`. -/
def secondBlock : Block :=
  { firstBlock with
    digits := [50, 48, 48, 48]
    digits_ne_nil := List.cons_ne_nil _ _
    isDigits := by decide +kernel
    no_zero := by decide
    digits_lt := by decide }

/-- The first line, and an empty one. -/
def oneBlock : Body where
  lead := []
  indent := []
  blocks := [firstBlock]
  no_start := by decide
  no_slacktime := by decide

/-- Both lines, and an empty one. -/
def twoBlocks : Body where
  lead := []
  indent := []
  blocks := [firstBlock, secondBlock]
  no_start := by decide
  no_slacktime := by decide

theorem feeds_oneBlock :
    Feeds (inOneRead oneBlock.lines (by decide) (by decide +kernel)) oneBlock.lines :=
  feeds_inOneRead _ _ (by decide +kernel) (by decide +kernel)

theorem feeds_twoBlocks :
    Feeds (inOneRead twoBlocks.lines (by decide) (by decide +kernel)) twoBlocks.lines :=
  feeds_inOneRead _ _ (by decide +kernel) (by decide +kernel)

end Sami
end AmlSubtitle
