import AmlSubtitle.Parser.SamiText

/-!
# The decoding of a SAMI body

A call of `decodedItem` takes the lines up to the `SYNC` tag that ends the item.  The next call
begins with another line, so that the block of that tag is lost to it.

* `Feeds r ls`: the calls of `getLine` give the lines, in the buffer of the decoder.
* `Runs`: what a call gives from a place in a line on, and `Runs.of_eq`, `Runs.nextLine`,
  `Runs.last`, `Runs.found`: how a run goes on.
* `call`: what a call makes of some blocks, and `runs_call`.
* `items`: what all calls make of some blocks, where the blocks that begin on the line of a `SYNC`
  that ended an item are skipped.
* `decodes_blocks_iff`: when the blocks with text are what is decoded.
-/

namespace AmlSubtitle
namespace Sami

open Scanf ExtSubStreamReader TextSubtitle

/-! ## Lines in the buffer -/

/-- The calls of `getLine` give the lines. -/
def Feeds (r : Reader) (ls : List (List UInt8)) : Prop :=
  ∃ crlf content, Ready r content ∧ IsReadable crlf content ∧ Lines.lines crlf content = ls

theorem Feeds.nil {r : Reader} (h : Feeds r []) (s : Memory) :
    ∃ r', getLine r s = (none, r') ∧ Feeds r' [] := by
  obtain ⟨crlf, content, hready, hcontent, hlines⟩ := h
  obtain rfl : content = [] := by
    rcases Lines.cases_text content with rfl | ⟨hne, h10⟩ | ⟨l, rest, h10, rfl⟩
    · rfl
    · obtain ⟨c, hc⟩ := Option.isSome_iff_exists.mp (List.getLast?_isSome.mpr hne)
      exact absurd (hcontent.ended c hc ▸ List.mem_of_getLast? hc) h10
    · rw [Lines.lines_append crlf h10] at hlines
      exact absurd hlines (List.cons_ne_nil _ _)
  obtain ⟨hnone, hready'⟩ := getLine_nil hready s
  exact ⟨(getLine r s).2, Prod.ext hnone rfl, crlf, [], hready', isReadable_nil crlf, rfl⟩

/-- A line that is given stays in the buffer of `LINE_LEN + 1` bytes. -/
theorem length_getLine {r : Reader} {l rest : List UInt8} (h : Ready r (l ++ 10 :: rest))
    (hl : ∀ c ∈ l, ¬ IsEol c) (hlen : l.length < LINE_LEN) {s m : Memory}
    (hs : s.bytes.length = LINE_LEN + 1) (hget : (getLine r s).1 = some m) :
    m.bytes.length = LINE_LEN + 1 := by
  have hclosed : ¬ Closed r := by
    intro hclosed
    rw [getLine_of_closed hclosed] at hget
    exact absurd hget.symm (Option.some_ne_none m)
  have hends := (getLine_cases hclosed s).1
  have hfound := findEol_append h.isBytes hl (Or.inl rfl : IsEol 10) rest
  rw [← h.toRead] at hfound
  revert hget hends
  generalize getLine r s = result
  rintro hget (⟨hmEncoding, -, hfind, hbuffer, -⟩ | ⟨-, -⟩ | ⟨-, hnone, -, -, -⟩ | ⟨-, -⟩)
  case line r' buffer readOffset n =>
    obtain rfl : l.length = n := Option.some.inj (hfound.symm.trans hfind)
    have htake := List.length_take_le (l.length + 1) (buffer.drop readOffset)
    rw [returnLine] at hget
    dsimp only at hget
    rw [← Option.some.inj hget, terminate_bytes_length, convertToUtf8_eq (hmEncoding ▸ h.isBytes),
      ite_self, length_copy, hs]
    omega
  case long => exact absurd hget.symm (Option.some_ne_none m)
  case last => exact absurd (hfound.symm.trans hnone) (Option.some_ne_none _)
  case none => exact absurd hget.symm (Option.some_ne_none m)

/-- A null stands behind a string that is shorter than its buffer. -/
theorem exists_stale {m : Memory} (h : m.string.length < m.bytes.length) :
    ∃ stale, m.bytes = m.string ++ 0 :: stale := by
  have hbytes : m.string ++ m.bytes.dropWhile (· ≠ 0) = m.bytes :=
    List.takeWhile_append_dropWhile
  cases hdrop : m.bytes.dropWhile (· ≠ 0) with
  | nil =>
    rw [hdrop, List.append_nil] at hbytes
    rw [hbytes] at h
    exact absurd h (lt_irrefl _)
  | cons c stale =>
    have hhead := List.head?_dropWhile_not (fun c : UInt8 => decide (c ≠ 0)) m.bytes
    rw [hdrop] at hhead
    obtain rfl : c = 0 := not_not.mp (of_decide_eq_false hhead)
    exact ⟨stale, hdrop ▸ hbytes.symm⟩

theorem Feeds.cons {r : Reader} {l : List UInt8} {ls : List (List UInt8)} (h : Feeds r (l :: ls))
    {s : Memory} (hs : s.bytes.length = LINE_LEN + 1) : ∃ m stale r', getLine r s = (some m, r') ∧
      m.bytes = l ++ 0 :: stale ∧ m.bytes.length = LINE_LEN + 1 ∧ Feeds r' ls := by
  obtain ⟨crlf, content, hready, hcontent, hlines⟩ := h
  rcases Lines.cases_text content with rfl | ⟨hne, h10⟩ | ⟨l', rest, h10, rfl⟩
  · exact absurd hlines.symm (List.cons_ne_nil _ _)
  · obtain ⟨c, hc⟩ := Option.isSome_iff_exists.mp (List.getLast?_isSome.mpr hne)
    exact absurd (hcontent.ended c hc ▸ List.mem_of_getLast? hc) h10
  · obtain ⟨⟨h0, hlen, hcr⟩, hrest⟩ := (isReadable_append crlf h10 rest).mp hcontent
    rw [Lines.lines_append crlf h10] at hlines
    obtain ⟨hl, rfl⟩ := List.cons.inj hlines
    have heol := not_isEol_of_mem h10 h0
    obtain ⟨m, r', hget, hm, hready', -⟩ := getLine_line hready heol (Or.inl rfl) hlen s
    have hlength := length_getLine hready heol hlen hs (congrArg Prod.fst hget)
    have hstring : m.string = l := (hm.trans (stripCr_eq_lineOf hcr)).trans hl
    have hshort : l.length < LINE_LEN := by
      rw [← hstring, hm]
      exact (Lines.length_stripCr_le l').trans_lt hlen
    obtain ⟨stale, hbytes⟩ := exists_stale (m := m) (by rw [hstring, hlength]; omega)
    rw [hstring] at hbytes
    exact ⟨m, stale, r', hget, hbytes, hlength, crlf, rest, hready', hrest, rfl⟩

/-! ## Runs -/

/-- What a call gives from a place in a line on: the item, and the lines that are left. -/
def Runs (v : Vars) (s : List UInt8) (ls : List (List UInt8))
    (result : Option (Option ExtSubItem × List (List UInt8))) : Prop :=
  ∀ fuel r line stale, Feeds r ls → line.bytes.length = LINE_LEN + 1 → ls.length < fuel →
    Option.Rel (fun found given =>
        found.1 = given.1 ∧ Feeds found.2 given.2 ∧ given.2.length ≤ ls.length)
      (findItem fuel v (s ++ 0 :: stale) r line) result

section Runs

variable {v v' : Vars} {s s' l : List UInt8} {ls : List (List UInt8)}
  {result : Option (Option ExtSubItem × List (List UInt8))}

/-- Another place, from which the line goes on as from this one. -/
theorem Runs.of_eq (hruns : Runs v' s' ls result)
    (h : ∀ stale, scanLine v (s ++ 0 :: stale) = scanLine v' (s' ++ 0 :: stale)) :
    Runs v s ls result := by
  intro fuel r line stale hfeeds hline hfuel
  have hnext := hruns fuel r line stale hfeeds hline hfuel
  obtain ⟨fuel, rfl⟩ := Nat.exists_eq_succ_of_ne_zero (Nat.ne_zero_of_lt hfuel)
  rwa [findItem, ← h stale, ← findItem] at hnext

/-- A write out of bounds. -/
theorem Runs.outOfBounds (h : ∀ stale, scanLine v (s ++ 0 :: stale) = .outOfBounds) :
    Runs v s ls none := by
  intro fuel r line stale _ _ hfuel
  obtain ⟨fuel, rfl⟩ := Nat.exists_eq_succ_of_ne_zero (Nat.ne_zero_of_lt hfuel)
  rw [findItem, h stale]
  exact .none

/-- The end of the item. -/
theorem Runs.found (h : ∀ stale, scanLine v (s ++ 0 :: stale) = .found v') :
    Runs v s ls ((finish v').map fun item => (item, ls)) := by
  intro fuel r line stale hfeeds _ hfuel
  obtain ⟨fuel, rfl⟩ := Nat.exists_eq_succ_of_ne_zero (Nat.ne_zero_of_lt hfuel)
  rw [findItem, h stale]
  dsimp only
  cases finish v' with
  | none => exact .none
  | some item => exact .some ⟨rfl, hfeeds, le_rfl⟩

/-- The next line. -/
theorem Runs.nextLine (hruns : Runs v' l ls result)
    (h : ∀ stale, scanLine v (s ++ 0 :: stale) = .nextLine v') : Runs v s (l :: ls) result := by
  intro fuel r line stale hfeeds hline hfuel
  obtain ⟨fuel, rfl⟩ := Nat.exists_eq_succ_of_ne_zero (Nat.ne_zero_of_lt hfuel)
  obtain ⟨m, stale', r', hget, hbytes, hlength, hfeeds'⟩ := hfeeds.cons hline
  have hnext := hruns fuel r' m stale' hfeeds' hlength (Nat.lt_of_succ_lt_succ hfuel)
  rw [findItem, h stale]
  dsimp only
  rw [hget]
  dsimp only
  rw [hlength, if_neg (lt_irrefl _), hbytes]
  generalize findItem fuel v' (l ++ 0 :: stale') r' m = found at hnext ⊢
  cases hnext with
  | none => exact .none
  | some hrel => exact .some ⟨hrel.1, hrel.2.1, Nat.le_succ_of_le hrel.2.2⟩

/-- The end of the file. -/
theorem Runs.last (h : ∀ stale, scanLine v (s ++ 0 :: stale) = .nextLine v') : Runs v s []
    (if 0 < v'.start then (finish v').map fun item => (item, []) else some (none, [])) := by
  intro fuel r line stale hfeeds _ hfuel
  obtain ⟨fuel, rfl⟩ := Nat.exists_eq_succ_of_ne_zero (Nat.ne_zero_of_lt hfuel)
  obtain ⟨r', hget, hfeeds'⟩ := hfeeds.nil line
  rw [findItem, h stale]
  dsimp only
  rw [hget]
  dsimp only
  split_ifs
  · cases finish v' with
    | none => exact .none
    | some item => exact .some ⟨rfl, hfeeds', le_rfl⟩
  · exact .some ⟨rfl, hfeeds', le_rfl⟩

end Runs

/-! ## The lines of a block -/

/-- A run from the beginning of a line on. -/
def RunsIn (v : Vars) (ls : List (List UInt8))
    (result : Option (Option ExtSubItem × List (List UInt8))) : Prop :=
  ∃ s rest, ls = s :: rest ∧ Runs v s rest result

/-- There is neither a null in the lines nor a `Slacktime:`. -/
def Quiet (ls : List (List UInt8)) : Prop := ∀ l ∈ ls, strIStr slacktime l = none ∧ 0 ∉ l

/-- The first line of a content, with what stands behind it, and the lines that follow. -/
theorem joinContent_cons (content : List (List Piece)) (next : List (List UInt8)) :
    ∃ y ls, ∀ ps, joinContent (ps :: content) next = (lineBytes ps ++ y) :: ls := by
  cases content with
  | nil =>
    cases next with
    | nil => exact ⟨[], [], fun ps => by rw [joinContent, List.append_nil]⟩
    | cons l ls => exact ⟨l, ls, fun ps => rfl⟩
  | cons ps' content => exact ⟨[], _, fun ps => by rw [joinContent, List.append_nil]⟩

theorem joinContent_cons_cons (ps ps' : List Piece) (content : List (List Piece))
    (next : List (List UInt8)) : joinContent (ps :: ps' :: content) next =
      lineBytes ps :: joinContent (ps' :: content) next := rfl

section Content

variable {v : Vars} {y : List UInt8} {result : Option (Option ExtSubItem × List (List UInt8))}

/-- A text begins. -/
theorem scanLine_findP_text {t : List UInt8} {ps : List Piece} (hstate : v.state = .findP)
    (hok : (Piece.text t).Ok) (rest : List UInt8) :
    scanLine v (lineBytes (.text t :: ps) ++ y ++ rest) =
      scanLine { v with state := .getText, text := zeros, p := 0 }
        (lineBytes (.text t :: ps) ++ y ++ rest) := by
  obtain ⟨c, t, rfl⟩ := List.exists_cons_of_ne_nil hok.1
  obtain ⟨h0, h60⟩ := hok.2 c List.mem_cons_self
  rw [scanLine_eq, step, hstate]
  dsimp only
  rw [stepFindP, lineBytes_cons, Piece.bytes, List.cons_append, List.cons_append,
    List.cons_append, List.headD_cons, if_neg h0, if_pos h60]
  rfl

/-- A paragraph tag. -/
theorem scanLine_findP_tag {t : List UInt8} {ps : List Piece} (hstate : v.state = .findP)
    (hok : (Piece.tag t).Ok) (hname : t.headD 0 = 80 ∨ t.headD 0 = 112) (rest : List UInt8) :
    scanLine v (lineBytes (.tag t :: ps) ++ y ++ rest) =
      scanLine { v with state := .getText, text := zeros, p := 0 } (lineBytes ps ++ y ++ rest) := by
  obtain ⟨c, t, rfl⟩ := List.exists_cons_of_ne_nil hok.1
  have hchr : strchr 62 (t ++ 62 :: (lineBytes ps ++ y ++ rest)) =
      some (62 :: (lineBytes ps ++ y ++ rest)) := by
    refine strchr_append fun d hd => ?_
    obtain ⟨h0, -, h62⟩ := hok.2 d (List.mem_cons_of_mem c hd)
    exact ⟨h0, h62⟩
  have hbytes : lineBytes (.tag (c :: t) :: ps) ++ y ++ rest =
      60 :: c :: (t ++ 62 :: (lineBytes ps ++ y ++ rest)) := by
    rw [lineBytes_cons, List.append_assoc, List.append_assoc, Piece.bytes_tag_append,
      List.append_assoc]
    rfl
  rw [scanLine_eq, step, hstate, hbytes]
  dsimp only
  rw [stepFindP, List.headD_cons, if_neg (by decide), if_neg (not_not.mpr rfl)]
  refine (congrArg Outcome.resume (if_pos hname)).trans ?_
  dsimp only [Outcome.resume]
  rw [scanLine_eq, step]
  dsimp only
  rw [stepFindGt, List.drop_succ_cons, List.drop_zero, List.drop_succ_cons, List.drop_zero, hchr]
  rfl

/-- **The first paragraph** of a block is found. -/
theorem runsIn_findP {content : List (List Piece)} {next : List (List UInt8)}
    (hstate : v.state = .findP) (hstarts : Starts content) (hline : ∀ ps ∈ content, IsLine ps)
    (hruns : RunsIn { v with state := .getText, text := zeros, p := 0 }
      (joinContent (enter content) next) result) :
    RunsIn v (joinContent content next) result := by
  induction content with
  | nil => exact absurd hstarts not_false
  | cons ps content ih =>
    obtain ⟨hps, hcontent⟩ := List.forall_mem_cons.mp hline
    match ps with
    | [] =>
      -- an empty line
      obtain ⟨s, rest, hs, hrest⟩ := ih hstarts hcontent hruns
      cases content with
      | nil => exact absurd hstarts not_false
      | cons ps' content =>
        refine ⟨[], s :: rest, by rw [joinContent_cons_cons, hs]; rfl,
          hrest.nextLine fun stale => ?_⟩
        rw [scanLine_eq, step, hstate]
        rfl
    | .text t :: ps =>
      obtain ⟨y, ls, hjoin⟩ := joinContent_cons content next
      obtain ⟨s, rest, hs, hrest⟩ := hruns
      obtain ⟨rfl, rfl⟩ := List.cons.inj ((hjoin (.text t :: ps)).symm.trans hs)
      exact ⟨_, ls, hjoin _, hrest.of_eq fun stale =>
        scanLine_findP_text hstate (hps.ok _ List.mem_cons_self) _⟩
    | .tag t :: ps =>
      obtain ⟨y, ls, hjoin⟩ := joinContent_cons content next
      obtain ⟨s, rest, hs, hrest⟩ := hruns
      obtain ⟨rfl, rfl⟩ := List.cons.inj ((hjoin ps).symm.trans hs)
      exact ⟨_, ls, hjoin _, hrest.of_eq fun stale =>
        scanLine_findP_tag hstate (hps.ok _ List.mem_cons_self) hstarts _⟩

/-- **The last block** goes on to the end of the file. -/
theorem runsIn_last {content : List (List Piece)} (hne : content ≠ []) :
    ∀ {v : Vars}, v.state = .getText → (∀ ps ∈ content, IsLine ps) →
      RunsIn v (joinContent content []) ((copyPieces v (seenFrom false content)).bind fun v =>
        if 0 < v.start then (finish v).map fun item => (item, []) else some (none, [])) := by
  induction content with
  | nil => exact absurd rfl hne
  | cons ps content ih =>
    intro v hstate hline
    obtain ⟨hps, hcontent⟩ := List.forall_mem_cons.mp hline
    have hscan := scanLine_line hps hstate
    cases content with
    | nil =>
      refine ⟨lineBytes ps, [], rfl, ?_⟩
      have hseen : seenFrom false [ps] = ps := rfl
      rw [hseen]
      cases hv : copyPieces v ps with
      | none =>
        rw [hv] at hscan
        exact Runs.outOfBounds hscan
      | some w =>
        rw [hv] at hscan
        exact Runs.last hscan
    | cons ps' content =>
      have hseen : seenFrom false (ps :: ps' :: content) =
          ps ++ seenFrom false (ps' :: content) := rfl
      rw [joinContent_cons_cons, hseen, copyPieces_append]
      cases hv : copyPieces v ps with
      | none =>
        rw [hv] at hscan
        exact ⟨_, _, rfl, Runs.outOfBounds hscan⟩
      | some w =>
        rw [hv] at hscan
        have hw : w.state = .getText := (congrArg Prod.fst (copyPieces_fixed hv)).trans hstate
        obtain ⟨s, rest, hs, hrest⟩ := ih (List.cons_ne_nil _ _) hw hcontent
        rw [hs]
        exact ⟨_, _, rfl, hrest.nextLine hscan⟩

/-- **A block** goes on to the `SYNC` tag of the next one. -/
theorem runsIn_followed (b : Block) {ls : List (List UInt8)}
    {more : Option (Option ExtSubItem × List (List UInt8))} {content : List (List Piece)}
    (hne : content ≠ []) : ∀ {v : Vars}, v.state = .getText → (∀ ps ∈ content, IsLine ps) →
      Quiet (joinContent content ((b.sync ++ y) :: ls)) →
      (∀ w, ((copyPieces v (seenFrom true content)).bind fun v =>
          flush { squeeze v with stop := b.start / 10 - 1 }) = some w → w.lines = [] →
        Runs { w with state := .findP, start := b.start / 10 } y ls more) →
      RunsIn v (joinContent content ((b.sync ++ y) :: ls))
        (((copyPieces v (seenFrom true content)).bind fun v =>
            flush { squeeze v with stop := b.start / 10 - 1 }).bind fun w =>
          if w.lines = [] then more else (finish w).map fun item => (item, ls)) := by
  induction content with
  | nil => exact absurd rfl hne
  | cons ps content ih =>
    intro v hstate hline hquiet hmore
    obtain ⟨hps, hcontent⟩ := List.forall_mem_cons.mp hline
    cases content with
    | nil =>
      obtain ⟨hslack, h0⟩ := hquiet _ List.mem_cons_self
      have hbytes : ∀ stale, lineBytes ps ++ (b.sync ++ (y ++ 0 :: stale)) =
          lineBytes ps ++ (b.sync ++ y) ++ 0 :: stale := fun stale => by
        rw [List.append_assoc, List.append_assoc]
      have hscan := b.scanLine_sync hps hstate hslack h0
      simp only [hbytes] at hscan
      refine ⟨lineBytes ps ++ (b.sync ++ y), ls, rfl, ?_⟩
      have hseen : seenFrom true [ps] = upToSkipped ps := rfl
      rw [hseen] at hmore ⊢
      cases hw : (copyPieces v (upToSkipped ps)).bind fun v =>
          flush { squeeze v with stop := b.start / 10 - 1 } with
      | none =>
        rw [hw] at hscan
        exact Runs.outOfBounds hscan
      | some w =>
        rw [hw] at hscan
        dsimp only [Outcome.bindVars, Option.bind_some] at hscan ⊢
        by_cases hlines : w.lines = []
        · simp only [if_pos hlines] at hscan ⊢
          exact (hmore w hw hlines).of_eq hscan
        · simp only [if_neg hlines] at hscan ⊢
          have hfound : Runs v _ ls _ := Runs.found hscan
          exact hfound
    | cons ps' content =>
      have hseen :
          seenFrom true (ps :: ps' :: content) = ps ++ seenFrom true (ps' :: content) := rfl
      have hscan := scanLine_line hps hstate
      rw [joinContent_cons_cons] at hquiet ⊢
      rw [hseen, copyPieces_append] at hmore ⊢
      cases hv : copyPieces v ps with
      | none =>
        rw [hv] at hscan
        exact ⟨_, _, rfl, Runs.outOfBounds hscan⟩
      | some w =>
        rw [hv] at hscan hmore
        have hw : w.state = .getText := (congrArg Prod.fst (copyPieces_fixed hv)).trans hstate
        obtain ⟨s, rest, hs, hrest⟩ := ih (List.cons_ne_nil _ _) hw hcontent
          (List.forall_mem_cons.mp hquiet).2 hmore
        rw [hs]
        exact ⟨_, _, rfl, hrest.nextLine hscan⟩

end Content

/-! ## Calls -/

/-- A call, from the place behind the `SYNC` tag of a block on, and the blocks from the one on whose
tag ended the item. -/
def call : ℤ → Block → List Block → Option (Option ExtSubItem × List Block)
  | stop, b, [] => (copyPieces (b.enterText stop) (b.seen false)).bind fun v =>
    if 10 ≤ b.start then (finish v).map fun item => (item, []) else some (none, [])
  | stop, b, b' :: bs => (b.copied stop (b'.start / 10 - 1)).bind fun v =>
    if v.lines = [] then call (b'.start / 10 - 1) b' bs
    else (finish v).map fun item => (item, b' :: bs)

theorem IsLine.suffix {ps qs : List Piece} (h : IsLine ps) (hqs : qs <:+ ps) : IsLine qs where
  ok := fun piece hpiece => h.ok piece (hqs.subset hpiece)
  chain := h.chain.suffix hqs
  no_start := strIStr_suffix h.no_start h.zero_notMem (lineBytes_suffix hqs)

theorem Block.isLine_enter (b : Block) : ∀ ps ∈ enter b.content, IsLine ps := by
  intro ps hps
  obtain ⟨ps', hps', hsuffix⟩ := enter_subset hps
  exact (b.isLine ps' hps').suffix hsuffix

theorem enter_ne_nil {content : List (List Piece)} (h : Starts content) : enter content ≠ [] := by
  induction content with
  | nil => exact absurd h not_false
  | cons ps content ih =>
    match ps with
    | [] => exact ih h
    | .text _ :: _ => exact List.cons_ne_nil _ _
    | .tag _ :: _ => exact List.cons_ne_nil _ _

theorem Block.content_ne_nil (b : Block) : b.content ≠ [] := by
  intro hnil
  have hstarts := b.starts
  rw [hnil] at hstarts
  exact hstarts

theorem blockLines_cons (b : Block) (bs : List Block) : ∃ y ls,
    joinContent b.content (blockLines bs) = y :: ls ∧
      blockLines (b :: bs) = (b.sync ++ y) :: ls := by
  obtain ⟨ps, content, hcontent⟩ := List.exists_cons_of_ne_nil b.content_ne_nil
  obtain ⟨y, ls, hjoin⟩ := joinContent_cons content (blockLines bs)
  refine ⟨lineBytes ps ++ y, ls, by rw [hcontent, hjoin], ?_⟩
  rw [blockLines, hcontent, hjoin]
  rfl

theorem Quiet.suffix {l l' : List UInt8} {ls : List (List UInt8)} (h : Quiet (l :: ls))
    (hl : l' <:+ l) : Quiet (l' :: ls) := by
  obtain ⟨⟨hslack, h0⟩, hls⟩ := List.forall_mem_cons.mp h
  exact List.forall_mem_cons.mpr
    ⟨⟨strIStr_suffix hslack h0 hl, fun h => h0 (hl.subset h)⟩, hls⟩

theorem Quiet.enter {content : List (List Piece)} {next : List (List UInt8)}
    (hstarts : Starts content)
    (h : Quiet (joinContent content next)) : Quiet (joinContent (Sami.enter content) next) := by
  induction content with
  | nil => exact absurd hstarts not_false
  | cons ps content ih =>
    match ps with
    | [] =>
      cases content with
      | nil => exact absurd hstarts not_false
      | cons ps' content => exact ih hstarts (List.forall_mem_cons.mp h).2
    | .text _ :: _ => exact h
    | .tag t :: ps =>
      obtain ⟨y, ls, hjoin⟩ := joinContent_cons content next
      rw [hjoin, lineBytes_cons, List.append_assoc] at h
      rw [Sami.enter, hjoin]
      exact h.suffix (List.suffix_append _ _)

theorem Quiet.of_joinContent {content : List (List Piece)} {l : List UInt8}
    {ls : List (List UInt8)} (hne : content ≠ []) (h : Quiet (joinContent content (l :: ls))) :
    Quiet (l :: ls) := by
  induction content with
  | nil => exact absurd rfl hne
  | cons ps content ih =>
    cases content with
    | nil => exact Quiet.suffix h (List.suffix_append _ _)
    | cons ps' content => exact ih (List.cons_ne_nil _ _) (List.forall_mem_cons.mp h).2

/-- The blocks behind a call as the lines that are left. -/
def leftLines (found : Option ExtSubItem × List Block) : Option ExtSubItem × List (List UInt8) :=
  (found.1, (blockLines found.2).tail)

/-- The next block is entered where nothing was to be seen of the one in front. -/
theorem Block.enterText_of_copied {b b' : Block} {stop : ℤ} {w : Vars}
    (hw : b.copied stop (b'.start / 10 - 1) = some w) (hnil : w.lines = []) :
    { ({ w with state := .findP, start := b'.start / 10 } : Vars) with
      state := .getText, text := zeros, p := 0 } = b'.enterText (b'.start / 10 - 1) := by
  have hfixed := Block.fixed_copied hw
  obtain ⟨state, text, p, start, stop', lines, slack⟩ := w
  simp only [Vars.fixed, Prod.mk.injEq] at hfixed
  obtain ⟨-, -, rfl, rfl⟩ := hfixed
  obtain rfl : lines = [] := hnil
  rfl

/-- **A call** from a block on. -/
theorem runsIn_call (bs : List Block) : ∀ (stop : ℤ) (b : Block) (v : Vars), v.state = .findP →
    { v with state := .getText, text := zeros, p := 0 } = b.enterText stop →
    Quiet (joinContent b.content (blockLines bs)) →
    RunsIn v (joinContent b.content (blockLines bs)) ((call stop b bs).map leftLines) := by
  induction bs with
  | nil =>
    intro stop b v hstate henter _
    refine runsIn_findP hstate b.starts b.isLine ?_
    rw [henter]
    have hlast := runsIn_last (enter_ne_nil b.starts) (v := b.enterText stop) rfl b.isLine_enter
    rw [call, Block.seen]
    cases hv : copyPieces (b.enterText stop) (seenFrom false (enter b.content)) with
    | none =>
      rw [hv] at hlast
      exact hlast
    | some w =>
      have hstart : w.start = b.start / 10 := congrArg (·.2.1) (copyPieces_fixed hv)
      rw [hv] at hlast
      dsimp only [Option.bind_some] at hlast ⊢
      by_cases h10 : 10 ≤ b.start
      · rw [if_pos (by omega)] at hlast
        rw [if_pos h10, Option.map_map]
        exact hlast
      · rw [if_neg (by omega)] at hlast
        rw [if_neg h10]
        exact hlast
  | cons b' bs ih =>
    intro stop b v hstate henter hquiet
    obtain ⟨y, ls, hjoin, hlines⟩ := blockLines_cons b' bs
    have hresult : (call stop b (b' :: bs)).map leftLines =
        (b.copied stop (b'.start / 10 - 1)).bind fun w =>
          if w.lines = [] then (call (b'.start / 10 - 1) b' bs).map leftLines
          else (finish w).map fun item => (item, ls) := by
      rw [call, Option.map_bind]
      refine congrArg _ (funext fun w => ?_)
      dsimp only [Function.comp]
      split_ifs
      · rfl
      · rw [Option.map_map]
        refine congrArg (Option.map · _) (funext fun item => ?_)
        exact congrArg (item, ·) (congrArg List.tail hlines)
    rw [hresult]
    rw [hlines] at hquiet ⊢
    refine runsIn_findP hstate b.starts b.isLine ?_
    rw [henter]
    refine runsIn_followed b' (enter_ne_nil b.starts) rfl b.isLine_enter (hquiet.enter b.starts)
      fun w hw hnil => ?_
    have hnext := hquiet.of_joinContent b.content_ne_nil
    obtain ⟨s, rest, hs, hrest⟩ := ih _ b' _ rfl (b.enterText_of_copied hw hnil)
      (hjoin ▸ hnext.suffix (List.suffix_append _ _))
    obtain ⟨rfl, rfl⟩ := List.cons.inj (hjoin.symm.trans hs)
    exact hrest

/-! ## The hunt for a block -/

section Hunt

variable {v : Vars}

/-- A line with no `Start=` is passed over. -/
theorem scanLine_noStart {l : List UInt8} (hstate : v.state = .findStart)
    (hstart : strIStr startEq l = none) (hquiet : strIStr slacktime l = none ∧ 0 ∉ l)
    (stale : List UInt8) : scanLine v (l ++ 0 :: stale) = .nextLine v := by
  rw [scanLine_eq, step, hstate]
  dsimp only
  rw [stepFindStart, strIStr_line hquiet.1 hquiet.2 (by decide),
    strIStr_line hstart hquiet.2 (by decide)]
  rfl

/-- **The first block** behind some lines is found. -/
theorem runsIn_hunt {b : Block} {bs : List Block} {x : List UInt8}
    {result : Option (Option ExtSubItem × List (List UInt8))} (hstate : v.state = .findStart)
    (hx : strIStr startEq x = none)
    (hruns : RunsIn { v with state := .findP, start := b.start / 10 }
      (joinContent b.content (blockLines bs)) result) {front : List (List UInt8)}
    (hfront : ∀ l ∈ front, strIStr startEq l = none)
    (hquiet : Quiet (front ++ prepend x (blockLines (b :: bs)))) :
    RunsIn v (front ++ prepend x (blockLines (b :: bs))) result := by
  induction front with
  | nil =>
    obtain ⟨y, ls, hjoin, hlines⟩ := blockLines_cons b bs
    obtain ⟨s, rest, hs, hrest⟩ := hruns
    obtain ⟨rfl, rfl⟩ := List.cons.inj (hjoin.symm.trans hs)
    rw [List.nil_append, hlines] at hquiet ⊢
    obtain ⟨hslack, h0⟩ := hquiet _ List.mem_cons_self
    refine ⟨x ++ (b.sync ++ y), ls, rfl, hrest.of_eq fun stale => ?_⟩
    rw [List.append_assoc, List.append_assoc]
    exact b.scanLine_hunt hstate hx hslack h0 stale
  | cons l front ih =>
    obtain ⟨hl, hfront'⟩ := List.forall_mem_cons.mp hfront
    obtain ⟨hquietl, hquiet'⟩ := List.forall_mem_cons.mp hquiet
    obtain ⟨s, rest, hs, hrest⟩ := ih hfront' hquiet'
    rw [List.cons_append, hs]
    exact ⟨l, _, rfl, hrest.nextLine (scanLine_noStart hstate hl hquietl)⟩

/-- No block is found. -/
theorem runsIn_noStart (hstate : v.state = .findStart) (hzero : v.start = 0)
    {front : List (List UInt8)} :
    ∀ {l : List UInt8}, (∀ l' ∈ l :: front, strIStr startEq l' = none) →
      Quiet (l :: front) → RunsIn v (l :: front) (some (none, [])) := by
  induction front with
  | nil =>
    intro l hstart hquiet
    have hlast := Runs.last (scanLine_noStart hstate (hstart l List.mem_cons_self)
      (hquiet l List.mem_cons_self))
    rw [hzero, if_neg (lt_irrefl _)] at hlast
    exact ⟨l, [], rfl, hlast⟩
  | cons l' front ih =>
    intro l hstart hquiet
    obtain ⟨hl, hstart'⟩ := List.forall_mem_cons.mp hstart
    obtain ⟨hquietl, hquiet'⟩ := List.forall_mem_cons.mp hquiet
    obtain ⟨s, rest, hs, hrest⟩ := ih hstart' hquiet'
    rw [hs]
    exact ⟨l, _, rfl, hrest.nextLine (scanLine_noStart hstate hl hquietl)⟩

end Hunt

/-! ## The items of some blocks -/

/-- Whether a block is hunted for, with the end of the item so far, or skipped as it begins on the
line of a `SYNC` that ended an item. -/
inductive Mode where
  | find (stop : ℤ)
  | skip

/-- The items of some blocks, unless there is a write out of bounds. -/
def items : Mode → List Block → Option (List ExtSubItem)
  | _, [] => some []
  | .skip, b :: bs => items (if b.content.length = 1 then .skip else .find 0) bs
  | .find stop, [b] => (copyPieces (b.enterText stop) (b.seen false)).bind fun v =>
    if 10 ≤ b.start then (finish v).map fun item => (item.map finishItem).toList else some []
  | .find stop, b :: b' :: bs => (b.copied stop (b'.start / 10 - 1)).bind fun v =>
    if v.lines = [] then items (.find (b'.start / 10 - 1)) (b' :: bs)
    else (finish v).bind fun item =>
      match item with
      | none => some []
      | some item => (items .skip (b' :: bs)).map (finishItem item :: ·)

/-- The items from a call on. -/
def itemsFrom : Option (Option ExtSubItem × List Block) → Option (List ExtSubItem)
  | none => none
  | some (none, _) => some []
  | some (some item, bs) => (items .skip bs).map (finishItem item :: ·)

theorem items_find (bs : List Block) : ∀ (stop : ℤ) (b : Block),
    items (.find stop) (b :: bs) = itemsFrom (call stop b bs) := by
  induction bs with
  | nil =>
    intro stop b
    rw [items, call]
    cases copyPieces (b.enterText stop) (b.seen false) with
    | none => rfl
    | some v =>
      dsimp only [Option.bind_some]
      split_ifs
      · rcases finish v with _ | _ | item <;> rfl
      · rfl
  | cons b' bs ih =>
    intro stop b
    rw [items, call]
    cases b.copied stop (b'.start / 10 - 1) with
    | none => rfl
    | some v =>
      dsimp only [Option.bind_some]
      split_ifs
      · exact ih _ b'
      · rcases finish v with _ | _ | item <;> rfl

theorem call_suffix (bs : List Block) : ∀ {stop : ℤ} {b : Block} {item : Option ExtSubItem}
    {rest : List Block}, call stop b bs = some (item, rest) → rest <:+ bs := by
  induction bs with
  | nil =>
    intro stop b item rest h
    rw [call] at h
    obtain ⟨v, -, h⟩ := Option.bind_eq_some_iff.mp h
    split_ifs at h
    · obtain ⟨item', -, heq⟩ := Option.map_eq_some_iff.mp h
      obtain ⟨-, rfl⟩ := Prod.mk.inj heq
      exact List.suffix_refl _
    · obtain ⟨-, rfl⟩ := Prod.mk.inj (Option.some.inj h)
      exact List.suffix_refl _
  | cons b' bs ih =>
    intro stop b item rest h
    rw [call] at h
    obtain ⟨v, -, h⟩ := Option.bind_eq_some_iff.mp h
    split_ifs at h
    · exact (ih h).trans (List.suffix_cons b' bs)
    · obtain ⟨item', -, heq⟩ := Option.map_eq_some_iff.mp h
      obtain ⟨-, rfl⟩ := Prod.mk.inj heq
      exact List.suffix_refl _

/-- The calls give the items of some lines. -/
def Calls (ls : List (List UInt8)) (its : Option (List ExtSubItem)) : Prop :=
  ∀ fuel r stack, Feeds r ls → ls.length < fuel → decodeItems fuel r stack = its

theorem Feeds.length_le {r : Reader} {ls : List (List UInt8)} (h : Feeds r ls) :
    ls.length ≤ (toRead r).length := by
  obtain ⟨crlf, content, hready, hcontent, rfl⟩ := h
  exact (delivers_of_isReadable crlf hready hcontent).length_le

theorem calls_nil : Calls [] (some []) := by
  intro fuel r stack hfeeds hfuel
  obtain ⟨fuel, rfl⟩ := Nat.exists_eq_succ_of_ne_zero (Nat.ne_zero_of_lt hfuel)
  obtain ⟨r', hget, -⟩ := hfeeds.nil ⟨(stack 0).before, zeros⟩
  rw [decodeItems, decodedItem, hget]

/-- **The first call** of some lines, and the others. -/
theorem calls_of_runsIn {ls : List (List UInt8)} {found : Option (Option ExtSubItem × List Block)}
    (hruns : RunsIn Vars.init ls (found.map leftLines))
    (hrest : ∀ item bs, found = some (some item, bs) →
      Calls (blockLines bs).tail (items .skip bs)) :
    Calls ls (itemsFrom found) := by
  intro fuel r stack hfeeds hfuel
  obtain ⟨fuel, rfl⟩ := Nat.exists_eq_succ_of_ne_zero (Nat.ne_zero_of_lt hfuel)
  obtain ⟨s, rest, rfl, hrun⟩ := hruns
  obtain ⟨m, stale, r', hget, hbytes, hlength, hfeeds'⟩ :=
    hfeeds.cons (s := ⟨(stack 0).before, zeros⟩) List.length_replicate
  have hitem := hrun ((toRead r').length + 1) r' m stale hfeeds' hlength
    (Nat.lt_succ_of_le hfeeds'.length_le)
  rw [decodeItems, decodedItem, hget]
  dsimp only
  rw [hlength, if_neg (lt_irrefl _), hbytes]
  generalize findItem ((toRead r').length + 1) Vars.init (s ++ 0 :: stale) r' m = result at hitem ⊢
  cases found with
  | none =>
    cases hitem
    rfl
  | some answer =>
    obtain ⟨item, bs⟩ := answer
    cases hitem with
    | some hrel =>
      next answer =>
      obtain ⟨item', r''⟩ := answer
      obtain ⟨rfl, hfeeds'', hle⟩ := hrel
      cases item' with
      | none => rfl
      | some item =>
        have hnext := hrest item bs rfl fuel r'' (fun i => stack (i + 1)) hfeeds''
          (hle.trans_lt (Nat.lt_of_succ_lt_succ hfuel))
        exact congrArg (Option.map (finishItem item :: ·)) hnext

theorem Quiet.of_append {front ls : List (List UInt8)} (h : Quiet (front ++ ls)) : Quiet ls :=
  fun l hl => h l (List.mem_append_right _ hl)

theorem Quiet.tail {ls : List (List UInt8)} (h : Quiet ls) : Quiet ls.tail :=
  fun l hl => h l (List.mem_of_mem_tail hl)

/-- The last line of a content stands in front of the next block. -/
theorem joinContent_eq {content : List (List Piece)} (hne : content ≠ [])
    (hline : ∀ ps ∈ content, IsLine ps) : ∃ front x, (∀ l ∈ front, strIStr startEq l = none) ∧
      strIStr startEq x = none ∧ joinContent content [] = front ++ [x] ∧
      ∀ next, next ≠ [] → joinContent content next = front ++ prepend x next := by
  induction content with
  | nil => exact absurd rfl hne
  | cons ps content ih =>
    obtain ⟨hps, hcontent⟩ := List.forall_mem_cons.mp hline
    cases content with
    | nil =>
      refine ⟨[], lineBytes ps, nofun, hps.no_start, rfl, fun next hnext => ?_⟩
      obtain ⟨l, ls, rfl⟩ := List.exists_cons_of_ne_nil hnext
      rfl
    | cons ps' content =>
      obtain ⟨front, x, hfront, hx, hlast, hnext⟩ := ih (List.cons_ne_nil _ _) hcontent
      refine ⟨lineBytes ps :: front, x, List.forall_mem_cons.mpr ⟨hps.no_start, hfront⟩, hx, ?_,
        fun next hne => ?_⟩
      · rw [joinContent_cons_cons, hlast]
        rfl
      · rw [joinContent_cons_cons, hnext next hne]
        rfl

theorem blockLines_ne_nil (b : Block) (bs : List Block) : blockLines (b :: bs) ≠ [] := by
  obtain ⟨y, ls, -, hlines⟩ := blockLines_cons b bs
  rw [hlines]
  exact List.cons_ne_nil _ _

/-- The lines of fewer blocks are quiet. -/
theorem Quiet.of_suffix {bs bs' : List Block} (hsuffix : bs' <:+ bs) (h : Quiet (blockLines bs)) :
    Quiet (blockLines bs') := by
  induction bs with
  | nil => rwa [List.suffix_nil.mp hsuffix]
  | cons b bs ih =>
    rcases List.suffix_cons_iff.mp hsuffix with rfl | hsuffix
    · exact h
    · refine ih hsuffix ?_
      obtain ⟨y, ls, hjoin, hlines⟩ := blockLines_cons b bs
      rw [hlines] at h
      have hcontent := h.suffix (List.suffix_append b.sync y)
      rw [← hjoin] at hcontent
      cases hnext : blockLines bs with
      | nil => exact fun _ hl => absurd hl List.not_mem_nil
      | cons l ls' =>
        rw [hnext] at hcontent
        exact hcontent.of_joinContent b.content_ne_nil

/-- **The calls** give the items, from lines with no block in them on, and where the line of the
first block is gone. -/
theorem calls_items (n : ℕ) : ∀ bs : List Block, bs.length = n → Quiet (blockLines bs) →
    (∀ front x, (∀ l ∈ front, strIStr startEq l = none) → strIStr startEq x = none →
      Quiet (front ++ prepend x (blockLines bs)) →
      Calls (front ++ prepend x (blockLines bs)) (items (.find 0) bs)) ∧
    Calls (blockLines bs).tail (items .skip bs) := by
  induction n using Nat.strong_induction_on with
  | _ n ih =>
    intro bs hn hquiet
    cases bs with
    | nil =>
      refine ⟨fun front x hfront _ hfrontQuiet => ?_, calls_nil⟩
      rw [blockLines, prepend, List.append_nil] at hfrontQuiet ⊢
      cases front with
      | nil => exact calls_nil
      | cons l front =>
        exact @calls_of_runsIn _ (some (none, [])) (runsIn_noStart rfl rfl hfront hfrontQuiet)
          nofun
    | cons b bs =>
      have hlt : ∀ {rest : List Block}, rest <:+ bs → rest.length < n := fun hrest =>
        hn ▸ Nat.lt_succ_of_le hrest.length_le
      have hrestQuiet : ∀ {rest : List Block}, rest <:+ bs → Quiet (blockLines rest) := fun hrest =>
        hquiet.of_suffix (hrest.trans (List.suffix_cons b bs))
      obtain ⟨y, ls, hjoin, hlines⟩ := blockLines_cons b bs
      constructor
      · intro front x hfront hx hfrontQuiet
        have hcontent : Quiet (joinContent b.content (blockLines bs)) := by
          rw [hlines] at hquiet
          exact hjoin ▸ hquiet.suffix (List.suffix_append b.sync y)
        rw [items_find]
        refine calls_of_runsIn (runsIn_hunt rfl hx (runsIn_call bs 0 b _ rfl rfl hcontent) hfront
          hfrontQuiet) fun item rest hcall => ?_
        have hrest := call_suffix bs hcall
        exact (ih rest.length (hlt hrest) rest rfl (hrestQuiet hrest)).2
      · obtain ⟨hfind, hskip⟩ :=
          ih bs.length (hlt (List.suffix_refl bs)) bs rfl (hrestQuiet (List.suffix_refl bs))
        obtain ⟨ps, content, hcontent⟩ := List.exists_cons_of_ne_nil b.content_ne_nil
        have hline := b.isLine
        rw [hlines, items, hcontent]
        rw [hcontent] at hjoin hline
        rw [List.tail_cons]
        cases content with
        | nil =>
          -- the next block begins on the same line, and is lost as well
          have hls : ls = (blockLines bs).tail := by
            cases hnext : blockLines bs with
            | nil =>
              rw [hnext] at hjoin
              exact (List.cons.inj hjoin).2.symm
            | cons l ls' =>
              rw [hnext] at hjoin
              exact (List.cons.inj hjoin).2.symm
          rw [if_pos List.length_singleton, hls]
          exact hskip
        | cons ps' content =>
          obtain ⟨front, x, hfront, hx, hlast, hnext⟩ :=
            joinContent_eq (List.cons_ne_nil ps' content) (List.forall_mem_cons.mp hline).2
          have hls : ls = joinContent (ps' :: content) (blockLines bs) :=
            (List.cons.inj hjoin).2.symm
          have hlsQuiet : Quiet ls := by
            rw [hlines] at hquiet
            exact hquiet.tail
          have hlen : ¬ (ps :: ps' :: content).length = 1 := fun hlen =>
            absurd (Nat.succ.inj hlen) (Nat.succ_ne_zero _)
          rw [if_neg hlen]
          cases bs with
          | nil =>
            rw [blockLines, hlast] at hls
            have hcalls := hfind (front ++ [x]) []
            rw [blockLines, prepend, List.append_nil, ← hls] at hcalls
            exact hcalls (hls ▸ List.forall_mem_append.mpr
              ⟨hfront, fun l hl => List.eq_of_mem_singleton hl ▸ hx⟩) rfl hlsQuiet
          | cons b' bs =>
            rw [hnext _ (blockLines_ne_nil b' bs)] at hls
            rw [hls] at hlsQuiet ⊢
            exact hfind front x hfront hx hlsQuiet

end Sami
end AmlSubtitle
