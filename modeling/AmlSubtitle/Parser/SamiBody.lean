import AmlSubtitle.Parser.Sami

/-!
# The body of a SAMI file

A body is a sequence of blocks, each a `SYNC` tag and what stands behind it, in lines that end
wherever they do: a tag may stand on the line of the block in front.

* `Piece` is a run of text or a tag, and `Block` a block.
* `copyPieces`: what the state machine copies of some pieces.
* `scanLine_line`, `Block.scanLine_sync`: what becomes of the pieces of a line, in front of its end
  and in front of a `SYNC` tag.
* `Block.scanLine_hunt`: how the state machine finds a block.
-/

namespace AmlSubtitle
namespace Sami

open Words Scanf ExtSubStreamReader TextSubtitle

/-! ## Bodies -/

/-- A run of text, or a tag. -/
inductive Piece where
  | text (t : List UInt8)
  | tag (t : List UInt8)

/-- A piece as it stands in the file. -/
def Piece.bytes : Piece → List UInt8
  | .text t => t
  | .tag t => 60 :: (t ++ [62])

/-- There is no markup in a text, and no other tag in a tag. -/
def Piece.Ok : Piece → Prop
  | .text t => t ≠ [] ∧ ∀ c ∈ t, c ≠ 0 ∧ c ≠ 60
  | .tag t => t ≠ [] ∧ ∀ c ∈ t, c ≠ 0 ∧ c ≠ 60 ∧ c ≠ 62

/-- A run of text. -/
def Piece.IsText : Piece → Prop
  | .text _ => True
  | .tag _ => False

/-- `<br>`. -/
def isBr (t : List UInt8) : Bool := t.map toLower == [98, 114]

/-- The name of a tag that is skipped begins with a `P`, an `S` or an `s`. -/
def isSkipped (t : List UInt8) : Bool :=
  t.headD 0 = 83 || t.headD 0 = 80 || t.headD 0 = 115

/-- A tag that is skipped. -/
def Piece.isSkipped : Piece → Bool
  | .text _ => false
  | .tag t => Sami.isSkipped t

/-- The bytes of some pieces. -/
def lineBytes (ps : List Piece) : List UInt8 := ps.flatMap Piece.bytes

/-- Pieces of a line.  Runs of text are as long as they may be, and no `Start=` is in the line. -/
structure IsLine (ps : List Piece) : Prop where
  ok : ∀ piece ∈ ps, piece.Ok
  chain : ps.IsChain fun a b => ¬ (a.IsText ∧ b.IsText)
  no_start : strIStr startEq (lineBytes ps) = none

/-- The first piece is a paragraph, or a text. -/
def Starts : List (List Piece) → Prop
  | [] => False
  | [] :: ls => Starts ls
  | (.text _ :: _) :: _ => True
  | (.tag t :: _) :: _ => t.headD 0 = 80 ∨ t.headD 0 = 112

/-- A `SYNC` tag, and what stands behind it, line by line: the next tag stands behind the last
one. -/
structure Block where
  opening : List UInt8
  digits : List UInt8
  attributes : List UInt8
  content : List (List Piece)
  /-- `<SYNC Start=`, in any case. -/
  lower_opening :
    opening.map toLower = [60, 115, 121, 110, 99, 32, 115, 116, 97, 114, 116, 61]
  digits_ne_nil : digits ≠ []
  isDigits : ∀ c ∈ digits, isDigit c = true
  no_zero : digits.head? = some 48 → digits = [48]
  digits_lt : decimal digits < 2 ^ 63
  attributes_head : ∀ c ∈ attributes.head?, isBlank c = true
  no_end : ∀ c ∈ attributes, c ≠ 0 ∧ c ≠ 62
  isLine : ∀ ps ∈ content, IsLine ps
  starts : Starts content

/-- The `Start` of the block. -/
def Block.start (b : Block) : ℕ := decimal b.digits

/-- The `SYNC` tag. -/
def Block.sync (b : Block) : List UInt8 := b.opening ++ (b.digits ++ (b.attributes ++ [62]))

/-- Some bytes in front of the first line. -/
def prepend (x : List UInt8) : List (List UInt8) → List (List UInt8)
  | [] => []
  | l :: ls => (x ++ l) :: ls

/-- The lines of a content, and those behind it, of which the first stands on the last line of the
content. -/
def joinContent : List (List Piece) → List (List UInt8) → List (List UInt8)
  | [], next => next
  | [ps], [] => [lineBytes ps]
  | [ps], l :: ls => (lineBytes ps ++ l) :: ls
  | ps :: ps' :: content, next => lineBytes ps :: joinContent (ps' :: content) next

/-- The lines of some blocks. -/
def blockLines : List Block → List (List UInt8)
  | [] => []
  | b :: bs => prepend b.sync (joinContent b.content (blockLines bs))

/-- Whether a text has something to be seen in it: a character that is no blank, and none of
`&nbsp;`. -/
def visible : ℕ → List UInt8 → Bool
  | _, [] => false
  | k + 1, _ :: t => visible k t
  | 0, c :: t => if startsWithI nbsp (c :: t) then visible 5 t else !isSpace c || visible 0 t

/-- A text with something to be seen. -/
def Piece.hasText : Piece → Bool
  | .text t => visible 0 t
  | .tag _ => false

/-- A block with text. -/
def Block.hasText (b : Block) : Bool := b.content.any fun ps => ps.any Piece.hasText

/-! ## What is copied -/

/-- A run of characters is copied. -/
def copyRun : ℕ → Vars → List UInt8 → Option Vars
  | _, v, [] => some v
  | k + 1, v, _ :: t => copyRun k v t
  | 0, v, c :: t =>
    if startsWithI nbsp (c :: t) then (put v 32).bind fun v => copyRun 5 v t
    else if c = 9 then (put v 32).bind fun v => copyRun 0 v t
    else if c = 13 ∨ c = 10 then copyRun 0 (squeeze v) t
    else (put v c).bind fun v => copyRun 0 v t

/-- A piece is copied.  Tags other than `<br>` are text, unless they are skipped. -/
def copyPiece (v : Vars) : Piece → Option Vars
  | .text t => copyRun 0 v t
  | .tag t =>
    if isBr t then (flush v).map fun v => squeeze { v with p := 0 }
    else if isSkipped t then some (squeeze v)
    else copyRun 0 v (60 :: (t ++ [62]))

/-- Some pieces are copied. -/
def copyPieces (v : Vars) (ps : List Piece) : Option Vars := ps.foldlM copyPiece v

/-- The content behind the first paragraph tag, or from the first text on. -/
def enter : List (List Piece) → List (List Piece)
  | [] => []
  | [] :: content => enter content
  | (.text t :: ps) :: content => (.text t :: ps) :: content
  | (.tag _ :: ps) :: content => ps :: content

/-- The pieces in front of the first tag that is skipped. -/
def upToSkipped (ps : List Piece) : List Piece := ps.takeWhile fun piece => !piece.isSkipped

/-- The pieces that are copied.  On the last line, where another `SYNC` tag follows, the first tag
that is skipped is the end. -/
def seenFrom (followed : Bool) : List (List Piece) → List Piece
  | [] => []
  | [ps] => if followed then upToSkipped ps else ps
  | ps :: ps' :: content => ps ++ seenFrom followed (ps' :: content)

/-- The pieces of a block that are copied. -/
def Block.seen (b : Block) (followed : Bool) : List Piece := seenFrom followed (enter b.content)

/-- The variables where the text of a block begins. -/
def Block.enterText (b : Block) (stop : ℤ) : Vars where
  state := .getText
  text := zeros
  p := 0
  start := b.start / 10
  stop := stop
  lines := []
  mSubSlackTime := 0

/-! ## Searching in a line -/

theorem startsWithI_append {needle t rest : List UInt8}
    (h : ∀ c ∈ rest.head?, toLower c ∉ needle) :
    startsWithI needle (t ++ rest) = startsWithI needle t := by
  rcases Nat.lt_or_ge t.length needle.length with hlt | hge
  · cases rest with
    | nil => rw [List.append_nil]
    | cons c rest =>
      have hleft : startsWithI needle (t ++ c :: rest) = false := by
        rw [startsWithI, beq_eq_false_iff_ne]
        intro heq
        refine h c rfl (heq ▸ List.mem_map_of_mem ?_)
        rw [List.take_append, List.mem_append]
        refine .inr ?_
        obtain ⟨n, hn⟩ := Nat.exists_eq_add_of_lt hlt
        rw [hn, Nat.add_assoc, Nat.add_sub_cancel_left]
        exact List.mem_cons_self
      have hright : startsWithI needle t = false := by
        rw [startsWithI, beq_eq_false_iff_ne]
        intro heq
        have hlen := congrArg List.length heq
        rw [List.length_map, List.length_take] at hlen
        omega
      rw [hleft, hright]
  · rw [startsWithI, startsWithI, List.take_append_of_le_length hge]

theorem head_of_startsWithI {d c : UInt8} {needle s : List UInt8}
    (h : startsWithI (d :: needle) (c :: s) = true) : toLower c = d := by
  rw [startsWithI, beq_iff_eq] at h
  exact (List.cons.inj h).1

/-- A character that is no letter is that of one case only. -/
theorem eq_of_toLower {c d : UInt8} (hd : d < 97) (h : toLower c = d) : c = d := by
  rw [toLower] at h
  split_ifs at h with hcase
  · rw [Bool.and_eq_true, decide_eq_true_iff, decide_eq_true_iff, UInt8.le_iff_toNat_le,
      UInt8.le_iff_toNat_le] at hcase
    have hnat := congrArg UInt8.toNat h
    rw [UInt8.toNat_add] at hnat
    rw [UInt8.lt_iff_toNat_lt] at hd
    have h65 : UInt8.toNat 65 = 65 := rfl
    have h90 : UInt8.toNat 90 = 90 := rfl
    have h32 : UInt8.toNat 32 = 32 := rfl
    have h97 : UInt8.toNat 97 = 97 := rfl
    omega
  · exact h

/-- What is not in some bytes is looked for behind them. -/
theorem strIStr_append {needle s rest : List UInt8} (hnone : strIStr needle s = none)
    (h0 : 0 ∉ s) (hrest : ∀ c ∈ rest.head?, toLower c ∉ needle) :
    strIStr needle (s ++ rest) = strIStr needle rest := by
  induction s with
  | nil => rfl
  | cons c s ih =>
    have hc : c ≠ 0 := fun hc => h0 (hc ▸ List.mem_cons_self)
    rw [strIStr, if_neg hc] at hnone
    split_ifs at hnone with hstarts
    rw [List.cons_append, strIStr, if_neg hc, ← List.cons_append, startsWithI_append hrest,
      if_neg hstarts]
    exact ih hnone fun hs => h0 (List.mem_cons_of_mem c hs)

theorem strIStr_suffix {needle s t : List UInt8} (hnone : strIStr needle s = none) (h0 : 0 ∉ s)
    (h : t <:+ s) : strIStr needle t = none := by
  induction s with
  | nil =>
    rw [List.suffix_nil.mp h]
    rfl
  | cons c s ih =>
    rcases List.suffix_cons_iff.mp h with rfl | ht
    · exact hnone
    · have hc : c ≠ 0 := fun hc => h0 (hc ▸ List.mem_cons_self)
      rw [strIStr, if_neg hc] at hnone
      split_ifs at hnone
      exact ih hnone (fun hs => h0 (List.mem_cons_of_mem c hs)) ht

theorem strIStr_null (needle rest : List UInt8) : strIStr needle (0 :: rest) = none := if_pos rfl

/-- The end of a tag is found. -/
theorem strchr_append {d : UInt8} {t rest : List UInt8} (h : ∀ c ∈ t, c ≠ 0 ∧ c ≠ d) :
    strchr d (t ++ d :: rest) = some (d :: rest) := by
  induction t with
  | nil => exact if_pos rfl
  | cons c t ih =>
    obtain ⟨⟨h0, hd⟩, ht⟩ := List.forall_mem_cons.mp h
    rw [List.cons_append, strchr, if_neg hd, if_neg h0]
    exact ih ht

/-! ## The text of a line -/

theorem copyRun_drop (k : ℕ) (v : Vars) (t : List UInt8) :
    copyRun k v t = copyRun 0 v (t.drop k) := by
  induction k generalizing t with
  | zero => rfl
  | succ k ih =>
    cases t with
    | nil => rfl
    | cons c t => exact ih t

theorem copyRun_fixed {t : List UInt8} : ∀ {k : ℕ} {v v' : Vars}, copyRun k v t = some v' →
    v'.fixed = v.fixed := by
  induction t with
  | nil =>
    intro k v v' h
    rw [copyRun] at h
    rw [Option.some.inj h]
  | cons c t ih =>
    intro k v v' h
    cases k with
    | succ k => exact ih h
    | zero =>
      rw [copyRun] at h
      split_ifs at h
      · obtain ⟨u, hu, h⟩ := Option.bind_eq_some_iff.mp h
        exact (ih h).trans (put_fixed hu)
      · obtain ⟨u, hu, h⟩ := Option.bind_eq_some_iff.mp h
        exact (ih h).trans (put_fixed hu)
      · exact (ih h).trans (squeeze_fixed v)
      · obtain ⟨u, hu, h⟩ := Option.bind_eq_some_iff.mp h
        exact (ih h).trans (put_fixed hu)

theorem copyPiece_fixed {v v' : Vars} {piece : Piece} (h : copyPiece v piece = some v') :
    v'.fixed = v.fixed := by
  cases piece with
  | text t => exact copyRun_fixed h
  | tag t =>
    rw [copyPiece] at h
    split_ifs at h
    · obtain ⟨u, hu, rfl⟩ := Option.map_eq_some_iff.mp h
      have hfixed := flush_fixed hu
      exact (squeeze_fixed _).trans hfixed
    · rw [← Option.some.inj h]
      exact squeeze_fixed v
    · exact copyRun_fixed h

theorem copyPieces_cons (v : Vars) (piece : Piece) (ps : List Piece) :
    copyPieces v (piece :: ps) = (copyPiece v piece).bind fun v => copyPieces v ps := rfl

theorem copyPieces_append (v : Vars) (ps qs : List Piece) :
    copyPieces v (ps ++ qs) = (copyPieces v ps).bind fun v => copyPieces v qs :=
  List.foldlM_append

/-- **The copying** leaves the state and the times as they are. -/
theorem copyPieces_fixed {ps : List Piece} : ∀ {v v' : Vars}, copyPieces v ps = some v' →
    v'.fixed = v.fixed := by
  induction ps with
  | nil =>
    intro v v' h
    rw [Option.some.inj h]
  | cons piece ps ih =>
    intro v v' h
    obtain ⟨u, hu, h⟩ := Option.bind_eq_some_iff.mp h
    exact (ih h).trans (copyPiece_fixed hu)

/-- What comes of a line: the pieces are copied, and it goes on from there. -/
def Outcome.bindVars (v : Option Vars) (f : Vars → Outcome) : Outcome :=
  match v with
  | none => .outOfBounds
  | some v => f v

/-- **A run of characters** is copied, where `&nbsp;` does not go on behind it. -/
theorem scanLine_copyRun {rest : List UInt8} : ∀ (n : ℕ) (t : List UInt8) (v : Vars),
    t.length = n → v.state = .getText → (∀ c ∈ t, c ≠ 0 ∧ c ≠ 60) →
    (∀ u, u <:+ t → u ≠ [] → startsWithI nbsp (u ++ rest) = startsWithI nbsp u) →
    scanLine v (t ++ rest) = Outcome.bindVars (copyRun 0 v t) fun v => scanLine v rest := by
  intro n
  induction n using Nat.strong_induction_on with
  | _ n ih =>
    intro t v hn hstate hok hlocal
    cases t with
    | nil => rfl
    | cons c t =>
      obtain ⟨⟨h0, h60⟩, ht⟩ := List.forall_mem_cons.mp hok
      have hbr : ¬ startsWithI br (c :: (t ++ rest)) = true := fun hbr =>
        h60 (eq_of_toLower (by decide) (head_of_startsWithI hbr))
      have hhere := hlocal (c :: t) (List.suffix_refl _) (List.cons_ne_nil c t)
      rw [List.cons_append] at hhere
      have hsub : ∀ k, ∀ d ∈ t.drop k, d ≠ 0 ∧ d ≠ 60 :=
        fun k d hd => ht d (List.mem_of_mem_drop hd)
      have hlocal' : ∀ k u, u <:+ t.drop k → u ≠ [] →
          startsWithI nbsp (u ++ rest) = startsWithI nbsp u := fun k u hu =>
        hlocal u ((hu.trans (List.drop_suffix k t)).trans (List.suffix_cons c t))
      have hlt : ∀ k, (t.drop k).length < n := fun k => by
        rw [List.length_drop, ← hn, List.length_cons]
        omega
      -- one character is put, and the rest is a shorter run
      have hput : ∀ (d : UInt8) (k : ℕ),
          (Outcome.ofOption (put v d) (t.drop k ++ rest)).resume =
          Outcome.bindVars ((put v d).bind fun v => copyRun 0 v (t.drop k))
            fun v => scanLine v rest := by
        intro d k
        cases hv : put v d with
        | none => rfl
        | some u =>
          exact ih _ (hlt k) (t.drop k) u rfl ((put_state hv).trans hstate) (hsub k) (hlocal' k)
      rw [List.cons_append, scanLine_eq, step, hstate]
      dsimp only
      rw [stepGetText]
      rw [List.headD_cons, if_neg h0, if_neg hbr, if_neg fun h => h60 h.1, hhere, copyRun]
      by_cases hnbsp : startsWithI nbsp (c :: t) = true
      · have hlen : 5 ≤ t.length := by
          rw [startsWithI, beq_iff_eq] at hnbsp
          have hlen := congrArg List.length hnbsp
          have h6 : nbsp.length = 6 := rfl
          rw [List.length_map, List.length_take, h6, List.length_cons] at hlen
          omega
        rw [if_pos hnbsp, if_pos hnbsp]
        have hdrop : (c :: (t ++ rest)).drop 6 = t.drop 5 ++ rest :=
          List.drop_append_of_le_length hlen
        rw [hdrop, hput]
        simp only [copyRun_drop 5]
      · rw [if_neg hnbsp, if_neg hnbsp]
        have hdrop : (c :: (t ++ rest)).drop 1 = t.drop 0 ++ rest := rfl
        rw [hdrop]
        by_cases h9 : c = 9
        · rw [if_pos h9, if_pos h9, hput]
          rfl
        · rw [if_neg h9, if_neg h9]
          by_cases heol : c = 13 ∨ c = 10
          · rw [if_pos heol, if_pos heol]
            exact ih _ (hlt 0) (t.drop 0) (squeeze v) rfl ((squeeze_state v).trans hstate) (hsub 0)
              (hlocal' 0)
          · rw [if_neg heol, if_neg heol, hput]
            rfl

/-! ## The tags of a line -/

/-- A tag is a `<br>` if it has nothing else in it. -/
theorem startsWithI_br {t rest : List UInt8} (ht : t ≠ []) (h : ∀ c ∈ t, c ≠ 62) :
    startsWithI br (60 :: (t ++ 62 :: rest)) = isBr t := by
  rw [isBr, startsWithI]
  match t with
  | [] => exact absurd rfl ht
  | [c] =>
    have hlower : toLower 62 = 62 := rfl
    simp [br, hlower]
  | [c, d] =>
    have hlower : toLower 60 = 60 ∧ toLower 62 = 62 := ⟨rfl, rfl⟩
    simp [br, hlower]
  | c :: d :: e :: t =>
    have he : toLower e ≠ 62 := fun heq => h e (by simp) (eq_of_toLower (by decide) heq)
    simp [br, he]

theorem not_startsWithI_nbsp (s : List UInt8) : ¬ startsWithI nbsp (60 :: s) = true := fun h =>
  absurd (head_of_startsWithI h) (by decide)

section Tags

variable {v : Vars} {t : List UInt8}

/-- A `<br>`. -/
theorem scanLine_br (hstate : v.state = .getText) (hok : (Piece.tag t).Ok) (hbr : isBr t = true)
    (rest : List UInt8) : scanLine v (60 :: (t ++ 62 :: rest)) =
      Outcome.bindVars ((flush v).map fun v => squeeze { v with p := 0 })
        fun v => scanLine v rest := by
  have hlen : t.length = 2 := by
    rw [isBr, beq_iff_eq] at hbr
    have hlen := congrArg List.length hbr
    rwa [List.length_map] at hlen
  have hdrop : (60 :: (t ++ 62 :: rest)).drop 4 = rest := by
    rw [show 4 = t.length + 2 by omega, List.drop_succ_cons, ← List.drop_drop, List.drop_left]
    rfl
  rw [scanLine_eq, step, hstate]
  dsimp only
  rw [stepGetText, List.headD_cons, if_neg (by decide),
    startsWithI_br hok.1 fun c hc => (hok.2 c hc).2.2, if_pos hbr, hdrop]
  cases (flush v).map fun v => squeeze { v with p := 0 } with
  | none => rfl
  | some v => rfl

theorem squeeze_setState (v : Vars) (state : State) :
    squeeze { v with state := state } = { squeeze v with state := state } := by
  unfold squeeze
  dsimp only
  split_ifs <;> rfl

/-- A tag that is skipped is entered with the state 4. -/
theorem scanLine_getEnd (hstate : v.state = .getText) (hskipped : isSkipped t = true)
    (hend : ∀ c ∈ t, c ≠ 62) (rest : List UInt8) :
    scanLine v (60 :: (t ++ 62 :: rest)) =
      scanLine (squeeze { v with state := .getEnd }) (60 :: (t ++ 62 :: rest)) := by
  have hne : t ≠ [] := by
    rintro rfl
    exact absurd hskipped (by decide)
  obtain ⟨c, t, rfl⟩ := List.exists_cons_of_ne_nil hne
  have hc : c = 83 ∨ c = 80 ∨ c = 115 := by
    rw [isSkipped, List.headD_cons, Bool.or_eq_true, Bool.or_eq_true, decide_eq_true_iff,
      decide_eq_true_iff, decide_eq_true_iff, or_assoc] at hskipped
    exact hskipped
  have hbr : isBr (c :: t) = false := by
    rw [isBr, beq_eq_false_iff_ne]
    intro h
    have hlower : toLower c = 98 := (List.cons.inj h).1
    rcases hc with rfl | rfl | rfl <;> exact absurd hlower (by decide)
  rw [scanLine_eq, step, hstate]
  dsimp only
  rw [stepGetText, List.headD_cons, if_neg (by decide), startsWithI_br hne hend, hbr,
    if_neg Bool.false_ne_true, if_pos ⟨rfl, hc⟩]
  rfl

/-- A tag that is skipped, with no `Start=` behind it. -/
theorem scanLine_skipped (hstate : v.state = .getText) (hok : (Piece.tag t).Ok)
    (hskipped : isSkipped t = true) {rest : List UInt8}
    (hnone : strIStr startEq (60 :: (t ++ 62 :: rest)) = none) :
    scanLine v (60 :: (t ++ 62 :: rest)) = scanLine (squeeze v) rest := by
  have hchr : strchr 62 (60 :: (t ++ 62 :: rest)) = some (62 :: rest) := by
    rw [← List.cons_append]
    refine strchr_append ?_
    rw [List.forall_mem_cons]
    exact ⟨by decide, fun c hc => ⟨(hok.2 c hc).1, (hok.2 c hc).2.2⟩⟩
  rw [scanLine_getEnd hstate hskipped fun c hc => (hok.2 c hc).2.2, scanLine_eq, step,
    squeeze_state]
  dsimp only
  rw [stepGetEnd, hnone]
  dsimp only
  rw [hchr]
  dsimp only [Outcome.resume]
  have hsqueeze : { squeeze { v with state := .getEnd } with state := .getText } = squeeze v := by
    rw [squeeze_setState, ← hstate, ← squeeze_state]
  rw [hsqueeze]
  rfl

/-- Another tag is copied. -/
theorem scanLine_copied (hstate : v.state = .getText) (hok : (Piece.tag t).Ok)
    (hbr : isBr t = false) (hskipped : isSkipped t = false) (rest : List UInt8) :
    scanLine v (60 :: (t ++ 62 :: rest)) =
      Outcome.bindVars (copyRun 0 v (60 :: (t ++ [62]))) fun v => scanLine v rest := by
  obtain ⟨c, t, rfl⟩ := List.exists_cons_of_ne_nil hok.1
  have hc : ¬ (c = 83 ∨ c = 80 ∨ c = 115) := by
    rw [isSkipped, List.headD_cons, Bool.or_eq_false_iff, Bool.or_eq_false_iff,
      decide_eq_false_iff_not, decide_eq_false_iff_not, decide_eq_false_iff_not] at hskipped
    exact fun h => h.elim hskipped.1.1 fun h => h.elim hskipped.1.2 hskipped.2
  have hend : ∀ u, u <:+ (c :: t) ++ [62] → u ≠ [] →
      startsWithI nbsp (u ++ rest) = startsWithI nbsp u := by
    intro u hu hne
    -- the end of the tag is in no `&nbsp;`
    have hhead : ∀ more : List UInt8, ∀ d ∈ (62 :: more).head?, toLower d ∉ nbsp := by
      intro more d hd
      rw [← Option.some.inj hd]
      decide
    obtain ⟨u, rfl, -⟩ := (List.suffix_concat_iff.mp hu).resolve_left hne
    rw [startsWithI_append (hhead []), List.append_assoc]
    exact startsWithI_append (hhead rest)
  have hbytes : ∀ d ∈ (c :: t) ++ [62], d ≠ 0 ∧ d ≠ 60 := by
    intro d hd
    rcases List.mem_append.mp hd with hd | hd
    · exact ⟨(hok.2 d hd).1, (hok.2 d hd).2.1⟩
    · rw [List.eq_of_mem_singleton hd]
      decide
  rw [scanLine_eq, step, hstate]
  dsimp only
  rw [stepGetText, List.headD_cons, if_neg (by decide),
    startsWithI_br hok.1 fun c hc => (hok.2 c hc).2.2, hbr, if_neg Bool.false_ne_true,
    if_neg fun h => hc h.2, if_neg (not_startsWithI_nbsp _), if_neg (by decide), if_neg (by decide),
    copyRun, if_neg (not_startsWithI_nbsp _), if_neg (by decide), if_neg (by decide)]
  cases hv : put v 60 with
  | none => rfl
  | some u =>
    have hrun :=
      scanLine_copyRun _ ((c :: t) ++ [62]) u rfl ((put_state hv).trans hstate) hbytes hend
    rw [List.append_assoc] at hrun
    exact hrun

end Tags

/-! ## Lines -/

theorem lineBytes_cons (piece : Piece) (ps : List Piece) :
    lineBytes (piece :: ps) = piece.bytes ++ lineBytes ps := List.flatMap_cons

theorem Piece.bytes_tag_append (t rest : List UInt8) :
    (Piece.tag t).bytes ++ rest = 60 :: (t ++ 62 :: rest) := by
  rw [Piece.bytes, List.cons_append, List.append_assoc]
  rfl

/-- **A piece** is copied. -/
theorem scanLine_piece {v : Vars} {piece : Piece} {rest : List UInt8}
    (hstate : v.state = .getText) (hok : piece.Ok)
    (hhead : piece.IsText → ∀ c ∈ rest.head?, toLower c ∉ nbsp)
    (hnone : piece.isSkipped = true → strIStr startEq (piece.bytes ++ rest) = none) :
    scanLine v (piece.bytes ++ rest) =
      Outcome.bindVars (copyPiece v piece) fun v => scanLine v rest := by
  cases piece with
  | text t =>
    exact scanLine_copyRun t.length t v rfl hstate hok.2 fun u _ _ =>
      startsWithI_append (hhead trivial)
  | tag t =>
    rw [Piece.bytes_tag_append] at hnone ⊢
    rw [copyPiece]
    split_ifs with hbr hskipped
    · exact scanLine_br hstate hok hbr rest
    · exact scanLine_skipped hstate hok hskipped (hnone hskipped)
    · exact scanLine_copied hstate hok (Bool.eq_false_iff.mpr hbr) (Bool.eq_false_iff.mpr hskipped)
        rest

/-- What stands behind a text is no text. -/
theorem head_lineBytes {piece : Piece} {ps : List Piece} {rest : List UInt8}
    (hchain : (piece :: ps).IsChain fun a b => ¬ (a.IsText ∧ b.IsText))
    (hhead : ∀ c ∈ rest.head?, toLower c ∉ nbsp) (htext : piece.IsText) :
    ∀ c ∈ (lineBytes ps ++ rest).head?, toLower c ∉ nbsp := by
  cases ps with
  | nil => exact hhead
  | cons piece' ps =>
    cases piece' with
    | text t => exact absurd ⟨htext, trivial⟩ (List.isChain_cons_cons.mp hchain).1
    | tag t =>
      intro c hc
      rw [← Option.some.inj hc]
      decide

/-- **Pieces** are copied, where no `Start=` stands behind a tag that is skipped. -/
theorem scanLine_pieces {rest : List UInt8} (hhead : ∀ c ∈ rest.head?, toLower c ∉ nbsp)
    {ps : List Piece} : ∀ {v : Vars}, v.state = .getText → (∀ piece ∈ ps, piece.Ok) →
      (ps.IsChain fun a b => ¬ (a.IsText ∧ b.IsText)) →
      (∀ piece qs, piece :: qs <:+ ps → piece.isSkipped = true →
        strIStr startEq (lineBytes (piece :: qs) ++ rest) = none) →
      scanLine v (lineBytes ps ++ rest) =
        Outcome.bindVars (copyPieces v ps) fun v => scanLine v rest := by
  induction ps with
  | nil => exact fun _ _ _ _ => rfl
  | cons piece ps ih =>
    intro v hstate hok hchain hnone
    obtain ⟨hpiece, hps⟩ := List.forall_mem_cons.mp hok
    have hhere := hnone piece ps (List.suffix_refl _)
    rw [lineBytes_cons, List.append_assoc] at hhere
    rw [lineBytes_cons, List.append_assoc,
      scanLine_piece hstate hpiece (head_lineBytes hchain hhead) hhere, copyPieces_cons]
    cases hv : copyPiece v piece with
    | none => rfl
    | some u =>
      exact ih ((congrArg Prod.fst (copyPiece_fixed hv)).trans hstate) hps hchain.tail
        fun piece' qs hsuffix => hnone piece' qs (hsuffix.trans (List.suffix_cons piece ps))

theorem Piece.Ok.zero_notMem {piece : Piece} (h : piece.Ok) : 0 ∉ piece.bytes := by
  cases piece with
  | text t => exact fun h0 => (h.2 0 h0).1 rfl
  | tag t =>
    intro h0
    rcases List.mem_cons.mp h0 with h0 | h0
    · exact absurd h0 (by decide)
    · rcases List.mem_append.mp h0 with h0 | h0
      · exact (h.2 0 h0).1 rfl
      · exact absurd (List.eq_of_mem_singleton h0) (by decide)

theorem IsLine.zero_notMem {ps : List Piece} (h : IsLine ps) : 0 ∉ lineBytes ps := by
  intro h0
  obtain ⟨piece, hpiece, h0⟩ := List.mem_flatMap.mp h0
  exact (h.ok piece hpiece).zero_notMem h0

theorem lineBytes_suffix {ps qs : List Piece} (h : qs <:+ ps) : lineBytes qs <:+ lineBytes ps := by
  obtain ⟨front, rfl⟩ := h
  rw [lineBytes, lineBytes, List.flatMap_append]
  exact List.suffix_append _ _

/-- **A line with no `SYNC` tag.** -/
theorem scanLine_line {v : Vars} {ps : List Piece} (hline : IsLine ps) (hstate : v.state = .getText)
    (stale : List UInt8) :
    scanLine v (lineBytes ps ++ 0 :: stale) = Outcome.bindVars (copyPieces v ps) .nextLine := by
  have hhead : ∀ c ∈ (0 :: stale).head?, toLower c ∉ startEq ∧ toLower c ∉ nbsp := by
    intro c hc
    rw [← Option.some.inj hc]
    decide
  have hnone : ∀ qs, qs <:+ ps → strIStr startEq (lineBytes qs ++ 0 :: stale) = none := by
    intro qs hqs
    have hsuffix := lineBytes_suffix hqs
    rw [strIStr_append (strIStr_suffix hline.no_start hline.zero_notMem hsuffix)
      (fun h0 => hline.zero_notMem (hsuffix.subset h0)) fun c hc => (hhead c hc).1, strIStr_null]
  rw [scanLine_pieces (fun c hc => (hhead c hc).2) hstate hline.ok hline.chain
    fun piece qs hqs _ => hnone _ hqs]
  cases hv : copyPieces v ps with
  | none => rfl
  | some u =>
    have hu : u.state = .getText := (congrArg Prod.fst (copyPieces_fixed hv)).trans hstate
    rw [Outcome.bindVars, scanLine_eq, step, hu]
    rfl

/-! ## `SYNC` tags -/

section Sync

variable (b : Block)

/-- The needle is no further in front than `n`. -/
theorem strIStr_drop {needle s rest : List UInt8} (h0 : 0 ∉ s) {n : ℕ} (hn : n < s.length)
    (hnot : ∀ k < n, startsWithI needle (s.drop k ++ rest) = false)
    (hstarts : startsWithI needle (s.drop n ++ rest) = true) :
    strIStr needle (s ++ rest) = some (s.drop n ++ rest) := by
  induction n generalizing s with
  | zero =>
    obtain ⟨c, s, rfl⟩ := List.exists_cons_of_length_pos hn
    have hc : c ≠ 0 := fun hc => h0 (hc ▸ List.mem_cons_self)
    exact (if_neg hc).trans (if_pos hstarts)
  | succ n ih =>
    obtain ⟨c, s, rfl⟩ := List.exists_cons_of_length_pos (Nat.zero_lt_of_lt hn)
    have hc : c ≠ 0 := fun hc => h0 (hc ▸ List.mem_cons_self)
    have hhere := hnot 0 (Nat.succ_pos n)
    rw [List.drop_zero, List.cons_append] at hhere
    rw [List.cons_append, strIStr, if_neg hc, hhere, if_neg Bool.false_ne_true]
    exact ih (fun h => h0 (List.mem_cons_of_mem c h)) (Nat.lt_of_succ_lt_succ hn)
      (fun k hk => hnot (k + 1) (Nat.succ_lt_succ hk)) hstarts

theorem startsWithI_drop {needle s rest : List UInt8} {k : ℕ} (hk : k + needle.length ≤ s.length) :
    startsWithI needle (s.drop k ++ rest) =
      (((s.map toLower).drop k).take needle.length == needle) := by
  rw [startsWithI, List.take_append_of_le_length, List.map_take, List.map_drop]
  rw [List.length_drop]
  omega

theorem Block.length_opening : b.opening.length = 12 := by
  have hlen := congrArg List.length b.lower_opening
  rwa [List.length_map] at hlen

theorem Block.zero_notMem_opening : 0 ∉ b.opening := by
  intro h0
  have hmem := List.mem_map_of_mem (f := toLower) h0
  rw [b.lower_opening] at hmem
  exact absurd hmem (by decide)

/-- The `Start=` of the tag is found. -/
theorem Block.strIStr_sync (more : List UInt8) : strIStr startEq (b.sync ++ more) =
    some (b.opening.drop 6 ++ (b.digits ++ (b.attributes ++ 62 :: more))) := by
  have hlen : startEq.length = 6 := rfl
  have hopening := b.length_opening
  have hsync : b.sync ++ more = b.opening ++ (b.digits ++ (b.attributes ++ 62 :: more)) := by
    rw [Block.sync, List.append_assoc, List.append_assoc, List.append_assoc]
    rfl
  rw [hsync]
  refine strIStr_drop b.zero_notMem_opening (by omega) (fun k hk => ?_) ?_
  · rw [startsWithI_drop (by omega), b.lower_opening]
    revert k
    decide
  · rw [startsWithI_drop (by omega), b.lower_opening]
    rfl

/-- The number behind it is read. -/
theorem Block.strtol_sync (more : List UInt8) :
    strtol ((b.opening.drop 6 ++ (b.digits ++ (b.attributes ++ 62 :: more))).drop 6) =
      ((b.start : ℤ), b.attributes ++ 62 :: more) := by
  have hlen : (b.opening.drop 6).length = 6 := by rw [List.length_drop, b.length_opening]
  rw [List.drop_left' hlen]
  refine strtol_digits b.digits_ne_nil b.isDigits b.no_zero (fun c hc => ?_) b.digits_lt
  cases hattributes : b.attributes with
  | nil =>
    rw [hattributes] at hc
    rw [← Option.some.inj hc]
    decide
  | cons d ds =>
    rw [hattributes] at hc
    obtain rfl := Option.some.inj hc
    have hblank := b.attributes_head d (by rw [hattributes]; rfl)
    rw [isBlank, Bool.or_eq_true, decide_eq_true_iff, decide_eq_true_iff] at hblank
    rcases hblank with rfl | rfl <;> decide

theorem Block.head_sync (more : List UInt8) : ∀ c ∈ (b.sync ++ more).head?, c = 60 := by
  have hlen := b.length_opening
  have hlower := b.lower_opening
  rw [Block.sync]
  cases hopening : b.opening with
  | nil =>
    rw [hopening] at hlen
    exact absurd hlen (by decide)
  | cons d ds =>
    rw [hopening] at hlower
    intro c hc
    rw [← Option.some.inj hc]
    exact eq_of_toLower (by decide) (List.cons.inj hlower).1

/-- A tag is looked for behind a line with none. -/
theorem Block.strIStr_front {front : List UInt8} (hstart : strIStr startEq front = none)
    (hfront : 0 ∉ front) (more : List UInt8) : strIStr startEq (front ++ (b.sync ++ more)) =
      some (b.opening.drop 6 ++ (b.digits ++ (b.attributes ++ 62 :: more))) := by
  rw [strIStr_append hstart hfront, b.strIStr_sync]
  intro c hc
  rw [b.head_sync more c hc]
  decide

/-- What is not in a line is not in the buffer. -/
theorem strIStr_line {needle s : List UInt8} (h : strIStr needle s = none) (h0 : 0 ∉ s)
    (hneedle : 0 ∉ needle) (stale : List UInt8) : strIStr needle (s ++ 0 :: stale) = none := by
  rw [strIStr_append h h0, strIStr_null]
  intro c hc
  rw [← Option.some.inj hc]
  exact hneedle

/-- **The hunt** ends at the tag. -/
theorem Block.scanLine_hunt {v : Vars} (hstate : v.state = .findStart) {front x : List UInt8}
    (hstart : strIStr startEq front = none)
    (hslack : strIStr slacktime (front ++ (b.sync ++ x)) = none)
    (h0 : 0 ∉ front ++ (b.sync ++ x)) (stale : List UInt8) :
    scanLine v (front ++ (b.sync ++ (x ++ 0 :: stale))) =
      scanLine { v with state := .findP, start := b.start / 10 } (x ++ 0 :: stale) := by
  have hline : front ++ (b.sync ++ (x ++ 0 :: stale)) = front ++ (b.sync ++ x) ++ 0 :: stale := by
    rw [List.append_assoc, List.append_assoc]
  have hcursor : (b.attributes ++ 62 :: (x ++ 0 :: stale)).dropWhile
      (fun c => decide (c ≠ 62) && decide (c ≠ 0)) = 62 :: (x ++ 0 :: stale) := by
    rw [List.dropWhile_append_of_pos fun c hc => ?_]
    · rfl
    · obtain ⟨hnull, hend⟩ := b.no_end c hc
      rw [decide_eq_true hnull, decide_eq_true hend]
      rfl
  rw [scanLine_eq, step, hstate]
  dsimp only
  rw [stepFindStart, hline, strIStr_line hslack h0 (by decide), ← hline,
    b.strIStr_front hstart fun h => h0 (List.mem_append_left _ h)]
  dsimp only
  rw [b.strtol_sync, hcursor, Int.tdiv_eq_ediv_of_nonneg (Int.natCast_nonneg _)]
  rfl

/-- The `SYNC` tag as a tag. -/
def Block.tag : List UInt8 := b.opening.drop 1 ++ (b.digits ++ b.attributes)

theorem Block.sync_append (more : List UInt8) : b.sync ++ more = 60 :: (b.tag ++ 62 :: more) := by
  obtain ⟨c, o, ho⟩ : ∃ c o, b.opening = c :: o :=
    List.exists_cons_of_length_pos (by rw [b.length_opening]; decide)
  have hc : c = 60 := by
    have hhead := b.head_sync [] c
    rw [Block.sync, ho] at hhead
    exact hhead rfl
  rw [Block.sync, Block.tag, ho, hc]
  simp only [List.drop_succ_cons, List.drop_zero, List.append_assoc, List.cons_append,
    List.nil_append]

theorem eq_or_eq_of_toLower {c : UInt8} (h : toLower c = 115) : c = 83 ∨ c = 115 := by
  rw [toLower] at h
  split_ifs at h
  · exact .inl (by grind)
  · exact .inr h

theorem Block.isSkipped_tag : isSkipped b.tag = true := by
  have hlower := congrArg (List.drop 1) b.lower_opening
  rw [← List.map_drop] at hlower
  rw [Block.tag]
  cases hopening : b.opening.drop 1 with
  | nil =>
    rw [hopening] at hlower
    exact absurd hlower (List.cons_ne_nil _ _).symm
  | cons c o =>
    rw [hopening] at hlower
    rw [isSkipped, List.cons_append, List.headD_cons]
    rcases eq_or_eq_of_toLower (List.cons.inj hlower).1 with rfl | rfl <;> rfl

theorem Block.tag_ne_end : ∀ c ∈ b.tag, c ≠ 62 := by
  rintro c hc rfl
  rcases List.mem_append.mp hc with hc | hc
  · have hmem := List.mem_map_of_mem (f := toLower) (List.mem_of_mem_drop hc)
    rw [b.lower_opening] at hmem
    exact absurd hmem (by decide)
  · rcases List.mem_append.mp hc with hc | hc
    · exact absurd (b.isDigits 62 hc) (by decide)
    · exact (b.no_end 62 hc).2 rfl

theorem flush_setState (v : Vars) (state : State) :
    flush { v with state := state } = (flush v).map fun v => { v with state := state } := by
  unfold flush pushText
  cases write v.text v.p 0 with
  | none => rfl
  | some text =>
    dsimp only [Option.bind_some]
    cases trimSpace text <;> rfl

/-- The pieces from a tag that is skipped on, or none, and the `SYNC` tag begin with a tag that is
skipped. -/
theorem Block.exists_tag {qs : List Piece} (hok : ∀ piece ∈ qs, piece.Ok)
    (hfirst : ∀ piece ∈ qs.head?, piece.isSkipped = true) (more : List UInt8) :
    ∃ t rest, isSkipped t = true ∧ (∀ c ∈ t, c ≠ 62) ∧
      lineBytes qs ++ (b.sync ++ more) = 60 :: (t ++ 62 :: rest) := by
  cases qs with
  | nil => exact ⟨b.tag, more, b.isSkipped_tag, b.tag_ne_end, b.sync_append more⟩
  | cons piece qs =>
    have hskipped := hfirst piece rfl
    cases piece with
    | text t => exact absurd hskipped Bool.false_ne_true
    | tag t =>
      have hpiece := hok _ List.mem_cons_self
      refine ⟨t, lineBytes qs ++ (b.sync ++ more), hskipped, fun c hc => (hpiece.2 c hc).2.2, ?_⟩
      rw [lineBytes_cons, List.append_assoc, Piece.bytes_tag_append]

/-- **A line with a `SYNC` tag.**  The item ends in front of the first tag that is skipped. -/
theorem Block.scanLine_sync {v : Vars} {ps : List Piece} (hline : IsLine ps)
    (hstate : v.state = .getText) {x : List UInt8}
    (hslack : strIStr slacktime (lineBytes ps ++ (b.sync ++ x)) = none)
    (h0 : 0 ∉ lineBytes ps ++ (b.sync ++ x)) (stale : List UInt8) :
    scanLine v (lineBytes ps ++ (b.sync ++ (x ++ 0 :: stale))) =
      Outcome.bindVars ((copyPieces v (upToSkipped ps)).bind fun v =>
          flush { squeeze v with stop := b.start / 10 - 1 }) fun v =>
        if v.lines = [] then
          scanLine { v with state := .findP, start := b.start / 10 } (x ++ 0 :: stale)
        else .found { v with state := .getEnd } := by
  -- the cursor where the copying ends is at a tag that is skipped, of this line or the next block
  obtain ⟨qs, hqs⟩ : ∃ qs, ps.dropWhile (fun piece => !piece.isSkipped) = qs := ⟨_, rfl⟩
  have hps : upToSkipped ps ++ qs = ps := hqs ▸ List.takeWhile_append_dropWhile
  have hbytes : lineBytes ps = lineBytes (upToSkipped ps) ++ lineBytes qs := by
    rw [lineBytes, lineBytes, lineBytes, ← List.flatMap_append, hps]
  have hsuffix : qs <:+ ps := ⟨_, hps⟩
  have hfront : strIStr startEq (lineBytes qs) = none :=
    strIStr_suffix hline.no_start hline.zero_notMem (lineBytes_suffix hsuffix)
  have hinner : lineBytes qs ++ (b.sync ++ x) <:+ lineBytes ps ++ (b.sync ++ x) :=
    ⟨lineBytes (upToSkipped ps), by rw [hbytes, List.append_assoc]⟩
  have hslack' := strIStr_suffix hslack h0 hinner
  have h0' : 0 ∉ lineBytes qs ++ (b.sync ++ x) := fun h => h0 (hinner.subset h)
  have hfirst : ∀ piece ∈ qs.head?, piece.isSkipped = true := by
    intro piece hpiece
    have hnot := List.head?_dropWhile_not (fun piece : Piece => !piece.isSkipped) ps
    rw [hqs, Option.mem_def.mp hpiece] at hnot
    have hfalse : (!piece.isSkipped) = false := hnot
    rwa [Bool.not_eq_false'] at hfalse
  obtain ⟨t, rest, hskipped, hend, hcursor⟩ := b.exists_tag (fun piece hpiece =>
    hline.ok piece (hsuffix.subset hpiece)) hfirst (x ++ 0 :: stale)
  have hcopied : ∀ piece ∈ upToSkipped ps, piece.isSkipped = false := fun piece hpiece => by
    have hnot := List.mem_takeWhile_imp hpiece
    rwa [Bool.not_eq_true'] at hnot
  have hahead : upToSkipped ps <+: ps := ⟨qs, hps⟩
  have hchain := hline.chain
  rw [← hps] at hchain
  have hhead : ∀ c ∈ (lineBytes qs ++ (b.sync ++ (x ++ 0 :: stale))).head?, toLower c ∉ nbsp := by
    intro c hc
    rw [hcursor] at hc
    rw [← Option.some.inj hc]
    decide
  have hpieces := scanLine_pieces hhead hstate (fun piece hpiece => hline.ok piece
    (hahead.subset hpiece)) (hchain.left_of_append) fun piece rs hrs hpiece =>
      absurd hpiece (Bool.eq_false_iff.mp (hcopied piece (hrs.subset List.mem_cons_self)))
  rw [hbytes, List.append_assoc, hpieces]
  cases hv : copyPieces v (upToSkipped ps) with
  | none => rfl
  | some u =>
    have hu : u.state = .getText := (congrArg Prod.fst (copyPieces_fixed hv)).trans hstate
    rw [Outcome.bindVars, hcursor, scanLine_getEnd hu hskipped hend, ← hcursor, squeeze_setState,
      scanLine_eq, step]
    dsimp only
    rw [stepGetEnd, b.strIStr_front hfront fun h => h0' (List.mem_append_left _ h)]
    dsimp only
    rw [b.strtol_sync, Int.tdiv_eq_ediv_of_nonneg (Int.natCast_nonneg _)]
    have hflush := flush_setState { squeeze u with stop := b.start / 10 - 1 } .getEnd
    dsimp only at hflush
    rw [Option.bind_some, hflush]
    cases flush { squeeze u with stop := b.start / 10 - 1 } with
    | none => rfl
    | some w =>
      dsimp only [Option.map_some, Outcome.bindVars]
      by_cases hlines : w.lines = []
      · rw [if_neg (not_not.mpr hlines), if_pos hlines]
        exact b.scanLine_hunt rfl hfront hslack' h0' stale
      · rw [if_pos hlines, if_neg hlines]
        rfl

end Sync

end Sami
end AmlSubtitle
