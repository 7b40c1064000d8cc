import AmlSubtitle.Lib.Scanf
import AmlSubtitle.Parser.ExtSubCalls
import AmlSubtitle.Parser.ExtSubDelivery

/-!
# `parser/ExtParser/Sami.cpp`: the decoder of SAMI files

`decodedItem` is a machine that goes over the characters of the lines.  It hunts for the `Start=` of
a `SYNC` tag, and then copies what stands behind it to the buffer `text`, up to the next one.

* `step`: one round of its loop, with the cursor as the bytes from it on.  A write behind the end of
  `text` is an outcome of its own.
* `scanLine`: the rounds up to the end of a line.  Each round takes a character off, or goes on to a
  later part of the machine (`rank_step`), so that they end.
* `decodedItem`, `decodeItems`: a call, and the calls of `decodeSubtitles` (`decodeSubtitles_eq`).
-/

namespace AmlSubtitle
namespace Sami

open Words Scanf ExtSubStreamReader TextSubtitle

/-! ## Searching in a buffer -/

/-- `tolower`. -/
def toLower (c : UInt8) : UInt8 := if 65 ≤ c && c ≤ 90 then c + 32 else c

/-- `strncasecmp` finds the needle, which is in lower case. -/
def startsWithI (needle s : List UInt8) : Bool := (s.take needle.length).map toLower == needle

/-- `strIStr`: the string from the needle on. -/
def strIStr (needle : List UInt8) : List UInt8 → Option (List UInt8)
  | [] => none
  | c :: s => if c = 0 then none else if startsWithI needle (c :: s) then some (c :: s)
    else strIStr needle s

/-- `strchr`: the string from the character on. -/
def strchr (d : UInt8) : List UInt8 → Option (List UInt8)
  | [] => none
  | c :: s => if c = d then some (c :: s) else if c = 0 then none else strchr d s

/-- `start=`. -/
def startEq : List UInt8 := [115, 116, 97, 114, 116, 61]

/-- `slacktime:`. -/
def slacktime : List UInt8 := [115, 108, 97, 99, 107, 116, 105, 109, 101, 58]

/-- `<br>`. -/
def br : List UInt8 := [60, 98, 114, 62]

/-- `&nbsp;`. -/
def nbsp : List UInt8 := [38, 110, 98, 115, 112, 59]

/-! ## The machine -/

/-- The states 0 to 4; the others are not reached, as `mTextPostProcess` is false. -/
inductive State where
  | findStart
  | findP
  | findGt
  | getText
  | getEnd
  deriving DecidableEq, Repr

/-- The variables of `decodedItem`: `text` is the buffer, and `p` the place in it. -/
structure Vars where
  state : State
  text : List UInt8
  p : ℕ
  start : ℤ
  stop : ℤ
  lines : List (List UInt8)
  mSubSlackTime : ℤ

/-- A buffer of `LINE_LEN + 1` zeros. -/
def zeros : List UInt8 := List.replicate (LINE_LEN + 1) 0

/-- What a round comes to: the next one, with the cursor, the next line, the end of the item, or a
write out of bounds. -/
inductive Outcome where
  | next (v : Vars) (s : List UInt8)
  | nextLine (v : Vars)
  | found (v : Vars)
  | outOfBounds

/-- A write to `text`. -/
def write (text : List UInt8) (p : ℕ) (c : UInt8) : Option (List UInt8) :=
  if p < text.length then some (text.set p c) else none

/-- `trimSpace` on `text`, which runs out of it if it has no null. -/
def trimSpace (text : List UInt8) : Option (List UInt8) :=
  let string := Lines.string text
  let kept := (string.dropWhile isSpace).rdropWhile isSpace
  if string.length < text.length then
    some (kept ++ (List.replicate (string.length + 1 - kept.length) 0 ++
      text.drop (string.length + 1)))
  else none

/-- The string in `text` is trimmed, and is a line of the item unless it is empty. -/
def pushText (v : Vars) : Option Vars :=
  (trimSpace v.text).map fun text =>
    { v with
      text := text
      lines := if Lines.string text = [] then v.lines else v.lines ++ [Lines.string text] }

/-- The string is ended in front of that. -/
def flush (v : Vars) : Option Vars :=
  (write v.text v.p 0).bind fun text => pushText { v with text := text }

/-- A duplicated space is skipped. -/
def squeeze (v : Vars) : Vars :=
  if 2 < v.p ∧ v.text[v.p - 1]? = some 32 ∧ v.text[v.p - 2]? = some 32 then
    { v with p := v.p - 1 }
  else v

/-- A character is copied to `text`. -/
def put (v : Vars) (c : UInt8) : Option Vars :=
  (write v.text v.p c).map fun text => squeeze { v with text := text, p := v.p + 1 }

/-- The next round, unless there was a write out of bounds. -/
def Outcome.ofOption (v : Option Vars) (s : List UInt8) : Outcome :=
  match v with
  | none => .outOfBounds
  | some v => .next v s

/-- The state 0. -/
def stepFindStart (v : Vars) (s : List UInt8) : Outcome :=
  let v := match strIStr slacktime s with
    | none => v
    | some t => { v with mSubSlackTime := (strtol (t.drop 10)).1.tdiv 10 }
  match strIStr startEq s with
  | none => .nextLine v
  | some t =>
    let (n, t) := strtol (t.drop 6)
    .next { v with state := .findP, start := n.tdiv 10 }
      ((t.dropWhile fun c => c ≠ 62 && c ≠ 0).drop 1)

/-- The state 1.  The rest of the line is skipped behind a tag that is no paragraph. -/
def stepFindP (v : Vars) (s : List UInt8) : Outcome :=
  if s.headD 0 = 0 then .nextLine v
  else if s.headD 0 ≠ 60 then .next { v with state := .getText, text := zeros, p := 0 } s
  else
    let s := s.drop 1
    if s.headD 0 = 80 ∨ s.headD 0 = 112 then .next { v with state := .findGt } (s.drop 1)
    else .nextLine v

/-- The state 2. -/
def stepFindGt (v : Vars) (s : List UInt8) : Outcome :=
  match strchr 62 s with
  | none => .nextLine v
  | some t => .next { v with state := .getText, text := zeros, p := 0 } (t.drop 1)

/-- The state 3. -/
def stepGetText (v : Vars) (s : List UInt8) : Outcome :=
  let c := s.headD 0
  let d := (s.drop 1).headD 0
  if c = 0 then .nextLine v
  else if startsWithI br s then
    .ofOption ((flush v).map fun v => squeeze { v with p := 0 }) (s.drop 4)
  else if c = 60 ∧ (d = 83 ∨ d = 80 ∨ d = 115) then .next (squeeze { v with state := .getEnd }) s
  else if startsWithI nbsp s then .ofOption (put v 32) (s.drop 6)
  else if c = 9 then .ofOption (put v 32) (s.drop 1)
  else if c = 13 ∨ c = 10 then .next (squeeze v) (s.drop 1)
  else .ofOption (put v c) (s.drop 1)

/-- The state 4. -/
def stepGetEnd (v : Vars) (s : List UInt8) : Outcome :=
  match strIStr startEq s with
  | some t =>
    match flush { v with stop := (strtol (t.drop 6)).1.tdiv 10 - 1 } with
    | none => .outOfBounds
    | some v => if v.lines ≠ [] then .found v else .next { v with state := .findStart } s
  | none =>
    match strchr 62 s with
    | none => .nextLine v
    | some t => .next { v with state := .getText } (t.drop 1)

/-- One round of the loop. -/
def step (v : Vars) (s : List UInt8) : Outcome :=
  match v.state with
  | .findStart => stepFindStart v s
  | .findP => stepFindP v s
  | .findGt => stepFindGt v s
  | .getText => stepGetText v s
  | .getEnd => stepGetEnd v s

/-- The rounds that a state has before it takes a character off. -/
def State.rank : State → ℕ
  | .findStart => 0
  | .findP => 3
  | .findGt => 0
  | .getText => 2
  | .getEnd => 1

/-- What is left to do in a line. -/
def rank (v : Vars) (s : List UInt8) : ℕ := 4 * s.length + v.state.rank

/-- The rounds in a line, with some fuel. -/
def scanFuel : ℕ → Vars → List UInt8 → Outcome
  | 0, v, _ => .nextLine v
  | fuel + 1, v, s =>
    match step v s with
    | .next v s => scanFuel fuel v s
    | outcome => outcome

/-- The rounds in a line. -/
def scanLine (v : Vars) (s : List UInt8) : Outcome := scanFuel (rank v s + 1) v s

/-- What stands behind the loop. -/
def finish (v : Vars) : Option (Option ExtSubItem) :=
  if v.stop ≤ 0 then
    (trimSpace v.text).map fun text =>
      if Lines.string text = [] then none
      else some ⟨v.start, v.start + v.mSubSlackTime, v.lines ++ [Lines.string text]⟩
  else some (some ⟨v.start, v.stop, v.lines⟩)

/-- The loop, line by line: nothing if there is a write out of bounds. -/
def findItem : ℕ → Vars → List UInt8 → Reader → Memory → Option (Option ExtSubItem × Reader)
  | 0, _, _, r, _ => some (none, r)
  | fuel + 1, v, s, r, line =>
    match scanLine v s with
    | .outOfBounds => none
    | .next _ _ => none
    | .found v => (finish v).map fun item => (item, r)
    | .nextLine v =>
      match getLine r line with
      | (none, r) => if 0 < v.start then (finish v).map fun item => (item, r) else some (none, r)
      | (some line, r) =>
        if LINE_LEN + 1 < line.bytes.length then none else findItem fuel v line.bytes r line

/-- The variables at the beginning. -/
def Vars.init : Vars where
  state := .findStart
  text := zeros
  p := 0
  start := 0
  stop := 0
  lines := []
  mSubSlackTime := 0

/-- `decodedItem`, unless it writes out of bounds; its buffers are on the heap. -/
def decodedItem (r : Reader) (s : Memory) : Option (Option ExtSubItem × Reader) :=
  match getLine r ⟨s.before, zeros⟩ with
  | (none, r) => some (none, r)
  | (some line, r) =>
    if LINE_LEN + 1 < line.bytes.length then none
    else findItem ((toRead r).length + 1) Vars.init line.bytes r line

/-- The loop of `decodeSubtitles`, unless a call writes out of bounds. -/
def decodeItems : ℕ → Reader → (ℕ → Memory) → Option (List ExtSubItem)
  | 0, _, _ => some []
  | fuel + 1, r, stack =>
    match decodedItem r (stack 0) with
    | none => none
    | some (none, _) => some []
    | some (some item, r) =>
      (decodeItems fuel r fun i => stack (i + 1)).map (finishItem item :: ·)

/-- `decodeSubtitles`, unless a call writes out of bounds. -/
def decodeSubtitles (r : Reader) (stack : ℕ → Memory) : Option (List ExtSubItem) :=
  decodeItems ((toRead r).length + 1) r stack

/-! ## The calls of `decodeSubtitles` -/

/-- The decoder, with no item where it writes out of bounds. -/
def decoder : Decoder := fun r s => (decodedItem r s).getD (none, r)

/-- Where no call writes out of bounds, the items are those of `decodeSubtitles`. -/
theorem decodeSubtitles_eq {r : Reader} {stack : ℕ → Memory} {its : List ExtSubItem}
    (h : decodeSubtitles r stack = some its) :
    TextSubtitle.decodeSubtitles decoder r stack = its := by
  have hfuel : ∀ fuel r stack its, decodeItems fuel r stack = some its →
      TextSubtitle.decodeItems decoder fuel r stack = its := by
    intro fuel
    induction fuel with
    | zero => exact fun _ _ _ h => Option.some.inj h
    | succ fuel ih =>
      intro r stack its h
      rw [decodeItems] at h
      rw [TextSubtitle.decodeItems, decoder]
      rcases hitem : decodedItem r (stack 0) with _ | ⟨_ | item, r'⟩
      · rw [hitem] at h
        exact absurd h.symm (Option.some_ne_none its)
      · rw [hitem] at h
        exact Option.some.inj h
      · rw [hitem] at h
        obtain ⟨its', hits, rfl⟩ := Option.map_eq_some_iff.mp h
        exact congrArg (finishItem item :: ·) (ih r' _ its' hits)
  exact hfuel _ r stack its h

/-! ## The rounds end -/

theorem suffix_of_strIStr {needle s t : List UInt8} (h : strIStr needle s = some t) :
    t <:+ s ∧ t ≠ [] := by
  induction s with
  | nil => exact absurd h.symm (Option.some_ne_none t)
  | cons c s ih =>
    rw [strIStr] at h
    split_ifs at h
    · rw [← Option.some.inj h]
      exact ⟨List.suffix_refl _, List.cons_ne_nil c s⟩
    · exact ⟨(ih h).1.trans (List.suffix_cons c s), (ih h).2⟩

theorem suffix_of_strchr {d : UInt8} {s t : List UInt8} (h : strchr d s = some t) :
    t <:+ s ∧ t ≠ [] := by
  induction s with
  | nil => exact absurd h.symm (Option.some_ne_none t)
  | cons c s ih =>
    rw [strchr] at h
    split_ifs at h
    · rw [← Option.some.inj h]
      exact ⟨List.suffix_refl _, List.cons_ne_nil c s⟩
    · exact ⟨(ih h).1.trans (List.suffix_cons c s), (ih h).2⟩

/-- What the copying of a text leaves as it is. -/
def Vars.fixed (v : Vars) : State × ℤ × ℤ × ℤ := (v.state, v.start, v.stop, v.mSubSlackTime)

theorem squeeze_fixed (v : Vars) : (squeeze v).fixed = v.fixed := by
  rw [squeeze]
  split_ifs <;> rfl

theorem flush_fixed {v v' : Vars} (h : flush v = some v') : v'.fixed = v.fixed := by
  obtain ⟨text, -, hpush⟩ := Option.bind_eq_some_iff.mp h
  obtain ⟨text', -, rfl⟩ := Option.map_eq_some_iff.mp hpush
  rfl

theorem put_fixed {v v' : Vars} {c : UInt8} (h : put v c = some v') : v'.fixed = v.fixed := by
  obtain ⟨text, -, rfl⟩ := Option.map_eq_some_iff.mp h
  exact squeeze_fixed _

theorem squeeze_state (v : Vars) : (squeeze v).state = v.state :=
  congrArg Prod.fst (squeeze_fixed v)

theorem put_state {v v' : Vars} {c : UInt8} (h : put v c = some v') : v'.state = v.state :=
  congrArg Prod.fst (put_fixed h)

theorem ofOption_eq_next {v : Option Vars} {v' : Vars} {s s' : List UInt8}
    (h : Outcome.ofOption v s = .next v' s') : v = some v' ∧ s' = s := by
  cases v with
  | none => exact Outcome.noConfusion h
  | some v =>
    obtain ⟨rfl, rfl⟩ := Outcome.next.inj h
    exact ⟨rfl, rfl⟩

theorem length_drop_lt {t s : List UInt8} (h : t <:+ s ∧ t ≠ []) {n : ℕ} (hn : 0 < n) :
    (t.drop n).length < s.length := by
  have hle := h.1.length_le
  have hpos := List.length_pos_of_ne_nil h.2
  rw [List.length_drop]
  omega

/-- **Each round** takes a character off, or goes on to a later part of the machine. -/
theorem rank_step {v v' : Vars} {s s' : List UInt8} (h : step v s = .next v' s') :
    rank v' s' < rank v s := by
  have hne : s.headD 0 ≠ 0 → 0 < s.length := by
    intro hhead
    cases s with
    | nil => exact absurd rfl hhead
    | cons c s => exact Nat.succ_pos _
  rw [rank, rank]
  unfold step at h
  split at h
  next hstate =>
    unfold stepFindStart at h
    dsimp only at h
    split at h
    next => exact Outcome.noConfusion h
    next t ht =>
      obtain ⟨rfl, rfl⟩ := Outcome.next.inj h
      have hlt := length_drop_lt (suffix_of_strIStr ht) (n := 6) (by decide)
      have hle := (suffix_strtol (t.drop 6)).length_le
      have hle' := (List.dropWhile_suffix (fun c : UInt8 => decide (c ≠ 62) && decide (c ≠ 0))
        (l := (strtol (t.drop 6)).2)).length_le
      rw [hstate, List.length_drop]
      dsimp only [State.rank]
      omega
  next hstate =>
    unfold stepFindP at h
    dsimp only at h
    split_ifs at h
    · obtain ⟨rfl, rfl⟩ := Outcome.next.inj h
      rw [hstate]
      dsimp only [State.rank]
      omega
    · obtain ⟨rfl, rfl⟩ := Outcome.next.inj h
      rw [hstate, List.length_drop, List.length_drop]
      dsimp only [State.rank]
      omega
  next hstate =>
    unfold stepFindGt at h
    split at h
    next => exact Outcome.noConfusion h
    next t ht =>
      obtain ⟨rfl, rfl⟩ := Outcome.next.inj h
      have hlt := length_drop_lt (suffix_of_strchr ht) Nat.one_pos
      rw [hstate]
      dsimp only [State.rank]
      omega
  next hstate =>
    unfold stepGetText at h
    dsimp only at h
    split_ifs at h with h0 hbr htag hnbsp h9 heol
    · obtain ⟨hv, rfl⟩ := ofOption_eq_next h
      obtain ⟨u, hu, rfl⟩ := Option.map_eq_some_iff.mp hv
      have hpos := hne h0
      rw [squeeze_state, show u.state = v.state from congrArg Prod.fst (flush_fixed hu), hstate,
        List.length_drop]
      omega
    · obtain ⟨rfl, rfl⟩ := Outcome.next.inj h
      rw [squeeze_state, hstate]
      dsimp only [State.rank]
      omega
    · obtain ⟨hv, rfl⟩ := ofOption_eq_next h
      have hpos := hne h0
      rw [put_state hv, List.length_drop]
      omega
    · obtain ⟨hv, rfl⟩ := ofOption_eq_next h
      have hpos := hne h0
      rw [put_state hv, List.length_drop]
      omega
    · obtain ⟨rfl, rfl⟩ := Outcome.next.inj h
      have hpos := hne h0
      rw [squeeze_state, List.length_drop]
      omega
    · obtain ⟨hv, rfl⟩ := ofOption_eq_next h
      have hpos := hne h0
      rw [put_state hv, List.length_drop]
      omega
  next hstate =>
    unfold stepGetEnd at h
    split at h
    next t ht =>
      split at h
      next => exact Outcome.noConfusion h
      next u hu =>
        split_ifs at h
        obtain ⟨rfl, rfl⟩ := Outcome.next.inj h
        rw [hstate]
        dsimp only [State.rank]
        omega
    next =>
      split at h
      next => exact Outcome.noConfusion h
      next t ht =>
        obtain ⟨rfl, rfl⟩ := Outcome.next.inj h
        have hlt := length_drop_lt (suffix_of_strchr ht) Nat.one_pos
        rw [hstate]
        dsimp only [State.rank]
        omega

theorem scanFuel_congr : ∀ (fuel fuel' : ℕ) (v : Vars) (s : List UInt8), rank v s < fuel →
    rank v s < fuel' → scanFuel fuel v s = scanFuel fuel' v s := by
  intro fuel
  induction fuel with
  | zero => exact fun _ _ _ h => absurd h (Nat.not_lt_zero _)
  | succ fuel ih =>
    intro fuel' v s h h'
    obtain ⟨fuel', rfl⟩ := Nat.exists_eq_succ_of_ne_zero (Nat.ne_of_gt (Nat.zero_lt_of_lt h'))
    rw [scanFuel, scanFuel]
    cases hstep : step v s with
    | next v' s' =>
      have hlt := rank_step hstep
      exact ih fuel' v' s' (by omega) (by omega)
    | nextLine v' => rfl
    | found v' => rfl
    | outOfBounds => rfl

/-- The rounds behind one. -/
def Outcome.resume : Outcome → Outcome
  | .next v s => scanLine v s
  | outcome => outcome

/-- **The rounds in a line**: there is fuel enough. -/
theorem scanLine_eq (v : Vars) (s : List UInt8) : scanLine v s = (step v s).resume := by
  rw [scanLine, scanFuel]
  cases hstep : step v s with
  | next v' s' => exact scanFuel_congr _ _ v' s' (rank_step hstep) (Nat.lt_succ_self _)
  | nextLine v' => rfl
  | found v' => rfl
  | outOfBounds => rfl

end Sami
end AmlSubtitle
