import AmlSubtitle.Parser.ExtSubFactory

/-!
# `parser/ExtParser/Vplayer.cpp`: the decoder of VPlayer files

A line of such a file has the time at which its text is shown.  The next line may have the time at
which it is taken off again; otherwise it is shown for two seconds.  To see this, the decoder reads
one line ahead, and what it reads there may be the line of the next cue: it is kept in `mBuffer`,
and the next call begins with it.

* `itemsOf`: the cues of some lines.  A cue whose next line is neither of the two is lost.
* `takesFirstFrom_decodedItem`: a call takes the first cue of the line that is kept and the lines
  that are delivered.
* `decodes_vplayer`: a file of such lines is told by `detect`, and it is decoded to its cues.
-/

namespace AmlSubtitle
namespace Vplayer

open Scanf ExtSubStreamReader TextSubtitle ExtSubFactory

/-! ## The decoder -/

/-- The members of the object. -/
structure Members where
  mBuffer : Memory
  mHasPendingItemForEndTime : Bool

/-- `memset(mBuffer, 0, sizeof(mBuffer))`, which sets as many bytes as a pointer has. -/
def clearFront (pointer : ℕ) (s : Memory) : Memory := s.copy (List.replicate pointer 0)

/-- `%d:%d:%d:%[^\n\r]`. -/
def lineFormat : List Directive := clock ++ [.literal 58, .noneOf [10, 13]]

/-- What a line is: the line of a cue, a line with an end time, or neither. -/
inductive LineKind where
  | cue (start : ℤ) (text : List UInt8)
  | stop (stop : ℤ)
  | other
  deriving DecidableEq, Repr

/-- What `sscanf` tells of a line. -/
def kindOf (line : List UInt8) : LineKind :=
  match scan lineFormat line with
  | [.int a1, .int a2, .int a3, .text text] => .cue (centiseconds a1 a2 a3) text
  | [.int a1, .int a2, .int a3] => .stop (centiseconds a1 a2 a3)
  | _ => .other

/-- The line that is kept, or a new one. -/
def beginLine (pointer : ℕ) (members : Members) (r : Reader) : Option Memory × Reader :=
  if members.mHasPendingItemForEndTime then (some members.mBuffer, r)
  else getLine r (clearFront pointer members.mBuffer)

/-- The loop of `decodedItem`. -/
def findItem (pointer : ℕ) : ℕ → Members → Reader → Option ExtSubItem × Members × Reader
  | 0, members, r => (none, members, r)
  | fuel + 1, members, r =>
    match beginLine pointer members r with
    | (none, r) => (none, ⟨clearFront pointer members.mBuffer, false⟩, r)
    | (some mBuffer, r) =>
      match kindOf mBuffer.string with
      | .cue start text =>
        match getLine r (clearFront pointer mBuffer) with
        | (none, r) => (some ⟨start, start + 200, [text]⟩, ⟨clearFront pointer mBuffer, false⟩, r)
        | (some mBuffer, r) =>
          match kindOf mBuffer.string with
          | .cue _ _ => (some ⟨start, start + 200, [text]⟩, ⟨mBuffer, true⟩, r)
          | .stop stop => (some ⟨start, stop, [text]⟩, ⟨mBuffer, false⟩, r)
          | .other => findItem pointer fuel ⟨mBuffer, false⟩ r
      | _ => findItem pointer fuel ⟨mBuffer, false⟩ r

/-- `decodedItem`; the buffer of the line is a member. -/
def decodedItem (pointer : ℕ) : ObjectDecoder Members := fun members r _ =>
  findItem pointer ((toRead r).length + 2) members r

/-! ## The cues of some lines -/

/-- The cues of some lines. -/
def itemsOf : List (List UInt8) → List ExtSubItem
  | [] => []
  | line :: lines =>
    match kindOf line with
    | .cue start text =>
      match lines with
      | [] => [⟨start, start + 200, [text]⟩]
      | next :: lines =>
        match kindOf next with
        | .cue _ _ => ⟨start, start + 200, [text]⟩ :: itemsOf (next :: lines)
        | .stop stop => ⟨start, stop, [text]⟩ :: itemsOf lines
        | .other => itemsOf lines
    | _ => itemsOf lines

/-- The line that is kept. -/
def Members.kept (members : Members) : List (List UInt8) :=
  if members.mHasPendingItemForEndTime then [members.mBuffer.string] else []

/-- The cues that are still to come. -/
def items (members : Members) (lines : List (List UInt8)) : List ExtSubItem :=
  itemsOf (members.kept ++ lines)

theorem itemsOf_cons_not_cue {line : List UInt8} (h : ∀ start text, kindOf line ≠ .cue start text)
    (lines : List (List UInt8)) : itemsOf (line :: lines) = itemsOf lines := by
  rw [itemsOf.eq_def]
  dsimp only
  cases hkind : kindOf line with
  | cue start text => exact absurd hkind (h start text)
  | stop _ => rfl
  | other => rfl

theorem itemsOf_singleton {line text : List UInt8} {start : ℤ} (h : kindOf line = .cue start text) :
    itemsOf [line] = [⟨start, start + 200, [text]⟩] := by
  rw [itemsOf.eq_def]
  dsimp only
  rw [h]

/-- **The line behind a cue** decides what becomes of it. -/
theorem itemsOf_cons_cue {line text : List UInt8} {start : ℤ} (h : kindOf line = .cue start text)
    (next : List UInt8) (lines : List (List UInt8)) : itemsOf (line :: next :: lines) =
      match kindOf next with
      | .cue _ _ => ⟨start, start + 200, [text]⟩ :: itemsOf (next :: lines)
      | .stop stop => ⟨start, stop, [text]⟩ :: itemsOf lines
      | .other => itemsOf lines := by
  rw [itemsOf.eq_def]
  dsimp only
  rw [h]

theorem length_itemsOf_le (lines : List (List UInt8)) : (itemsOf lines).length ≤ lines.length := by
  induction hn : lines.length using Nat.strong_induction_on generalizing lines with
  | _ n ih =>
    subst hn
    cases lines with
    | nil => exact le_rfl
    | cons line lines =>
      have hrest := ih lines.length (Nat.lt_succ_self _) lines rfl
      cases hkind : kindOf line with
      | stop _ =>
        rw [itemsOf_cons_not_cue (by rw [hkind]; exact fun _ _ => LineKind.noConfusion)]
        exact hrest.trans (Nat.le_succ _)
      | other =>
        rw [itemsOf_cons_not_cue (by rw [hkind]; exact fun _ _ => LineKind.noConfusion)]
        exact hrest.trans (Nat.le_succ _)
      | cue start text =>
        cases lines with
        | nil => rw [itemsOf_singleton hkind]; exact le_rfl
        | cons next lines =>
          have hrest' := ih lines.length
            (Nat.lt_succ_of_lt (Nat.lt_succ_self _)) lines rfl
          rw [itemsOf_cons_cue hkind]
          cases kindOf next with
          | cue _ _ => exact Nat.succ_le_succ hrest
          | stop _ => exact Nat.succ_le_succ (hrest'.trans (Nat.le_succ _))
          | other => exact hrest'.trans ((Nat.le_succ _).trans (Nat.le_succ _))

/-! ## A call -/

/-- A round of the loop begins with the first of the lines that are kept or delivered. -/
theorem beginLine_of_delivers (pointer : ℕ) (members : Members) {r : Reader}
    {lines : List (List UInt8)} (h : DeliversAll r lines) :
    members.kept ++ lines = [] ∧ (∃ r', beginLine pointer members r = (none, r')) ∨
    ∃ m r' line rest, members.kept ++ lines = line :: rest ∧
      beginLine pointer members r = (some m, r') ∧ m.string = line ∧ DeliversAll r' rest := by
  obtain ⟨mBuffer, pending⟩ := members
  cases pending with
  | true => exact .inr ⟨mBuffer, r, _, lines, rfl, rfl, rfl, h⟩
  | false =>
    cases lines with
    | nil =>
      obtain ⟨r', hget, -⟩ := h.nil (clearFront pointer mBuffer)
      exact .inl ⟨rfl, r', hget⟩
    | cons line lines =>
      obtain ⟨m, r', hget, hm, hrest⟩ := h (clearFront pointer mBuffer)
      exact .inr ⟨m, r', line, lines, rfl, hget, hm, hrest⟩

/-- **The loop of a call** stops at the first cue that is not lost. -/
theorem findItem_of_delivers (pointer fuel : ℕ) : ∀ (members : Members) {r : Reader}
    {lines : List (List UInt8)}, DeliversAll r lines → (members.kept ++ lines).length < fuel →
    items members lines = [] ∧ (findItem pointer fuel members r).1 = none ∨
    ∃ item members' rest r', items members lines = item :: items members' rest ∧
      findItem pointer fuel members r = (some item, members', r') ∧ DeliversAll r' rest := by
  induction fuel with
  | zero => exact fun _ _ _ _ h => absurd h (Nat.not_lt_zero _)
  | succ fuel ih =>
    intro members r lines h hlt
    -- a round that finds no cue goes on with the lines that are left
    have hagain : ∀ (m : Memory) {r' : Reader} {rest : List (List UInt8)}, DeliversAll r' rest →
        rest.length < fuel → itemsOf (members.kept ++ lines) = itemsOf rest →
        itemsOf (members.kept ++ lines) = [] ∧ (findItem pointer fuel ⟨m, false⟩ r').1 = none ∨
        ∃ item members' rest' r'', itemsOf (members.kept ++ lines) = item :: items members' rest' ∧
          findItem pointer fuel ⟨m, false⟩ r' = (some item, members', r'') ∧
          DeliversAll r'' rest' := by
      intro m r' rest hrest hlen heq
      rw [heq]
      exact ih ⟨m, false⟩ hrest hlen
    rw [items, findItem]
    rcases beginLine_of_delivers pointer members h with ⟨hnil, r', hbegin⟩ |
      ⟨m, r', line, rest, hlines, hbegin, hm, hrest⟩
    · rw [hbegin, hnil]
      exact .inl ⟨rfl, rfl⟩
    · rw [hlines, List.length_cons] at hlt
      rw [hbegin]
      dsimp only
      rw [hm]
      cases hkind : kindOf line with
      | stop _ =>
        refine hagain m hrest (Nat.lt_of_succ_lt_succ hlt) ?_
        rw [hlines, itemsOf_cons_not_cue (by rw [hkind]; exact fun _ _ => LineKind.noConfusion)]
      | other =>
        refine hagain m hrest (Nat.lt_of_succ_lt_succ hlt) ?_
        rw [hlines, itemsOf_cons_not_cue (by rw [hkind]; exact fun _ _ => LineKind.noConfusion)]
      | cue start text =>
        dsimp only
        cases rest with
        | nil =>
          obtain ⟨r'', hget, hend⟩ := hrest.nil (clearFront pointer m)
          rw [hget, hlines, itemsOf_singleton hkind]
          exact .inr ⟨_, ⟨clearFront pointer m, false⟩, [], r'', rfl, rfl, hend⟩
        | cons next rest =>
          obtain ⟨m', r'', hget, hm', hrest'⟩ := hrest (clearFront pointer m)
          rw [hget]
          dsimp only
          rw [hlines, itemsOf_cons_cue hkind] at hagain ⊢
          rw [hm']
          cases hnext : kindOf next with
          | cue _ _ =>
            exact .inr ⟨_, ⟨m', true⟩, rest, r'', by rw [items, Members.kept, if_pos rfl, hm']; rfl,
              rfl, hrest'⟩
          | stop _ => exact .inr ⟨_, ⟨m', false⟩, rest, r'', rfl, rfl, hrest'⟩
          | other =>
            rw [List.length_cons] at hlt
            rw [hnext] at hagain
            exact hagain m' hrest' (by omega) rfl

/-- **A call takes the first cue** of the line that is kept and the lines that are delivered. -/
theorem takesFirstFrom_decodedItem (pointer : ℕ) :
    TakesFirstFrom (decodedItem pointer) items := by
  intro members r lines _ h
  refine findItem_of_delivers pointer _ members h ?_
  have hkept : members.kept.length ≤ 1 := by
    rw [Members.kept]
    split_ifs
    · exact le_rfl
    · exact Nat.zero_le 1
  have hlen := h.length_le
  rw [List.length_append]
  omega

/-! ## Files -/

/-- A cue: its time, its text, and the time at which it is taken off again, if it has one; a colon
may stand behind that. -/
structure Cue where
  start : TimeOfDay
  text : List UInt8
  stop : Option (TimeOfDay × Bool)
  text_ne_nil : text ≠ []
  no_newline : ∀ c ∈ text, c ∉ ([10, 13] : List UInt8)

/-- The pieces of its line. -/
def Cue.pieces (cue : Cue) : List Piece :=
  cue.start.pieces ++ [.letter 58, .without [10, 13] cue.text]

/-- The line of an end time. -/
def stopLine (stop : TimeOfDay × Bool) : List UInt8 :=
  written stop.1.pieces ++ if stop.2 then [58] else []

/-- The lines of the cue. -/
def Cue.lines (cue : Cue) : List (List UInt8) :=
  written cue.pieces :: cue.stop.toList.map stopLine

/-- The item of the cue. -/
def Cue.item (cue : Cue) : ExtSubItem where
  start := sub_ms2pts cue.start.value
  stop := sub_ms2pts (cue.stop.elim (cue.start.value + 200) fun stop => (stop.1.value : ℤ))
  lines := [replaceLine cue.text]

theorem kindOf_cue (cue : Cue) : kindOf (written cue.pieces) = .cue cue.start.value cue.text := by
  have hseparated : Separated cue.pieces [] :=
    separated_number rfl (separated_number rfl (separated_number rfl
      (separated_without cue.text_ne_nil cue.no_newline)))
  have hscan : scan lineFormat (written cue.pieces) = cue.pieces.flatMap Piece.values :=
    scan_written hseparated
  rw [kindOf, hscan, ← centiseconds_value]
  rfl

theorem kindOf_stopLine (stop : TimeOfDay × Bool) :
    kindOf (stopLine stop) = .stop stop.1.value := by
  obtain ⟨t, colon⟩ := stop
  have hhead : ∀ c ∈ (if colon then [58] else [] : List UInt8).head?, isDigit c = false := by
    cases colon
    · exact fun _ hc => absurd hc (Option.not_mem_none _)
    · exact fun _ hc => Option.some.inj hc ▸ rfl
  have hrest : scan [.literal 58, .noneOf [10, 13]] (if colon then [58] else []) = [] := by
    cases colon <;> rfl
  have hscan : scan lineFormat (stopLine (t, colon)) = t.values := by
    rw [lineFormat, stopLine, scan_clock t _ hhead, hrest, List.append_nil]
  rw [kindOf, hscan, ← centiseconds_value]
  rfl

/-- The items of a file. -/
theorem itemsOf_lines (cues : List Cue) :
    (itemsOf (cues.flatMap Cue.lines)).map finishItem = cues.map Cue.item := by
  induction cues with
  | nil => rfl
  | cons cue cues ih =>
    cases hstop : cue.stop with
    | some stop =>
      rw [List.flatMap_cons, Cue.lines, hstop, List.map_cons, ← ih]
      refine (congrArg (List.map finishItem) (itemsOf_cons_cue (kindOf_cue cue) (stopLine stop)
        (cues.flatMap Cue.lines))).trans ?_
      rw [kindOf_stopLine, Cue.item, hstop]
      rfl
    | none =>
      have hlines : cue.lines = [written cue.pieces] := by
        rw [Cue.lines, hstop]
        rfl
      rw [List.flatMap_cons, hlines, List.map_cons, ← ih, Cue.item, hstop]
      cases cues with
      | nil =>
        rw [List.flatMap_nil, List.append_nil, itemsOf_singleton (kindOf_cue cue)]
        rfl
      | cons cue' cues =>
        have hnext : (cue' :: cues).flatMap Cue.lines =
            written cue'.pieces :: (cue'.stop.toList.map stopLine ++ cues.flatMap Cue.lines) := rfl
        rw [hnext, List.cons_append, List.nil_append, itemsOf_cons_cue (kindOf_cue cue),
          kindOf_cue cue']
        rfl

/-- The line of a cue tells the format, if its text tells no other one. -/
theorem detectLine_cue (xml : Format) (cue : Cue) (htags : Untagged (written cue.pieces))
    (harrow : ¬ [45, 45, 62] <:+: written cue.pieces) :
    detectLine xml (written cue.pieces) = some .SUB_VPLAYER := by
  have hline : written cue.pieces = written cue.start.pieces ++ 58 :: (cue.text ++ []) :=
    written_append _ _
  have hnumber : written cue.pieces = cue.start.hours.digits ++ 58 ::
      written (cue.pieces.drop 2) := rfl
  have hclock : ∀ format : List Directive, sscanf (clock ++ format) (written cue.pieces) =
      3 + (scan format (58 :: (cue.text ++ []))).length := fun format => by
    rw [sscanf, hline, scan_clock cue.start format (not_digit_cons rfl _), List.length_append]
    rfl
  have hdot : ∀ format : List Directive, sscanf (clock ++ .literal 46 :: format)
      (written cue.pieces) = 3 := fun format => by
    rw [hclock, scan_literal_ne (by decide)]
    rfl
  have hsubrip : sscanf subrip (written cue.pieces) = 3 :=
    hdot (.int :: .literal 44 :: clockDot)
  have hjacosub : sscanf jacosub (written cue.pieces) = 3 := hdot (.int :: .blank :: clockDot)
  have hvplayer : sscanf (clock ++ [.literal 58]) (written cue.pieces) = 3 := by
    rw [hclock, scan_literal_self]
    rfl
  have hsubviewer : sscanf subviewer (written cue.pieces) ≠ 10 := by
    intro h
    exact harrow (@infix_of_scan (clockMark ++ [.blank]) (.blank :: clockMark) [45, 45, 62] _
      (lt_of_lt_of_eq (show 5 < 10 by decide) h.symm))
  have hmpl1 : sscanf mpl1 (written cue.pieces) = 1 := by
    rw [hnumber, sscanf, mpl1, scan_int_numeral _ (not_digit_cons rfl _),
      scan_literal_ne (by decide)]
    rfl
  have hsubviewer3 : sscanf subviewer3 (written cue.pieces) = 1 := by
    rw [hnumber, sscanf, subviewer3, List.cons_append, List.cons_append, List.cons_append,
      scan_int_numeral _ (not_digit_cons rfl _)]
    rfl
  have hletter : ∀ c format, isDigit c = false →
      sscanf (.literal c :: format) (written cue.pieces) = 0 := fun c format hc => by
    rw [hnumber, sscanf_numeral hc]
  have hmicrodvd : sscanf microdvd (written cue.pieces) = 0 := hletter _ _ rfl
  have hopen : sscanf microdvdOpen (written cue.pieces) = 0 := hletter _ _ rfl
  have hmpl2 : sscanf mpl2 (written cue.pieces) = 0 := hletter _ _ rfl
  have hsubviewer2 : sscanf subviewer2 (written cue.pieces) = 0 := hletter 123 _ rfl
  have hat : sscanf jacosubAt (written cue.pieces) = 0 := hletter _ _ rfl
  have hwebvtt : startsWith webvtt (written cue.pieces) = false := by
    rw [hnumber, webvtt, startsWith_numeral rfl]
  rw [detectLine, hmicrodvd, hopen, hwebvtt, hmpl1, hmpl2, hsubrip, if_neg hsubviewer, hsubviewer2,
    hsubviewer3, htags.sami, htags.samiLower, hjacosub, hat, hvplayer]
  rfl

/-- **A VPlayer file is told by its first line, and decoded to its cues**: a cue ends at the time of
the line behind it if this has only a time, and after two seconds otherwise. -/
theorem decodes_vplayer {cues : List Cue} (hne : cues ≠ [])
    (htags : ∀ cue ∈ cues.head?, Untagged (written cue.pieces))
    (harrow : ∀ cue ∈ cues.head?, ¬ [45, 45, 62] <:+: written cue.pieces)
    (file : TextFile (cues.flatMap Cue.lines)) (n n' : ℕ) {source source' : List Chunk}
    (hsource : bytesOf source = file.content) (hsource' : bytesOf source' = file.content)
    (xml : Format) (stack stack' : ℕ → Memory) (pointer : ℕ) (mBuffer : Memory) :
    detect xml (create (file.content.take n) source) stack = .SUB_VPLAYER ∧
      decodeObjectSubtitles (decodedItem pointer) ⟨mBuffer, false⟩
          (create (file.content.take n') source') stack' = cues.map Cue.item := by
  constructor
  · obtain ⟨cue, cues, rfl⟩ := List.exists_cons_of_ne_nil hne
    exact detect_of_first (file.delivers n hsource)
      (detectLine_cue xml cue (htags cue rfl) (harrow cue rfl)) stack
  · have hall := file.deliversAll n' hsource'
    have hle : (items ⟨mBuffer, false⟩ (cues.flatMap Cue.lines)).length ≤
        (toRead (create (file.content.take n') source')).length :=
      (length_itemsOf_le (cues.flatMap Cue.lines)).trans hall.length_le
    rw [← itemsOf_lines cues]
    exact decodeObjectSubtitles_of_delivers (takesFirstFrom_decodedItem pointer) hall hle stack'

/-- A cue from the first second to the third, and one from the fourth on. -/
def vplayerExample : List Cue :=
  [⟨⟨twoDigits 0, twoDigits 0, twoDigits 1, by decide⟩, [72, 101, 121],
    some (⟨twoDigits 0, twoDigits 0, twoDigits 3, by decide⟩, true), by decide, by simp⟩,
   ⟨⟨twoDigits 0, twoDigits 0, twoDigits 4, by decide⟩, [72, 111, 121], none, by decide,
    by simp⟩]

theorem decodes_vplayerExample :
    decodeObjectSubtitles (decodedItem 8) ⟨⟨0, []⟩, false⟩
        (create [] [⟨joinLines (vplayerExample.flatMap Cue.lines), by decide, by decide⟩])
        (fun _ => ⟨0, []⟩) =
      [⟨90000, 270000, [[72, 101, 121]]⟩, ⟨360000, 540000, [[72, 111, 121]]⟩] :=
  (@decodes_vplayer vplayerExample (by decide)
    (fun _ hl => Option.some.inj hl ▸ untagged_of_notMem (by decide))
    (fun _ hl => Option.some.inj hl ▸ by decide)
    (TextFile.ofPlain _ (by decide) rfl) 0 0
    [⟨joinLines (vplayerExample.flatMap Cue.lines), by decide, by decide⟩]
    [⟨joinLines (vplayerExample.flatMap Cue.lines), by decide, by decide⟩] (List.append_nil _)
    (List.append_nil _) .SUB_XML (fun _ => ⟨0, []⟩) (fun _ => ⟨0, []⟩) 8 ⟨0, []⟩).2.trans
    (by decide)

end Vplayer
end AmlSubtitle
