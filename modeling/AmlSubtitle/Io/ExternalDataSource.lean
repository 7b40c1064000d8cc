import AmlSubtitle.Ipc.IpcDataTypes
import AmlSubtitle.Lib.Lockstep

/-!
# `io/ExternalDataSource.cpp`: the messages of a client

`onData` gets a message, a word for its type and the payload behind it, and takes out of it what
the type says is there.  A byte behind the end of the message that is looked at, and a copy of a
negative size, are `none`.

* `Enough`: what the payload of a type has to hold.
* `isSome_onData`: a message that holds it is read inside its bounds, and no other one.
* `messages_inBounds_iff`: so are the messages of a run.
-/

namespace AmlSubtitle
namespace ExternalDataSource

open Words

/-! ## Reading a message -/

/-- `make32bitValue(buffer + i)`. -/
def make32bitValue (buffer : List UInt8) (i : ℕ) : Option ℕ :=
  if i + 4 ≤ buffer.length then some (leValue ((buffer.drop i).take 4)) else none

/-- `makeNewSpBuffer(buffer + i, size)`. -/
def makeNewSpBuffer (buffer : List UInt8) (i : ℕ) (size : ℤ) : Option (List UInt8) :=
  if 0 ≤ size ∧ i + size ≤ buffer.length then some ((buffer.drop i).take size.toNat) else none

/-- The string at `buffer + i`, up to its zero. -/
def cString (buffer : List UInt8) (i : ℕ) : Option (List UInt8) :=
  if 0 ∈ buffer.drop i then some ((buffer.drop i).takeWhile (· ≠ 0)) else none

/-- The two words at `buffer + 4`, the low one first. -/
def twoWords (buffer : List UInt8) : Option ℕ := do
  let high ← make32bitValue buffer 8
  let low ← make32bitValue buffer 4
  return high * 2 ^ 32 + low

theorem isSome_make32bitValue (buffer : List UInt8) (i : ℕ) :
    (make32bitValue buffer i).isSome ↔ i + 4 ≤ buffer.length := by
  rw [make32bitValue]
  split_ifs with h
  · exact iff_of_true rfl h
  · exact iff_of_false Bool.false_ne_true h

theorem isSome_makeNewSpBuffer (buffer : List UInt8) (i : ℕ) (size : ℤ) :
    (makeNewSpBuffer buffer i size).isSome ↔ 0 ≤ size ∧ i + size ≤ buffer.length := by
  rw [makeNewSpBuffer]
  split_ifs with h
  · exact iff_of_true rfl h
  · exact iff_of_false Bool.false_ne_true h

theorem isSome_cString (buffer : List UInt8) (i : ℕ) :
    (cString buffer i).isSome ↔ 0 ∈ buffer.drop i := by
  rw [cString]
  split_ifs with h
  · exact iff_of_true rfl h
  · exact iff_of_false Bool.false_ne_true h

theorem isSome_twoWords (buffer : List UInt8) :
    (twoWords buffer).isSome ↔ 12 ≤ buffer.length := by
  have hhigh := isSome_make32bitValue buffer 8
  have hlow := isSome_make32bitValue buffer 4
  rw [twoWords]
  cases hh : make32bitValue buffer 8 with
  | none =>
    rw [hh] at hhigh
    exact iff_of_false Bool.false_ne_true fun h => Bool.false_ne_true (hhigh.mpr h)
  | some high =>
    rw [hh] at hhigh
    have hlength := hhigh.mp rfl
    cases hl : make32bitValue buffer 4 with
    | none =>
      rw [hl] at hlow
      exact absurd (hlow.mpr (by omega)) Bool.false_ne_true
    | some low => exact iff_of_true rfl hlength

/-! ## The source -/

/-- What the listeners are told. -/
inductive InfoChange where
  | onRenderTimeChanged (renderTime : ℕ)
  | onSubtitleChanged (total : ℤ)
  | onRenderStartTimestamp (startPts : ℕ)
  | onTypeChanged (type : ℤ)
  deriving DecidableEq, Repr

/-- `ExternalDataSource`; `mSegment` is what was pushed, and `told` what the listeners were
told. -/
structure Source where
  mTotalSubtitle : ℤ := -1
  mSubtitleType : ℤ := -1
  mLanguage : List UInt8 := []
  mRenderTimeUs : ℕ := 0
  mStartPts : ℕ := 0
  mSegment : List (List UInt8) := []
  stopped : Bool := false
  told : List InfoChange := []
  deriving DecidableEq, Repr

/-- `mSegment->push`. -/
def Source.push (s : Source) (bytes : List UInt8) : Source :=
  { s with mSegment := s.mSegment ++ [bytes] }

/-- `notifyInfoChange_l`. -/
def Source.notifyInfoChange_l (s : Source) (change : InfoChange) : Source :=
  if s.stopped then s else { s with told := s.told ++ [change] }

/-- `onData`. -/
def onData (s : Source) (buffer : List UInt8) : Option Source := do
  let type ← make32bitValue buffer 0
  if type = PayloadType.renderTime.code then
    let s := { s with mRenderTimeUs := ← twoWords buffer }
    return s.notifyInfoChange_l (.onRenderTimeChanged s.mRenderTimeUs)
  else if type = PayloadType.totalTrack.code then
    let s := { s with mTotalSubtitle := asSigned 32 (← make32bitValue buffer 4) }
    return s.notifyInfoChange_l (.onSubtitleChanged s.mTotalSubtitle)
  else if type = PayloadType.startPts.code then
    let s := { s with mStartPts := ← twoWords buffer }
    return s.notifyInfoChange_l (.onRenderStartTimestamp s.mStartPts)
  else if type = PayloadType.subType.code then
    let s := { s with mSubtitleType := asSigned 32 (← make32bitValue buffer 4) }
    return s.notifyInfoChange_l (.onTypeChanged s.mSubtitleType)
  else if type = PayloadType.subData.code then
    if s.mTotalSubtitle ≠ -1 ∨ s.mSubtitleType ≠ -1 then
      return s.push (← makeNewSpBuffer buffer 4 (buffer.length - 4))
    else
      return s
  else if type = PayloadType.langString.code then
    return { s with mLanguage := ← cString buffer 4 }
  else if type = PayloadType.typeString.code ∨ type = PayloadType.resetServer.code ∨
      type = PayloadType.exitServer.code then
    -- The log prints the payload as a string.
    let _ ← cString buffer 4
    return s
  else
    return s.push (← makeNewSpBuffer buffer 0 buffer.length)

/-! ## What a payload has to hold -/

/-- A message: the word of its type and the payload. -/
def message (type : UInt32) (payload : List UInt8) : List UInt8 := leBytes 4 type.toNat ++ payload

/-- The types that carry two words. -/
def HasTwoWords (type : ℕ) : Prop :=
  type = PayloadType.renderTime.code ∨ type = PayloadType.startPts.code

/-- The types that carry one word. -/
def HasWord (type : ℕ) : Prop :=
  type = PayloadType.totalTrack.code ∨ type = PayloadType.subType.code

/-- The types that carry a string. -/
def HasString (type : ℕ) : Prop :=
  type = PayloadType.langString.code ∨ type = PayloadType.typeString.code ∨
    type = PayloadType.resetServer.code ∨ type = PayloadType.exitServer.code

instance : DecidablePred HasTwoWords := fun _ => inferInstanceAs (Decidable (_ ∨ _))

instance : DecidablePred HasWord := fun _ => inferInstanceAs (Decidable (_ ∨ _))

instance : DecidablePred HasString := fun _ => inferInstanceAs (Decidable (_ ∨ _))

/-- The payload holds what is read of it. -/
structure Enough (type : ℕ) (payload : List UInt8) : Prop where
  twoWords : HasTwoWords type → 8 ≤ payload.length
  word : HasWord type → 4 ≤ payload.length
  string : HasString type → 0 ∈ payload

section Enough

variable {type : ℕ} {payload : List UInt8}

theorem enough_of_twoWords (h : HasTwoWords type) : Enough type payload ↔ 8 ≤ payload.length := by
  refine ⟨fun henough => henough.twoWords h, fun hlength => ⟨fun _ => hlength, ?_, ?_⟩⟩
  · exact fun _ => le_trans (by decide) hlength
  · rcases h with rfl | rfl <;> exact fun hstring => absurd hstring (by decide)

theorem enough_of_word (h : HasWord type) : Enough type payload ↔ 4 ≤ payload.length := by
  refine ⟨fun henough => henough.word h, fun hlength => ⟨?_, fun _ => hlength, ?_⟩⟩
  · rcases h with rfl | rfl <;> exact fun hwords => absurd hwords (by decide)
  · rcases h with rfl | rfl <;> exact fun hstring => absurd hstring (by decide)

theorem enough_of_string (h : HasString type) : Enough type payload ↔ 0 ∈ payload := by
  refine ⟨fun henough => henough.string h, fun hmem => ⟨?_, ?_, fun _ => hmem⟩⟩
  · rcases h with rfl | rfl | rfl | rfl <;> exact fun hwords => absurd hwords (by decide)
  · rcases h with rfl | rfl | rfl | rfl <;> exact fun hword => absurd hword (by decide)

/-- Of the other types nothing is read but what is there. -/
theorem enough_of_other (hwords : ¬ HasTwoWords type) (hword : ¬ HasWord type)
    (hstring : ¬ HasString type) : Enough type payload :=
  ⟨fun h => absurd h hwords, fun h => absurd h hword, fun h => absurd h hstring⟩

end Enough

/-! ## Messages inside their bounds -/

section Message

variable (type : UInt32) (payload : List UInt8)

@[simp] theorem length_message : (message type payload).length = 4 + payload.length := by
  rw [message, List.length_append, length_leBytes]

@[simp] theorem drop_message : (message type payload).drop 4 = payload := by
  rw [message, List.drop_left' (length_leBytes 4 _)]

theorem make32bitValue_message : make32bitValue (message type payload) 0 = some type.toNat := by
  have hle : 0 + 4 ≤ (message type payload).length := by
    rw [length_message]
    omega
  rw [make32bitValue, if_pos hle, List.drop_zero, message, List.take_left' (length_leBytes 4 _),
    leValue_leBytes type.toNat_lt]

/-- The copies of a branch that makes one are inside the message. -/
theorem isSome_makeNewSpBuffer_message {i : ℕ} (hi : i ≤ 4) :
    (makeNewSpBuffer (message type payload) i ((message type payload).length - i)).isSome := by
  rw [isSome_makeNewSpBuffer, length_message]
  omega

theorem isSome_twoWords_message :
    (twoWords (message type payload)).isSome ↔ 8 ≤ payload.length := by
  rw [isSome_twoWords, length_message]
  omega

theorem isSome_word_message :
    (make32bitValue (message type payload) 4).isSome ↔ 4 ≤ payload.length := by
  rw [isSome_make32bitValue, length_message]
  omega

theorem isSome_cString_message :
    (cString (message type payload) 4).isSome ↔ 0 ∈ payload := by
  rw [isSome_cString, drop_message]

theorem isSome_bind_some {α β : Type} (x : Option α) (f : α → β) :
    (x.bind fun a => some (f a)).isSome = x.isSome := by
  cases x <;> rfl

/-- **One message.**  What is looked at lies inside the message if and only if the payload holds
what its type promises. -/
theorem isSome_onData (s : Source) :
    (onData s (message type payload)).isSome ↔ Enough type.toNat payload := by
  rw [onData, make32bitValue_message]
  simp only [Option.bind_eq_bind, Option.bind_some, Option.pure_def]
  split_ifs with htime htotal hpts htype hdata hsegment hlanguage hlog
  · rw [isSome_bind_some, isSome_twoWords_message, enough_of_twoWords (.inl htime)]
  · rw [isSome_bind_some, isSome_word_message, enough_of_word (.inl htotal)]
  · rw [isSome_bind_some, isSome_twoWords_message, enough_of_twoWords (.inr hpts)]
  · rw [isSome_bind_some, isSome_word_message, enough_of_word (.inr htype)]
  · rw [isSome_bind_some]
    rw [hdata]
    exact iff_of_true (isSome_makeNewSpBuffer_message type payload le_rfl)
      (enough_of_other (by decide) (by decide) (by decide))
  · rw [hdata]
    exact iff_of_true rfl (enough_of_other (by decide) (by decide) (by decide))
  · rw [isSome_bind_some, isSome_cString_message, enough_of_string (.inl hlanguage)]
  · rw [isSome_bind_some, isSome_cString_message, enough_of_string (.inr hlog)]
  · rw [isSome_bind_some]
    refine iff_of_true ?_ (enough_of_other ?_ ?_ ?_)
    · simpa using isSome_makeNewSpBuffer_message type payload (Nat.zero_le 4)
    · exact fun h => h.elim htime hpts
    · exact fun h => h.elim htotal htype
    · exact fun h => h.elim hlanguage hlog

end Message

/-! ## A run of messages -/

/-- The messages that come in, one after the other. -/
def onMessages (s : Source) (messages : List (UInt32 × List UInt8)) : Option Source :=
  Lockstep.run (fun s m => onData s (message m.1 m.2)) s messages

/-- **The bounds of a run.**  Nothing but the messages is looked at if and only if every payload
holds what its type promises. -/
theorem messages_inBounds_iff (s : Source) (messages : List (UInt32 × List UInt8)) :
    (onMessages s messages).isSome ↔ ∀ m ∈ messages, Enough m.1.toNat m.2 := by
  induction messages generalizing s with
  | nil => exact iff_of_true rfl (List.forall_mem_nil _)
  | cons m messages ih =>
    have hone := isSome_onData m.1 m.2 s
    rw [List.forall_mem_cons, ← hone, onMessages, Lockstep.run]
    cases onData s (message m.1 m.2) with
    | none => exact iff_of_false Bool.false_ne_true fun h => Bool.false_ne_true h.1
    | some s' => exact (ih s').trans (and_iff_right rfl).symm

/-- A render time without its words. -/
theorem not_messages_inBounds : ¬ ∀ (s : Source) (messages : List (UInt32 × List UInt8)),
    (onMessages s messages).isSome := by
  intro h
  have hsome := h {} [(0x53524454, [])]
  exact absurd hsome (by decide)

end ExternalDataSource
end AmlSubtitle
