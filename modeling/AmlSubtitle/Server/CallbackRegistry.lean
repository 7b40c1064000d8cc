import AmlSubtitle.Lib.Run
import Mathlib.Tactic

/-!
# `SubtitleServer.cpp`: the callbacks of the clients

`mCallbackClients` is a `std::map` from cookies to callbacks.  `setCallback` enters a
callback, `removeCallback` erases its entry, `handleServiceDeath` leaves the entry with
a null pointer, and two loops notify the callbacks.  All of them read the map through
`mCallbackClients[i]`, which enters a null pointer where there is no entry for `i`, so
that reading can make the map grow.

The binder is modelled next to the server by what it documents.

* `linkToDeath` puts a link to the death of a living callback in place, unless it fails.
* When the process of a callback dies, each link to it becomes a notice that is under
  way: `serviceDied` with the cookie of the link is going to be called.
* `unlinkToDeath` takes a link away and has no effect on notices under way.
* A call to a dead callback does not reach it.

Cookies are natural numbers: the code counts them up from zero, one for an entry.
-/

namespace AmlSubtitle
namespace SubtitleServer

/-- `std::map<uint32_t, sp<ISubtitleCallback>>`; `none` is a null pointer. -/
abbrev CallbackClients (C : Type*) := Std.TreeMap ℕ (Option C)

namespace CallbackClients

variable {C : Type*}

/-- The callback `mCallbackClients[i]` reads. -/
def client (m : CallbackClients C) (i : ℕ) : Option C := m.getD i none

/-- What reading `mCallbackClients[i]` makes of the map. -/
def touch (m : CallbackClients C) (i : ℕ) : CallbackClients C := m.insertIfNew i none

/-- The search of `setCallback` for an entry without a callback, with `n` entries to look
at from `i` on. -/
def freeEntry : ℕ → ℕ → CallbackClients C → Option ℕ × CallbackClients C
  | 0, _, m => (none, m)
  | n + 1, i, m =>
    match m.client i with
    | none => (some i, m.touch i)
    | some _ => freeEntry n (i + 1) (m.touch i)

/-- The loop of `sendSubtitleDisplayNotify` from `i` on: the callbacks it calls.  It
compares `i` with the size of the map as it is by then. -/
def displayLoop : ℕ → ℕ → CallbackClients C → List C × CallbackClients C
  | 0, _, m => ([], m)
  | fuel + 1, i, m =>
    if i < m.size then
      let rest := displayLoop fuel (i + 1) (m.touch i)
      ((m.client i).toList ++ rest.1, rest.2)
    else
      ([], m)

/-- More than the keys of the map. -/
def bound (m : CallbackClients C) : ℕ := m.keys.foldr (fun k n => max (k + 1) n) 0

/-- The check of `sendSubtitleEventNotify` for a callback, with `n` entries to look at
from `i` on. -/
def hasEventClient : ℕ → ℕ → CallbackClients C → Bool × CallbackClients C
  | 0, _, m => (false, m)
  | n + 1, i, m =>
    match m.client i with
    | some _ => (true, m.touch i)
    | none => hasEventClient n (i + 1) (m.touch i)

/-- The loop of `sendSubtitleEventNotify` that notifies `n` entries from `i` on. -/
def eventLoop : ℕ → ℕ → CallbackClients C → List C × CallbackClients C
  | 0, _, m => ([], m)
  | n + 1, i, m =>
    let rest := eventLoop n (i + 1) (m.touch i)
    ((m.client i).toList ++ rest.1, rest.2)

/-! ## Reading and writing the map -/

section Client

variable {m : CallbackClients C} {i k : ℕ} {callback : C}

theorem mem_of_client (h : m.client k = some callback) : k ∈ m := by
  by_contra hmem
  rw [client, Std.TreeMap.getD_eq_fallback hmem] at h
  exact absurd h (by simp)

@[simp] theorem client_empty (k : ℕ) : (∅ : CallbackClients C).client k = none :=
  Std.TreeMap.getD_emptyc

@[simp] theorem client_touch (m : CallbackClients C) (i k : ℕ) :
    (m.touch i).client k = m.client k := by
  rw [client, client, Std.TreeMap.getD_eq_getD_getElem?, Std.TreeMap.getD_eq_getD_getElem?, touch,
    Std.TreeMap.getElem?_insertIfNew]
  split
  · rename_i h
    have hik : i = k := by simpa using h.1
    rw [← hik, Std.TreeMap.getElem?_eq_none h.2]
    rfl
  · rfl

@[simp] theorem mem_touch : k ∈ m.touch i ↔ i = k ∨ k ∈ m := by
  rw [touch, Std.TreeMap.mem_insertIfNew, Std.LawfulEqCmp.compare_eq_iff_eq]

@[simp] theorem client_insert_self (m : CallbackClients C) (k : ℕ) (v : Option C) :
    CallbackClients.client (m.insert k v) k = v :=
  Std.TreeMap.getD_insert_self

theorem client_insert_of_ne (m : CallbackClients C) (v : Option C) (h : i ≠ k) :
    CallbackClients.client (m.insert i v) k = m.client k := by
  rw [client, Std.TreeMap.getD_insert, if_neg (by simpa using h)]
  rfl

@[simp] theorem client_erase_self (m : CallbackClients C) (k : ℕ) :
    CallbackClients.client (m.erase k) k = none :=
  Std.TreeMap.getD_erase_self

theorem client_erase_of_ne (m : CallbackClients C) (h : i ≠ k) :
    CallbackClients.client (m.erase i) k = m.client k := by
  rw [client, Std.TreeMap.getD_erase, if_neg (by simpa using h)]
  rfl

theorem mem_toList_iff : (k, some callback) ∈ m.toList ↔ m.client k = some callback := by
  rw [Std.TreeMap.mem_toList_iff_getElem?_eq_some]
  constructor
  · intro h
    rw [client, Std.TreeMap.getD_eq_getD_getElem?, h]
    rfl
  · intro h
    rw [Std.TreeMap.getElem?_eq_some_getD (mem_of_client h), ← h]
    rfl

/-- What holds of every callback in the map, by its entries. -/
theorem forall_client (P : ℕ → C → Prop) :
    (∀ k callback, m.client k = some callback → P k callback) ↔
      ∀ entry ∈ m.toList, ∀ callback ∈ entry.2, P entry.1 callback := by
  constructor
  · rintro h ⟨k, v⟩ hentry callback hv
    rw [show v = some callback from hv] at hentry
    exact h k callback (mem_toList_iff.mp hentry)
  · exact fun h k callback hk => h (k, some callback) (mem_toList_iff.mpr hk) callback rfl

theorem lt_bound (h : k ∈ m) : k < m.bound := by
  have hfold : ∀ l : List ℕ, k ∈ l → k < l.foldr (fun k n => max (k + 1) n) 0 := by
    intro l hl
    induction l with
    | nil => cases hl
    | cons a l ih =>
      rw [List.foldr_cons]
      rcases List.mem_cons.mp hl with rfl | hl
      · omega
      · have := ih hl
        omega
  exact hfold m.keys (Std.TreeMap.mem_keys.mpr h)

/-- A map with as many entries as `i`, among them all below `i`, has no others. -/
theorem notMem_of_full (hbelow : ∀ j < i, j ∈ m) (hsize : m.size ≤ i) (hk : i ≤ k) : k ∉ m := by
  intro hmem
  have hsub : (List.range i ++ [k]) ⊆ m.keys := by
    intro j hj
    rw [Std.TreeMap.mem_keys]
    rcases List.mem_append.mp hj with hj | hj
    · exact hbelow j (List.mem_range.mp hj)
    · rwa [List.mem_singleton.mp hj]
  have hnodup : (List.range i ++ [k]).Nodup := by
    rw [List.nodup_append]
    refine ⟨List.nodup_range, List.nodup_singleton k, fun a ha b hb => ?_⟩
    have := List.mem_range.mp ha
    rw [List.mem_singleton.mp hb]
    omega
  have hlen := (List.subperm_of_subset hnodup hsub).length_le
  rw [Std.TreeMap.length_keys, List.length_append, List.length_range, List.length_singleton]
    at hlen
  omega

end Client

/-! ## The loops -/

section Loops

variable {m : CallbackClients C}

@[simp] theorem client_freeEntry (n i : ℕ) (m : CallbackClients C) (k : ℕ) :
    (freeEntry n i m).2.client k = m.client k := by
  induction n generalizing i m with
  | zero => rfl
  | succ n ih =>
    rw [freeEntry]
    split
    · exact client_touch m i k
    · rw [ih, client_touch]

theorem client_of_freeEntry {n i j : ℕ} (h : (freeEntry n i m).1 = some j) : m.client j = none := by
  induction n generalizing i m with
  | zero => cases h
  | succ n ih =>
    rw [freeEntry] at h
    split at h
    · rename_i hfree
      rw [← Option.some_inj.mp h]
      exact hfree
    · have := ih h
      rwa [client_touch] at this

theorem mem_of_freeEntry_eq_none {n i j : ℕ} (h : (freeEntry n i m).1 = none) (hi : i ≤ j)
    (hj : j < i + n) : j ∈ m := by
  induction n generalizing i m with
  | zero => omega
  | succ n ih =>
    rw [freeEntry] at h
    split at h
    · cases h
    · rename_i callback hclient
      rcases Nat.eq_or_lt_of_le hi with rfl | hlt
      · exact mem_of_client hclient
      · rcases mem_touch.mp (ih h hlt (by omega)) with rfl | hmem
        · exact mem_of_client hclient
        · exact hmem

/-- The entry `setCallback` writes has no callback. -/
theorem client_cookie (m : CallbackClients C) :
    m.client ((freeEntry m.size 0 m).1.getD m.size) = none := by
  cases h : (freeEntry m.size 0 m).1 with
  | some j => exact client_of_freeEntry h
  | none =>
    have hfull : ∀ j < m.size, j ∈ m := fun j hj =>
      mem_of_freeEntry_eq_none h (Nat.zero_le j) (by omega)
    exact Std.TreeMap.getD_eq_fallback (notMem_of_full hfull le_rfl le_rfl)

/-- The display loop comes past every key, since the map grows where it has a gap. -/
theorem displayLoop_spec (fuel i : ℕ) (hbelow : ∀ j < i, j ∈ m) (habove : ∀ k ∈ m, k < i + fuel) :
    (displayLoop fuel i m).1 = (List.range' i fuel).filterMap m.client ∧
      ∀ k, (displayLoop fuel i m).2.client k = m.client k := by
  induction fuel generalizing i m with
  | zero => exact ⟨rfl, fun k => rfl⟩
  | succ fuel ih =>
    rw [displayLoop]
    split
    · have hrest := ih (m := m.touch i) (i + 1) ?_ ?_
      · refine ⟨?_, fun k => (hrest.2 k).trans (client_touch m i k)⟩
        dsimp only
        rw [hrest.1, List.range'_succ, List.filterMap_cons,
          List.filterMap_congr fun k _ => client_touch m i k]
        cases m.client i <;> rfl
      · intro j hj
        rcases Nat.lt_or_ge j i with hlt | hge
        · exact mem_touch.mpr (Or.inr (hbelow j hlt))
        · exact mem_touch.mpr (Or.inl (by omega))
      · intro k hk
        rcases mem_touch.mp hk with rfl | hk
        · omega
        · have := habove k hk
          omega
    · rename_i hend
      refine ⟨?_, fun k => rfl⟩
      symm
      rw [List.filterMap_eq_nil_iff]
      intro k hk
      have hik := (List.mem_range'_1.mp hk).1
      exact Std.TreeMap.getD_eq_fallback (notMem_of_full hbelow (by omega) hik)

theorem hasEventClient_spec (n i : ℕ) (m : CallbackClients C) :
    ((hasEventClient n i m).1 = false → ∀ k ∈ List.range' i n, m.client k = none) ∧
      ∀ k, (hasEventClient n i m).2.client k = m.client k := by
  induction n generalizing i m with
  | zero => exact ⟨fun _ k hk => absurd hk (by simp), fun k => rfl⟩
  | succ n ih =>
    rw [hasEventClient]
    split
    · exact ⟨fun h => absurd h (by simp), fun k => client_touch m i k⟩
    · rename_i hnone
      have hrest := ih (i + 1) (m.touch i)
      refine ⟨fun h k hk => ?_, fun k => (hrest.2 k).trans (client_touch m i k)⟩
      rw [List.range'_succ] at hk
      rcases List.mem_cons.mp hk with rfl | hk
      · exact hnone
      · exact (client_touch m i k).symm.trans (hrest.1 h k hk)

theorem eventLoop_spec (n i : ℕ) (m : CallbackClients C) :
    (eventLoop n i m).1 = (List.range' i n).filterMap m.client ∧
      ∀ k, (eventLoop n i m).2.client k = m.client k := by
  induction n generalizing i m with
  | zero => exact ⟨rfl, fun k => rfl⟩
  | succ n ih =>
    have hrest := ih (i + 1) (m.touch i)
    rw [eventLoop]
    refine ⟨?_, fun k => (hrest.2 k).trans (client_touch m i k)⟩
    dsimp only
    rw [hrest.1, List.range'_succ, List.filterMap_cons,
      List.filterMap_congr fun k _ => client_touch m i k]
    cases m.client i <;> rfl

end Loops

end CallbackClients

/-- The callbacks of a server, the death links the binder keeps for it, and the calls
that reached a callback: for each event, whom it was delivered to. -/
structure Callbacks (C E : Type*) where
  mCallbackClients : CallbackClients C
  mFallbackPlayStarted : Bool
  mFallbackCallback : Option C
  links : List (C × ℕ)
  notices : List (C × ℕ)
  dead : List C
  crashed : Bool
  delivered : List (E × List C)

namespace Callbacks

open CallbackClients

variable {C E : Type*} [DecidableEq C]

/-- The constructor of the server. -/
def create : Callbacks C E := ⟨∅, false, none, [], [], [], false, []⟩

/-! ## The binder -/

/-- `callback->linkToDeath(mDeathRecipient, cookie)`. -/
def linkToDeath (s : Callbacks C E) (callback : C) (cookie : ℕ) (linkSuccess : Bool) :
    Callbacks C E :=
  if linkSuccess ∧ callback ∉ s.dead then { s with links := s.links ++ [(callback, cookie)] } else s

/-- `callback->unlinkToDeath(mDeathRecipient)`. -/
def unlinkToDeath (s : Callbacks C E) (callback : C) : Callbacks C E :=
  { s with links := s.links.eraseP fun link => link.1 = callback }

/-- The process of the callback dies. -/
def die (s : Callbacks C E) (callback : C) : Callbacks C E :=
  { s with
    dead := callback :: s.dead
    notices := s.notices ++ s.links.filter fun link => link.1 = callback
    links := s.links.filter fun link => link.1 ≠ callback }

/-- The calls of one event reach the callbacks that live. -/
def reach (s : Callbacks C E) (event : E) (callbacks : List C) : Callbacks C E :=
  { s with
    delivered := s.delivered ++ [(event, callbacks.filter fun callback => callback ∉ s.dead)] }

/-! ## The server -/

def setCallback (s : Callbacks C E) (callback : Option C) (linkSuccess : Bool) : Callbacks C E :=
  match callback with
  | none => s
  | some callback =>
    let clientSize := s.mCallbackClients.size
    let search := freeEntry clientSize 0 s.mCallbackClients
    let cookie := search.1.getD clientSize
    linkToDeath { s with mCallbackClients := search.2.insert cookie (some callback) } callback
      cookie linkSuccess

/-- The entry `removeCallback` erases: the first with the callback. -/
def entryOf (m : CallbackClients C) (callback : C) : Option (ℕ × Option C) :=
  m.toList.find? fun entry => entry.2 = some callback

def removeCallback (s : Callbacks C E) (callback : Option C) : Callbacks C E :=
  match callback with
  | none => s
  | some callback =>
    let s := if s.mFallbackCallback = some callback then
        { s.unlinkToDeath callback with mFallbackCallback := none }
      else s
    match entryOf s.mCallbackClients callback with
    | none => s
    | some entry =>
      { s.unlinkToDeath callback with
        mCallbackClients := s.mCallbackClients.erase entry.1 }

def sendSubtitleDisplayNotify (s : Callbacks C E) (event : E) : Callbacks C E :=
  match s.mFallbackPlayStarted, s.mFallbackCallback with
  | true, some callback => s.reach event [callback]
  | _, _ =>
    let loop := displayLoop s.mCallbackClients.bound 0 s.mCallbackClients
    reach { s with mCallbackClients := loop.2 } event loop.1

/-- The fallback callback is notified beside the others here. -/
def sendSubtitleEventNotify (s : Callbacks C E) (event : E) : Callbacks C E :=
  let fallback := if s.mFallbackPlayStarted then s.mFallbackCallback.toList else []
  let clientSize := s.mCallbackClients.size
  let check := hasEventClient clientSize 0 s.mCallbackClients
  let loop := if check.1 then eventLoop clientSize 0 check.2 else ([], check.2)
  reach { s with mCallbackClients := loop.2 } event (fallback ++ loop.1)

/-- A null pointer at the cookie is dereferenced. -/
def handleServiceDeath (s : Callbacks C E) (cookie : ℕ) : Callbacks C E :=
  match s.mCallbackClients.client cookie with
  | none => { s with mCallbackClients := s.mCallbackClients.touch cookie, crashed := true }
  | some callback =>
    { s.unlinkToDeath callback with
      mCallbackClients := (s.mCallbackClients.touch cookie).insert cookie none }

/-- A notice that is under way comes in. -/
def serviceDied (s : Callbacks C E) (notice : C × ℕ) : Callbacks C E :=
  handleServiceDeath { s with notices := s.notices.erase notice } notice.2

end Callbacks

/-- What happens to the callbacks of a server. -/
inductive Call (C E : Type*) where
  | setCallback (callback : Option C) (linkSuccess : Bool)
  | removeCallback (callback : Option C)
  | die (callback : C)
  | serviceDied (notice : C × ℕ)
  | displayNotify (event : E)
  | eventNotify (event : E)

variable {C E : Type*} [DecidableEq C]

/-- One call.  Nothing happens once the server has crashed, only what lives dies, and
only a notice that is under way comes in. -/
def Callbacks.step (s : Callbacks C E) (call : Call C E) : Callbacks C E :=
  if s.crashed then s
  else match call with
    | .setCallback callback linkSuccess => s.setCallback callback linkSuccess
    | .removeCallback callback => s.removeCallback callback
    | .die callback => if callback ∈ s.dead then s else s.die callback
    | .serviceDied notice => if notice ∈ s.notices then s.serviceDied notice else s
    | .displayNotify event => s.sendSubtitleDisplayNotify event
    | .eventNotify event => s.sendSubtitleEventNotify event

end SubtitleServer
end AmlSubtitle
