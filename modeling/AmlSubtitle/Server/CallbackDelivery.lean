import AmlSubtitle.Lib.Keyed
import AmlSubtitle.Server.CallbackRegistry

/-!
# Delivery of events to the registered callbacks

What the calls are for is a set of callbacks: `setCallback` registers a living one,
`removeCallback` and its death end that, and an event goes to each of them.  The map
keeps this set as long as no callback is entered twice and none is removed while the
notice of its death is under way.

An event of `sendSubtitleDisplayNotify` then reaches exactly the registered callbacks.
`sendSubtitleEventNotify` looks at as many cookies as there were entries before its
loop, so it misses the callbacks whose cookies are no smaller than that: an entry
erased in the middle leaves such cookies behind.

* `Agrees`: what the map, the links and the notices have to do with the set;
  one lemma for each call says that it is kept.
* `delivers_run`: the runs in which every event is delivered.
-/

namespace AmlSubtitle
namespace SubtitleServer

open CallbackClients

variable {C E : Type*} [DecidableEq C]

/-! ## The registered callbacks -/

/-- The callbacks that are registered, and whom each event is to be delivered to. -/
structure Registry (C E : Type*) where
  registered : Finset C
  dead : Finset C
  expected : List (E × Finset C)

namespace Registry

def create : Registry C E := ⟨∅, ∅, []⟩

def step (r : Registry C E) : Call C E → Registry C E
  | .setCallback (some callback) _ =>
    if callback ∈ r.dead then r else { r with registered := insert callback r.registered }
  | .removeCallback (some callback) => { r with registered := r.registered.erase callback }
  | .die callback =>
    { r with registered := r.registered.erase callback, dead := insert callback r.dead }
  | .displayNotify event => { r with expected := r.expected ++ [(event, r.registered)] }
  | .eventNotify event => { r with expected := r.expected ++ [(event, r.registered)] }
  | .setCallback none _ | .removeCallback none | .serviceDied _ => r

/-- Whom `setCallback` leaves registered: a dead callback is not entered. -/
theorem mem_setCallback {r : Registry C E} {callback callback' : C} {linkSuccess : Bool} :
    callback' ∈ (r.step (.setCallback (some callback) linkSuccess)).registered ↔
      callback' = callback ∧ callback ∉ r.dead ∨ callback' ∈ r.registered := by
  rw [step]
  split_ifs with hdead
  · simp [hdead]
  · simp [hdead]

end Registry

/-- An event was delivered to those it was to be delivered to, once each. -/
def Delivered (delivered : E × List C) (expected : E × Finset C) : Prop :=
  delivered.1 = expected.1 ∧ delivered.2.Nodup ∧ ∀ callback, callback ∈ delivered.2 ↔
    callback ∈ expected.2

/-- The server beside the registry its calls describe. -/
abbrev Registered (C E : Type*) := Callbacks C E × Registry C E

def Registered.create : Registered C E := (Callbacks.create, Registry.create)

def Registered.step (p : Registered C E) (call : Call C E) : Registered C E :=
  (p.1.step call, p.2.step call)

/-- **Delivery.**  No null pointer was dereferenced, and every event was delivered. -/
def Sound (p : Registered C E) : Prop :=
  p.1.crashed = false ∧ List.Forall₂ Delivered p.1.delivered p.2.expected

/-- No living callback is entered again, none is removed while the notice of its death is
under way, and the cookies of the living callbacks are smaller than the number of entries
when `sendSubtitleEventNotify` is called. -/
def Keeps (p : Registered C E) : Call C E → Prop
  | .setCallback (some callback) _ =>
    callback ∉ p.1.dead → ∀ k, p.1.mCallbackClients.client k ≠ some callback
  | .removeCallback (some callback) => ∀ notice ∈ p.1.notices, notice.1 ≠ callback
  | .eventNotify _ =>
    ∀ k callback, p.1.mCallbackClients.client k = some callback → callback ∉ p.1.dead →
      k < p.1.mCallbackClients.size
  | .setCallback none _ | .removeCallback none | .die _ | .serviceDied _ | .displayNotify _ => True

instance (p : Registered C E) : (call : Call C E) → Decidable (Keeps p call)
  | .setCallback (some callback) _ =>
    decidable_of_iff (callback ∉ p.1.dead → ∀ entry ∈ p.1.mCallbackClients.toList,
      ∀ callback' ∈ entry.2, callback' ≠ callback) (by
        rw [Keeps, ← forall_client fun _ callback' => callback' ≠ callback]
        exact imp_congr_right fun _ =>
          ⟨fun h k hk => h k _ hk rfl, fun h k _ hk heq => h k (heq ▸ hk)⟩)
  | .removeCallback (some callback) =>
    inferInstanceAs (Decidable (∀ notice ∈ p.1.notices, notice.1 ≠ callback))
  | .eventNotify _ =>
    decidable_of_iff (∀ entry ∈ p.1.mCallbackClients.toList, ∀ callback ∈ entry.2,
      callback ∉ p.1.dead → entry.1 < p.1.mCallbackClients.size) (by
        rw [Keeps, ← forall_client fun k callback =>
          callback ∉ p.1.dead → k < p.1.mCallbackClients.size])
  | .setCallback none _ | .removeCallback none | .die _ | .serviceDied _ | .displayNotify _ =>
    instDecidableTrue

/-! ## The map and the registry -/

/-- The entries, the links and the notices of a server that keeps the registry. -/
structure Agrees (client : ℕ → Option C) (links notices : List (C × ℕ)) (dead : List C)
    (r : Registry C E) : Prop where
  dead_iff : ∀ callback, callback ∈ r.dead ↔ callback ∈ dead
  registered_iff : ∀ callback, callback ∈ r.registered ↔
    callback ∉ dead ∧ ∃ k, client k = some callback
  distinct : ∀ k k' callback, callback ∉ dead → client k = some callback →
    client k' = some callback → k = k'
  links_keys : (links.map Prod.fst).Nodup
  live_links : ∀ link ∈ links, link.1 ∉ dead ∧ client link.2 = some link.1
  notices_nodup : notices.Nodup
  dead_notices : ∀ notice ∈ notices, notice.1 ∈ dead ∧ client notice.2 = some notice.1

namespace Agrees

variable {client client' : ℕ → Option C} {links notices : List (C × ℕ)} {dead : List C}
  {r : Registry C E} {callback : C} {cookie : ℕ}

omit [DecidableEq C] in
theorem create : Agrees (fun _ => none) [] [] [] (Registry.create : Registry C E) where
  dead_iff := by simp [Registry.create]
  registered_iff := by simp [Registry.create]
  distinct := by simp
  links_keys := List.nodup_nil
  live_links := by simp
  notices_nodup := List.nodup_nil
  dead_notices := by simp

/-- A callback is entered where there was none. -/
theorem set (h : Agrees client links notices dead r) (hfree : client cookie = none)
    (hnew : callback ∉ dead → ∀ k, client k ≠ some callback)
    (hclient : client' cookie = some callback) (hother : ∀ k, k ≠ cookie → client' k = client k)
    (links' : List (C × ℕ))
    (hlinks : links' = links ∨ callback ∉ dead ∧ links' = links ++ [(callback, cookie)])
    (linkSuccess : Bool) :
    Agrees client' links' notices dead (r.step (.setCallback (some callback) linkSuccess)) := by
  have hkeep : ∀ k callback', client k = some callback' → client' k = some callback' := by
    intro k callback' hk
    rw [hother k fun heq => by rw [heq, hfree] at hk; exact absurd hk (by simp), hk]
  have hback : ∀ k callback', client' k = some callback' →
      (k = cookie ∧ callback' = callback) ∨ client k = some callback' := by
    intro k callback' hk
    by_cases heq : k = cookie
    · rw [heq, hclient] at hk
      exact Or.inl ⟨heq, (Option.some_inj.mp hk).symm⟩
    · exact Or.inr ((hother k heq).symm.trans hk)
  have hold : ∀ link ∈ links, link.1 ∉ dead ∧ client' link.2 = some link.1 :=
    fun link hlink => ⟨(h.live_links link hlink).1, hkeep _ _ (h.live_links link hlink).2⟩
  refine ⟨?_, ?_, ?_, ?_, ?_, h.notices_nodup, ?_⟩
  · intro callback'
    rw [Registry.step]
    split
    · exact h.dead_iff callback'
    · exact h.dead_iff callback'
  · intro callback'
    rw [Registry.mem_setCallback, h.registered_iff, h.dead_iff]
    constructor
    · rintro (⟨rfl, hlive⟩ | ⟨hlive, k, hk⟩)
      · exact ⟨hlive, cookie, hclient⟩
      · exact ⟨hlive, k, hkeep k _ hk⟩
    · rintro ⟨hlive, k, hk⟩
      rcases hback k callback' hk with ⟨-, rfl⟩ | hk
      · exact Or.inl ⟨rfl, hlive⟩
      · exact Or.inr ⟨hlive, k, hk⟩
  · intro k k' callback' hlive hk hk'
    rcases hback k callback' hk with ⟨rfl, rfl⟩ | hk
    · rcases hback k' callback' hk' with ⟨rfl, -⟩ | hk'
      · rfl
      · exact absurd hk' (hnew hlive k')
    · rcases hback k' callback' hk' with ⟨rfl, rfl⟩ | hk'
      · exact absurd hk (hnew hlive k)
      · exact h.distinct k k' callback' hlive hk hk'
  · rcases hlinks with rfl | ⟨hlive, rfl⟩
    · exact h.links_keys
    · rw [List.map_append, List.nodup_append]
      refine ⟨h.links_keys, List.nodup_singleton _, fun c hc c' hc' => ?_⟩
      obtain ⟨link, hlink, rfl⟩ := List.mem_map.mp hc
      rw [List.map_singleton, List.mem_singleton] at hc'
      rintro rfl
      exact hnew hlive link.2 (by rw [(h.live_links link hlink).2, hc'])
  · rcases hlinks with rfl | ⟨hlive, rfl⟩
    · exact hold
    · intro link hlink
      rcases List.mem_append.mp hlink with hlink | hlink
      · exact hold link hlink
      · rw [List.mem_singleton.mp hlink]
        exact ⟨hlive, hclient⟩
  · exact fun notice hnotice =>
      ⟨(h.dead_notices notice hnotice).1, hkeep _ _ (h.dead_notices notice hnotice).2⟩

/-- The entry of a callback is erased, and its link with it. -/
theorem remove (h : Agrees client links notices dead r) (hcookie : client cookie = some callback)
    (hnone : ∀ notice ∈ notices, notice.1 ≠ callback) (hclient : client' cookie = none)
    (hother : ∀ k, k ≠ cookie → client' k = client k) :
    Agrees client' (Keyed.remove Prod.fst links callback) notices dead
      (r.step (.removeCallback (some callback))) := by
  have hback : ∀ k callback', client' k = some callback' →
      k ≠ cookie ∧ client k = some callback' := by
    intro k callback' hk
    have hne : k ≠ cookie := by
      rintro rfl
      rw [hclient] at hk
      exact absurd hk (by simp)
    exact ⟨hne, (hother k hne).symm.trans hk⟩
  have hkeep : ∀ k callback', callback' ≠ callback → client k = some callback' →
      client' k = some callback' := by
    intro k callback' hne hk
    rw [hother k, hk]
    rintro rfl
    rw [hcookie, Option.some_inj] at hk
    exact hne hk.symm
  refine ⟨h.dead_iff, ?_, ?_, Keyed.nodup_remove h.links_keys, ?_, h.notices_nodup, ?_⟩
  · intro callback'
    rw [Registry.step, Finset.mem_erase, h.registered_iff]
    constructor
    · rintro ⟨hne, hlive, k, hk⟩
      exact ⟨hlive, k, hkeep k callback' hne hk⟩
    · rintro ⟨hlive, k, hk⟩
      obtain ⟨hne, hk⟩ := hback k callback' hk
      refine ⟨?_, hlive, k, hk⟩
      rintro rfl
      exact hne (h.distinct k cookie callback' hlive hk hcookie)
  · exact fun k k' callback' hlive hk hk' =>
      h.distinct k k' callback' hlive (hback k _ hk).2 (hback k' _ hk').2
  · intro link hlink
    have hmem := Keyed.mem_of_mem_remove hlink
    refine ⟨(h.live_links link hmem).1, hkeep _ _ ?_ (h.live_links link hmem).2⟩
    exact Keyed.get_eq_none_iff.mp (Keyed.get_remove_self h.links_keys) link hlink
  · exact fun notice hnotice => ⟨(h.dead_notices notice hnotice).1,
      hkeep _ _ (hnone notice hnotice) (h.dead_notices notice hnotice).2⟩

/-- A callback without an entry is removed. -/
theorem remove_absent (h : Agrees client links notices dead r)
    (habsent : ∀ k, client k ≠ some callback) :
    Agrees client links notices dead (r.step (.removeCallback (some callback))) := by
  refine ⟨h.dead_iff, fun callback' => ?_, h.distinct, h.links_keys, h.live_links, h.notices_nodup,
    h.dead_notices⟩
  rw [Registry.step, Finset.mem_erase, h.registered_iff]
  constructor
  · exact And.right
  · rintro ⟨hlive, k, hk⟩
    exact ⟨fun heq => habsent k (heq ▸ hk), hlive, k, hk⟩

/-- A living callback dies, and its link becomes a notice. -/
theorem die (h : Agrees client links notices dead r) (callback : C) :
    Agrees client (links.filter fun link => link.1 ≠ callback)
      (notices ++ links.filter fun link => link.1 = callback) (callback :: dead)
      (r.step (.die callback)) := by
  refine ⟨?_, ?_, ?_, ?_, ?_, ?_, ?_⟩
  · intro callback'
    rw [Registry.step, Finset.mem_insert, List.mem_cons, h.dead_iff]
  · intro callback'
    rw [Registry.step, Finset.mem_erase, h.registered_iff, List.mem_cons, not_or, and_assoc]
  · exact fun k k' callback' hlive' => h.distinct k k' callback'
      fun hmem => hlive' (List.mem_cons_of_mem _ hmem)
  · exact h.links_keys.sublist (List.filter_sublist.map Prod.fst)
  · intro link hlink
    obtain ⟨hmem, hne⟩ := List.mem_filter.mp hlink
    refine ⟨fun hdead => ?_, (h.live_links link hmem).2⟩
    rcases List.mem_cons.mp hdead with heq | hdead
    · exact absurd heq (by simpa using hne)
    · exact (h.live_links link hmem).1 hdead
  · rw [List.nodup_append]
    refine ⟨h.notices_nodup, (h.links_keys.of_map _).filter _, ?_⟩
    rintro notice hnotice link hlink rfl
    exact (h.live_links notice (List.mem_filter.mp hlink).1).1 (h.dead_notices notice hnotice).1
  · intro notice hnotice
    rcases List.mem_append.mp hnotice with hnotice | hlink
    · obtain ⟨hdead, hentry⟩ := h.dead_notices notice hnotice
      exact ⟨List.mem_cons_of_mem _ hdead, hentry⟩
    · obtain ⟨hmem, heq⟩ := List.mem_filter.mp hlink
      have heq : notice.1 = callback := by simpa using heq
      exact ⟨by rw [heq]; exact List.mem_cons_self, (h.live_links notice hmem).2⟩

/-- A dead callback dies. -/
theorem die_dead (h : Agrees client links notices dead r) (hdead : callback ∈ dead) :
    Agrees client links notices dead (r.step (.die callback)) := by
  refine ⟨fun callback' => ?_, fun callback' => ?_, h.distinct, h.links_keys, h.live_links,
    h.notices_nodup, h.dead_notices⟩
  · rw [Registry.step, Finset.mem_insert, h.dead_iff]
    exact or_iff_right_of_imp fun heq => heq ▸ hdead
  · rw [Registry.step, Finset.mem_erase, h.registered_iff]
    exact and_iff_right_of_imp fun hlive heq => hlive.1 (heq ▸ hdead)

/-- A notice comes in, and the callback of its entry is dropped. -/
theorem serviceDied (h : Agrees client links notices dead r) {notice : C × ℕ}
    (hnotice : notice ∈ notices) (hclient : client' notice.2 = none)
    (hother : ∀ k, k ≠ notice.2 → client' k = client k) :
    Agrees client' (Keyed.remove Prod.fst links notice.1) (notices.erase notice) dead
      (r.step (.serviceDied notice)) := by
  obtain ⟨hdead, hentry⟩ := h.dead_notices notice hnotice
  have hback : ∀ k callback', client' k = some callback' → client k = some callback' := by
    intro k callback' hk
    rw [← hother k, hk]
    rintro rfl
    rw [hclient] at hk
    exact absurd hk (by simp)
  have hkeep : ∀ k callback', callback' ≠ notice.1 → client k = some callback' →
      client' k = some callback' := by
    intro k callback' hne hk
    rw [hother k, hk]
    rintro rfl
    rw [hentry, Option.some_inj] at hk
    exact hne hk.symm
  refine ⟨h.dead_iff, ?_, ?_, Keyed.nodup_remove h.links_keys, ?_, h.notices_nodup.erase _, ?_⟩
  · intro callback'
    rw [Registry.step, h.registered_iff]
    refine and_congr_right fun hlive => exists_congr fun k =>
      ⟨hkeep k callback' ?_, hback k callback'⟩
    rintro rfl
    exact hlive hdead
  · exact fun k k' callback' hlive hk hk' =>
      h.distinct k k' callback' hlive (hback k _ hk) (hback k' _ hk')
  · intro link hlink
    have hmem := Keyed.mem_of_mem_remove hlink
    refine ⟨(h.live_links link hmem).1, hkeep _ _ ?_ (h.live_links link hmem).2⟩
    intro heq
    exact (h.live_links link hmem).1 (heq ▸ hdead)
  · intro notice' hnotice'
    obtain ⟨hne, hmem⟩ := h.notices_nodup.mem_erase_iff.mp hnotice'
    obtain ⟨hdead', hentry'⟩ := h.dead_notices notice' hmem
    refine ⟨hdead', ?_⟩
    rw [hother notice'.2, hentry']
    intro heq
    rw [heq, hentry, Option.some_inj] at hentry'
    exact hne (Prod.ext hentry'.symm heq)

end Agrees

/-! ## The calls -/

namespace Registered

/-- The server keeps the registry, and every event was delivered. -/
structure Good (p : Registered C E) : Prop where
  sound : Sound p
  fallback : p.1.mFallbackCallback = none
  agrees : Agrees p.1.mCallbackClients.client p.1.links p.1.notices p.1.dead p.2

variable {p : Registered C E}

omit [DecidableEq C] in
theorem good_create : Good (create : Registered C E) := by
  refine ⟨⟨rfl, List.Forall₂.nil⟩, rfl, ?_⟩
  have hclient : (Callbacks.create : Callbacks C E).mCallbackClients.client = fun _ => none :=
    funext fun k => client_empty k
  rw [create, hclient]
  exact Agrees.create

/-- `setCallback` enters the callback where there is none. -/
theorem good_setCallback (h : Good p) {callback : C} {linkSuccess : Bool}
    (hnew : callback ∉ p.1.dead → ∀ k, p.1.mCallbackClients.client k ≠ some callback) :
    Good (p.1.setCallback (some callback) linkSuccess,
      p.2.step (.setCallback (some callback) linkSuccess)) := by
  have hexpected : (p.2.step (.setCallback (some callback) linkSuccess)).expected =
      p.2.expected := by
    rw [Registry.step]
    split <;> rfl
  set search := freeEntry p.1.mCallbackClients.size 0 p.1.mCallbackClients with hsearch
  set cookie := search.1.getD p.1.mCallbackClients.size with hcookie
  have hset := h.agrees.set (client_cookie p.1.mCallbackClients) hnew
    (client_insert_self search.2 cookie (some callback)) (fun k hk => by
      rw [client_insert_of_ne search.2 _ hk.symm, hsearch, client_freeEntry])
  by_cases hlink : linkSuccess = true ∧ callback ∉ p.1.dead
  · have hsome : p.1.setCallback (some callback) linkSuccess = { p.1 with
        mCallbackClients := search.2.insert cookie (some callback)
        links := p.1.links ++ [(callback, cookie)] } := if_pos hlink
    rw [hsome]
    refine ⟨⟨h.sound.1, ?_⟩, h.fallback, hset _ (Or.inr ⟨hlink.2, rfl⟩) linkSuccess⟩
    rw [hexpected]
    exact h.sound.2
  · have hsome : p.1.setCallback (some callback) linkSuccess = { p.1 with
        mCallbackClients := search.2.insert cookie (some callback) } := if_neg hlink
    rw [hsome]
    refine ⟨⟨h.sound.1, ?_⟩, h.fallback, hset _ (Or.inl rfl) linkSuccess⟩
    rw [hexpected]
    exact h.sound.2

theorem good_removeCallback (h : Good p) {callback : C}
    (hnone : ∀ notice ∈ p.1.notices, notice.1 ≠ callback) :
    Good (p.1.removeCallback (some callback), p.2.step (.removeCallback (some callback))) := by
  have hsound := h.sound
  rw [Callbacks.removeCallback, h.fallback]
  dsimp only
  rw [if_neg (by simp)]
  cases hentry : Callbacks.entryOf p.1.mCallbackClients callback with
  | none =>
    refine ⟨hsound, h.fallback, h.agrees.remove_absent fun k hk => ?_⟩
    have hmem := mem_toList_iff.mpr hk
    have hno := List.find?_eq_none.mp hentry _ hmem
    exact hno (by simp)
  | some entry =>
    obtain ⟨cookie, v⟩ := entry
    have hmem := List.mem_of_find?_eq_some hentry
    have hv : v = some callback := by simpa using List.find?_some hentry
    rw [hv, mem_toList_iff] at hmem
    exact ⟨hsound, h.fallback, h.agrees.remove hmem hnone (client_erase_self _ _)
      fun k hk => client_erase_of_ne _ hk.symm⟩

theorem good_die (h : Good p) (callback : C) :
    Good (if callback ∈ p.1.dead then p.1 else p.1.die callback, p.2.step (.die callback)) := by
  by_cases hdead : callback ∈ p.1.dead
  · rw [if_pos hdead]
    exact ⟨h.sound, h.fallback, h.agrees.die_dead hdead⟩
  · rw [if_neg hdead]
    exact ⟨h.sound, h.fallback, h.agrees.die callback⟩

theorem good_serviceDied (h : Good p) {notice : C × ℕ} (hnotice : notice ∈ p.1.notices) :
    Good (p.1.serviceDied notice, p.2.step (.serviceDied notice)) := by
  have hentry := (h.agrees.dead_notices notice hnotice).2
  rw [Callbacks.serviceDied, Callbacks.handleServiceDeath]
  dsimp only
  rw [hentry]
  refine ⟨h.sound, h.fallback, h.agrees.serviceDied hnotice (client_insert_self _ _ _) ?_⟩
  intro k hk
  exact (client_insert_of_ne _ _ hk.symm).trans (client_touch _ _ _)

/-- A loop that comes past the cookies of the living callbacks delivers the event. -/
theorem delivered_of_loop (h : Good p) (event : E) {n : ℕ}
    (hn : ∀ k callback, p.1.mCallbackClients.client k = some callback → callback ∉ p.1.dead →
      k < n) :
    Delivered (event, ((List.range' 0 n).filterMap p.1.mCallbackClients.client).filter
      fun callback => callback ∉ p.1.dead) (event, p.2.registered) := by
  have hmem : ∀ k callback, callback ∈ (p.1.mCallbackClients.client k).filter
      (fun callback => decide (callback ∉ p.1.dead)) ↔
        p.1.mCallbackClients.client k = some callback ∧ callback ∉ p.1.dead := by
    intro k callback
    rw [Option.mem_filter_iff, Option.mem_def, decide_eq_true_iff]
  refine ⟨rfl, ?_, fun callback => ?_⟩
  · dsimp only
    rw [List.filter_filterMap]
    refine List.Nodup.filterMap (fun k k' callback hk hk' => ?_) List.nodup_range'
    obtain ⟨hk, hlive⟩ := (hmem k callback).mp hk
    exact h.agrees.distinct k k' callback hlive hk ((hmem k' callback).mp hk').1
  · dsimp only
    rw [List.filter_filterMap, List.mem_filterMap, h.agrees.registered_iff]
    constructor
    · rintro ⟨k, -, hk⟩
      obtain ⟨hk, hlive⟩ := (hmem k callback).mp hk
      exact ⟨hlive, k, hk⟩
    · rintro ⟨hlive, k, hk⟩
      refine ⟨k, ?_, (hmem k callback).mpr ⟨hk, hlive⟩⟩
      exact List.mem_range'_1.mpr ⟨Nat.zero_le k, by have := hn k callback hk hlive; omega⟩

/-- An event that was delivered. -/
theorem good_reach (h : Good p) {event : E} {callbacks : List C} {m : CallbackClients C}
    (hclient : ∀ k, m.client k = p.1.mCallbackClients.client k) {r : Registry C E}
    (hr : r = { p.2 with expected := p.2.expected ++ [(event, p.2.registered)] })
    (hevent : Delivered (event, callbacks.filter fun callback => callback ∉ p.1.dead)
      (event, p.2.registered)) :
    Good (Callbacks.reach { p.1 with mCallbackClients := m } event callbacks, r) := by
  have hsame : m.client = p.1.mCallbackClients.client := funext hclient
  rw [hr]
  refine ⟨⟨h.sound.1, ?_⟩, h.fallback, ?_⟩
  · exact List.rel_append h.sound.2 (List.Forall₂.cons hevent List.Forall₂.nil)
  · rw [Callbacks.reach]
    dsimp only
    rw [hsame]
    exact ⟨h.agrees.dead_iff, h.agrees.registered_iff, h.agrees.distinct, h.agrees.links_keys,
      h.agrees.live_links, h.agrees.notices_nodup, h.agrees.dead_notices⟩

/-- **The display loop.**  It needs no condition. -/
theorem good_displayNotify (h : Good p) (event : E) :
    Good (p.1.sendSubtitleDisplayNotify event, p.2.step (.displayNotify event)) := by
  have hspec := displayLoop_spec (m := p.1.mCallbackClients) p.1.mCallbackClients.bound 0
    (fun j hj => absurd hj (Nat.not_lt_zero j))
    (fun k hk => by rw [Nat.zero_add]; exact lt_bound hk)
  have hsend : p.1.sendSubtitleDisplayNotify event = Callbacks.reach { p.1 with
      mCallbackClients := (displayLoop p.1.mCallbackClients.bound 0 p.1.mCallbackClients).2 }
      event (displayLoop p.1.mCallbackClients.bound 0 p.1.mCallbackClients).1 := by
    unfold Callbacks.sendSubtitleDisplayNotify
    split
    · rename_i hfallback
      rw [h.fallback] at hfallback
      exact absurd hfallback (by simp)
    · rfl
  rw [hsend, hspec.1]
  exact good_reach h hspec.2 rfl (delivered_of_loop h event fun k callback hk _ =>
    lt_bound (mem_of_client hk))

/-- What `sendSubtitleEventNotify` does without a fallback callback. -/
theorem sendSubtitleEventNotify_eq (h : Good p) (event : E) :
    ∃ m : CallbackClients C, p.1.sendSubtitleEventNotify event =
      Callbacks.reach { p.1 with mCallbackClients := m } event
        ((List.range' 0 p.1.mCallbackClients.size).filterMap p.1.mCallbackClients.client) ∧
      ∀ k, m.client k = p.1.mCallbackClients.client k := by
  have hcheck := hasEventClient_spec p.1.mCallbackClients.size 0 p.1.mCallbackClients
  have hfallback : (if p.1.mFallbackPlayStarted then p.1.mFallbackCallback.toList else []) =
      [] := by
    rw [h.fallback]
    split <;> rfl
  unfold Callbacks.sendSubtitleEventNotify
  rw [hfallback]
  cases hany : (hasEventClient p.1.mCallbackClients.size 0 p.1.mCallbackClients).1 with
  | true =>
    have hloop := eventLoop_spec p.1.mCallbackClients.size 0
      (hasEventClient p.1.mCallbackClients.size 0 p.1.mCallbackClients).2
    refine ⟨_, ?_, fun k => (hloop.2 k).trans (hcheck.2 k)⟩
    dsimp only
    rw [hany, if_pos rfl, List.nil_append, hloop.1, funext hcheck.2]
  | false =>
    refine ⟨_, ?_, hcheck.2⟩
    dsimp only
    rw [hany, if_neg Bool.false_ne_true, List.nil_append,
      List.filterMap_eq_nil_iff.mpr (hcheck.1 hany)]

theorem good_eventNotify (h : Good p) {event : E} (hkeeps : Keeps p (.eventNotify event)) :
    Good (p.1.sendSubtitleEventNotify event, p.2.step (.eventNotify event)) := by
  obtain ⟨m, hsend, hclient⟩ := sendSubtitleEventNotify_eq h event
  rw [hsend]
  exact good_reach h hclient rfl (delivered_of_loop h event hkeeps)

/-- **The event loop.**  It needs the cookies of the living callbacks to be smaller than
the number of entries. -/
theorem keeps_of_sound (h : Good p) {event : E}
    (hsound : Sound (p.1.sendSubtitleEventNotify event, p.2.step (.eventNotify event))) :
    Keeps p (.eventNotify event) := by
  obtain ⟨m, hsend, -⟩ := sendSubtitleEventNotify_eq h event
  intro k callback hk hlive
  have hlast := hsound.2
  rw [hsend, Callbacks.reach, Registry.step, ← List.forall₂_reverse_iff, List.reverse_append,
    List.reverse_append] at hlast
  have hevent := (List.forall₂_cons.mp hlast).1
  have hmem := (hevent.2.2 callback).mpr ((h.agrees.registered_iff callback).mpr ⟨hlive, k, hk⟩)
  obtain ⟨k', hk', hsame⟩ := List.mem_filterMap.mp (List.mem_filter.mp hmem).1
  rw [h.agrees.distinct k k' callback hlive hk hsame]
  have := (List.mem_range'_1.mp hk').2
  omega

/-- **One call.** -/
theorem good_step (h : Good p) {call : Call C E} (hkeeps : Keeps p call) : Good (p.step call) := by
  have hrun : p.step call = (p.1.step call, p.2.step call) := rfl
  rw [hrun]
  unfold Callbacks.step
  rw [if_neg (by simp [h.sound.1])]
  cases call with
  | setCallback callback linkSuccess =>
    cases callback with
    | none => exact h
    | some callback => exact good_setCallback h hkeeps
  | removeCallback callback =>
    cases callback with
    | none => exact h
    | some callback => exact good_removeCallback h hkeeps
  | die callback => exact good_die h callback
  | serviceDied notice =>
    dsimp only
    split
    · rename_i hnotice
      exact good_serviceDied h hnotice
    · exact h
  | displayNotify event => exact good_displayNotify h event
  | eventNotify event => exact good_eventNotify h hkeeps

/-- `setCallback` replaces no callback. -/
theorem client_setCallback (s : Callbacks C E) (callback : Option C) (linkSuccess : Bool) {k : ℕ}
    {callback' : C} (hk : s.mCallbackClients.client k = some callback') :
    (s.setCallback callback linkSuccess).mCallbackClients.client k = some callback' := by
  cases callback with
  | none => exact hk
  | some callback =>
    have hmap : (s.setCallback (some callback) linkSuccess).mCallbackClients =
        (freeEntry s.mCallbackClients.size 0 s.mCallbackClients).2.insert
          ((freeEntry s.mCallbackClients.size 0 s.mCallbackClients).1.getD s.mCallbackClients.size)
          (some callback) := by
      unfold Callbacks.setCallback Callbacks.linkToDeath
      dsimp only
      split <;> rfl
    rw [hmap, client_insert_of_ne, client_freeEntry]
    · exact hk
    · intro heq
      rw [← heq, client_cookie] at hk
      exact absurd hk (by simp)

/-- **Runs.**  While no living callback is entered again, none is removed with the notice
of its death under way, and every callback has a cookie below the number of entries when
`sendSubtitleEventNotify` is called, every event reaches the registered callbacks, once
each, and nothing else, and no null pointer is dereferenced.  The last condition is the
exact one for the call, the display loop needs none, and `setCallback` replaces no callback. -/
theorem delivers_run {calls : List (Call C E)} (hkeeps : Run.Meets step Keeps create calls)
    {p : Registered C E} (hp : Run.Reached step create calls p) :
    Sound p ∧
    (∀ event, Sound (p.step (.displayNotify event)) ∧
      (Sound (p.step (.eventNotify event)) ↔ Keeps p (.eventNotify event))) ∧
    ∀ callback linkSuccess k callback', p.1.mCallbackClients.client k = some callback' →
      (p.step (.setCallback callback linkSuccess)).1.mCallbackClients.client k =
        some callback' := by
  have h : Good p := Run.invariant_of_meets (I := Good) (C := Keeps)
    (fun q call hq hcall => good_step hq hcall) good_create hkeeps hp
  have hlive : ∀ call, (p.step call).1 = p.1.step call := fun call => rfl
  have hdisplay : ∀ event, Keeps p (.displayNotify event) := fun _ => trivial
  refine ⟨h.sound, fun event => ⟨(good_step h (hdisplay event)).sound, ?_, ?_⟩, ?_⟩
  · intro hsound
    refine keeps_of_sound h ?_
    have hrun : p.step (.eventNotify event) =
        (p.1.sendSubtitleEventNotify event, p.2.step (.eventNotify event)) := by
      rw [step]
      unfold Callbacks.step
      rw [if_neg (by simp [h.sound.1])]
    rwa [hrun] at hsound
  · exact fun hcall => (good_step h hcall).sound
  · intro callback linkSuccess k callback' hk
    rw [hlive]
    unfold Callbacks.step
    rw [if_neg (by simp [h.sound.1])]
    exact client_setCallback p.1 callback linkSuccess hk

/-- The first of two callbacks dies, and a third takes its entry. -/
theorem delivers_run_death :
    Sound ([.setCallback (some 7) true, .setCallback (some 8) true, .eventNotify 1, .die 7,
      .displayNotify 2, .serviceDied (7, 0), .setCallback (some 9) true, .eventNotify 3].foldl step
        (create : Registered ℕ ℕ)) := by
  have hkeeps : Run.Meets step Keeps (create : Registered ℕ ℕ)
      [.setCallback (some 7) true, .setCallback (some 8) true, .eventNotify 1, .die 7,
        .displayNotify 2, .serviceDied (7, 0), .setCallback (some 9) true, .eventNotify 3] :=
    ⟨by decide, by decide, by decide, trivial, trivial, trivial, by decide, by decide, trivial⟩
  exact (delivers_run hkeeps (Run.reached_last _ _)).1

/-- The first of two callbacks is removed, and an event misses the second. -/
theorem not_sound_gap :
    ¬ Sound ([.setCallback (some 7) true, .setCallback (some 8) true, .removeCallback (some 7),
      .eventNotify 1].foldl step (create : Registered ℕ ℕ)) := by
  rintro ⟨-, hall⟩
  have hdelivered : ([.setCallback (some 7) true, .setCallback (some 8) true,
      .removeCallback (some 7), .eventNotify 1].foldl step
        (create : Registered ℕ ℕ)).1.delivered = [(1, [])] := by decide
  have hexpected : ([.setCallback (some 7) true, .setCallback (some 8) true,
      .removeCallback (some 7), .eventNotify 1].foldl step
        (create : Registered ℕ ℕ)).2.expected = [(1, {8})] := by decide
  rw [hdelivered, hexpected] at hall
  have hevent := (List.forall₂_cons.mp hall).1
  exact absurd ((hevent.2.2 8).mpr (Finset.mem_singleton_self 8)) List.not_mem_nil

end Registered

end SubtitleServer
end AmlSubtitle
