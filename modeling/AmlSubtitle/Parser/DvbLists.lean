import AmlSubtitle.Parser.DvbParser

/-!
# The display lists of the DVB context

Every object display is on two lists at once, its region's and its object's.  Both
kinds of list are edited by the parsers of the page and region segments, and a node
is freed from the region's side.

`Linked ctx head` says that the region lists starting at `head` and the object lists
of the context partition the live displays by region and by object (`Thread.Threads`),
and that an object without displays is not kept.  It is stated for any `head`, since
in the middle of `deleteRegions` and `deleteRegionDisplayList` the region's list starts
at a local variable.

* `Linked.deletePass` is one pass of `deleteRegionDisplayList`, `Linked.deleteList` the
  whole loop, `Linked.deleteRegionsLoop` the loop over the regions.
* `Consistent` adds that the region ids are distinct and that the lists start at the
  regions.  `consistent_exec`: every event preserves it, and no step follows a dangling
  pointer.
* `ListConsistency` spells the lists out region by region and object by object, and
  `lists_consistent_run` is the result for every run.
-/

namespace AmlSubtitle
namespace Dvb

open DVBSubContext Thread

/-- The display lists of the objects of `ctx` and those starting at `head` hold the live
displays, each on the list of its object and on the list of its region. -/
structure Linked (ctx : DVBSubContext) (head : ℕ → Option ℕ) : Prop where
  objectIds : (ctx.objectList.map DVBSubObject.id).Nodup
  regions : Threads DVBSubObjectDisplay.regionListNext DVBSubObjectDisplay.regionId ctx.displays
    head
  objects : Threads DVBSubObjectDisplay.objectListNext DVBSubObjectDisplay.objectId ctx.displays
    ctx.objectHead
  nonempty : ∀ object ∈ ctx.objectList, object.displayList ≠ none
  fresh : ∀ p, ctx.nextPtr ≤ p → ctx.displays p = none
  live : ctx.dangling = false

/-- `Linked` from the region list, whose ids are distinct. -/
structure Consistent (ctx : DVBSubContext) : Prop where
  regionIds : (ctx.regionList.map DVBSubRegion.id).Nodup
  linked : Linked ctx ctx.regionHead

/-! ## Heads of lists -/

/-- The first displays of some regions. -/
def regionHeads (regions : List DVBSubRegion) (k : ℕ) : Option ℕ :=
  (Keyed.get DVBSubRegion.id regions k).bind DVBSubRegion.displayList

/-- The first displays of some objects. -/
def objectHeads (objects : List DVBSubObject) (k : ℕ) : Option ℕ :=
  (Keyed.get DVBSubObject.id objects k).bind DVBSubObject.displayList

theorem objectHead_modifyObject (ctx : DVBSubContext) {objectId : ℕ}
    {f : DVBSubObject → DVBSubObject}
    (hid : ∀ object, object.id = objectId → (f object).id = objectId) {k : ℕ} :
    (ctx.modifyObject objectId f).objectHead k =
      if k = objectId then ((ctx.getObject objectId).map f).bind DVBSubObject.displayList
      else ctx.objectHead k := by
  unfold objectHead getObject modifyObject
  by_cases hk : k = objectId
  · rw [if_pos hk, hk, Keyed.get_modify_self hid]
  · rw [if_neg hk, Keyed.get_modify_of_ne hid hk]

theorem regionHead_modifyRegion (ctx : DVBSubContext) {regionId : ℕ}
    {f : DVBSubRegion → DVBSubRegion}
    (hid : ∀ region, region.id = regionId → (f region).id = regionId) {k : ℕ} :
    (ctx.modifyRegion regionId f).regionHead k =
      if k = regionId then ((ctx.getRegion regionId).map f).bind DVBSubRegion.displayList
      else ctx.regionHead k := by
  unfold regionHead getRegion modifyRegion
  by_cases hk : k = regionId
  · rw [if_pos hk, hk, Keyed.get_modify_self hid]
  · rw [if_neg hk, Keyed.get_modify_of_ne hid hk]

/-- An object with a display is on the object list. -/
theorem getObject_of_objectHead {ctx : DVBSubContext} {objectId p : ℕ}
    (h : ctx.objectHead objectId = some p) :
    ∃ object, ctx.getObject objectId = some object ∧ object.displayList = some p :=
  Option.bind_eq_some_iff.mp h

/-- Dropping an emptied object changes no list, and leaves no object without displays. -/
theorem dropEmptyObject_spec (ctx : DVBSubContext) (objectId : ℕ)
    (hids : (ctx.objectList.map DVBSubObject.id).Nodup)
    (hne : ∀ object ∈ ctx.objectList, object.id ≠ objectId → object.displayList ≠ none) :
    ∃ objects, ctx.dropEmptyObject objectId = { ctx with objectList := objects } ∧
      (objects.map DVBSubObject.id).Nodup ∧
      objectHeads objects = ctx.objectHead ∧
      ∀ object ∈ objects, object.displayList ≠ none := by
  have hself : ∀ object ∈ ctx.objectList, object.id = objectId →
      ctx.getObject objectId = some object := by
    rintro object hmem rfl
    exact Keyed.get_of_mem hids hmem
  rw [dropEmptyObject]
  cases hobject : ctx.getObject objectId with
  | none =>
    refine ⟨ctx.objectList, rfl, hids, rfl, fun object hmem => hne object hmem fun hid => ?_⟩
    rw [hself object hmem hid] at hobject
    cases hobject
  | some object =>
    dsimp only
    split
    · rename_i hempty
      refine ⟨_, rfl, Keyed.nodup_remove hids, ?_, ?_⟩
      · funext k
        unfold objectHeads objectHead getObject
        by_cases hk : k = objectId
        · have hget : Keyed.get DVBSubObject.id ctx.objectList k = some object := by
            rw [hk]
            exact hobject
          rw [hget, hk, Keyed.get_remove_self hids, Option.bind_none, Option.bind_some,
            Option.isNone_iff_eq_none.mp hempty]
        · rw [Keyed.get_remove_of_ne hk]
      · intro object' hmem
        refine hne object' (Keyed.mem_of_mem_remove hmem) ?_
        exact Keyed.get_eq_none_iff.mp (Keyed.get_remove_self hids) object' hmem
    · rename_i hempty
      refine ⟨ctx.objectList, rfl, hids, rfl, fun object' hmem => ?_⟩
      by_cases hid : object'.id = objectId
      · rw [hself object' hmem hid, Option.some_inj] at hobject
        rw [hobject]
        intro hnone
        exact hempty (by rw [hnone]; rfl)
      · exact hne object' hmem hid

theorem dropEmptyObject_of_nonempty {ctx : DVBSubContext} {objectId : ℕ}
    (hne : ∀ object ∈ ctx.objectList, object.displayList ≠ none) :
    ctx.dropEmptyObject objectId = ctx := by
  rw [dropEmptyObject]
  cases hobject : ctx.getObject objectId with
  | none => rfl
  | some object =>
    dsimp only
    rw [if_neg]
    rw [Option.isNone_iff_eq_none]
    exact hne object (Keyed.mem_of_get hobject)

namespace Linked

variable {ctx : DVBSubContext} {head : ℕ → Option ℕ}

/-- A list of displays is no longer than the number of allocations. -/
theorem length_le (h : Linked ctx head) {l : List ℕ} (hnodup : l.Nodup)
    (hlive : ∀ p ∈ l, ∃ display, ctx.displays p = some display) : l.length ≤ ctx.nextPtr := by
  have hsub : l ⊆ List.range ctx.nextPtr := by
    intro p hp
    rw [List.mem_range]
    by_contra hge
    obtain ⟨display, hdisplay⟩ := hlive p hp
    rw [h.fresh p (not_lt.mp hge)] at hdisplay
    cases hdisplay
  have hle := (List.subperm_of_subset hnodup hsub).length_le
  rwa [List.length_range] at hle

/-! ## Deleting displays -/

/-- The object of a live display, its list, and where the walk along it finds the
display. -/
theorem find_display (h : Linked ctx head) {p : ℕ} {display : DVBSubObjectDisplay}
    (hp : ctx.displays p = some display) :
    ∃ object pre post, ctx.getObject display.objectId = some object ∧
      Chain DVBSubObjectDisplay.objectListNext ctx.displays object.displayList
        (pre ++ p :: post) ∧
      findLink DVBSubObjectDisplay.objectListNext ctx.displays p ctx.nextPtr .head
        object.displayList = .found (linkAfter .head pre) := by
  obtain ⟨l, hl, hnodup, hmem⟩ := h.objects display.objectId
  have hpl : p ∈ l := (hmem p).mpr ⟨display, hp, rfl⟩
  have hlen : l.length ≤ ctx.nextPtr := h.length_le hnodup fun q hq => hl.live hq
  obtain ⟨pre, post, rfl, hfind⟩ := findLink_of_mem hl hpl hlen .head
  cases hhead : ctx.objectHead display.objectId with
  | none =>
    rw [hhead] at hl
    have hnil := hl.eq_nil
    simp at hnil
  | some q =>
    obtain ⟨object, hobject, hlist⟩ := getObject_of_objectHead hhead
    rw [hhead, ← hlist] at hl hfind
    exact ⟨object, pre, post, hobject, hl, hfind⟩

/-- A pass where the display is first on its object's list. -/
theorem deletePass_head (h : Linked ctx head) {p : ℕ} {display : DVBSubObjectDisplay}
    (hp : ctx.displays p = some display) (hr : head display.regionId = some p)
    (hfirst : ctx.objectHead display.objectId = some p) :
    ∃ objects, (ctx.writeLink display.objectId display.objectListNext .head).dropEmptyObject
        display.objectId = { ctx with objectList := objects } ∧
      Linked { ctx with
          objectList := objects
          displays := Function.update ctx.displays p none }
        (Function.update head display.regionId display.regionListNext) := by
  obtain ⟨object, hobject, _⟩ := getObject_of_objectHead hfirst
  have hwritten : (ctx.writeLink display.objectId display.objectListNext .head).objectHead =
      Function.update ctx.objectHead display.objectId display.objectListNext := by
    funext k
    rw [writeLink, objectHead_modifyObject ctx (by exact fun _ hid => hid), hobject,
      Function.update_apply]
    rfl
  obtain ⟨objects, heq, hids, hheads, hne⟩ := dropEmptyObject_spec
    (ctx.writeLink display.objectId display.objectListNext .head) display.objectId
    (by
      rw [writeLink, modifyObject, Keyed.keys_modify (by exact fun _ hid => hid)]
      exact h.objectIds)
    (fun object' hmem hne => by
      rcases Keyed.mem_modify hmem with hmem | ⟨object'', hget, rfl⟩
      · exact h.nonempty object' hmem
      · exact absurd (Keyed.key_of_get hget) hne)
  refine ⟨objects, heq, hids, h.regions.unlink_head hp hr, ?_, hne, fun q hq => ?_, h.live⟩
  · show Threads _ _ (Function.update ctx.displays p none) (objectHeads objects)
    rw [hheads, hwritten]
    exact h.objects.unlink_head hp hfirst
  · show Function.update ctx.displays p none q = none
    rw [Function.update_apply, h.fresh q hq, ite_self]

/-- A pass where the display comes after another one on its object's list. -/
theorem deletePass_after (h : Linked ctx head) {p a : ℕ} {display : DVBSubObjectDisplay}
    {pre post : List ℕ} (hp : ctx.displays p = some display)
    (hr : head display.regionId = some p)
    (hl : Chain DVBSubObjectDisplay.objectListNext ctx.displays
      (ctx.objectHead display.objectId) (pre ++ a :: p :: post)) :
    ∃ display', ctx.displays a = some display' ∧
      (ctx.writeLink display.objectId display.objectListNext (.after a)).dropEmptyObject
          display.objectId =
        { ctx with
          displays := Function.update ctx.displays a
            (some { display' with objectListNext := display.objectListNext }) } ∧
      Linked { ctx with
          displays := Function.update (Function.update ctx.displays a
            (some { display' with objectListNext := display.objectListNext })) p none }
        (Function.update head display.regionId display.regionListNext) := by
  obtain ⟨display', ha⟩ := hl.live (p := a) (by simp)
  have hap : p ≠ a := by
    rintro rfl
    have hnodup := (List.nodup_append.mp (h.objects.nodup hl)).2.1
    rw [List.nodup_cons] at hnodup
    exact hnodup.1 List.mem_cons_self
  refine ⟨display', ha, ?_, h.objectIds, ?_, ?_, h.nonempty, fun q hq => ?_, h.live⟩
  · rw [dropEmptyObject_of_nonempty (by exact h.nonempty), writeLink, ha]
    rfl
  · show Threads _ _ (Function.update (Function.update ctx.displays a _) p none) _
    have hcongr : Threads DVBSubObjectDisplay.regionListNext DVBSubObjectDisplay.regionId
        (Function.update ctx.displays a
          (some { display' with objectListNext := display.objectListNext })) head := by
      refine h.regions.congr (fun q => ?_) (fun q => ?_)
      · by_cases hq : q = a
        · rw [hq, Function.update_self, ha]
          rfl
        · rw [Function.update_of_ne hq]
      · by_cases hq : q = a
        · rw [hq, Function.update_self, ha]
          rfl
        · rw [Function.update_of_ne hq]
    exact hcongr.unlink_head (by rw [Function.update_of_ne hap, hp]) hr
  · exact h.objects.unlink_after hp ha hl rfl rfl
  · show Function.update (Function.update ctx.displays a _) p none q = none
    have hqa : q ≠ a := by
      rintro rfl
      rw [h.fresh q hq] at ha
      cases ha
    rw [Function.update_apply, Function.update_of_ne hqa, h.fresh q hq, ite_self]

/-- **One pass of `deleteRegionDisplayList`**: the first display of a region is off both
of its lists and freed. -/
theorem deletePass (h : Linked ctx head) {p : ℕ} {display : DVBSubObjectDisplay}
    (hp : ctx.displays p = some display) (hr : head display.regionId = some p) :
    ∃ objects displays,
      ctx.unlinkFromObject p display =
        { ctx with objectList := objects, displays := displays } ∧
      (∀ q, (displays q).map DVBSubObjectDisplay.regionListNext =
        (ctx.displays q).map DVBSubObjectDisplay.regionListNext) ∧
      Linked { ctx with
          objectList := objects
          displays := Function.update displays p none }
        (Function.update head display.regionId display.regionListNext) := by
  obtain ⟨object, pre, post, hobject, hl, hfind⟩ := h.find_display hp
  have hhead : ctx.objectHead display.objectId = object.displayList := by
    rw [objectHead, hobject, Option.bind_some]
  rw [unlinkFromObject, hobject]
  dsimp only
  rw [hfind]
  dsimp only
  rcases List.eq_nil_or_concat pre with rfl | ⟨pre, a, rfl⟩
  · rw [List.nil_append] at hl
    obtain ⟨objects, heq, hlinked⟩ := h.deletePass_head hp hr (hhead.trans hl.of_cons.1)
    exact ⟨objects, ctx.displays, heq, fun _ => rfl, hlinked⟩
  · rw [List.concat_eq_append, List.append_assoc, List.singleton_append, ← hhead] at hl
    obtain ⟨display', ha, heq, hlinked⟩ := h.deletePass_after hp hr hl
    have hlink : linkAfter .head (pre.concat a) = .after a := by
      rw [List.concat_eq_append, linkAfter, List.getLast?_append, List.getLast?_singleton]
      rfl
    rw [hlink]
    refine ⟨ctx.objectList, _, heq, fun q => ?_, hlinked⟩
    by_cases hq : q = a
    · rw [hq, Function.update_self, ha]
      rfl
    · rw [Function.update_of_ne hq]

/-- **`deleteRegionDisplayList`** empties the region's list and follows no dangling
pointer. -/
theorem deleteList (h : Linked ctx head) {fuel r : ℕ} {l : List ℕ}
    (hl : Chain DVBSubObjectDisplay.regionListNext ctx.displays (head r) l)
    (hfuel : l.length ≤ fuel) :
    ∃ objects displays,
      deleteRegionDisplayList fuel ctx (head r) =
        { ctx with objectList := objects, displays := displays } ∧
      Linked { ctx with objectList := objects, displays := displays }
        (Function.update head r none) := by
  induction l generalizing ctx head fuel with
  | nil =>
    have hnone := hl.eq_none_iff.mpr rfl
    refine ⟨ctx.objectList, ctx.displays, ?_, ?_⟩
    · rw [hnone, deleteRegionDisplayList]
    · rw [← hnone, Function.update_eq_self]
      exact h
  | cons p l ih =>
    obtain ⟨hr, display, hp, hrest⟩ := hl.of_cons
    obtain ⟨fuel, rfl⟩ : ∃ f, fuel = f + 1 := ⟨fuel - 1, by rw [List.length_cons] at hfuel; omega⟩
    have hid : display.regionId = r := by
      obtain ⟨_, hp', hid⟩ := h.regions.head_live hr
      rwa [Option.some_inj.mp (hp'.symm.trans hp)] at hid
    subst hid
    obtain ⟨objects, displays, heq, hframe, hlinked⟩ := h.deletePass hp hr
    have hpl : p ∉ l := (List.nodup_cons.mp (h.regions.nodup hl)).1
    have hrest' : Chain DVBSubObjectDisplay.regionListNext (Function.update displays p none)
        (Function.update head display.regionId display.regionListNext display.regionId) l := by
      rw [Function.update_self]
      refine hrest.congr fun q hq => ?_
      rw [Function.update_of_ne (ne_of_mem_of_not_mem hq hpl), hframe]
    obtain ⟨objects', displays', heq', hlinked'⟩ := ih hlinked hrest'
      (Nat.le_of_succ_le_succ hfuel)
    refine ⟨objects', displays', ?_, ?_⟩
    · rw [hr, deleteRegionDisplayList, hp]
      dsimp only
      rw [heq]
      rw [Function.update_self] at heq'
      exact heq'
    · rw [Function.update_idem] at hlinked'
      exact hlinked'

/-- With a bound of as many passes as there were allocations. -/
theorem deleteRegionDisplayList (h : Linked ctx head) (r : ℕ) :
    ∃ objects displays,
      ctx.deleteRegionDisplayList ctx.nextPtr (head r) =
        { ctx with objectList := objects, displays := displays } ∧
      Linked { ctx with objectList := objects, displays := displays }
        (Function.update head r none) := by
  obtain ⟨l, hl, hnodup, _⟩ := h.regions r
  exact h.deleteList hl (h.length_le hnodup fun p hp => hl.live hp)

/-! ## Deleting regions -/

/-- The region list does not matter where the heads are given. -/
theorem withRegions (h : Linked ctx head) (regions : List DVBSubRegion) :
    Linked { ctx with regionList := regions } head :=
  ⟨h.objectIds, h.regions, h.objects, h.nonempty, h.fresh, h.live⟩

/-- Without region lists there are no objects. -/
theorem objectList_eq_nil (h : Linked ctx fun _ => none) : ctx.objectList = [] := by
  rcases hobjects : ctx.objectList with _ | ⟨object, rest⟩
  · rfl
  · have hmem : object ∈ ctx.objectList := by rw [hobjects]; exact List.mem_cons_self
    obtain ⟨p, hp⟩ := Option.ne_none_iff_exists'.mp (h.nonempty object hmem)
    have hhead : ctx.objectHead object.id = some p := by
      rw [objectHead, getObject, Keyed.get_of_mem h.objectIds hmem, Option.bind_some, hp]
    obtain ⟨display, hdisplay, _⟩ := h.objects.head_live hhead
    exact absurd rfl (h.regions.key_ne_of_head_none rfl hdisplay)

/-- The loop of `deleteRegions` empties the list of each region. -/
theorem deleteRegionsLoop (regions : List DVBSubRegion) (h : Linked ctx (regionHeads regions))
    (hids : (regions.map DVBSubRegion.id).Nodup) :
    ∃ displays,
      DVBSubContext.deleteRegionsLoop regions ctx =
        { ctx with regionList := [], objectList := [], displays := displays } ∧
      Linked { ctx with regionList := [], objectList := [], displays := displays }
        fun _ => none := by
  induction regions generalizing ctx with
  | nil =>
    have hnil := h.objectList_eq_nil
    refine ⟨ctx.displays, ?_, ?_⟩
    · rw [DVBSubContext.deleteRegionsLoop, ← hnil]
    · rw [← hnil]
      exact h.withRegions []
  | cons region rest ih =>
    rw [List.map_cons, List.nodup_cons] at hids
    have hhead : regionHeads (region :: rest) region.id = region.displayList := by
      rw [regionHeads, Keyed.get_cons, if_pos rfl, Option.bind_some]
    have hrest : Function.update (regionHeads (region :: rest)) region.id none =
        regionHeads rest := by
      funext k
      rw [Function.update_apply]
      by_cases hk : k = region.id
      · rw [if_pos hk, regionHeads, hk, Keyed.get_eq_none_iff.mpr, Option.bind_none]
        intro region' hmem hid
        exact hids.1 (hid ▸ List.mem_map_of_mem hmem)
      · rw [if_neg hk, regionHeads, regionHeads, Keyed.get_cons, if_neg (Ne.symm hk)]
    obtain ⟨objects, displays, heq, hlinked⟩ :=
      (h.withRegions rest).deleteRegionDisplayList region.id
    rw [hrest] at hlinked
    obtain ⟨displays', heq', hlinked'⟩ := ih hlinked hids.2
    refine ⟨displays', ?_, hlinked'⟩
    rw [DVBSubContext.deleteRegionsLoop, ← hhead]
    exact (congrArg _ heq).trans heq'

end Linked

/-! ## Segments -/

namespace Consistent

variable {ctx ctx' : DVBSubContext}

theorem init_consistent : Consistent init where
  regionIds := List.nodup_nil
  linked :=
    { objectIds := List.nodup_nil
      regions := Threads.empty
      objects := Threads.empty
      nonempty := fun _ h => by cases h
      fresh := fun _ _ => rfl
      live := rfl }

/-- What does not touch regions, objects and displays does not matter. -/
theorem congr (h : Consistent ctx) (hregions : ctx'.regionList = ctx.regionList)
    (hobjects : ctx'.objectList = ctx.objectList) (hdisplays : ctx'.displays = ctx.displays)
    (hnext : ctx'.nextPtr = ctx.nextPtr) (hlive : ctx'.dangling = ctx.dangling) :
    Consistent ctx' := by
  obtain ⟨hids, hlinked⟩ := h
  have hregionHead : ctx'.regionHead = ctx.regionHead := by
    funext k
    rw [regionHead, regionHead, getRegion, getRegion, hregions]
  have hobjectHead : ctx'.objectHead = ctx.objectHead := by
    funext k
    rw [objectHead, objectHead, getObject, getObject, hobjects]
  refine ⟨by rw [hregions]; exact hids, ?_, ?_, ?_, ?_, ?_, ?_⟩
  · rw [hobjects]
    exact hlinked.objectIds
  · rw [hregionHead, hdisplays]
    exact hlinked.regions
  · rw [hobjectHead, hdisplays]
    exact hlinked.objects
  · rw [hobjects]
    exact hlinked.nonempty
  · rw [hnext, hdisplays]
    exact hlinked.fresh
  · rw [hlive]
    exact hlinked.live

/-- A write to a region that leaves its list alone. -/
theorem modifyRegion (h : Consistent ctx) (regionId : ℕ) {f : DVBSubRegion → DVBSubRegion}
    (hid : ∀ region, region.id = regionId → (f region).id = regionId)
    (hlist : ∀ region, ctx.getRegion regionId = some region →
      (f region).displayList = region.displayList) :
    Consistent (ctx.modifyRegion regionId f) := by
  refine ⟨?_, ?_⟩
  · rw [DVBSubContext.modifyRegion, Keyed.keys_modify hid]
    exact h.regionIds
  · have hhead : (ctx.modifyRegion regionId f).regionHead = ctx.regionHead := by
      funext k
      rw [regionHead_modifyRegion ctx hid]
      split
      · rename_i hk
        rw [hk, regionHead]
        cases hregion : ctx.getRegion regionId with
        | none => rfl
        | some region =>
          rw [Option.map_some, Option.bind_some, Option.bind_some, hlist region hregion]
      · rfl
    rw [hhead]
    exact h.linked.withRegions _

/-- A region replaced by one with the same list. -/
theorem setRegion (h : Consistent ctx) {regionId : ℕ} {region region' : DVBSubRegion}
    (hregion : ctx.getRegion regionId = some region) (hid : region'.id = regionId)
    (hlist : region'.displayList = region.displayList) :
    Consistent (ctx.modifyRegion regionId fun _ => region') := by
  refine h.modifyRegion regionId (fun _ _ => hid) fun region'' hregion'' => ?_
  rw [hlist, Option.some_inj.mp (hregion.symm.trans hregion'')]

/-- The page's list of region displays and its size. -/
theorem pageRegions_eq (buf : Source) (bufEnd fuel i : ℕ) (tmp : List DVBSubRegionDisplay)
    (ctx : DVBSubContext) :
    ∃ displays size, pageRegions buf bufEnd fuel i tmp ctx =
      { ctx with displayList := displays, displayListSize := size } := by
  induction fuel generalizing i tmp ctx with
  | zero => exact ⟨_, _, rfl⟩
  | succ fuel ih =>
    rw [pageRegions]
    split
    · obtain ⟨displays, size, heq⟩ := ih (i + 6) _ { ctx with
        displayList := _
        displayListSize := ctx.displayListSize + 1 }
      exact ⟨displays, size, heq⟩
    · exact ⟨_, _, rfl⟩

/-- After an acquisition point or a mode change there are no regions and no objects. -/
theorem deleteAll (h : Consistent ctx) :
    ∃ displays, ctx.deleteRegions.deleteObjects.deleteCluts =
        { ctx with regionList := [], objectList := [], clutList := [], displays := displays } ∧
      Consistent ctx.deleteRegions.deleteObjects.deleteCluts := by
  obtain ⟨displays, heq, hlinked⟩ :=
    Linked.deleteRegionsLoop ctx.regionList h.linked h.regionIds
  have heq' : ctx.deleteRegions.deleteObjects.deleteCluts =
      { ctx with regionList := [], objectList := [], clutList := [], displays := displays } := by
    rw [deleteRegions, heq]
    rfl
  refine ⟨displays, heq', ?_⟩
  rw [heq']
  exact ⟨List.nodup_nil, hlinked.objectIds, hlinked.regions, hlinked.objects, hlinked.nonempty,
    hlinked.fresh, hlinked.live⟩

theorem startPage (h : Consistent ctx) (buf : Source) : Consistent (ctx.startPage buf) := by
  have htime : ∀ timeOut, Consistent { ctx with timeOut := timeOut } :=
    fun _ => h.congr rfl rfl rfl rfl rfl
  rw [DVBSubContext.startPage]
  split
  · exact (htime _).deleteAll.choose_spec.2
  · exact htime _

theorem parsePageSegment (h : Consistent ctx) (buf : Source) (bufSize : ℕ) :
    Consistent (ctx.parsePageSegment buf bufSize) := by
  rw [DVBSubContext.parsePageSegment]
  split
  · exact h
  · obtain ⟨displays, size, heq⟩ := pageRegions_eq buf bufSize bufSize 2
      (ctx.startPage buf).displayList
      { ctx.startPage buf with displayList := [], displayListSize := 0 }
    dsimp only
    rw [heq]
    exact (h.startPage buf).congr rfl rfl rfl rfl rfl

/-- **After a page segment that starts an epoch** both lists are empty. -/
theorem parsePageSegment_epoch (h : Consistent ctx) {buf : Source} {bufSize : ℕ}
    (hsize : 1 ≤ bufSize) (hepoch : isEpochStart buf) :
    (ctx.parsePageSegment buf bufSize).regionList = [] ∧
      (ctx.parsePageSegment buf bufSize).objectList = [] := by
  have hstart : (ctx.startPage buf).regionList = [] ∧ (ctx.startPage buf).objectList = [] := by
    have htime : ∀ timeOut, Consistent { ctx with timeOut := timeOut } :=
      fun _ => h.congr rfl rfl rfl rfl rfl
    rw [DVBSubContext.startPage, if_pos hepoch]
    obtain ⟨_, hall, _⟩ := (htime _).deleteAll
    rw [hall]
    exact ⟨rfl, rfl⟩
  rw [DVBSubContext.parsePageSegment, if_neg (by omega)]
  obtain ⟨displays, size, heq⟩ := pageRegions_eq buf bufSize bufSize 2
    (ctx.startPage buf).displayList
    { ctx.startPage buf with displayList := [], displayListSize := 0 }
  dsimp only
  rw [heq]
  exact hstart

/-! ## Region segments -/

theorem addRegion (h : Consistent ctx) (regionId : ℕ) : Consistent (ctx.addRegion regionId) := by
  rw [DVBSubContext.addRegion]
  split
  · rename_i hnone
    rw [Option.isNone_iff_eq_none] at hnone
    refine ⟨Keyed.nodup_cons h.regionIds hnone, ?_⟩
    have hhead : regionHeads (DVBSubRegion.new regionId :: ctx.regionList) = ctx.regionHead := by
      funext k
      rw [regionHeads]
      by_cases hk : regionId = k
      · rw [Keyed.get_cons_self _ hk, ← hk, regionHead, hnone]
        rfl
      · rw [Keyed.get_cons_of_ne _ hk]
        rfl
    have hlinked := h.linked
    rw [← hhead] at hlinked
    exact hlinked.withRegions _
  · exact h

theorem getRegion_addRegion (ctx : DVBSubContext) (regionId : ℕ) :
    ∃ region, (ctx.addRegion regionId).getRegion regionId = some region := by
  rw [DVBSubContext.addRegion]
  split
  · exact ⟨_, Keyed.get_cons_self _ rfl⟩
  · rename_i hsome
    exact Option.ne_none_iff_exists'.mp fun hnone => hsome (by rw [hnone]; rfl)

/-- The object of a display is on the object list afterwards; the lists are as before. -/
theorem addObject_spec (h : Consistent ctx) (objectId type : ℕ) :
    ∃ objects, ctx.addObject objectId type = { ctx with objectList := objects } ∧
      (objects.map DVBSubObject.id).Nodup ∧
      objectHeads objects = ctx.objectHead ∧
      (∃ object, Keyed.get DVBSubObject.id objects objectId = some object) ∧
      ∀ object ∈ objects, object.id ≠ objectId → object.displayList ≠ none := by
  -- setting the type of an object that is on the list
  have htype : ∀ objects : List DVBSubObject, (objects.map DVBSubObject.id).Nodup →
      objectHeads objects = ctx.objectHead →
      (∃ object, Keyed.get DVBSubObject.id objects objectId = some object) →
      (∀ object ∈ objects, object.id ≠ objectId → object.displayList ≠ none) →
      ∃ objects', DVBSubContext.modifyObject { ctx with objectList := objects } objectId
          (fun object => { object with type := type }) = { ctx with objectList := objects' } ∧
        (objects'.map DVBSubObject.id).Nodup ∧
        objectHeads objects' = ctx.objectHead ∧
        (∃ object, Keyed.get DVBSubObject.id objects' objectId = some object) ∧
        ∀ object ∈ objects', object.id ≠ objectId → object.displayList ≠ none := by
    rintro objects hids hheads ⟨object, hget⟩ hne
    refine ⟨_, rfl, by rw [Keyed.keys_modify (by exact fun _ hid => hid)]; exact hids, ?_,
      ⟨_, by rw [Keyed.get_modify_self (by exact fun _ hid => hid), hget]; rfl⟩, ?_⟩
    · rw [← hheads]
      funext k
      refine (objectHead_modifyObject { ctx with objectList := objects }
        (by exact fun _ hid => hid)).trans ?_
      split
      · rename_i hk
        rw [hk, getObject, hget, objectHeads, hget]
        rfl
      · rfl
    · intro object' hmem hne'
      rcases Keyed.mem_modify hmem with hmem | ⟨object'', hget', rfl⟩
      · exact hne object' hmem hne'
      · exact absurd (Keyed.key_of_get hget') hne'
  rw [addObject]
  split
  · rename_i hnone
    rw [Option.isNone_iff_eq_none] at hnone
    refine htype _ (Keyed.nodup_cons h.linked.objectIds hnone) ?_ ?_ ?_
    · funext k
      rw [objectHeads]
      by_cases hk : objectId = k
      · rw [Keyed.get_cons_self _ hk, ← hk, objectHead, hnone]
        rfl
      · rw [Keyed.get_cons_of_ne _ hk]
        rfl
    · exact ⟨_, Keyed.get_cons_self _ rfl⟩
    · intro object hmem hne
      rcases List.mem_cons.mp hmem with rfl | hmem
      · exact absurd rfl hne
      · exact h.linked.nonempty object hmem
  · rename_i hsome
    refine htype ctx.objectList h.linked.objectIds rfl ?_ fun object hmem _ =>
      h.linked.nonempty object hmem
    exact Option.ne_none_iff_exists'.mp fun hnone => hsome (by rw [getObject, hnone]; rfl)

/-- **A new display**, put on the lists of its region and its object. -/
theorem addDisplay (h : Consistent ctx) {display : DVBSubObjectDisplay} {type : ℕ}
    {region : DVBSubRegion} (hregion : ctx.getRegion display.regionId = some region) :
    Consistent ((ctx.addObject display.objectId type).addDisplay display) := by
  obtain ⟨objects, heq, hids, hheads, ⟨object, hobject⟩, hne⟩ :=
    h.addObject_spec display.objectId type
  have hfresh := h.linked.fresh ctx.nextPtr le_rfl
  have hregionHead : regionHeads (Keyed.modify DVBSubRegion.id ctx.regionList display.regionId
        fun region => { region with displayList := some ctx.nextPtr }) =
      Function.update ctx.regionHead display.regionId (some ctx.nextPtr) := by
    funext k
    refine (regionHead_modifyRegion ctx (by exact fun _ hid => hid)).trans ?_
    rw [hregion, Function.update_apply]
    rfl
  have hobjectHead : objectHeads (Keyed.modify DVBSubObject.id objects display.objectId
        fun object => { object with displayList := some ctx.nextPtr }) =
      Function.update ctx.objectHead display.objectId (some ctx.nextPtr) := by
    funext k
    refine (objectHead_modifyObject { ctx with objectList := objects }
      (by exact fun _ hid => hid)).trans ?_
    rw [getObject, hobject, Function.update_apply, ← hheads]
    rfl
  have hobjectIds : ((Keyed.modify DVBSubObject.id objects display.objectId
      fun object => { object with displayList := some ctx.nextPtr }).map
        DVBSubObject.id).Nodup := by
    rw [Keyed.keys_modify (by exact fun _ hid => hid)]
    exact hids
  rw [heq, DVBSubContext.addDisplay]
  refine ⟨?_, hobjectIds, ?_, ?_, ?_, ?_, h.linked.live⟩
  · show (List.map DVBSubRegion.id (Keyed.modify _ ctx.regionList _ _)).Nodup
    rw [Keyed.keys_modify (by exact fun _ hid => hid)]
    exact h.regionIds
  · show Threads _ _ _ (regionHeads (Keyed.modify _ ctx.regionList _ _))
    rw [hregionHead]
    exact h.linked.regions.push hfresh rfl
  · show Threads _ _ _ (objectHeads (Keyed.modify _ objects _ _))
    rw [hobjectHead]
    refine h.linked.objects.push hfresh ?_
    show objectHeads objects display.objectId = _
    rw [hheads]
  · intro object' hmem
    rcases Keyed.mem_modify hmem with hmem' | ⟨object'', _, rfl⟩
    · by_cases hid : object'.id = display.objectId
      · have hget := Keyed.get_of_mem hobjectIds hmem
        rw [hid, Keyed.get_modify_self (by exact fun _ hid => hid), hobject, Option.map_some,
          Option.some_inj] at hget
        rw [← hget]
        exact Option.some_ne_none _
      · exact hne object' hmem' hid
    · exact Option.some_ne_none _
  · intro p hp
    have hp' : ctx.nextPtr + 1 ≤ p := hp
    show Function.update ctx.displays ctx.nextPtr _ p = none
    rw [Function.update_of_ne (by omega), h.linked.fresh p (by omega)]

/-- Adding a display takes no region away. -/
theorem getRegion_addDisplay (h : Consistent ctx) (display : DVBSubObjectDisplay) {type : ℕ}
    {region : DVBSubRegion} (hregion : ctx.getRegion display.regionId = some region) :
    ∃ region', ((ctx.addObject display.objectId type).addDisplay display).getRegion
      display.regionId = some region' := by
  obtain ⟨objects, heq, _⟩ := h.addObject_spec display.objectId type
  rw [heq]
  have hget : Keyed.get DVBSubRegion.id ctx.regionList display.regionId = some region := hregion
  refine ⟨{ region with displayList := some ctx.nextPtr }, ?_⟩
  show Keyed.get DVBSubRegion.id (Keyed.modify _ ctx.regionList display.regionId _) _ = _
  rw [Keyed.get_modify_self (by exact fun _ hid => hid), hget]
  rfl

/-- The loop of `parseRegionSegment`. -/
theorem regionDisplays (h : Consistent ctx) (buf : Source) (bufEnd fuel i : ℕ)
    {regionId : ℕ} {region : DVBSubRegion} (hregion : ctx.getRegion regionId = some region) :
    Consistent (DVBSubContext.regionDisplays buf bufEnd regionId fuel i ctx) := by
  induction fuel generalizing ctx i region with
  | zero => exact h
  | succ fuel ih =>
    rw [DVBSubContext.regionDisplays]
    split
    · obtain ⟨region', hregion'⟩ := h.getRegion_addDisplay {
        objectId := AV_RB16 buf i, regionId := regionId, xPos := _, yPos := _, fgcolor := _,
        bgcolor := _, regionListNext := none, objectListNext := none } hregion
      exact ih (h.addDisplay hregion) _ hregion'
    · exact h

/-- A region whose list is deleted, while the region list holds it without a list. -/
theorem emptyRegion (h : Consistent ctx) {regionId : ℕ} {region : DVBSubRegion}
    (hregion : ctx.getRegion regionId = some region) (region' : DVBSubRegion)
    (hid : region'.id = regionId)
    (hnone : region'.displayList = none) :
    Consistent ((ctx.modifyRegion regionId fun _ => region').deleteRegionDisplayList
      ctx.nextPtr region.displayList) ∧
    ((ctx.modifyRegion regionId fun _ => region').deleteRegionDisplayList
      ctx.nextPtr region.displayList).getRegion regionId = some region' := by
  have hhead : ctx.regionHead regionId = region.displayList := by
    rw [regionHead, hregion, Option.bind_some]
  have hregions : (ctx.modifyRegion regionId fun _ => region').regionHead =
      Function.update ctx.regionHead regionId none := by
    funext k
    rw [regionHead_modifyRegion ctx (fun _ _ => hid), hregion, Function.update_apply,
      Option.map_some, Option.bind_some, hnone]
  have hget : (ctx.modifyRegion regionId fun _ => region').getRegion regionId = some region' := by
    rw [getRegion, DVBSubContext.modifyRegion, Keyed.get_modify_self (fun _ _ => hid)]
    exact congrArg (Option.map _) hregion
  obtain ⟨objects, displays, heq, hlinked⟩ := (h.linked.withRegions
    (ctx.modifyRegion regionId fun _ => region').regionList).deleteRegionDisplayList regionId
  have heq' : (ctx.modifyRegion regionId fun _ => region').deleteRegionDisplayList ctx.nextPtr
      region.displayList =
        { ctx.modifyRegion regionId fun _ => region' with
          objectList := objects
          displays := displays } := by
    rw [← hhead]
    exact heq
  rw [heq']
  refine ⟨⟨?_, ?_⟩, hget⟩
  · show ((Keyed.modify DVBSubRegion.id ctx.regionList regionId _).map _).Nodup
    rw [Keyed.keys_modify (fun _ _ => hid)]
    exact h.regionIds
  · show Linked _ (ctx.modifyRegion regionId fun _ => region').regionHead
    rw [hregions]
    exact hlinked

theorem parseRegionSegment (h : Consistent ctx) (buf : Source) (bufSize : ℕ) :
    Consistent (ctx.parseRegionSegment buf bufSize) := by
  by_cases hsize : bufSize < 10
  · rw [DVBSubContext.parseRegionSegment, if_pos hsize]
    exact h
  · obtain ⟨region, hregion⟩ := getRegion_addRegion ctx (buf 0).toNat
    have hadd := h.addRegion (buf 0).toNat
    obtain ⟨hid, hlist⟩ := regionOf_keeps region buf
    rw [Keyed.key_of_get hregion] at hid
    rw [parseRegionSegment_eq hsize hregion]
    obtain ⟨parsed, hparsed⟩ : ∃ parsed, regionOf region buf = parsed := ⟨_, rfl⟩
    rw [hparsed] at hid hlist ⊢
    split
    · obtain ⟨hempty, hregion'⟩ :=
        hadd.emptyRegion hregion { parsed.1 with displayList := none } hid rfl
      exact hempty.regionDisplays buf bufSize bufSize 10 hregion'
    · exact hadd.setRegion hregion hid hlist

/-! ## Object segments -/

/-- A block only writes to a region's buffer. -/
theorem parsePixelDataBlock (h : Consistent ctx) (display : DVBSubObjectDisplay)
    (source : Source) (buf bufSize top_bottom nonMod : ℕ) :
    Consistent (Dvb.parsePixelDataBlock ctx display source buf bufSize top_bottom nonMod).ctx ∧
      (Dvb.parsePixelDataBlock ctx display source buf bufSize top_bottom nonMod).ctx.displays =
        ctx.displays := by
  rw [Dvb.parsePixelDataBlock]
  cases ctx.getRegion display.regionId with
  | none => exact ⟨h, rfl⟩
  | some region => exact ⟨h.modifyRegion _ (fun _ hid => hid) fun _ _ => rfl, rfl⟩

/-- The loop of `parseObjectSegment` follows the object's list to its end. -/
theorem objectFields (h : Consistent ctx) (source : Source) (buf topFieldLen nonMod : ℕ)
    {fuel bottomFieldLen : ℕ} {q : Option ℕ} {l : List ℕ}
    (hl : Chain DVBSubObjectDisplay.objectListNext ctx.displays q l) (hfuel : l.length ≤ fuel) :
    Consistent
      (Dvb.objectFields source buf topFieldLen nonMod fuel ctx q bottomFieldLen).ctx := by
  induction l generalizing ctx q fuel bottomFieldLen with
  | nil =>
    rw [hl.eq_none_iff.mpr rfl, Dvb.objectFields]
    exact h
  | cons p l ih =>
    obtain ⟨rfl, display, hp, hrest⟩ := hl.of_cons
    obtain ⟨fuel, rfl⟩ : ∃ f, fuel = f + 1 := ⟨fuel - 1, by rw [List.length_cons] at hfuel; omega⟩
    rw [Dvb.objectFields, hp]
    dsimp only
    obtain ⟨htop, htopDisplays⟩ := h.parsePixelDataBlock display source buf topFieldLen
      TOP_FIELD nonMod
    split
    · exact htop
    · obtain ⟨hbottom, hbottomDisplays⟩ := htop.parsePixelDataBlock display source
        (bottomField buf topFieldLen bottomFieldLen).1
        (bottomField buf topFieldLen bottomFieldLen).2 BOTTOM_FIELD nonMod
      split
      · exact hbottom
      · refine ih hbottom ?_ (Nat.le_of_succ_le_succ hfuel)
        rw [hbottomDisplays, htopDisplays]
        exact hrest

theorem parseObjectSegment (h : Consistent ctx) (source : Source) (bufSize : ℕ) :
    Consistent (Dvb.parseObjectSegment ctx source bufSize).ctx := by
  rw [Dvb.parseObjectSegment]
  cases hobject : ctx.getObject (AV_RB16 source 0) with
  | none => exact h
  | some object =>
    dsimp only
    split_ifs
    · exact h
    · obtain ⟨l, hl, hnodup, _⟩ := h.linked.objects (AV_RB16 source 0)
      have hhead : ctx.objectHead (AV_RB16 source 0) = object.displayList := by
        rw [objectHead, hobject, Option.bind_some]
      have hlen : l.length ≤ ctx.nextPtr :=
        h.linked.length_le hnodup fun p hp => hl.live hp
      rw [hhead] at hl
      exact h.objectFields _ _ _ _ hl hlen
    · exact h

end Consistent

/-! ## Runs -/

/-- **Every event keeps the context consistent**, and follows no dangling pointer. -/
theorem consistent_exec (ctx : DVBSubContext) (event : Event) (h : Consistent ctx) :
    Consistent (exec ctx event) := by
  cases event with
  | updateParameter compositionId ancillaryId =>
    rw [exec, updateParameter]
    split <;> exact h.congr rfl rfl rfl rfl rfl
  | segment spu segment =>
    rw [exec]
    rcases decodeSegment_cases ctx spu segment with
      ⟨displays, heq⟩ | ⟨displays, heq⟩ | ⟨_, _, heq⟩ | heq | heq | heq
    · rw [heq]
      exact h.congr rfl rfl rfl rfl rfl
    · rw [heq]
      exact (h.parsePageSegment _ _).congr rfl rfl rfl rfl rfl
    · rw [heq]
      exact h.parseRegionSegment _ _
    · rw [heq, parseClutSegment]
      exact h.congr rfl rfl rfl rfl rfl
    · rw [heq, parseDisplayDefinitionSegment]
      dsimp only
      split_ifs <;> exact h.congr rfl rfl rfl rfl rfl
    · rw [heq]
      exact h.parseObjectSegment _ _

theorem consistent_run (events : List Event) : Consistent (events.foldl exec init) :=
  Run.invariant (I := Consistent) consistent_exec Consistent.init_consistent events

/-! ## The lists, one by one -/

/-- The display at `p` is on the list of the region. -/
def InRegionList (ctx : DVBSubContext) (region : DVBSubRegion) (p : ℕ) : Prop :=
  ∃ l, Chain DVBSubObjectDisplay.regionListNext ctx.displays region.displayList l ∧ p ∈ l

/-- The display at `p` is on the list of the object. -/
def InObjectList (ctx : DVBSubContext) (object : DVBSubObject) (p : ℕ) : Prop :=
  ∃ l, Chain DVBSubObjectDisplay.objectListNext ctx.displays object.displayList l ∧ p ∈ l

/-- The display lists of the regions and of the objects agree.  Every list is a chain of
live displays without repetitions; each display of a region's list carries the region's
id and is on the list of one object, the one it names, and the other way round; and no
object is without displays. -/
structure ListConsistency (ctx : DVBSubContext) : Prop where
  regionIds : (ctx.regionList.map DVBSubRegion.id).Nodup
  objectIds : (ctx.objectList.map DVBSubObject.id).Nodup
  regionLists : ∀ region ∈ ctx.regionList, ∃ l, l.Nodup ∧
    Chain DVBSubObjectDisplay.regionListNext ctx.displays region.displayList l
  objectLists : ∀ object ∈ ctx.objectList, ∃ l, l.Nodup ∧
    Chain DVBSubObjectDisplay.objectListNext ctx.displays object.displayList l
  ofRegion : ∀ region ∈ ctx.regionList, ∀ p, InRegionList ctx region p →
    ∃ display, ctx.displays p = some display ∧ display.regionId = region.id ∧
      ∃ object ∈ ctx.objectList, object.id = display.objectId ∧ InObjectList ctx object p ∧
        ∀ object' ∈ ctx.objectList, InObjectList ctx object' p → object' = object
  ofObject : ∀ object ∈ ctx.objectList, ∀ p, InObjectList ctx object p →
    ∃ display, ctx.displays p = some display ∧ display.objectId = object.id ∧
      ∃ region ∈ ctx.regionList, region.id = display.regionId ∧ InRegionList ctx region p ∧
        ∀ region' ∈ ctx.regionList, InRegionList ctx region' p → region' = region
  nonempty : ∀ object ∈ ctx.objectList, object.displayList ≠ none
  live : ctx.dangling = false

namespace Consistent

variable {ctx : DVBSubContext}

theorem regionHead_of_mem (h : Consistent ctx) {region : DVBSubRegion}
    (hmem : region ∈ ctx.regionList) : ctx.regionHead region.id = region.displayList := by
  rw [regionHead, getRegion, Keyed.get_of_mem h.regionIds hmem, Option.bind_some]

theorem objectHead_of_mem (h : Consistent ctx) {object : DVBSubObject}
    (hmem : object ∈ ctx.objectList) : ctx.objectHead object.id = object.displayList := by
  rw [objectHead, getObject, Keyed.get_of_mem h.linked.objectIds hmem, Option.bind_some]

/-- A region's list holds the live displays with its id. -/
theorem inRegionList_iff (h : Consistent ctx) {region : DVBSubRegion}
    (hmem : region ∈ ctx.regionList) {p : ℕ} :
    InRegionList ctx region p ↔
      ∃ display, ctx.displays p = some display ∧ display.regionId = region.id := by
  constructor
  · rintro ⟨l, hl, hp⟩
    rw [← h.regionHead_of_mem hmem] at hl
    exact (h.linked.regions.mem_list hl).mp hp
  · intro hp
    obtain ⟨l, hl, _, hlist⟩ := h.linked.regions region.id
    rw [h.regionHead_of_mem hmem] at hl
    exact ⟨l, hl, (hlist p).mpr hp⟩

/-- An object's list holds the live displays with its id. -/
theorem inObjectList_iff (h : Consistent ctx) {object : DVBSubObject}
    (hmem : object ∈ ctx.objectList) {p : ℕ} :
    InObjectList ctx object p ↔
      ∃ display, ctx.displays p = some display ∧ display.objectId = object.id := by
  constructor
  · rintro ⟨l, hl, hp⟩
    rw [← h.objectHead_of_mem hmem] at hl
    exact (h.linked.objects.mem_list hl).mp hp
  · intro hp
    obtain ⟨l, hl, _, hlist⟩ := h.linked.objects object.id
    rw [h.objectHead_of_mem hmem] at hl
    exact ⟨l, hl, (hlist p).mpr hp⟩

/-- The object of a live display is on the object list. -/
theorem exists_object (h : Consistent ctx) {p : ℕ} {display : DVBSubObjectDisplay}
    (hp : ctx.displays p = some display) :
    ∃ object ∈ ctx.objectList, object.id = display.objectId := by
  cases hhead : ctx.objectHead display.objectId with
  | none => exact absurd rfl (h.linked.objects.key_ne_of_head_none hhead hp)
  | some q =>
    obtain ⟨object, hobject, _⟩ := getObject_of_objectHead hhead
    exact ⟨object, Keyed.mem_of_get hobject, Keyed.key_of_get hobject⟩

/-- The region of a live display is on the region list. -/
theorem exists_region (h : Consistent ctx) {p : ℕ} {display : DVBSubObjectDisplay}
    (hp : ctx.displays p = some display) :
    ∃ region ∈ ctx.regionList, region.id = display.regionId := by
  cases hhead : ctx.regionHead display.regionId with
  | none => exact absurd rfl (h.linked.regions.key_ne_of_head_none hhead hp)
  | some q =>
    obtain ⟨region, hregion, _⟩ := Option.bind_eq_some_iff.mp hhead
    exact ⟨region, Keyed.mem_of_get hregion, Keyed.key_of_get hregion⟩

/-- The abstract statement about the threads, region by region and object by object. -/
theorem listConsistency (h : Consistent ctx) : ListConsistency ctx where
  regionIds := h.regionIds
  objectIds := h.linked.objectIds
  regionLists := by
    intro region hmem
    obtain ⟨l, hl, hnodup, _⟩ := h.linked.regions region.id
    rw [h.regionHead_of_mem hmem] at hl
    exact ⟨l, hnodup, hl⟩
  objectLists := by
    intro object hmem
    obtain ⟨l, hl, hnodup, _⟩ := h.linked.objects object.id
    rw [h.objectHead_of_mem hmem] at hl
    exact ⟨l, hnodup, hl⟩
  ofRegion := by
    intro region hmem p hp
    obtain ⟨display, hdisplay, hid⟩ := (h.inRegionList_iff hmem).mp hp
    obtain ⟨object, hobject, hobjectId⟩ := h.exists_object hdisplay
    refine ⟨display, hdisplay, hid, object, hobject, hobjectId,
      (h.inObjectList_iff hobject).mpr ⟨display, hdisplay, hobjectId.symm⟩, ?_⟩
    intro object' hobject' hp'
    obtain ⟨display', hdisplay', hid'⟩ := (h.inObjectList_iff hobject').mp hp'
    rw [hdisplay, Option.some_inj] at hdisplay'
    have hsame : object'.id = object.id := by rw [hobjectId, ← hid', hdisplay']
    exact Keyed.eq_of_key_eq h.linked.objectIds hobject' hobject hsame
  ofObject := by
    intro object hmem p hp
    obtain ⟨display, hdisplay, hid⟩ := (h.inObjectList_iff hmem).mp hp
    obtain ⟨region, hregion, hregionId⟩ := h.exists_region hdisplay
    refine ⟨display, hdisplay, hid, region, hregion, hregionId,
      (h.inRegionList_iff hregion).mpr ⟨display, hdisplay, hregionId.symm⟩, ?_⟩
    intro region' hregion' hp'
    obtain ⟨display', hdisplay', hid'⟩ := (h.inRegionList_iff hregion').mp hp'
    rw [hdisplay, Option.some_inj] at hdisplay'
    have hsame : region'.id = region.id := by rw [hregionId, ← hid', hdisplay']
    exact Keyed.eq_of_key_eq h.regionIds hregion' hregion hsame
  nonempty := h.linked.nonempty
  live := h.linked.live

end Consistent

/-- **The display lists agree after every run** of segments, of any contents, and of
changes of the pages followed; and right after a page segment that starts an epoch there
are no regions and no objects. -/
theorem lists_consistent_run (events : List Event) :
    ListConsistency (events.foldl exec init) ∧
      ∀ spu segment, segment.segmentType = DVBSUB_PAGE_SEGMENT →
        followsPage (events.foldl exec init) segment.pageId → 1 ≤ segment.segmentLength →
        isEpochStart segment.buf →
          (exec (events.foldl exec init) (.segment spu segment)).regionList = [] ∧
            (exec (events.foldl exec init) (.segment spu segment)).objectList = [] := by
  have hrun := consistent_run events
  refine ⟨hrun.listConsistency, fun spu segment htype hpage hsize hepoch => ?_⟩
  have hctx : exec (events.foldl exec init) (.segment spu segment) =
      (displayEndSegment ((events.foldl exec init).parsePageSegment segment.buf
        segment.segmentLength) spu).ctx := by
    rw [exec, decodeSegment]
    dsimp only
    rw [if_pos hpage, if_pos htype]
  rw [hctx, displayEndSegment, saveResult2Spu_ctx]
  exact hrun.parsePageSegment_epoch hsize hepoch

end Dvb
end AmlSubtitle
