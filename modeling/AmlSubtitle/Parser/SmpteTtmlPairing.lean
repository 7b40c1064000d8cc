import AmlSubtitle.Parser.SmpteTtmlParser

/-!
# Which image and region a division is shown with

A division names its image and its region, and the decoder takes those that stand at
the same place of their lists.

* `getElem?_makeItems`: the `k`-th item is made of the `k`-th image, region and
  division, as long as every round before made one.
* `pairsByName_iff`: the items are made of what the divisions name if and only if the
  lists are in step as far as items are made.
-/

namespace AmlSubtitle
namespace SmpteTtml

/-! ## What a division names -/

def IsImage (e : Element) : Prop := e.name = "image" ∨ e.name = "smpte:image"

def IsRegion (e : Element) : Prop := e.name = "region" ∨ e.name = "tt:region"

def IsDiv (e : Element) : Prop := e.name = "div" ∨ e.name = "tt:div"

/-- The image is the one whose identifier the division's `smpte:backgroundImage` has
behind its `#`. -/
def NamesImage (div image : Element) : Prop :=
  IsImage image ∧ ∃ name, findAttribute image "xml:id" = some name ∧
    findAttribute div "smpte:backgroundImage" = some (35 :: name)

/-- The region is the one whose identifier is the division's `region`. -/
def NamesRegion (div region : Element) : Prop :=
  IsRegion region ∧ ∃ name, findAttribute region "xml:id" = some name ∧
    findAttribute div "region" = some name

/-- Each division that is shown is shown with the image and in the region it names. -/
def PairsByName (shown : List Shown) : Prop :=
  ∀ s ∈ shown, IsDiv s.div → NamesImage s.div s.image ∧ NamesRegion s.div s.region

/-! ## What is shown -/

section Rounds

variable {make : Element → Element → Element → Except Outcome Spu}

/-- The round that takes the `k`-th elements of the lists, if it makes an item. -/
def MakesAt (make : Element → Element → Element → Except Outcome Spu) (images regions divs :
    List Element) (k : ℕ) (s : Shown) : Prop :=
  images[k]? = some s.image ∧ regions[k]? = some s.region ∧ divs[k]? = some s.div ∧
    make s.image s.region s.div = .ok s.spu

/-- **The items are made in step**, until a round makes none. -/
theorem getElem?_makeItems {images regions divs : List Element} {k : ℕ} {s : Shown} :
    (makeItems make images regions divs).1[k]? = some s ↔
      MakesAt make images regions divs k s ∧
        ∀ j < k, ∃ s', MakesAt make images regions divs j s' := by
  -- without a first item there is none
  have hnone : ∀ {images regions divs : List Element} {k : ℕ} {s : Shown},
      (∀ s', ¬ MakesAt make images regions divs 0 s') →
        ¬ (MakesAt make images regions divs k s ∧
          ∀ j < k, ∃ s', MakesAt make images regions divs j s') := by
    rintro images regions divs k s hfirst ⟨hat, hbefore⟩
    rcases Nat.eq_zero_or_pos k with rfl | hk
    · exact hfirst s hat
    · obtain ⟨s', hs'⟩ := hbefore 0 hk
      exact hfirst s' hs'
  fun_induction makeItems make images regions divs generalizing k with
  | case1 image images region regions div divs outcome h =>
    refine iff_of_false (by simp) (hnone fun s' hat => ?_)
    obtain ⟨hi, hr, hd, hmake⟩ := hat
    rw [List.getElem?_cons_zero, Option.some_inj] at hi hr hd
    rw [← hi, ← hr, ← hd, h] at hmake
    cases hmake
  | case2 image images region regions div divs spu h rest outcome heq ih =>
    cases k with
    | zero =>
      rw [List.getElem?_cons_zero, Option.some_inj]
      constructor
      · rintro rfl
        exact ⟨⟨rfl, rfl, rfl, h⟩, fun j hj => absurd hj (Nat.not_lt_zero j)⟩
      · rintro ⟨⟨hi, hr, hd, hmake⟩, -⟩
        rw [List.getElem?_cons_zero, Option.some_inj] at hi hr hd
        rw [← hi, ← hr, ← hd, h] at hmake
        rw [hi, hr, hd, Except.ok.inj hmake]
    | succ k =>
      rw [heq] at ih
      refine ih.trans (and_congr Iff.rfl ⟨fun hbefore j hj => ?_, fun hbefore j hj => ?_⟩)
      · cases j with
        | zero => exact ⟨⟨image, region, div, spu⟩, rfl, rfl, rfl, h⟩
        | succ j => exact hbefore j (Nat.lt_of_succ_lt_succ hj)
      · exact hbefore (j + 1) (Nat.succ_lt_succ hj)
  | case3 images regions divs hempty =>
    refine iff_of_false (by simp) (hnone fun s' hat => ?_)
    obtain ⟨hi, hr, hd, -⟩ := hat
    cases images with
    | nil => cases hi
    | cons image images =>
      cases regions with
      | nil => cases hr
      | cons region regions =>
        cases divs with
        | nil => cases hd
        | cons div divs => exact hempty _ _ _ _ _ _ rfl rfl rfl

/-- As far as items are made, the divisions name the image and the region that stand at
their place. -/
def InStep (make : Element → Element → Element → Except Outcome Spu) (lists : Lists) : Prop :=
  ∀ k image region div, lists.images[k]? = some image → lists.regions[k]? = some region →
    lists.divs[k]? = some div →
    (∀ j ≤ k, ∃ s, MakesAt make lists.images lists.regions lists.divs j s) → IsDiv div →
      NamesImage div image ∧ NamesRegion div region

theorem pairsByName_makeItems {lists : Lists} :
    PairsByName (makeItems make lists.images lists.regions lists.divs).1 ↔
      InStep make lists := by
  constructor
  · intro h k image region div hi hr hd hmade hdiv
    obtain ⟨s, hs⟩ := hmade k le_rfl
    have hmem := List.mem_of_getElem? (getElem?_makeItems.mpr ⟨hs, fun j hj => hmade j hj.le⟩)
    obtain rfl : s.image = image := Option.some.inj (hs.1.symm.trans hi)
    obtain rfl : s.region = region := Option.some.inj (hs.2.1.symm.trans hr)
    obtain rfl : s.div = div := Option.some.inj (hs.2.2.1.symm.trans hd)
    exact h s hmem hdiv
  · intro h s hs hdiv
    obtain ⟨k, hk⟩ := List.mem_iff_getElem?.mp hs
    obtain ⟨hat, hbefore⟩ := getElem?_makeItems.mp hk
    refine h k s.image s.region s.div hat.1 hat.2.1 hat.2.2.1 (fun j hj => ?_) hdiv
    rcases hj.lt_or_eq with hj | rfl
    · exact hbefore j hj
    · exact ⟨s, hat⟩

end Rounds

/-! ## Documents -/

/-- **Images and regions.**  Each division of a document is shown with the image and in
the region it names if and only if, as far as items are made, the image and the region
at the place of a division are those it names. -/
theorem pairsByName_iff (parser : Parser) (basePts : ℤ) (root : Option Element) :
    PairsByName (SmpteTtmlDecodeFrame parser basePts root).1 ↔
      ∀ e lists, root = some e → findLists e = some lists →
        InStep (makeItem parser (displaySize e).1 (displaySize e).2 basePts) lists := by
  have hnil : PairsByName [] := fun s hs => absurd hs List.not_mem_nil
  cases root with
  | none => exact iff_of_true hnil (by rintro _ _ ⟨⟩)
  | some e =>
    rw [SmpteTtmlDecodeFrame]
    cases hlists : findLists e with
    | none =>
      refine iff_of_true hnil ?_
      rintro _ _ ⟨⟩ hsome
      rw [hlists] at hsome
      cases hsome
    | some lists =>
      refine pairsByName_makeItems.trans ⟨?_, fun h => h e lists rfl hlists⟩
      rintro h _ _ ⟨⟩ hsome
      rw [hlists, Option.some_inj] at hsome
      exact hsome ▸ h

/-- The bytes of a value. -/
def bytes (s : String) : Text := s.toList.map fun c => c.toNat.toUInt8

/-- An image, a region and a division of a document. -/
def image (id : String) : Node :=
  .element "smpte:image" [("xml:id", bytes id), ("imagetype", bytes "PNG"),
    ("encoding", bytes "Base64")] [.text (bytes "iVBORw==")]

def region (id : String) : Node :=
  .element "region" [("xml:id", bytes id), ("tts:origin", bytes "0px 0px"),
    ("tts:extent", bytes "720px 480px")] []

def division (image region : String) : Node :=
  .element "div" [("region", bytes region), ("begin", bytes "00:00:01.000"),
    ("end", bytes "00:00:02.000"), ("smpte:backgroundImage", 35 :: bytes image)] []

/-- A document with two images and two regions; its only division names the second of
each. -/
def reordered : Element where
  name := "tt"
  attributes := []
  children :=
    [.element "head" [] [.element "metadata" [] [image "a", image "b"],
      .element "layout" [] [region "r", region "s"]],
    .element "body" [] [.element "div" [] [division "b" "s"]]]

/-- The division is shown with the first image. -/
theorem not_pairsByName_reordered :
    ¬ PairsByName (SmpteTtmlDecodeFrame ⟨false, 0, fun _ spu => spu⟩ 0 (some reordered)).1 := by
  intro h
  obtain ⟨⟨-, name, hid, hname⟩, -⟩ := h _ (List.mem_cons_self) (Or.inl rfl)
  cases hid
  cases hname

end SmpteTtml
end AmlSubtitle
