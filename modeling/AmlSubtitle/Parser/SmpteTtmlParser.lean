import AmlSubtitle.Lib.Scanf

/-!
# `parser/SmpteTtmlParser.cpp`: a SMPTE-TTML document

`SmpteTtmlDecodeFrame` walks the images of a document's metadata, the regions of its
layout and the inner divisions of its body in one loop, each time to the next sibling,
and makes an item of the three elements it has come to.

* The document is the tree that `tinyxml2` makes of it.  A value is a list of bytes.
* Reading the value of an attribute that is not there is an error that the program does
  not survive: `Outcome.crash`.  The log at the end of a round reads them all.
* `decodePng` is libpng's and a parameter; so is the time that `getSyncTime` gives.
* `Shown` records of which elements an item was made.
-/

namespace AmlSubtitle
namespace SmpteTtml

open Words Scanf

/-! ## The document -/

/-- The bytes of a value. -/
abbrev Text := List UInt8

/-- A node of the document: an element, its name, attributes and children, a text, a
comment or anything else. -/
inductive Node where
  | element (name : String) (attributes : List (String × Text)) (children : List Node)
  | text (value : Text)
  | comment
  | other

/-- An element. -/
structure Element where
  name : String
  attributes : List (String × Text)
  children : List Node

/-- `ToElement`. -/
def toElement : Node → Option Element
  | .element name attributes children => some ⟨name, attributes, children⟩
  | _ => none

/-- `FindAttribute`, and the value of what it finds. -/
def findAttribute (e : Element) (name : String) : Option Text := e.attributes.lookup name

/-- `GetText`. -/
def getText (e : Element) : Option Text :=
  match e.children.dropWhile (fun n => n matches .comment) with
  | .text value :: _ => some value
  | _ => none

/-- `FirstChildElement`, with the elements that `NextSiblingElement` gives after it. -/
def firstChildElement (e : Element) (name : String) : List Element :=
  (e.children.filterMap toElement).dropWhile (·.name ≠ name)

/-- The element of a name, or else the one of another. -/
def firstChildOf (e : Element) (name name' : String) : List Element :=
  if (firstChildElement e name).isEmpty then firstChildElement e name'
  else firstChildElement e name

/-! ## Numbers and pictures -/

/-- `extractNumbers`; `inNumber` says that a digit came before. -/
def extractNumbers (inNumber : Bool) : Text → List ℤ
  | [] => []
  | c :: s =>
    if isDigit c then
      if inNumber then extractNumbers true s
      else toInt (decimal ((c :: s).takeWhile isDigit)) :: extractNumbers true s
    else extractNumbers false s

/-- `"%d:%d:%d.%d"`. -/
def timecodeFormat : List Directive :=
  [.int, .literal 58, .int, .literal 58, .int, .literal 46, .int]

/-- `smpte_ttml_parse_timecode`: what is not scanned stays zero, and an `int` is written
to the lower half of each number. -/
def smpte_ttml_parse_timecode (timeString : Text) : ℤ :=
  let field (i : ℕ) : ℤ :=
    match (scan timecodeFormat timeString)[i]? with
    | some (.int z) => z % 2 ^ 32
    | _ => 0
  asSigned 32 ((field 0 * 3600 + field 1 * 60 + field 2) * 1000 + field 3)

/-- The six bits of a base64 character. -/
def base64Digit (c : UInt8) : ℕ :=
  if 65 ≤ c ∧ c ≤ 90 then c.toNat - 65
  else if 97 ≤ c ∧ c ≤ 122 then c.toNat - 97 + 26
  else if 48 ≤ c ∧ c ≤ 57 then c.toNat - 48 + 52
  else if c = 43 then 62
  else if c = 47 then 63
  else 0

/-- `base64Decode`; `val` keeps the low bits of the source's `int`, which are all that
is read of it, and `bits` is its `valb + 8`. -/
def base64Decode (input : Text) : Text :=
  (input.foldl (fun (decodedData, val, bits) c =>
    let val := (val * 64 + base64Digit c) % 2 ^ 32
    if bits + 6 ≥ 8 then (decodedData ++ [(val / 2 ^ (bits + 6 - 8)).toUInt8], val, bits + 6 - 8)
    else (decodedData, val, bits + 6)) (([] : Text), 0, 0)).1

/-- `isMore32Bit`. -/
def isMore32Bit (pts : ℤ) : Bool := pts / 2 ^ 32 % 2 ^ 32 > 0

/-- `AML_SPUVAR`, what the decoder writes of it. -/
structure Spu where
  pts : ℤ
  m_delay : ℤ
  spu_start_x : ℕ
  spu_start_y : ℕ
  spu_width : ℕ
  spu_height : ℕ
  spu_origin_display_w : ℕ
  spu_origin_display_h : ℕ
  spu_data : Text
  deriving DecidableEq, Repr

/-- The first two of some numbers, or what was there. -/
def firstTwo (numbers : List ℤ) (w : ℕ) (a b : ℕ) : ℕ × ℕ :=
  match numbers with
  | [] => (a, b)
  | [x] => (asUnsigned w x, b)
  | x :: y :: _ => (asUnsigned w x, asUnsigned w y)

/-! ## The decoder -/

/-- How the decoder comes back. -/
inductive Outcome where
  | success
  | failure
  | crash
  deriving DecidableEq, Repr

/-- An item, and the elements it was made of. -/
structure Shown where
  image : Element
  region : Element
  div : Element
  spu : Spu

/-- What the decoder reads besides the document. -/
structure Parser where
  mDumpSub : Bool
  syncTime : ℤ
  decodePng : Text → Spu → Spu

/-- `FindAttribute(name)->Value()`. -/
def value (e : Element) (name : String) : Except Outcome Text :=
  match findAttribute e name with
  | none => .error .crash
  | some v => .ok v

/-- The log of a round reads these. -/
def logValues (image region div : Element) : Except Outcome Unit := do
  let _ ← value div "region"
  let _ ← value div "begin"
  let _ ← value div "end"
  let _ ← value div "smpte:backgroundImage"
  let _ ← value region "xml:id"
  let _ ← value region "tts:origin"
  let _ ← value region "tts:extent"
  let _ ← value image "xml:id"
  let _ ← value image "imagetype"
  let _ ← value image "encoding"

/-- The dump of a round: the names are compared, and logged where both differ. -/
def dumpValues (image region div : Element) : Except Outcome Unit := do
  if (← value div "region") ≠ (← value region "xml:id") then
    if (← value div "smpte:backgroundImage").drop 1 ≠ (← value image "xml:id") then
      logValues image region div

/-- The base64 text of an image. -/
def readImageData (image : Element) : Except Outcome Text :=
  match getText image with
  | none => .error .failure
  | some [] => .error .failure
  | some text => .ok (text.dropWhile fun c => c = 10 || c = 13)

/-- One round of the loop of `SmpteTtmlDecodeFrame`: the item it makes. -/
def makeItem (parser : Parser) (width height : ℕ) (basePts : ℤ) (image region div : Element) :
    Except Outcome Spu := do
  let imageData ← readImageData image
  if parser.mDumpSub then dumpValues image region div
  let pts := basePts + asSigned 32 (smpte_ttml_parse_timecode (← value div "begin") * 90)
  let m_delay := basePts + asSigned 32 (smpte_ttml_parse_timecode (← value div "end") * 90)
  let cut := isMore32Bit pts && !isMore32Bit parser.syncTime
  let origin := firstTwo (extractNumbers false (← value region "tts:origin")) 16 0 0
  let extent := firstTwo (extractNumbers false (← value region "tts:extent")) 16 0 0
  let spu : Spu :=
    { pts := if cut then pts % 2 ^ 32 else pts
      m_delay := if cut then m_delay % 2 ^ 32 else m_delay
      spu_start_x := origin.1
      spu_start_y := origin.2
      spu_width := extent.1
      spu_height := extent.2
      spu_origin_display_w := width
      spu_origin_display_h := height
      spu_data := [] }
  let binaryImageData := base64Decode imageData
  if binaryImageData = [] then .error .failure
  else if (← value image "imagetype") = [80, 78, 71] then
    logValues image region div
    .ok (parser.decodePng binaryImageData spu)
  else .error .failure

/-- The loop of `SmpteTtmlDecodeFrame`. -/
def makeItems (make : Element → Element → Element → Except Outcome Spu) :
    List Element → List Element → List Element → List Shown × Outcome
  | image :: images, region :: regions, div :: divs =>
    match make image region div with
    | .error outcome => ([], outcome)
    | .ok spu =>
      let (rest, outcome) := makeItems make images regions divs
      (⟨image, region, div, spu⟩ :: rest, outcome)
  | _, _, _ => ([], .success)

/-- The lists that the loop walks. -/
structure Lists where
  images : List Element
  regions : List Element
  divs : List Element

/-- `SmpteTtmlDecodeFrame` up to its loop: where the three lists begin. -/
def findLists (root : Element) : Option Lists := do
  let head ← (firstChildOf root "head" "tt:head").head?
  let metadata ← (firstChildOf head "metadata" "tt:metadata").head?
  let layout ← (firstChildOf head "layout" "tt:layout").head?
  let body ← (firstChildOf root "body" "tt:body").head?
  let div ← (firstChildOf body "div" "tt:div").head?
  let divs := firstChildOf div "div" "tt:div"
  if divs.isEmpty then none
  else some ⟨firstChildOf metadata "image" "smpte:image", firstChildOf layout "region" "tt:region",
    divs⟩

/-- The size of the window that the root element gives. -/
def displaySize (root : Element) : ℕ × ℕ :=
  match findAttribute root "tts:extent" with
  | none => (720, 500)
  | some v => firstTwo (extractNumbers false v) 32 720 500

/-- `SmpteTtmlDecodeFrame`, the document parsed: the items in the order they are added,
and how it comes back. -/
def SmpteTtmlDecodeFrame (parser : Parser) (basePts : ℤ) (root : Option Element) :
    List Shown × Outcome :=
  match root with
  | none => ([], .failure)
  | some root =>
    match findLists root with
    | none => ([], .failure)
    | some lists =>
      makeItems (makeItem parser (displaySize root).1 (displaySize root).2 basePts)
        lists.images lists.regions lists.divs

end SmpteTtml
end AmlSubtitle
