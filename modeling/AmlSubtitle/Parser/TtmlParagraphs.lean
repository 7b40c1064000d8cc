import AmlSubtitle.Lib.Delimited
import AmlSubtitle.Parser.TtmlTimecode

/-!
# The paragraphs of a TTML document

`TtmlDecodeFrame` goes from the root to one paragraph, the first one of the first division, and
makes an item of it; from one span of the paragraph to the next it goes one child further, and
takes that child for the line break before the span.

* `pElements`, `pieces`: the paragraphs of a document wherever they stand, and the texts and line
  breaks of one of them.
* `Decodes`: each paragraph with text makes one item, of its text and its duration.
* `Decodable`: there is one paragraph, and the walk sees its line breaks.
* `decodes_iff`: what the walk sees is what there is, as long as the texts themselves have no
  line feeds.
-/

namespace AmlSubtitle
namespace Ttml

open Delimited Scanf SmpteTtml

/-! ## The decoder -/

/-- `AML_SPUVAR`, what the decoder reads and writes of it. -/
structure TtmlSpu where
  pts : ℤ
  m_delay : ℤ
  spu_data : Text
  deriving DecidableEq, Repr

/-- Where `TtmlDecodeFrame` comes to: `headLayoutRegion`, `bodyDiv` and `bodyDivP`. -/
structure Found where
  region : Element
  div : Element
  p : Element

/-- `TtmlDecodeFrame` down to the paragraph. -/
def findParagraph (root : Element) : Option Found := do
  let head ← (firstChildOf root "head" "tt:head").head?
  let headLayout ← (firstChildOf head "layout" "tt:layout").head?
  let headLayoutRegion ← (firstChildOf headLayout "region" "tt:region").head?
  let body ← (firstChildOf root "body" "tt:body").head?
  let bodyDiv ← (firstChildOf body "div" "tt:div").head?
  let bodyDivP ← (firstChildOf bodyDiv "p" "tt:p").head?
  some ⟨headLayoutRegion, bodyDiv, bodyDivP⟩

/-- The spans in the order of the loop: the first one, and what `NextSiblingElement("tt:span")`
gives after it. -/
def walkedSpans (p : Element) : List Element :=
  match firstChildOf p "span" "tt:span" with
  | [] => []
  | span :: siblings => span :: siblings.filter (·.name = "tt:span")

/-- `strcmp(childNodeBodyDivP->ToElement()->Value(), "tt:br") == 0`, if there is a child. -/
def isBreak : Option Node → Except Outcome Bool
  | none => .ok false
  | some node =>
    match toElement node with
    | none => .error .crash
    | some e => .ok (e.name = "tt:br")

/-- `std::string(divPSpan->GetText())`. -/
def spanText (span : Element) : Except Outcome Text :=
  match getText span with
  | none => .error .crash
  | some text => .ok text

/-- The loop over the spans; `childNodes` are the children of the paragraph from
`childNodeBodyDivP` on. -/
def readSpans : List Element → List Node → Text → Except Outcome Text
  | [], _, tempString => .ok tempString
  | divPSpan :: spans, childNodes, tempString => do
    let _ ← value divPSpan "style"
    let breaks ← isBreak childNodes.head?
    let text ← spanText divPSpan
    readSpans spans childNodes.tail
      (if breaks then tempString ++ [10] ++ text else tempString ++ text)

/-- The log reads the attributes of these names. -/
def readValues (e : Element) : List String → Except Outcome Unit
  | [] => .ok ()
  | name :: names => do
    let _ ← value e name
    readValues e names

/-- What the log reads of the region. -/
def regionNames : List String :=
  ["xml:id", "tts:extent", "tts:origin", "tts:padding", "tts:displayAlign", "tts:writingMode"]

/-- What it reads of the division. -/
def divNames : List String := ["xml:id", "style"]

/-- What it reads of the paragraph. -/
def pNames : List String := ["begin", "end", "style", "region", "xml:id"]

/-- The item of a paragraph.  Its text ends in a zero. -/
def decodeParagraph (pts : ℤ) (found : Found) : Except Outcome TtmlSpu := do
  let tempString ← readSpans (walkedSpans found.p) found.p.children []
  readValues found.region regionNames
  readValues found.div divNames
  readValues found.p pNames
  let m_delay := pts + ttml_parse_timecode (← value found.p "begin") (← value found.p "end") * 90
  .ok ⟨pts, m_delay, tempString ++ [0]⟩

/-- `TtmlDecodeFrame`, the document parsed: the items that are added, and how it comes back.
The next `bodyDivP` is looked for, and nothing is made of it. -/
def TtmlDecodeFrame (pts : ℤ) (root : Option Element) : List TtmlSpu × Outcome :=
  match root.bind findParagraph with
  | none => ([], .failure)
  | some found =>
    if (walkedSpans found.p).isEmpty then ([], .failure)
    else
      match decodeParagraph pts found with
      | .error outcome => ([], outcome)
      | .ok spu => ([spu], .success)

/-! ## The paragraphs -/

/-- A text or a line break of a paragraph. -/
inductive Piece where
  | text (value : Text)
  | lineBreak
  deriving DecidableEq, Repr

def IsP (name : String) : Prop := name = "p" ∨ name = "tt:p"

def IsSpan (name : String) : Prop := name = "span" ∨ name = "tt:span"

def IsBr (name : String) : Prop := name = "br" ∨ name = "tt:br"

instance : DecidablePred IsP := fun _ => inferInstanceAs (Decidable (_ ∨ _))

instance : DecidablePred IsSpan := fun _ => inferInstanceAs (Decidable (_ ∨ _))

instance : DecidablePred IsBr := fun _ => inferInstanceAs (Decidable (_ ∨ _))

mutual

/-- The texts of the spans and the line breaks of a node, in document order. -/
def nodePieces : Bool → Node → List Piece
  | inSpan, .element name _ children =>
    if IsBr name then [.lineBreak] else pieces (inSpan || IsSpan name) children
  | inSpan, .text value => if inSpan then [.text value] else []
  | _, .comment => []
  | _, .other => []

/-- Those of some nodes. -/
def pieces : Bool → List Node → List Piece
  | _, [] => []
  | inSpan, node :: nodes => nodePieces inSpan node ++ pieces inSpan nodes

end

mutual

/-- The paragraphs of a node, in document order. -/
def nodeParagraphs : Node → List Element
  | .element name attributes children =>
    if IsP name then ⟨name, attributes, children⟩ :: pElements children else pElements children
  | .text _ => []
  | .comment => []
  | .other => []

/-- Those of some nodes. -/
def pElements : List Node → List Element
  | [] => []
  | node :: nodes => nodeParagraphs node ++ pElements nodes

end

/-- The texts, and how many line breaks stand in front of each. -/
def linesFrom (breaks : ℕ) : List Piece → List (ℕ × Text)
  | [] => []
  | .lineBreak :: ps => linesFrom (breaks + 1) ps
  | .text value :: ps => (breaks, value) :: linesFrom 0 ps

/-- The texts of a paragraph, and how many line breaks stand between each and the one before. -/
def lines (p : Element) : List (ℕ × Text) :=
  match linesFrom 0 (pieces false p.children) with
  | [] => []
  | (_, value) :: rest => (0, value) :: rest

/-- The text of a paragraph: the texts of its spans, and a line feed for each line break between
them. -/
def paragraphText (p : Element) : Text := gapped 10 (lines p)

/-- The paragraph has text. -/
def HasText (p : Element) : Prop := ∃ line ∈ lines p, line.2 ≠ []

instance : DecidablePred HasText := fun p =>
  inferInstanceAs (Decidable (∃ line ∈ lines p, line.2 ≠ []))

/-- The paragraphs with text. -/
def paragraphs (root : Option Element) : List Element :=
  match root with
  | none => []
  | some root => (pElements root.children).filter HasText

/-- The item shows the paragraph: its text, and for as long as it says. -/
structure Shows (p : Element) (spu : TtmlSpu) : Prop where
  text : spu.spu_data = paragraphText p ++ [0]
  duration : ∀ t t' : TimeExpression, findAttribute p "begin" = some t.text →
    findAttribute p "end" = some t'.text →
    spu.m_delay - spu.pts = (t'.milliseconds - t.milliseconds : ℤ) * 90

/-- The items are those of the paragraphs, in their order. -/
def Decodes (pts : ℤ) (root : Option Element) : Prop :=
  (TtmlDecodeFrame pts root).2 ≠ .crash ∧
    List.Forall₂ Shows (paragraphs root) (TtmlDecodeFrame pts root).1

/-! ## The loop over the spans -/

section Walk

/-- The `k`-th child is a `tt:br`. -/
def breakAt (nodes : List Node) (k : ℕ) : Bool :=
  match nodes[k]? with
  | some (.element name _ _) => name = "tt:br"
  | _ => false

/-- The loop gets through. -/
structure Readable (spans : List Element) (nodes : List Node) : Prop where
  ofSpan : ∀ span ∈ spans, (findAttribute span "style").isSome ∧ (getText span).isSome
  ofNode : ∀ node ∈ nodes.take spans.length, (toElement node).isSome

/-- What the loop spells. -/
def walked (spans : List Element) (nodes : List Node) : List (ℕ × Text) :=
  spans.mapIdx fun k span => (if breakAt nodes k then 1 else 0, (getText span).getD [])

theorem walked_cons (span : Element) (spans : List Element) (nodes : List Node) :
    walked (span :: spans) nodes =
      (if breakAt nodes 0 then 1 else 0, (getText span).getD []) :: walked spans nodes.tail := by
  rw [walked, List.mapIdx_cons, walked]
  congr 2
  funext k span
  rw [breakAt, breakAt, List.getElem?_tail]

theorem value_eq (e : Element) (name : String) :
    value e name = if (findAttribute e name).isSome then .ok ((findAttribute e name).getD [])
      else .error .crash := by
  rw [value]
  cases findAttribute e name with
  | none => rfl
  | some v => rfl

theorem spanText_eq (span : Element) :
    spanText span = if (getText span).isSome then .ok ((getText span).getD [])
      else .error .crash := by
  rw [spanText]
  cases getText span with
  | none => rfl
  | some v => rfl

theorem isBreak_eq (nodes : List Node) :
    isBreak nodes.head? = if ∀ node ∈ nodes.head?, (toElement node).isSome then
      .ok (breakAt nodes 0) else .error .crash := by
  rw [breakAt, ← List.head?_eq_getElem?]
  cases nodes with
  | nil => rfl
  | cons node nodes =>
    cases node with
    | element name attributes children => simp [isBreak, toElement]
    | text value => simp [isBreak, toElement]
    | comment => simp [isBreak, toElement]
    | other => simp [isBreak, toElement]

theorem readable_nil (nodes : List Node) : Readable [] nodes :=
  ⟨fun _ h => absurd h List.not_mem_nil, fun _ h => by simp at h⟩

theorem readable_cons {span : Element} {spans : List Element} {nodes : List Node} :
    Readable (span :: spans) nodes ↔
      (findAttribute span "style").isSome ∧ (∀ node ∈ nodes.head?, (toElement node).isSome) ∧
        (getText span).isSome ∧ Readable spans nodes.tail := by
  constructor
  · rintro ⟨hspans, hnodes⟩
    obtain ⟨hstyle, htext⟩ := hspans span List.mem_cons_self
    refine ⟨hstyle, fun node hnode => hnodes node ?_, htext,
      fun s hs => hspans s (List.mem_cons_of_mem _ hs), fun node hnode => hnodes node ?_⟩
    all_goals cases nodes with
      | nil => simp at hnode
      | cons first nodes => simp_all
  · rintro ⟨hstyle, hfirst, htext, hspans, hnodes⟩
    constructor
    · rintro s (_ | ⟨_, hs⟩)
      · exact ⟨hstyle, htext⟩
      · exact hspans s hs
    · cases nodes with
      | nil => simp
      | cons first nodes =>
        rintro node' (_ | ⟨_, hnode⟩)
        · exact hfirst first rfl
        · exact hnodes node' hnode

open Classical in
/-- **The loop over the spans.** -/
theorem readSpans_eq (spans : List Element) (nodes : List Node) (tempString : Text) :
    readSpans spans nodes tempString =
      if Readable spans nodes then .ok (tempString ++ gapped 10 (walked spans nodes))
      else .error .crash := by
  induction spans generalizing nodes tempString with
  | nil =>
    rw [if_pos (readable_nil nodes), readSpans, walked, List.mapIdx_nil, gapped_nil,
      List.append_nil]
  | cons span spans ih =>
    rw [readSpans, value_eq, isBreak_eq, spanText_eq, walked_cons, gapped_cons]
    have hcons := @readable_cons span spans nodes
    by_cases hstyle : (findAttribute span "style").isSome
    swap
    · rw [if_neg hstyle, if_neg (c := Readable _ _) fun h => hstyle (hcons.mp h).1]
      rfl
    by_cases hfirst : ∀ node ∈ nodes.head?, (toElement node).isSome
    swap
    · rw [if_pos hstyle, if_neg hfirst,
        if_neg (c := Readable _ _) fun h => hfirst (hcons.mp h).2.1]
      rfl
    by_cases htext : (getText span).isSome
    swap
    · rw [if_pos hstyle, if_pos hfirst, if_neg htext,
        if_neg (c := Readable _ _) fun h => htext (hcons.mp h).2.2.1]
      rfl
    rw [if_pos hstyle, if_pos hfirst, if_pos htext]
    refine (ih nodes.tail _).trans ?_
    by_cases hrest : Readable spans nodes.tail
    · rw [if_pos hrest, if_pos (hcons.mpr ⟨hstyle, hfirst, htext, hrest⟩)]
      cases breakAt nodes 0 with
      | false => simp
      | true => simp
    · rw [if_neg hrest, if_neg (c := Readable _ _) fun h => hrest (hcons.mp h).2.2.2]

/-- The attributes are there. -/
def HasAll (e : Element) (names : List String) : Prop :=
  ∀ name ∈ names, (findAttribute e name).isSome

instance (e : Element) : DecidablePred (HasAll e) := fun names =>
  inferInstanceAs (Decidable (∀ name ∈ names, (findAttribute e name).isSome))

theorem hasAll_cons {e : Element} {name : String} {names : List String} :
    HasAll e (name :: names) ↔ (findAttribute e name).isSome ∧ HasAll e names :=
  List.forall_mem_cons

open Classical in
theorem readValues_eq (e : Element) (names : List String) :
    readValues e names = if HasAll e names then .ok () else .error .crash := by
  induction names with
  | nil => exact (if_pos (c := HasAll e []) fun _ h => absurd h List.not_mem_nil).symm
  | cons name names ih =>
    rw [readValues, value_eq, ih]
    have hcons := @hasAll_cons e name names
    by_cases hname : (findAttribute e name).isSome
    swap
    · rw [if_neg hname, if_neg (c := HasAll _ _) fun h => hname (hcons.mp h).1]
      rfl
    rw [if_pos hname]
    by_cases hnames : HasAll e names
    · rw [if_pos hnames, if_pos (hcons.mpr ⟨hname, hnames⟩)]
      rfl
    · rw [if_neg hnames, if_neg (c := HasAll _ _) fun h => hnames (hcons.mp h).2]
      rfl

end Walk

/-! ## When the paragraphs are shown -/

/-- Everything that is read is there. -/
structure Complete (found : Found) : Prop where
  region : HasAll found.region regionNames
  div : HasAll found.div divNames
  p : HasAll found.p pNames
  spans : Readable (walkedSpans found.p) found.p.children

/-- The texts of the walked spans are the texts of the paragraph; the first child is no `tt:br`,
and a line break stands between the texts where the child of the same number is one. -/
structure Walks (p : Element) : Prop where
  texts : (walkedSpans p).map getText = (lines p).map fun line => some line.2
  first : breakAt p.children 0 = false
  breaks : ∀ k line, 0 < k → (lines p)[k]? = some line →
    line.1 = if breakAt p.children k then 1 else 0

/-- The fractions of the two times are misread by the same. -/
def SameMisreading (p : Element) : Prop :=
  ∀ t t' : TimeExpression, findAttribute p "begin" = some t.text →
    findAttribute p "end" = some t'.text → misreading t = misreading t'

/-- The paragraph that is found is the only one with text, and is read as it is. -/
structure OnlyParagraph (root : Option Element) (found : Found) : Prop where
  only : paragraphs root = [found.p]
  complete : Complete found
  walks : Walks found.p
  times : SameMisreading found.p

/-- Nothing is found and there is nothing, or the only paragraph is found. -/
def Decodable (root : Option Element) : Prop :=
  match root.bind findParagraph with
  | none => paragraphs root = []
  | some found =>
    if walkedSpans found.p = [] then paragraphs root = [] else OnlyParagraph root found

/-- The texts of the spans are not empty and have no line feed. -/
def PlainTexts (root : Option Element) : Prop :=
  ∀ e ∈ root, ∀ p ∈ pElements e.children, Plain 10 ((lines p).map Prod.snd)

/-! ## What is found -/

theorem toElement_eq_some {node : Node} {e : Element} (h : toElement node = some e) :
    node = .element e.name e.attributes e.children := by
  cases node with
  | element name attributes children =>
    obtain rfl := Option.some.inj h
    rfl
  | text value => cases h
  | comment => cases h
  | other => cases h

theorem firstChildOf_suffix (e : Element) (name name' : String) :
    firstChildOf e name name' <:+ e.children.filterMap toElement := by
  rw [firstChildOf]
  split_ifs
  · exact List.dropWhile_suffix _
  · exact List.dropWhile_suffix _

theorem name_of_head_firstChildElement {e c : Element} {name : String}
    (h : (firstChildElement e name).head? = some c) : c.name = name := by
  have hnot := List.head?_dropWhile_not (fun c : Element => decide (c.name ≠ name))
    (e.children.filterMap toElement)
  rw [firstChildElement] at h
  rw [h] at hnot
  simpa using hnot

theorem name_of_head_firstChildOf {e c : Element} {name name' : String}
    (h : (firstChildOf e name name').head? = some c) : c.name = name ∨ c.name = name' := by
  rw [firstChildOf] at h
  split_ifs at h
  · exact .inr (name_of_head_firstChildElement h)
  · exact .inl (name_of_head_firstChildElement h)

theorem mem_of_head_firstChildOf {e c : Element} {name name' : String}
    (h : (firstChildOf e name name').head? = some c) :
    Node.element c.name c.attributes c.children ∈ e.children := by
  have hmem := (firstChildOf_suffix e name name').subset (List.mem_of_mem_head? h)
  obtain ⟨node, hnode, hc⟩ := List.mem_filterMap.mp hmem
  exact toElement_eq_some hc ▸ hnode

theorem pElements_eq_flatMap (nodes : List Node) :
    pElements nodes = nodes.flatMap nodeParagraphs := by
  induction nodes with
  | nil => rw [pElements, List.flatMap_nil]
  | cons node nodes ih => rw [pElements, List.flatMap_cons, ih]

/-- The paragraphs of a child are paragraphs. -/
theorem pElements_subset_of_head {e c : Element} {name name' : String}
    (h : (firstChildOf e name name').head? = some c) :
    pElements c.children ⊆ pElements e.children := by
  intro p hp
  rw [pElements_eq_flatMap e.children]
  refine List.mem_flatMap.mpr ⟨_, mem_of_head_firstChildOf h, ?_⟩
  rw [nodeParagraphs]
  split_ifs
  · exact List.mem_cons_of_mem _ hp
  · exact hp

/-- What is found is a paragraph. -/
theorem mem_of_findParagraph {root : Element} {found : Found}
    (h : findParagraph root = some found) : found.p ∈ pElements root.children := by
  simp only [findParagraph, Option.bind_eq_bind, Option.bind_eq_some_iff] at h
  obtain ⟨head, -, layout, -, region, -, body, hbody, div, hdiv, p, hp, hfound⟩ := h
  obtain rfl := Option.some.inj hfound
  refine pElements_subset_of_head hbody (pElements_subset_of_head hdiv ?_)
  rw [pElements_eq_flatMap]
  refine List.mem_flatMap.mpr ⟨_, mem_of_head_firstChildOf hp, ?_⟩
  rw [nodeParagraphs, if_pos (c := IsP p.name) (name_of_head_firstChildOf hp)]
  exact List.mem_cons_self

/-! ## The texts that are read -/

section Texts

/-- The texts among some pieces. -/
def texts (ps : List Piece) : List Text :=
  ps.filterMap fun
    | .text value => some value
    | .lineBreak => none

theorem map_snd_linesFrom (breaks : ℕ) (ps : List Piece) :
    (linesFrom breaks ps).map Prod.snd = texts ps := by
  fun_induction linesFrom breaks ps with
  | case1 => rfl
  | case2 breaks ps ih => exact ih
  | case3 breaks value ps ih => rw [List.map_cons, ih, texts, texts, List.filterMap_cons]

theorem map_snd_lines (p : Element) :
    (lines p).map Prod.snd = texts (pieces false p.children) := by
  rw [← map_snd_linesFrom 0, lines]
  cases linesFrom 0 (pieces false p.children) with
  | nil => rfl
  | cons line rest => rfl

theorem fst_of_lines_zero {p : Element} {line : ℕ × Text} (h : (lines p)[0]? = some line) :
    line.1 = 0 := by
  rw [lines] at h
  cases hlines : linesFrom 0 (pieces false p.children) with
  | nil =>
    rw [hlines] at h
    cases h
  | cons first rest =>
    rw [hlines] at h
    rw [← Option.some.inj h]

theorem pieces_eq_flatMap (inSpan : Bool) (nodes : List Node) :
    pieces inSpan nodes = nodes.flatMap (nodePieces inSpan) := by
  induction nodes with
  | nil => rw [pieces, List.flatMap_nil]
  | cons node nodes ih => rw [pieces, List.flatMap_cons, ih]

/-- `GetText` gives one of the texts of a span. -/
theorem mem_texts_of_getText {span : Element} {v : Text} (h : getText span = some v) :
    v ∈ texts (pieces true span.children) := by
  have hmem : Node.text v ∈ span.children := by
    rw [getText] at h
    split at h
    · next heq =>
      obtain rfl := Option.some.inj h
      exact (List.dropWhile_suffix _).subset (heq ▸ List.mem_cons_self)
    · cases h
  refine List.mem_filterMap.mpr ⟨.text v, ?_, rfl⟩
  rw [pieces_eq_flatMap]
  refine List.mem_flatMap.mpr ⟨_, hmem, ?_⟩
  rw [nodePieces, if_pos rfl]
  exact List.mem_singleton_self _

theorem pieces_of_span {span : Element} (h : IsSpan span.name) (inSpan : Bool) :
    nodePieces inSpan (.element span.name span.attributes span.children) =
      pieces true span.children := by
  have hbr : ¬ IsBr span.name := by
    rcases h with h | h
    all_goals
      rw [h]
      decide
  rw [nodePieces, if_neg hbr, decide_eq_true h, Bool.or_true]

/-- The texts that `GetText` gives of some spans among some nodes are among the texts. -/
theorem filterMap_getText_sublist {spans : List Element} {nodes : List Node}
    (hspan : ∀ span ∈ spans, IsSpan span.name)
    (h : spans.Sublist (nodes.filterMap toElement)) (inSpan : Bool) :
    (spans.filterMap getText).Sublist (texts (pieces inSpan nodes)) := by
  induction nodes generalizing spans with
  | nil =>
    rw [List.filterMap_nil, List.sublist_nil] at h
    rw [h]
    exact List.nil_sublist _
  | cons node nodes ih =>
    rw [pieces, texts, List.filterMap_append]
    cases he : toElement node with
    | none =>
      rw [List.filterMap_cons_none he] at h
      exact (ih hspan h).trans (List.sublist_append_right _ _)
    | some e =>
      rw [List.filterMap_cons_some he] at h
      cases h with
      | cons _ h => exact (ih hspan h).trans (List.sublist_append_right _ _)
      | @cons_cons spans _ _ h =>
        -- a span stands for its own texts, of which `GetText` gives at most one
        have hone : ([e].filterMap getText).Sublist (texts (nodePieces inSpan node)) := by
          rw [toElement_eq_some he, pieces_of_span (hspan e List.mem_cons_self)]
          cases hv : getText e with
          | none =>
            rw [List.filterMap_cons_none hv]
            exact List.nil_sublist _
          | some v =>
            rw [List.filterMap_cons_some hv]
            exact List.singleton_sublist.mpr (mem_texts_of_getText hv)
        rw [← List.singleton_append, List.filterMap_append]
        exact hone.append (ih (fun s hs => hspan s (List.mem_cons_of_mem _ hs)) h)

theorem walkedSpans_sublist (p : Element) :
    (walkedSpans p).Sublist (p.children.filterMap toElement) := by
  have hsuffix := (firstChildOf_suffix p "span" "tt:span").sublist
  rw [walkedSpans]
  cases hspans : firstChildOf p "span" "tt:span" with
  | nil => exact List.nil_sublist _
  | cons span siblings =>
    rw [hspans] at hsuffix
    exact (List.Sublist.cons_cons _ List.filter_sublist).trans hsuffix

theorem isSpan_of_walked {p span : Element} (h : span ∈ walkedSpans p) : IsSpan span.name := by
  rw [walkedSpans] at h
  cases hspans : firstChildOf p "span" "tt:span" with
  | nil =>
    rw [hspans] at h
    cases h
  | cons first siblings =>
    rw [hspans] at h
    rcases List.mem_cons.mp h with rfl | h
    · have hhead : (firstChildOf p "span" "tt:span").head? = some span := by rw [hspans]; rfl
      exact name_of_head_firstChildOf hhead
    · exact .inr (of_decide_eq_true (List.mem_filter.mp h).2)

end Texts

/-! ## The item and its paragraph -/

section Item

variable {pts : ℤ} {found : Found}

/-- The item of a paragraph that is read through. -/
def itemOf (pts : ℤ) (found : Found) : TtmlSpu where
  pts := pts
  m_delay := pts + ttml_parse_timecode ((findAttribute found.p "begin").getD [])
    ((findAttribute found.p "end").getD []) * 90
  spu_data := gapped 10 (walked (walkedSpans found.p) found.p.children) ++ [0]

open Classical in
theorem decodeParagraph_eq (pts : ℤ) (found : Found) :
    decodeParagraph pts found =
      if Complete found then .ok (itemOf pts found) else .error .crash := by
  rw [decodeParagraph, readSpans_eq, readValues_eq, readValues_eq, readValues_eq, value_eq,
    value_eq]
  by_cases hspans : Readable (walkedSpans found.p) found.p.children
  swap
  · rw [if_neg hspans, if_neg fun h : Complete found => hspans h.spans]
    rfl
  by_cases hregion : HasAll found.region regionNames
  swap
  · rw [if_pos hspans, if_neg hregion, if_neg fun h : Complete found => hregion h.region]
    rfl
  by_cases hdiv : HasAll found.div divNames
  swap
  · rw [if_pos hspans, if_pos hregion, if_neg hdiv, if_neg fun h : Complete found => hdiv h.div]
    rfl
  by_cases hp : HasAll found.p pNames
  swap
  · rw [if_pos hspans, if_pos hregion, if_pos hdiv, if_neg hp,
      if_neg fun h : Complete found => hp h.p]
    rfl
  rw [if_pos hspans, if_pos hregion, if_pos hdiv, if_pos hp, if_pos (hp "begin" (by decide)),
    if_pos (hp "end" (by decide)), if_pos (⟨hregion, hdiv, hp, hspans⟩ : Complete found)]
  rfl

/-- What the walk spells are the lines if it sees the line breaks. -/
theorem walked_of_walks {p : Element} (hwalks : Walks p) :
    walked (walkedSpans p) p.children = lines p := by
  refine List.ext_getElem? fun k => ?_
  have htext := congrArg (·[k]?) hwalks.texts
  simp only [List.getElem?_map] at htext
  rw [walked, List.getElem?_mapIdx]
  cases hline : (lines p)[k]? with
  | none =>
    rw [hline] at htext
    rw [Option.map_eq_none_iff.mp htext]
    rfl
  | some line =>
    rw [hline] at htext
    obtain ⟨span, hspan, hget⟩ := Option.map_eq_some_iff.mp htext
    have hbreaks : line.1 = if breakAt p.children k then 1 else 0 := by
      rcases Nat.eq_zero_or_pos k with rfl | hk
      · rw [fst_of_lines_zero hline, hwalks.first]
        rfl
      · exact hwalks.breaks k line hk hline
    rw [hspan, Option.map_some, hget, Option.getD_some, ← hbreaks]

/-- And only then. -/
theorem walks_of_walked {p : Element} (hspans : walkedSpans p ≠ [])
    (h : Readable (walkedSpans p) p.children)
    (hlines : walked (walkedSpans p) p.children = lines p) : Walks p where
  texts := by
    refine List.ext_getElem? fun k => ?_
    rw [← hlines, List.getElem?_map, List.getElem?_map, walked, List.getElem?_mapIdx]
    cases hspan : (walkedSpans p)[k]? with
    | none => rfl
    | some span =>
      obtain ⟨v, hv⟩ := Option.isSome_iff_exists.mp (h.ofSpan span (List.mem_of_getElem? hspan)).2
      simp [hv]
  first := by
    obtain ⟨span, spans, hcons⟩ := List.exists_cons_of_ne_nil hspans
    have hline : (lines p)[0]? =
        some (if breakAt p.children 0 then 1 else 0, (getText span).getD []) := by
      rw [← hlines, hcons, walked_cons]
      rfl
    have hzero := fst_of_lines_zero hline
    by_contra htrue
    rw [if_pos (Bool.of_not_eq_false htrue)] at hzero
    cases hzero
  breaks := by
    intro k line _ hline
    rw [← hlines, walked, List.getElem?_mapIdx] at hline
    obtain ⟨span, -, rfl⟩ := Option.map_eq_some_iff.mp hline
    rfl

/-- The texts that are read are among the texts of the paragraph. -/
theorem map_snd_walked_sublist {p : Element} (h : Readable (walkedSpans p) p.children) :
    ((walked (walkedSpans p) p.children).map Prod.snd).Sublist ((lines p).map Prod.snd) := by
  have htexts : (walked (walkedSpans p) p.children).map Prod.snd =
      (walkedSpans p).filterMap getText := by
    have hmap : ∀ spans nodes, (walked spans nodes).map Prod.snd =
        spans.map fun span => (getText span).getD [] := by
      intro spans nodes
      refine List.ext_getElem? fun k => ?_
      rw [List.getElem?_map, walked, List.getElem?_mapIdx, List.getElem?_map, Option.map_map]
      rfl
    rw [hmap, ← List.filterMap_eq_map]
    refine List.filterMap_congr fun span hspan => ?_
    obtain ⟨v, hv⟩ := Option.isSome_iff_exists.mp (h.ofSpan span hspan).2
    rw [Function.comp_apply, hv, Option.getD_some]
  rw [htexts, map_snd_lines]
  exact filterMap_getText_sublist (fun _ hs => isSpan_of_walked hs) (walkedSpans_sublist p) false

/-- The item lasts as long as the paragraph says if the two times are misread by the same. -/
theorem duration_itemOf_iff : (∀ t t' : TimeExpression,
    findAttribute found.p "begin" = some t.text → findAttribute found.p "end" = some t'.text →
      (itemOf pts found).m_delay - (itemOf pts found).pts =
        (t'.milliseconds - t.milliseconds : ℤ) * 90) ↔ SameMisreading found.p := by
  refine forall_congr' fun t => forall_congr' fun t' => forall_congr' fun ht =>
    forall_congr' fun ht' => ?_
  rw [itemOf, ht, ht', Option.getD_some, Option.getD_some, ttml_parse_timecode_text]
  dsimp only
  omega

theorem shows_of_walks (hwalks : Walks found.p) (htimes : SameMisreading found.p) :
    Shows found.p (itemOf pts found) where
  text := by rw [itemOf, walked_of_walks hwalks, paragraphText]
  duration := duration_itemOf_iff.mpr htimes

theorem walks_of_shows (hcomplete : Complete found) (hspans : walkedSpans found.p ≠ [])
    (hplain : Plain 10 ((lines found.p).map Prod.snd)) (h : Shows found.p (itemOf pts found)) :
    Walks found.p ∧ SameMisreading found.p := by
  have htext := List.append_cancel_right h.text
  refine ⟨walks_of_walked hspans hcomplete.spans ?_, duration_itemOf_iff.mp h.duration⟩
  exact gapped_unique hplain (map_snd_walked_sublist hcomplete.spans) htext

/-- A paragraph that is read has text. -/
theorem hasText_of_complete (hcomplete : Complete found) (hspans : walkedSpans found.p ≠ [])
    (hplain : Plain 10 ((lines found.p).map Prod.snd)) : HasText found.p := by
  obtain ⟨span, spans, hcons⟩ := List.exists_cons_of_ne_nil hspans
  have hmem := (map_snd_walked_sublist hcomplete.spans).subset
    (List.mem_map_of_mem (f := Prod.snd) (by rw [hcons, walked_cons]; exact List.mem_cons_self))
  obtain ⟨line, hline, heq⟩ := List.mem_map.mp hmem
  exact ⟨line, hline, (hplain _ (List.mem_map_of_mem hline)).1⟩

end Item

/-! ## Documents -/

section Documents

variable {pts : ℤ} {root : Option Element}

theorem decodes_iff_of_nothing (h : TtmlDecodeFrame pts root = ([], .failure)) :
    Decodes pts root ↔ paragraphs root = [] := by
  rw [Decodes, h]
  exact ⟨fun h => List.forall₂_nil_right_iff.mp h.2, fun h => ⟨by decide, h ▸ .nil⟩⟩

open Classical in
theorem TtmlDecodeFrame_of_found {found : Found} (h : root.bind findParagraph = some found)
    (hspans : walkedSpans found.p ≠ []) : TtmlDecodeFrame pts root =
      if Complete found then ([itemOf pts found], .success) else ([], .crash) := by
  rw [TtmlDecodeFrame, h]
  dsimp only
  rw [if_neg fun hempty => hspans (List.isEmpty_iff.mp hempty), decodeParagraph_eq]
  by_cases hcomplete : Complete found
  · rw [if_pos hcomplete, if_pos hcomplete]
  · rw [if_neg hcomplete, if_neg hcomplete]

/-- A paragraph that is shown is the only one, and the walk sees its line breaks. -/
theorem onlyParagraph_of_decodes {found : Found} (hplain : PlainTexts root)
    (hfound : root.bind findParagraph = some found) (hspans : walkedSpans found.p ≠ [])
    (h : Decodes pts root) : OnlyParagraph root found := by
  rw [Decodes, TtmlDecodeFrame_of_found hfound hspans] at h
  by_cases hcomplete : Complete found
  swap
  · rw [if_neg hcomplete] at h
    exact absurd rfl h.1
  rw [if_pos hcomplete] at h
  obtain ⟨e, rfl, he⟩ := Option.bind_eq_some_iff.mp hfound
  have hmem := mem_of_findParagraph he
  have htexts := hplain e rfl found.p hmem
  have htext := hasText_of_complete hcomplete hspans htexts
  obtain ⟨p, _, hshows, hnil, honly⟩ := List.forall₂_cons_right_iff.mp h.2
  rw [List.forall₂_nil_right_iff.mp hnil] at honly
  -- the paragraph that is found is the one there is
  have hfirst : found.p ∈ paragraphs (some e) :=
    List.mem_filter.mpr ⟨hmem, decide_eq_true htext⟩
  rw [honly, List.mem_singleton] at hfirst
  rw [← hfirst] at hshows honly
  obtain ⟨hwalks, htimes⟩ := walks_of_shows hcomplete hspans htexts hshows
  exact ⟨honly, hcomplete, hwalks, htimes⟩

/-- **Paragraphs.**  Where the only paragraph is the one that is found, and the walk sees its line
breaks, it is shown; and it is shown only there, as long as the texts have no line feeds. -/
theorem decodes_iff_decodable (pts : ℤ) (root : Option Element) :
    (PlainTexts root → (Decodes pts root ↔ Decodable root)) ∧
      (Decodable root → Decodes pts root) := by
  cases hfound : root.bind findParagraph with
  | none =>
    have hnothing : TtmlDecodeFrame pts root = ([], .failure) := by rw [TtmlDecodeFrame, hfound]
    have hiff : Decodes pts root ↔ Decodable root := by
      rw [decodes_iff_of_nothing hnothing, Decodable, hfound]
    exact ⟨fun _ => hiff, hiff.mpr⟩
  | some found =>
    by_cases hspans : walkedSpans found.p = []
    · have hnothing : TtmlDecodeFrame pts root = ([], .failure) := by
        rw [TtmlDecodeFrame, hfound]
        exact if_pos (List.isEmpty_iff.mpr hspans)
      have hiff : Decodes pts root ↔ Decodable root := by
        rw [decodes_iff_of_nothing hnothing, Decodable, hfound]
        exact (iff_of_eq (if_pos hspans)).symm
      exact ⟨fun _ => hiff, hiff.mpr⟩
    · have hdecodable : Decodable root ↔ OnlyParagraph root found := by
        rw [Decodable, hfound]
        exact iff_of_eq (if_neg hspans)
      have hback : Decodable root → Decodes pts root := by
        intro h
        obtain ⟨honly, hcomplete, hwalks, htimes⟩ := hdecodable.mp h
        rw [Decodes, TtmlDecodeFrame_of_found hfound hspans, if_pos hcomplete, honly]
        exact ⟨(fun h => nomatch h), .cons (shows_of_walks hwalks htimes) .nil⟩
      refine ⟨fun hplain => ⟨fun h => hdecodable.mpr ?_, hback⟩, hback⟩
      exact onlyParagraph_of_decodes hplain hfound hspans h

end Documents

/-- `00:00:01`. -/
def oneSecond : TimeExpression :=
  { oneAndAHalf with
    fraction := none
    fraction_digits := by decide +kernel }

/-- `00:00:02`. -/
def twoSeconds : TimeExpression :=
  { oneSecond with
    seconds := [48, 50]
    ne_nil := by decide
    seconds_digits := by decide +kernel
    seconds_le := by decide }

/-- A paragraph of a second. -/
def paragraph (children : List Node) : Element where
  name := "tt:p"
  attributes := [("begin", oneSecond.text), ("end", twoSeconds.text), ("style", []),
    ("region", []), ("xml:id", [])]
  children := children

/-- A line of a paragraph. -/
def lineOf (value : Text) : Node := .element "tt:span" [("style", [])] [.text value]

def br : Node := .element "tt:br" [] []

/-- An element as a node. -/
def node (e : Element) : Node := .element e.name e.attributes e.children

/-- The region of a document, and its division. -/
def regionElement : Element := ⟨"tt:region", regionNames.map fun name => (name, []), []⟩

def division (ps : List Element) : Element :=
  ⟨"tt:div", divNames.map fun name => (name, []), ps.map node⟩

def document (ps : List Element) : Element where
  name := "tt:tt"
  attributes := []
  children := [.element "tt:head" [] [.element "tt:layout" [] [node regionElement]],
    .element "tt:body" [] [node (division ps)]]

/-- `A` and `B` on two lines. -/
def linesAB : Element := paragraph [lineOf [65], br, lineOf [66]]

/-- A paragraph of two lines is shown. -/
theorem decodes_twoLines : Decodes 0 (some (document [linesAB])) := by
  refine ((decodes_iff_decodable 0 (some (document [linesAB]))).1 ?_).mpr ?_
  · rintro _ ⟨⟩ p hp
    obtain rfl : p = linesAB := List.mem_singleton.mp hp
    have hlines : lines linesAB = [(0, [65]), (1, [66])] := rfl
    rw [hlines]
    exact List.forall_mem_cons.mpr ⟨by decide, List.forall_mem_singleton.mpr (by decide)⟩
  · have hreadable : Readable (walkedSpans linesAB) linesAB.children := ⟨by decide, by decide⟩
    have hcomplete : Complete ⟨regionElement, division [linesAB], linesAB⟩ :=
      ⟨by decide, by decide, by decide, hreadable⟩
    have hwalks : Walks linesAB := walks_of_walked (by decide) hreadable rfl
    have htimes : SameMisreading linesAB := by
      intro t t' ht ht'
      obtain rfl := TimeExpression.text_injective (Option.some.inj ht)
      obtain rfl := TimeExpression.text_injective (Option.some.inj ht')
      decide
    exact (⟨rfl, hcomplete, hwalks, htimes⟩ : OnlyParagraph (some (document [linesAB])) _)

/-- Three lines are shown on two. -/
example : (TtmlDecodeFrame 0 (some (document
    [paragraph [lineOf [65], br, lineOf [66], br, lineOf [67]]]))).1.map TtmlSpu.spu_data =
      [[65, 10, 66, 67, 0]] := by decide

/-- `A` and `B` in two paragraphs. -/
def twoParagraphs : Element := document [paragraph [lineOf [65]], paragraph [lineOf [66]]]

/-- Of two paragraphs one is shown. -/
theorem not_decodes_twoParagraphs : ¬ ∀ (pts : ℤ) (root : Option Element), Decodes pts root := by
  intro h
  have hlength := (h 0 (some twoParagraphs)).2.length_eq
  exact absurd hlength (by decide)

end Ttml
end AmlSubtitle
