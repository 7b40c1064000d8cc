import AmlSubtitle.Parser.ParserFactory
import AmlSubtitle.Parser.TeletextPages

/-!
# `TeletextParser.cpp`: pages, commands and resets

The thread of the parser feeds a teletext decoder.  The decoder reports every page it has
put together (`handler`); between two reads the thread carries out one command of the
remote control (`handleControl`).  Commands are queued by another thread
(`updateParameter`), which also throws away what has been recorded when the programme is
another one.

* What is decoded, drawn and shown touches neither the array of subtitle pages nor the
  index into it.  It touches the fields of `Display`; there an event says what comes out
  of it (`drawn`), whatever that is.
* A read of the array outside its bounds gives whatever is there (`outside`).
* `Effect`: the cells a call reads to find the next subtitle page, and the pages it
  selects by it.
* `recorded`: the pages recorded since the last reset, in that order.
-/

namespace AmlSubtitle
namespace Teletext

def TELETEXT_MAX_PAGE_NUMBER : ℤ := 900
def TELETEXT_MIN_PAGE_NUMBER : ℤ := 99
def TELETEXT_PAGE_NUMBER_800 : ℤ := 800
def TELETEXT_MIN_SUBPAGE_NUMBER : ℤ := 0
def TELETEXT_MAX_SUBPAGE_NUMBER : ℤ := 9999
def TELETEXT_INVALID_SUBPAGE_NUMBER : ℤ := -1
def TELETEXT_MIN_MAGAZINE_NUMBER : ℤ := 0
def TELETEXT_MAX_MAGAZINE_NUMBER : ℤ := 7
def TELETEXT_MAX_PAGENO_NUMBER : ℤ := 99
def AM_TT2_ANY_SUBNO : ℤ := 0x3F7F
def AM_TT2_HOME_PAGENO : ℤ := 100
def C6_SUBTITLE : ℕ := 0x008000

/-- The types of pages that only say that something is missing. -/
def isWarnPage (pageType : ℕ) : Bool :=
  pageType = 0x548080 ∨ pageType = 0x548000 ∨ pageType = 0xb18081

/-- The page carries subtitles. -/
def isC6 (pageType : ℕ) : Bool := pageType &&& C6_SUBTITLE ≠ 0

/-- `vbi_bcd2dec`. -/
def vbiBcd2dec (bcd : ℤ) : ℤ :=
  bcd % 16 + bcd / 16 % 16 * 10 + bcd / 256 % 16 * 100 + bcd / 4096 % 16 * 1000

/-- `vbi_dec2bcd`, of a number that is not negative. -/
def vbiDec2bcd (dec : ℤ) : ℤ :=
  dec % 10 + dec / 10 % 10 * 16 + dec / 100 % 10 * 256 + dec / 1000 % 10 * 4096

def convertPageDecimal2Hex (magazine pageNo : ℤ) : ℤ :=
  if magazine < TELETEXT_MIN_MAGAZINE_NUMBER ∨ TELETEXT_MAX_MAGAZINE_NUMBER < magazine ∨
      TELETEXT_MAX_PAGENO_NUMBER < vbiBcd2dec pageNo then
    100
  else if magazine = TELETEXT_MIN_MAGAZINE_NUMBER then
    800 + vbiBcd2dec pageNo
  else
    vbiBcd2dec (magazine * 256 + pageNo)

/-! ## The context -/

inductive TeletextSubtitleMode where
  | subtitle
  | graphics
  deriving DecidableEq, Repr

inductive TeletextPageState where
  | display
  | search
  | input
  deriving DecidableEq, Repr

/-- Analogue and digital television. -/
inductive Broadcast where
  | atv
  | dtv
  deriving DecidableEq, Repr

/-- The fields that decoding and drawing change.  `lastShowingPage` is global. -/
structure Display where
  gotoPage : ℤ
  pageNum : ℤ
  subPageNum : ℤ
  acceptSubPage : ℤ
  dispUpdate : Bool
  pageState : TeletextPageState
  handlerRet : ℤ
  isSubtitle : Bool
  lastShowingPage : ℤ
  deriving DecidableEq, Repr

/-- `ZvbiGlobalStatus`, which outlives the parser. -/
structure ZvbiGlobalStatus where
  lastMagazine : ℤ
  lastPageNo : ℤ
  lastSubPageNo : ℤ
  mLastPid : ℤ
  mLastOnid : ℤ
  mLastTsid : ℤ
  mKeepUsingVbi : Bool
  deriving DecidableEq, Repr

/-- `TeletextContext`, with the commands that wait and the global status. -/
structure TeletextContext where
  display : Display
  subtitlePages : List ℤ
  subtitlePageId : ℤ
  subtitleMode : TeletextSubtitleMode
  atvTeletext : Bool
  dtvTeletext : Bool
  gotoAtvSubtitleFlag : Bool
  gotoDtvSubtitleFlag : Bool
  /-- There is a decoder. -/
  vbi : Bool
  mControlCmds : List TeletextParam
  status : ZvbiGlobalStatus
  recorded : List ℤ
  deriving DecidableEq, Repr

/-- `initContext`, with what the parsers before it have left behind. -/
def initContext (status : ZvbiGlobalStatus) (lastShowingPage : ℤ) : TeletextContext where
  display := ⟨100, 100, TELETEXT_MIN_SUBPAGE_NUMBER, 0, false, .display, 0, false, lastShowingPage⟩
  subtitlePages := List.replicate TELETEXT_SUBTITLE_MAX_NUMBER 0
  subtitlePageId := -1
  subtitleMode := .subtitle
  atvTeletext := false
  dtvTeletext := false
  gotoAtvSubtitleFlag := false
  gotoDtvSubtitleFlag := false
  vbi := false
  mControlCmds := []
  status := status
  recorded := []

/-- What a call leaves behind, the cells it reads and the pages it selects. -/
structure Effect where
  ctx : TeletextContext
  reads : List ℤ
  selected : List ℤ

/-- The cell is one of the array. -/
def InBounds (i : ℤ) : Prop := 0 ≤ i ∧ i < TELETEXT_SUBTITLE_MAX_NUMBER

instance (i : ℤ) : Decidable (InBounds i) := inferInstanceAs (Decidable (_ ∧ _))

/-- The read `subtitlePages[i]`. -/
def pageAt (subtitlePages : List ℤ) (outside : ℤ → ℤ) (i : ℤ) : ℤ :=
  if InBounds i then subtitlePages.getD i.toNat 0 else outside i

namespace TeletextContext

variable (ctx : TeletextContext)

/-- Teletext of this kind has arrived. -/
def has : Broadcast → Bool
  | .atv => ctx.atvTeletext
  | .dtv => ctx.dtvTeletext

def setHas : Broadcast → TeletextContext
  | .atv => { ctx with atvTeletext := true }
  | .dtv => { ctx with dtvTeletext := true }

/-- The flag that asks for a subtitle page. -/
def gotoFlag : Broadcast → Bool
  | .atv => ctx.gotoAtvSubtitleFlag
  | .dtv => ctx.gotoDtvSubtitleFlag

def setGotoFlag : Broadcast → Bool → TeletextContext
  | .atv, flag => { ctx with gotoAtvSubtitleFlag := flag }
  | .dtv, flag => { ctx with gotoDtvSubtitleFlag := flag }

def draw (drawn : Display → Display) : TeletextContext := { ctx with display := drawn ctx.display }

end TeletextContext

/-! ## The pages of the decoder -/

/-- A page that the decoder reports: its number, the answers to the three calls of
`vbi_fetch_vt_page`, and what comes out of drawing it. -/
structure TtxPage where
  pgno : ℤ
  subno : ℤ
  atvType : Option ℕ
  dtvType : Option ℕ
  pageType : Option ℕ
  drawn : Display → Display
  /-- The magazines are `1` to `8`. -/
  pgno_ge : 0x100 ≤ pgno
  pgno_lt : pgno < 0x900

/-- Whether the page that was fetched is to be recorded. -/
def records (ctx : TeletextContext) (b : Broadcast) (pgno : ℤ) (pageType : Option ℕ) : Bool :=
  ctx.has b ∧ pgno < TELETEXT_MAX_PAGE_NUMBER ∧ TELETEXT_MIN_PAGE_NUMBER < pgno ∧
    pageType.any isC6

/-- The block of `handler` that records pages of one kind. -/
def savePage (b : Broadcast) (pgno : ℤ) (pageType : Option ℕ) (ctx : TeletextContext) : Effect :=
  let r := if records ctx b pgno pageType then
      recordSubtitlePage pgno ctx.subtitlePages (ctx.gotoFlag b)
    else ⟨ctx.subtitlePages, 0, [], ctx.gotoFlag b, none⟩
  let r := if ctx.has b then r.sort else r
  { ctx := TeletextContext.setGotoFlag
      { ctx with
        subtitlePages := r.subtitlePages
        recorded := ctx.recorded ++ r.recorded
        display := { ctx.display with gotoPage := r.gotoPage.getD ctx.display.gotoPage } }
      b r.gotoFlag
    reads := []
    selected := r.gotoPage.toList }

/-- `subtitlePages[0]` is set when it is zero. -/
def saveFirstPage (pgno : ℤ) (ctx : TeletextContext) : TeletextContext :=
  if ctx.subtitlePages.getD 0 0 = 0 ∧ ctx.display.isSubtitle = true then
    { ctx with
      subtitlePages := ctx.subtitlePages.set 0 pgno
      recorded := ctx.recorded ++ [pgno] }
  else ctx

/-- The end of `handler`, from the last fetch of the page on. -/
def showFetched (ev : TtxPage) (ctx : TeletextContext) : TeletextContext :=
  let pgno := vbiBcd2dec ev.pgno
  match ev.pageType with
  | none => ctx
  | some pageType =>
    if isWarnPage pageType then ctx
    else
      let display := { ctx.display with isSubtitle := isC6 pageType }
      let display :=
        if 0 < display.gotoPage ∧ pgno = display.gotoPage ∧ display.isSubtitle = true then
          { display with dispUpdate := false, pageState := .display }
        else display
      (saveFirstPage pgno { ctx with display := display }).draw ev.drawn

/-- `handler` from the point on where pages have been recorded. -/
def showPage (ev : TtxPage) (ctx : TeletextContext) : TeletextContext :=
  let pgno := vbiBcd2dec ev.pgno
  let subPgno := vbiBcd2dec ev.subno
  if ctx.display.pageState = .display then
    if pgno ≠ ctx.display.gotoPage then ctx.draw ev.drawn
    else if ctx.display.subPageNum ≠ AM_TT2_ANY_SUBNO ∧ subPgno ≠ ctx.display.subPageNum then ctx
    else showFetched ev { ctx with display := { ctx.display with acceptSubPage := subPgno } }
  else showFetched ev ctx

def handler (ev : TtxPage) (ctx : TeletextContext) : Effect :=
  if ctx.display.handlerRet < 0 then ⟨ctx, [], []⟩
  else if ctx.display.dispUpdate then
    let atv := savePage .atv (vbiBcd2dec ev.pgno) ev.atvType ctx
    let dtv := savePage .dtv (vbiBcd2dec ev.pgno) ev.dtvType atv.ctx
    ⟨showPage ev dtv.ctx, [], atv.selected ++ dtv.selected⟩
  else ⟨showPage ev ctx, [], []⟩

/-! ## Setting parameters -/

def updateProgramInfo (param : TeletextParam) (status : ZvbiGlobalStatus) : ZvbiGlobalStatus :=
  { status with
    mKeepUsingVbi := status.mLastPid = param.pid ∧ status.mLastOnid = param.onid ∧
      status.mLastTsid = param.tsid ∧ param.tsid ≠ -1
    mLastPid := param.pid
    mLastOnid := param.onid
    mLastTsid := param.tsid }

/-- The magazine of the command is one. -/
def hasMagazine (param : TeletextParam) : Bool :=
  TELETEXT_MIN_MAGAZINE_NUMBER ≤ param.magazine ∧ param.magazine ≤ TELETEXT_MAX_MAGAZINE_NUMBER

def hasSubPage (param : TeletextParam) : Bool :=
  (TELETEXT_MIN_SUBPAGE_NUMBER ≤ param.subPageNo ∧
      param.subPageNo ≤ TELETEXT_MAX_SUBPAGE_NUMBER) ∨
    param.subPageNo = TELETEXT_INVALID_SUBPAGE_NUMBER

/-- The programme is the one before: the home page of a command becomes the page that was
shown last. -/
def keepProgram (param : TeletextParam) (ctx : TeletextContext) :
    TeletextContext × TeletextParam :=
  let last := ctx.display.lastShowingPage
  if param.event = .goToPage ∧ hasMagazine param = true then
    if ctx.status.lastMagazine = param.magazine ∧ ctx.status.lastPageNo = param.pageNo then
      let pageNum := vbiDec2bcd last
      if last < TELETEXT_MAX_PAGE_NUMBER ∧ TELETEXT_PAGE_NUMBER_800 ≤ last then
        ({ ctx with
          display := { ctx.display with lastShowingPage := 100 }
          status := { ctx.status with
            lastMagazine := TELETEXT_MIN_MAGAZINE_NUMBER, lastPageNo := 0, lastSubPageNo := 0 } },
          { param with magazine := TELETEXT_MIN_MAGAZINE_NUMBER, pageNo := pageNum % 256 })
      else (ctx, { param with magazine := pageNum / 256, pageNo := pageNum % 256 })
    else
      ({ ctx with
        display := { ctx.display with
          lastShowingPage := convertPageDecimal2Hex param.magazine param.pageNo }
        status := { ctx.status with
          lastMagazine := param.magazine
          lastPageNo := param.pageNo
          lastSubPageNo := param.subPageNo } }, param)
  else (ctx, param)

/-- The programme is another one: what was recorded is thrown away. -/
def resetProgram (param : TeletextParam) (ctx : TeletextContext) : TeletextContext :=
  { ctx with
    subtitlePages := List.replicate TELETEXT_SUBTITLE_MAX_NUMBER 0
    recorded := []
    subtitlePageId := 0
    vbi := false
    display := { ctx.display with
      gotoPage :=
        if (param.event = .goToPage ∧ hasMagazine param = true ∧ hasSubPage param = true) ∨
            param.event = .indexPage then
          convertPageDecimal2Hex param.magazine param.pageNo
        else 0
      lastShowingPage := 100 }
    status := { ctx.status with
      lastMagazine := param.magazine
      lastPageNo := param.pageNo
      lastSubPageNo := param.subPageNo } }

/-- The command is one of those that look whether the programme has changed. -/
def checksProgram (param : TeletextParam) (ctx : TeletextContext) : Bool :=
  param.event ≠ .setRegionId ∧ (param.event ≠ .goToSubtitle ∨ ctx.subtitleMode = .graphics)

def updateParameter (param : TeletextParam) (ctx : TeletextContext) : TeletextContext :=
  if param.event = .invalid then ctx
  else if checksProgram param ctx then
    let ctx := { ctx with status := updateProgramInfo param ctx.status }
    if ctx.status.mKeepUsingVbi = true ∧ 100 ≤ ctx.display.lastShowingPage then
      let kept := keepProgram param ctx
      { kept.1 with mControlCmds := kept.1.mControlCmds ++ [kept.2] }
    else { resetProgram param ctx with mControlCmds := ctx.mControlCmds ++ [param] }
  else { ctx with mControlCmds := ctx.mControlCmds ++ [param] }

/-! ## Commands -/

/-- What the decoder does for a command, and what lies around the array. -/
structure Answer where
  drawn : Display → Display
  outside : ℤ → ℤ

def gotoPageLocked (pageNum subPageNum : ℤ) (answer : Answer) (ctx : TeletextContext) :
    TeletextContext :=
  if pageNum < 100 ∨ 899 < pageNum then ctx
  else if subPageNum < TELETEXT_MIN_SUBPAGE_NUMBER ∨ TELETEXT_MAX_SUBPAGE_NUMBER < subPageNum then
    ctx
  else
    let display := { ctx.display with
      pageNum := pageNum
      subPageNum := if ctx.subtitleMode = .graphics then subPageNum else AM_TT2_ANY_SUBNO
      acceptSubPage := subPageNum
      gotoPage := pageNum }
    if ctx.subtitleMode = .graphics then
      { ctx with display := answer.drawn { display with dispUpdate := true } }
    else { ctx with display := display }

/-- The block of `nextPageLocked` for one kind of teletext. -/
def leaveSubtitle (b : Broadcast) (answer : Answer) (e : Effect) : Effect :=
  if e.ctx.has b ∧ e.ctx.subtitleMode = .subtitle then
    let page := pageAt e.ctx.subtitlePages answer.outside e.ctx.subtitlePageId
    { e with
      ctx := if 100 ≤ page then
          { e.ctx with
            subtitleMode := .graphics
            display := { e.ctx.display with gotoPage := page } }
        else e.ctx
      reads := e.reads ++ [e.ctx.subtitlePageId] }
  else e

def nextPageLocked (answer : Answer) (ctx : TeletextContext) : Effect :=
  let e := leaveSubtitle .dtv answer (leaveSubtitle .atv answer ⟨ctx, [], []⟩)
  { e with ctx := e.ctx.draw answer.drawn }

/-- `gotoDefaultAtvSubtitleLocked` and `gotoDefaultDtvSubtitleLocked`. -/
def gotoDefaultSubtitleLocked (b : Broadcast) (i : ℤ) (answer : Answer) (ctx : TeletextContext) :
    Effect :=
  let ctx := { ctx with subtitleMode := .graphics }
  let page := pageAt ctx.subtitlePages answer.outside i
  if 100 ≤ page then
    ⟨gotoPageLocked page TELETEXT_MIN_SUBPAGE_NUMBER answer ctx, [i], [page]⟩
  else
    ⟨TeletextContext.setGotoFlag
      { ctx with display := { ctx.display with dispUpdate := true } } b true, [i], []⟩

/-- The block of `TT_EVENT_GO_TO_SUBTITLE` that goes to the next subtitle page, for one
kind of teletext, and whether it returns. -/
def cycle (b : Broadcast) (answer : Answer) (ctx : TeletextContext) : Effect × Bool :=
  let ctx := { ctx with subtitleMode := .graphics }
  let id := ctx.subtitlePageId
  if pageAt ctx.subtitlePages answer.outside id = 0 then
    if id = 0 then (⟨ctx, [id], []⟩, false)
    else
      let e := gotoDefaultSubtitleLocked b 0 answer { ctx with subtitlePageId := 0 }
      ({ e with reads := id :: e.reads }, true)
  else
    let next := if pageAt ctx.subtitlePages answer.outside (id + 1) ≠ 0 then id + 1 else 0
    let e := gotoDefaultSubtitleLocked b id answer { ctx with subtitlePageId := next }
    ({ e with reads := id :: (id + 1) :: e.reads }, true)

/-- The command asks for the next subtitle page. -/
def isCycling (param : TeletextParam) (ctx : TeletextContext) : Bool :=
  (ctx.atvTeletext = true ∨ ctx.dtvTeletext = true) ∧ param.magazine = -1 ∧ param.pageNo = -1

/-- A block whose kind of teletext has not arrived is skipped. -/
def cycleIf (b : Broadcast) (param : TeletextParam) (answer : Answer) (ctx : TeletextContext) :
    Effect × Bool :=
  if ctx.has b ∧ param.magazine = -1 ∧ param.pageNo = -1 then cycle b answer ctx
  else (⟨ctx, [], []⟩, false)

/-- `TT_EVENT_GO_TO_SUBTITLE`. -/
def goToSubtitle (param : TeletextParam) (answer : Answer) (ctx : TeletextContext) : Effect :=
  let atv := cycleIf .atv param answer ctx
  if atv.2 then atv.1
  else
    let dtv := cycleIf .dtv param answer atv.1.ctx
    if dtv.2 then { dtv.1 with reads := atv.1.reads ++ dtv.1.reads }
    else
      let page := convertPageDecimal2Hex param.magazine param.pageNo
      let subPage := if param.subPageNo < TELETEXT_MIN_SUBPAGE_NUMBER ∨
          TELETEXT_MAX_SUBPAGE_NUMBER < param.subPageNo then
        TELETEXT_MIN_SUBPAGE_NUMBER else param.subPageNo
      { ctx := gotoPageLocked page subPage answer { dtv.1.ctx with subtitleMode := .subtitle }
        reads := atv.1.reads ++ dtv.1.reads
        selected := if isCycling param ctx then [page] else [] }

def goHomeLocked (answer : Answer) (ctx : TeletextContext) : TeletextContext :=
  TeletextContext.draw { ctx with
    display := { ctx.display with
      gotoPage := AM_TT2_HOME_PAGENO
      subPageNum := TELETEXT_MIN_SUBPAGE_NUMBER
      dispUpdate := true
      pageState := .search } } answer.drawn

/-- One command.  Those that are not listed change what is shown. -/
def command (param : TeletextParam) (answer : Answer) (ctx : TeletextContext) : Effect :=
  match param.event with
  | .nextPage => nextPageLocked answer ctx
  | .previousPage => nextPageLocked answer ctx
  | .indexPage => ⟨goHomeLocked answer { ctx with subtitleMode := .graphics }, [], []⟩
  | .goToPage =>
    ⟨gotoPageLocked (convertPageDecimal2Hex param.magazine param.pageNo)
      TELETEXT_MIN_SUBPAGE_NUMBER answer
      { ctx with
        subtitleMode := .graphics
        display := { ctx.display with pageState := .search } }, [], []⟩
  | .goToSubtitle => goToSubtitle param answer ctx
  | _ => ⟨ctx.draw answer.drawn, [], []⟩

/-- The thread carries out commands only while there is a decoder. -/
def handleControl (answer : Answer) (ctx : TeletextContext) : Effect :=
  match ctx.vbi, ctx.mControlCmds with
  | true, param :: cmds => command param answer { ctx with mControlCmds := cmds }
  | _, _ => ⟨ctx, [], []⟩

/-! ## Runs -/

/-- What happens to a parser: data arrives and is decoded, the decoder reports a page or
another second, a command is queued or carried out. -/
inductive Event where
  | frame (source : Option Broadcast) (opened : Bool) (drawn : Display → Display)
  | page (ev : TtxPage)
  | time (drawn : Display → Display)
  | updateParameter (param : TeletextParam)
  | handleControl (answer : Answer)

/-- The decoder reports nothing while there is none. -/
def effect (ctx : TeletextContext) : Event → Effect
  | .frame source opened drawn =>
    let ctx := (source.map ctx.setHas).getD ctx
    ⟨TeletextContext.draw { ctx with vbi := ctx.vbi || opened } drawn, [], []⟩
  | .page ev => if ctx.vbi then handler ev ctx else ⟨ctx, [], []⟩
  | .time drawn => ⟨if ctx.vbi ∧ ctx.display.dispUpdate then ctx.draw drawn else ctx, [], []⟩
  | .updateParameter param => ⟨updateParameter param ctx, [], []⟩
  | .handleControl answer => handleControl answer ctx

def step (ctx : TeletextContext) (e : Event) : TeletextContext := (effect ctx e).ctx

end Teletext
end AmlSubtitle
