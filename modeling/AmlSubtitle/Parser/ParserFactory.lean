import AmlSubtitle.Subtitle.Spu

/-!
# `ParserFactory`: the parameters of a subtitle and the parser made for them

One block, `SubtitleParamType`, holds the parameters of every kind of subtitle.  Its
`subType` says which of them count; for the kinds that a television programme brings
along, `dtvSubType` overrides it.

* `subType` is `none` for `TYPE_SUBTITLE_INVALID`.
* `dtvSubType` is cast from an integer that the client sends, so it is an integer here.
* `ParserParam` is what `updateParameter` is called with: the type and the parameters
  its pointer stands for.
-/

namespace AmlSubtitle

/-- The number of a type, as a data source reports it. -/
def SubtitleType.ofNum : ℤ → Option SubtitleType
  | 0 => some .vob
  | 1 => some .pgs
  | 2 => some .mkvStr
  | 3 => some .ssa
  | 4 => some .mkvVob
  | 5 => some .tmdTxt
  | 6 => some .idxSub
  | 7 => some .dvb
  | 8 => some .dvbTeletext
  | 9 => some .dvbTtml
  | 10 => some .closedCaption
  | 11 => some .scte27
  | 12 => some .aribB24
  | 13 => some .smpteTtml
  | 14 => some .external
  | _ => none

/-! ## `DtvSubtitleType` -/

def DTV_SUB_INVALID : ℤ := -1
def DTV_SUB_CC : ℤ := 2
def DTV_SUB_SCTE27 : ℤ := 3
def DTV_SUB_DVB : ℤ := 4
def DTV_SUB_DTVKIT_DVB : ℤ := 5
def DTV_SUB_DTVKIT_TELETEXT : ℤ := 6
def DTV_SUB_DTVKIT_SCTE27 : ℤ := 7
def DTV_SUB_ARIB24 : ℤ := 8
def DTV_SUB_DTVKIT_ARIB24 : ℤ := 9
def DTV_SUB_TTML : ℤ := 10
def DTV_SUB_DTVKIT_TTML : ℤ := 11
def DTV_SUB_SMPTE_TTML : ℤ := 12
def DTV_SUB_DTVKIT_SMPTE_TTML : ℤ := 13

/-! ## The parameters of one kind of subtitle -/

structure ClosedCaptionParam where
  channelID : ℤ
  vfmt : ℤ
  lang : String
  deriving DecidableEq, Repr

structure Scte27Param where
  scte27Pid : ℤ
  demuxId : ℤ
  flag : ℤ
  deriving DecidableEq, Repr

structure DvbParam where
  demuxId : ℤ
  pid : ℤ
  flag : ℤ
  compositionId : ℤ
  ancillaryId : ℤ
  deriving DecidableEq, Repr

structure Arib24Param where
  demuxId : ℤ
  pid : ℤ
  flag : ℤ
  languageCodeId : ℤ
  deriving DecidableEq, Repr

structure TtmlParam where
  demuxId : ℤ
  pid : ℤ
  flag : ℤ
  deriving DecidableEq, Repr

structure SmpteTtmlParam where
  demuxId : ℤ
  pid : ℤ
  flag : ℤ
  deriving DecidableEq, Repr

/-- The commands of the remote control, in the order of their numbers. -/
inductive TeletextEvent where
  | invalid
  | quickNavigate1
  | quickNavigate2
  | quickNavigate3
  | quickNavigate4
  | digit (n : Fin 10)
  | indexPage
  | nextPage
  | previousPage
  | nextSubPage
  | previousSubPage
  | backPage
  | forwardPage
  | hold
  | reveal
  | clear
  | clock
  | mixVideo
  | doubleHeight
  | doubleScrollUp
  | doubleScrollDown
  | timer
  | goToPage
  | goToSubtitle
  | setRegionId
  | subpageMode
  deriving DecidableEq, Repr

structure TeletextParam where
  demuxId : ℤ
  pid : ℤ
  flag : ℤ
  magazine : ℤ
  pageNo : ℤ
  subPageNo : ℤ
  pageDir : ℤ
  subPageDir : ℤ
  regionId : ℤ
  event : TeletextEvent
  onid : ℤ
  tsid : ℤ
  deriving DecidableEq, Repr

/-- `SubtitleParamType`. -/
structure SubtitleParamType where
  subType : Option SubtitleType
  dtvSubType : ℤ
  scte27Param : Scte27Param
  closedCaptionParam : ClosedCaptionParam
  teletextParam : TeletextParam
  arib24Param : Arib24Param
  ttmlParam : TtmlParam
  dvbParam : DvbParam
  smpteTtmlParam : SmpteTtmlParam
  playerId : ℤ
  mediaId : ℤ
  idxSubTrackId : ℤ
  deriving DecidableEq, Repr

/-- The parameters an `updateParameter` call hands over. -/
inductive ParserParam where
  | dvb (param : DvbParam)
  | teletext (param : TeletextParam)
  | dvbTtml (param : TtmlParam)
  | closedCaption (param : ClosedCaptionParam)
  | scte27 (param : Scte27Param)
  | aribB24 (param : Arib24Param)
  | smpteTtml (param : SmpteTtmlParam)
  deriving DecidableEq, Repr

namespace SubtitleParamType

/-- The constructor. -/
def create : SubtitleParamType where
  subType := none
  dtvSubType := DTV_SUB_INVALID
  scte27Param := ⟨0, 0, 0⟩
  closedCaptionParam := ⟨0, 0, ""⟩
  teletextParam := ⟨-1, -1, -1, -1, -1, 0, 0, 0, -1, .invalid, -1, -1⟩
  arib24Param := ⟨0, 0, 0, 0⟩
  ttmlParam := ⟨0, 0, 0⟩
  dvbParam := ⟨0, 0, 0, 0, 0⟩
  smpteTtmlParam := ⟨0, 0, 0⟩
  playerId := -1
  mediaId := -1
  idxSubTrackId := 0

/-- `update`: the type of a television programme's subtitle comes first. -/
def update (p : SubtitleParamType) : SubtitleParamType :=
  if p.dtvSubType = DTV_SUB_CC then
    { p with subType := some .closedCaption }
  else if p.dtvSubType = DTV_SUB_SCTE27 ∨ p.dtvSubType = DTV_SUB_DTVKIT_SCTE27 then
    { p with subType := some .scte27 }
  else if p.dtvSubType = DTV_SUB_DVB ∨ p.dtvSubType = DTV_SUB_DTVKIT_DVB then
    { p with subType := some .dvb }
  else if p.dtvSubType = DTV_SUB_DTVKIT_TELETEXT then
    { p with subType := some .dvbTeletext }
  else if p.dtvSubType = DTV_SUB_TTML ∨ p.dtvSubType = DTV_SUB_DTVKIT_TTML then
    { p with subType := some .dvbTtml }
  else if p.dtvSubType = DTV_SUB_ARIB24 ∨ p.dtvSubType = DTV_SUB_DTVKIT_ARIB24 then
    { p with subType := some .aribB24 }
  else if p.dtvSubType = DTV_SUB_SMPTE_TTML ∨ p.dtvSubType = DTV_SUB_DTVKIT_SMPTE_TTML then
    { p with subType := some .smpteTtml }
  else p

/-- `isValidDtvParams`. -/
def isValidDtvParams (p : SubtitleParamType) : Bool :=
  p.dtvSubType = DTV_SUB_CC ∨ p.dtvSubType = DTV_SUB_SCTE27 ∨
    p.dtvSubType = DTV_SUB_DTVKIT_SCTE27

/-- The `updateParameter` call that the type of the block asks for. -/
def parserParam (p : SubtitleParamType) : Option ParserParam :=
  match p.subType with
  | some .dvb => some (.dvb p.dvbParam)
  | some .dvbTeletext => some (.teletext p.teletextParam)
  | some .dvbTtml => some (.dvbTtml p.ttmlParam)
  | some .aribB24 => some (.aribB24 p.arib24Param)
  | some .scte27 => some (.scte27 p.scte27Param)
  | some .closedCaption => some (.closedCaption p.closedCaptionParam)
  | some .smpteTtml => some (.smpteTtml p.smpteTtmlParam)
  | _ => none

end SubtitleParamType

/-! ## The parser of a type -/

/-- The classes of parsers. -/
inductive ParserClass where
  | dvdParser
  | pgsParser
  | assParser
  | dvbParser
  | teletextParser
  | ttmlParser
  | aribB24Parser
  | smpteTtmlParser
  | closedCaptionParser
  | scte27Parser
  | extParser
  deriving DecidableEq, Repr

namespace ParserFactory

/-- `ParserFactory::create`: there is a parser for every block, and closed captions
are the default. -/
def create (p : SubtitleParamType) : ParserClass :=
  match p.subType with
  | some .vob => .dvdParser
  | some .pgs => .pgsParser
  | some .dvb => .dvbParser
  | some .dvbTeletext => .teletextParser
  | some .dvbTtml => .ttmlParser
  | some .aribB24 => .aribB24Parser
  | some .smpteTtml => .smpteTtmlParser
  | some .closedCaption => .closedCaptionParser
  | none => .closedCaptionParser
  | some .scte27 => .scte27Parser
  | some .external => .extParser
  | _ => .assParser

/-- What `create` has called `updateParameter` of the new parser with when it returns. -/
def createParams (p : SubtitleParamType) : List ParserParam :=
  if create p = .closedCaptionParser then [.closedCaption p.closedCaptionParam] else []

end ParserFactory

end AmlSubtitle
