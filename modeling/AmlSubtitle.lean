import AmlSubtitle.Lib.Run
import AmlSubtitle.Lib.Words
import AmlSubtitle.Utils.RingBuffer
import AmlSubtitle.Ipc.IpcDataTypes
import AmlSubtitle.Client.SubtitleReportAPI
import AmlSubtitle.Ipc.FmqReceiver
import AmlSubtitle.Ipc.FmqReceiverDelivery
import AmlSubtitle.Ipc.FmqReceiverSafety
import AmlSubtitle.Subtitle.Presentation
import AmlSubtitle.Subtitle.PresentationOrder
import AmlSubtitle.Subtitle.PresentationStall
import AmlSubtitle.Subtitle.PresentationLoss
import AmlSubtitle.Lib.Keyed
import AmlSubtitle.Lib.Thread
import AmlSubtitle.Parser.DvbContext
import AmlSubtitle.Parser.DvbParser
import AmlSubtitle.Parser.DvbLists
import AmlSubtitle.Parser.DvbRegionBuffer
import AmlSubtitle.Client.PacketHeader
import AmlSubtitle.Utils.StreamUtils
import AmlSubtitle.Parser.DvbDemux
import AmlSubtitle.Parser.DvbSoftPacket
import AmlSubtitle.Io.DemuxSource
import AmlSubtitle.Io.UserdataDriver
import AmlSubtitle.Utils.RingBufferCalls
import AmlSubtitle.Io.Userdata
import AmlSubtitle.Io.UserdataLists
import AmlSubtitle.Io.UserdataCount
import AmlSubtitle.Io.UserdataOrder
import AmlSubtitle.Ipc.SocketServer
import AmlSubtitle.Ipc.SocketServerDelivery
import AmlSubtitle.Server.CallbackDelivery
import AmlSubtitle.Server.MessageQueue
import AmlSubtitle.Parser.PgsObject
import AmlSubtitle.Parser.PgsRender
import AmlSubtitle.Lib.Lockstep
import AmlSubtitle.Parser.PgsEpoch
import AmlSubtitle.Utils.AndroidCallbackMessageQueue
import AmlSubtitle.Lib.Held
import AmlSubtitle.Translation.SubtitleWorkerThread
import AmlSubtitle.Parser.Scte27Parser
import AmlSubtitle.Parser.ParserFactory
import AmlSubtitle.Subtitle.Subtitle
import AmlSubtitle.Subtitle.SubtitleRequests
import AmlSubtitle.Lib.ExchangeSort
import AmlSubtitle.Parser.TeletextPages
import AmlSubtitle.Server.SubtitleServiceStart
import AmlSubtitle.Parser.TeletextContext
import AmlSubtitle.Parser.TeletextRecording
import AmlSubtitle.Parser.TeletextNavigation
import AmlSubtitle.Subtitle.ExtPresentation
import AmlSubtitle.Subtitle.ExtScreen
import AmlSubtitle.Translation.SubtitleAiTranslation
import AmlSubtitle.Translation.TranslationPairing
import AmlSubtitle.Lib.Json
import AmlSubtitle.Utils.DtvccServiceDocument
import AmlSubtitle.Utils.VbiPageDocument
import AmlSubtitle.Utils.ClosedCaptionJson
import AmlSubtitle.Utils.VbiPageCut
import AmlSubtitle.Parser.ClosedCaptionChannels
import AmlSubtitle.Lib.Ring
import AmlSubtitle.Parser.ClosedCaptionChain
import AmlSubtitle.Lib.Scanf
import AmlSubtitle.Parser.SmpteTtmlParser
import AmlSubtitle.Parser.SmpteTtmlPairing
import AmlSubtitle.Lib.Utf16
import AmlSubtitle.Parser.ExtSubConversion
import AmlSubtitle.Parser.ExtSubStreamReader
import AmlSubtitle.Lib.Lines
import AmlSubtitle.Parser.ExtSubLines
import AmlSubtitle.Parser.TextSubtitle
import AmlSubtitle.Parser.SubViewer
import AmlSubtitle.Io.DemuxDriver
import AmlSubtitle.Io.DemuxFilterTable
import AmlSubtitle.Io.DemuxCallback
import AmlSubtitle.Lib.Rewrite
import AmlSubtitle.Parser.AssParser
import AmlSubtitle.Parser.SubStationAlpha
import AmlSubtitle.Parser.AssAgreement
import AmlSubtitle.Parser.PgsComposition
import AmlSubtitle.Parser.PgsSoftDemux
import AmlSubtitle.Parser.PgsRle
import AmlSubtitle.Parser.PgsRleReach
import AmlSubtitle.Parser.PgsBitmap
import AmlSubtitle.Parser.PgsQueue
import AmlSubtitle.Subtitle.CueMerge
import AmlSubtitle.Lib.Counted
import AmlSubtitle.Subtitle.PresentationLists
import AmlSubtitle.Subtitle.PresentationDuration
import AmlSubtitle.Subtitle.PresentationFading
import AmlSubtitle.Parser.DvbHwPackets
import AmlSubtitle.Parser.DvbPasses
import AmlSubtitle.Parser.DvbClutEntries
import AmlSubtitle.Parser.DvbObjectFields
import AmlSubtitle.Lib.Bits
import AmlSubtitle.Parser.DvbStrings
import AmlSubtitle.Parser.DvbPixelReach
import AmlSubtitle.Lib.Rect
import AmlSubtitle.Parser.DvbComposition
import AmlSubtitle.Parser.DvdControl
import AmlSubtitle.Lib.Packed
import AmlSubtitle.Parser.DvdPixel
import AmlSubtitle.Parser.DvdRuns
import AmlSubtitle.Parser.DvdPlane
import AmlSubtitle.Io.UserdataScte
import AmlSubtitle.Parser.TeletextDigits
import AmlSubtitle.Parser.TeletextUnits
import AmlSubtitle.Lib.Delimited
import AmlSubtitle.Parser.TeletextPes
import AmlSubtitle.Parser.Scte27Intake
import AmlSubtitle.Parser.Scte27Bitmap
import AmlSubtitle.Parser.Scte27Drawing
import AmlSubtitle.Parser.Scte27Message
import AmlSubtitle.Parser.TeletextDisplay
import AmlSubtitle.Parser.DvdAssembly
import AmlSubtitle.Io.UserdataH264
import AmlSubtitle.Io.UserdataThread
import AmlSubtitle.Io.UserdataRecords
import AmlSubtitle.Parser.AssOutput
import AmlSubtitle.Parser.ExtSubCalls
import AmlSubtitle.Parser.ExtSubDelivery
import AmlSubtitle.Parser.AssFile
import AmlSubtitle.Parser.WebVtt
import AmlSubtitle.Parser.Jacosub
import AmlSubtitle.Parser.Sami
import AmlSubtitle.Parser.SamiBody
import AmlSubtitle.Parser.SamiText
import AmlSubtitle.Parser.SamiDecoding
import AmlSubtitle.Parser.SamiLaw
import AmlSubtitle.Io.ExternalDataSource
import AmlSubtitle.Parser.PesDemux
import AmlSubtitle.Parser.SmpteTtmlBase64
import AmlSubtitle.Parser.SmpteTtmlPng
import AmlSubtitle.Parser.TtmlExtraction
import AmlSubtitle.Parser.TtmlTimecode
import AmlSubtitle.Utils.VbiPageBuffers
import AmlSubtitle.Parser.AssIntake
import AmlSubtitle.Lib.JsonReading
import AmlSubtitle.Parser.AribB24Json
import AmlSubtitle.Parser.TtmlParagraphs
import AmlSubtitle.Io.DemuxStartCode
import AmlSubtitle.Utils.SegmentCount
import AmlSubtitle.Utils.VbiPageRuns
import AmlSubtitle.Parser.VobSubBitmap
import AmlSubtitle.Parser.VobSubPacket
import AmlSubtitle.Lib.Printed
import AmlSubtitle.Parser.ExtSubObjects
import AmlSubtitle.Parser.ExtSubFactory
import AmlSubtitle.Parser.FrameFormats
import AmlSubtitle.Parser.LineFormats
import AmlSubtitle.Parser.SubViewerFile
import AmlSubtitle.Parser.Subrip
import AmlSubtitle.Parser.Vplayer
import AmlSubtitle.Parser.VobSubUnits
import AmlSubtitle.Parser.VobSubIndex
import AmlSubtitle.Parser.VobSubPicture
import AmlSubtitle.Subtitle.ExtPlayback
import AmlSubtitle.Parser.PgsDisplaySet
import AmlSubtitle.Parser.PgsScreen
