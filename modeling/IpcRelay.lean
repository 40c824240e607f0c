import IpcRelay.Lib.BigEndian
import IpcRelay.Lib.Binary64
import IpcRelay.Lib.Codec
import IpcRelay.Lib.ExpiryQueue
import IpcRelay.Lib.Incremental
import IpcRelay.Lib.JsonGrammar
import IpcRelay.Lib.KeyMap
import IpcRelay.Lib.LittleEndian
import IpcRelay.Lib.Machine
import IpcRelay.Lib.Occurrence
import IpcRelay.Lib.Overlay
import IpcRelay.Lib.PolledTimer
import IpcRelay.Lib.Rounding
import IpcRelay.Lib.Script
import IpcRelay.Lib.SequenceGaps
import IpcRelay.Lib.Utf8
import IpcRelay.Common.ByteOrder
import IpcRelay.Common.Config
import IpcRelay.Common.ConfigText
import IpcRelay.Common.Decimals
import IpcRelay.Common.JsonText
import IpcRelay.Common.JsonUtf8
import IpcRelay.Common.JsonWriter
import IpcRelay.Common.Memory
import IpcRelay.Common.NetUtil
import IpcRelay.Common.WireFacts
import IpcRelay.Common.WireProtocol
import IpcRelay.Common.WireRules
import IpcRelay.Bridge.Bridge
import IpcRelay.Bridge.BridgeConfig
import IpcRelay.Bridge.Conservation
import IpcRelay.Bridge.Fragmentation
import IpcRelay.Bridge.OutputStream
import IpcRelay.Bridge.Service
import IpcRelay.Receiver.Accounting
import IpcRelay.Receiver.Alike
import IpcRelay.Receiver.Assembly
import IpcRelay.Receiver.CaptureFile
import IpcRelay.Receiver.CaptureInspect
import IpcRelay.Receiver.CaptureReader
import IpcRelay.Receiver.CaptureScan
import IpcRelay.Receiver.CaptureWriter
import IpcRelay.Receiver.CommandText
import IpcRelay.Receiver.Completion
import IpcRelay.Receiver.Conservation
import IpcRelay.Receiver.Drain
import IpcRelay.Receiver.Duplicates
import IpcRelay.Receiver.Expiry
import IpcRelay.Receiver.Hostile
import IpcRelay.Receiver.Independence
import IpcRelay.Receiver.Inspect
import IpcRelay.Receiver.PollLoop
import IpcRelay.Receiver.PollTimers
import IpcRelay.Receiver.Reassembler
import IpcRelay.Receiver.ReassemblerFacts
import IpcRelay.Receiver.Receiver
import IpcRelay.Receiver.ReceiverConfig
import IpcRelay.Receiver.ReceiverFacts
import IpcRelay.Receiver.Recording
import IpcRelay.Receiver.Separation
import IpcRelay.Receiver.SequenceRule
import IpcRelay.Receiver.SequenceTracker
import IpcRelay.Receiver.SocketCounters
import IpcRelay.Receiver.StatsJson
import IpcRelay.Receiver.StoreBounds
import IpcRelay.Receiver.VerifyTestpub
import IpcRelay.Ctl.Backlog
import IpcRelay.Ctl.Client
import IpcRelay.Ctl.Commands
import IpcRelay.Ctl.Connection
import IpcRelay.Ctl.Connections
import IpcRelay.Ctl.ControlServer
import IpcRelay.Ctl.Encoding
import IpcRelay.Ctl.FrameCodec
import IpcRelay.Ctl.Frontend
import IpcRelay.Ctl.Http
import IpcRelay.Ctl.IdEcho
import IpcRelay.Ctl.JsonEncoding
import IpcRelay.Ctl.JsonExact
import IpcRelay.Ctl.JsonMeaning
import IpcRelay.Ctl.JsonTree
import IpcRelay.Ctl.JsonValue
import IpcRelay.Ctl.Messages
import IpcRelay.Ctl.PageRequests
import IpcRelay.Ctl.PageSources
import IpcRelay.Ctl.Replies
import IpcRelay.Ctl.RequestCodec
import IpcRelay.Ctl.Room
import IpcRelay.Ctl.ScriptValue
import IpcRelay.Ctl.ServerStream
import IpcRelay.Ctl.Serving
import IpcRelay.Ctl.Session
import IpcRelay.Ctl.Visits
import IpcRelay.Ctl.WebSocket
import IpcRelay.Testpub.Publisher
import IpcRelay.Testpub.Recognition
import IpcRelay.Testpub.Telemetry
import IpcRelay.Csvexport.CsvExport
import IpcRelay.Csvexport.Rows
import IpcRelay.System.Assembled
import IpcRelay.System.Clicks
import IpcRelay.System.Control
import IpcRelay.System.Delivery
import IpcRelay.System.EndToEnd
import IpcRelay.System.Recorded
import IpcRelay.System.Shown
import IpcRelay.System.Statistics
