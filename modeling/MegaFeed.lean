import MegaFeed.Verify.Levels
import MegaFeed.Verify.BookMirror
import MegaFeed.Verify.Packetization
import MegaFeed.Verify.GoldenBook
import MegaFeed.Verify.NoFalseAlarm
import MegaFeed.Verify.NoWedge
import MegaFeed.Verify.GiveUp
import MegaFeed.Verify.FullScan
import MegaFeed.Verify.RealLoss
import MegaFeed.Verify.Pacing
import MegaFeed.Verify.ArrivalOrder
import MegaFeed.Verify.Exchange
import MegaFeed.Verify.CaptureRead
import MegaFeed.Verify.ReaderBounds
import MegaFeed.Verify.CutShort
import MegaFeed.Verify.Timestamps
import MegaFeed.Verify.Conservation
import MegaFeed.Verify.Codec
import MegaFeed.Verify.Fingerprint
import MegaFeed.Verify.LevelSizes
import MegaFeed.Verify.Routing
import MegaFeed.Verify.Statuses
import MegaFeed.Verify.Accesses
import MegaFeed.Verify.Agreement
import MegaFeed.Verify.EndToEnd
import MegaFeed.Verify.Ending
import MegaFeed.Verify.Net
import MegaFeed.Verify.Addresses
import MegaFeed.Verify.Report
import MegaFeed.Verify.Replay
import MegaFeed.Verify.Slices
import MegaFeed.Verify.RawSubscriber
import MegaFeed.Verify.Visualizer
import MegaFeed.Verify.Alarm
import MegaFeed.Verify.Touches
