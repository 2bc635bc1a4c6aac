import Tsunami.BlockStream
import Tsunami.Client.BackPressure
import Tsunami.Client.Blockmap
import Tsunami.Client.CommandLine
import Tsunami.Client.DiskFailure
import Tsunami.Client.EndOfFile
import Tsunami.Client.Loop
import Tsunami.Client.Lossy
import Tsunami.Client.Repeats
import Tsunami.Client.Restarts
import Tsunami.Client.Sorting
import Tsunami.Client.Window
import Tsunami.Control.Authentication
import Tsunami.Control.FailureFree
import Tsunami.Control.FileLists
import Tsunami.Control.Negotiation
import Tsunami.Mark5
import Tsunami.Mark5.Requests
import Tsunami.Md5.Append
import Tsunami.Md5Laws
import Tsunami.Parameters
import Tsunami.RateControl
import Tsunami.Realtime.Delivery
import Tsunami.Realtime.FileLength
import Tsunami.Realtime.Packing
import Tsunami.Realtime.Start
import Tsunami.Recovery
import Tsunami.Restart
import Tsunami.RtClient.Agreement
import Tsunami.Server.Closing
import Tsunami.Server.Framing
import Tsunami.Server.Heartbeat
import Tsunami.Server.LossReports
import Tsunami.Server.Pacing
import Tsunami.Server.Reading
import Tsunami.Server.Requests
import Tsunami.Server.Seeking
import Tsunami.Session
import Tsunami.Tiling
