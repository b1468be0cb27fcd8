import Dshare.Lib.WireFormat
import Dshare.Lib.StreamDecoder
import Dshare.Lib.BoundedFifo
import Dshare.Lib.Transition
import Dshare.Lib.GatedView
import Dshare.Lib.CheckedInt
import Dshare.Lib.Replicas
import Dshare.Lib.Simulation
import Dshare.Lib.Mailbox
import Dshare.Lib.Document
import Dshare.Protocol.Message
import Dshare.Protocol.Bincode
import Dshare.Protocol.Codec
import Dshare.Protocol.Transport
import Dshare.Protocol.Buffering
import Dshare.Protocol.Keycode
import Dshare.Input.Windows
import Dshare.Input.Linux
import Dshare.Input.Pointer
import Dshare.Input.Hotkey
import Dshare.Input.HookStack
import Dshare.Input.Shutdown
import Dshare.Input.WinInject
import Dshare.Input.Wheel
import Dshare.Input.AutoRepeat
import Dshare.Session.Desk
import Dshare.Session.Capture
import Dshare.Session.Handshake
import Dshare.Session.Agreement
import Dshare.Session.Client
import Dshare.Session.EndToEnd
import Dshare.Session.Refusal
import Dshare.Session.KeyIdentity
import Dshare.Session.Vocabulary
import Dshare.Session.Returns
import Dshare.Session.RemoteKeys
import Dshare.Session.Backpressure
import Dshare.Session.Delivery
import Dshare.Session.Seat
import Dshare.Session.Server
import Dshare.Session.Arrival
import Dshare.Session.Hangup
import Dshare.Core.Layout
import Dshare.Core.Config
import Dshare.Core.PeerSession
import Dshare.Core.ReadTask
import Dshare.Core.Duplex
import Dshare.Session.Startup
import Dshare.Gui.Preview
import Dshare.Gui.App
import Dshare.Gui.Editing
import Dshare.Clipboard.Broadcast
import Dshare.Clipboard.Pair
import Dshare.Clipboard.Echo
import Dshare.Clipboard.Failure
