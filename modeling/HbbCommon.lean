import HbbCommon.Transport.Video.Logic.SlotFair
import HbbCommon.Transport.Video.Logic.HoldbackIsolation
import HbbCommon.Transport.Video.Logic.HoldbackOrder
import HbbCommon.Transport.Video.Logic.SenderGate
import HbbCommon.Transport.Video.Logic.SenderChainRun
import HbbCommon.Transport.Video.Logic.SenderRefreshRun
import HbbCommon.Transport.Video.Logic.RecoveryLimit
import HbbCommon.Transport.Video.Logic.RecoveryRequest
import HbbCommon.Transport.Video.Logic.ReceiverTasksChain
import HbbCommon.Transport.Audio.Logic.JitterReader
import HbbCommon.Transport.Application.Logic.EnqueueLimits
import HbbCommon.Transport.Video.Logic.ReassemblyMemory
import HbbCommon.Transport.Video.Logic.Delivery
import HbbCommon.Transport.Logic.MessageCodec
import HbbCommon.Transport.Logic.Negotiation
import HbbCommon.Transport.Logic.ReliableFraming
import HbbCommon.Transport.Logic.InputCodec
import HbbCommon.Transport.Logic.InputState
import HbbCommon.Transport.Logic.DatagramBuffer
import HbbCommon.Transport.Application.Logic.MediaEncoding
import HbbCommon.Transport.Application.Logic.MouseMotion
import HbbCommon.Tcp.Logic.SecureChannel
import HbbCommon.Tcp.Logic.WsReception
import HbbCommon.Tcp.Logic.Streams
import HbbCommon.Tcp.Logic.SendTimeout
import HbbCommon.Outbound.Logic.VideoStreams
import HbbCommon.Outbound.Logic.WriterRun
import HbbCommon.Connect.Logic.TlsDowngrade
import HbbCommon.Connect.Logic.WebRtcRegistry
import HbbCommon.Base.ByteFields
import HbbCommon.Transport.Clipboard
import HbbCommon.Transport.FileTransfer
import HbbCommon.Transport.Logic.FileCodec
import HbbCommon.Transport.Logic.FileReceiver
import HbbCommon.Base.Effect
import HbbCommon.Files.Disk
import HbbCommon.Files.Job
import HbbCommon.Files.Logic.Containment
import HbbCommon.Files.Logic.ReadJobs
import HbbCommon.Tcp.Logic.Reader
import HbbCommon.Tcp.Logic.SplitReading
import HbbCommon.Transport.Hello
import HbbCommon.Transport.Logic.ClipboardSync
import HbbCommon.Transport.Logic.HelloBinding
import HbbCommon.Files.Logic.Places
import HbbCommon.Transport.Logic.FirstUse
import HbbCommon.Transport.Logic.Revocation
import HbbCommon.Transport.Identity
import HbbCommon.Transport.Logic.IdentityCreation
import HbbCommon.Base.Base64
import HbbCommon.Base.Regex
import HbbCommon.Base.Ring
import HbbCommon.Base.Utf8
import HbbCommon.Config.Config
import HbbCommon.Config.Logic.Caches
import HbbCommon.Config.Logic.KeyPair
import HbbCommon.Config.Logic.Operations
import HbbCommon.Config.Logic.Passphrase
import HbbCommon.Config.Logic.Secrets
import HbbCommon.Config.Logic.Updates
import HbbCommon.Files.Logic.Confirm
import HbbCommon.Net.AddrMangle
import HbbCommon.Net.HostPort
import HbbCommon.Net.Logic.AddrMangle
import HbbCommon.Net.Logic.HostPort
import HbbCommon.Net.Logic.PortHelpers
import HbbCommon.Net.Logic.Proxy
import HbbCommon.Net.Version
import HbbCommon.Transport.Adaptation
import HbbCommon.Transport.FrameSizes
import HbbCommon.Transport.Logic.Adaptation
import HbbCommon.Transport.Logic.FrameSizes
import HbbCommon.Transport.Logic.Recovery
import HbbCommon.Base.BufRead
import HbbCommon.Base.Memo
import HbbCommon.Base.Shell
import HbbCommon.Base.Utf8Bytes
import HbbCommon.Config.Books
import HbbCommon.Config.ConfigFile
import HbbCommon.Config.Calls
import HbbCommon.Config.Logic.Books
import HbbCommon.Config.Logic.ConfigFile
import HbbCommon.Config.Logic.PasswordRuns
import HbbCommon.Config.Logic.PeerFiles
import HbbCommon.Config.Logic.Precedence
import HbbCommon.Files.Listing
import HbbCommon.Files.Logic.EmptyDirs
import HbbCommon.Net.Response
import HbbCommon.Platform.Fingerprint
import HbbCommon.Platform.Linux
import HbbCommon.Platform.Logic.Fingerprint
import HbbCommon.Transport.Authentication
import HbbCommon.Transport.ControlPair
import HbbCommon.Transport.Logic.Authentication
import HbbCommon.Transport.Logic.ControlPair
import HbbCommon.Files.DirTransfer
import HbbCommon.Files.Logic.DirTransfer
