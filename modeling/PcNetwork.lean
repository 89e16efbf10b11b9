import PcNetwork.Library.Block
import PcNetwork.Library.Path
import PcNetwork.Library.Fifo
import PcNetwork.Library.InOrder
import PcNetwork.Library.Endian
import PcNetwork.Library.Framing
import PcNetwork.Library.Lifecycle
import PcNetwork.Library.Ledger
import PcNetwork.Session.CmdPacket
import PcNetwork.Session.NetPacket
import PcNetwork.Session.TcpSession
import PcNetwork.Session.WriteRing
import PcNetwork.Session.Frames
import PcNetwork.Session.Effects
import PcNetwork.Session.Receive
import PcNetwork.Session.Crypt
import PcNetwork.Session.Reassembly
import PcNetwork.Session.Ticks
import PcNetwork.Session.Callbacks
import PcNetwork.Session.Delivery
import PcNetwork.Session.Packets
import PcNetwork.Session.Handshake
import PcNetwork.Session.Exchange
import PcNetwork.Session.Machine
import PcNetwork.Session.ReadRoom
import PcNetwork.Session.KeyAccess
import PcNetwork.Session.Causes
import PcNetwork.Session.Acceptance
import PcNetwork.Libnet.SockBuf
import PcNetwork.Netlib.NetPacket
import PcNetwork.Netlib.TcpSocket
import PcNetwork.Netlib.Streams
import PcNetwork.Netlib.ClingLoop
import PcNetwork.Netlib.PacketFields
import PcNetwork.Netlib.Server
import PcNetwork.Netlib.TcpSession
import PcNetwork.Netlib.Sessions
import PcNetwork.Netlib.SessionFrames
import PcNetwork.Netlib.Acknowledge
import PcNetwork.Netlib.Ownership
import PcNetwork.Netlib.NetSession
import PcNetwork.NetSelect.SelectService
import PcNetwork.NetSelect.Bookkeeping
import PcNetwork.NetSelect.Registration
import PcNetwork.NetSelect.EventLoop
import PcNetwork.NetSelect.Runs
import PcNetwork.Libnet.IocpService
import PcNetwork.Libnet.IocpEffects
import PcNetwork.Libnet.Handles
import PcNetwork.Libnet.Contexts
import PcNetwork.Libnet.Closing
import PcNetwork.Libnet.Isolation
import PcNetwork.Libnet.Pipeline
import PcNetwork.NetSelect.Machine
import PcNetwork.NetSelect.MachineEffects
import PcNetwork.NetSelect.Closing
import PcNetwork.NetSelect.WritePath
import PcNetwork.Services.ClosedOnce
import PcNetwork.Services.FullTable
import PcNetwork.NetSelect.Scripts
import PcNetwork.Session.Fields
import PcNetwork.Session.HostileReads
import PcNetwork.Session.StartUp
import PcNetwork.Netlib.Arrivals
import PcNetwork.Netlib.RoundTrip
import PcNetwork.Session.FailedCalls
import PcNetwork.Session.Legible
import PcNetwork.Session.WriteBounds
import PcNetwork.Session.Copies
import PcNetwork.Session.Sequence
import PcNetwork.Libnet.Moves
import PcNetwork.Services.NetEvent
import PcNetwork.Services.Segmentation
import PcNetwork.Netlib.Fields
import PcNetwork.Netlib.OwnBytes
import PcNetwork.Session.KeyBytes
import PcNetwork.Netlib.Images
import PcNetwork.Netlib.Writers
import PcNetwork.Netlib.Readers
import PcNetwork.Libbase.Removal
import PcNetwork.Libbase.Lifetime
import PcNetwork.Libbase.FreeList
import PcNetwork.Libbase.HashMap
import PcNetwork.Libbase.MsgQueue
import PcNetwork.Netlib.SmartPtr
import PcNetwork.Netlib.ThreadPool
import PcNetwork.Libbase.Timer
import PcNetwork.Libbase.Thread
import PcNetwork.Libbase.StringReplace
import PcNetwork.Libbase.Fingerprint
import PcNetwork.Netlib.Cfg
import PcNetwork.Libbase.RmDir
import PcNetwork.Libbase.CopiedTree
import PcNetwork.Json.Accepted
import PcNetwork.Json.Fragments
import PcNetwork.Json.Format
import PcNetwork.Json.Built
import PcNetwork.Libbase.Md5Rounds
import PcNetwork.Libbase.Md5Stream
import PcNetwork.Services.Circle
import PcNetwork.Services.Link
import PcNetwork.Session.CdServer
import PcNetwork.Json.Ownership
import PcNetwork.Json.EscapeBlocks
import PcNetwork.Json.StripBlock
