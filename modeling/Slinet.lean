import Slinet.Run
import Slinet.Lossy
import Slinet.Notify
import Slinet.LossyWake
import Slinet.LossyCalls
import Slinet.Eviction
import Slinet.ByteOrder
import Slinet.LengthCodec
import Slinet.LossyWords
import Slinet.Packet
import Slinet.Framing
import Slinet.FrameReader
import Slinet.Ledger
import Slinet.Outgoing
import Slinet.TwoQueues
import Slinet.Connection
import Slinet.Reports
import Slinet.Link
import Slinet.WriterError
import Slinet.UdpSend
import Slinet.Pacing
import Slinet.UdpPeers
import Slinet.UdpTable
import Slinet.UdpRouting
import Slinet.UdpMemory
import Slinet.Endpoint
import Slinet.Lifecycle
import Slinet.Acceptance
import Slinet.Runtime
import Slinet.ClientRegistry
import Slinet.Requests
import Slinet.Fifo
import Slinet.ReceiverDrop
import Slinet.Delivery
import Slinet.Datagrams
import Slinet.DatagramOrder
import Slinet.Frames
import Slinet.UdpWire
import Slinet.UdpNetwork
import Slinet.UdpClient
import Slinet.Table
import Slinet.AppSessions
import Slinet.StopAndWait
import Slinet.AppProtocol
import Slinet.Wire
import Slinet.Codec
import Slinet.Writer
import Slinet.CustomCrypt
import Slinet.Stream
import Slinet.CryptStream
