import Unixtar.Lib.Run
import Unixtar.Lib.Simulation
import Unixtar.Lib.Interleave
import Unixtar.Lib.Variant
import Unixtar.Lib.Chunks
import Unixtar.Lib.Endian
import Unixtar.Lib.BoundedDeque
import Unixtar.Lib.Checked
import Unixtar.Lib.OrdMap
import Unixtar.Lib.SlotPool
import Unixtar.Lib.RoundRobin
import Unixtar.Utils.StrUtil
import Unixtar.Lib.XorLinear
import Unixtar.Lib.Sha1
import Unixtar.Utils.MessageDigest
import Unixtar.Utils.Sha1Refinement
import Unixtar.Utils.Sha1InPlace
import Unixtar.Utils.Base64
import Unixtar.Utils.Base64RoundTrip
import Unixtar.Utils.Split
import Unixtar.Utils.YamlUtil
import Unixtar.Utils.YamlRoundTrip
import Unixtar.Utils.YamlArray
import Unixtar.Utils.YamlRemarks
import Unixtar.Utils.MessageQueue
import Unixtar.Utils.Strnstr
import Unixtar.Utils.AutoBuffer
import Unixtar.Socket.UnixSocket
import Unixtar.Socket.BufferMemory
import Unixtar.NetworkModel.ApplicationLayer
import Unixtar.Http.HeaderField
import Unixtar.Http.FirstLine
import Unixtar.Http.HttpPacket
import Unixtar.Http.Encoding
import Unixtar.Http.HttpRequest
import Unixtar.Http.HttpResponse
import Unixtar.Http.RequestRoundTrip
import Unixtar.Http.HeaderBlock
import Unixtar.Http.StatusLines
import Unixtar.Http.Safety
import Unixtar.NetScene.NetSceneDispatcher
import Unixtar.NetScene.Responses
import Unixtar.Http.Segmentation
import Unixtar.Http.Delivery
import Unixtar.NetScene.Delivery
import Unixtar.Http.BodyLength
import Unixtar.LongLink.WebSocketPacket
import Unixtar.LongLink.Segmentation
import Unixtar.LongLink.WireFormat
import Unixtar.LongLink.Safety
import Unixtar.NetworkModel.TcpConnection
import Unixtar.NetworkModel.Receive
import Unixtar.NetworkModel.Dispatch
import Unixtar.NetworkModel.RequestDelivery
import Unixtar.NetworkModel.Reading
import Unixtar.NetworkModel.ConnectionManager
import Unixtar.NetworkModel.ConnectionPool
import Unixtar.NetworkModel.NetThread
import Unixtar.NetworkModel.Exchange
import Unixtar.NetworkModel.ConnectionLimit
import Unixtar.NetworkModel.SendOrder
import Unixtar.NetworkModel.Contexts
import Unixtar.NetworkModel.Uids
import Unixtar.NetworkModel.Effects
import Unixtar.NetworkModel.Owners
import Unixtar.NetworkModel.Deletions
import Unixtar.NetworkModel.EventLoop
import Unixtar.WebServer.ServerConfig
import Unixtar.WebServer.WebServer
import Unixtar.WebServer.Frames
import Unixtar.WebServer.FramePieces
import Unixtar.WebServer.ReturnPackets
import Unixtar.WebServer.OpeningHandshake
import Unixtar.WebServer.Handshake
import Unixtar.WebServer.Heartbeat
import Unixtar.WebServer.Answers
import Unixtar.WebServer.EventLoop
import Unixtar.WebServer.Service
import Unixtar.WebServer.Peers
import Unixtar.WebServer.Limits
import Unixtar.WebServer.NetThreads
import Unixtar.WebServer.Stopping
import Unixtar.WebServer.Requests
import Unixtar.WebServer.Returns
import Unixtar.WebServer.Workers
import Unixtar.WebServer.Timeouts
import Unixtar.WebServer.Overdue
import Unixtar.WebServer.PacketObjects
import Unixtar.ReverseProxy.ProxyServer
import Unixtar.ReverseProxy.MalformedResponses
import Unixtar.ReverseProxy.Routing
import Unixtar.ReverseProxy.EventLoop
import Unixtar.ReverseProxy.Relay
import Unixtar.ReverseProxy.OneResponse
import Unixtar.ReverseProxy.LoadBalancer
import Unixtar.ReverseProxy.Selection
import Unixtar.ReverseProxy.Fairness
import Unixtar.ReverseProxy.Weights
import Unixtar.ReverseProxy.Heartbeat
import Unixtar.ReverseProxy.HeartbeatDelivery
import Unixtar.ReverseProxy.Failover
import Unixtar.ReverseProxy.Polling
