import Phaethon.Admin.Server
import Phaethon.P2P.Provenance
import Phaethon.Db.Enabled
import Phaethon.Signing.Authentic
import Phaethon.Handler.UdpTarget
import Phaethon.Health.Carried
import Phaethon.Dialer.Finite
import Phaethon.Tun.Allocate
import Phaethon.Mesh.Circulate
import Phaethon.Mesh.Canonical
import Phaethon.Mesh.Topology
import Phaethon.Db.Follow
import Phaethon.Server.HTunnelPush
import Phaethon.Util.UdpFrame
import Phaethon.Admin.ProxyRefs
import Phaethon.Mesh.SubnetConflict
import Phaethon.Server.ControlClose
import Phaethon.Server.ControlPort
import Phaethon.Reverse.Conservation
import Phaethon.Reverse.WireOrder
import Phaethon.Admin.PackageSync
import Phaethon.Frame.ReverseConn
import Phaethon.Mesh.DnsReplies
import Phaethon.P2P.FlowOrder
import Phaethon.P2P.LaneAck
import Phaethon.Server.MeshDispatch
import Phaethon.Health.Manual
import Phaethon.Mesh.BestPaths
import Phaethon.Mesh.Validation
import Phaethon.P2P.SessionClose
import Phaethon.P2P.Wakeup
import Phaethon.Config.RateLimiter
import Phaethon.Db.FirstMatch
import Phaethon.P2P.StripePins
import Phaethon.P2P.Drr
import Phaethon.P2P.SessionIds
import Phaethon.Mesh.Egress
import Phaethon.Mesh.FakeIpPass
import Phaethon.P2P.LegPorts
