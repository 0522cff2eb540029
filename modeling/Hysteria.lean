import Hysteria.Proof.Acme.Namecheap
import Hysteria.Proof.Auth
import Hysteria.Proof.Client.FlowTable
import Hysteria.Proof.Client.Handle
import Hysteria.Proof.Client.HttpProxy
import Hysteria.Proof.Client.Socks5Datagram
import Hysteria.Proof.Client.UdpRelay
import Hysteria.Proof.HttpsRedirect
import Hysteria.Proof.Masquerade
import Hysteria.Proof.Obfs.Expiry
import Hysteria.Proof.Obfs.Mixing
import Hysteria.Proof.Outbound.Build
import Hysteria.Proof.Outbound.Cidr
import Hysteria.Proof.Outbound.HttpCredentials
import Hysteria.Proof.Outbound.Ipv6Literal
import Hysteria.Proof.Outbound.OwnName
import Hysteria.Proof.Outbound.Wildcard
import Hysteria.Proof.Ports
import Hysteria.Proof.Realm.Candidates
import Hysteria.Proof.Realm.Discovery
import Hysteria.Proof.Realm.EventMemory
import Hysteria.Proof.Realm.PunchPacket
import Hysteria.Proof.Realm.Session
import Hysteria.Proof.Realm.StunResponse
import Hysteria.Proof.Resolver.AliasChain
import Hysteria.Proof.ServerEch
import Hysteria.Proof.Sniff.RoutableHost
import Hysteria.Proof.Traffic
import Hysteria.Proof.Transport.BrutalWindow
import Hysteria.Proof.Transport.DialFailure
import Hysteria.Proof.Transport.MasqueradeComplete
import Hysteria.Proof.Transport.PacketCycle
import Hysteria.Proof.Transport.PortHopping
import Hysteria.Proof.Transport.RequestLoop
import Hysteria.Proof.Transport.SendWorker
import Hysteria.Proof.Transport.ServerUdp
import Hysteria.Proof.Transport.TcpRelay
import Hysteria.Proof.Tun.Exclusions
import Hysteria.Proof.Tun.PolicyPriority
