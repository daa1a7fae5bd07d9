import Rdnstun.Lib.Carry
import Rdnstun.Inet.Model
import Rdnstun.Inet.Prefix
import Rdnstun.Inet.Present
import Rdnstun.Inet.Shift
import Rdnstun.Chain.Model
import Rdnstun.Chain.Find
import Rdnstun.Array.Model
import Rdnstun.Chain.Parse
import Rdnstun.Chain.Steps
import Rdnstun.Chain.Bounds
import Rdnstun.Array.Find
import Rdnstun.Array.Longest
import Rdnstun.Inet.Checksum
import Rdnstun.Host.Reply
import Rdnstun.Host.Datagram
import Rdnstun.Host.Wire
import Rdnstun.Array.Reply
import Rdnstun.Chain.Shift
import Rdnstun.Chain.Mtu
import Rdnstun.Chain.Whole
import Rdnstun.Main.Duplicate
import Rdnstun.Chain.Ttl
import Rdnstun.Main.Options
import Rdnstun.Main.Ttl
import Rdnstun.Array.Traceroute
import Rdnstun.Host.Agree
import Rdnstun.Array.Stale
import Rdnstun.Array.Options
import Rdnstun.Array.Embed
import Rdnstun.Array.Index
import Rdnstun.Inet.Network
import Rdnstun.Inet.Number
import Rdnstun.Chain.Route
import Rdnstun.Array.Storm
import Rdnstun.Main.PathMtu
import Rdnstun.Chain.Range
import Rdnstun.Chain.Scope
import Rdnstun.Chain.Describe
import Rdnstun.Host.Icmp
import Rdnstun.Host.Error
import Rdnstun.Host.Echo
import Rdnstun.Main.Memory
import Rdnstun.Main.Heap
import Rdnstun.Main.Vec
import Rdnstun.Main.Build
import Rdnstun.Main.Bookkeeping
import Rdnstun.Main.Guard
import Rdnstun.Inet.Cksum
import Rdnstun.Chain.Contains
import Rdnstun.Host.Fragment
import Rdnstun.Array.Compare
import Rdnstun.Lib.Project
import Rdnstun.Main.Device
import Rdnstun.Main.Worker
import Rdnstun.Main.Arguments
import Rdnstun.Main.Daemon
import Rdnstun.Main.Service
import Rdnstun.Main.Shutdown
import Rdnstun.Main.Traffic
import Rdnstun.Array.Order
import Rdnstun.Main.Order
import Rdnstun.Main.Expand
import Rdnstun.Array.Feedback
import Rdnstun.Main.Message
import Rdnstun.Main.Program
import Rdnstun.Host.Overrun
import Rdnstun.Main.Buffer
import Rdnstun.Array.Network
import Rdnstun.Main.Network
import Rdnstun.Main.Valid
