import Sewg.Lib.Run
import Sewg.Lib.CString
import Sewg.Lib.Noise
import Sewg.Lib.Threads
import Sewg.TrustApp.Hex
import Sewg.TrustApp.Sfs
import Sewg.TrustApp.File
import Sewg.TrustApp.Curve25519
import Sewg.TrustApp.Wgtee
import Sewg.TrustApp.Record
import Sewg.TrustApp.Commands
import Sewg.TrustApp.Lifecycle
import Sewg.TrustApp.PinGate
import Sewg.Bridge.Core
import Sewg.Bridge.Concurrent
import Sewg.Kernel.Counter
import Sewg.Kernel.Receive
import Sewg.Kernel.Noise
import Sewg.Go.Noise
import Sewg.Go.Wgtee
import Sewg.Go.Device
import Sewg.Go.Identity
import Sewg.Go.Agreement
import Sewg.Go.Workers
import Sewg.Go.Sessions
import Sewg.Go.Replay
import Sewg.Lib.Routes
import Sewg.Lib.TreeWalk
import Sewg.Lib.Trie
import Sewg.Lib.Words
import Sewg.Go.AllowedIPs
import Sewg.Go.Removal
import Sewg.Lib.Loop
import Sewg.Lib.Prefixes
import Sewg.Lib.PtrTree
import Sewg.Kernel.AllowedIPs
import Sewg.Kernel.RemoveWalk
import Sewg.Kernel.AllowedTrie
import Sewg.Kernel.AllowedAdd
import Sewg.Kernel.AllowedTable
import Sewg.Kernel.Walks
import Sewg.Kernel.WalkBounds
import Sewg.Kernel.Dump
import Sewg.Kernel.ConsumeData
import Sewg.Lib.Window
import Sewg.Go.ReplayFilter
import Sewg.Kernel.CounterWindow
import Sewg.Go.Receive
import Sewg.Go.Transport
import Sewg.Go.RoundTrip
import Sewg.Go.UpDown
import Sewg.Go.NonceWait
import Sewg.Go.Indices
import Sewg.Go.Calls
import Sewg.Go.Entries
import Sewg.Go.RemovePeer
import Sewg.Lib.Chan
import Sewg.Go.PeerQueues
import Sewg.Go.InboundPools
import Sewg.Go.InboundCustody
import Sewg.Go.InboundConserved
import Sewg.Lib.Locks
import Sewg.Lib.RWMutex
import Sewg.Lib.Custody
import Sewg.Lib.Handover
import Sewg.Go.OwnLocks
import Sewg.Go.LockOrder
import Sewg.Kernel.Keypairs
import Sewg.Kernel.Rotation
import Sewg.Lib.Numeral
import Sewg.Go.Tai64n
import Sewg.Go.Text
import Sewg.Go.EntriesForPeer
import Sewg.Go.Uapi
import Sewg.Go.Padding
import Sewg.Go.PeerMap
import Sewg.App.Java
import Sewg.App.KeyEncoding
import Sewg.App.Inet
import Sewg.App.Config
import Sewg.App.TunnelStore
import Sewg.App.ShownState
import Sewg.Lib.Fields
import Sewg.App.ConfigSections
import Sewg.App.IgnoredLines
import Sewg.App.ZipImport
import Sewg.Lib.Base64
import Sewg.App.KeyText
import Sewg.Kernel.Encoding
import Sewg.App.KeyCodecs
import Sewg.TrustApp.Failures
import Sewg.TrustApp.Pinless
import Sewg.TrustApp.Lookup
import Sewg.TrustApp.IdLoop
import Sewg.TrustApp.Log
import Sewg.Kernel.Package
import Sewg.Kernel.Padding
import Sewg.Go.KeyIds
import Sewg.Go.StopReset
import Sewg.Go.Cookie
import Sewg.Go.SendNonces
import Sewg.Go.Confirmed
import Sewg.Go.Tunnels
import Sewg.Go.Refresh
import Sewg.Kernel.Identity
import Sewg.Kernel.Netlink
import Sewg.Lib.Apart
import Sewg.Kernel.Staged
import Sewg.Kernel.Sessions
import Sewg.Go.UapiLines
import Sewg.Go.CookieReplay
import Sewg.Kernel.Ratelimiter
import Sewg.Lib.Hlist
import Sewg.Kernel.IndexTable
import Sewg.Go.HandshakeRate
import Sewg.TrustApp.Directories
import Sewg.TrustApp.Listing
import Sewg.Go.Kdf
import Sewg.Lib.BinarySearch
import Sewg.App.SortedList
import Sewg.App.ExcludePrivateIPs
import Sewg.Go.Timer
import Sewg.Kernel.RouteTables
import Sewg.App.HexCodecs
import Sewg.Kernel.Interop
import Sewg.TrustApp.Ladder
