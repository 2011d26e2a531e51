import QuicRuby.Lib.Run
import QuicRuby.Lib.OrderedHash
import QuicRuby.Lib.ChunkQueue
import QuicRuby.Lib.SendBuffer
import QuicRuby.Ngtcp2
import QuicRuby.Ruby
import QuicRuby.Stream
import QuicRuby.Client
import QuicRuby.System
import QuicRuby.StreamFacts
import QuicRuby.SystemFacts
import QuicRuby.Sending
import QuicRuby.SendQueue
import QuicRuby.SendRun
import QuicRuby.SendExact
import QuicRuby.Fin
import QuicRuby.ReadExact
import QuicRuby.Pump
import QuicRuby.ReadToEnd
import QuicRuby.Admission
import QuicRuby.TransportParams
import QuicRuby.PeerCredit
import QuicRuby.Scheduler
import QuicRuby.Reset
import QuicRuby.BoundedRead
import QuicRuby.WriteLoop
import QuicRuby.Finished
import QuicRuby.BlockingWrite
import QuicRuby.Reissue
import QuicRuby.Lib.Lockstep
import QuicRuby.PeerReset
import QuicRuby.Registry
import QuicRuby.Accept
import QuicRuby.Aborted
import QuicRuby.ReceiveOnly
import QuicRuby.Pick
import QuicRuby.AckGroups
import QuicRuby.Drain
import QuicRuby.StreamSlots
import QuicRuby.Lib.LengthPrefix
import QuicRuby.Lib.WriteBuffer
import QuicRuby.Alpn
import QuicRuby.Settings
import QuicRuby.Connection
import QuicRuby.ConnFacts
import QuicRuby.SamePath
import QuicRuby.Timers
import QuicRuby.CloseOnce
import QuicRuby.Integers
import QuicRuby.Lib.Simulation
import QuicRuby.Lib.Multiplexer
import QuicRuby.Refinement
import QuicRuby.Lib.Keyed
import QuicRuby.Interleaving
import QuicRuby.Echo
import QuicRuby.Priority
import QuicRuby.Wire
import QuicRuby.Lib.Arena
import QuicRuby.NativeMemory
import QuicRuby.Lib.Unfold
import QuicRuby.Session
import QuicRuby.Raises
import QuicRuby.Lib.Deadline
import QuicRuby.AcceptTimeout
import QuicRuby.Lib.Ownership
import QuicRuby.Strings
import QuicRuby.ByValue
import QuicRuby.Lib.BlockLog
import QuicRuby.Chunks
import QuicRuby.Lent
