/-
The ngtcp2 library as the extension sees it: error codes, the arguments
and answers of the calls it makes, and the record of those calls.

ngtcp2 is not part of this repository. Each call takes its answer from the
environment; what an answer may be is said where a result depends on it.
-/
import Mathlib.Algebra.Order.BigOperators.Group.Finset
import Mathlib.Data.UInt

namespace QuicRuby

/-- The `NGTCP2_ERR_*` codes the extension tells apart, and the rest. -/
inductive Ngtcp2Error
  | proto
  | dropConn
  | retry
  | closing
  | draining
  | idleClose
  | crypto
  | handshakeTimeout
  | streamDataBlocked
  | streamShutWr
  | invalidState
  | other (rv : Int)
deriving DecidableEq, Repr

/-- What `ngtcp2_conn_writev_stream` is given: the stream (`-1` for none),
the FIN flag, and the slice `datav` with its count (0 or 1). -/
structure WritevArgs where
  streamId : Int
  fin : Bool
  datav : List UInt8
  datavcnt : Nat
deriving DecidableEq, Repr

/-- Its answer. A result `n < 0` is an error; otherwise the packet is the
first `n` bytes written to the destination, none of them when `n` is 0.
`pdatalen` is what it stores in the output argument. -/
structure WritevAnswer where
  result : Except Ngtcp2Error (List UInt8)
  pdatalen : Int

/-- The calls the extension can make on its `ngtcp2_conn`. A returned 0 is
`none`. The extensions of a limit are ngtcp2's API for giving credit and
streams back to the peer. -/
inductive Ngtcp2Call
  | openBidiStream (answer : Except Ngtcp2Error Int)
  | openUniStream (answer : Except Ngtcp2Error Int)
  | writevStream (args : WritevArgs) (answer : WritevAnswer)
  | shutdownStreamRead (streamId : Int) (appErrorCode : UInt64) (rv : Option Ngtcp2Error)
  | shutdownStreamWrite (streamId : Int) (appErrorCode : UInt64) (rv : Option Ngtcp2Error)
  | extendMaxStreamOffset (streamId : Int) (datalen : UInt64)
  | extendMaxOffset (datalen : UInt64)
  | extendMaxStreamsBidi (n : UInt64)
  | extendMaxStreamsUni (n : UInt64)

end QuicRuby
