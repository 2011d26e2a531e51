/-
Quic::Connection::Client (connection_client.c): the stream registry, the
stream callbacks ngtcp2 makes, the choice of the stream to send from, and
`write_pkt`.

Stream objects live in `objs`, every one ever made, and are named by their
position; `@streams` and `@accept_queue` hold such names. An object outlives
its registry entry, since the user and the accept queue keep theirs.
-/
import QuicRuby.Stream
import QuicRuby.Lib.OrderedHash

namespace QuicRuby

/-- A client: `@streams`, `@accept_queue`, `@sock`, the stream objects, and
the calls made on its `ngtcp2_conn`, in order. -/
structure Client where
  streams : OrderedHash Int Nat := .empty
  acceptQueue : List Nat := []
  sock : Option Nat := none
  objs : List QuicStream := []
  calls : List Ngtcp2Call := []

namespace Client

def log (c : Client) (calls : List Ngtcp2Call) : Client := { c with calls := c.calls ++ calls }

def modify (c : Client) (ref : Nat) (f : QuicStream → QuicStream) : Client :=
  { c with objs := c.objs.modify ref f }

/-- A new stream object under `@streams[streamId]`. -/
def newStream (c : Client) (streamId : Int) : Client :=
  { c with objs := c.objs ++ [quicStreamNew streamId], streams := c.streams.aset streamId c.objs.length }

end Client

/-! ## Stream callbacks -/

/-- A callback from ngtcp2, with the arguments it passes. -/
inductive Callback
  | streamOpen (streamId : Int)
  | recvStreamData (fin : Bool) (streamId : Int) (offset : UInt64) (data : List UInt8)
  | ackedStreamDataOffset (streamId : Int) (offset datalen : UInt64)
  | streamClose (appErrorCodeSet : Bool) (streamId : Int) (appErrorCode : UInt64)
  | streamReset (streamId : Int) (finalSize appErrorCode : UInt64)
deriving DecidableEq, Repr

def Callback.streamId : Callback → Int
  | .streamOpen id | .recvStreamData _ id _ _ | .ackedStreamDataOffset id _ _ | .streamClose _ id _
  | .streamReset id _ _ => id

/-- `quic_client_lookup_stream`. -/
def quicClientLookupStream (c : Client) (streamId : Int) : Option Nat := c.streams.aref streamId

/-- `quic_stream_open_cb`. -/
def quicStreamOpenCb (c : Client) (streamId : Int) : Client :=
  match quicClientLookupStream c streamId with
  | some _ => c
  | none => c.newStream streamId

/-- Whether `recv_stream_data` puts the stream on the accept queue: a
server's stream, the first time. -/
def QuicStream.toAccept (s : QuicStream) (streamId : Int) : Bool := !s.acceptQueued && streamId % 2 = 1

/-- The object after `recv_stream_data`. -/
def QuicStream.recvStreamData (s : QuicStream) (fin : Bool) (streamId : Int) (data : List UInt8) : QuicStream :=
  let s := if s.toAccept streamId then { s with acceptQueued := true } else s
  let s := if 0 < data.length then { s with recvBuffer := s.recvBuffer ++ data } else s
  if fin then { s with finReceived := true } else s

/-- `quic_recv_stream_data_cb`. -/
def quicRecvStreamDataCb (c : Client) (fin : Bool) (streamId : Int) (data : List UInt8) : Client :=
  match quicClientLookupStream c streamId with
  | none => c
  | some ref =>
    let push := (c.objs[ref]?.map (·.toAccept streamId)).getD false
    let c := if push then { c with acceptQueue := c.acceptQueue ++ [ref] } else c
    c.modify ref (·.recvStreamData fin streamId data)

/-- The loop of the ack callback: shift chunks off the head while they end
at or before `ackedOffset`. -/
def shiftAcked : List (List UInt8) → UInt64 → UInt64 → List (List UInt8) × UInt64
  | [], pendingShifted, _ => ([], pendingShifted)
  | head :: rest, pendingShifted, ackedOffset =>
    let headEnd := pendingShifted + UInt64.ofNat head.length
    if headEnd ≤ ackedOffset then shiftAcked rest headEnd ackedOffset else (head :: rest, pendingShifted)

/-- The object after `acked_stream_data_offset`. -/
def QuicStream.ackedStreamDataOffset (s : QuicStream) (datalen : UInt64) : QuicStream :=
  let acked := s.ackedOffset + datalen
  let (pending, shifted) := shiftAcked s.pendingChunks s.pendingShifted acked
  { s with ackedOffset := acked, pendingChunks := pending, pendingShifted := shifted }

/-- `quic_acked_stream_data_offset_cb`. -/
def quicAckedStreamDataOffsetCb (c : Client) (streamId : Int) (datalen : UInt64) : Client :=
  match quicClientLookupStream c streamId with
  | none => c
  | some ref => c.modify ref (·.ackedStreamDataOffset datalen)

/-- The object after `stream_close`. -/
def QuicStream.streamClose (s : QuicStream) (appErrorCodeSet : Bool) (appErrorCode : UInt64) : QuicStream :=
  let s := { s with closed := true }
  if appErrorCodeSet then { s with closeHasAppErrorCode := true, closeAppErrorCode := appErrorCode } else s

/-- `quic_stream_close_cb`. -/
def quicStreamCloseCb (c : Client) (appErrorCodeSet : Bool) (streamId : Int) (appErrorCode : UInt64) : Client :=
  match c.streams.aref streamId with
  | none => c
  | some ref =>
    let c := c.modify ref (·.streamClose appErrorCodeSet appErrorCode)
    { c with streams := c.streams.delete streamId }

/-- The object after `stream_reset`. -/
def QuicStream.streamReset (s : QuicStream) (appErrorCode : UInt64) : QuicStream :=
  { s with reset := true, closeAppErrorCode := appErrorCode, closeHasAppErrorCode := true }

/-- `quic_stream_reset_cb`. -/
def quicStreamResetCb (c : Client) (streamId : Int) (appErrorCode : UInt64) : Client :=
  match quicClientLookupStream c streamId with
  | none => c
  | some ref => c.modify ref (·.streamReset appErrorCode)

/-- A callback's effect. The offsets and the final size are not looked at. -/
def runCallback (c : Client) : Callback → Client
  | .streamOpen id => quicStreamOpenCb c id
  | .recvStreamData fin id _ data => quicRecvStreamDataCb c fin id data
  | .ackedStreamDataOffset id _ datalen => quicAckedStreamDataOffsetCb c id datalen
  | .streamClose set id code => quicStreamCloseCb c set id code
  | .streamReset id _ code => quicStreamResetCb c id code

/-! ## Sending -/

/-- The inner loop of `quic_client_pick_send_stream`: the index of the chunk
that holds the next unsent byte, the chunk, and the offset in it. -/
def walkPending : List (List UInt8) → UInt64 → Nat → Option (Nat × List UInt8 × Nat)
  | [], _, _ => none
  | chunk :: rest, position, j =>
    let clen := UInt64.ofNat chunk.length
    if position < clen then some (j, chunk, position.toNat) else walkPending rest (position - clen) (j + 1)

/-- What the outer loop of `quic_client_pick_send_stream` finds to send for
one stream, if anything. -/
def QuicStream.sendOffer (s : QuicStream) : Option WritevArgs :=
  if s.finFlushed then none
  else
    let position := s.sentOffset - s.pendingShifted
    let chunksCount := s.pendingChunks.length
    match walkPending s.pendingChunks position 0 with
    | some (chunkIdx, chunk, offsetInChunk) =>
      some
        { streamId := s.streamId
          fin := s.finSent && chunkIdx = chunksCount - 1
          datav := chunk.drop offsetInChunk
          datavcnt := 1 }
    | none =>
      if s.finSent && !s.finFlushed then some { streamId := s.streamId, fin := true, datav := [], datavcnt := 0 }
      else none

/-- `quic_client_pick_send_stream`: the first stream of `@streams` with
something to send. -/
def quicClientPickSendStream (c : Client) : Option (Nat × WritevArgs) :=
  c.streams.values.findSome? fun ref => (c.objs[ref]?.bind (·.sendOffer)).map (ref, ·)

/-- What `write_pkt` passes when no stream has anything to send. -/
def WritevArgs.connOnly : WritevArgs := { streamId := -1, fin := false, datav := [], datavcnt := 0 }

/-- The arguments of the `writev_stream` call `write_pkt` makes. -/
def Client.writevArgs (c : Client) : WritevArgs := ((quicClientPickSendStream c).map Prod.snd).getD .connOnly

/-- The accounting `write_pkt` does on the stream it offered, after a packet
of `n` bytes. -/
def QuicStream.accountWritev (s : QuicStream) (args : WritevArgs) (n : Nat) (pdatalen : Int) : QuicStream :=
  if 0 < pdatalen then
    let s := { s with sentOffset := s.sentOffset + UInt64.ofInt pdatalen }
    if args.fin && pdatalen = args.datav.length then { s with finFlushed := true } else s
  else if args.datavcnt = 0 && 0 < n && args.fin then { s with finFlushed := true }
  else s

/-- `quic_client_write_pkt`: `writev` is `ngtcp2_conn_writev_stream` at this
call, `buffer` the encoding of the String given, if one is. Returns the
packet, or nil when there is none. -/
def quicClientWritePkt (writev : WritevArgs → WritevAnswer) (buffer : Option Encoding) (c : Client) :
    Except RubyError (Option (List UInt8)) × Client :=
  if buffer = some .other then (.error (.mkText .argumentError "buffer must be ASCII-8BIT (binary) encoding"), c)
  else
    let selected := quicClientPickSendStream c
    let args := c.writevArgs
    let answer := writev args
    let c := c.log [.writevStream args answer]
    match answer.result with
    | .error rv => (.error (quicRaiseNgtcp2Error rv), c)
    | .ok packet =>
      let c := match selected with
        | some (ref, _) => c.modify ref (·.accountWritev args packet.length answer.pdatalen)
        | none => c
      if packet.length = 0 then (.ok none, c) else (.ok (some packet), c)

/-! ## Opening and accepting streams -/

/-- Register the stream ngtcp2 opened, or raise. -/
def openStream (call : Ngtcp2Call) (answer : Except Ngtcp2Error Int) (c : Client) :
    Except RubyError Nat × Client :=
  let c := c.log [call]
  match answer with
  | .error rv => (.error (quicRaiseNgtcp2Error rv), c)
  | .ok streamId => (.ok c.objs.length, c.newStream streamId)

/-- `quic_client_open_bidi_stream`. -/
def quicClientOpenBidiStream (answer : Except Ngtcp2Error Int) (c : Client) : Except RubyError Nat × Client :=
  openStream (.openBidiStream answer) answer c

/-- `quic_client_open_uni_stream`. -/
def quicClientOpenUniStream (answer : Except Ngtcp2Error Int) (c : Client) : Except RubyError Nat × Client :=
  openStream (.openUniStream answer) answer c

/-- `Client#accept_stream_nonblock`. -/
def acceptStreamNonblock (c : Client) : Except RubyError Nat × Client :=
  match c.acceptQueue with
  | [] => (.error (.mkText .waitReadable "no server-initiated stream available"), c)
  | ref :: rest => (.ok ref, { c with acceptQueue := rest })

/-- `Client#bind`. -/
def Client.bind (c : Client) (sock : Nat) : Client := { c with sock := some sock }

end QuicRuby
