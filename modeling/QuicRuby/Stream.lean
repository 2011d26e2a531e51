/-
Quic::Stream (stream.c): the C struct with the instance variables of its
Ruby object, and the methods that touch nothing else. A method returns its
reply and the object after it; one that calls ngtcp2 takes the answers as
arguments and also returns the calls it made.
-/
import QuicRuby.Ruby

namespace QuicRuby

/-- `quic_stream_t`, with `@client` (whether it is set: a bare Stream has
none), `@pending_chunks` and `@recv_buffer`. -/
structure QuicStream where
  streamId : Int
  sentOffset : UInt64 := 0
  ackedOffset : UInt64 := 0
  pendingShifted : UInt64 := 0
  finReceived : Bool := false
  finSent : Bool := false
  finFlushed : Bool := false
  reset : Bool := false
  closed : Bool := false
  closeAppErrorCode : UInt64 := 0
  closeHasAppErrorCode : Bool := false
  acceptQueued : Bool := false
  hasClient : Bool
  pendingChunks : List (List UInt8) := []
  recvBuffer : List UInt8 := []
deriving DecidableEq, Repr

/-- `quic_stream_new`, for a stream of a client. -/
def quicStreamNew (streamId : Int) : QuicStream := { streamId, hasClient := true }

/-- `quic_stream_enqueue`. -/
def quicStreamEnqueue (s : QuicStream) (data : RString) (fin : Bool) : Except RubyError Nat × QuicStream :=
  if s.reset || s.closed then (.error (.mkText .streamClosed "stream is closed"), s)
  else if s.finSent then (.error (.mkText .streamClosed "stream FIN already sent"), s)
  else
    let s := if 0 < data.len then { s with pendingChunks := s.pendingChunks ++ [data.bytes] } else s
    let s := if fin then { s with finSent := true } else s
    (.ok data.len, s)

/-- `quic_stream_window_left`, of what ngtcp2 reports for the stream and
for the connection. -/
def quicStreamWindowLeft (streamLeft connLeft : UInt64) : UInt64 :=
  if streamLeft < connLeft then streamLeft else connLeft

/-- One turn of `quic_stream_write_m`: `none` when the window does not hold
the payload, so that `Client#pump_once` is called and the loop comes back. -/
def quicStreamWriteM (s : QuicStream) (data : RString) (fin : Bool) (streamLeft connLeft : UInt64) :
    Option (Except RubyError Nat × QuicStream) :=
  if !s.hasClient then some (quicStreamEnqueue s data fin)
  else
    let needed := data.len
    if 0 < needed ∧ quicStreamWindowLeft streamLeft connLeft < UInt64.ofNat needed then none
    else some (quicStreamEnqueue s data fin)

/-- `quic_stream_write_nonblock_m`. -/
def quicStreamWriteNonblockM (s : QuicStream) (data : RString) (fin : Bool) (streamLeft connLeft : UInt64) :
    Except RubyError Nat × QuicStream :=
  if !s.hasClient then quicStreamEnqueue s data fin
  else
    let needed := data.len
    if needed = 0 then quicStreamEnqueue s data fin
    else
      let avail := quicStreamWindowLeft streamLeft connLeft
      if avail = 0 then (.error (.mkText .waitWritable "stream send window is full"), s)
      else
        let take := if UInt64.ofNat needed ≤ avail then needed else avail.toNat
        let effectiveFin := if take = needed then fin else false
        let slice := if take = needed then data else data.take take
        quicStreamEnqueue s slice effectiveFin

/-- The empty String `close_write` queues its FIN with. -/
def RString.empty : RString := ⟨[], by decide⟩

/-- `quic_stream_close_write_m`. -/
def quicStreamCloseWriteM (s : QuicStream) : Except RubyError Unit × QuicStream :=
  if s.finSent then (.ok (), s)
  else
    let (r, s) := quicStreamEnqueue s .empty true
    (r.map fun _ => (), s)

/-- `quic_stream_read_nonblock_m`. -/
def quicStreamReadNonblockM (s : QuicStream) (lengthV : Int) : Except RubyError (List UInt8) × QuicStream :=
  match num2long lengthV with
  | .error e => (.error e, s)
  | .ok length =>
    if length < 0 then (.error (.mkText .argumentError s!"negative length {length} given"), s)
    else
      let have_ := s.recvBuffer.length
      if have_ = 0 then
        if s.finReceived then (.error (.mkText .eofError "end of file reached"), s)
        else (.error (.mkText .waitReadable "no data available"), s)
      else
        let take := if length < have_ then length.toNat else have_
        (.ok (s.recvBuffer.take take), { s with recvBuffer := s.recvBuffer.drop take })

/-- `quic_stream_eof_p`. -/
def quicStreamEofP (s : QuicStream) : Bool := s.recvBuffer.length = 0 && s.finReceived

/-- `quic_stream_close_read_m`. A bare Stream has no client to take the
`ngtcp2_conn` from. -/
def quicStreamCloseReadM (s : QuicStream) (rv : Option Ngtcp2Error) :
    Except RubyError Unit × QuicStream × List Ngtcp2Call :=
  if !s.hasClient then (.error (.mkText .typeError "wrong argument type nil (expected Quic::Connection::Client)"), s, [])
  else
    let call := Ngtcp2Call.shutdownStreamRead s.streamId 0 rv
    match rv with
    | some e => (.error (quicRaiseNgtcp2Error e), s, [call])
    | none => (.ok (), s, [call])

/-- `quic_stream_close_m`: FIN, then STOP_SENDING. -/
def quicStreamCloseM (s : QuicStream) (rv : Option Ngtcp2Error) :
    Except RubyError Unit × QuicStream × List Ngtcp2Call :=
  match quicStreamCloseWriteM s with
  | (.error e, s) => (.error e, s, [])
  | (.ok (), s) => quicStreamCloseReadM s rv

/-- The optional `error_code` argument of `reset`. -/
def resetErrorCode : Option Int → Except RubyError UInt64
  | none => .ok 0
  | some v => num2ull v

/-- `quic_stream_reset_m`. -/
def quicStreamResetM (s : QuicStream) (errorCodeV : Option Int) (rv : Option Ngtcp2Error) :
    Except RubyError Unit × QuicStream × List Ngtcp2Call :=
  match resetErrorCode errorCodeV with
  | .error e => (.error e, s, [])
  | .ok errorCode =>
    if s.reset then (.ok (), s, [])
    else if !s.hasClient then (.ok (), { s with reset := true }, [])
    else
      let call := Ngtcp2Call.shutdownStreamWrite s.streamId errorCode rv
      match rv with
      | some e => (.error (quicRaiseNgtcp2Error e), s, [call])
      | none => (.ok (), { s with reset := true }, [call])

end QuicRuby
