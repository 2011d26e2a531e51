/-
The client as a machine: the calls a Ruby program makes on a client and its
streams, and the callbacks ngtcp2 makes into it, one event each, in any
order. A trace records each event with the reply the program got.

A blocking `write` shows up as the turn of its loop at which the window
holds the payload; the turns before it are the events of the `pump_once`
calls it makes, which any order of events allows for. An event that names
an object the program cannot have, or a `write` turn that only pumps, is
not taken.

The second half says the same once more, by effect: an event changes at
most one object (`Event.target`, `Event.update`) and makes at most one new
one (`Event.opens`). `QuicRuby.SystemFacts` proves that `step` does this.
-/
import QuicRuby.Client
import QuicRuby.Lib.Run

namespace QuicRuby

open Runs

/-- What a call gives back. -/
inductive RValue
  | nil
  | int (n : Nat)
  | str (bytes : List UInt8)
  | stream (ref : Nat)
deriving DecidableEq, Repr

abbrev Reply := Except RubyError RValue

/-- A call or a callback. `ref` names a stream object; window sizes, stream
ids and results are ngtcp2's answers. `maxStreamData` and `maxData` are the
peer's frames that raise a limit of ngtcp2's; the client registers no
callback for them and is not told. -/
inductive Event
  | openBidiStream (answer : Except Ngtcp2Error Int)
  | openUniStream (answer : Except Ngtcp2Error Int)
  | write (ref : Nat) (data : RString) (fin : Bool) (streamLeft connLeft : UInt64)
  | writeNonblock (ref : Nat) (data : RString) (fin : Bool) (streamLeft connLeft : UInt64)
  | closeWrite (ref : Nat)
  | readNonblock (ref : Nat) (length : Int)
  | closeRead (ref : Nat) (rv : Option Ngtcp2Error)
  | close (ref : Nat) (rv : Option Ngtcp2Error)
  | reset (ref : Nat) (errorCode : Option Int) (rv : Option Ngtcp2Error)
  | writePkt (buffer : Option Encoding) (answer : WritevAnswer)
  | acceptStreamNonblock
  | bind (sock : Nat)
  | callback (cb : Callback)
  | maxStreamData (streamId : Int) (limit : UInt64)
  | maxData (limit : UInt64)

/-- A method on the stream object `ref`, its value made a reply by `f`. -/
def Client.call {α : Type} (c : Client) (ref : Nat) (f : α → RValue)
    (method : QuicStream → Except RubyError α × QuicStream × List Ngtcp2Call) : Option (Reply × Client) :=
  c.objs[ref]?.map fun s => ((method s).1.map f, (c.modify ref fun s => (method s).2.1).log (method s).2.2)

/-- A method that makes no call recorded. -/
def quiet {α : Type} (r : Except RubyError α × QuicStream) :
    Except RubyError α × QuicStream × List Ngtcp2Call :=
  (r.1, r.2, [])

def RValue.ofUnit : Unit → RValue := fun _ => .nil

def RValue.ofPacket : Option (List UInt8) → RValue
  | some packet => .str packet
  | none => .nil

def step (c : Client) : Event → Option (Reply × Client)
  | .openBidiStream answer =>
    let (r, c) := quicClientOpenBidiStream answer c
    some (r.map .stream, c)
  | .openUniStream answer =>
    let (r, c) := quicClientOpenUniStream answer c
    some (r.map .stream, c)
  | .write ref data fin streamLeft connLeft =>
    c.objs[ref]?.bind fun s =>
      (quicStreamWriteM s data fin streamLeft connLeft).map fun (r, s') =>
        (r.map .int, c.modify ref fun _ => s')
  | .writeNonblock ref data fin streamLeft connLeft =>
    c.call ref .int fun s => quiet (quicStreamWriteNonblockM s data fin streamLeft connLeft)
  | .closeWrite ref => c.call ref .ofUnit fun s => quiet (quicStreamCloseWriteM s)
  | .readNonblock ref length => c.call ref .str fun s => quiet (quicStreamReadNonblockM s length)
  | .closeRead ref rv => c.call ref .ofUnit fun s => quicStreamCloseReadM s rv
  | .close ref rv => c.call ref .ofUnit fun s => quicStreamCloseM s rv
  | .reset ref errorCode rv => c.call ref .ofUnit fun s => quicStreamResetM s errorCode rv
  | .writePkt buffer answer =>
    let (r, c) := quicClientWritePkt (fun _ => answer) buffer c
    some (r.map .ofPacket, c)
  | .acceptStreamNonblock =>
    let (r, c) := acceptStreamNonblock c
    some (r.map .stream, c)
  | .bind sock => some (.ok .nil, c.bind sock)
  | .callback cb => some (.ok .nil, runCallback c cb)
  | .maxStreamData _ _ | .maxData _ => some (.ok .nil, c)

abbrev ClientTrace := Trace Event Reply
abbrev ClientContract := Contract Client Event Reply

/-- A run of a client from the state `_open` leaves. -/
abbrev Reach (K : ClientContract) : ClientTrace → Client → Prop := Steps step K [] {}

/-! ## What an event does to the stream objects -/

/-- The object an event is about. -/
def Event.target (c : Client) : Event → Option Nat
  | .write ref _ _ _ _ | .writeNonblock ref _ _ _ _ | .closeWrite ref | .readNonblock ref _ | .closeRead ref _
  | .close ref _ | .reset ref _ _ => some ref
  | .writePkt buffer _ => if buffer = some .other then none else (quicClientPickSendStream c).map Prod.fst
  | .callback cb => c.streams.aref cb.streamId
  | .openBidiStream _ | .openUniStream _ | .acceptStreamNonblock | .bind _ | .maxStreamData _ _
  | .maxData _ => none

/-- What a callback makes of its stream's object. -/
def Callback.update (s : QuicStream) : Callback → QuicStream
  | .streamOpen _ => s
  | .recvStreamData fin id _ data => s.recvStreamData fin id data
  | .ackedStreamDataOffset _ _ datalen => s.ackedStreamDataOffset datalen
  | .streamClose set _ code => s.streamClose set code
  | .streamReset _ _ code => s.streamReset code

/-- What an event makes of its object. -/
def Event.update (s : QuicStream) : Event → QuicStream
  | .write _ data fin streamLeft connLeft =>
    match quicStreamWriteM s data fin streamLeft connLeft with
    | some (_, s') => s'
    | none => s
  | .writeNonblock _ data fin streamLeft connLeft => (quicStreamWriteNonblockM s data fin streamLeft connLeft).2
  | .closeWrite _ => (quicStreamCloseWriteM s).2
  | .readNonblock _ length => (quicStreamReadNonblockM s length).2
  | .closeRead _ rv => (quicStreamCloseReadM s rv).2.1
  | .close _ rv => (quicStreamCloseM s rv).2.1
  | .reset _ errorCode rv => (quicStreamResetM s errorCode rv).2.1
  | .writePkt _ answer =>
    match answer.result with
    | .ok packet => s.accountWritev (s.sendOffer.getD .connOnly) packet.length answer.pdatalen
    | .error _ => s
  | .callback cb => cb.update s
  | .openBidiStream _ | .openUniStream _ | .acceptStreamNonblock | .bind _ | .maxStreamData _ _
  | .maxData _ => s

/-- The id an event makes a new object for. -/
def Event.opens (c : Client) : Event → Option Int
  | .openBidiStream (.ok id) | .openUniStream (.ok id) => some id
  | .callback (.streamOpen id) => if (c.streams.aref id).isSome then none else some id
  | _ => none

/-- The ngtcp2 calls an event makes. -/
def Event.newCalls (c : Client) : Event → List Ngtcp2Call
  | .openBidiStream answer => [.openBidiStream answer]
  | .openUniStream answer => [.openUniStream answer]
  | .closeRead ref rv => (c.objs[ref]?.map fun s => (quicStreamCloseReadM s rv).2.2).getD []
  | .close ref rv => (c.objs[ref]?.map fun s => (quicStreamCloseM s rv).2.2).getD []
  | .reset ref errorCode rv => (c.objs[ref]?.map fun s => (quicStreamResetM s errorCode rv).2.2).getD []
  | .writePkt buffer answer =>
    if buffer = some .other then []
    else [.writevStream c.writevArgs answer]
  | _ => []

/-- The objects there were, after an event. -/
def Event.updated (c : Client) (e : Event) : List QuicStream :=
  match e.target c with
  | some ref => c.objs.modify ref fun s => e.update s
  | none => c.objs

/-- The objects after an event. -/
def Event.objsAfter (c : Client) (e : Event) : List QuicStream :=
  match e.opens c with
  | some id => e.updated c ++ [quicStreamNew id]
  | none => e.updated c

/-- The id whose entry an event takes out of the registry. -/
def Event.closes (c : Client) : Event → Option Int
  | .callback (.streamClose _ id _) => if (c.streams.aref id).isSome then some id else none
  | _ => none

/-- The registry after an event. -/
def Event.streamsAfter (c : Client) (e : Event) : OrderedHash Int Nat :=
  match e.opens c, e.closes c with
  | some id, _ => c.streams.aset id c.objs.length
  | none, some id => c.streams.delete id
  | none, none => c.streams

end QuicRuby
