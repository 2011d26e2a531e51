/-
The Ruby Strings. A String is an object that whoever has it may write to, so
the C code copies: `write` copies the data into a chunk of its own,
`read_nonblock` returns a new String, and only `write_pkt` writes to a String
it is given. This is the code over the String objects themselves: the chunks
and `@recv_buffer` of a stream are VALUEs, and their bytes are read when the
code reads them.

The program makes Strings and writes to those it has at any time between its
calls. A VALUE of a String is its position in the heap; Strings are not
collected. Frozen Strings and Strings that share their memory are left out.
-/
import QuicRuby.Connection
import QuicRuby.Reissue

namespace QuicRuby

/-- What a String holds now, its encoding, and `rb_str_locktmp`'s lock. -/
structure StringObject where
  str : RString
  encoding : Encoding
  locked : Bool := false
deriving DecidableEq, Repr

/-- What `rb_str_new` and `rb_str_buf_new` make is binary. -/
def StringObject.binary (str : RString) : StringObject := { str, encoding := .binary }

abbrev Heap := List StringObject

namespace Heap

/-- The String's content now. -/
def str (h : Heap) (v : Nat) : RString := (h[v]?.map (·.str)).getD .empty

def encoding (h : Heap) (v : Nat) : Encoding := (h[v]?.map (·.encoding)).getD .binary

def locked (h : Heap) (v : Nat) : Bool := (h[v]?.map (·.locked)).getD false

/-- `rb_str_locktmp`. -/
def locktmp (h : Heap) (v : Nat) : Except RubyError Heap :=
  if h.locked v then .error (.mkText .runtimeError "temporal locking already locked string")
  else .ok (h.modify v fun o => { o with locked := true })

/-- `rb_str_unlocktmp`, of a locked String. -/
def unlocktmp (h : Heap) (v : Nat) : Heap := h.modify v fun o => { o with locked := false }

/-- `rb_check_frozen` and the lock, before a String is written to. -/
def modifiable (h : Heap) (v : Nat) : Except RubyError Unit :=
  if h.locked v then .error (.mkText .runtimeError "can't modify string; temporarily locked") else .ok ()

def put (h : Heap) (v : Nat) (str : RString) : Heap := h.modify v fun o => { o with str }

/-- `rb_str_set_len`, of a String whose memory starts with the bytes left. -/
def setLen (h : Heap) (v : Nat) (str : RString) : Except RubyError Heap :=
  (h.modifiable v).map fun _ => h.put v str

/-- `rb_str_buf_cat`: `none` when it raises, which unwinds through ngtcp2. -/
def bufCat (h : Heap) (v : Nat) (data : List UInt8) : Option Heap :=
  if hlen : ((h.str v).bytes ++ data).length < 2 ^ 63 then
    if h.locked v then none else some (h.put v ⟨(h.str v).bytes ++ data, hlen⟩)
  else none

end Heap

/-- A Ruby stream: `quic_stream_t`, with the instance variables that are, or
hold, Strings. The struct's own are not used. -/
structure StreamObject where
  struct : QuicStream
  pendingChunks : List Nat := []
  recvBuffer : Nat

namespace StreamObject

/-- The Strings of the stream. -/
def strings (o : StreamObject) : List Nat := o.recvBuffer :: o.pendingChunks

/-- The stream, its Strings by what they hold. -/
def value (h : Heap) (o : StreamObject) : QuicStream :=
  { o.struct with
    pendingChunks := o.pendingChunks.map fun v => (h.str v).bytes
    recvBuffer := (h.str o.recvBuffer).bytes }

end StreamObject

/-! ## stream.c -/

/-- What a method leaves: its reply, the heap, the stream, and the calls it
made. -/
abbrev Method (α : Type) := Heap → StreamObject → Except RubyError α × Heap × StreamObject × List Ngtcp2Call

namespace Strings

/-- `quic_stream_enqueue`. -/
def quicStreamEnqueue (data : Nat) (fin : Bool) : Method Nat := fun h o =>
  if o.struct.reset || o.struct.closed then (.error (.mkText .streamClosed "stream is closed"), h, o, [])
  else if o.struct.finSent then (.error (.mkText .streamClosed "stream FIN already sent"), h, o, [])
  else
    let len := (h.str data).len
    let (h, o) :=
      if 0 < len then
        (h ++ [StringObject.binary (h.str data)], { o with pendingChunks := o.pendingChunks ++ [h.length] })
      else (h, o)
    let o := if fin then { o with struct := { o.struct with finSent := true } } else o
    (.ok len, h, o, [])

/-- One turn of `quic_stream_write_m`. -/
def quicStreamWriteM (data : Nat) (fin : Bool) (streamLeft connLeft : UInt64) (h : Heap) (o : StreamObject) :
    Option (Except RubyError Nat × Heap × StreamObject × List Ngtcp2Call) :=
  if !o.struct.hasClient then some (quicStreamEnqueue data fin h o)
  else
    let needed := (h.str data).len
    if 0 < needed ∧ quicStreamWindowLeft streamLeft connLeft < UInt64.ofNat needed then none
    else some (quicStreamEnqueue data fin h o)

/-- `quic_stream_write_nonblock_m`; a slice is a String of its own. -/
def quicStreamWriteNonblockM (data : Nat) (fin : Bool) (streamLeft connLeft : UInt64) : Method Nat := fun h o =>
  if !o.struct.hasClient then quicStreamEnqueue data fin h o
  else
    let needed := (h.str data).len
    if needed = 0 then quicStreamEnqueue data fin h o
    else
      let avail := quicStreamWindowLeft streamLeft connLeft
      if avail = 0 then (.error (.mkText .waitWritable "stream send window is full"), h, o, [])
      else
        let take := if UInt64.ofNat needed ≤ avail then needed else avail.toNat
        let effectiveFin := if take = needed then fin else false
        let (slice, h) :=
          if take = needed then (data, h)
          else (h.length, h ++ [StringObject.binary ((h.str data).take take)])
        quicStreamEnqueue slice effectiveFin h o

/-- `quic_stream_close_write_m`. -/
def quicStreamCloseWriteM : Method Unit := fun h o =>
  if o.struct.finSent then (.ok (), h, o, [])
  else
    let (r, h, o, calls) := quicStreamEnqueue h.length true (h ++ [StringObject.binary .empty]) o
    (r.map fun _ => (), h, o, calls)

/-- `quic_stream_read_nonblock_m`. -/
def quicStreamReadNonblockM (lengthV : Int) : Method Nat := fun h o =>
  match num2long lengthV with
  | .error e => (.error e, h, o, [])
  | .ok length =>
    if length < 0 then (.error (.mkText .argumentError s!"negative length {length} given"), h, o, [])
    else
      let buffer := h.str o.recvBuffer
      let have_ := buffer.len
      if have_ = 0 then
        if o.struct.finReceived then (.error (.mkText .eofError "end of file reached"), h, o, [])
        else (.error (.mkText .waitReadable "no data available"), h, o, [])
      else
        let take := if length < have_ then length.toNat else have_
        (.ok h.length, (h ++ [StringObject.binary (buffer.take take)]).put o.recvBuffer (buffer.drop take), o, [])

/-- A method that only looks at the struct. -/
def onStruct {α : Type} (f : QuicStream → Except RubyError α × QuicStream × List Ngtcp2Call) : Method α :=
  fun h o =>
  let (r, s, calls) := f o.struct
  (r, h, { o with struct := s }, calls)

/-- `quic_stream_close_read_m`. -/
def quicStreamCloseReadM (rv : Option Ngtcp2Error) : Method Unit :=
  onStruct fun s => QuicRuby.quicStreamCloseReadM s rv

/-- `quic_stream_close_m`. -/
def quicStreamCloseM (rv : Option Ngtcp2Error) : Method Unit := fun h o =>
  match quicStreamCloseWriteM h o with
  | (.error e, h, o, calls) => (.error e, h, o, calls)
  | (.ok (), h, o, _) => quicStreamCloseReadM rv h o

/-- `quic_stream_reset_m`. -/
def quicStreamResetM (errorCodeV : Option Int) (rv : Option Ngtcp2Error) : Method Unit :=
  onStruct fun s => QuicRuby.quicStreamResetM s errorCodeV rv

end Strings

/-! ## connection_client.c -/

/-- The client, the Strings, and those of them the program has. -/
structure StringWorld where
  streams : OrderedHash Int Nat := .empty
  acceptQueue : List Nat := []
  sock : Option Nat := none
  objs : List StreamObject := []
  calls : List Ngtcp2Call := []
  heap : Heap := []
  owned : List Nat := []

namespace StringWorld

/-- The client, its Strings by what they hold. -/
def value (w : StringWorld) : Client where
  streams := w.streams
  acceptQueue := w.acceptQueue
  sock := w.sock
  objs := w.objs.map (·.value w.heap)
  calls := w.calls

def log (w : StringWorld) (calls : List Ngtcp2Call) : StringWorld := { w with calls := w.calls ++ calls }

def modify (w : StringWorld) (ref : Nat) (f : StreamObject → StreamObject) : StringWorld :=
  { w with objs := w.objs.modify ref f }

/-- `quic_stream_new`, under `@streams[streamId]`. -/
def newStream (w : StringWorld) (streamId : Int) : StringWorld :=
  { w with
    heap := w.heap ++ [.binary .empty]
    objs := w.objs ++ [{ struct := quicStreamNew streamId, recvBuffer := w.heap.length }]
    streams := w.streams.aset streamId w.objs.length }

end StringWorld

namespace Strings

/-- The loop of the ack callback. -/
def shiftAcked (h : Heap) : List Nat → UInt64 → UInt64 → List Nat × UInt64
  | [], pendingShifted, _ => ([], pendingShifted)
  | head :: tail, pendingShifted, ackedOffset =>
    let headEnd := pendingShifted + UInt64.ofNat (h.str head).len
    if headEnd ≤ ackedOffset then shiftAcked h tail headEnd ackedOffset else (head :: tail, pendingShifted)

/-- The object after `acked_stream_data_offset`. -/
def ackedStreamDataOffset (h : Heap) (datalen : UInt64) (o : StreamObject) : StreamObject :=
  let acked := o.struct.ackedOffset + datalen
  let (pending, shifted) := shiftAcked h o.pendingChunks o.struct.pendingShifted acked
  { o with pendingChunks := pending, struct := { o.struct with ackedOffset := acked, pendingShifted := shifted } }

/-- What `recv_stream_data` does to the stream's struct and buffer. -/
def recvStreamData (fin : Bool) (streamId : Int) (data : List UInt8) (h : Heap) (o : StreamObject) :
    Option (Heap × StreamObject) :=
  let s := if o.struct.toAccept streamId then { o.struct with acceptQueued := true } else o.struct
  (if 0 < data.length then h.bufCat o.recvBuffer data else some h).map fun h =>
    (h, { o with struct := if fin then { s with finReceived := true } else s })

/-- A callback's effect. -/
def runCallback (w : StringWorld) : Callback → Option StringWorld
  | .streamOpen id =>
    match w.streams.aref id with
    | some _ => some w
    | none => some (w.newStream id)
  | .recvStreamData fin id _ data =>
    match w.streams.aref id with
    | none => some w
    | some ref =>
      match w.objs[ref]? with
      | none => some w
      | some o =>
        let w := if o.struct.toAccept id then { w with acceptQueue := w.acceptQueue ++ [ref] } else w
        (recvStreamData fin id data w.heap o).map fun (h, o) => { w with heap := h }.modify ref fun _ => o
  | .ackedStreamDataOffset id _ datalen =>
    match w.streams.aref id with
    | none => some w
    | some ref => some (w.modify ref (ackedStreamDataOffset w.heap datalen))
  | .streamClose set id code =>
    match w.streams.aref id with
    | none => some w
    | some ref =>
      let w := w.modify ref fun o => { o with struct := o.struct.streamClose set code }
      some { w with streams := w.streams.delete id }
  | .streamReset id _ code =>
    match w.streams.aref id with
    | none => some w
    | some ref => some (w.modify ref fun o => { o with struct := o.struct.streamReset code })

/-- The inner loop of `quic_client_pick_send_stream`: the chunk's index and
VALUE, and the offset in it. -/
def walkPending (h : Heap) : List Nat → UInt64 → Nat → Option (Nat × Nat × Nat)
  | [], _, _ => none
  | chunk :: tail, position, j =>
    let clen := UInt64.ofNat (h.str chunk).len
    if position < clen then some (j, chunk, position.toNat) else walkPending h tail (position - clen) (j + 1)

/-- What `quic_client_pick_send_stream` sets: the slice as the chunk it points
into and the offset there. -/
structure Pick where
  streamId : Int
  fin : Bool
  base : Option (Nat × Nat)
  datavcnt : Nat
deriving DecidableEq, Repr

/-- The arguments, the slice by what the chunk holds. -/
def Pick.args (h : Heap) (p : Pick) : WritevArgs where
  streamId := p.streamId
  fin := p.fin
  datav := (p.base.map fun b => (h.str b.1).bytes.drop b.2).getD []
  datavcnt := p.datavcnt

/-- What the outer loop of `quic_client_pick_send_stream` finds for one
stream. -/
def sendOffer (h : Heap) (o : StreamObject) : Option Pick :=
  if o.struct.finFlushed then none
  else
    let position := o.struct.sentOffset - o.struct.pendingShifted
    let chunksCount := o.pendingChunks.length
    match walkPending h o.pendingChunks position 0 with
    | some (chunkIdx, chunk, offsetInChunk) =>
      some
        { streamId := o.struct.streamId
          fin := o.struct.finSent && chunkIdx = chunksCount - 1
          base := some (chunk, offsetInChunk)
          datavcnt := 1 }
    | none =>
      if o.struct.finSent && !o.struct.finFlushed then
        some { streamId := o.struct.streamId, fin := true, base := none, datavcnt := 0 }
      else none

/-- `quic_client_pick_send_stream`. -/
def quicClientPickSendStream (w : StringWorld) : Option (Nat × Pick) :=
  w.streams.values.findSome? fun ref => (w.objs[ref]?.bind (sendOffer w.heap)).map (ref, ·)

/-- The arguments of the `writev_stream` call. -/
def writevArgs (w : StringWorld) : WritevArgs :=
  ((quicClientPickSendStream w).map fun p => p.2.args w.heap).getD .connOnly

/-- `QUIC_WRITE_PKT_BUFLEN`. -/
def writePktBuflen : Nat := 1200

/-- The String `write_pkt` writes to: a new one, or the one given, grown to
`QUIC_WRITE_PKT_BUFLEN`. -/
def writeBuffer (h : Heap) : Option Nat → Except RubyError (Nat × Heap)
  | none => .ok (h.length, h ++ [.binary .empty])
  | some v =>
    if h.encoding v = .other then .error (.mkText .argumentError "buffer must be ASCII-8BIT (binary) encoding")
    else if (h.str v).len < writePktBuflen then (h.modifiable v).map fun _ => (v, h)
    else .ok (v, h)

/-- The rest of `quic_client_write_pkt`. ngtcp2 writes no more than the length
it is given. -/
def writePktTo (answer : WritevAnswer) (v : Nat) (w : StringWorld) :
    Option (Except RubyError (Option Nat) × StringWorld) :=
  let selected := quicClientPickSendStream w
  let args := writevArgs w
  let w := w.log [.writevStream args answer]
  match answer.result with
  | .error rv =>
    match w.heap.setLen v .empty with
    | .error e => some (.error e, w)
    | .ok h => some (.error (quicRaiseNgtcp2Error rv), { w with heap := h })
  | .ok packet =>
    if hlen : packet.length ≤ writePktBuflen then
      let w := match selected with
        | some (ref, _) => w.modify ref fun o =>
          { o with struct := o.struct.accountWritev args packet.length answer.pdatalen }
        | none => w
      match w.heap.setLen v ⟨packet, Nat.lt_of_le_of_lt hlen (by decide)⟩ with
      | .error e => some (.error e, w)
      | .ok h => some (.ok (if packet.length = 0 then none else some v), { w with heap := h })
    else none

/-- `quic_client_write_pkt`. -/
def quicClientWritePkt (answer : WritevAnswer) (buffer : Option Nat) (w : StringWorld) :
    Option (Except RubyError (Option Nat) × StringWorld) :=
  match writeBuffer w.heap buffer with
  | .error e => some (.error e, w)
  | .ok (v, h) => writePktTo answer v { w with heap := h }

/-- Both keywords of `read_pkt`, binary like the packet. -/
def readPktArgs (h : Heap) (packet : Nat) : Option (Option Nat × Option Nat) → Except RubyError Unit
  | some (some localSockaddr, some remoteSockaddr) => do
    quicRequireBinary (h.encoding packet) "packet"
    quicRequireBinary (h.encoding localSockaddr) "local_sockaddr"
    quicRequireBinary (h.encoding remoteSockaddr) "remote_sockaddr"
  | _ => .error (.mkText .argumentError "missing keywords: local_sockaddr, remote_sockaddr")

/-- `quic_client_read_pkt`: the callbacks ngtcp2 makes run while the packet is
locked, and the lock goes whatever `quic_read_pkt_body` raises. -/
def quicClientReadPkt (packet : Nat) (opts : Option (Option Nat × Option Nat)) (callbacks : List Callback)
    (rv : Option Ngtcp2Error) (w : StringWorld) : Option (Except RubyError Unit × StringWorld) :=
  match readPktArgs w.heap packet opts with
  | .error e => some (.error e, w)
  | .ok () =>
    match w.heap.locktmp packet with
    | .error e => some (.error e, w)
    | .ok h =>
      (callbacks.foldlM runCallback { w with heap := h }).map fun w =>
        ((rv.map fun e => Except.error (quicRaiseNgtcp2Error e)).getD (.ok ()),
          { w with heap := w.heap.unlocktmp packet })

end Strings

/-! ## The machine -/

/-- A call, naming the Strings it is given, a callback, or what the program
does with its Strings. -/
inductive StringEvent
  | openBidiStream (answer : Except Ngtcp2Error Int)
  | openUniStream (answer : Except Ngtcp2Error Int)
  | write (ref data : Nat) (fin : Bool) (streamLeft connLeft : UInt64)
  | writeNonblock (ref data : Nat) (fin : Bool) (streamLeft connLeft : UInt64)
  | closeWrite (ref : Nat)
  | readNonblock (ref : Nat) (length : Int)
  | closeRead (ref : Nat) (rv : Option Ngtcp2Error)
  | close (ref : Nat) (rv : Option Ngtcp2Error)
  | reset (ref : Nat) (errorCode : Option Int) (rv : Option Ngtcp2Error)
  | writePkt (buffer : Option Nat) (answer : WritevAnswer)
  | readPkt (packet : Nat) (opts : Option (Option Nat × Option Nat)) (callbacks : List Callback)
      (rv : Option Ngtcp2Error)
  | acceptStreamNonblock
  | bind (sock : Nat)
  | callback (cb : Callback)
  | newString (str : RString) (encoding : Encoding)
  | setString (v : Nat) (str : RString) (encoding : Encoding)

/-- What a call gives back: a String is its VALUE. -/
inductive StringValue
  | nil
  | int (n : Nat)
  | str (v : Nat)
  | stream (ref : Nat)
deriving DecidableEq, Repr

abbrev StringReply := Except RubyError StringValue

namespace StringValue

def ofUnit : Unit → StringValue := fun _ => .nil

def ofPacket : Option Nat → StringValue
  | some v => .str v
  | none => .nil

/-- The Strings the program gets. -/
def strings : StringValue → List Nat
  | .str v => [v]
  | _ => []

/-- A String by what it holds. -/
def value (h : Heap) : StringValue → RValue
  | .nil => .nil
  | .int n => .int n
  | .str v => .str (h.str v).bytes
  | .stream ref => .stream ref

end StringValue

namespace StringWorld

/-- A method on the stream object `ref`. -/
def call {α : Type} (w : StringWorld) (ref : Nat) (f : α → StringValue) (method : Method α) :
    Option (StringReply × StringWorld) :=
  w.objs[ref]?.map fun o =>
    let (r, h, o, calls) := method w.heap o
    (r.map f, ({ w with heap := h }.modify ref fun _ => o).log calls)

/-- The Strings an event names are the program's. -/
def names : StringEvent → List Nat
  | .write _ data _ _ _ | .writeNonblock _ data _ _ _ => [data]
  | .writePkt buffer _ => buffer.toList
  | .readPkt packet opts _ _ => packet :: (opts.map fun o => o.1.toList ++ o.2.toList).getD []
  | .setString v _ _ => [v]
  | _ => []

def openStream (call : Ngtcp2Call) (answer : Except Ngtcp2Error Int) (w : StringWorld) :
    StringReply × StringWorld :=
  let w := w.log [call]
  match answer with
  | .error rv => (.error (quicRaiseNgtcp2Error rv), w)
  | .ok streamId => (.ok (.stream w.objs.length), w.newStream streamId)

def perform (w : StringWorld) : StringEvent → Option (StringReply × StringWorld)
  | .openBidiStream answer => some (w.openStream (.openBidiStream answer) answer)
  | .openUniStream answer => some (w.openStream (.openUniStream answer) answer)
  | .write ref data fin streamLeft connLeft =>
    w.objs[ref]?.bind fun o =>
      (Strings.quicStreamWriteM data fin streamLeft connLeft w.heap o).map fun (r, h, o, calls) =>
        (r.map .int, ({ w with heap := h }.modify ref fun _ => o).log calls)
  | .writeNonblock ref data fin streamLeft connLeft =>
    w.call ref .int (Strings.quicStreamWriteNonblockM data fin streamLeft connLeft)
  | .closeWrite ref => w.call ref .ofUnit Strings.quicStreamCloseWriteM
  | .readNonblock ref length => w.call ref .str (Strings.quicStreamReadNonblockM length)
  | .closeRead ref rv => w.call ref .ofUnit (Strings.quicStreamCloseReadM rv)
  | .close ref rv => w.call ref .ofUnit (Strings.quicStreamCloseM rv)
  | .reset ref errorCode rv => w.call ref .ofUnit (Strings.quicStreamResetM errorCode rv)
  | .writePkt buffer answer =>
    (Strings.quicClientWritePkt answer buffer w).map fun (r, w) => (r.map .ofPacket, w)
  | .readPkt packet opts callbacks rv =>
    (Strings.quicClientReadPkt packet opts callbacks rv w).map fun (r, w) => (r.map .ofUnit, w)
  | .acceptStreamNonblock =>
    match w.acceptQueue with
    | [] => some (.error (.mkText .waitReadable "no server-initiated stream available"), w)
    | ref :: queue => some (.ok (.stream ref), { w with acceptQueue := queue })
  | .bind sock => some (.ok .nil, { w with sock := some sock })
  | .callback cb => (Strings.runCallback w cb).map fun w => (.ok .nil, w)
  | .newString str encoding => some (.ok (.str w.heap.length), { w with heap := w.heap ++ [{ str, encoding }] })
  | .setString v str encoding =>
    some (.ok .nil, { w with heap := w.heap.modify v fun o => { o with str, encoding } })

end StringWorld

/-- The program gets the Strings a call returns. -/
def stringStep (w : StringWorld) (e : StringEvent) : Option (StringReply × StringWorld) :=
  if ∀ v ∈ StringWorld.names e, v ∈ w.owned then
    (w.perform e).map fun (r, w) => (r, { w with owned := w.owned ++ (r.toOption.map (·.strings)).getD [] })
  else none

/-! ## The same by value -/

namespace StringEvent

/-- The call, with what the Strings it names hold. -/
def event (w : StringWorld) : StringEvent → Option Event
  | .openBidiStream answer => some (.openBidiStream answer)
  | .openUniStream answer => some (.openUniStream answer)
  | .write ref data fin streamLeft connLeft => some (.write ref (w.heap.str data) fin streamLeft connLeft)
  | .writeNonblock ref data fin streamLeft connLeft =>
    some (.writeNonblock ref (w.heap.str data) fin streamLeft connLeft)
  | .closeWrite ref => some (.closeWrite ref)
  | .readNonblock ref length => some (.readNonblock ref length)
  | .closeRead ref rv => some (.closeRead ref rv)
  | .close ref rv => some (.close ref rv)
  | .reset ref errorCode rv => some (.reset ref errorCode rv)
  | .writePkt buffer answer => some (.writePkt (buffer.map w.heap.encoding) answer)
  | .acceptStreamNonblock => some .acceptStreamNonblock
  | .bind sock => some (.bind sock)
  | .callback cb => some (.callback cb)
  | .readPkt .. | .newString .. | .setString .. => none

/-- The callbacks made within `read_pkt`, if it comes to that. -/
def callbacks (w : StringWorld) : StringEvent → List Callback
  | .readPkt packet opts callbacks _ =>
    match Strings.readPktArgs w.heap packet opts with
    | .ok () => if w.heap.locked packet then [] else callbacks
    | .error _ => []
  | _ => []

/-- The Strings of the program that an event writes to. -/
def writes (w : StringWorld) : StringEvent → List Nat
  | .writePkt (some v) _ => if w.heap.encoding v = .binary then [v] else []
  | .setString v _ _ => [v]
  | _ => []

end StringEvent

/-- What the client does, Strings by what they hold. -/
def valueTrace (w : StringWorld) (e : StringEvent) : ClientTrace :=
  match stringStep w e with
  | none => []
  | some (r, w') =>
    (e.callbacks w).map (fun cb => (.callback cb, .ok .nil)) ++
      (e.event w).toList.map fun e' => (e', r.map (·.value w'.heap))

end QuicRuby
