/-
What the Strings hold is all that counts. Each stream has its Strings, its
chunks and `@recv_buffer`, for itself: none is another stream's and none is
one the program has. So whatever the program writes to its Strings, the client
does what it does for the contents they had at each call, and a call changes
no String of the program's but the buffer given to `write_pkt`.
-/
import QuicRuby.Strings
import QuicRuby.Lib.Ownership
import QuicRuby.Session

namespace QuicRuby

open Runs Ownership

/-! ## The heap -/

namespace Heap

variable {h h' : Heap} {v w : Nat}

theorem str_congr (hv : h'[v]? = h[v]?) : h'.str v = h.str v := by rw [str, str, hv]

@[simp] theorem str_append_self (h : Heap) (o : StringObject) : Heap.str (h ++ [o]) h.length = o.str := by
  simp [str]

theorem str_put_self (hv : v < h.length) (s : RString) : (h.put v s).str v = s := by
  simp [str, put, List.getElem?_eq_getElem hv]

theorem getElem?_put_ne (hne : v ≠ w) (s : RString) : (h.put v s)[w]? = h[w]? := List.getElem?_modify_ne _ _ hne

theorem locked_modify {f : StringObject → StringObject} (hf : ∀ o, (f o).locked = o.locked) :
    Heap.locked (h.modify v f) w = h.locked w := by
  simp only [locked, List.getElem?_modify]
  by_cases hvw : v = w <;> cases h[w]? <;> simp [hvw, hf]

end Heap

/-- What a String of a stream is: binary, and not locked. -/
def StringObject.Private (o : StringObject) : Prop := o.encoding = .binary ∧ o.locked = false

theorem StringObject.binary_private (s : RString) : (StringObject.binary s).Private := ⟨rfl, rfl⟩

theorem All.locked {h : Heap} {mine : List Nat} (hall : All StringObject.Private h mine) {v : Nat} (hv : v ∈ mine) :
    h.locked v = false := by
  obtain ⟨a, ha, hP⟩ := hall v hv
  simp [Heap.locked, ha, hP.2]

/-! ## One stream -/

namespace StreamObject

variable {h h' : Heap} {o : StreamObject}

theorem value_congr (hsame : ∀ v ∈ o.strings, h'[v]? = h[v]?) : o.value h' = o.value h := by
  have hchunks : (o.pendingChunks.map fun v => (h'.str v).bytes) = o.pendingChunks.map fun v => (h.str v).bytes :=
    List.map_congr_left fun v hv => by rw [Heap.str_congr (hsame v (List.mem_cons_of_mem _ hv))]
  simp only [value, hchunks, Heap.str_congr (hsame o.recvBuffer List.mem_cons_self)]

theorem value_append (hall : All StringObject.Private h o.strings) (a : StringObject) :
    o.value (h ++ [a]) = o.value h := value_congr fun _ hv => List.getElem?_append_left (hall.lt hv)

end StreamObject

/-- `@recv_buffer` is no chunk. -/
theorem StreamObject.recvBuffer_ne {o : StreamObject} (hn : o.strings.Nodup) {v : Nat} (hv : v ∈ o.pendingChunks) :
    o.recvBuffer ≠ v := by
  rintro rfl
  exact (List.nodup_cons.1 hn).1 hv

theorem StreamObject.value_put {h : Heap} {o : StreamObject} (hn : o.strings.Nodup)
    (hall : All StringObject.Private h o.strings) (s : RString) :
    o.value (h.put o.recvBuffer s) = { o.value h with recvBuffer := s.bytes } := by
  have hchunks : (o.pendingChunks.map fun v => ((h.put o.recvBuffer s).str v).bytes) =
      o.pendingChunks.map fun v => (h.str v).bytes := by
    exact List.map_congr_left fun v hv => by
      rw [Heap.str_congr (Heap.getElem?_put_ne (StreamObject.recvBuffer_ne hn hv) s)]
  simp only [StreamObject.value, hchunks, Heap.str_put_self (hall.lt (v := o.recvBuffer) List.mem_cons_self)]

/-- What a method leaves, by value. -/
def byValue {α β : Type} (out : Heap → α → β) (m : Except RubyError α × Heap × StreamObject × List Ngtcp2Call) :
    Except RubyError β × QuicStream × List Ngtcp2Call :=
  (m.1.map (out m.2.1), m.2.2.1.value m.2.1, m.2.2.2)

/-- What a method does is an effect of the stream's, and by value it is what
`f` does. -/
def Method.Implements {α β : Type} (m : Method α) (out : Heap → α → β)
    (f : Heap → QuicStream → Except RubyError β × QuicStream × List Ngtcp2Call) : Prop :=
  ∀ (h : Heap) (o : StreamObject), o.strings.Nodup → All StringObject.Private h o.strings →
    Effect StringObject.Private h o.strings (m h o).2.1 (m h o).2.2.1.strings ∧ f h (o.value h) = byValue out (m h o)

/-- The length that was queued. -/
abbrev asInt : Heap → Nat → Nat := fun _ n => n

namespace Strings

theorem enqueue_refused {o : StreamObject} (ho : o.struct.sendOpen = false) (data : Nat) (fin : Bool) (h : Heap) :
    quicStreamEnqueue data fin h o =
      (.error (.mkText .streamClosed
        (if o.struct.reset || o.struct.closed then "stream is closed" else "stream FIN already sent")),
        h, o, []) := by
  simp only [quicStreamEnqueue]
  split
  · rfl
  · next hrc =>
    have hfin : o.struct.finSent = true := by simpa [QuicStream.sendOpen, hrc] using ho
    simp [hfin]

/-- What is queued is a String of the stream's own. -/
theorem enqueue_open {o : StreamObject} (ho : o.struct.sendOpen = true) (data : Nat) (fin : Bool) (h : Heap) :
    quicStreamEnqueue data fin h o =
      (.ok (h.str data).len, if 0 < (h.str data).len then h ++ [StringObject.binary (h.str data)] else h,
        { struct := { o.struct with finSent := fin }
          pendingChunks := if 0 < (h.str data).len then o.pendingChunks ++ [h.length] else o.pendingChunks
          recvBuffer := o.recvBuffer }, []) := by
  obtain ⟨hreset, hclosed, hfin⟩ := sendOpen_iff.1 ho
  obtain ⟨struct, chunks, buffer⟩ := o
  cases struct
  subst hreset hclosed hfin
  by_cases hlen : 0 < (h.str data).len <;> cases fin <;> simp [quicStreamEnqueue, hlen]

theorem enqueue_implements (data : Nat) (fin : Bool) :
    (quicStreamEnqueue data fin).Implements asInt
      fun h s => quiet (QuicRuby.quicStreamEnqueue s (h.str data) fin) := by
  intro h o hn hall
  have hopen : (o.value h).sendOpen = o.struct.sendOpen := rfl
  cases ho : o.struct.sendOpen with
  | false =>
    rw [enqueue_refused ho]
    exact ⟨.refl hn hall, by simp only [quiet, quicStreamEnqueue_refused (hopen.trans ho)]; rfl⟩
  | true =>
    have hfin : o.struct.finSent = false := (sendOpen_iff.1 ho).2.2
    rw [enqueue_open ho]
    simp only [quiet, quicStreamEnqueue_open (hopen.trans ho)]
    by_cases hlen : 0 < (h.str data).len
    · simp only [hlen, if_true]
      refine ⟨.take hn hall (StringObject.binary_private _), ?_⟩
      have hsame := StreamObject.value_append hall (StringObject.binary (h.str data))
      have hchunks := congrArg QuicStream.pendingChunks hsame
      have hbuffer := congrArg QuicStream.recvBuffer hsame
      dsimp only [StreamObject.value] at hchunks hbuffer
      simp only [byValue, StreamObject.value, QuicStream.enqueued, hlen, if_true, List.map_append,
        List.map_singleton, Heap.str_append_self, hchunks, hbuffer, hfin, Bool.false_or]
      rfl
    · simp only [hlen, if_false]
      refine ⟨.refl hn hall, ?_⟩
      simp only [StreamObject.value, QuicStream.enqueued, hlen, if_false, hfin, Bool.false_or]
      rfl

theorem writeM_cases {data : Nat} {fin : Bool} {streamLeft connLeft : UInt64} {h : Heap} {o : StreamObject}
    {res : Except RubyError Nat × Heap × StreamObject × List Ngtcp2Call}
    (hw : quicStreamWriteM data fin streamLeft connLeft h o = some res) :
    res = quicStreamEnqueue data fin h o ∧
      QuicRuby.quicStreamWriteM (o.value h) (h.str data) fin streamLeft connLeft =
        some (QuicRuby.quicStreamEnqueue (o.value h) (h.str data) fin) := by
  have hclient : (o.value h).hasClient = o.struct.hasClient := rfl
  unfold quicStreamWriteM at hw
  unfold QuicRuby.quicStreamWriteM
  rw [hclient]
  split at hw
  · next hbare => cases hw; exact ⟨rfl, if_pos hbare⟩
  next hbare =>
  rw [if_neg hbare]
  dsimp only at hw ⊢
  split at hw
  · cases hw
  · next hroom => cases hw; exact ⟨rfl, if_neg hroom⟩

/-- Queueing a String that was made for it. -/
theorem enqueue_new {h : Heap} {o : StreamObject} (hn : o.strings.Nodup) (hall : All StringObject.Private h o.strings)
    (slice : RString) (fin : Bool) {m : Except RubyError Nat × Heap × StreamObject × List Ngtcp2Call}
    (hm : m = quicStreamEnqueue h.length fin (h ++ [StringObject.binary slice]) o) :
    Effect StringObject.Private h o.strings m.2.1 m.2.2.1.strings ∧
      quiet (QuicRuby.quicStreamEnqueue (o.value h) slice fin) = byValue asInt m := by
  subst hm
  obtain ⟨heff, hvalue⟩ := enqueue_implements h.length fin (h ++ [StringObject.binary slice]) o hn (hall.append _)
  simp only [Heap.str_append_self, StreamObject.value_append hall] at hvalue
  exact ⟨(Effect.alloc hn hall _).trans heff, hvalue⟩

theorem writeNonblock_implements (data : Nat) (fin : Bool) (streamLeft connLeft : UInt64) :
    (quicStreamWriteNonblockM data fin streamLeft connLeft).Implements asInt
      fun h s => quiet (QuicRuby.quicStreamWriteNonblockM s (h.str data) fin streamLeft connLeft) := by
  intro h o hn hall
  have hclient : (o.value h).hasClient = o.struct.hasClient := rfl
  dsimp only
  unfold quicStreamWriteNonblockM QuicRuby.quicStreamWriteNonblockM
  rw [hclient]
  by_cases hbare : (!o.struct.hasClient) = true
  · simp only [hbare, if_true]
    exact enqueue_implements data fin h o hn hall
  by_cases hzero : (h.str data).len = 0
  · simp only [hbare, hzero, if_true]
    exact enqueue_implements data fin h o hn hall
  by_cases hfull : quicStreamWindowLeft streamLeft connLeft = 0
  · simp only [hbare, hzero, hfull, if_true, if_false]
    exact ⟨.refl hn hall, rfl⟩
  simp only [hbare, hzero, hfull, if_false]
  generalize (if UInt64.ofNat (h.str data).len ≤ quicStreamWindowLeft streamLeft connLeft then (h.str data).len
    else (quicStreamWindowLeft streamLeft connLeft).toNat) = take
  by_cases hwhole : take = (h.str data).len
  · simp only [hwhole, if_true]
    exact enqueue_implements data fin h o hn hall
  · simp only [hwhole, if_false]
    exact enqueue_new hn hall ((h.str data).take take) false rfl

theorem closeWrite_implements :
    quicStreamCloseWriteM.Implements (fun _ _ => ()) fun _ s => quiet (QuicRuby.quicStreamCloseWriteM s) := by
  intro h o hn hall
  have hfin : (o.value h).finSent = o.struct.finSent := rfl
  dsimp only
  unfold quicStreamCloseWriteM QuicRuby.quicStreamCloseWriteM
  rw [hfin]
  by_cases hsent : o.struct.finSent = true
  · simp only [hsent, if_true]
    exact ⟨.refl hn hall, rfl⟩
  · simp only [hsent, if_false, Bool.false_eq_true]
    obtain ⟨heff, hvalue⟩ := enqueue_new hn hall .empty true rfl
    refine ⟨heff, ?_⟩
    obtain ⟨hr, hrest⟩ := Prod.mk.inj hvalue
    obtain ⟨hs, hcalls⟩ := Prod.mk.inj hrest
    simp only [quiet, byValue, hr, hs, hcalls]
    rcases (quicStreamEnqueue h.length true (h ++ [StringObject.binary .empty]) o).1 with e | n <;> rfl

/-- The part read is a String of the program's; the rest is put in the buffer
in place. -/
theorem read_implements {h : Heap} {o : StreamObject} (hn : o.strings.Nodup)
    (hall : All StringObject.Private h o.strings) (take : Nat) :
    let h' := (h ++ [StringObject.binary ((h.str o.recvBuffer).take take)]).put o.recvBuffer
      ((h.str o.recvBuffer).drop take)
    Effect StringObject.Private h o.strings h' o.strings ∧
      quiet (.ok ((h.str o.recvBuffer).bytes.take take),
        { o.value h with recvBuffer := (h.str o.recvBuffer).bytes.drop take }) =
      byValue (fun h v => (h.str v).bytes) (.ok h.length, h', o, []) := by
  have hall' := hall.append (StringObject.binary ((h.str o.recvBuffer).take take))
  refine ⟨(Effect.alloc hn hall _).trans (.write hn hall' List.mem_cons_self fun a ha => ha), ?_⟩
  have hne : o.recvBuffer ≠ h.length := Nat.ne_of_lt (hall.lt (v := o.recvBuffer) List.mem_cons_self)
  simp only [quiet, byValue, Except.map, StreamObject.value_put hn hall', StreamObject.value_append hall,
    Heap.str_congr (Heap.getElem?_put_ne hne _), Heap.str_append_self]
  rfl

theorem readNonblock_implements (length : Int) :
    (quicStreamReadNonblockM length).Implements (fun h v => (h.str v).bytes)
      fun _ s => quiet (QuicRuby.quicStreamReadNonblockM s length) := by
  intro h o hn hall
  have hbuffer : (o.value h).recvBuffer = (h.str o.recvBuffer).bytes := rfl
  have hfin : (o.value h).finReceived = o.struct.finReceived := rfl
  dsimp only
  unfold quicStreamReadNonblockM QuicRuby.quicStreamReadNonblockM
  cases num2long length with
  | error e => exact ⟨.refl hn hall, rfl⟩
  | ok n =>
    dsimp only
    rw [hbuffer, hfin]
    by_cases hneg : n < 0
    · simp only [hneg, if_true]
      exact ⟨.refl hn hall, rfl⟩
    by_cases hempty : (h.str o.recvBuffer).bytes.length = 0
    · simp only [hneg, RString.len, hempty, if_true, if_false]
      cases o.struct.finReceived <;> exact ⟨.refl hn hall, rfl⟩
    simp only [hneg, RString.len, hempty, if_false]
    exact read_implements hn hall _

/-- A method that looks at the struct alone does not see the Strings. -/
theorem onStruct_implements {α : Type} {f : QuicStream → Except RubyError α × QuicStream × List Ngtcp2Call}
    (hf : ∀ s chunks buffer, f { s with pendingChunks := chunks, recvBuffer := buffer } =
      ((f s).1, { (f s).2.1 with pendingChunks := chunks, recvBuffer := buffer }, (f s).2.2)) :
    (onStruct f).Implements (fun _ a => a) fun _ s => f s := by
  intro h o hn hall
  refine ⟨.refl hn hall, ?_⟩
  have hvalue := hf o.struct (o.pendingChunks.map fun v => (h.str v).bytes) (h.str o.recvBuffer).bytes
  simp only [StreamObject.value, byValue, onStruct, hvalue]
  rcases (f o.struct).1 with e | a <;> rfl

theorem closeRead_implements (rv : Option Ngtcp2Error) :
    (quicStreamCloseReadM rv).Implements (fun _ _ => ()) fun _ s => QuicRuby.quicStreamCloseReadM s rv := by
  refine onStruct_implements fun s chunks buffer => ?_
  unfold QuicRuby.quicStreamCloseReadM
  dsimp only
  split
  · rfl
  · cases rv <;> rfl

theorem reset_implements (errorCode : Option Int) (rv : Option Ngtcp2Error) :
    (quicStreamResetM errorCode rv).Implements (fun _ _ => ())
      fun _ s => QuicRuby.quicStreamResetM s errorCode rv := by
  refine onStruct_implements fun s chunks buffer => ?_
  unfold QuicRuby.quicStreamResetM
  cases resetErrorCode errorCode with
  | error e => rfl
  | ok code =>
    dsimp only
    split
    · rfl
    split
    · rfl
    cases rv <;> rfl

theorem close_implements (rv : Option Ngtcp2Error) :
    (quicStreamCloseM rv).Implements (fun _ _ => ()) fun _ s => QuicRuby.quicStreamCloseM s rv := by
  intro h o hn hall
  obtain ⟨heff, hvalue⟩ := closeWrite_implements h o hn hall
  dsimp only
  unfold quicStreamCloseM QuicRuby.quicStreamCloseM
  rcases hm : quicStreamCloseWriteM h o with ⟨r, h', o', calls⟩
  rcases hv : QuicRuby.quicStreamCloseWriteM (o.value h) with ⟨r', s'⟩
  rw [hm] at heff hvalue
  simp only [hv, quiet, byValue, Prod.mk.injEq] at hvalue
  obtain ⟨rfl, rfl, rfl⟩ := hvalue
  rcases r with e | _
  · exact ⟨heff, rfl⟩
  · obtain ⟨heff', hvalue'⟩ := closeRead_implements rv h' o' heff.nodup heff.good
    exact ⟨heff.trans heff', hvalue'⟩

end Strings

/-! ## The client -/

namespace StringWorld

/-- Each stream has its Strings for itself, and the program has others. -/
def Sep (w : StringWorld) : Prop :=
  Separate StringObject.Private w.heap (w.objs.map StreamObject.strings) w.owned

/-- Still so, and the Strings of the program are what they were. -/
structure Kept (w w' : StringWorld) : Prop where
  sep : w'.Sep
  owned : w'.owned = w.owned
  frame : ∀ v ∈ w.owned, w'.heap[v]? = w.heap[v]?

section
variable {w w' w'' : StringWorld} {ref : Nat} {o o' : StreamObject} {h' : Heap}

theorem Kept.refl (hsep : w.Sep) : Kept w w := ⟨hsep, rfl, fun _ _ => rfl⟩

theorem Kept.trans (h₁ : Kept w w') (h₂ : Kept w' w'') : Kept w w'' where
  sep := h₂.sep
  owned := h₂.owned.trans h₁.owned
  frame v hv := by rw [h₂.frame v (h₁.owned ▸ hv), h₁.frame v hv]

theorem strings_get (hs : w.objs[ref]? = some o) : (w.objs.map StreamObject.strings)[ref]? = some o.strings := by
  rw [List.getElem?_map, hs]
  rfl

theorem value_objs (w : StringWorld) (ref : Nat) : w.value.objs[ref]? = w.objs[ref]?.map (·.value w.heap) :=
  List.getElem?_map ..

theorem value_get (hs : w.objs[ref]? = some o) : w.value.objs[ref]? = some (o.value w.heap) := by
  rw [value_objs, hs]
  rfl

theorem Sep.object (hsep : w.Sep) (hs : w.objs[ref]? = some o) :
    o.strings.Nodup ∧ All StringObject.Private w.heap o.strings := Separate.own hsep (strings_get hs)

theorem modify_eq_const {α : Type} {l : List α} {i : Nat} {a : α} (ha : l[i]? = some a) (f : α → α) :
    l.modify i f = l.modify i fun _ => f a := by
  apply List.ext_getElem?
  intro j
  simp only [List.getElem?_modify]
  by_cases hij : i = j
  · subst hij; simp [ha]
  · simp [hij]

theorem modify_const_self {α : Type} {l : List α} {i : Nat} {a : α} (ha : l[i]? = some a) :
    (l.modify i fun _ => a) = l := (modify_eq_const ha id).symm.trans (List.modify_id _ _)

theorem map_modify_const {α β : Type} (l : List α) (i : Nat) (a : α) (f : α → β) :
    (l.modify i fun _ => a).map f = (l.map f).set i (f a) := by
  apply List.ext_getElem?
  intro j
  rw [List.getElem?_map, List.getElem?_modify, List.getElem?_set, List.getElem?_map, List.length_map]
  by_cases hij : i = j
  · subst hij
    by_cases hlt : i < l.length <;> simp [hlt]
  · cases l[j]? <;> simp [hij]

/-- What one stream does to its Strings leaves the other streams and the
program alone. -/
theorem Sep.stream (hsep : w.Sep) (hs : w.objs[ref]? = some o)
    (heff : Effect StringObject.Private w.heap o.strings h' o'.strings) :
    Kept w ({ w with heap := h' }.modify ref fun _ => o') ∧
      ({ w with heap := h' }.modify ref fun _ => o').value = w.value.modify ref fun _ => o'.value h' := by
  obtain ⟨hsep', htheirs, hothers⟩ := Separate.effect hsep (strings_get hs) heff
  refine ⟨⟨?_, rfl, htheirs⟩, ?_⟩
  · rw [← map_modify_const] at hsep'
    exact hsep'
  · have hobjs : ((w.objs.modify ref fun _ => o').map (·.value h')) =
        (w.objs.map (·.value w.heap)).modify ref fun _ => o'.value h' := by
      apply List.ext_getElem?
      intro j
      simp only [List.getElem?_map, List.getElem?_modify]
      by_cases hij : ref = j
      · subst hij
        simp [hs]
      · cases hj : w.objs[j]? with
        | none => simp
        | some x =>
          have hx := hothers j x.strings (fun heq => hij heq.symm) (strings_get hj)
          simp [hij, StreamObject.value_congr hx]
    simp only [value, modify, Client.modify, hobjs]

/-- A function that keeps to the struct and may drop chunks. -/
theorem Sep.modify (hsep : w.Sep) (ref : Nat) {f : StreamObject → StreamObject} {g : QuicStream → QuicStream}
    (hsub : ∀ o, (f o).strings.Sublist o.strings) (hvalue : ∀ o, (f o).value w.heap = g (o.value w.heap)) :
    Kept w (w.modify ref f) ∧ (w.modify ref f).value = w.value.modify ref g := by
  cases hs : w.objs[ref]? with
  | none =>
    have hlen := List.getElem?_eq_none_iff.1 hs
    have hsame : w.modify ref f = w := by
      simp only [StringWorld.modify, List.modify_eq_self hlen]
    have hsame' : w.value.modify ref g = w.value := by
      have : w.value.objs.length ≤ ref := by simpa [value] using hlen
      simp only [Client.modify, List.modify_eq_self this]
    rw [hsame, hsame']
    exact ⟨.refl hsep, rfl⟩
  | some o =>
    obtain ⟨hn, hall⟩ := hsep.object hs
    obtain ⟨hkept, hval⟩ := hsep.stream hs (.drop hn hall (hsub o))
    have hw : w.modify ref f = { w with heap := w.heap }.modify ref fun _ => f o := by
      simp only [StringWorld.modify, modify_eq_const hs f]
    rw [hw]
    refine ⟨hkept, hval.trans ?_⟩
    simp only [Client.modify, modify_eq_const (value_get hs) g, hvalue]

/-- A method on a stream, by value. -/
theorem Sep.call (hsep : w.Sep) {α β : Type} {m : Method α} {out : Heap → α → β}
    {f : Heap → QuicStream → Except RubyError β × QuicStream × List Ngtcp2Call} (himpl : m.Implements out f)
    {p : α → StringValue} {q : β → RValue} (hout : ∀ h a, (p a).value h = q (out h a)) {r : StringReply}
    (h : w.call ref p m = some (r, w')) :
    Kept w w' ∧ w.value.call ref q (f w.heap) = some (r.map (·.value w'.heap), w'.value) := by
  obtain ⟨o, hs, heq⟩ := Option.map_eq_some_iff.1 h
  obtain ⟨hn, hall⟩ := hsep.object hs
  obtain ⟨heff, hvalue⟩ := himpl w.heap o hn hall
  rcases hm : m w.heap o with ⟨r', h', o', calls⟩
  simp only [hm] at heq heff hvalue
  cases heq
  obtain ⟨⟨hsep', -, hframe⟩, hval⟩ := hsep.stream hs heff
  refine ⟨⟨hsep', rfl, hframe⟩, ?_⟩
  have hget := value_get hs
  have hlog : (({ w with heap := h' }.modify ref fun _ => o').log calls).value =
      ({ w with heap := h' }.modify ref fun _ => o').value.log calls := rfl
  have hobj : (w.value.modify ref fun s => (f w.heap s).2.1) = w.value.modify ref fun _ => o'.value h' := by
    simp only [Client.modify, modify_eq_const hget, hvalue, byValue]
  simp only [Client.call, hget, Option.map_some, hlog, hval, hobj, hvalue, byValue]
  rcases r' with e | a
  · rfl
  · simp only [Except.map, hout]
    rfl

/-! ## The callbacks -/

theorem Sep.newStream (hsep : w.Sep) (id : Int) :
    Kept w (w.newStream id) ∧ (w.newStream id).value = w.value.newStream id := by
  have hpush := Separate.push hsep (StringObject.binary_private .empty)
  refine ⟨⟨?_, rfl, fun v hv => List.getElem?_append_left (hsep.there v hv)⟩, ?_⟩
  · simp only [Sep, StringWorld.newStream, List.map_append, List.map_singleton]
    exact hpush
  · have hold : w.objs.map (·.value (w.heap ++ [StringObject.binary .empty])) = w.objs.map (·.value w.heap) := by
      refine List.map_congr_left fun o ho => ?_
      obtain ⟨i, hi⟩ := List.mem_iff_getElem?.1 ho
      exact StreamObject.value_append (hsep.object hi).2 _
    have hnew : StreamObject.value (w.heap ++ [StringObject.binary .empty])
        { struct := quicStreamNew id, recvBuffer := w.heap.length } = quicStreamNew id := by
      simp only [StreamObject.value, Heap.str_append_self]
      rfl
    simp only [value, StringWorld.newStream, Client.newStream, List.map_append, List.map_singleton, hold, hnew,
      List.length_map]

theorem shiftAcked_value (h : Heap) (chunks : List Nat) (shifted ackedOffset : UInt64) :
    QuicRuby.shiftAcked (chunks.map fun v => (h.str v).bytes) shifted ackedOffset =
      ((Strings.shiftAcked h chunks shifted ackedOffset).1.map fun v => (h.str v).bytes,
        (Strings.shiftAcked h chunks shifted ackedOffset).2) := by
  induction chunks generalizing shifted with
  | nil => rfl
  | cons head tail ih =>
    simp only [List.map_cons, QuicRuby.shiftAcked, Strings.shiftAcked, RString.len]
    by_cases hle : shifted + UInt64.ofNat (h.str head).bytes.length ≤ ackedOffset
    · simp only [hle, if_true]
      exact ih _
    · simp only [hle, if_false]
      rfl

theorem shiftAcked_sublist (h : Heap) (chunks : List Nat) (shifted ackedOffset : UInt64) :
    (Strings.shiftAcked h chunks shifted ackedOffset).1.Sublist chunks := by
  induction chunks generalizing shifted with
  | nil => exact List.Sublist.slnil
  | cons head tail ih =>
    simp only [Strings.shiftAcked]
    split
    · exact (ih _).cons head
    · exact List.Sublist.refl _

theorem acked_value (h : Heap) (datalen : UInt64) (o : StreamObject) :
    (Strings.ackedStreamDataOffset h datalen o).value h = (o.value h).ackedStreamDataOffset datalen := by
  simp only [Strings.ackedStreamDataOffset, QuicStream.ackedStreamDataOffset, StreamObject.value, shiftAcked_value]

theorem bufCat_eq {h h' : Heap} {v : Nat} {data : List UInt8} (hcat : h.bufCat v data = some h') :
    ∃ s : RString, s.bytes = (h.str v).bytes ++ data ∧ h' = h.put v s := by
  unfold Heap.bufCat at hcat
  split at hcat
  · next hlen =>
    split at hcat <;> cases hcat
    exact ⟨⟨_, hlen⟩, rfl, rfl⟩
  · cases hcat

/-- `recv_stream_data` appends to the stream's own buffer. -/
theorem recv_effect {fin : Bool} {id : Int} {data : List UInt8} {h h' : Heap} {o o' : StreamObject}
    (hn : o.strings.Nodup) (hall : All StringObject.Private h o.strings)
    (hr : Strings.recvStreamData fin id data h o = some (h', o')) :
    Effect StringObject.Private h o.strings h' o'.strings ∧ o'.value h' = (o.value h).recvStreamData fin id data := by
  have hstruct : (let s := if o.struct.toAccept id then { o.struct with acceptQueued := true } else o.struct
      if fin then { s with finReceived := true } else s) =
      { o.struct with
        acceptQueued := o.struct.acceptQueued || id % 2 = 1
        recvBuffer := o.struct.recvBuffer ++ []
        finReceived := o.struct.finReceived || fin } := recvStreamData_eq o.struct fin id []
  rw [recvStreamData_eq]
  unfold Strings.recvStreamData at hr
  dsimp only at hr hstruct
  rw [hstruct] at hr
  by_cases hdata : 0 < data.length
  · simp only [hdata, if_true, Option.map_eq_some_iff, Prod.mk.injEq] at hr
    obtain ⟨h₁, hcat, rfl, rfl⟩ := hr
    obtain ⟨s, hs, rfl⟩ := bufCat_eq hcat
    refine ⟨.write hn hall List.mem_cons_self fun a ha => ha, ?_⟩
    have hput := StreamObject.value_put hn hall s
    have hchunks := congrArg QuicStream.pendingChunks hput
    have hbuffer := congrArg QuicStream.recvBuffer hput
    dsimp only [StreamObject.value] at hchunks hbuffer
    simp only [StreamObject.value, hchunks, hbuffer, hs]
  · have hnil : data = [] := List.eq_nil_of_length_eq_zero (by omega)
    simp only [hdata, if_false, Option.map_some, Option.some.injEq, Prod.mk.injEq] at hr
    obtain ⟨rfl, rfl⟩ := hr
    refine ⟨.refl hn hall, ?_⟩
    simp only [StreamObject.value, hnil, List.append_nil]

theorem streamClose_value (h : Heap) (set : Bool) (code : UInt64) (o : StreamObject) :
    StreamObject.value h { o with struct := o.struct.streamClose set code } = (o.value h).streamClose set code := by
  cases set <;> rfl

theorem Sep.callback (hsep : w.Sep) {cb : Callback} (h : Strings.runCallback w cb = some w') :
    Kept w w' ∧ w'.value = QuicRuby.runCallback w.value cb := by
  have hstreams : w.value.streams = w.streams := rfl
  cases cb with
  | streamOpen id =>
    simp only [QuicRuby.runCallback, quicStreamOpenCb, quicClientLookupStream, hstreams]
    simp only [Strings.runCallback] at h
    cases hid : w.streams.aref id with
    | some ref => simp only [hid] at h; cases h; exact ⟨.refl hsep, rfl⟩
    | none => simp only [hid] at h; cases h; exact hsep.newStream id
  | recvStreamData fin id offset data =>
    simp only [QuicRuby.runCallback, quicRecvStreamDataCb, quicClientLookupStream, hstreams]
    simp only [Strings.runCallback] at h
    cases hid : w.streams.aref id with
    | none => simp only [hid] at h; cases h; exact ⟨.refl hsep, rfl⟩
    | some ref =>
      simp only [hid] at h ⊢
      have hobj := value_objs w ref
      cases hs : w.objs[ref]? with
      | none =>
        simp only [hs] at h
        cases h
        have hmissing : (w.value.modify ref fun s => s.recvStreamData fin id data) = w.value :=
          Client.modify_id fun s hs' => by rw [hobj, hs] at hs'; cases hs'
        simp only [hobj, hs, Option.map_none, Option.getD_none, Bool.false_eq_true, if_false, hmissing]
        exact ⟨.refl hsep, trivial⟩
      | some o =>
        simp only [hs, Option.map_eq_some_iff] at h
        obtain ⟨⟨h', o'⟩, hr, rfl⟩ := h
        have hheap : (if o.struct.toAccept id then { w with acceptQueue := w.acceptQueue ++ [ref] } else w).heap =
            w.heap := by split <;> rfl
        rw [hheap] at hr
        obtain ⟨hn, hall⟩ := hsep.object hs
        obtain ⟨heff, hvalue⟩ := recv_effect hn hall hr
        obtain ⟨⟨hsep', -, hframe⟩, hval⟩ := hsep.stream hs heff
        have haccept : (o.value w.heap).toAccept id = o.struct.toAccept id := rfl
        have hrecv : ∀ c : Client, c.objs = w.value.objs →
            (c.modify ref fun s => s.recvStreamData fin id data) = c.modify ref fun _ => o'.value h' := by
          intro c hc
          have hget : c.objs[ref]? = some (o.value w.heap) := by rw [hc, hobj, hs]; rfl
          simp only [Client.modify, modify_eq_const hget, hvalue]
        simp only [hobj, hs, Option.map_some, Option.getD_some, haccept]
        cases o.struct.toAccept id with
        | true =>
          simp only [if_true]
          have hqueued := hrecv { w.value with acceptQueue := w.acceptQueue ++ [ref] } rfl
          refine ⟨⟨hsep', rfl, hframe⟩, Eq.trans ?_ hqueued.symm⟩
          exact congrArg (fun c : Client => { c with acceptQueue := w.acceptQueue ++ [ref] }) hval
        | false =>
          simp only [Bool.false_eq_true, if_false]
          exact ⟨⟨hsep', rfl, hframe⟩, hval.trans (hrecv w.value rfl).symm⟩
  | ackedStreamDataOffset id offset datalen =>
    simp only [QuicRuby.runCallback, quicAckedStreamDataOffsetCb, quicClientLookupStream, hstreams]
    simp only [Strings.runCallback] at h
    cases hid : w.streams.aref id with
    | none => simp only [hid] at h; cases h; exact ⟨.refl hsep, rfl⟩
    | some ref =>
      simp only [hid] at h ⊢
      cases h
      exact hsep.modify ref (fun o => (shiftAcked_sublist _ _ _ _).cons_cons _) (acked_value w.heap datalen)
  | streamClose set id code =>
    simp only [QuicRuby.runCallback, quicStreamCloseCb, hstreams]
    simp only [Strings.runCallback] at h
    cases hid : w.streams.aref id with
    | none => simp only [hid] at h; cases h; exact ⟨.refl hsep, rfl⟩
    | some ref =>
      simp only [hid] at h ⊢
      cases h
      obtain ⟨⟨hsep', -, hframe⟩, hvalue⟩ := hsep.modify ref
        (f := fun o => { o with struct := o.struct.streamClose set code }) (g := (·.streamClose set code))
        (fun o => List.Sublist.refl _) (streamClose_value w.heap set code)
      exact ⟨⟨hsep', rfl, hframe⟩, by rw [← hvalue]; rfl⟩
  | streamReset id finalSize code =>
    simp only [QuicRuby.runCallback, quicStreamResetCb, quicClientLookupStream, hstreams]
    simp only [Strings.runCallback] at h
    cases hid : w.streams.aref id with
    | none => simp only [hid] at h; cases h; exact ⟨.refl hsep, rfl⟩
    | some ref =>
      simp only [hid] at h ⊢
      cases h
      exact hsep.modify ref (f := fun o => { o with struct := o.struct.streamReset code })
        (fun o => List.Sublist.refl _) fun o => rfl

theorem Sep.callbacks (hsep : w.Sep) {cbs : List Callback} (h : cbs.foldlM Strings.runCallback w = some w') :
    Kept w w' ∧ w'.value = cbs.foldl QuicRuby.runCallback w.value := by
  induction cbs generalizing w with
  | nil => cases h; exact ⟨.refl hsep, rfl⟩
  | cons cb cbs ih =>
    rw [List.foldlM_cons] at h
    obtain ⟨w₁, hcb, hrest⟩ := Option.bind_eq_some_iff.1 h
    obtain ⟨hkept, hvalue⟩ := hsep.callback hcb
    obtain ⟨hkept', hvalue'⟩ := ih hkept.sep hrest
    exact ⟨hkept.trans hkept', by rw [List.foldl_cons, hvalue', hvalue]⟩

/-! ## Strings that are no stream's -/

/-- The Strings of the streams. -/
def internal (w : StringWorld) : List Nat := (w.objs.map StreamObject.strings).flatten

theorem mem_internal (hs : w.objs[ref]? = some o) {v : Nat} (hv : v ∈ o.strings) : v ∈ w.internal :=
  Separate.mem (strings_get hs) hv

theorem value_eq (hsame : ∀ v ∈ w.internal, h'[v]? = w.heap[v]?) : { w with heap := h' }.value = w.value := by
  have hobjs : w.objs.map (·.value h') = w.objs.map (·.value w.heap) :=
    List.map_congr_left fun o ho => StreamObject.value_congr fun v hv =>
      hsame v (List.mem_flatten.2 ⟨o.strings, List.mem_map_of_mem ho, hv⟩)
  simp only [value, hobjs]

theorem Sep.write (hsep : w.Sep) {v : Nat} (hv : v ∉ w.internal) (f : StringObject → StringObject) :
    { w with heap := w.heap.modify v f }.Sep ∧ { w with heap := w.heap.modify v f }.value = w.value := by
  obtain ⟨hsep', hsame⟩ := Separate.write hsep hv f
  exact ⟨hsep', value_eq hsame⟩

theorem Sep.alloc (hsep : w.Sep) (a : StringObject) :
    Kept w { w with heap := w.heap ++ [a] } ∧ { w with heap := w.heap ++ [a] }.value = w.value :=
  ⟨⟨Separate.alloc hsep a, rfl, fun _ hv => List.getElem?_append_left (hsep.there _ hv)⟩,
    value_eq fun _ hv => List.getElem?_append_left (hsep.good.lt hv)⟩

/-- A String the program has is no stream's. -/
theorem Sep.outside (hsep : w.Sep) {v : Nat} (hv : v ∈ w.owned) : v ∉ w.internal := fun hm => hsep.apart v hm hv

/-! ## write_pkt and read_pkt -/

theorem walkPending_value (h : Heap) (chunks : List Nat) (position : UInt64) (j : Nat) :
    QuicRuby.walkPending (chunks.map fun v => (h.str v).bytes) position j =
      (Strings.walkPending h chunks position j).map fun found => (found.1, (h.str found.2.1).bytes, found.2.2) := by
  induction chunks generalizing position j with
  | nil => rfl
  | cons chunk tail ih =>
    simp only [List.map_cons, QuicRuby.walkPending, Strings.walkPending, RString.len]
    by_cases hlt : position < UInt64.ofNat (h.str chunk).bytes.length
    · simp only [hlt, if_true]
      rfl
    · simp only [hlt, if_false]
      exact ih _ _

theorem sendOffer_value (h : Heap) (o : StreamObject) :
    (o.value h).sendOffer = (Strings.sendOffer h o).map (Strings.Pick.args h) := by
  unfold QuicStream.sendOffer Strings.sendOffer
  simp only [StreamObject.value, walkPending_value, List.length_map]
  split
  · rfl
  rcases Strings.walkPending h o.pendingChunks (o.struct.sentOffset - o.struct.pendingShifted) 0 with
    _ | ⟨idx, chunk, offset⟩
  · by_cases hfin : (o.struct.finSent && !o.struct.finFlushed) = true <;> simp only [Option.map_none, hfin] <;> rfl
  · rfl

theorem pick_value (w : StringWorld) :
    QuicRuby.quicClientPickSendStream w.value =
      (Strings.quicClientPickSendStream w).map fun p => (p.1, p.2.args w.heap) := by
  have hstreams : w.value.streams = w.streams := rfl
  have hoffer : ∀ ref : Nat, (w.value.objs[ref]?.bind (·.sendOffer)).map (ref, ·) =
      ((w.objs[ref]?.bind (Strings.sendOffer w.heap)).map (ref, ·)).map fun p => (p.1, p.2.args w.heap) := by
    intro ref
    rw [value_objs]
    cases w.objs[ref]? with
    | none => rfl
    | some o => simp [sendOffer_value]; rfl
  simp only [QuicRuby.quicClientPickSendStream, Strings.quicClientPickSendStream, hstreams, hoffer]
  exact (List.map_findSome? ..).symm

theorem writevArgs_value (w : StringWorld) : w.value.writevArgs = Strings.writevArgs w := by
  simp only [Client.writevArgs, Strings.writevArgs, pick_value, Option.map_map]
  rfl

theorem Sep.log (hsep : w.Sep) (calls : List Ngtcp2Call) :
    Kept w (w.log calls) ∧ (w.log calls).value = w.value.log calls := ⟨⟨hsep, rfl, fun _ _ => rfl⟩, rfl⟩

/-- The packet of an answer, if there is one. -/
def packetOf (answer : WritevAnswer) : List UInt8 := answer.result.toOption.getD []

theorem setLen_unlocked {h : Heap} {v : Nat} (hv : h.locked v = false) (s : RString) :
    h.setLen v s = .ok (h.put v s) := by
  simp only [Heap.setLen, Heap.modifiable, hv, Bool.false_eq_true, if_false]
  rfl

/-- The buffer is a new String, or the one given if that is binary. -/
theorem writeBuffer_cases {buffer : Option Nat} {h : Heap} (hun : ∀ v ∈ buffer, h.locked v = false) :
    (∃ v, buffer = some v ∧ h.encoding v = .other ∧ Strings.writeBuffer h buffer =
        .error (.mkText .argumentError "buffer must be ASCII-8BIT (binary) encoding")) ∨
      (buffer = none ∧ Strings.writeBuffer h buffer = .ok (h.length, h ++ [StringObject.binary .empty])) ∨
      ∃ v, buffer = some v ∧ h.encoding v = .binary ∧ Strings.writeBuffer h buffer = .ok (v, h) := by
  cases buffer with
  | none => exact .inr (.inl ⟨rfl, rfl⟩)
  | some v =>
    cases henc : h.encoding v with
    | other => exact .inl ⟨v, rfl, henc, by simp only [Strings.writeBuffer, henc, if_true]⟩
    | binary =>
      refine .inr (.inr ⟨v, rfl, henc, ?_⟩)
      have hmod : h.modifiable v = .ok () := by
        simp only [Heap.modifiable, hun v rfl, Bool.false_eq_true, if_false]
      simp only [Strings.writeBuffer, henc, reduceCtorEq, if_false, hmod]
      split <;> rfl

/-- What `write_pkt` does, once it has a buffer. -/
structure Wrote (w : StringWorld) (v : Nat) (answer : WritevAnswer) (r : Except RubyError (Option Nat))
    (w' : StringWorld) : Prop where
  sep : w'.Sep
  owned : w'.owned = w.owned
  frame : ∀ u ≠ v, w'.heap[u]? = w.heap[u]?
  internal : v ∉ w'.internal
  buffer : ∃ a, w'.heap[v]? = some a ∧ a.locked = false ∧ a.encoding = w.heap.encoding v ∧
    a.str.bytes = packetOf answer
  reply : ∀ u, r = .ok (some u) → u = v
  value : ∀ enc, enc ≠ some .other → QuicRuby.quicClientWritePkt (fun _ => answer) enc w.value =
    (r.map fun u => u.map fun u => (w'.heap.str u).bytes, w'.value)

/-- The Strings of the streams are the same if the streams' are. -/
theorem internal_modify {f : StreamObject → StreamObject} (hf : ∀ o, (f o).strings = o.strings) :
    (w.modify ref f).internal = w.internal := by
  have hmap : (w.objs.modify ref f).map StreamObject.strings = w.objs.map StreamObject.strings := by
    apply List.ext_getElem?
    intro j
    simp only [List.getElem?_map, List.getElem?_modify]
    by_cases hij : ref = j <;> cases w.objs[j]? <;> simp [hij, hf]
  simp only [internal, StringWorld.modify, hmap]

theorem Sep.put (hsep : w.Sep) {v : Nat} (hv : v ∉ w.internal) {a : StringObject} (ha : w.heap[v]? = some a)
    (s : RString) :
    { w with heap := w.heap.put v s }.Sep ∧ { w with heap := w.heap.put v s }.value = w.value ∧
      (w.heap.put v s)[v]? = some { a with str := s } := by
  obtain ⟨hsep', hvalue⟩ := hsep.write hv fun o => { o with str := s }
  exact ⟨hsep', hvalue, by simp [Heap.put, ha]⟩

theorem account_value (h : Heap) (args : WritevArgs) (n : Nat) (pdatalen : Int) (o : StreamObject) :
    StreamObject.value h { o with struct := o.struct.accountWritev args n pdatalen } =
      (o.value h).accountWritev args n pdatalen := by
  simp only [StreamObject.value, QuicStream.accountWritev]
  split
  · split <;> rfl
  · split <;> rfl

/-- The accounting is done, and the packet is put in the buffer. -/
theorem Sep.packet {w₁ : StringWorld} (hsep : w₁.Sep) {v : Nat} (hv : v ∉ w₁.internal) {a : StringObject}
    (ha : w.heap[v]? = some a) (hun : a.locked = false) {answer : WritevAnswer} {packet : RString}
    (hres : answer.result = .ok packet.bytes) (howned : w₁.owned = w.owned) (hheap : w₁.heap = w.heap)
    (hvalue : ∀ enc, enc ≠ some .other → QuicRuby.quicClientWritePkt (fun _ => answer) enc w.value =
      (.ok (if packet.bytes.length = 0 then none else some packet.bytes), w₁.value)) :
    Wrote w v answer (.ok (if packet.bytes.length = 0 then none else some v))
      { w₁ with heap := w₁.heap.put v packet } := by
  obtain ⟨hsep', hval, hget⟩ := hsep.put hv (hheap ▸ ha) packet
  have henc : w.heap.encoding v = a.encoding := by simp [Heap.encoding, ha]
  refine ⟨hsep', howned, fun u hu => ?_, hv, ⟨_, hget, hun, henc.symm, ?_⟩, fun u hu => ?_, fun enc henc' => ?_⟩
  · rw [← hheap]
    exact Heap.getElem?_put_ne hu.symm _
  · simp only [packetOf, hres]; rfl
  · split at hu <;> cases hu
    rfl
  · rw [hvalue enc henc', hval]
    split
    · rfl
    · have hstr : (w₁.heap.put v packet).str v = packet := by simp [Heap.str, hget]
      simp only [Except.map, Option.map_some, hstr]

theorem Sep.wrote (hsep : w.Sep) {v : Nat} (hv : v ∉ w.internal) {a : StringObject} (ha : w.heap[v]? = some a)
    (hun : a.locked = false) {answer : WritevAnswer} {r : Except RubyError (Option Nat)}
    (h : Strings.writePktTo answer v w = some (r, w')) : Wrote w v answer r w' := by
  have hlocked : w.heap.locked v = false := by simp [Heap.locked, ha, hun]
  have henc : w.heap.encoding v = a.encoding := by simp [Heap.encoding, ha]
  unfold Strings.writePktTo at h
  cases hres : answer.result with
  | error rv =>
    simp only [hres, StringWorld.log, setLen_unlocked hlocked] at h
    cases h
    obtain ⟨hsep', hvalue, hget⟩ := hsep.put hv ha .empty
    refine ⟨hsep', rfl, fun u hu => Heap.getElem?_put_ne hu.symm _, hv, ⟨_, hget, hun, henc.symm, ?_⟩,
      fun u hu => (by cases hu), fun enc henc' => ?_⟩
    · simp only [packetOf, hres]; rfl
    · simp only [QuicRuby.quicClientWritePkt, if_neg henc', hres, writevArgs_value, Except.map, Prod.mk.injEq,
        true_and]
      exact (congrArg (·.log [.writevStream (Strings.writevArgs w) answer]) hvalue).symm
  | ok packet =>
    simp only [hres] at h
    by_cases hlen : packet.length ≤ Strings.writePktBuflen
    · simp only [hlen, dite_true] at h
      have hres' : answer.result = .ok (RString.mk packet (Nat.lt_of_le_of_lt hlen (by decide))).bytes := hres
      rcases hpick : Strings.quicClientPickSendStream w with _ | ⟨ref, p⟩
      · simp only [hpick, StringWorld.log, setLen_unlocked hlocked] at h
        cases h
        refine (hsep.log [.writevStream (Strings.writevArgs w) answer]).1.sep.packet hv ha hun hres' rfl rfl
          fun enc henc' => ?_
        simp only [QuicRuby.quicClientWritePkt, if_neg henc', hres, pick_value, hpick, Option.map_none,
          writevArgs_value]
        split <;> rfl
      · simp only [hpick, StringWorld.log, StringWorld.modify, setLen_unlocked hlocked] at h
        cases h
        obtain ⟨⟨hsep₁, howned, -⟩, hvalue₁⟩ :=
          (hsep.log [.writevStream (Strings.writevArgs w) answer]).1.sep.modify ref
            (f := fun o =>
              { o with struct := o.struct.accountWritev (Strings.writevArgs w) packet.length answer.pdatalen })
            (g := (·.accountWritev (Strings.writevArgs w) packet.length answer.pdatalen))
            (fun o => List.Sublist.refl _) (account_value w.heap _ _ _)
        refine hsep₁.packet (w := w) ?_ ha hun hres' rfl rfl fun enc henc' => ?_
        · rw [internal_modify]
          · exact hv
          · exact fun o => rfl
        · simp only [QuicRuby.quicClientWritePkt, if_neg henc', hres, pick_value, hpick, Option.map_some,
            writevArgs_value, hvalue₁]
          split <;> rfl
    · simp only [hlen, dite_false] at h
      cases h

/-! ## One call -/

/-- What a call leaves: the Strings apart, those of the program as they were
but for the one it writes to, and what it returns the program's to have. -/
structure Performed (w : StringWorld) (e : StringEvent) (r : StringReply) (w' : StringWorld) : Prop where
  sep : w'.Sep
  owned : w'.owned = w.owned
  unlocked : ∀ v ∈ w.owned, w'.heap.locked v = false
  frame : ∀ v ∈ w.owned, v ∉ e.writes w → w'.heap[v]? = w.heap[v]?
  buffer : ∀ v answer, e = .writePkt (some v) answer → v ∈ e.writes w → (w'.heap.str v).bytes = packetOf answer
  gives : ∀ a, r = .ok a → ∀ v ∈ a.strings, v ∉ w'.internal ∧ ∃ o, w'.heap[v]? = some o ∧ o.locked = false ∧
    ((e.event w).isSome = true → o.encoding = .binary)
  value : Does w.value ((e.callbacks w).map (fun cb => (.callback cb, .ok .nil)) ++
    (e.event w).toList.map fun e' => (e', r.map (·.value w'.heap))) w'.value

theorem Kept.unlocked (hkept : Kept w w') (hun : ∀ v ∈ w.owned, w.heap.locked v = false) {v : Nat}
    (hv : v ∈ w.owned) : w'.heap.locked v = false := by
  have := hun v hv
  simpa only [Heap.locked, hkept.frame v hv] using this

/-- A call that writes to no String of the program's and returns none. -/
theorem Performed.of_kept {e : StringEvent} {r : StringReply} (hkept : Kept w w')
    (hun : ∀ v ∈ w.owned, w.heap.locked v = false) (hw : e.writes w = []) (hr : ∀ a, r = .ok a → a.strings = [])
    (hvalue : Does w.value ((e.callbacks w).map (fun cb => (.callback cb, .ok .nil)) ++
      (e.event w).toList.map fun e' => (e', r.map (·.value w'.heap))) w'.value) : Performed w e r w' where
  sep := hkept.sep
  owned := hkept.owned
  unlocked _ hv := hkept.unlocked hun hv
  frame v hv _ := hkept.frame v hv
  buffer v answer _ hv := by rw [hw] at hv; cases hv
  gives a ha v hv := by rw [hr a ha] at hv; cases hv
  value := hvalue

/-- A String that `read_nonblock` returns is new. -/
theorem readNonblock_gives {length : Int} {h : Heap} {o : StreamObject} {v : Nat}
    (hall : All StringObject.Private h o.strings)
    (hr : (Strings.quicStreamReadNonblockM length h o).1 = .ok v) :
    v = h.length ∧ (Strings.quicStreamReadNonblockM length h o).2.2.1 = o ∧
      ∃ s, (Strings.quicStreamReadNonblockM length h o).2.1[v]? = some (StringObject.binary s) := by
  unfold Strings.quicStreamReadNonblockM at hr ⊢
  cases hn : num2long length with
  | error e => simp only [hn] at hr; cases hr
  | ok n =>
    simp only [hn] at hr ⊢
    split at hr
    · cases hr
    split at hr
    · split at hr <;> cases hr
    next hneg hempty =>
    cases hr
    simp only [hneg, hempty, if_false]
    exact ⟨trivial, trivial, _, (Heap.getElem?_put_ne
      (Nat.ne_of_lt (hall.lt (v := o.recvBuffer) List.mem_cons_self)) _).trans List.getElem?_concat_length⟩

/-- A method on a stream that returns no String. -/
theorem Performed.of_call (hsep : w.Sep) (hun : ∀ v ∈ w.owned, w.heap.locked v = false) {α β : Type} {m : Method α}
    {out : Heap → α → β} {f : Heap → QuicStream → Except RubyError β × QuicStream × List Ngtcp2Call}
    (himpl : m.Implements out f) {p : α → StringValue} {q : β → RValue}
    (hout : ∀ h a, (p a).value h = q (out h a)) (hno : ∀ a, (p a).strings = []) {e : StringEvent} {e' : Event}
    {r : StringReply} (h : w.call ref p m = some (r, w')) (hw : e.writes w = []) (hcbs : e.callbacks w = [])
    (he : e.event w = some e') (hstep : step w.value e' = w.value.call ref q (f w.heap)) : Performed w e r w' := by
  obtain ⟨hkept, hcall⟩ := hsep.call himpl hout h
  refine .of_kept hkept hun hw (fun a ha => ?_) ?_
  · obtain ⟨o, -, heq⟩ := Option.map_eq_some_iff.1 h
    have hr := (Prod.mk.inj heq).1
    rw [ha] at hr
    rcases hm : (m w.heap o).1 with e | a'
    · rw [hm] at hr; cases hr
    · rw [hm] at hr; cases hr; exact hno a'
  · rw [hcbs, he]
    exact .one (hstep.trans hcall)

/-- `write_pkt` with its buffer; `w₁` is the client with a new one. -/
theorem Performed.of_wrote {w₁ : StringWorld} {buffer : Option Nat} {v : Nat} {answer : WritevAnswer}
    {r : Except RubyError (Option Nat)} (hkept : Kept w w₁) (hvalue : w₁.value = w.value)
    (hun : ∀ u ∈ w.owned, w.heap.locked u = false) (hwrote : Wrote w₁ v answer r w')
    (henc : w₁.heap.encoding v = .binary) (hbuf : buffer.map w.heap.encoding ≠ some .other)
    (hwrites : ∀ u, u = v ∧ u ∈ w.owned → u ∈ (StringEvent.writePkt buffer answer).writes w)
    (hsame : ∀ u, buffer = some u → u = v) : Performed w (.writePkt buffer answer) (r.map .ofPacket) w' where
  sep := hwrote.sep
  owned := hwrote.owned.trans hkept.owned
  unlocked u hu := by
    by_cases hv : u = v
    · obtain ⟨a, ha, hlocked, -⟩ := hwrote.buffer
      simp [Heap.locked, hv, ha, hlocked]
    · have := hkept.unlocked hun hu
      simpa only [Heap.locked, hwrote.frame u hv] using this
  frame u hu hno := by
    have hv : u ≠ v := fun heq => hno (hwrites u ⟨heq, hu⟩)
    rw [hwrote.frame u hv, hkept.frame u hu]
  buffer u answer' he hu := by
    simp only [StringEvent.writePkt.injEq] at he
    obtain ⟨rfl, rfl⟩ := he
    obtain ⟨a, ha, -, -, hbytes⟩ := hwrote.buffer
    rw [hsame u rfl]
    simpa [Heap.str, ha] using hbytes
  gives a ha u hu := by
    obtain ⟨b, hb, hlocked, hbinary, -⟩ := hwrote.buffer
    have huv : u = v := by
      rcases r with e | _ | x
      · cases ha
      · cases ha; cases hu
      · cases ha
        rw [List.mem_singleton.1 hu]
        exact hwrote.reply x rfl
    rw [huv]
    exact ⟨hwrote.internal, b, hb, hlocked, fun _ => hbinary.trans henc⟩
  value := by
    refine .one ?_
    have hstep := hwrote.value _ hbuf
    rw [hvalue] at hstep
    simp only [step, hstep, Option.some.injEq, Prod.mk.injEq, and_true]
    rcases r with e | _ | x <;> rfl

theorem Performed.writePkt (hsep : w.Sep) (hun : ∀ v ∈ w.owned, w.heap.locked v = false) {buffer : Option Nat}
    (hbuf : ∀ v ∈ buffer, v ∈ w.owned) {answer : WritevAnswer} {r : Except RubyError (Option Nat)}
    (h : Strings.quicClientWritePkt answer buffer w = some (r, w')) :
    Performed w (.writePkt buffer answer) (r.map .ofPacket) w' := by
  have hevent : (StringEvent.writePkt buffer answer).event w =
      some (.writePkt (buffer.map w.heap.encoding) answer) := rfl
  unfold Strings.quicClientWritePkt at h
  rcases writeBuffer_cases (h := w.heap) fun v hv => hun v (hbuf v hv) with
    ⟨v, rfl, henc, hb⟩ | ⟨rfl, hb⟩ | ⟨v, rfl, henc, hb⟩
  · simp only [hb] at h
    cases h
    refine .of_kept (.refl hsep) hun (by simp [StringEvent.writes, henc]) (fun a ha => by cases ha) ?_
    rw [hevent, Option.map_some, henc]
    exact .one rfl
  · simp only [hb] at h
    obtain ⟨hkept, hvalue⟩ := hsep.alloc (StringObject.binary .empty)
    have hnew : w.heap.length ∉ w.internal := fun hm => Nat.lt_irrefl _ (hsep.good.lt hm)
    have hwrote := hkept.sep.wrote hnew List.getElem?_concat_length rfl h
    refine .of_wrote hkept hvalue hun hwrote (by simp [Heap.encoding, StringObject.binary]) (by simp) ?_
      fun u hu => (by cases hu)
    rintro u ⟨rfl, hu⟩
    exact absurd (hsep.there _ hu) (Nat.lt_irrefl _)
  · simp only [hb] at h
    have hget : ∃ a, w.heap[v]? = some a := ⟨_, List.getElem?_eq_getElem (hsep.there v (hbuf v rfl))⟩
    obtain ⟨a, ha⟩ := hget
    have hwrote := hsep.wrote (hsep.outside (hbuf v rfl)) ha (by simpa [Heap.locked, ha] using hun v (hbuf v rfl)) h
    refine .of_wrote (.refl hsep) rfl hun hwrote henc (by simp [henc]) ?_ fun u hu => (Option.some.inj hu).symm
    rintro u ⟨rfl, hu⟩
    simp [StringEvent.writes, henc]

/-- `read_pkt` raises before it does anything, or the callbacks run while the
packet is locked. -/
theorem readPkt_cases {packet : Nat} (hun : w.heap.locked packet = false) {opts : Option (Option Nat × Option Nat)}
    {callbacks : List Callback} {rv : Option Ngtcp2Error} {r : Except RubyError Unit}
    (h : Strings.quicClientReadPkt packet opts callbacks rv w = some (r, w')) :
    (∃ e, r = .error e ∧ w' = w ∧ (StringEvent.readPkt packet opts callbacks rv).callbacks w = []) ∨
      ∃ w₂, callbacks.foldlM Strings.runCallback
          { w with heap := w.heap.modify packet fun o => { o with locked := true } } = some w₂ ∧
        r = (rv.map fun e => Except.error (quicRaiseNgtcp2Error e)).getD (.ok ()) ∧
        w' = { w₂ with heap := w₂.heap.unlocktmp packet } ∧
        (StringEvent.readPkt packet opts callbacks rv).callbacks w = callbacks := by
  unfold Strings.quicClientReadPkt at h
  cases hargs : Strings.readPktArgs w.heap packet opts with
  | error e =>
    simp only [hargs] at h
    cases h
    exact .inl ⟨e, rfl, rfl, by simp only [StringEvent.callbacks, hargs]⟩
  | ok =>
    have hlock : w.heap.locktmp packet = .ok (w.heap.modify packet fun o => { o with locked := true }) := by
      simp only [Heap.locktmp, hun, Bool.false_eq_true, if_false]
    simp only [hargs, hlock] at h
    obtain ⟨w₂, hfold, heq⟩ := Option.map_eq_some_iff.1 h
    cases heq
    exact .inr ⟨w₂, hfold, rfl, rfl, by simp only [StringEvent.callbacks, hargs, hun, Bool.false_eq_true, if_false]⟩

theorem Performed.readPkt (hsep : w.Sep) (hun : ∀ v ∈ w.owned, w.heap.locked v = false) {packet : Nat}
    (hpacket : packet ∈ w.owned) {opts : Option (Option Nat × Option Nat)} {callbacks : List Callback}
    {rv : Option Ngtcp2Error} {r : Except RubyError Unit}
    (h : Strings.quicClientReadPkt packet opts callbacks rv w = some (r, w')) :
    Performed w (.readPkt packet opts callbacks rv) (r.map .ofUnit) w' := by
  rcases readPkt_cases (hun packet hpacket) h with ⟨e, rfl, rfl, hcbs⟩ | ⟨w₂, hfold, rfl, rfl, hcbs⟩
  · refine .of_kept (.refl hsep) hun rfl (fun a ha => by cases ha) ?_
    rw [hcbs]
    exact .nil _
  · -- Locked, the packet is still no stream's.
    obtain ⟨hsep₁, hvalue₁⟩ := hsep.write (hsep.outside hpacket) fun o => { o with locked := true }
    obtain ⟨hkept₂, hvalue₂⟩ := hsep₁.callbacks hfold
    have hpacket₂ : packet ∈ w₂.owned := by rw [hkept₂.owned]; exact hpacket
    obtain ⟨hsep₃, hvalue₃⟩ := hkept₂.sep.write (hkept₂.sep.outside hpacket₂) fun o => { o with locked := false }
    have hframe : ∀ v ∈ w.owned, (w₂.heap.unlocktmp packet)[v]? = w.heap[v]? := by
      intro v hv
      have hstart := hkept₂.frame v hv
      obtain ⟨a, ha⟩ : ∃ a, w.heap[v]? = some a := ⟨_, List.getElem?_eq_getElem (hsep.there v hv)⟩
      have haun : a.locked = false := by simpa [Heap.locked, ha] using hun v hv
      simp only [Heap.unlocktmp, List.getElem?_modify, hstart, ha]
      by_cases hpv : packet = v
      · obtain ⟨str, encoding, locked⟩ := a
        subst haun
        simp [hpv]
      · simp [hpv]
    refine .of_kept ⟨hsep₃, hkept₂.owned, hframe⟩ hun rfl ?_ ?_
    · intro a ha
      rcases rv with _ | e <;> cases ha
      rfl
    · rw [hcbs]
      have hdoes := callbacks_does callbacks w.value
      rw [← hvalue₁, ← hvalue₂, ← hvalue₃, hvalue₁] at hdoes
      exact hdoes.append (.nil _)

theorem Performed.opened (hsep : w.Sep) (hun : ∀ v ∈ w.owned, w.heap.locked v = false) {e : StringEvent} {e' : Event}
    {call : Ngtcp2Call} {answer : Except Ngtcp2Error Int} {r : StringReply}
    (h : w.openStream call answer = (r, w')) (hw : e.writes w = []) (hcbs : e.callbacks w = [])
    (he : e.event w = some e')
    (hstep : step w.value e' = some ((QuicRuby.openStream call answer w.value).1.map .stream,
      (QuicRuby.openStream call answer w.value).2)) : Performed w e r w' := by
  obtain ⟨hkept, hvalue⟩ := hsep.log [call]
  unfold StringWorld.openStream at h
  unfold QuicRuby.openStream at hstep
  cases answer with
  | error rv =>
    cases h
    refine .of_kept hkept hun hw (fun a ha => by cases ha) ?_
    rw [hcbs, he]
    exact .one (hstep.trans (by rw [← hvalue]; rfl))
  | ok id =>
    cases h
    obtain ⟨hkept', hvalue'⟩ := hkept.sep.newStream id
    refine .of_kept (hkept.trans hkept') hun hw (fun a ha => by cases ha; rfl) ?_
    rw [hcbs, he]
    refine .one (hstep.trans ?_)
    have hlen : (w.log [call]).value.objs.length = w.objs.length := List.length_map _
    rw [hvalue', ← hvalue]
    simp only [Except.map, hlen]
    rfl

/-- A `write` that returns is a call of `quic_stream_enqueue`. -/
theorem write_call {data : Nat} {fin : Bool} {streamLeft connLeft : UInt64} {r : StringReply}
    (h : w.perform (.write ref data fin streamLeft connLeft) = some (r, w')) :
    w.call ref .int (Strings.quicStreamEnqueue data fin) = some (r, w') ∧ ∃ o, w.objs[ref]? = some o ∧
      QuicRuby.quicStreamWriteM (o.value w.heap) (w.heap.str data) fin streamLeft connLeft =
        some (QuicRuby.quicStreamEnqueue (o.value w.heap) (w.heap.str data) fin) := by
  obtain ⟨o, hs, hmap⟩ := Option.bind_eq_some_iff.1 h
  obtain ⟨res, hwrite, heq⟩ := Option.map_eq_some_iff.1 hmap
  obtain ⟨rfl, hvalue⟩ := Strings.writeM_cases hwrite
  refine ⟨?_, o, hs, hvalue⟩
  rw [StringWorld.call, hs, ← heq]
  rfl

theorem Performed.write (hsep : w.Sep) (hun : ∀ v ∈ w.owned, w.heap.locked v = false) {data : Nat} {fin : Bool}
    {streamLeft connLeft : UInt64} {r : StringReply}
    (h : w.perform (.write ref data fin streamLeft connLeft) = some (r, w')) :
    Performed w (.write ref data fin streamLeft connLeft) r w' := by
  obtain ⟨hcall, o, hs, hvalue⟩ := write_call h
  refine .of_call hsep hun (Strings.enqueue_implements data fin) (q := .int) (fun _ _ => rfl) (fun _ => rfl) hcall
    rfl rfl rfl ?_
  have hget := value_get hs
  have hobj : (w.value.modify ref fun s => (QuicRuby.quicStreamEnqueue s (w.heap.str data) fin).2) =
      w.value.modify ref fun _ => (QuicRuby.quicStreamEnqueue (o.value w.heap) (w.heap.str data) fin).2 := by
    simp only [Client.modify, modify_eq_const hget]
  simp only [step, Client.call, hget, Option.bind_some, hvalue, Option.map_some, quiet, hobj, Client.log,
    List.append_nil]

theorem Performed.readNonblock (hsep : w.Sep) (hun : ∀ v ∈ w.owned, w.heap.locked v = false) {length : Int}
    {r : StringReply} (h : w.perform (.readNonblock ref length) = some (r, w')) :
    Performed w (.readNonblock ref length) r w' := by
  obtain ⟨hkept, hcall⟩ := hsep.call (Strings.readNonblock_implements length) (q := .str) (fun _ _ => rfl) h
  refine ⟨hkept.sep, hkept.owned, fun v hv => hkept.unlocked hun hv, fun v hv _ => hkept.frame v hv,
    fun v answer he => (by cases he), fun a ha v hv => ?_, .one hcall⟩
  obtain ⟨o, hs, heq⟩ := Option.map_eq_some_iff.1 h
  obtain ⟨-, hall⟩ := hsep.object hs
  rcases hm : Strings.quicStreamReadNonblockM length w.heap o with ⟨e | v', h', o', calls⟩
  · rw [hm] at heq; cases heq; cases ha
  · rw [hm] at heq
    cases heq
    cases ha
    obtain rfl := List.mem_singleton.1 hv
    obtain ⟨hv', hsame, s, hget⟩ := readNonblock_gives hall (by rw [hm])
    rw [hm] at hsame hget
    subst hv' hsame
    refine ⟨fun hin => Nat.lt_irrefl _ (hsep.good.lt (v := w.heap.length) ?_), _, hget, rfl, fun _ => rfl⟩
    have hobjs : (w.objs.modify ref fun _ => o') = w.objs := modify_const_self hs
    rw [← hobjs]
    exact hin

/-- **One call, by value.** -/
theorem Performed.of_perform (hsep : w.Sep) (hun : ∀ v ∈ w.owned, w.heap.locked v = false) {e : StringEvent}
    {r : StringReply} (hnames : ∀ v ∈ names e, v ∈ w.owned) (h : w.perform e = some (r, w')) :
    Performed w e r w' := by
  cases e with
  | openBidiStream answer => exact .opened hsep hun (Option.some.inj h) rfl rfl rfl rfl
  | openUniStream answer => exact .opened hsep hun (Option.some.inj h) rfl rfl rfl rfl
  | write => exact .write hsep hun h
  | writeNonblock ref data fin streamLeft connLeft =>
    exact .of_call hsep hun (Strings.writeNonblock_implements data fin streamLeft connLeft) (fun _ _ => rfl)
      (fun _ => rfl) h rfl rfl rfl rfl
  | closeWrite ref =>
    exact .of_call hsep hun Strings.closeWrite_implements (fun _ _ => rfl) (fun _ => rfl) h rfl rfl rfl rfl
  | readNonblock => exact .readNonblock hsep hun h
  | closeRead ref rv =>
    exact .of_call hsep hun (Strings.closeRead_implements rv) (fun _ _ => rfl) (fun _ => rfl) h rfl rfl rfl rfl
  | close ref rv =>
    exact .of_call hsep hun (Strings.close_implements rv) (fun _ _ => rfl) (fun _ => rfl) h rfl rfl rfl rfl
  | reset ref errorCode rv =>
    exact .of_call hsep hun (Strings.reset_implements errorCode rv) (fun _ _ => rfl) (fun _ => rfl) h rfl rfl rfl rfl
  | writePkt buffer answer =>
    obtain ⟨⟨r', w₁⟩, hwrite, heq⟩ := Option.map_eq_some_iff.1 h
    cases heq
    exact .writePkt hsep hun (fun v hv => hnames v (Option.mem_toList.2 hv)) hwrite
  | readPkt packet opts callbacks rv =>
    obtain ⟨⟨r', w₁⟩, hread, heq⟩ := Option.map_eq_some_iff.1 h
    cases heq
    exact .readPkt hsep hun (hnames packet List.mem_cons_self) hread
  | acceptStreamNonblock =>
    unfold StringWorld.perform at h
    cases hq : w.acceptQueue with
    | nil =>
      simp only [hq] at h
      cases h
      refine .of_kept (.refl hsep) hun rfl (fun a ha => by cases ha) (.one ?_)
      simp only [step, QuicRuby.acceptStreamNonblock, show w.value.acceptQueue = w.acceptQueue from rfl, hq]
      rfl
    | cons ref queue =>
      simp only [hq] at h
      cases h
      refine .of_kept ⟨hsep, rfl, fun _ _ => rfl⟩ hun rfl (fun a ha => by cases ha; rfl) (.one ?_)
      simp only [step, QuicRuby.acceptStreamNonblock, show w.value.acceptQueue = w.acceptQueue from rfl, hq]
      rfl
  | bind sock =>
    cases h
    exact .of_kept ⟨hsep, rfl, fun _ _ => rfl⟩ hun rfl (fun a ha => by cases ha; rfl) (.one rfl)
  | callback cb =>
    obtain ⟨w₁, hcb, heq⟩ := Option.map_eq_some_iff.1 h
    cases heq
    obtain ⟨hkept, hvalue⟩ := hsep.callback hcb
    exact .of_kept hkept hun rfl (fun a ha => by cases ha; rfl) (.one (by rw [hvalue]; rfl))
  | newString str encoding =>
    cases h
    obtain ⟨hkept, hvalue⟩ := hsep.alloc { str, encoding }
    refine ⟨hkept.sep, rfl, fun v hv => hkept.unlocked hun hv, fun v hv _ => hkept.frame v hv,
      fun v answer he => (by cases he), fun a ha v hv => ?_, by rw [hvalue]; exact .nil _⟩
    cases ha
    obtain rfl := List.mem_singleton.1 hv
    exact ⟨fun hm => Nat.lt_irrefl _ (hsep.good.lt (v := w.heap.length) hm), _, List.getElem?_concat_length, rfl,
      fun hno => by cases hno⟩
  | setString v str encoding =>
    cases h
    have hv : v ∈ w.owned := hnames v (List.mem_singleton.2 rfl)
    obtain ⟨hsep', hvalue⟩ := hsep.write (hsep.outside hv) fun o => { o with str, encoding }
    refine ⟨hsep', rfl, fun u hu => ?_, fun u hu hno => ?_, fun u answer he => (by cases he),
      fun a ha u hu => (by cases ha; cases hu), by rw [hvalue]; exact .nil _⟩
    · exact (Heap.locked_modify (f := fun o => { o with str, encoding }) fun o => rfl).trans (hun u hu)
    · exact List.getElem?_modify_ne _ _ fun heq => hno (by rw [heq]; exact List.mem_singleton.2 rfl)

/-- What holds between the calls: the streams' Strings are apart, and no String
of the program's is locked. -/
structure Fine (w : StringWorld) : Prop where
  sep : w.Sep
  unlocked : ∀ v ∈ w.owned, w.heap.locked v = false

theorem Fine.initial : Fine {} :=
  ⟨⟨List.nodup_nil, List.forall_mem_nil _, List.forall_mem_nil _, List.forall_mem_nil _⟩, List.forall_mem_nil _⟩

/-- What a step leaves in the Strings. -/
theorem Fine.perform (hfine : w.Fine) {e : StringEvent} {r : StringReply} (h : stringStep w e = some (r, w')) :
    ∃ w₁, w.perform e = some (r, w₁) ∧ Performed w e r w₁ ∧
      w' = { w₁ with owned := w₁.owned ++ (r.toOption.map (·.strings)).getD [] } := by
  unfold stringStep at h
  split at h
  · next hnames =>
    obtain ⟨⟨r₁, w₁⟩, hperform, heq⟩ := Option.map_eq_some_iff.1 h
    cases heq
    exact ⟨w₁, hperform, .of_perform hfine.sep hfine.unlocked hnames hperform, rfl⟩
  · cases h

theorem Fine.step (hfine : w.Fine) {e : StringEvent} {r : StringReply} (h : stringStep w e = some (r, w')) :
    w'.Fine ∧ Does w.value (valueTrace w e) w'.value := by
  obtain ⟨w₁, hperform, hdone, rfl⟩ := hfine.perform h
  have hgives : ∀ v ∈ (r.toOption.map (·.strings)).getD [], v ∉ w₁.internal ∧
      ∃ o, w₁.heap[v]? = some o ∧ o.locked = false := by
    intro v hv
    rcases r with e | a
    · cases hv
    · obtain ⟨hno, o, ho, hlocked, -⟩ := hdone.gives a rfl v hv
      exact ⟨hno, o, ho, hlocked⟩
  refine ⟨⟨Separate.give hdone.sep fun v hv => ?_, fun v hv => ?_⟩, ?_⟩
  · obtain ⟨hno, o, ho, -⟩ := hgives v hv
    exact ⟨(List.getElem?_eq_some_iff.1 ho).1, hno⟩
  · rcases List.mem_append.1 hv with hold | hnew
    · exact hdone.unlocked v (hdone.owned ▸ hold)
    · obtain ⟨-, o, ho, hlocked⟩ := hgives v hnew
      simp [Heap.locked, ho, hlocked]
  · have hvalue := hdone.value
    unfold valueTrace
    simp only [h]
    exact hvalue

end

end StringWorld

/-- The program writes to the String it has sent, and has `write_pkt` use it as
its buffer and `read_pkt` read it. -/
def reusedRun : Trace StringEvent StringReply × StringWorld :=
  run stringStep .any
    [.newString ⟨[31, 32, 33], by decide⟩ .binary, .openBidiStream (.ok 0), .write 0 0 false 100 100,
      .setString 0 ⟨[34, 35], by decide⟩ .binary, .writePkt (some 0) ⟨.ok [64, 31, 32, 33], 3⟩,
      .readPkt 0 (some (some 0, some 0)) [.recvStreamData false 0 0 [36, 37]] none, .readNonblock 0 1]
    [] {}

end QuicRuby
