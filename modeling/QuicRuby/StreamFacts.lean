/-
What the stream methods do, one fact each: when data is accepted and what
the object is then, and which fields a method leaves alone.
-/
import QuicRuby.Client

namespace QuicRuby

/-- Open for sending: neither reset nor closed, and no FIN queued. -/
def QuicStream.sendOpen (s : QuicStream) : Bool := !(s.reset || s.closed) && !s.finSent

theorem sendOpen_iff {s : QuicStream} :
    s.sendOpen = true ↔ s.reset = false ∧ s.closed = false ∧ s.finSent = false := by
  simp [QuicStream.sendOpen, and_assoc]

/-- The object with `data` queued, and FIN if asked. -/
def QuicStream.enqueued (s : QuicStream) (data : RString) (fin : Bool) : QuicStream :=
  { s with
    pendingChunks := if 0 < data.len then s.pendingChunks ++ [data.bytes] else s.pendingChunks
    finSent := s.finSent || fin }

theorem quicStreamEnqueue_open {s : QuicStream} (h : s.sendOpen = true) (data : RString) (fin : Bool) :
    quicStreamEnqueue s data fin = (.ok data.len, s.enqueued data fin) := by
  simp only [QuicStream.sendOpen, Bool.and_eq_true, Bool.not_eq_true'] at h
  obtain ⟨hrc, hf⟩ := h
  simp only [quicStreamEnqueue, hrc, hf, Bool.false_eq_true, if_false, QuicStream.enqueued]
  cases s
  subst hf
  by_cases hlen : 0 < data.len <;> cases fin <;> simp [hlen]

/-- The refusal is by the flags alone. -/
theorem quicStreamEnqueue_refused {s : QuicStream} (h : s.sendOpen = false) (data : RString) (fin : Bool) :
    quicStreamEnqueue s data fin =
      (.error (.mkText .streamClosed
        (if s.reset || s.closed then "stream is closed" else "stream FIN already sent")), s) := by
  simp only [quicStreamEnqueue]
  split
  · rfl
  · next hrc =>
    have hfin : s.finSent = true := by simpa [QuicStream.sendOpen, hrc] using h
    rw [if_pos hfin]

theorem quicStreamEnqueue_shut {s : QuicStream} (h : s.sendOpen = false) (data : RString) (fin : Bool) :
    ∃ text, quicStreamEnqueue s data fin = (.error (.mkText .streamClosed text), s) :=
  ⟨_, quicStreamEnqueue_refused h data fin⟩

/-- A turn of `write` that does not pump enqueues all of `data`. -/
theorem quicStreamWriteM_eq {s : QuicStream} {data fin streamLeft connLeft r}
    (h : quicStreamWriteM s data fin streamLeft connLeft = some r) : r = quicStreamEnqueue s data fin := by
  simp only [quicStreamWriteM] at h
  split at h
  · simpa using h.symm
  · split at h
    · cases h
    · simpa using h.symm

theorem windowLeft_toNat (streamWindow connWindow : UInt64) :
    (quicStreamWindowLeft streamWindow connWindow).toNat = min streamWindow.toNat connWindow.toNat := by
  unfold quicStreamWindowLeft
  split
  · next hlt =>
    rw [UInt64.lt_iff_toNat_lt] at hlt
    omega
  · next hge =>
    rw [UInt64.lt_iff_toNat_lt] at hge
    omega

/-- How much `write_nonblock` takes. -/
def nonblockTake (s : QuicStream) (data : RString) (streamLeft connLeft : UInt64) : Nat :=
  if s.hasClient then min data.len (quicStreamWindowLeft streamLeft connLeft).toNat else data.len

theorem RString.toUInt64_len (data : RString) : (UInt64.ofNat data.len).toNat = data.len := by
  have := data.len_lt
  simp only [RString.len, UInt64.toNat_ofNat']
  omega

/-- `write_nonblock` finds the window empty, or enqueues the part of `data`
the window holds, with the FIN only if that is all of it. -/
theorem quicStreamWriteNonblockM_eq (s : QuicStream) (data : RString) (fin : Bool)
    (streamLeft connLeft : UInt64) :
    (0 < data.len ∧ nonblockTake s data streamLeft connLeft = 0 ∧
      ∃ text, quicStreamWriteNonblockM s data fin streamLeft connLeft = (.error (.mkText .waitWritable text), s)) ∨
    (0 < data.len → 0 < nonblockTake s data streamLeft connLeft) ∧ ∃ slice : RString,
      slice.bytes = data.bytes.take (nonblockTake s data streamLeft connLeft) ∧
      slice.len = nonblockTake s data streamLeft connLeft ∧
      quicStreamWriteNonblockM s data fin streamLeft connLeft =
        quicStreamEnqueue s slice (fin && nonblockTake s data streamLeft connLeft = data.len) := by
  -- All of `data` is taken, whatever the reason.
  have whole : nonblockTake s data streamLeft connLeft = data.len →
      quicStreamWriteNonblockM s data fin streamLeft connLeft = quicStreamEnqueue s data fin →
      (0 < data.len → 0 < nonblockTake s data streamLeft connLeft) ∧ ∃ slice : RString,
        slice.bytes = data.bytes.take (nonblockTake s data streamLeft connLeft) ∧
        slice.len = nonblockTake s data streamLeft connLeft ∧
        quicStreamWriteNonblockM s data fin streamLeft connLeft =
          quicStreamEnqueue s slice (fin && nonblockTake s data streamLeft connLeft = data.len) := by
    intro hn hw
    refine ⟨fun h => by omega, data, ?_, hn.symm, by simp [hn, hw]⟩
    rw [hn]
    exact List.take_length.symm
  by_cases hc : s.hasClient = true
  case neg =>
    exact .inr (whole (by simp [nonblockTake, hc]) (by simp [quicStreamWriteNonblockM, hc]))
  have hn : nonblockTake s data streamLeft connLeft =
      min data.len (quicStreamWindowLeft streamLeft connLeft).toNat := by
    simp [nonblockTake, hc]
  by_cases h0 : data.len = 0
  · exact .inr (whole (by omega) (by simp [quicStreamWriteNonblockM, hc, h0]))
  by_cases hw : quicStreamWindowLeft streamLeft connLeft = 0
  · refine .inl ⟨by omega, ?_, "stream send window is full", ?_⟩
    · simp [hn, hw]
    · simp [quicStreamWriteNonblockM, hc, h0, hw]
  by_cases hle : UInt64.ofNat data.len ≤ quicStreamWindowLeft streamLeft connLeft
  · have hn1 : nonblockTake s data streamLeft connLeft = data.len := by
      rw [UInt64.le_iff_toNat_le, data.toUInt64_len] at hle
      omega
    exact .inr (whole hn1 (by simp [quicStreamWriteNonblockM, hc, h0, hw, hle]))
  · have hlt : (quicStreamWindowLeft streamLeft connLeft).toNat < data.len := by
      rw [UInt64.le_iff_toNat_le, data.toUInt64_len] at hle
      omega
    have hpos : (quicStreamWindowLeft streamLeft connLeft).toNat ≠ 0 := fun h => hw (UInt64.toNat_inj.1 h)
    have hn1 : nonblockTake s data streamLeft connLeft = (quicStreamWindowLeft streamLeft connLeft).toNat := by
      omega
    have hne : (quicStreamWindowLeft streamLeft connLeft).toNat ≠ data.len := by omega
    refine .inr ⟨fun _ => by omega, data.take (quicStreamWindowLeft streamLeft connLeft).toNat, ?_, ?_, ?_⟩
    · rw [hn1, RString.bytes_take]
    · rw [hn1]
      simp only [RString.len, RString.bytes_take, List.length_take] at hlt ⊢
      omega
    · simp [quicStreamWriteNonblockM, hc, h0, hw, hle, hn1, hne]

/-- `write_nonblock` raises and changes nothing, or the stream is open for
sending and takes a slice of `data`. -/
theorem quicStreamWriteNonblockM_cases (s : QuicStream) (data : RString) (fin : Bool)
    (streamLeft connLeft : UInt64) :
    ((s.sendOpen = true → nonblockTake s data streamLeft connLeft = 0) ∧
      ∃ e, quicStreamWriteNonblockM s data fin streamLeft connLeft = (.error e, s)) ∨
    s.sendOpen = true ∧ ∃ slice : RString, ∃ fin' : Bool,
      slice.bytes = data.bytes.take (nonblockTake s data streamLeft connLeft) ∧
      slice.len = nonblockTake s data streamLeft connLeft ∧
      quicStreamWriteNonblockM s data fin streamLeft connLeft = (.ok slice.len, s.enqueued slice fin') := by
  obtain ⟨-, h0, text, he⟩ | ⟨-, slice, hb, hl, he⟩ :=
    quicStreamWriteNonblockM_eq s data fin streamLeft connLeft
  · exact .inl ⟨fun _ => h0, _, he⟩
  · cases ho : s.sendOpen with
    | true => exact .inr ⟨rfl, slice, _, hb, hl, he.trans (quicStreamEnqueue_open ho _ _)⟩
    | false =>
      obtain ⟨text, ht⟩ := quicStreamEnqueue_shut ho slice
        (fin && nonblockTake s data streamLeft connLeft = data.len)
      exact .inl ⟨fun h => (by cases h), _, he.trans ht⟩

/-- `close_write` changes nothing, or queues FIN on a stream open for
sending. -/
theorem quicStreamCloseWriteM_cases (s : QuicStream) :
    (quicStreamCloseWriteM s).2 = s ∨ s.sendOpen = true ∧ (quicStreamCloseWriteM s).2 = s.enqueued .empty true := by
  simp only [quicStreamCloseWriteM]
  split
  · exact .inl rfl
  · cases ho : s.sendOpen with
    | true => exact .inr ⟨rfl, by rw [quicStreamEnqueue_open ho]⟩
    | false =>
      obtain ⟨text, ht⟩ := quicStreamEnqueue_shut ho .empty true
      exact .inl (by rw [ht])

@[simp] theorem quicStreamCloseReadM_stream (s : QuicStream) (rv : Option Ngtcp2Error) :
    (quicStreamCloseReadM s rv).2.1 = s := by
  simp only [quicStreamCloseReadM]
  split
  · rfl
  · split <;> rfl

/-- `close` leaves the object as its first leg does. -/
@[simp] theorem quicStreamCloseM_stream (s : QuicStream) (rv : Option Ngtcp2Error) :
    (quicStreamCloseM s rv).2.1 = (quicStreamCloseWriteM s).2 := by
  simp only [quicStreamCloseM]
  split
  · next h => rw [h]
  · next h => rw [h, quicStreamCloseReadM_stream]

theorem quicStreamCloseReadM_calls (s : QuicStream) (rv : Option Ngtcp2Error) :
    (quicStreamCloseReadM s rv).2.2 = [] ∨
      (quicStreamCloseReadM s rv).2.2 = [.shutdownStreamRead s.streamId 0 rv] := by
  simp only [quicStreamCloseReadM]
  split
  · exact .inl rfl
  · split <;> exact .inr rfl

theorem quicStreamCloseM_calls (s : QuicStream) (rv : Option Ngtcp2Error) :
    (quicStreamCloseM s rv).2.2 = [] ∨ ∃ id, (quicStreamCloseM s rv).2.2 = [.shutdownStreamRead id 0 rv] := by
  simp only [quicStreamCloseM]
  split
  · exact .inl rfl
  · next s' _ => exact (quicStreamCloseReadM_calls s' rv).imp id fun h => ⟨_, h⟩

theorem quicStreamResetM_calls (s : QuicStream) (errorCode : Option Int) (rv : Option Ngtcp2Error) :
    (quicStreamResetM s errorCode rv).2.2 = [] ∨
      ∃ code, (quicStreamResetM s errorCode rv).2.2 = [.shutdownStreamWrite s.streamId code rv] := by
  simp only [quicStreamResetM]
  split
  · exact .inl rfl
  · split
    · exact .inl rfl
    · split
      · exact .inl rfl
      · split <;> exact .inr ⟨_, rfl⟩

theorem quicStreamResetM_stream (s : QuicStream) (errorCode : Option Int) (rv : Option Ngtcp2Error) :
    (quicStreamResetM s errorCode rv).2.1 = s ∨
      (quicStreamResetM s errorCode rv).2.1 = { s with reset := true } := by
  simp only [quicStreamResetM]
  split
  · exact .inl rfl
  · split
    · exact .inl rfl
    · split
      · exact .inr rfl
      · split
        · exact .inl rfl
        · exact .inr rfl

/-- `reset` raises and changes nothing, or leaves the stream reset. -/
theorem quicStreamResetM_cases (s : QuicStream) (errorCode : Option Int) (rv : Option Ngtcp2Error) :
    (∃ e, (quicStreamResetM s errorCode rv).1 = .error e ∧ (quicStreamResetM s errorCode rv).2.1 = s) ∨
      (quicStreamResetM s errorCode rv).1 = .ok () ∧
        (quicStreamResetM s errorCode rv).2.1 = { s with reset := true } := by
  simp only [quicStreamResetM]
  split
  · exact .inl ⟨_, rfl, rfl⟩
  split
  · next hreset =>
    refine .inr ⟨rfl, ?_⟩
    cases s
    obtain rfl := hreset
    rfl
  split
  · exact .inr ⟨rfl, rfl⟩
  split
  · exact .inl ⟨_, rfl, rfl⟩
  · exact .inr ⟨rfl, rfl⟩

/-- `read_nonblock` with a length a `long` holds: it takes what the length
and the buffer allow, and with the buffer empty it says whether FIN came. -/
theorem quicStreamReadNonblockM_eq {length : Int} (s : QuicStream) (h0 : 0 ≤ length) (hlt : length < 2 ^ 63) :
    quicStreamReadNonblockM s length =
      if s.recvBuffer = [] then
        (.error (if s.finReceived then .mkText .eofError "end of file reached"
          else .mkText .waitReadable "no data available"), s)
      else (.ok (s.recvBuffer.take length.toNat), { s with recvBuffer := s.recvBuffer.drop length.toNat }) := by
  have hlong : num2long length = .ok length := by
    unfold num2long
    rw [if_pos ⟨by omega, hlt⟩]
  have hneg : ¬ length < 0 := by omega
  simp only [quicStreamReadNonblockM, hlong, hneg, if_false]
  by_cases hempty : s.recvBuffer = []
  · simp only [hempty, List.length_nil, if_true]
    split <;> rfl
  · have hlen : s.recvBuffer.length ≠ 0 := fun h => hempty (List.length_eq_zero_iff.1 h)
    simp only [hempty, hlen, if_false]
    split
    · rfl
    · next hge =>
      have hall : s.recvBuffer.length ≤ length.toNat := by omega
      rw [List.take_length, List.take_of_length_le hall, List.drop_length, List.drop_of_length_le hall]

/-- What `read_nonblock` takes comes off the buffer; a call that raises
leaves the object as it was. -/
theorem quicStreamReadNonblockM_cases (s : QuicStream) (length : Int) :
    (∃ e, quicStreamReadNonblockM s length = (.error e, s)) ∨
      ∃ bytes buffer, quicStreamReadNonblockM s length = (.ok bytes, { s with recvBuffer := buffer }) ∧
        bytes ++ buffer = s.recvBuffer := by
  by_cases hrange : 0 ≤ length ∧ length < 2 ^ 63
  · rw [quicStreamReadNonblockM_eq s hrange.1 hrange.2]
    split
    · exact .inl ⟨_, rfl⟩
    · exact .inr ⟨_, _, rfl, List.take_append_drop _ _⟩
  · refine .inl ?_
    unfold quicStreamReadNonblockM num2long
    by_cases hlong : -2 ^ 63 ≤ length ∧ length < 2 ^ 63
    · have hneg : length < 0 := by omega
      simp only [hlong, and_self, if_true, hneg]
      exact ⟨_, rfl⟩
    · simp only [hlong, if_false]
      exact ⟨_, rfl⟩

/-! ## The fields an update writes -/

theorem recvStreamData_eq (s : QuicStream) (fin : Bool) (id : Int) (data : List UInt8) :
    s.recvStreamData fin id data =
      { s with
        acceptQueued := s.acceptQueued || id % 2 = 1
        recvBuffer := s.recvBuffer ++ data
        finReceived := s.finReceived || fin } := by
  have hacc : (if s.toAccept id then { s with acceptQueued := true } else s) =
      { s with acceptQueued := s.acceptQueued || id % 2 = 1 } := by
    rcases s with ⟨_, _, _, _, _, _, _, _, _, _, _, _ | _, _, _, _⟩ <;> by_cases hid : id % 2 = 1 <;>
      simp [QuicStream.toAccept, hid]
  rw [QuicStream.recvStreamData, hacc]
  cases data <;> cases fin <;> simp

theorem streamClose_eq (s : QuicStream) (set : Bool) (code : UInt64) : ∃ hasCode code',
    s.streamClose set code =
      { s with closed := true, closeHasAppErrorCode := hasCode, closeAppErrorCode := code' } := by
  rw [QuicStream.streamClose]
  split <;> exact ⟨_, _, rfl⟩

/-- The accounting writes the cursor and the FIN flag it is for. -/
theorem accountWritev_eq (s : QuicStream) (args : WritevArgs) (n : Nat) (pdatalen : Int) : ∃ offset flushed,
    s.accountWritev args n pdatalen = { s with sentOffset := offset, finFlushed := flushed } := by
  rw [QuicStream.accountWritev]
  split
  · dsimp only
    split <;> exact ⟨_, _, rfl⟩
  · split <;> exact ⟨_, _, rfl⟩

/-! ## The sending half of an object -/

/-- `s'` has the same sending state: cursors, chunks and FIN flags. -/
structure SameSend (s s' : QuicStream) : Prop where
  streamId : s'.streamId = s.streamId
  sentOffset : s'.sentOffset = s.sentOffset
  ackedOffset : s'.ackedOffset = s.ackedOffset
  pendingShifted : s'.pendingShifted = s.pendingShifted
  pendingChunks : s'.pendingChunks = s.pendingChunks
  finSent : s'.finSent = s.finSent
  finFlushed : s'.finFlushed = s.finFlushed

theorem SameSend.refl (s : QuicStream) : SameSend s s := ⟨rfl, rfl, rfl, rfl, rfl, rfl, rfl⟩

theorem SameSend.sendOffer {s s' : QuicStream} (h : SameSend s s') : s'.sendOffer = s.sendOffer := by
  simp only [QuicStream.sendOffer, h.streamId, h.sentOffset, h.pendingShifted, h.pendingChunks, h.finSent,
    h.finFlushed]

theorem SameSend.recvStreamData (s : QuicStream) (fin : Bool) (id : Int) (data : List UInt8) :
    SameSend s (s.recvStreamData fin id data) := by
  rw [recvStreamData_eq]
  exact ⟨rfl, rfl, rfl, rfl, rfl, rfl, rfl⟩

theorem SameSend.streamClose (s : QuicStream) (set : Bool) (code : UInt64) :
    SameSend s (s.streamClose set code) := by
  obtain ⟨_, _, h⟩ := streamClose_eq s set code
  rw [h]
  exact ⟨rfl, rfl, rfl, rfl, rfl, rfl, rfl⟩

theorem SameSend.streamReset (s : QuicStream) (code : UInt64) : SameSend s (s.streamReset code) :=
  ⟨rfl, rfl, rfl, rfl, rfl, rfl, rfl⟩

theorem SameSend.resetM (s : QuicStream) (errorCode : Option Int) (rv : Option Ngtcp2Error) :
    SameSend s (quicStreamResetM s errorCode rv).2.1 := by
  rcases quicStreamResetM_stream s errorCode rv with h | h <;> rw [h] <;> exact ⟨rfl, rfl, rfl, rfl, rfl, rfl, rfl⟩

theorem SameSend.readNonblockM (s : QuicStream) (length : Int) :
    SameSend s (quicStreamReadNonblockM s length).2 := by
  obtain ⟨e, h⟩ | ⟨bytes, buffer, h, -⟩ := quicStreamReadNonblockM_cases s length <;> rw [h] <;>
    exact ⟨rfl, rfl, rfl, rfl, rfl, rfl, rfl⟩

/-! ## What a stream offers -/

theorem sendOffer_streamId {s : QuicStream} {args : WritevArgs} (h : s.sendOffer = some args) :
    args.streamId = s.streamId := by
  simp only [QuicStream.sendOffer] at h
  split at h
  · cases h
  · split at h
    · cases h; rfl
    · split at h
      · cases h; rfl
      · cases h

theorem walkPending_lt {cs : List (List UInt8)} {position : UInt64} {j i off : Nat} {chunk : List UInt8}
    (h : walkPending cs position j = some (i, chunk, off)) : off < chunk.length := by
  induction cs generalizing position j with
  | nil => cases h
  | cons c cs ih =>
    unfold walkPending at h
    dsimp only at h
    split at h
    · next hlt =>
      cases h
      rw [UInt64.lt_iff_toNat_lt, UInt64.toNat_ofNat'] at hlt
      exact Nat.lt_of_lt_of_le hlt (Nat.mod_le _ _)
    · exact ih h

theorem sendOffer_cases {s : QuicStream} {args : WritevArgs} (h : s.sendOffer = some args) :
    s.finFlushed = false ∧ (args.fin = true → s.finSent = true) ∧
      (args.datavcnt = 1 ∧ args.datav ≠ [] ∨ args.datavcnt = 0 ∧ args.datav = [] ∧ args.fin = true) := by
  unfold QuicStream.sendOffer at h
  split at h
  · cases h
  next hflushed =>
  refine ⟨by simpa using hflushed, ?_⟩
  dsimp only at h
  split at h
  · next i chunk off hwalk =>
    cases h
    refine ⟨fun hf => ?_, .inl ⟨rfl, ?_⟩⟩
    · simp only [Bool.and_eq_true] at hf
      exact hf.1
    · intro hnil
      have hoff := walkPending_lt hwalk
      have := List.drop_eq_nil_iff.1 hnil
      omega
  · split at h
    · next hfin =>
      cases h
      simp only [Bool.and_eq_true] at hfin
      exact ⟨fun _ => hfin.1, .inr ⟨rfl, rfl, rfl⟩⟩
    · cases h

/-- All queued bytes are sent and no FIN is queued, or FIN is flushed. -/
theorem sendOffer_eq_none_iff {s : QuicStream} : s.sendOffer = none ↔
    s.finFlushed = true ∨
      walkPending s.pendingChunks (s.sentOffset - s.pendingShifted) 0 = none ∧ s.finSent = false := by
  simp only [QuicStream.sendOffer]
  cases hf : s.finFlushed with
  | true => simp
  | false =>
    simp only [Bool.false_eq_true, if_false, false_or]
    split
    · next hwalk => simp [hwalk]
    · next hwalk => cases s.finSent <;> simp [hwalk]

/-! ## What never changes -/

theorem accountWritev_sendOpen (s : QuicStream) (args : WritevArgs) (n : Nat) (pdatalen : Int) :
    (s.accountWritev args n pdatalen).sendOpen = s.sendOpen := by
  obtain ⟨_, _, h⟩ := accountWritev_eq s args n pdatalen
  rw [h]
  rfl

@[simp] theorem accountWritev_streamId (s : QuicStream) (args : WritevArgs) (n : Nat) (pdatalen : Int) :
    (s.accountWritev args n pdatalen).streamId = s.streamId := by
  obtain ⟨_, _, h⟩ := accountWritev_eq s args n pdatalen
  rw [h]

end QuicRuby
