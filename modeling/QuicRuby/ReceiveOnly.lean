/-
Streams only the server sends on. The direction is in the stream id, and no
method of the client looks at it: what keeps data out of the queue is that
ngtcp2 reports no credit for such a stream. FIN needs no credit, so
`close_write` and `close` queue one, and ngtcp2 refuses it whenever it is
offered.
-/
import QuicRuby.WriteLoop

namespace QuicRuby

open Runs Loops

/-- A unidirectional stream of the server's. -/
def receiveOnly (id : Int) : Bool := id % 4 = 3

/-- ngtcp2 has no send credit for a receive-only stream and refuses what is
offered for it. -/
def keepsReceiveOnly (c : Client) : Event → Bool
  | .write ref _ _ streamLeft _ | .writeNonblock ref _ _ streamLeft _ =>
    c.objs[ref]?.all fun s => !receiveOnly s.streamId || streamLeft = 0
  | .writePkt _ answer =>
    (quicClientPickSendStream c).all fun sel =>
      !receiveOnly sel.2.streamId || answer.result = .error .streamShutWr
  | _ => true

def ReceiveOnly : ClientContract := fun _ c e => keepsReceiveOnly c e = true

instance : ∀ tr c e, Decidable (ReceiveOnly tr c e) := fun _ c e =>
  inferInstanceAs (Decidable (keepsReceiveOnly c e = true))

/-- The call asks for FIN without a byte of data. -/
def Event.asksFin (ref : Nat) : Event → Bool
  | .closeWrite r | .close r _ => r = ref
  | .write r data fin _ _ | .writeNonblock r data fin _ _ => r = ref && fin && data.len = 0
  | _ => false

/-! ## One object -/

theorem windowLeft_zero (connLeft : UInt64) : (quicStreamWindowLeft 0 connLeft).toNat = 0 := by
  rw [windowLeft_toNat]
  exact Nat.zero_min _

/-- What the send side of a receive-only stream keeps: nothing queued but FIN,
which is not flushed. -/
structure NoData (s : QuicStream) : Prop where
  chunks : s.pendingChunks = []
  unflushed : s.finFlushed = false

theorem NoData.sameSend {s s' : QuicStream} (h : NoData s) (hsame : SameSend s s') : NoData s' :=
  ⟨hsame.pendingChunks.trans h.chunks, hsame.finFlushed.trans h.unflushed⟩

/-- Without credit `write` enqueues what has no data, and otherwise pumps. -/
theorem update_write_noCredit {s : QuicStream} (hc : s.hasClient = true) (ref : Nat) (data : RString) (fin : Bool)
    (connLeft : UInt64) : (Event.write ref data fin 0 connLeft).update s =
      if data.len = 0 then (quicStreamEnqueue s data fin).2 else s := by
  by_cases h0 : data.len = 0
  · simp [Event.update, quicStreamWriteM_turn hc, h0]
  · simp [Event.update, quicStreamWriteM_turn hc, windowLeft_zero, h0]

/-- Without credit `write_nonblock` enqueues what has no data, and otherwise
raises. -/
theorem update_writeNonblock_noCredit {s : QuicStream} (hc : s.hasClient = true) (ref : Nat) (data : RString)
    (fin : Bool) (connLeft : UInt64) : (Event.writeNonblock ref data fin 0 connLeft).update s =
      if data.len = 0 then (quicStreamEnqueue s data fin).2 else s := by
  by_cases h0 : data.len = 0
  · simp [Event.update, quicStreamWriteNonblockM, hc, h0]
  · have hfull : quicStreamWriteNonblockM s data fin 0 connLeft = _ :=
      quicStreamWriteNonblockM_full hc h0 fin (by simp [windowLeft_zero])
    rw [Event.update, hfull, if_neg h0]

/-- Enqueueing an empty String queues FIN, or nothing. -/
theorem NoData.enqueue {s : QuicStream} (h : NoData s) {data : RString} (h0 : data.len = 0) (fin : Bool) :
    NoData (quicStreamEnqueue s data fin).2 ∧
      ((quicStreamEnqueue s data fin).2.finSent = true → s.finSent = true ∨ fin = true) := by
  cases ho : s.sendOpen with
  | true =>
    rw [quicStreamEnqueue_open ho]
    exact ⟨⟨by simp [QuicStream.enqueued, h0, h.chunks], h.unflushed⟩,
      fun hfin => by simpa [QuicStream.enqueued] using hfin⟩
  | false =>
    obtain ⟨text, ht⟩ := quicStreamEnqueue_shut ho data fin
    rw [ht]
    exact ⟨h, .inl⟩

theorem NoData.noCredit {s : QuicStream} (h : NoData s) (data : RString) (fin : Bool) :
    NoData (if data.len = 0 then (quicStreamEnqueue s data fin).2 else s) ∧
      ((if data.len = 0 then (quicStreamEnqueue s data fin).2 else s).finSent = true →
        s.finSent = true ∨ fin = true ∧ data.len = 0) := by
  split
  · next h0 =>
    obtain ⟨hno, hfin⟩ := h.enqueue h0 fin
    exact ⟨hno, fun hf => (hfin hf).imp_right fun hfin => ⟨hfin, h0⟩⟩
  · exact ⟨h, .inl⟩

theorem NoData.closeWrite {s : QuicStream} (h : NoData s) : NoData (quicStreamCloseWriteM s).2 := by
  simp only [quicStreamCloseWriteM]
  split
  · exact h
  · exact (h.enqueue rfl true).1

/-- With no chunk queued there is FIN to offer, or nothing. -/
theorem NoData.sendOffer {s : QuicStream} (h : NoData s) :
    s.sendOffer =
      if s.finSent then some { streamId := s.streamId, fin := true, datav := [], datavcnt := 0 } else none := by
  simp [QuicStream.sendOffer, h.chunks, h.unflushed, walkPending]

/-- ngtcp2 refuses the offer of a receive-only stream. -/
theorem refused_of_keeps {c : Client} {buffer : Option Encoding} {answer : WritevAnswer} {ref : Nat}
    {args : WritevArgs} {s : QuicStream} (hk : keepsReceiveOnly c (.writePkt buffer answer) = true)
    (hpick : quicClientPickSendStream c = some (ref, args)) (hs : c.objs[ref]? = some s)
    (hid : receiveOnly s.streamId = true) : answer.result = .error .streamShutWr := by
  obtain ⟨-, s₁, hs₁, ho⟩ := pick_spec hpick
  obtain rfl := Option.some.inj (hs₁.symm.trans hs)
  simpa [keepsReceiveOnly, hpick, sendOffer_streamId ho, hid] using hk

/-- An event about a receive-only stream queues no data for it, and FIN only if
it asks for FIN. -/
theorem NoData.update {c : Client} {e : Event} {ref : Nat} {s : QuicStream} (h : NoData s)
    (hs : c.objs[ref]? = some s) (hc : s.hasClient = true) (hid : receiveOnly s.streamId = true)
    (hk : keepsReceiveOnly c e = true) (ht : e.target c = some ref) :
    NoData (e.update s) ∧ ((e.update s).finSent = true → s.finSent = true ∨ e.asksFin ref = true) := by
  have same : SameSend s (e.update s) →
      NoData (e.update s) ∧ ((e.update s).finSent = true → s.finSent = true ∨ e.asksFin ref = true) :=
    fun hsame => ⟨h.sameSend hsame, fun hfin => .inl (hsame.finSent ▸ hfin)⟩
  cases e with
  | write r data fin streamLeft connLeft =>
    cases ht
    have hzero : streamLeft = 0 := by simpa [keepsReceiveOnly, hs, hid] using hk
    subst hzero
    rw [update_write_noCredit hc]
    obtain ⟨hno, hfin⟩ := h.noCredit data fin
    exact ⟨hno, fun hf => (hfin hf).imp_right fun hask => by simp [Event.asksFin, hask]⟩
  | writeNonblock r data fin streamLeft connLeft =>
    cases ht
    have hzero : streamLeft = 0 := by simpa [keepsReceiveOnly, hs, hid] using hk
    subst hzero
    rw [update_writeNonblock_noCredit hc]
    obtain ⟨hno, hfin⟩ := h.noCredit data fin
    exact ⟨hno, fun hf => (hfin hf).imp_right fun hask => by simp [Event.asksFin, hask]⟩
  | closeWrite r =>
    cases ht
    exact ⟨h.closeWrite, fun _ => .inr (by simp [Event.asksFin])⟩
  | close r rv =>
    cases ht
    rw [Event.update, quicStreamCloseM_stream]
    exact ⟨h.closeWrite, fun _ => .inr (by simp [Event.asksFin])⟩
  | readNonblock r length => exact same (.readNonblockM s length)
  | closeRead r rv =>
    refine same ?_
    rw [Event.update, quicStreamCloseReadM_stream]
    exact .refl s
  | reset r errorCode rv => exact same (.resetM s errorCode rv)
  | writePkt buffer answer =>
    -- ngtcp2 refuses the offer, and the object is left as it was.
    simp only [Event.target] at ht
    split at ht
    · cases ht
    obtain ⟨⟨r, args⟩, hpick, rfl⟩ := Option.map_eq_some_iff.1 ht
    refine same ?_
    rw [Event.update]
    simp only [refused_of_keeps hk hpick hs hid]
    exact .refl s
  | callback cb =>
    cases cb with
    | streamOpen => exact same (.refl s)
    | recvStreamData fin id offset data => exact same (.recvStreamData s fin id data)
    | ackedStreamDataOffset id offset datalen =>
      refine ⟨⟨?_, h.unflushed⟩, .inl⟩
      simp [Event.update, Callback.update, QuicStream.ackedStreamDataOffset, h.chunks, shiftAcked]
    | streamClose set id code => exact same (.streamClose s set code)
    | streamReset id size code => exact same (.streamReset s code)
  | openBidiStream | openUniStream | acceptStreamNonblock | bind | maxStreamData | maxData => cases ht

/-! ## Along a run -/

theorem Reach.noData {tr c} (h : Reach ReceiveOnly tr c) {ref : Nat} {s : QuicStream}
    (hs : c.objs[ref]? = some s) (hid : receiveOnly s.streamId = true) :
    NoData s ∧ (s.finSent = true → tr.any (fun x => x.1.asksFin ref) = true) := by
  refine Reach.each (I := fun tr _ ref s => receiveOnly s.streamId = true →
    NoData s ∧ (s.finSent = true → tr.any (fun x => x.1.asksFin ref) = true)) ?_ ?_ h hs hid
  · intro tr c e r c' id _ _ _ _ _
    exact ⟨⟨rfl, rfl⟩, fun hfin => (by cases hfin)⟩
  · intro tr c e r c' ref s hrun hk _ hget ih hid
    rw [target_streamId] at hid
    obtain ⟨hno, hasked⟩ := ih hid
    simp only [List.any_append, List.any_cons, List.any_nil, Bool.or_false, Bool.or_eq_true]
    split
    · next ht =>
      obtain ⟨hno', hfin⟩ := hno.update hget (hrun.hasClient hget) hid hk ht
      exact ⟨hno', fun hf => (hfin hf).imp_left hasked⟩
    · exact ⟨hno, fun hf => .inl (hasked hf)⟩

/-- A call that asks for FIN on a stream open for sending queues it. -/
theorem asksFin_queues {c : Client} {e : Event} {ref : Nat} {s : QuicStream} (hs : c.objs[ref]? = some s)
    (hc : s.hasClient = true) (ho : s.sendOpen = true) (hask : e.asksFin ref = true) {r : Reply} {c' : Client}
    (hst : step c e = some (r, c')) : ∃ s', c'.objs[ref]? = some s' ∧ s'.finSent = true := by
  have hget := (step_after hst).get hs
  have hnot := (sendOpen_iff.1 ho).2.2
  have hclose : (quicStreamCloseWriteM s).2.finSent = true := by
    simp [quicStreamCloseWriteM, hnot, quicStreamEnqueue_open ho, QuicStream.enqueued]
  cases e with
  | closeWrite r₁ =>
    have hr : r₁ = ref := by simpa [Event.asksFin] using hask
    exact ⟨_, hget, by simp [Event.target, hr, Event.update, hclose]⟩
  | close r₁ rv =>
    have hr : r₁ = ref := by simpa [Event.asksFin] using hask
    exact ⟨_, hget, by simp [Event.target, hr, Event.update, hclose]⟩
  | write r₁ data fin streamLeft connLeft =>
    have hr : (r₁ = ref ∧ fin = true) ∧ data.len = 0 := by simpa [Event.asksFin] using hask
    obtain ⟨⟨hr, hfin⟩, h0⟩ := hr
    refine ⟨_, hget, ?_⟩
    simp [Event.target, hr, Event.update, quicStreamWriteM_turn hc, h0, quicStreamEnqueue_open ho,
      QuicStream.enqueued, hfin]
  | writeNonblock r₁ data fin streamLeft connLeft =>
    have hr : (r₁ = ref ∧ fin = true) ∧ data.len = 0 := by simpa [Event.asksFin] using hask
    obtain ⟨⟨hr, hfin⟩, h0⟩ := hr
    refine ⟨_, hget, ?_⟩
    simp [Event.target, hr, Event.update, quicStreamWriteNonblockM, hc, h0, quicStreamEnqueue_open ho,
      QuicStream.enqueued, hfin]
  | _ => cases hask

/-- **Receive-only streams.** No data is ever queued for one, and FIN only by a
call that asks for FIN without data, which queues it if the stream is open for
sending. Without FIN the scheduler never picks the stream. With FIN it is
offered, and `write_pkt` raises StreamClosed when it picks it. A
`write_nonblock` of some bytes raises WaitWritable and changes nothing, and
the blocking `write` of some bytes never returns. -/
theorem receiveOnly_exact {tr c} (h : Reach ReceiveOnly tr c) {ref : Nat} {s : QuicStream}
    (hs : c.objs[ref]? = some s) (hid : s.streamId % 4 = 3) :
    s.pendingChunks = [] ∧
    (s.finSent = true → tr.any (fun x => x.1.asksFin ref) = true) ∧
    (s.sendOpen = true → ∀ e r c', e.asksFin ref = true → step c e = some (r, c') →
      ∃ s', c'.objs[ref]? = some s' ∧ s'.finSent = true) ∧
    (s.finSent = false → ∀ args, quicClientPickSendStream c ≠ some (ref, args)) ∧
    (s.finSent = true → s.sendOffer = some { streamId := s.streamId, fin := true, datav := [], datavcnt := 0 }) ∧
    (∀ args buffer answer r c', quicClientPickSendStream c = some (ref, args) → buffer ≠ some .other →
      ReceiveOnly tr c (.writePkt buffer answer) → step c (.writePkt buffer answer) = some (r, c') →
      (∃ e, r = .error e ∧ e.cls = .streamClosed) ∧ c'.objs = c.objs) ∧
    ∀ data : RString, 0 < data.len →
      (∀ fin connLeft, ∃ e, e.cls = .waitWritable ∧
        step c (.writeNonblock ref data fin 0 connLeft) = some (.error e, c)) ∧
      ∀ fin windows rounds r c', (∀ w ∈ windows, w.1 = 0) →
        streamWrite ref data fin windows rounds c = some (r, c') → ∃ e, r = .error e := by
  have hrecv : receiveOnly s.streamId = true := by simp [receiveOnly, hid]
  have hc := h.hasClient hs
  obtain ⟨hno, hasked⟩ := h.noData hs hrecv
  refine ⟨hno.chunks, hasked, fun ho e r c' hask hst => asksFin_queues hs hc ho hask hst, ?_, ?_, ?_, ?_⟩
  · intro hfin args hpick
    obtain ⟨-, s₁, hs₁, ho⟩ := pick_spec hpick
    rw [Option.some.inj (hs₁.symm.trans hs), hno.sendOffer, hfin] at ho
    cases ho
  · intro hfin
    rw [hno.sendOffer, if_pos hfin]
  · intro args buffer answer r c' hpick hb hk hst
    have hres := refused_of_keeps hk hpick hs hrecv
    simp only [step, quicClientWritePkt, if_neg hb, hres, Option.some.injEq, Prod.mk.injEq] at hst
    obtain ⟨rfl, rfl⟩ := hst
    exact ⟨⟨_, rfl, rfl⟩, rfl⟩
  · intro data hdata
    have hsmall : ∀ connLeft, (quicStreamWindowLeft 0 connLeft).toNat < data.len := fun connLeft => by
      rw [windowLeft_zero]
      exact hdata
    constructor
    · intro fin connLeft
      have hfull : quicStreamWriteNonblockM s data fin 0 connLeft = _ :=
        quicStreamWriteNonblockM_full hc (by omega) fin (by simp [windowLeft_zero])
      refine ⟨.mkText .waitWritable "stream send window is full", rfl, ?_⟩
      have hsame : c.modify ref (fun s => (quicStreamWriteNonblockM s data fin 0 connLeft).2) = c :=
        Client.modify_id fun s' hs' => by rw [← Option.some.inj (hs.symm.trans hs'), hfull]
      simp only [step, Client.call, quiet, hs, Option.map_some, hsame]
      simp [hfull, Except.map, Client.log]
    · intro fin windows rounds r c' hw hwrite
      have hnever : ∀ w ∈ windows, (quicStreamWindowLeft w.1 w.2).toNat < data.len := fun w hm => by
        rw [hw w hm]
        exact hsmall w.2
      obtain ⟨e, -, -, -, -, he, -⟩ := streamWrite_never hnever (h.attached hs) hwrite
      exact ⟨e, he⟩

/-- A unidirectional stream of the server's, closed by the program that
accepted it. -/
def acceptedUniRun : ClientTrace × Client :=
  run step ReceiveOnly
    [.callback (.streamOpen 3), .callback (.recvStreamData true 3 0 [7]), .acceptStreamNonblock, .close 0 none]
    [] {}

theorem acceptedUniRun_reach : Reach ReceiveOnly acceptedUniRun.1 acceptedUniRun.2 := Steps.of_run (by decide)

theorem acceptedUniRun_get : acceptedUniRun.2.objs[0]? = some (acceptedUniRun.2.objs.getD 0 (quicStreamNew 3)) := rfl

theorem receiveOnly_exact_acceptedUniRun : ∃ r c', (∃ e, r = .error e ∧ e.cls = .streamClosed) ∧
    step acceptedUniRun.2 (.writePkt none ⟨.error .streamShutWr, -1⟩) = some (r, c') :=
  have hraise := (receiveOnly_exact acceptedUniRun_reach acceptedUniRun_get rfl).2.2.2.2.2.1
    ⟨3, true, [], 0⟩ none ⟨.error .streamShutWr, -1⟩ _ _ rfl (by decide) (by decide) rfl
  ⟨_, _, hraise.1, rfl⟩

/-- `close` has queued a FIN for it, and the scheduler picks it. -/
theorem acceptedUniRun_picked : ¬ ∀ tr c, Reach ReceiveOnly tr c → ∀ (ref : Nat) s, c.objs[ref]? = some s →
    s.streamId % 4 = 3 → s.pendingChunks = [] ∧ s.finSent = false ∧
      ∀ args, quicClientPickSendStream c ≠ some (ref, args) := by
  intro h
  obtain ⟨-, -, hnot⟩ := h _ _ acceptedUniRun_reach 0 _ acceptedUniRun_get rfl
  exact hnot ⟨3, true, [], 0⟩ rfl

end QuicRuby
