/-
Calls on a stream whose send side is finished: reset, closed, or with FIN
queued. The writers look at the window first, so a finished stream answers
StreamClosed only where the window would have let the write through; and
`close` reaches its second leg only where `close_write` does not raise.
-/
import QuicRuby.WriteLoop

namespace QuicRuby

open Runs Loops

/-! ## Writing -/

/-- `write_nonblock` on a finished stream raises for the window first. -/
theorem quicStreamWriteNonblockM_finished {s : QuicStream} (hc : s.hasClient = true) (hfin : s.sendOpen = false)
    {data : RString} (hdata : 0 < data.len) (fin : Bool) (streamLeft connLeft : UInt64) :
    ∃ text, quicStreamWriteNonblockM s data fin streamLeft connLeft =
      (.error (.mkText (if 0 < (quicStreamWindowLeft streamLeft connLeft).toNat then .streamClosed else .waitWritable)
        text), s) := by
  have htake : nonblockTake s data streamLeft connLeft =
      min data.len (quicStreamWindowLeft streamLeft connLeft).toNat := if_pos hc
  obtain ⟨-, h0, text, he⟩ | ⟨hpos, slice, -, -, he⟩ :=
    quicStreamWriteNonblockM_eq s data fin streamLeft connLeft
  · refine ⟨text, ?_⟩
    rw [he, if_neg (by omega)]
  · obtain ⟨text, ht⟩ := quicStreamEnqueue_shut hfin slice
      (fin && nonblockTake s data streamLeft connLeft = data.len)
    have := hpos hdata
    refine ⟨text, ?_⟩
    rw [he, ht, if_pos (by omega)]

section
variable {c c' : Client} {ref : Nat} {s' : QuicStream} {data : RString}

/-- **Writing to a finished stream.** Let `write` have waited through some
turns when the stream turns out finished (none, if it was on entry). It
raises StreamClosed at once, and leaves everything as it is, exactly if the
window now holds the payload, and otherwise it pumps on; `write_nonblock`
does so exactly if the window is not empty. -/
theorem finished_write_iff {windows : List (UInt64 × UInt64)} {rounds : List PumpRound} (hatt : Attached c ref)
    (hdata : 0 < data.len) (hwaits : WriteWaits data windows rounds c c') (hs' : c'.objs[ref]? = some s')
    (hfin : s'.sendOpen = false) (fin : Bool) (streamLeft connLeft : UInt64) :
    ((∃ e, e.cls = .streamClosed ∧
        streamWrite ref data fin (windows ++ [(streamLeft, connLeft)]) rounds c = some (.error e, c')) ↔
      data.len ≤ (quicStreamWindowLeft streamLeft connLeft).toNat) ∧
    ((∃ e, e.cls = .streamClosed ∧
        step c' (.writeNonblock ref data fin streamLeft connLeft) = some (.error e, c')) ↔
      0 < (quicStreamWindowLeft streamLeft connLeft).toNat) := by
  obtain ⟨s₁, hs₁, hc⟩ := hwaits.attached hatt
  obtain rfl : s₁ = s' := by simpa [hs'] using hs₁.symm
  constructor
  · have hwaited : streamWrite ref data fin (windows ++ [(streamLeft, connLeft)]) (rounds ++ []) c = _ :=
      streamWrite_waits hwaits hatt [(streamLeft, connLeft)] []
    rw [List.append_nil] at hwaited
    rw [hwaited]
    by_cases hle : data.len ≤ (quicStreamWindowLeft streamLeft connLeft).toNat
    · obtain ⟨text, ht⟩ := quicStreamEnqueue_shut hfin data fin
      refine ⟨fun _ => hle, fun _ => ⟨.mkText .streamClosed text, rfl, ?_⟩⟩
      rw [streamWrite_holds hs' hc hle, ht, Client.modify_same hs']
    · refine ⟨?_, fun h => absurd h hle⟩
      rintro ⟨e, -, he⟩
      rw [streamWrite_pumps ⟨s₁, hs', hc⟩ (by simpa using hle)] at he
      cases he
  · obtain ⟨text, hnonblock⟩ := quicStreamWriteNonblockM_finished hc hfin hdata fin streamLeft connLeft
    have hstep : step c' (.writeNonblock ref data fin streamLeft connLeft) =
        some (.error (.mkText (if 0 < (quicStreamWindowLeft streamLeft connLeft).toNat then .streamClosed
          else .waitWritable) text), c') := by
      have hsame : c'.modify ref (fun s =>
          (quiet (quicStreamWriteNonblockM s data fin streamLeft connLeft)).2.1) = c' :=
        Client.modify_id fun s hs => by rw [← Option.some.inj (hs'.symm.trans hs), quiet, hnonblock]
      simp only [step, Client.call, hs', Option.map_some, hsame]
      simp [quiet, hnonblock, Except.map, Client.log]
    rw [hstep]
    by_cases hwindow : 0 < (quicStreamWindowLeft streamLeft connLeft).toNat
    · rw [if_pos hwindow]
      exact ⟨fun _ => hwindow, fun _ => ⟨_, rfl, rfl⟩⟩
    · rw [if_neg hwindow]
      refine ⟨?_, fun h => absurd h hwindow⟩
      rintro ⟨e, hcls, he⟩
      cases he
      cases hcls

end

/-- A stream that has been reset, its window as ngtcp2 reports it for a stream
it does not have. -/
def abortedRun : ClientTrace × Client :=
  run step FreshIds [.bind 5, .openBidiStream (.ok 0), .reset 0 none none] [] {}

theorem abortedRun_reach : Reach FreshIds abortedRun.1 abortedRun.2 := Steps.of_run (by decide)

theorem finished_write_iff_abortedRun : ∃ e, e.cls = .streamClosed ∧
    streamWrite 0 (.ofByte 1) false [(9, 9)] [] abortedRun.2 = some (.error e, abortedRun.2) :=
  have hs : abortedRun.2.objs[0]? = some (abortedRun.2.objs.getD 0 (quicStreamNew 0)) := rfl
  (finished_write_iff (abortedRun_reach.attached hs) (by decide) .nil hs rfl false 9 9).1.2 (by decide)

theorem abortedRun_wait_writable : ¬ ∀ tr c, Reach FreshIds tr c → ∀ (ref : Nat) s data fin streamLeft connLeft,
    c.objs[ref]? = some s → s.sendOpen = false → 0 < data.len →
    (∃ e, e.cls = .streamClosed ∧ streamWrite ref data fin [(streamLeft, connLeft)] [] c = some (.error e, c)) ∧
    ∃ e, e.cls = .streamClosed ∧
      step c (.writeNonblock ref data fin streamLeft connLeft) = some (.error e, c) := by
  intro h
  obtain ⟨-, e, hcls, he⟩ := h _ _ abortedRun_reach 0 _ (.ofByte 1) false 0 0 rfl rfl (by decide)
  cases he
  cases hcls

/-! ## Closing -/

theorem quicStreamCloseWriteM_finSent {s : QuicStream} (h : s.finSent = true) :
    quicStreamCloseWriteM s = (.ok (), s) := by
  rw [quicStreamCloseWriteM, if_pos h]

theorem quicStreamCloseWriteM_open {s : QuicStream} (h : s.sendOpen = true) :
    quicStreamCloseWriteM s = (.ok (), s.enqueued .empty true) := by
  rw [quicStreamCloseWriteM, (sendOpen_iff.1 h).2.2, quicStreamEnqueue_open h]
  rfl

theorem quicStreamCloseWriteM_shut {s : QuicStream} (h : s.sendOpen = false) (hfin : s.finSent = false) :
    ∃ text, quicStreamCloseWriteM s = (.error (.mkText .streamClosed text), s) := by
  obtain ⟨text, ht⟩ := quicStreamEnqueue_shut h .empty true
  refine ⟨text, ?_⟩
  rw [quicStreamCloseWriteM, hfin, ht]
  rfl

/-- A stream with a client asks for STOP_SENDING. -/
theorem quicStreamCloseReadM_client {s : QuicStream} (hc : s.hasClient = true) :
    quicStreamCloseReadM s none = (.ok (), s, [.shutdownStreamRead s.streamId 0 none]) := by
  simp [quicStreamCloseReadM, hc]

/-- `close` returns after STOP_SENDING, queues FIN if the send side was open
and nothing else, and a second one leaves the stream as this one did. -/
structure ClosesBoth (s : QuicStream) : Prop where
  completes : (quicStreamCloseM s none).1 = .ok ()
  stopSending : (quicStreamCloseM s none).2.2 = [.shutdownStreamRead s.streamId 0 none]
  fin : (quicStreamCloseM s none).2.1 = if s.sendOpen then s.enqueued .empty true else s
  again : (quicStreamCloseM (quicStreamCloseM s none).2.1 none).2.1 = (quicStreamCloseM s none).2.1

/-- **Closing a stream.** `close` does both its legs exactly if FIN is queued
already or the stream is neither reset nor closed. -/
theorem closesBoth_iff {K : ClientContract} {tr c} (h : Reach K tr c) {ref : Nat} {s : QuicStream}
    (hs : c.objs[ref]? = some s) :
    ClosesBoth s ↔ s.finSent = true ∨ s.reset = false ∧ s.closed = false := by
  have hc := h.hasClient hs
  cases hf : s.finSent with
  | true =>
    have hshut : s.sendOpen = false := by simp [QuicStream.sendOpen, hf]
    have hclose : quicStreamCloseM s none = (.ok (), s, [.shutdownStreamRead s.streamId 0 none]) := by
      rw [quicStreamCloseM, quicStreamCloseWriteM_finSent hf]
      exact quicStreamCloseReadM_client hc
    refine ⟨fun _ => .inl rfl, fun _ => ⟨?_, ?_, ?_, ?_⟩⟩ <;> simp [hclose, hshut]
  | false =>
    cases ho : s.sendOpen with
    | true =>
      have hclose : quicStreamCloseM s none =
          (.ok (), s.enqueued .empty true, [.shutdownStreamRead s.streamId 0 none]) := by
        rw [quicStreamCloseM, quicStreamCloseWriteM_open ho]
        exact quicStreamCloseReadM_client (s := s.enqueued .empty true) hc
      have hagain : quicStreamCloseWriteM (s.enqueued .empty true) = (.ok (), s.enqueued .empty true) :=
        quicStreamCloseWriteM_finSent (Bool.or_true _)
      obtain ⟨hreset, hclosed, -⟩ := sendOpen_iff.1 ho
      refine ⟨fun _ => .inr ⟨hreset, hclosed⟩, fun _ => ⟨?_, ?_, ?_, ?_⟩⟩ <;> simp [hclose, ho, hagain]
    | false =>
      obtain ⟨text, ht⟩ := quicStreamCloseWriteM_shut ho hf
      have hraise : (quicStreamCloseM s none).1 = .error (.mkText .streamClosed text) := by
        rw [quicStreamCloseM, ht]
      refine ⟨fun hcloses => ?_, fun hopen => ?_⟩
      · have := hcloses.completes
        rw [hraise] at this
        cases this
      · rcases hopen with hfin | ⟨hreset, hclosed⟩
        · cases hfin
        · simp [QuicStream.sendOpen, hreset, hclosed, hf] at ho

/-- A stream with FIN queued and then reset. -/
def finAbortedRun : ClientTrace × Client :=
  run step FreshIds [.openBidiStream (.ok 0), .closeWrite 0, .reset 0 none none] [] {}

theorem closesBoth_iff_finAbortedRun : ∃ s, finAbortedRun.2.objs[0]? = some s ∧ ClosesBoth s :=
  have hreach : Reach FreshIds finAbortedRun.1 finAbortedRun.2 := Steps.of_run (by decide)
  have hs : finAbortedRun.2.objs[0]? = some (finAbortedRun.2.objs.getD 0 (quicStreamNew 0)) := rfl
  ⟨_, hs, (closesBoth_iff hreach hs).2 (.inl rfl)⟩

/-- After a plain `reset` it raises, and no STOP_SENDING is asked for. -/
theorem abortedRun_not_closesBoth : ¬ ∀ tr c, Reach FreshIds tr c → ∀ (ref : Nat) s, c.objs[ref]? = some s →
    ClosesBoth s := by
  intro h
  have hcloses := h _ _ abortedRun_reach 0 _ rfl
  have hcalls := hcloses.stopSending
  cases hcalls

end QuicRuby
