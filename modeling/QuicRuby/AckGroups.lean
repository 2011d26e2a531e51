/-
Acknowledgments and sending keep out of each other's way: how the
acknowledged bytes are grouped makes no difference, an acknowledgment can
come before or after an enqueue, and the scheduler's choice does not change.

The grouping holds for any stream. The rest holds as long as fewer than
2^64 bytes are accepted on it: at 2^64 the end of a chunk wraps to 0, and
an acknowledgment of nothing shifts off what was never sent.
-/
import QuicRuby.Pick

namespace QuicRuby

open Runs

/-! ## The loop of the ack callback -/

/-- Shifting up to one offset and then up to a later one is shifting up to
the later one, whatever wraps. -/
theorem shiftAcked_shiftAcked (cs : List (List UInt8)) (shifted : UInt64) {offset offset' : UInt64}
    (h : offset ≤ offset') :
    shiftAcked (shiftAcked cs shifted offset).1 (shiftAcked cs shifted offset).2 offset' =
      shiftAcked cs shifted offset' := by
  induction cs generalizing shifted with
  | nil => rfl
  | cons head rest ih =>
    by_cases hend : shifted + UInt64.ofNat head.length ≤ offset
    · have hend' := UInt64.le_trans hend h
      simp only [shiftAcked, hend, hend', if_true]
      exact ih _
    · simp only [shiftAcked, hend, if_false]

/-- Shifting drops chunks from the head and counts their bytes. -/
theorem shiftAcked_drops {cs : List (List UInt8)} {shifted : UInt64} (ackedOffset : UInt64)
    (h : shifted.toNat + cs.flatten.length < 2 ^ 64) :
    ∃ pre, cs = pre ++ (shiftAcked cs shifted ackedOffset).1 ∧
      (shiftAcked cs shifted ackedOffset).2.toNat = shifted.toNat + pre.flatten.length :=
  (ChunkQueue.release_eq (shiftAcked_eq cs shifted ackedOffset h).symm).1

/-- An offset within the queue does not reach a chunk put after it. -/
theorem shiftAcked_snoc {cs : List (List UInt8)} {chunk : List UInt8} {shifted ackedOffset : UInt64}
    (hne : chunk ≠ []) (hle : ackedOffset.toNat ≤ shifted.toNat + cs.flatten.length)
    (hlt : shifted.toNat + cs.flatten.length + chunk.length < 2 ^ 64) :
    shiftAcked (cs ++ [chunk]) shifted ackedOffset =
      ((shiftAcked cs shifted ackedOffset).1 ++ [chunk], (shiftAcked cs shifted ackedOffset).2) := by
  have hold := shiftAcked_eq cs shifted ackedOffset (by omega)
  have hlen : (cs ++ [chunk]).flatten.length = cs.flatten.length + chunk.length := by
    rw [List.flatten_append, List.length_append, List.flatten_singleton]
  have hnew := shiftAcked_eq (cs ++ [chunk]) shifted ackedOffset (by omega)
  rw [ChunkQueue.release_snoc hne hle, ← hold, Prod.mk.injEq] at hnew
  exact Prod.ext hnew.1 (UInt64.toNat_inj.1 hnew.2)

/-! ## One stream -/

theorem ackedStreamDataOffset_eq (s : QuicStream) (datalen : UInt64) :
    s.ackedStreamDataOffset datalen =
      { s with
        ackedOffset := s.ackedOffset + datalen
        pendingChunks := (shiftAcked s.pendingChunks s.pendingShifted (s.ackedOffset + datalen)).1
        pendingShifted := (shiftAcked s.pendingChunks s.pendingShifted (s.ackedOffset + datalen)).2 } := rfl

/-- Two acknowledgments are one of the sum. -/
theorem ackedStreamDataOffset_add (s : QuicStream) {a b : UInt64}
    (h : s.ackedOffset.toNat + a.toNat + b.toNat < 2 ^ 64) :
    (s.ackedStreamDataOffset a).ackedStreamDataOffset b = s.ackedStreamDataOffset (a + b) := by
  have hle : s.ackedOffset + a ≤ s.ackedOffset + a + b := by
    have hfirst : (s.ackedOffset + a).toNat = s.ackedOffset.toNat + a.toNat := by
      rw [UInt64.toNat_add]
      omega
    rw [UInt64.le_iff_toNat_le, UInt64.toNat_add (s.ackedOffset + a), hfirst]
    omega
  simp only [ackedStreamDataOffset_eq, shiftAcked_shiftAcked _ _ hle, ← UInt64.add_assoc]

section
variable {s : QuicStream} {b : SendBuffer UInt8} {datalen : UInt64}

theorem Represents.acked_toNat (h : Represents s b) (hle : b.acked + datalen.toNat ≤ b.sent) :
    (s.ackedOffset + datalen).toNat = b.acked + datalen.toNat := by
  have hsent := b.sent_le
  have hbound := h.bound
  rw [UInt64.toNat_add, h.acked]
  omega

/-- An acknowledgment before an enqueue is one after it. -/
theorem Represents.ack_enqueue (h : Represents s b) (hle : b.acked + datalen.toNat ≤ b.sent) {data : RString}
    (hlt : b.accepted.length + data.len < 2 ^ 64) (fin : Bool) :
    quicStreamEnqueue (s.ackedStreamDataOffset datalen) data fin =
      ((quicStreamEnqueue s data fin).1, (quicStreamEnqueue s data fin).2.ackedStreamDataOffset datalen) := by
  have hlen := h.queued.chunks_length
  have hsent := b.sent_le
  have hacked := h.acked_toNat hle
  have hsnoc : 0 < data.len →
      shiftAcked (s.pendingChunks ++ [data.bytes]) s.pendingShifted (s.ackedOffset + datalen) =
        ((shiftAcked s.pendingChunks s.pendingShifted (s.ackedOffset + datalen)).1 ++ [data.bytes],
          (shiftAcked s.pendingChunks s.pendingShifted (s.ackedOffset + datalen)).2) := fun hpos =>
    shiftAcked_snoc (List.length_pos_iff.1 hpos) (by omega) (by simp only [RString.len] at hlt; omega)
  cases hopen : s.sendOpen with
  | true =>
    have hopen' : (s.ackedStreamDataOffset datalen).sendOpen = true := hopen
    rw [quicStreamEnqueue_open hopen, quicStreamEnqueue_open hopen', Prod.mk.injEq]
    refine ⟨rfl, ?_⟩
    by_cases hpos : 0 < data.len
    · simp only [QuicStream.enqueued, ackedStreamDataOffset_eq, hpos, if_true, hsnoc hpos]
    · simp only [QuicStream.enqueued, ackedStreamDataOffset_eq, hpos, if_false]
  | false =>
    -- The checks do not look at what was acknowledged.
    have hshut' : (s.ackedStreamDataOffset datalen).sendOpen = false := hopen
    rw [quicStreamEnqueue_refused hopen, quicStreamEnqueue_refused hshut']
    rfl

/-- The walk finds the chunk it found before, by its index after the shift. -/
theorem Represents.walk_acked (h : Represents s b) (hle : b.acked + datalen.toNat ≤ b.sent) :
    ∃ pre, s.pendingChunks = pre ++ (s.ackedStreamDataOffset datalen).pendingChunks ∧
      walkPending s.pendingChunks (s.sentOffset - s.pendingShifted) 0 =
        (walkPending (s.ackedStreamDataOffset datalen).pendingChunks
            (s.sentOffset - (s.ackedStreamDataOffset datalen).pendingShifted) 0).map
          fun (i, chunk, off) => (i + pre.length, chunk, off) := by
  have hlen := h.queued.chunks_length
  have hbound := h.bound
  have hrep := h.ack hle
  obtain ⟨pre, hcs, hbase⟩ := shiftAcked_drops (s.ackedOffset + datalen)
    (show s.pendingShifted.toNat + s.pendingChunks.flatten.length < 2 ^ 64 by omega)
  refine ⟨pre, hcs, ?_⟩
  have hpos := h.queued.position
  have hpos' : (s.sentOffset - (s.ackedStreamDataOffset datalen).pendingShifted).toNat =
      s.sentOffset.toNat - (s.ackedStreamDataOffset datalen).pendingShifted.toNat := hrep.queued.position
  have hle' : (s.ackedStreamDataOffset datalen).pendingShifted.toNat ≤ s.sentOffset.toNat :=
    hrep.queued.shifted_le
  have hshift : (s.ackedStreamDataOffset datalen).pendingShifted.toNat =
      s.pendingShifted.toNat + pre.flatten.length := hbase
  have hrest : (s.ackedStreamDataOffset datalen).pendingChunks =
      (shiftAcked s.pendingChunks s.pendingShifted (s.ackedOffset + datalen)).1 := rfl
  have hwalk : walkPending (s.ackedStreamDataOffset datalen).pendingChunks
      (s.sentOffset - (s.ackedStreamDataOffset datalen).pendingShifted) 0 =
        ChunkQueue.locate (s.ackedStreamDataOffset datalen).pendingChunks
          (s.sentOffset - (s.ackedStreamDataOffset datalen).pendingShifted).toNat := hrep.queued.walk
  rw [h.queued.walk, hwalk, hpos', hpos, hshift, hcs, hrest]
  rw [← hcs, ← Nat.sub_sub]
  conv_lhs => rw [hcs]
  exact ChunkQueue.locate_append (by omega) _

/-- An acknowledgment changes nothing about what a stream offers. -/
theorem Represents.offer_acked (h : Represents s b) (hle : b.acked + datalen.toNat ≤ b.sent) :
    (s.ackedStreamDataOffset datalen).sendOffer = s.sendOffer := by
  obtain ⟨pre, hcs, hwalk⟩ := h.walk_acked hle
  have hlen : s.pendingChunks.length = pre.length + (s.ackedStreamDataOffset datalen).pendingChunks.length := by
    have hsplit := congrArg List.length hcs
    rwa [List.length_append] at hsplit
  simp only [QuicStream.sendOffer, hwalk]
  have hflushed : (s.ackedStreamDataOffset datalen).finFlushed = s.finFlushed := rfl
  have hfin : (s.ackedStreamDataOffset datalen).finSent = s.finSent := rfl
  have hid : (s.ackedStreamDataOffset datalen).streamId = s.streamId := rfl
  have hsent : (s.ackedStreamDataOffset datalen).sentOffset = s.sentOffset := rfl
  rw [hflushed, hfin, hid, hsent, hlen]
  cases hfound : walkPending (s.ackedStreamDataOffset datalen).pendingChunks
      (s.sentOffset - (s.ackedStreamDataOffset datalen).pendingShifted) 0 with
  | none => rfl
  | some found =>
    obtain ⟨i, chunk, off⟩ := found
    obtain ⟨front, back, hchunks, hi, -⟩ := ChunkQueue.locate_eq_some ((h.ack hle).queued.walk.symm.trans hfound)
    have hlast : i = (s.ackedStreamDataOffset datalen).pendingChunks.length - 1 ↔
        i + pre.length = pre.length + (s.ackedStreamDataOffset datalen).pendingChunks.length - 1 := by
      rw [hchunks, List.length_append, List.length_cons]
      omega
    simp only [Option.map_some, hlast]

end

/-! ## The client -/

/-- **Acknowledgments in groups.** On any stream two acknowledgments are one
of the sum. While fewer than 2^64 bytes are accepted on it, an
acknowledgment commutes with an enqueue, and the scheduler offers after it
what it offered before. -/
theorem ack_inert {tr c} (h : Reach SendContract tr c) {ref : Nat} {s : QuicStream}
    (hs : c.objs[ref]? = some s) :
    (∀ a b : UInt64, s.ackedOffset.toNat + a.toNat + b.toNat ≤ s.sentOffset.toNat →
      quicAckedStreamDataOffsetCb (quicAckedStreamDataOffsetCb c s.streamId a) s.streamId b =
        quicAckedStreamDataOffsetCb c s.streamId (a + b)) ∧
    ∀ a : UInt64, s.ackedOffset.toNat + a.toNat ≤ s.sentOffset.toNat → (accepted tr ref).length < 2 ^ 64 →
      (∀ data fin, (accepted tr ref).length + data.len < 2 ^ 64 →
        quicStreamEnqueue (s.ackedStreamDataOffset a) data fin =
          ((quicStreamEnqueue s data fin).1, (quicStreamEnqueue s data fin).2.ackedStreamDataOffset a)) ∧
      quicClientPickSendStream (quicAckedStreamDataOffsetCb c s.streamId a) = quicClientPickSendStream c := by
  have hreg := h.registered SendContract.fresh
  constructor
  · intro a b hle
    have hlt := s.sentOffset.toNat_lt
    cases hid : c.streams.aref s.streamId with
    | none => simp only [quicAckedStreamDataOffsetCb, quicClientLookupStream, hid]
    | some r =>
      simp only [quicAckedStreamDataOffsetCb, quicClientLookupStream, hid, Client.modify]
      rw [List.modify_modify_eq]
      congr 1
      refine modify_congr fun s' hs' => ?_
      obtain rfl := hreg.object hs hid hs'
      exact ackedStreamDataOffset_add s' (by omega)
  · intro a hle hlt
    obtain ⟨b, hb⟩ := h.tracks hs hlt
    have hrep := hb.represents
    rw [hrep.acked, hrep.sent] at hle
    refine ⟨fun data fin hdata => ?_, ?_⟩
    · rw [← hb.accepted_eq] at hdata
      exact hrep.ack_enqueue hle hdata fin
    · cases hid : c.streams.aref s.streamId with
      | none => simp only [quicAckedStreamDataOffsetCb, quicClientLookupStream, hid]
      | some r =>
        simp only [quicAckedStreamDataOffsetCb, quicClientLookupStream, hid]
        refine pick_modify fun s' hs' => ?_
        obtain rfl := hreg.object hs hid hs'
        exact hrep.offer_acked hle

theorem ack_inert_shortRun : ∃ s, shortRun.2.objs[0]? = some s ∧
    quicAckedStreamDataOffsetCb (quicAckedStreamDataOffsetCb shortRun.2 s.streamId 2) s.streamId 1 =
      quicAckedStreamDataOffsetCb shortRun.2 s.streamId 3 ∧
    quicClientPickSendStream (quicAckedStreamDataOffsetCb shortRun.2 s.streamId 4) =
      quicClientPickSendStream shortRun.2 :=
  ⟨_, rfl, (ack_inert shortRun_reach (show shortRun.2.objs[0]? = some _ from rfl)).1 2 1 (by decide),
    ((ack_inert shortRun_reach (show shortRun.2.objs[0]? = some _ from rfl)).2 4 (by decide) (by decide)).2⟩

/-! ## At 2^64 -/

/-- A stream on which 2^64 - 2 bytes were sent and acknowledged and two more
are queued. -/
def wrappedQueue (d : RString) : QuicStream :=
  { streamId := 0
    hasClient := true
    sentOffset := 0xFFFFFFFFFFFFFFFE
    ackedOffset := 0xFFFFFFFFFFFFFFFE
    pendingShifted := 0xFFFFFFFFFFFFFFFE
    pendingChunks := [d.bytes] }

theorem exists_wrappedQueue {d : RString} (hd : d.len = 2) : ∃ tr c, Reach SendContract tr c ∧
    c.streams = OrderedHash.empty.aset 0 0 ∧ c.objs = [wrappedQueue d] := by
  obtain ⟨e, he⟩ := exists_rstring (show 2 ^ 63 - 1 < 2 ^ 63 by omega)
  have hbytes : e.bytes.length = 2 ^ 63 - 1 := he
  obtain ⟨_, _, w₀⟩ := WholeRun.start
  obtain ⟨_, _, w₁⟩ := w₀.snoc (by simp) (d := e) (by omega) false
  obtain ⟨tr, c, w⟩ := w₁.snoc (by simp; omega) (d := e) (by omega) false
  have hlen : ([e, e].map (·.bytes)).flatten.length = 2 ^ 64 - 2 := by simp [hbytes]
  have hs : c.objs[0]? = some (wholeSent [e, e] false) := by rw [w.objs]; rfl
  have hid : c.streams.aref 0 = some 0 := by rw [w.streams]; rfl
  -- Nothing has been acknowledged yet; now all of it is.
  have hacked : acked tr 0 = 0 := by
    have hacc : (accepted tr 0).length = 2 ^ 64 - 2 := by rw [w.accepted_eq]; exact hlen
    obtain ⟨b, hb⟩ := w.reach.tracks hs (by omega)
    exact (hb.acked_eq hid).symm.trans hb.represents.acked.symm
  have hK₁ : SendContract tr c (.callback (.ackedStreamDataOffset 0 0 0xFFFFFFFFFFFFFFFE)) := by
    refine ⟨fun id hopens => by simp [Event.opens] at hopens, ?_⟩
    have hframed : (framed c.calls 0).length = 2 ^ 64 - 2 := by rw [w.framed_eq]; exact hlen
    simp only [keepsSendPromise, hacked, hframed]
    decide
  have hshift : (wholeSent [e, e] false).ackedStreamDataOffset 0xFFFFFFFFFFFFFFFE =
      { wrappedQueue d with pendingChunks := [] } := by
    have hall := shiftAcked_eq ([e, e].map (·.bytes)) 0 0xFFFFFFFFFFFFFFFE (by rw [hlen]; decide)
    rw [ChunkQueue.release_all (by rw [hlen]; decide), hlen, Prod.mk.injEq] at hall
    have hshifted := UInt64.toNat_inj.1 (hall.2.trans (show _ = (0xFFFFFFFFFFFFFFFE : UInt64).toNat from rfl))
    have hsent : UInt64.ofNat ([e, e].map (·.bytes)).flatten.length = 0xFFFFFFFFFFFFFFFE := by
      rw [hlen]
      rfl
    rw [ackedStreamDataOffset_eq]
    simp only [wholeSent, UInt64.zero_add, hall.1, hshifted, hsent, wrappedQueue]
  obtain ⟨c₁, hc₁⟩ : ∃ c₁, c₁ = c.modify 0 (·.ackedStreamDataOffset 0xFFFFFFFFFFFFFFFE) := ⟨_, rfl⟩
  have hstep₁ : step c (.callback (.ackedStreamDataOffset 0 0 0xFFFFFFFFFFFFFFFE)) = some (.ok .nil, c₁) := by
    simp only [step, runCallback, quicAckedStreamDataOffsetCb, quicClientLookupStream, hid, hc₁]
  have hobjs₁ : c₁.objs = [{ wrappedQueue d with pendingChunks := [] }] := by
    rw [hc₁, Client.modify, w.objs, ← hshift]
    rfl
  have hs₁ : c₁.objs[0]? = some { wrappedQueue d with pendingChunks := [] } := by rw [hobjs₁]; rfl
  have hstep₂ := step_write_whole hs₁ rfl d false
  have hK₂ : ∀ tr, SendContract tr c₁ (.write 0 d false 0xFFFFFFFFFFFFFFFF 0xFFFFFFFFFFFFFFFF) := fun _ =>
    ⟨fun id hopens => by simp [Event.opens] at hopens, rfl⟩
  refine ⟨_, _, (w.reach.tail hK₁ hstep₁).tail (hK₂ _) hstep₂, by rw [hc₁]; exact w.streams, ?_⟩
  have hpos : 0 < d.len := by omega
  simp only [Client.modify, hobjs₁, QuicStream.enqueued, wrappedQueue, hpos, if_true]
  rfl

/-- There an acknowledgment of nothing takes the offer away. -/
theorem ack_not_inert_of_wrap : ¬ ∀ tr c (ref : Nat) s (a : UInt64), Reach SendContract tr c →
    c.objs[ref]? = some s → s.ackedOffset.toNat + a.toNat ≤ s.sentOffset.toNat →
      quicClientPickSendStream (quicAckedStreamDataOffsetCb c s.streamId a) = quicClientPickSendStream c := by
  intro h
  obtain ⟨d, hd⟩ := exists_rstring (show 2 < 2 ^ 63 by omega)
  obtain ⟨tr, c, hrun, hstreams, hobjs⟩ := exists_wrappedQueue hd
  have hs : c.objs[0]? = some (wrappedQueue d) := by rw [hobjs]; rfl
  have hsame := h tr c 0 _ 0 hrun hs (Nat.le_refl _)
  have hid : c.streams.aref 0 = some 0 := by rw [hstreams]; rfl
  have hvalues : c.streams.values = [0] := by rw [hstreams]; rfl
  have hlen : UInt64.ofNat d.bytes.length = 2 := by rw [show d.bytes.length = 2 from hd]; rfl
  have hafter : ((wrappedQueue d).ackedStreamDataOffset 0).sendOffer = none := by
    simp [ackedStreamDataOffset_eq, wrappedQueue, shiftAcked, hlen, QuicStream.sendOffer, walkPending]
  have hbefore : (wrappedQueue d).sendOffer ≠ none := by
    simp [wrappedQueue, hlen, QuicStream.sendOffer, walkPending]
  have hnone : quicClientPickSendStream (quicAckedStreamDataOffsetCb c 0 0) = none := by
    simp only [quicAckedStreamDataOffsetCb, quicClientLookupStream, hid]
    rw [pick_eq_none_iff]
    intro r hr
    obtain rfl : r = 0 := by simpa [Client.modify, hvalues] using hr
    simp [Client.offer, Client.modify, hobjs, hafter]
  rw [show (wrappedQueue d).streamId = 0 from rfl, hnone, eq_comm, pick_eq_none_iff] at hsame
  have hoffer := hsame 0 (by simp [hvalues])
  simp only [Client.offer, hs, Option.bind_some] at hoffer
  exact hbefore hoffer

end QuicRuby
