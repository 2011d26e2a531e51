/-
Bytes go out exactly as they were accepted, and what may have to be sent
again is still there.

Both hold as long as fewer than 2^64 bytes are accepted on the stream:
`sent_offset` is a `uint64_t` and nothing in the extension stops it from
wrapping. `WholeRun` runs it past 2^64.
-/
import QuicRuby.SendRun

namespace QuicRuby

open Runs

/-! ## A short run -/

/-- Three bytes, framed in two parts with an acknowledgment between them,
then two more with FIN. -/
def shortRun : ClientTrace × Client :=
  run step SendContract
    [.openBidiStream (.ok 0),
     .write 0 ⟨[1, 2, 3], by decide⟩ false 100 100,
     .writePkt none ⟨.ok [64], 2⟩,
     .callback (.ackedStreamDataOffset 0 0 1),
     .write 0 ⟨[4, 5], by decide⟩ true 98 98,
     .writePkt none ⟨.ok [65], 1⟩,
     .writePkt none ⟨.ok [66], 2⟩] [] {}

theorem shortRun_reach : Reach SendContract shortRun.1 shortRun.2 := Steps.of_run (by decide)

/-! ## A run past 2^64 -/

theorem walkPending_last (pre : List (List UInt8)) {d : List UInt8} (hpre : pre.flatten.length < 2 ^ 64)
    (hpos : 0 < d.length) (hlt : d.length < 2 ^ 64) (j : Nat) :
    walkPending (pre ++ [d]) (UInt64.ofNat pre.flatten.length) j = some (j + pre.length, d, 0) := by
  induction pre generalizing j with
  | nil =>
    have h0 : (0 : UInt64) < UInt64.ofNat d.length := by
      rw [UInt64.lt_iff_toNat_lt, toNat_ofNat_length hlt]
      exact hpos
    simp [walkPending, h0]
  | cons c cs ih =>
    simp only [List.flatten_cons, List.length_append] at hpre
    have hge : ¬ UInt64.ofNat (c.length + cs.flatten.length) < UInt64.ofNat c.length := by
      rw [UInt64.lt_iff_toNat_lt, toNat_ofNat_length hpre, toNat_ofNat_length (by omega)]
      omega
    have hsub : UInt64.ofNat (c.length + cs.flatten.length) - UInt64.ofNat c.length =
        UInt64.ofNat cs.flatten.length := by
      rw [UInt64.ofNat_add, UInt64.add_comm, UInt64.add_sub_cancel]
    simp only [List.cons_append, walkPending, List.flatten_cons, List.length_append, hge, if_false, hsub]
    rw [ih (by omega)]
    simp only [List.length_cons, Option.some.injEq, Prod.mk.injEq, and_true]
    omega

/-- A stream on which `ds` was written, each framed whole at once. -/
def wholeSent (ds : List RString) (fin : Bool) : QuicStream :=
  { streamId := 0
    hasClient := true
    pendingChunks := ds.map (·.bytes)
    sentOffset := UInt64.ofNat (ds.map (·.bytes)).flatten.length
    finSent := fin
    finFlushed := fin }

/-- A run of such writes on the one stream of a client. -/
structure WholeRun (tr : ClientTrace) (c : Client) (ds : List RString) (fin : Bool) : Prop where
  reach : Reach SendContract tr c
  streams : c.streams = OrderedHash.empty.aset 0 0
  objs : c.objs = [wholeSent ds fin]
  accepted_eq : accepted tr 0 = (ds.map (·.bytes)).flatten
  framed_eq : framed c.calls 0 = (ds.map (·.bytes)).flatten

theorem WholeRun.start : ∃ tr c, WholeRun tr c [] false :=
  ⟨_, _, .one (e := .openBidiStream (.ok 0)) (by decide) rfl, rfl, rfl, rfl, rfl⟩

/-- The next packet is offered all of what was written last. -/
theorem wholeSent_offer {ds : List RString} (hlt : (ds.map (·.bytes)).flatten.length < 2 ^ 64) {d : RString}
    (hd : 0 < d.len) (fin : Bool) :
    ((wholeSent ds false).enqueued d fin).sendOffer =
      some { streamId := 0, fin := fin, datav := d.bytes, datavcnt := 1 } := by
  have hlen := d.len_lt
  have hwalk := walkPending_last (ds.map (·.bytes)) hlt hd (by omega) 0
  simp only [QuicStream.sendOffer, QuicStream.enqueued, wholeSent, hd, if_true, UInt64.sub_zero, hwalk,
    Bool.false_eq_true, if_false, Bool.false_or]
  simp

theorem wholeSent_account (ds : List RString) {d : RString} (hd : 0 < d.len) (fin : Bool) :
    ((wholeSent ds false).enqueued d fin).accountWritev
        { streamId := 0, fin := fin, datav := d.bytes, datavcnt := 1 } 1 d.len =
      wholeSent (ds ++ [d]) fin := by
  have hlen := d.len_lt
  have hpos : (0 : Int) < d.len := by omega
  have hoff : UInt64.ofNat (ds.map (·.bytes)).flatten.length + UInt64.ofInt d.len =
      UInt64.ofNat ((ds ++ [d]).map (·.bytes)).flatten.length := by
    apply UInt64.toNat_inj.1
    rw [UInt64.toNat_add, toNat_ofInt_of_pos hpos (by simp only [RString.len]; omega)]
    simp [RString.len]
  simp only [QuicStream.accountWritev, hpos, if_true, QuicStream.enqueued, wholeSent, hd, Bool.false_or, hoff]
  cases fin <;> simp [RString.len]

/-- A write that the windows hold is taken whole. -/
theorem step_write_whole {c : Client} {ref : Nat} {s : QuicStream} (hs : c.objs[ref]? = some s)
    (hopen : s.sendOpen = true) (d : RString) (fin : Bool) :
    step c (.write ref d fin 0xFFFFFFFFFFFFFFFF 0xFFFFFFFFFFFFFFFF) =
      some (.ok (.int d.len), c.modify ref fun _ => s.enqueued d fin) := by
  have hlen := d.len_lt
  have hroom : ¬ quicStreamWindowLeft 0xFFFFFFFFFFFFFFFF 0xFFFFFFFFFFFFFFFF < UInt64.ofNat d.len := by
    rw [UInt64.lt_iff_toNat_lt, d.toUInt64_len]
    simp only [quicStreamWindowLeft, RString.len]
    show ¬ 18446744073709551615 < d.bytes.length
    omega
  simp only [step, hs, Option.bind_some, quicStreamWriteM, hroom, and_false, if_false,
    quicStreamEnqueue_open hopen]
  split <;> rfl

theorem WholeRun.snoc {tr c ds} (h : WholeRun tr c ds false) (hlt : (ds.map (·.bytes)).flatten.length < 2 ^ 64)
    {d : RString} (hd : 0 < d.len) (fin : Bool) : ∃ tr c, WholeRun tr c (ds ++ [d]) fin := by
  have hlen := d.len_lt
  have hs : c.objs[0]? = some (wholeSent ds false) := by rw [h.objs]; rfl
  have hopen : (wholeSent ds false).sendOpen = true := rfl
  -- The write is taken whole.
  have hwrite := step_write_whole hs hopen d fin
  obtain ⟨c₁, hc₁⟩ : ∃ c₁, c₁ = c.modify 0 fun _ => (wholeSent ds false).enqueued d fin := ⟨_, rfl⟩
  rw [← hc₁] at hwrite
  have hobjs₁ : c₁.objs = [(wholeSent ds false).enqueued d fin] := by rw [hc₁, Client.modify, h.objs]; rfl
  have hstreams₁ : c₁.streams = OrderedHash.empty.aset 0 0 := by rw [hc₁]; exact h.streams
  have hoffer := wholeSent_offer hlt hd fin
  have hpick : quicClientPickSendStream c₁ =
      some (0, { streamId := 0, fin := fin, datav := d.bytes, datavcnt := 1 }) := by
    have hvalues : c₁.streams.values = [0] := by rw [hstreams₁]; rfl
    simp [quicClientPickSendStream, hvalues, hobjs₁, hoffer]
  have hargs := writevArgs_of_pick hpick
  have hpkt : step c₁ (.writePkt none ⟨.ok [0], d.len⟩) =
      some (.ok (.str [0]), (c₁.log [.writevStream c₁.writevArgs ⟨.ok [0], d.len⟩]).modify 0
        (·.accountWritev c₁.writevArgs 1 d.len)) := by
    simp [step, quicClientWritePkt, hpick, RValue.ofPacket, Except.map]
  have hK₁ : SendContract tr c (.write 0 d fin 0xFFFFFFFFFFFFFFFF 0xFFFFFFFFFFFFFFFF) :=
    ⟨fun id hid => by simp [Event.opens] at hid, rfl⟩
  have hK₂ : ∀ tr, SendContract tr c₁ (.writePkt none ⟨.ok [0], d.len⟩) := by
    intro tr
    refine ⟨fun id hid => by simp [Event.opens] at hid, ?_⟩
    simp [keepsSendPromise, WritevAnswer.fits, hargs, RString.len]
  refine ⟨_, _, (h.reach.tail hK₁ hwrite).tail (hK₂ _) hpkt, hstreams₁, ?_, ?_, ?_⟩
  · simp only [Client.modify, Client.log, hobjs₁, hargs]
    rw [← wholeSent_account ds hd fin]
    rfl
  · rw [accepted_snoc, accepted_snoc, h.accepted_eq]
    simp [acceptedBy, RString.len]
  · have hold : framed c₁.calls 0 = framed c.calls 0 := by rw [hc₁]; rfl
    have hnew : framed [.writevStream c₁.writevArgs ⟨.ok [0], d.len⟩] 0 = d.bytes := by
      simp [hargs, framed, Ngtcp2Call.framed, WritevAnswer.framed, RString.len]
    simp only [Client.modify, Client.log, framed_append, hold, hnew, h.framed_eq]
    simp

/-- Three writes of 2^64 bytes in all, each framed whole: `sent_offset` is
back at 0. -/
theorem exists_wrap (fin : Bool) : ∃ tr c s, Reach SendContract tr c ∧ c.objs[0]? = some s ∧ s.streamId = 0 ∧
    s.sentOffset = 0 ∧ s.finFlushed = fin ∧ (accepted tr 0).length = 2 ^ 64 ∧
      (framed c.calls 0).length = 2 ^ 64 := by
  obtain ⟨d₁, h₁⟩ := exists_rstring (show 2 ^ 63 - 1 < 2 ^ 63 by omega)
  obtain ⟨d₂, h₂⟩ := exists_rstring (show 2 < 2 ^ 63 by omega)
  simp only [RString.len] at h₁ h₂
  obtain ⟨_, _, w₀⟩ := WholeRun.start
  obtain ⟨_, _, w₁⟩ := w₀.snoc (by simp) (d := d₁) (by simp only [RString.len]; omega) false
  obtain ⟨_, _, w₂⟩ := w₁.snoc (by simp; omega) (d := d₁) (by simp only [RString.len]; omega) false
  obtain ⟨tr, c, w₃⟩ := w₂.snoc (by simp; omega) (d := d₂) (by simp only [RString.len]; omega) fin
  refine ⟨tr, c, _, w₃.reach, by rw [w₃.objs]; rfl, rfl, ?_, rfl, ?_, ?_⟩
  · apply UInt64.toNat_inj.1
    simp [wholeSent, h₁, h₂]
  · simp [w₃.accepted_eq, h₁, h₂]
  · simp [w₃.framed_eq, h₁, h₂]

/-! ## Exact sending -/

/-- **Exact sending.** What ngtcp2 framed for a stream is the first
`sent_offset` bytes of what was accepted on it. -/
theorem framed_eq_take_sentOffset {tr c} (h : Reach SendContract tr c) {ref : Nat} {s : QuicStream}
    (hs : c.objs[ref]? = some s) (hlt : (accepted tr ref).length < 2 ^ 64) :
    framed c.calls s.streamId = (accepted tr ref).take s.sentOffset.toNat ∧
      s.sentOffset.toNat = (framed c.calls s.streamId).length := by
  obtain ⟨b, hb⟩ := h.tracks hs hlt
  rw [← hb.framed_eq, ← hb.accepted_eq, hb.represents.sent, SendBuffer.framed_length]
  exact ⟨rfl, rfl⟩

theorem framed_eq_take_sentOffset_shortRun : ∃ s, shortRun.2.objs[0]? = some s ∧
    framed shortRun.2.calls s.streamId = (accepted shortRun.1 0).take s.sentOffset.toNat ∧
      s.sentOffset.toNat = (framed shortRun.2.calls s.streamId).length :=
  ⟨_, rfl, framed_eq_take_sentOffset shortRun_reach rfl (by decide)⟩

/-- Without the bound it fails: 2^64 bytes are framed, none of them counted. -/
theorem framed_not_take_of_wrap : ¬ ∀ tr c (ref : Nat) s, Reach SendContract tr c → c.objs[ref]? = some s →
    framed c.calls s.streamId = (accepted tr ref).take s.sentOffset.toNat := by
  intro h
  obtain ⟨tr, c, s, hrun, hs, hid, hsent, -, hacc, hfr⟩ := exists_wrap false
  have heq := congrArg List.length (h tr c 0 s hrun hs)
  rw [hid, hfr, hsent] at heq
  simp at heq

/-! ## Retention -/

/-- What the send queue keeps. -/
structure Retains (tr : ClientTrace) (c : Client) (ref : Nat) (s : QuicStream) : Prop where
  nonempty : ∀ chunk ∈ s.pendingChunks, chunk ≠ []
  shifted_le : s.pendingShifted.toNat ≤ s.ackedOffset.toNat
  acked_le : s.ackedOffset.toNat ≤ s.sentOffset.toNat
  sent_le : s.sentOffset.toNat ≤ s.pendingShifted.toNat + (s.pendingChunks.map List.length).sum
  no_wrap : (s.sentOffset - s.pendingShifted).toNat = s.sentOffset.toNat - s.pendingShifted.toNat
  sent : s.sentOffset.toNat = (framed c.calls s.streamId).length
  acked : c.streams.aref s.streamId = some ref → s.ackedOffset.toNat = acked tr s.streamId
  /-- A byte framed and not acknowledged is in the chunks, at its offset. -/
  held : ∀ i, s.ackedOffset.toNat ≤ i → i < (framed c.calls s.streamId).length →
    s.pendingChunks.flatten[i - s.pendingShifted.toNat]? = (framed c.calls s.streamId)[i]?
  /-- The head chunk is not fully acknowledged. -/
  head : ∀ chunk ∈ s.pendingChunks.head?, s.ackedOffset.toNat < s.pendingShifted.toNat + chunk.length

theorem Tracks.retains {tr c} {ref : Nat} {s : QuicStream} {b : SendBuffer UInt8} (h : Tracks tr c ref s b) :
    Retains tr c ref s := by
  have hrep := h.represents
  have hlen := hrep.queued.chunks_length
  have hacked := hrep.acked
  have hsent := hrep.sent
  have hle := b.acked_le
  have hle' := b.sent_le
  have hshifted := hrep.shifted_le
  have hframed : (framed c.calls s.streamId).length = b.sent := by rw [← h.framed_eq, SendBuffer.framed_length]
  refine ⟨hrep.nonempty, by omega, by omega, ?_, ?_, by omega, ?_, ?_, ?_⟩
  · rw [← List.length_flatten]
    omega
  · exact hrep.queued.position
  · intro hreg
    rw [hacked, h.acked_eq hreg]
  · intro i hi hlt
    rw [hrep.chunks, List.getElem?_drop, ← h.framed_eq, SendBuffer.framed, List.getElem?_take_of_lt (by omega)]
    congr 1
    omega
  · intro chunk hm
    rw [hacked]
    exact hrep.head chunk hm

/-- **Retention.** In every state reached the cursors are in order, the
subtraction does not wrap, every framed byte that is not acknowledged is
held unchanged, and no acknowledged chunk stays at the head. -/
theorem sendQueue_retains {tr c} (h : Reach SendContract tr c) {ref : Nat} {s : QuicStream}
    (hs : c.objs[ref]? = some s) (hlt : (accepted tr ref).length < 2 ^ 64) : Retains tr c ref s := by
  obtain ⟨b, hb⟩ := h.tracks hs hlt
  exact hb.retains

theorem sendQueue_retains_shortRun : ∃ s, shortRun.2.objs[0]? = some s ∧ Retains shortRun.1 shortRun.2 0 s :=
  ⟨_, rfl, sendQueue_retains shortRun_reach rfl (by decide)⟩

end QuicRuby
