/-
The send queue is a send buffer: `@pending_chunks` with `pending_shifted`,
`acked_offset` and `sent_offset` hold an abstract `SendBuffer` as long as
fewer than 2^64 bytes are accepted, and enqueueing, accounting for a packet
and an acknowledgment are its three operations.

The C code works in `uint64_t`. The first section carries its two loops
over to numbers; below it no word arithmetic is left.
-/
import QuicRuby.Sending
import QuicRuby.Lib.ChunkQueue
import QuicRuby.Lib.SendBuffer

namespace QuicRuby

open Runs

/-! ## The loops over numbers -/

theorem toNat_ofNat_length {n : Nat} (h : n < 2 ^ 64) : (UInt64.ofNat n).toNat = n := by
  rw [UInt64.toNat_ofNat']
  omega

theorem toNat_add_length {a : UInt64} {n : Nat} (h : a.toNat + n < 2 ^ 64) :
    (a + UInt64.ofNat n).toNat = a.toNat + n := by
  rw [UInt64.toNat_add, toNat_ofNat_length (by omega)]
  omega

theorem walkPending_eq {cs : List (List UInt8)} (h : ∀ chunk ∈ cs, chunk.length < 2 ^ 64) (position : UInt64)
    (j : Nat) :
    walkPending cs position j =
      (ChunkQueue.locate cs position.toNat).map fun found => (j + found.1, found.2) := by
  induction cs generalizing position j with
  | nil => rfl
  | cons chunk rest ih =>
    have hlen : (UInt64.ofNat chunk.length).toNat = chunk.length :=
      toNat_ofNat_length (h chunk (List.mem_cons_self ..))
    simp only [walkPending, ChunkQueue.locate, UInt64.lt_iff_toNat_lt, hlen]
    split
    · rfl
    · next hge =>
      have hsub : (position - UInt64.ofNat chunk.length).toNat = position.toNat - chunk.length := by
        rw [UInt64.toNat_sub_of_le _ _ (by rw [UInt64.le_iff_toNat_le, hlen]; omega), hlen]
      rw [ih (fun c hc => h c (List.mem_cons_of_mem _ hc)), hsub, Option.map_map]
      congr 1
      funext found
      obtain ⟨i, c, off⟩ := found
      simp only [Function.comp_apply, Prod.mk.injEq, and_true]
      omega

/-- What the walk finds, in numbers: an unsent byte is one past the send
position. -/
theorem walkPending_none_iff {cs : List (List UInt8)} (h : ∀ chunk ∈ cs, chunk.length < 2 ^ 64)
    {position : UInt64} :
    walkPending cs position 0 = none ↔ cs.flatten.length ≤ position.toNat := by
  rw [walkPending_eq h, Option.map_eq_none_iff, ChunkQueue.locate_eq_none_iff]

theorem shiftAcked_eq (cs : List (List UInt8)) (shifted ackedOffset : UInt64)
    (h : shifted.toNat + cs.flatten.length < 2 ^ 64) :
    ((shiftAcked cs shifted ackedOffset).1, (shiftAcked cs shifted ackedOffset).2.toNat) =
      ChunkQueue.release cs shifted.toNat ackedOffset.toNat := by
  induction cs generalizing shifted with
  | nil => rfl
  | cons head rest ih =>
    simp only [List.flatten_cons, List.length_append] at h
    have hend : (shifted + UInt64.ofNat head.length).toNat = shifted.toNat + head.length :=
      toNat_add_length (by omega)
    simp only [shiftAcked, ChunkQueue.release, UInt64.le_iff_toNat_le, hend]
    split
    · rw [ih _ (by omega), hend]
    · rfl

/-! ## The queue the scheduler reads -/

/-- The chunks hold `accepted` from `pending_shifted` on, and what is unsent
starts among them. How much is accepted is not bounded. -/
structure Queued (s : QuicStream) (accepted : List UInt8) : Prop where
  chunk_lt : ∀ chunk ∈ s.pendingChunks, chunk.length < 2 ^ 64
  nonempty : ∀ chunk ∈ s.pendingChunks, chunk ≠ []
  chunks : s.pendingChunks.flatten = accepted.drop s.pendingShifted.toNat
  shifted_le : s.pendingShifted.toNat ≤ s.sentOffset.toNat
  sent_le : s.sentOffset.toNat ≤ accepted.length

/-- What there is to send next: from the send position to the end of the
chunk it is in, with FIN if that is all there will be; or FIN alone. -/
inductive Slice (s : QuicStream) (accepted : List UInt8) (args : WritevArgs) : Prop
  | data {before after : List (List UInt8)} {chunk : List UInt8} :
      s.pendingChunks = before ++ chunk :: after →
      s.pendingShifted.toNat + before.flatten.length ≤ s.sentOffset.toNat →
      s.sentOffset.toNat + args.datav.length = s.pendingShifted.toNat + (before ++ [chunk]).flatten.length →
      args.datavcnt = 1 → args.datav ≠ [] → args.datav <+: accepted.drop s.sentOffset.toNat →
      (args.fin = true ↔ s.finSent = true ∧ s.sentOffset.toNat + args.datav.length = accepted.length) →
      Slice s accepted args
  | finOnly : s.sentOffset.toNat = accepted.length → s.finSent = true → args.datavcnt = 0 → args.datav = [] →
      args.fin = true → Slice s accepted args

section
variable {s : QuicStream} {accepted : List UInt8}

/-- The chunks hold everything from `pending_shifted` on. -/
theorem Queued.chunks_length (h : Queued s accepted) :
    s.pendingShifted.toNat + s.pendingChunks.flatten.length = accepted.length := by
  have h₁ := h.shifted_le
  have h₂ := h.sent_le
  rw [h.chunks, List.length_drop]
  omega

/-- The unsigned subtraction of `quic_client_pick_send_stream` does not wrap. -/
theorem Queued.position (h : Queued s accepted) :
    (s.sentOffset - s.pendingShifted).toNat = s.sentOffset.toNat - s.pendingShifted.toNat :=
  UInt64.toNat_sub_of_le _ _ (UInt64.le_iff_toNat_le.2 h.shifted_le)

/-- What the chunks hold at the send position is what is unsent. -/
theorem Queued.drop_position (h : Queued s accepted) :
    s.pendingChunks.flatten.drop (s.sentOffset - s.pendingShifted).toNat = accepted.drop s.sentOffset.toNat := by
  have h₁ := h.shifted_le
  rw [h.position, h.chunks, List.drop_drop]
  congr 1
  omega

/-- What the walk over the chunks finds. -/
theorem Queued.walk (h : Queued s accepted) :
    walkPending s.pendingChunks (s.sentOffset - s.pendingShifted) 0 =
      ChunkQueue.locate s.pendingChunks (s.sentOffset - s.pendingShifted).toNat := by
  rw [walkPending_eq h.chunk_lt]
  simp

theorem Queued.walk_none (h : Queued s accepted) :
    walkPending s.pendingChunks (s.sentOffset - s.pendingShifted) 0 = none ↔
      s.sentOffset.toNat = accepted.length := by
  have hlen := h.chunks_length
  have h₁ := h.shifted_le
  have h₂ := h.sent_le
  rw [h.walk, ChunkQueue.locate_eq_none_iff, h.position]
  omega

/-- **What a stream offers**, when it offers something. -/
theorem Queued.slice (h : Queued s accepted) {args : WritevArgs} (ho : s.sendOffer = some args) :
    s.finFlushed = false ∧ Slice s accepted args := by
  simp only [QuicStream.sendOffer] at ho
  split at ho
  · cases ho
  next hflushed =>
  refine ⟨by simpa using hflushed, ?_⟩
  split at ho
  · next i chunk off hwalk =>
    cases ho
    rw [h.walk] at hwalk
    have hdrop := ChunkQueue.locate_drop hwalk
    rw [h.drop_position] at hdrop
    have hlen := h.chunks_length
    have hpos := h.position
    have h₁ := h.shifted_le
    obtain ⟨pre, post, hcs, hi, hoff, hat⟩ := ChunkQueue.locate_eq_some hwalk
    have hend : s.sentOffset.toNat + (chunk.drop off).length =
        s.pendingShifted.toNat + (pre ++ [chunk]).flatten.length := by
      simp only [List.flatten_append, List.flatten_cons, List.flatten_nil, List.append_nil, List.length_append,
        List.length_drop]
      omega
    refine .data hcs (by omega) hend rfl ?_ (by rw [hdrop]; exact List.take_prefix _ _) ?_
    · intro hnil
      have := List.drop_eq_nil_iff.1 hnil
      omega
    · simp only [Bool.and_eq_true, decide_eq_true_eq]
      refine and_congr_right fun _ => ⟨fun hlast => ?_, fun hall => ?_⟩
      · have := ChunkQueue.locate_last hwalk hlast
        omega
      · -- A chunk after this one would hold a byte past the end.
        rw [hcs, List.append_cons, List.flatten_append, List.length_append] at hlen
        cases post with
        | nil => simp [hcs, hi]
        | cons c post =>
          have := List.length_pos_iff.2 (h.nonempty c (by simp [hcs]))
          simp only [List.flatten_cons, List.length_append] at hlen hend
          omega
  · next hwalk =>
    split at ho
    · next hfin =>
      cases ho
      simp only [Bool.and_eq_true] at hfin
      exact .finOnly (h.walk_none.1 hwalk) hfin.1 rfl rfl rfl
    · cases ho

end

/-! ## The representation -/

/-- The sending half of `s` holds the buffer `b`. Nothing acknowledged is
kept beyond the chunk it ends in, and FIN is flushed only after all data. -/
structure Represents (s : QuicStream) (b : SendBuffer UInt8) : Prop where
  bound : b.accepted.length < 2 ^ 64
  sent : s.sentOffset.toNat = b.sent
  acked : s.ackedOffset.toNat = b.acked
  shifted_le : s.pendingShifted.toNat ≤ b.acked
  chunks : s.pendingChunks.flatten = b.accepted.drop s.pendingShifted.toNat
  nonempty : ∀ chunk ∈ s.pendingChunks, chunk ≠ []
  head : ∀ chunk ∈ s.pendingChunks.head?, b.acked < s.pendingShifted.toNat + chunk.length
  flushed : s.finFlushed = true → s.finSent = true ∧ b.sent = b.accepted.length

theorem Represents.new (id : Int) : Represents (quicStreamNew id) .empty :=
  ⟨by decide, rfl, rfl, Nat.le_refl _, rfl, by simp [quicStreamNew], by simp [quicStreamNew],
    by simp [quicStreamNew]⟩

section
variable {s s' : QuicStream} {b : SendBuffer UInt8}

theorem Represents.sameSend (h : Represents s b) (hs : SameSend s s') : Represents s' b where
  bound := h.bound
  sent := by rw [hs.sentOffset, h.sent]
  acked := by rw [hs.ackedOffset, h.acked]
  shifted_le := by rw [hs.pendingShifted]; exact h.shifted_le
  chunks := by rw [hs.pendingChunks, hs.pendingShifted, h.chunks]
  nonempty := by rw [hs.pendingChunks]; exact h.nonempty
  head := by rw [hs.pendingChunks, hs.pendingShifted]; exact h.head
  flushed := by rw [hs.finFlushed, hs.finSent]; exact h.flushed

/-- A send queue that holds a buffer is one the scheduler can read. -/
theorem Represents.queued (h : Represents s b) : Queued s b.accepted where
  chunk_lt chunk hm := by
    have hbound := h.bound
    have hle := (List.sublist_flatten_of_mem hm).length_le
    rw [h.chunks, List.length_drop] at hle
    omega
  nonempty := h.nonempty
  chunks := h.chunks
  shifted_le := by rw [h.sent]; exact Nat.le_trans h.shifted_le b.acked_le
  sent_le := by rw [h.sent]; exact b.sent_le

/-- **What a stream offers.** A non-empty run of what is unsent, with FIN
exactly if FIN is queued and the run goes to the end; or FIN alone, when
all is sent. -/
theorem Represents.offer (h : Represents s b) {args : WritevArgs} (ho : s.sendOffer = some args) :
    s.finFlushed = false ∧ args.datav <+: b.unsent ∧
      (args.datavcnt = 1 ∧ args.datav ≠ [] ∧
          (args.fin = true ↔ s.finSent = true ∧ b.sent + args.datav.length = b.accepted.length) ∨
        args.datavcnt = 0 ∧ args.datav = [] ∧ args.fin = true ∧ s.finSent = true ∧
          b.sent = b.accepted.length) := by
  obtain ⟨hflushed, hslice⟩ := h.queued.slice ho
  refine ⟨hflushed, ?_⟩
  rw [SendBuffer.unsent, ← h.sent]
  cases hslice with
  | data _ _ _ hcnt hne hpre hfin => exact ⟨hpre, .inl ⟨hcnt, hne, hfin⟩⟩
  | finOnly hall hsent hcnt hnil hfin => exact ⟨hnil ▸ List.nil_prefix, .inr ⟨hcnt, hnil, hfin, hsent, hall⟩⟩

/-! ## The operations -/

theorem Represents.enqueued (h : Represents s b) (ho : s.sendOpen = true) {data : RString} (fin : Bool)
    (hbound : b.accepted.length + data.len < 2 ^ 64) :
    Represents (s.enqueued data fin) (b.accept data.bytes) := by
  have hlen := h.queued.chunks_length
  have h₁ := h.shifted_le
  have h₂ := b.acked_le
  have h₃ := b.sent_le
  have hopen : s.finFlushed = false := by
    have hfin := (sendOpen_iff.1 ho).2.2
    cases hf : s.finFlushed with
    | false => rfl
    | true => rw [(h.flushed hf).1] at hfin; cases hfin
  refine ⟨?_, h.sent, h.acked, h.shifted_le, ?_, ?_, ?_, ?_⟩
  · simpa [SendBuffer.accept, RString.len] using hbound
  · simp only [QuicStream.enqueued, SendBuffer.accept]
    rw [List.drop_append_of_le_length (by omega), ← h.chunks]
    split
    · simp
    · next h0 =>
      have hnil : data.bytes = [] := by simpa [RString.len] using h0
      rw [hnil, List.append_nil]
  · intro chunk hm
    simp only [QuicStream.enqueued] at hm
    split at hm
    · next hpos =>
      rw [List.mem_append, List.mem_singleton] at hm
      rcases hm with hm | rfl
      · exact h.nonempty chunk hm
      · exact List.length_pos_iff.1 hpos
    · exact h.nonempty chunk hm
  · intro chunk hm
    simp only [QuicStream.enqueued, SendBuffer.accept] at hm ⊢
    split at hm
    · next hpos =>
      cases hcs : s.pendingChunks with
      | nil =>
        -- The queue was empty, so all that was accepted is acknowledged.
        simp only [hcs, List.nil_append, List.head?_cons, Option.mem_some] at hm
        subst hm
        simp only [hcs, List.flatten_nil, List.length_nil, RString.len] at hlen hpos
        omega
      | cons c cs =>
        simp only [hcs, List.cons_append, List.head?_cons, Option.mem_some] at hm
        subst hm
        exact h.head c (by simp [hcs])
    · exact h.head chunk hm
  · intro hf
    rw [show (s.enqueued data fin).finFlushed = s.finFlushed from rfl, hopen] at hf
    cases hf

theorem toNat_ofInt_of_pos {p : Int} (h : 0 < p) (hlt : p < 2 ^ 64) : (UInt64.ofInt p).toNat = p.toNat := by
  rw [UInt64.ofInt, toNat_ofNat_length (by omega), Int.emod_eq_of_lt (by omega) hlt]

/-- The account of a packet: the next `pdatalen` unsent bytes are sent. -/
theorem Represents.afterWritev (h : Represents s b) {args : WritevArgs} {answer : WritevAnswer}
    (ho : s.sendOffer = some args) (hp : answer.fits args = true) :
    ∃ k, ∃ hk : k ≤ b.unsent.length, answer.framed args = b.unsent.take k ∧
      Represents (s.afterWritev args answer) (b.frame k hk) := by
  obtain ⟨hopen, hpre, hcases⟩ := h.offer ho
  have hle : args.datav.length ≤ b.unsent.length := hpre.length_le
  have hunsent := b.unsent_length
  have hsent := b.sent_le
  have hbound := h.bound
  have hfin : args.fin = true → s.finSent = true ∧ b.sent + args.datav.length = b.accepted.length := by
    intro hf
    rcases hcases with ⟨-, -, hiff⟩ | ⟨-, hnil, -, hs, he⟩
    · exact hiff.1 hf
    · exact ⟨hs, by simpa [hnil] using he⟩
  cases hres : answer.result with
  | error rv =>
    refine ⟨0, Nat.zero_le _, by simp [WritevAnswer.framed, hres], ?_⟩
    rw [SendBuffer.frame_of_eq_zero _ rfl]
    simpa only [QuicStream.afterWritev, hres] using h
  | ok packet =>
    simp only [WritevAnswer.fits, hres, decide_eq_true_eq] at hp
    have htake : answer.framed args = b.unsent.take answer.pdatalen.toNat := by
      simp only [WritevAnswer.framed, hres]
      obtain ⟨rest, hrest⟩ := hpre
      rw [← hrest, List.take_append_of_le_length (by omega)]
    refine ⟨answer.pdatalen.toNat, by omega, htake, ?_⟩
    by_cases hpos : 0 < answer.pdatalen
    · -- Data was framed; FIN with it if that is all of the slice.
      have hsum : (s.sentOffset + UInt64.ofInt answer.pdatalen).toNat = b.sent + answer.pdatalen.toNat := by
        rw [UInt64.toNat_add, toNat_ofInt_of_pos hpos (by omega), h.sent]
        omega
      simp only [QuicStream.afterWritev, hres, QuicStream.accountWritev, hpos, if_true]
      split
      · next hall =>
        simp only [Bool.and_eq_true, decide_eq_true_eq] at hall
        obtain ⟨hs, he⟩ := hfin hall.1
        exact ⟨h.bound, hsum, h.acked, h.shifted_le, h.chunks, h.nonempty, h.head,
          fun _ => ⟨hs, by simp only [SendBuffer.frame]; omega⟩⟩
      · exact ⟨h.bound, hsum, h.acked, h.shifted_le, h.chunks, h.nonempty, h.head,
          fun hf => by rw [show s.finFlushed = true from hf] at hopen; cases hopen⟩
    · rw [SendBuffer.frame_of_eq_zero _ (by omega)]
      simp only [QuicStream.afterWritev, hres, QuicStream.accountWritev, hpos, if_false]
      split
      · next halone =>
        -- FIN alone was offered, which happens only when all is sent.
        simp only [Bool.and_eq_true, decide_eq_true_eq] at halone
        rcases hcases with ⟨hcnt, -, -⟩ | ⟨-, -, -, hs, he⟩
        · omega
        · exact ⟨h.bound, h.sent, h.acked, h.shifted_le, h.chunks, h.nonempty, h.head, fun _ => ⟨hs, he⟩⟩
      · exact h

theorem Represents.ack (h : Represents s b) {datalen : UInt64} (hle : b.acked + datalen.toNat ≤ b.sent) :
    Represents (s.ackedStreamDataOffset datalen) (b.ack datalen.toNat hle) := by
  have hlen := h.queued.chunks_length
  have hbound := h.bound
  have hsent := b.sent_le
  have hacked : (s.ackedOffset + datalen).toNat = b.acked + datalen.toNat := by
    rw [UInt64.toNat_add, h.acked]
    omega
  have hshift := shiftAcked_eq s.pendingChunks s.pendingShifted (s.ackedOffset + datalen) (by omega)
  rw [hacked] at hshift
  rcases hq : shiftAcked s.pendingChunks s.pendingShifted (s.ackedOffset + datalen) with ⟨rest, shifted⟩
  rw [hq] at hshift
  obtain ⟨⟨pre, hcs, hbase⟩, hmark, hhead⟩ := ChunkQueue.release_eq hshift.symm
  have hchunks := h.chunks
  have hshifted := h.shifted_le
  simp only [QuicStream.ackedStreamDataOffset, hq]
  refine ⟨h.bound, h.sent, hacked, hmark (by omega), ?_, ?_, hhead, h.flushed⟩
  · show rest.flatten = b.accepted.drop shifted.toNat
    rw [hbase, ← List.drop_drop, ← hchunks, hcs, List.flatten_append, List.drop_left]
  · intro chunk hm
    exact h.nonempty chunk (by rw [hcs]; exact List.mem_append_right _ hm)

end

end QuicRuby
