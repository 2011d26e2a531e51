/-
A caller of `write_nonblock` that asks again with what was not accepted,
against one blocking `write` of all of it: the same bytes end up queued,
and FIN is set by the call that accepts the last byte.
-/
import QuicRuby.StreamFacts

namespace QuicRuby

/-- The String after its first `n` bytes. -/
def RString.drop (s : RString) (n : Nat) : RString :=
  ⟨s.bytes.drop n, Nat.lt_of_le_of_lt (by simp) s.len_lt⟩

/-- The caller: the stream, what is still to be accepted, how many bytes were,
and whether the whole payload is. -/
structure Writer where
  stream : QuicStream
  rest : RString
  count : Nat := 0
  finished : Bool := false

/-- One call, with the window it sees. -/
def Writer.writeNonblock (p : Writer) (fin : Bool) (w : UInt64 × UInt64) : Except RubyError Nat × Writer :=
  match quicStreamWriteNonblockM p.stream p.rest fin w.1 w.2 with
  | (.ok n, s) => (.ok n, { stream := s, rest := p.rest.drop n, count := p.count + n, finished := n = p.rest.len })
  | (.error e, s) => (.error e, { p with stream := s })

/-- Calls until the whole payload is accepted or the windows run out. What a
call raises is ignored. -/
def Writer.reissue (fin : Bool) : List (UInt64 × UInt64) → Writer → Writer
  | [], p => p
  | w :: windows, p => if p.finished then p else Writer.reissue fin windows (p.writeNonblock fin w).2

/-- The caller before its first call. -/
def Writer.start (s : QuicStream) (data : RString) : Writer := { stream := s, rest := data }

/-- What a call does to a stream open for sending: it raises WaitWritable and
changes nothing, or accepts bytes, and queues FIN if they are the last. -/
theorem Writer.writeNonblock_cases {p : Writer} (ho : p.stream.sendOpen = true) (fin : Bool) (w : UInt64 × UInt64) :
    (∃ e, e.cls = .waitWritable ∧ p.writeNonblock fin w = (.error e, p)) ∨
    ∃ slice : RString, slice.bytes = p.rest.bytes.take slice.len ∧
      slice.len = nonblockTake p.stream p.rest w.1 w.2 ∧ (0 < p.rest.len → 0 < slice.len) ∧
      p.writeNonblock fin w = (.ok slice.len,
        { stream := p.stream.enqueued slice (fin && slice.len = p.rest.len)
          rest := p.rest.drop slice.len
          count := p.count + slice.len
          finished := slice.len = p.rest.len }) := by
  obtain ⟨-, -, text, he⟩ | ⟨hpos, slice, hb, hl, he⟩ := quicStreamWriteNonblockM_eq p.stream p.rest fin w.1 w.2
  · refine .inl ⟨.mkText .waitWritable text, rfl, ?_⟩
    rw [Writer.writeNonblock, he]
  · rw [← hl] at hb hpos he
    rw [quicStreamEnqueue_open ho] at he
    refine .inr ⟨slice, hb, hl, hpos, ?_⟩
    rw [Writer.writeNonblock, he]

/-- Where the caller is: the queue has what was accepted, the rest is what was
not, and FIN is queued with the last byte. -/
structure Writes (s : QuicStream) (data : RString) (fin : Bool) (p : Writer) : Prop where
  queue : p.stream.pendingChunks.flatten = s.pendingChunks.flatten ++ data.bytes.take p.count
  rest : p.rest.bytes = data.bytes.drop p.count
  count_le : p.count ≤ data.len
  finSent : p.stream.finSent = (fin && p.finished)
  all : p.finished = true → p.count = data.len
  sendOpen : p.finished = false → p.stream.sendOpen = true
  hasClient : p.stream.hasClient = s.hasClient

section
variable {s : QuicStream} {data : RString} {fin : Bool} {p : Writer}

theorem enqueued_flatten (s : QuicStream) (slice : RString) (fin : Bool) :
    (s.enqueued slice fin).pendingChunks.flatten = s.pendingChunks.flatten ++ slice.bytes := by
  simp only [QuicStream.enqueued]
  split
  · simp
  · next h =>
    have hnil : slice.bytes = [] := List.length_eq_zero_iff.1 (by simpa [RString.len] using h)
    simp [hnil]

theorem Writes.start (ho : s.sendOpen = true) : Writes s data fin (.start s data) where
  queue := by simp [Writer.start]
  rest := rfl
  count_le := Nat.zero_le _
  finSent := by simp [Writer.start, (sendOpen_iff.1 ho).2.2]
  all h := by cases h
  sendOpen _ := ho
  hasClient := rfl

/-- What is left is as long as what was not accepted. -/
theorem Writes.rest_len (h : Writes s data fin p) : p.rest.len = data.len - p.count := by
  rw [RString.len, h.rest, List.length_drop, RString.len]

/-- A call moves the caller on. -/
theorem Writes.writeNonblock (h : Writes s data fin p) (hnot : p.finished = false) (w : UInt64 × UInt64) :
    Writes s data fin (p.writeNonblock fin w).2 := by
  have ho := h.sendOpen hnot
  have hfin := (sendOpen_iff.1 ho).2.2
  have hrest := h.rest_len
  have hcount := h.count_le
  obtain ⟨e, -, he⟩ | ⟨slice, hb, hl, -, he⟩ := Writer.writeNonblock_cases ho fin w
  · rw [he]; exact h
  have hle : slice.len ≤ p.rest.len := by
    rw [hl, nonblockTake]
    split <;> omega
  rw [he]
  constructor
  · simp only [enqueued_flatten, h.queue, hb, h.rest, List.append_assoc, List.take_add]
  · simp only [RString.drop, h.rest, List.drop_drop]
  · dsimp only
    omega
  · simp only [QuicStream.enqueued, hfin, Bool.false_or]
  · intro hall
    have : slice.len = p.rest.len := by simpa using hall
    dsimp only
    omega
  · intro hpart
    have hne : ¬ slice.len = p.rest.len := by simpa using hpart
    simpa [QuicStream.enqueued, QuicStream.sendOpen, hne] using ho
  · exact h.hasClient

/-- **The caller's invariant**, over any sequence of windows. -/
theorem Writes.reissue (h : Writes s data fin p) (windows : List (UInt64 × UInt64)) :
    Writes s data fin (p.reissue fin windows) := by
  induction windows generalizing p with
  | nil => exact h
  | cons w windows ih =>
    rw [Writer.reissue]
    split
    · exact h
    · next hnot => exact ih (h.writeNonblock (by simpa using hnot) w)

end

end QuicRuby
