/-
The memory lent to ngtcp2. `writev_stream` is given a pointer into a chunk, and
for what it framed ngtcp2 keeps the pointer, to send the bytes again if they
are lost, until they are acknowledged.

So the chunk has to be there until then, and its bytes where they were. CRuby
keeps the bytes of a short String in its object, and `GC.compact` moves
objects; nothing in the extension pins a chunk. What is lent is right all
along a run if and only if no compaction moves a chunk of which ngtcp2 still
has something unacknowledged.
-/
import QuicRuby.Chunks

namespace QuicRuby

open Runs Ownership BlockLog

/-- `len` bytes of a chunk, from `offset` on, that were framed as the bytes of
the stream from `start` on. ngtcp2 has the address the String's bytes had. -/
structure Loan where
  ref : Nat
  start : Nat
  len : Nat
  chunk : Nat
  offset : Nat
  addr : Nat
deriving DecidableEq, Repr

/-- The client and its Strings, where the bytes of each String are, and what
was lent. -/
structure MemoryWorld where
  strings : StringWorld := {}
  place : Nat → Nat := fun _ => 0
  loans : List Loan := []

/-- A call, with the places after it, or a compaction. -/
inductive MemoryEvent
  | call (e : StringEvent) (place : Nat → Nat)
  | compact (place : Nat → Nat)

def StringWorld.sentOffset (w : StringWorld) (ref : Nat) : UInt64 :=
  (w.objs[ref]?.map fun o => o.struct.sentOffset).getD 0

/-- What a `writev_stream` that frames data keeps of the slice. -/
def lentBy (place : Nat → Nat) (w : StringWorld) (answer : WritevAnswer) : List Loan :=
  match Strings.quicClientPickSendStream w, answer.result with
  | some (ref, p), .ok _ =>
    match p.base with
    | some (chunk, offset) =>
      if 0 < answer.pdatalen then
        [{ ref
           start := (w.sentOffset ref).toNat
           len := answer.pdatalen.toNat
           chunk
           offset
           addr := place chunk }]
      else []
    | none => []
  | _, _ => []

/-- What a call lends. -/
def lent (place : Nat → Nat) (w : StringWorld) : StringEvent → List Loan
  | .writePkt buffer answer =>
    match Strings.writeBuffer w.heap buffer with
    | .ok (_, h) => lentBy place { w with heap := h } answer
    | .error _ => []
  | _ => []

namespace MemoryWorld

/-- ngtcp2 may still send the bytes again. -/
def outstanding (m : MemoryWorld) (loan : Loan) : Bool :=
  m.strings.objs[loan.ref]?.any fun o => o.struct.ackedOffset.toNat < loan.start + loan.len

/-- The chunks of a stream. -/
def chunks (m : MemoryWorld) (ref : Nat) : List Nat := (m.strings.objs[ref]?.map (·.pendingChunks)).getD []

/-- The bytes lent, as the chunk has them now. -/
def bytes (m : MemoryWorld) (loan : Loan) : List UInt8 :=
  ((m.strings.heap.str loan.chunk).bytes.drop loan.offset).take loan.len

/-- What ngtcp2 finds at the address it has. -/
def read (m : MemoryWorld) (loan : Loan) : Option (List UInt8) :=
  ((List.range m.strings.heap.length).find? fun v => m.place v = loan.addr).map fun v =>
    ((m.strings.heap.str v).bytes.drop loan.offset).take loan.len

/-- What the calls of an event are by value. -/
def clientTrace (m : MemoryWorld) : MemoryEvent → ClientTrace
  | .call e _ => valueTrace m.strings e
  | .compact _ => []

end MemoryWorld

def memoryStep (m : MemoryWorld) : MemoryEvent → Option (StringReply × MemoryWorld)
  | .call e place =>
    (stringStep m.strings e).map fun (r, w) =>
      (r, { strings := w, place, loans := m.loans ++ lent m.place m.strings e })
  | .compact place => some (.ok .nil, { m with place })

/-- What the client did, by value. -/
def memoryTrace (tr : Trace MemoryEvent StringReply) : ClientTrace :=
  unfolded memoryStep MemoryWorld.clientTrace {} tr

/-! ## What Ruby and ngtcp2 promise -/

/-- The Strings a call may write to. -/
def StringWorld.writable (w : StringWorld) : List Nat := w.owned ++ w.objs.map (·.recvBuffer)

/-- Two Strings are never in one place. -/
def Apart (place : Nat → Nat) (n : Nat) : Prop := ∀ u < n, ∀ v < n, place u = place v → u = v

instance (place : Nat → Nat) (n : Nat) : Decidable (Apart place n) :=
  inferInstanceAs (Decidable (∀ u < n, ∀ v < n, place u = place v → u = v))

/-- A String that is not written to stays where it is, but for a compaction;
and that moves only Strings whose bytes, by their length, are embedded in the
object. -/
def PlaceContract (embedded : Nat → Bool) : Contract MemoryWorld MemoryEvent StringReply := fun _ m e =>
  match e with
  | .call e place =>
    (∀ v < m.strings.heap.length, v ∉ m.strings.writable → place v = m.place v) ∧
      Apart place (((stringStep m.strings e).map fun x => x.2.heap.length).getD 0)
  | .compact place =>
    (∀ v < m.strings.heap.length, embedded (m.strings.heap.str v).len = false → place v = m.place v) ∧
      Apart place m.strings.heap.length

/-- ngtcp2 keeps its promises on sending, and fewer than 2^64 bytes are
accepted on a stream. -/
def LentContract : Contract MemoryWorld MemoryEvent StringReply := fun tr m e =>
  keeps step SendContract (memoryTrace tr) m.strings.value (m.clientTrace e) = true ∧
    ∀ ref, (accepted (memoryTrace tr ++ m.clientTrace e) ref).length < 2 ^ 64

/-- No compaction moves a chunk of which something lent is outstanding. -/
def Unmoved : Contract MemoryWorld MemoryEvent StringReply := fun _ m e =>
  match e with
  | .call _ _ => True
  | .compact place => ∀ loan ∈ m.loans, m.outstanding loan = true → place loan.chunk = m.place loan.chunk

instance (embedded : Nat → Bool) : ∀ tr m e, Decidable (PlaceContract embedded tr m e) := fun _ m e =>
  match e with
  | .call e place =>
    inferInstanceAs (Decidable ((∀ v < m.strings.heap.length, v ∉ m.strings.writable → place v = m.place v) ∧
      Apart place (((stringStep m.strings e).map fun x => x.2.heap.length).getD 0)))
  | .compact place =>
    inferInstanceAs (Decidable ((∀ v < m.strings.heap.length,
      embedded (m.strings.heap.str v).len = false → place v = m.place v) ∧ Apart place m.strings.heap.length))

/-- The object a call writes data to. -/
def Event.writer : Event → Option Nat
  | .write ref _ _ _ _ | .writeNonblock ref _ _ _ _ => some ref
  | _ => none

def writers (tr : ClientTrace) : List Nat := tr.filterMap fun x => x.1.writer

theorem accepted_of_not_writer {tr : ClientTrace} {ref : Nat} (hno : ref ∉ writers tr) : accepted tr ref = [] := by
  refine List.flatMap_eq_nil_iff.2 fun x hx => ?_
  have hne : x.1.writer ≠ some ref := fun h => hno (List.mem_filterMap.2 ⟨x, hx, h⟩)
  unfold acceptedBy
  split
  · exact if_neg fun h => hne (congrArg some h)
  · exact if_neg fun h => hne (congrArg some h)
  · rfl

instance (tr : ClientTrace) : Decidable (∀ ref, (accepted tr ref).length < 2 ^ 64) :=
  decidable_of_iff (∀ ref ∈ writers tr, (accepted tr ref).length < 2 ^ 64) (by
    refine ⟨fun h ref => ?_, fun h ref _ => h ref⟩
    by_cases hm : ref ∈ writers tr
    · exact h ref hm
    · rw [accepted_of_not_writer hm]
      decide)

instance : ∀ tr m e, Decidable (LentContract tr m e) := fun tr m e =>
  inferInstanceAs (Decidable (keeps step SendContract (memoryTrace tr) m.strings.value (m.clientTrace e) = true ∧
    ∀ ref, (accepted (memoryTrace tr ++ m.clientTrace e) ref).length < 2 ^ 64))

instance : ∀ tr m e, Decidable (Unmoved tr m e) := fun _ m e =>
  match e with
  | .call _ _ => inferInstanceAs (Decidable True)
  | .compact place => inferInstanceAs (Decidable
      (∀ loan ∈ m.loans, m.outstanding loan = true → place loan.chunk = m.place loan.chunk))

/-- Every outstanding loan is where ngtcp2 believes it is. -/
def MemoryWorld.Pinned (m : MemoryWorld) : Prop :=
  ∀ loan ∈ m.loans, m.outstanding loan = true → m.place loan.chunk = loan.addr
/-! ## A chunk and what is lent of it -/

/-- The walk ends in the chunk that holds the position. -/
theorem walkPending_cells {h : Heap} {chunks : List Nat} {position : UInt64} {j i v off : Nat}
    (hw : Strings.walkPending h chunks position j = some (i, v, off)) :
    ∃ pre post, (chunks.map fun v => (v, (h.str v).bytes)) = pre ++ (v, (h.str v).bytes) :: post ∧
      (flat pre).length + off = position.toNat ∧ off < (h.str v).bytes.length := by
  induction chunks generalizing position j with
  | nil => cases hw
  | cons chunk tail ih =>
    have hbound := (h.str chunk).len_lt
    have hlen : (UInt64.ofNat (h.str chunk).len).toNat = (h.str chunk).bytes.length :=
      toNat_ofNat_length (by simp only [RString.len] at hbound ⊢; omega)
    simp only [Strings.walkPending] at hw
    split at hw
    · next hlt =>
      cases hw
      rw [UInt64.lt_iff_toNat_lt, hlen] at hlt
      exact ⟨[], _, rfl, by simp, hlt⟩
    · next hge =>
      have hle : UInt64.ofNat (h.str chunk).len ≤ position := UInt64.not_lt.1 hge
      have hsub := UInt64.toNat_sub_of_le _ _ hle
      rw [UInt64.le_iff_toNat_le, hlen] at hle
      obtain ⟨pre, post, hcells, hpos, hoff⟩ := ih hw
      refine ⟨(chunk, (h.str chunk).bytes) :: pre, post, by rw [List.map_cons, hcells, List.cons_append], ?_, hoff⟩
      simp only [flat_cons, List.length_append]
      omega

theorem pick_spec_strings {w : StringWorld} {ref : Nat} {p : Strings.Pick}
    (hp : Strings.quicClientPickSendStream w = some (ref, p)) :
    ∃ o, w.objs[ref]? = some o ∧ Strings.sendOffer w.heap o = some p := by
  obtain ⟨ref', -, hmap⟩ := List.exists_of_findSome?_eq_some hp
  obtain ⟨p', hbind, heq⟩ := Option.map_eq_some_iff.1 hmap
  cases heq
  exact Option.bind_eq_some_iff.1 hbind

theorem sendOffer_base {h : Heap} {o : StreamObject} {p : Strings.Pick} (ho : Strings.sendOffer h o = some p)
    {chunk offset : Nat} (hb : p.base = some (chunk, offset)) :
    ∃ i, Strings.walkPending h o.pendingChunks (o.struct.sentOffset - o.struct.pendingShifted) 0 =
      some (i, chunk, offset) := by
  unfold Strings.sendOffer at ho
  split at ho
  · cases ho
  dsimp only at ho
  split at ho
  · next i v off hwalk =>
    cases ho
    cases hb
    exact ⟨i, hwalk⟩
  · split at ho <;> cases ho
    cases hb

/-- What a loan is, in a log of the chunks of its stream. -/
def Loan.Placed (loan : Loan) (log : List (Nat × List UInt8)) : Prop :=
  ∃ bytes pos, At log (loan.chunk, bytes) pos ∧ pos + loan.offset = loan.start ∧
    loan.offset + loan.len ≤ bytes.length

/-- How a loan is made. -/
structure Lends (place : Nat → Nat) (w : StringWorld) (answer : WritevAnswer) (loan : Loan) (o : StreamObject)
    (p : Strings.Pick) : Prop where
  object : w.objs[loan.ref]? = some o
  pick : Strings.quicClientPickSendStream w = some (loan.ref, p)
  base : p.base = some (loan.chunk, loan.offset)
  ok : ∃ packet, answer.result = .ok packet
  start : loan.start = o.struct.sentOffset.toNat
  len : loan.len = answer.pdatalen.toNat
  addr : loan.addr = place loan.chunk

/-- The chunk lent is one of the stream's, and holds the position at which there
is something to send. -/
theorem Lends.cells {place : Nat → Nat} {w : StringWorld} {answer : WritevAnswer} {loan : Loan} {o : StreamObject}
    {p : Strings.Pick} (hl : Lends place w answer loan o p) :
    ∃ pre post, o.cells w.heap = pre ++ (loan.chunk, (w.heap.str loan.chunk).bytes) :: post ∧
      (flat pre).length + loan.offset = (o.struct.sentOffset - o.struct.pendingShifted).toNat ∧
      loan.offset < (w.heap.str loan.chunk).bytes.length := by
  obtain ⟨o', ho', hoffer⟩ := pick_spec_strings hl.pick
  obtain rfl := Option.some.inj (hl.object.symm.trans ho')
  obtain ⟨i, hwalk⟩ := sendOffer_base hoffer hl.base
  exact walkPending_cells hwalk

theorem lentBy_lends {place : Nat → Nat} {w : StringWorld} {answer : WritevAnswer} {loan : Loan}
    (hl : loan ∈ lentBy place w answer) : ∃ o p, Lends place w answer loan o p := by
  unfold lentBy at hl
  split at hl
  · next ref p packet hpick hres =>
    split at hl
    · next chunk offset hbase =>
      split at hl
      · obtain rfl := List.mem_singleton.1 hl
        obtain ⟨o, ho, hoffer⟩ := pick_spec_strings hpick
        exact ⟨o, p, ho, hpick, hbase, ⟨packet, hres⟩, by simp [StringWorld.sentOffset, ho], rfl, rfl⟩
      · cases hl
    · cases hl
  · cases hl

section
variable {place : Nat → Nat} {w w' : StringWorld} {answer : WritevAnswer} {loan : Loan} {o : StreamObject}
  {p : Strings.Pick} {log : List (Nat × List UInt8)} {b : SendBuffer UInt8} {tr tr' : ClientTrace}

/-- What is dropped of the log of a stream is what `pending_shifted` says. -/
theorem Represents.dropped (hb : Represents (o.value w.heap) b) (hlog : Log log (o.cells w.heap) b.accepted) :
    ∃ dropped, log = dropped ++ o.cells w.heap ∧ (flat dropped).length = o.struct.pendingShifted.toNat := by
  obtain ⟨dropped, rfl, hlen⟩ := hlog.dropped
  have hchunks := hb.queued.chunks_length
  rw [StreamObject.flat_cells] at hlen
  exact ⟨dropped, rfl, by simp only [StreamObject.value] at hchunks hlen; omega⟩

/-- The slice offered starts at `sent_offset` of the stream. -/
theorem Lends.placed (hl : Lends place w answer loan o p) (hb : Represents (o.value w.heap) b)
    (hfits : answer.fits w.value.writevArgs = true) (hlog : Log log (o.cells w.heap) b.accepted) :
    loan.Placed log := by
  obtain ⟨pre, post, hcells, hpos, hoff⟩ := hl.cells
  obtain ⟨dropped, rfl, hdropped⟩ := hb.dropped hlog
  have hposition := hb.queued.position
  have hshifted := hb.queued.shifted_le
  simp only [StreamObject.value] at hposition hshifted
  refine ⟨(w.heap.str loan.chunk).bytes, (flat dropped).length + (flat pre).length,
    ⟨dropped ++ pre, post, ?_, by simp⟩, ?_, ?_⟩
  · rw [hcells, List.append_assoc]
  · rw [hl.start, hdropped]
    omega
  · obtain ⟨packet, hres⟩ := hl.ok
    have hargs : w.value.writevArgs = p.args w.heap := by
      rw [StringWorld.writevArgs_value, Strings.writevArgs, hl.pick]
      rfl
    simp only [WritevAnswer.fits, hres, hargs, Strings.Pick.args, hl.base, Option.map_some, Option.getD_some,
      List.length_drop, decide_eq_true_eq] at hfits
    rw [hl.len]
    omega

/-- A loan is in a log of which the chunks of its stream are the end. -/
def Backed (tr : ClientTrace) (w : StringWorld) (loan : Loan) : Prop :=
  ∃ o log, w.objs[loan.ref]? = some o ∧ Log log (o.cells w.heap) (accepted tr loan.ref) ∧ loan.Placed log

theorem Backed.slid (h : Backed tr w loan) (hs : w.Slid w' tr') : Backed (tr ++ tr') w' loan := by
  obtain ⟨o, log, ho, hlog, bytes, pos, hat, hstart, hlen⟩ := h
  obtain ⟨o', new, ho', hslides, hacc⟩ := hs loan.ref o ho
  refine ⟨o', log ++ new, ho', ?_, bytes, pos, hat.append new, hstart, hlen⟩
  have haccepted : accepted (tr ++ tr') loan.ref = accepted tr loan.ref ++ flat new := by
    rw [hacc, accepted, accepted, accepted, List.flatMap_append]
  rw [haccepted]
  exact hlog.slide hslides

/-- What is lent now is backed, by a log made up from what is left. -/
theorem Lends.backed (hl : Lends place w answer loan o p) (hb : Represents (o.value w.heap) b)
    (hacc : b.accepted = accepted tr loan.ref) (hfits : answer.fits w.value.writevArgs = true) :
    Backed tr w loan := by
  have hlog : Log ((0, b.accepted.take o.struct.pendingShifted.toNat) :: o.cells w.heap) (o.cells w.heap)
      b.accepted := by
    refine ⟨List.suffix_cons _ _, ?_⟩
    rw [flat_cons, StreamObject.flat_cells, hb.chunks]
    exact List.take_append_drop _ _
  exact ⟨o, _, hl.object, hacc ▸ hlog, hl.placed hb hfits hlog⟩

/-- **What is outstanding is there**, and as it was accepted. -/
theorem Backed.held (h : Backed tr w loan) (ho : w.objs[loan.ref]? = some o) (hb : Represents (o.value w.heap) b)
    (hacc : b.accepted = accepted tr loan.ref) (hout : o.struct.ackedOffset.toNat < loan.start + loan.len) :
    loan.chunk ∈ o.pendingChunks ∧ ((w.heap.str loan.chunk).bytes.drop loan.offset).take loan.len =
      ((accepted tr loan.ref).drop loan.start).take loan.len := by
  obtain ⟨o', log, ho', hlog, bytes, pos, hat, hstart, hlen⟩ := h
  obtain rfl := Option.some.inj (ho.symm.trans ho')
  have hread := hat.read hlen
  obtain ⟨dropped, rfl, hdropped⟩ := hb.dropped (hacc ▸ hlog)
  have hshifted := hb.shifted_le
  have hacked := hb.acked
  simp only [StreamObject.value] at hshifted hacked
  obtain ⟨hchunk, hbytes⟩ := StreamObject.mem_cells (hat.kept (by dsimp only; omega))
  rw [hlog.holds, hstart] at hread
  rw [hbytes]
  exact ⟨hchunk, hread⟩

end

/-! ## The client by value -/

section
variable {tr tr' : ClientTrace} {c c' : Client} {ref : Nat} {s s' : QuicStream} {e : Event} {acc fr : List UInt8}
  {ff : Bool} {ak : Nat}

theorem SendMove.ackedOffset (hm : SendMove c ref s e acc fr ff ak s') : s'.ackedOffset = s.ackedOffset ∨
    ∃ offset datalen, c.streams.aref s.streamId = some ref ∧
      e = .callback (.ackedStreamDataOffset s.streamId offset datalen) ∧
      s'.ackedOffset = s.ackedOffset + datalen := by
  cases hm with
  | idle hsame => exact .inl hsame.ackedOffset
  | accept data fin _ => exact .inl rfl
  | frame buffer answer _ _ _ =>
    left
    unfold QuicStream.afterWritev QuicStream.accountWritev
    cases answer.result with
    | error rv => rfl
    | ok packet => dsimp only; split <;> [split; split] <;> rfl
  | ack offset datalen hreg => exact .inr ⟨offset, datalen, hreg, rfl, rfl⟩

theorem SendMove.sentOffset (hm : SendMove c ref s e acc fr ff ak s') : s'.sentOffset = s.sentOffset ∨
    ∃ args buffer answer, e = .writePkt buffer answer ∧ buffer ≠ some .other ∧
      quicClientPickSendStream c = some (ref, args) ∧ s.sendOffer = some args ∧ s' = s.afterWritev args answer := by
  cases hm with
  | idle hsame => exact .inl hsame.sentOffset
  | accept data fin _ => exact .inl rfl
  | frame buffer answer hb hpick ho => exact .inr ⟨_, buffer, answer, rfl, hb, hpick, ho, rfl⟩
  | ack offset datalen _ => exact .inl rfl

/-- A step acknowledges no less than before. -/
theorem acked_step (h : Reach SendContract tr c) {r : Reply} (hk : SendContract tr c e)
    (hst : step c e = some (r, c')) (hs : c.objs[ref]? = some s) (hlt : (accepted tr ref).length < 2 ^ 64) :
    ∃ s', c'.objs[ref]? = some s' ∧ s.ackedOffset.toNat ≤ s'.ackedOffset.toNat := by
  obtain ⟨s', hs', hm⟩ := step_send (Reach.registered SendContract.fresh h) hst hs
  refine ⟨s', hs', ?_⟩
  rcases hm.ackedOffset with hsame | ⟨offset, datalen, hreg, rfl, hacked'⟩
  · rw [hsame]
  · -- What is acknowledged was framed, so the sum does not wrap.
    obtain ⟨b, hb⟩ := h.tracks hs hlt
    have hpromise := hk.2
    simp only [keepsSendPromise, decide_eq_true_eq, ← hb.acked_eq hreg, ← hb.framed_eq,
      SendBuffer.framed_length] at hpromise
    have hacked := hb.represents.acked
    have hbound := hb.represents.bound
    have hle := b.sent_le
    rw [hacked', UInt64.toNat_add]
    omega

theorem acked_mono (h : Reach SendContract tr c) (hs : Steps step SendContract tr c tr' c')
    (hget : c.objs[ref]? = some s) (hlt : (accepted tr' ref).length < 2 ^ 64) :
    ∃ s', c'.objs[ref]? = some s' ∧ s.ackedOffset.toNat ≤ s'.ackedOffset.toNat := by
  induction hs with
  | refl => exact ⟨s, hget, Nat.le_refl _⟩
  | tail hs hk hst ih =>
    rw [accepted_snoc, List.length_append] at hlt
    obtain ⟨s₁, hs₁, hle⟩ := ih (by omega)
    obtain ⟨s₂, hs₂, hle'⟩ := acked_step (h.trans hs) hk hst hs₁ (by omega)
    exact ⟨s₂, hs₂, Nat.le_trans hle hle'⟩

/-- An object after a step is new, or has sent what it had, or was picked. -/
theorem sent_step (hreg : Registered c) {r : Reply} (hst : step c e = some (r, c')) (hs' : c'.objs[ref]? = some s') :
    s'.sentOffset = 0 ∨ ∃ s, c.objs[ref]? = some s ∧ (s'.sentOffset = s.sentOffset ∨
      ∃ args buffer answer, e = .writePkt buffer answer ∧ buffer ≠ some .other ∧
        quicClientPickSendStream c = some (ref, args) ∧ s.sendOffer = some args ∧
        s' = s.afterWritev args answer) := by
  rcases (step_after hst).get_inv hs' with ⟨s, hs, -⟩ | ⟨-, id, -, rfl⟩
  · obtain ⟨s₁, hs₁, hm⟩ := step_send hreg hst hs
    obtain rfl := Option.some.inj (hs'.symm.trans hs₁)
    exact .inr ⟨s, hs, hm.sentOffset⟩
  · exact .inl rfl

/-- Without a `write_pkt` nothing is sent. -/
theorem sent_same {inner : ClientTrace} (h : Reach SendContract tr c)
    (hs : Steps step SendContract tr c (tr ++ inner) c')
    (hno : ∀ x ∈ inner, ∀ buffer answer, x.1 ≠ .writePkt buffer answer) (hs' : c'.objs[ref]? = some s') :
    s'.sentOffset = 0 ∨ ∃ s, c.objs[ref]? = some s ∧ s'.sentOffset = s.sentOffset := by
  induction inner using List.reverseRecOn generalizing c' s' with
  | nil =>
    rw [List.append_nil] at hs
    obtain rfl := hs.det (.refl : Steps step SendContract tr c tr c)
    exact .inr ⟨s', hs', rfl⟩
  | append_singleton inner x ih =>
    obtain ⟨e, r⟩ := x
    rw [← List.append_assoc] at hs
    obtain ⟨c₁, h₁, hk, hst⟩ := hs.last (by simp)
    have hreg := Reach.registered SendContract.fresh (h.trans h₁)
    rcases sent_step hreg hst hs' with hzero | ⟨s₁, hs₁, heq | ⟨-, buffer, answer, he, -⟩⟩
    · exact .inl hzero
    · rw [heq]
      exact ih h₁ (fun x hx => hno x (List.mem_append_left _ hx)) hs₁
    · exact absurd he (hno (e, r) (by simp) buffer answer)

/-- `write_pkt` sends what it frames of the slice of the stream it picks. -/
theorem sent_writePkt (h : Reach SendContract tr c) {buffer : Option Encoding} {answer : WritevAnswer} {r : Reply}
    (hk : SendContract tr c (.writePkt buffer answer)) (hst : step c (.writePkt buffer answer) = some (r, c'))
    (hlt : (accepted tr ref).length < 2 ^ 64) (hs' : c'.objs[ref]? = some s') :
    s'.sentOffset = 0 ∨ ∃ s, c.objs[ref]? = some s ∧ (s'.sentOffset = s.sentOffset ∨
      ∃ args, buffer ≠ some .other ∧ quicClientPickSendStream c = some (ref, args) ∧
        s'.sentOffset.toNat = s.sentOffset.toNat + (answer.framed args).length) := by
  rcases sent_step (Reach.registered SendContract.fresh h) hst hs' with
    hzero | ⟨s, hs, hsame | ⟨args, buffer', answer', he, hb, hpick, ho, rfl⟩⟩
  · exact .inl hzero
  · exact .inr ⟨s, hs, .inl hsame⟩
  · cases he
    obtain ⟨b, hb'⟩ := h.tracks hs hlt
    have hfits : answer.fits args = true := writevArgs_of_pick hpick ▸ hk.2
    obtain ⟨k, hle, hframed, hrep⟩ := hb'.represents.afterWritev ho hfits
    refine .inr ⟨s, hs, .inr ⟨args, hb, hpick, ?_⟩⟩
    rw [hrep.sent, hb'.represents.sent, hframed, List.length_take, Nat.min_eq_left hle]
    rfl

end

/-! ## What a call lends -/

section
variable {w : StringWorld} {place : Nat → Nat} {loan : Loan} {buffer : Option Nat} {answer : WritevAnswer}

/-- A buffer of its own changes nothing for the streams. -/
theorem buffered (hfine : w.Fine) (hbuf : ∀ v ∈ buffer, v ∈ w.owned) {v : Nat} {h : Heap}
    (hb : Strings.writeBuffer w.heap buffer = .ok (v, h)) :
    buffer.map w.heap.encoding ≠ some .other ∧ { w with heap := h }.value = w.value ∧
      ∀ u ∈ w.internal, w.heap[u]? = h[u]? := by
  rcases StringWorld.writeBuffer_cases (h := w.heap) fun v hv => hfine.unlocked v (hbuf v hv) with
    ⟨u, rfl, -, he⟩ | ⟨rfl, he⟩ | ⟨u, rfl, henc, he⟩
  · rw [he] at hb; cases hb
  · rw [he] at hb
    cases hb
    exact ⟨by simp, (hfine.sep.alloc _).2, fun u hu => (List.getElem?_append_left (hfine.sep.good.lt hu)).symm⟩
  · rw [he] at hb
    cases hb
    exact ⟨by simp [henc], rfl, fun _ _ => rfl⟩

theorem lent_lends (hfine : w.Fine) (hbuf : ∀ v ∈ buffer, v ∈ w.owned)
    (hl : loan ∈ lent place w (.writePkt buffer answer)) :
    ∃ h o p, Lends place { w with heap := h } answer loan o p ∧ { w with heap := h }.value = w.value ∧
      ∀ u ∈ w.internal, w.heap[u]? = h[u]? := by
  unfold lent at hl
  cases hb : Strings.writeBuffer w.heap buffer with
  | error e => simp only [hb] at hl; cases hl
  | ok vh =>
    obtain ⟨v, h⟩ := vh
    simp only [hb] at hl
    obtain ⟨o, p, hlends⟩ := lentBy_lends hl
    obtain ⟨-, hvalue, hsame⟩ := buffered hfine hbuf hb
    exact ⟨h, o, p, hlends, hvalue, hsame⟩

/-- What is framed is lent. -/
theorem lent_framed (place : Nat → Nat) (hfine : w.Fine) (hbuf : ∀ v ∈ buffer, v ∈ w.owned)
    (henc : buffer.map w.heap.encoding ≠ some .other) {ref : Nat} {args : WritevArgs}
    (hpick : QuicRuby.quicClientPickSendStream w.value = some (ref, args)) (hfits : answer.fits args = true)
    (hpos : 0 < (answer.framed args).length) :
    ∃ loan ∈ lent place w (.writePkt buffer answer), loan.ref = ref ∧ loan.start = (w.sentOffset ref).toNat ∧
      loan.len = (answer.framed args).length := by
  obtain ⟨v, h, hb⟩ : ∃ v h, Strings.writeBuffer w.heap buffer = .ok (v, h) := by
    rcases StringWorld.writeBuffer_cases (h := w.heap) fun v hv => hfine.unlocked v (hbuf v hv) with
      ⟨u, rfl, hother, -⟩ | ⟨-, he⟩ | ⟨u, -, -, he⟩
    · exact absurd (by rw [Option.map_some, hother]) henc
    · exact ⟨_, _, he⟩
    · exact ⟨_, _, he⟩
  obtain ⟨-, hvalue, -⟩ := buffered hfine hbuf hb
  rw [← hvalue, StringWorld.pick_value] at hpick
  obtain ⟨⟨ref', p⟩, hp, heq⟩ := Option.map_eq_some_iff.1 hpick
  cases heq
  cases hres : answer.result with
  | error rv => simp [WritevAnswer.framed, hres] at hpos
  | ok packet =>
    simp only [WritevAnswer.framed, hres, WritevAnswer.fits, decide_eq_true_eq, List.length_take] at hpos hfits ⊢
    cases hbase : p.base with
    | none => simp [Strings.Pick.args, hbase] at hpos
    | some base =>
      obtain ⟨chunk, offset⟩ := base
      have hdatalen : 0 < answer.pdatalen := by omega
      refine ⟨⟨ref', (w.sentOffset ref').toNat, answer.pdatalen.toNat, chunk, offset, place chunk⟩, ?_, rfl, rfl,
        (Nat.min_eq_left (show answer.pdatalen.toNat ≤ _ by omega)).symm⟩
      simp only [lent, hb, lentBy, hp, hres, hbase, hdatalen, if_true]
      exact List.mem_singleton.2 rfl

/-- A chunk is a String no call writes to. -/
theorem chunk_kept (hsep : w.Sep) {ref : Nat} {o : StreamObject} (ho : w.objs[ref]? = some o) {v : Nat}
    (hv : v ∈ o.pendingChunks) : v < w.heap.length ∧ v ∉ w.owned ∧ v ∉ w.writable := by
  have hmem : v ∈ o.strings := List.mem_cons_of_mem _ hv
  have hin := StringWorld.mem_internal ho hmem
  refine ⟨hsep.good.lt hin, hsep.apart v hin, fun hw => ?_⟩
  rcases List.mem_append.1 hw with howned | hbuffer
  · exact hsep.apart v hin howned
  · obtain ⟨x, hx, rfl⟩ := List.mem_map.1 hbuffer
    obtain ⟨j, hj⟩ := List.mem_iff_getElem?.1 hx
    by_cases hij : ref = j
    · subst hij
      obtain rfl := Option.some.inj (ho.symm.trans hj)
      exact StreamObject.recvBuffer_ne (hsep.object ho).1 hv rfl
    · have hdisjoint := hsep.disjoint (StringWorld.strings_get ho) (StringWorld.strings_get hj) hij hmem
      exact hdisjoint List.mem_cons_self

end

/-! ## The memory over a run -/

/-- What holds of the memory, `vt` being what the client did by value. -/
structure MemoryWorld.Sound (vt : ClientTrace) (m : MemoryWorld) : Prop where
  fine : m.strings.Fine
  reach : Reach SendContract vt m.strings.value
  bound : ∀ ref, (accepted vt ref).length < 2 ^ 64
  backed : ∀ loan ∈ m.loans, Backed vt m.strings loan
  covered : ∀ (ref : Nat) o, m.strings.objs[ref]? = some o → ∀ i < o.struct.sentOffset.toNat,
    ∃ loan ∈ m.loans, loan.ref = ref ∧ loan.start ≤ i ∧ i < loan.start + loan.len
  apart : Apart m.place m.strings.heap.length

namespace MemoryWorld

theorem Sound.initial : Sound [] {} where
  fine := .initial
  reach := .refl
  bound _ := by simp [accepted]
  backed := List.forall_mem_nil _
  covered _ _ ho := by simp at ho
  apart _ hu := by cases hu

section
variable {vt : ClientTrace} {m : MemoryWorld} {e : StringEvent} {r : StringReply} {w : StringWorld} {loan : Loan}
  {place : Nat → Nat} {ref : Nat} {o : StreamObject}

theorem Sound.represents (h : m.Sound vt) (ho : m.strings.objs[ref]? = some o) :
    ∃ b, Represents (o.value m.strings.heap) b ∧ b.accepted = accepted vt ref := by
  obtain ⟨b, hb⟩ := h.reach.tracks (StringWorld.value_get ho) (h.bound ref)
  exact ⟨b, hb.represents, hb.accepted_eq⟩

theorem outstanding_iff : m.outstanding loan = true ↔
    ∃ o, m.strings.objs[loan.ref]? = some o ∧ o.struct.ackedOffset.toNat < loan.start + loan.len := by
  simp [outstanding, Option.any_eq_true]

/-- **What is outstanding** is in the chunks, and as it was accepted. -/
theorem Sound.held (h : m.Sound vt) (hl : loan ∈ m.loans) (hout : m.outstanding loan = true) :
    ∃ o, m.strings.objs[loan.ref]? = some o ∧ loan.chunk ∈ o.pendingChunks ∧
      m.bytes loan = ((accepted vt loan.ref).drop loan.start).take loan.len := by
  obtain ⟨o, ho, hacked⟩ := outstanding_iff.1 hout
  obtain ⟨b, hb, hacc⟩ := h.represents ho
  obtain ⟨hchunk, hbytes⟩ := (h.backed loan hl).held ho hb hacc hacked
  exact ⟨o, ho, hchunk, hbytes⟩

theorem Sound.inner (h : m.Sound vt) (hs : stringStep m.strings e = some (r, w))
    (hk : keeps step SendContract vt m.strings.value (valueTrace m.strings e) = true) :
    Steps step SendContract vt m.strings.value (vt ++ valueTrace m.strings e) w.value :=
  ((h.fine.step hs).2 vt).of_keeps_append hk

theorem valueTrace_writePkt {w w' : StringWorld} {buffer : Option Nat} {answer : WritevAnswer}
    (hs : stringStep w (.writePkt buffer answer) = some (r, w')) :
    valueTrace w (.writePkt buffer answer) =
      [(.writePkt (buffer.map w.heap.encoding) answer, r.map (·.value w'.heap))] := by
  unfold valueTrace
  simp only [hs]
  rfl

/-- Other calls are no `write_pkt` by value. -/
theorem valueTrace_quiet {w : StringWorld} (hno : ∀ buffer answer, e ≠ .writePkt buffer answer) :
    ∀ x ∈ valueTrace w e, ∀ buffer answer, x.1 ≠ .writePkt buffer answer := by
  intro x hx buffer answer
  unfold valueTrace at hx
  split at hx
  · cases hx
  rcases List.mem_append.1 hx with hcb | hev
  · obtain ⟨cb, -, rfl⟩ := List.mem_map.1 hcb
    exact fun heq => by cases heq
  · obtain ⟨e', he', rfl⟩ := List.mem_map.1 hev
    rintro rfl
    cases e <;> simp [StringEvent.event] at he'
    exact hno _ _ rfl

theorem Sound.lends (h : m.Sound vt) (hs : stringStep m.strings e = some (r, w))
    (hk : keeps step SendContract vt m.strings.value (valueTrace m.strings e) = true)
    (hl : loan ∈ lent place m.strings e) :
    Backed vt m.strings loan ∧ loan.addr = place loan.chunk ∧ ∃ o, m.strings.objs[loan.ref]? = some o ∧
      loan.chunk ∈ o.pendingChunks := by
  cases e with
  | writePkt buffer answer =>
    have hnames := StringWorld.names_owned hs
    obtain ⟨heap, o, p, hlends, hvalue, hsame⟩ :=
      lent_lends h.fine (fun v hv => hnames v (Option.mem_toList.2 hv)) hl
    have ho : m.strings.objs[loan.ref]? = some o := hlends.object
    obtain ⟨b, hb, hacc⟩ := h.represents ho
    have hin : ∀ v ∈ o.strings, heap[v]? = m.strings.heap[v]? := fun v hv =>
      (hsame v (StringWorld.mem_internal ho hv)).symm
    have hobject : o.value heap = o.value m.strings.heap := StreamObject.value_congr hin
    have hcells : o.cells heap = o.cells m.strings.heap :=
      StreamObject.cells_congr rfl fun v hv => hin v (List.mem_cons_of_mem _ hv)
    have hfits : answer.fits (StringWorld.value { m.strings with heap }).writevArgs = true := by
      rw [hvalue]
      have hinner := h.inner hs hk
      rw [valueTrace_writePkt hs] at hinner
      exact hinner.first.1.2
    obtain ⟨o', log, ho', hlog, hplaced⟩ := hlends.backed (hobject ▸ hb) hacc hfits
    obtain rfl := Option.some.inj (hlends.object.symm.trans ho')
    have hchunk : loan.chunk ∈ o.pendingChunks := by
      obtain ⟨pre, post, hsplit, -⟩ := hlends.cells
      have hmem : (loan.chunk, (Heap.str heap loan.chunk).bytes) ∈ o.cells heap := by
        rw [hsplit]
        simp
      exact (StreamObject.mem_cells hmem).1
    exact ⟨⟨o, log, ho, hcells ▸ hlog, hplaced⟩, hlends.addr, o, ho, hchunk⟩
  | _ => cases hl

/-- Only `write_pkt` sends, and only on the stream it picks. -/
theorem Sound.covers (h : m.Sound vt) (hs : stringStep m.strings e = some (r, w))
    (hk : keeps step SendContract vt m.strings.value (valueTrace m.strings e) = true)
    (ho : w.objs[ref]? = some o) {i : Nat} (hi : i < o.struct.sentOffset.toNat) :
    ∃ loan ∈ m.loans ++ lent m.place m.strings e,
      loan.ref = ref ∧ loan.start ≤ i ∧ i < loan.start + loan.len := by
  have hinner := h.inner hs hk
  have hget' := StringWorld.value_get ho
  have hzero : ¬ (o.value w.heap).sentOffset = 0 := by
    intro hzero
    rw [show o.struct.sentOffset = 0 from hzero] at hi
    cases hi
  have hold : ∀ s, m.strings.value.objs[ref]? = some s → i < s.sentOffset.toNat →
      ∃ loan ∈ m.loans ++ lent m.place m.strings e,
        loan.ref = ref ∧ loan.start ≤ i ∧ i < loan.start + loan.len := by
    intro s hget hlt
    obtain ⟨o, ho, rfl⟩ := Option.map_eq_some_iff.1 ((m.strings.value_objs ref).symm.trans hget)
    obtain ⟨loan, hl, hcover⟩ := h.covered ref o ho i hlt
    exact ⟨loan, List.mem_append_left _ hl, hcover⟩
  by_cases hpkt : ∃ buffer answer, e = .writePkt buffer answer
  · obtain ⟨buffer, answer, rfl⟩ := hpkt
    rw [valueTrace_writePkt hs] at hinner
    obtain ⟨hK, c₁, hst, hrest⟩ := hinner.first
    obtain rfl := hrest.det (.refl : Steps step SendContract _ c₁ _ c₁)
    rcases sent_writePkt h.reach hK hst (h.bound ref) hget' with hz | ⟨s, hget, heq | ⟨args, henc, hpick, hsum⟩⟩
    · exact absurd hz hzero
    · exact hold s hget (heq ▸ hi)
    · by_cases hlt : i < s.sentOffset.toNat
      · exact hold s hget hlt
      have hsent : o.struct.sentOffset.toNat = s.sentOffset.toNat + (answer.framed args).length := hsum
      have hfits : answer.fits args = true := writevArgs_of_pick hpick ▸ hK.2
      have hnames := StringWorld.names_owned hs
      obtain ⟨loan, hl, href, hstart, hlen⟩ := lent_framed m.place h.fine
        (fun v hv => hnames v (Option.mem_toList.2 hv)) henc hpick hfits (by omega)
      have hoffset : (m.strings.sentOffset ref).toNat = s.sentOffset.toNat := by
        obtain ⟨o, ho, rfl⟩ := Option.map_eq_some_iff.1 ((m.strings.value_objs ref).symm.trans hget)
        simp [StringWorld.sentOffset, ho, StreamObject.value]
      exact ⟨loan, List.mem_append_right _ hl, href, by omega, by omega⟩
  · have hquiet := valueTrace_quiet (w := m.strings) fun b a he => hpkt ⟨b, a, he⟩
    rcases sent_same h.reach hinner hquiet hget' with hz | ⟨s, hget, heq⟩
    · exact absurd hz hzero
    · exact hold s hget (heq ▸ hi)

/-- **One call.** -/
theorem Sound.call (h : m.Sound vt) (hs : stringStep m.strings e = some (r, w))
    (hk : keeps step SendContract vt m.strings.value (valueTrace m.strings e) = true)
    (hbound : ∀ ref, (accepted (vt ++ valueTrace m.strings e) ref).length < 2 ^ 64)
    (hapart : Apart place w.heap.length) :
    Sound (vt ++ valueTrace m.strings e)
      { strings := w, place, loans := m.loans ++ lent m.place m.strings e } where
  fine := (h.fine.step hs).1
  reach := h.reach.trans (h.inner hs hk)
  bound := hbound
  backed loan hl := by
    rcases List.mem_append.1 hl with hold | hnew
    · exact (h.backed loan hold).slid (h.fine.slid hs)
    · exact (h.lends hs hk hnew).1.slid (h.fine.slid hs)
  covered _ _ ho _ hi := h.covers hs hk ho hi
  apart := hapart

/-- Nothing is lent anew, and where it was may have changed. -/
theorem Sound.compact (h : m.Sound vt) (hapart : Apart place m.strings.heap.length) :
    Sound (vt ++ []) { m with place } := by
  rw [List.append_nil]
  exact ⟨h.fine, h.reach, h.bound, h.backed, h.covered, hapart⟩

theorem Sound.of_steps {embedded : Nat → Bool} {tr : Trace MemoryEvent StringReply}
    (h : Steps memoryStep ((PlaceContract embedded).and LentContract) [] {} tr m) : m.Sound (memoryTrace tr) := by
  induction h with
  | refl => exact .initial
  | @tail tr m e r m' h hK hs ih =>
    obtain ⟨hplace, hk, hbound⟩ := hK
    have htrace : memoryTrace (tr ++ [(e, r)]) = memoryTrace tr ++ m.clientTrace e := h.unfolded_snoc hs
    rw [htrace]
    cases e with
    | call e place =>
      obtain ⟨⟨r', w⟩, hcall, heq⟩ := Option.map_eq_some_iff.1 hs
      cases heq
      have hapart := hplace.2
      rw [hcall] at hapart
      exact ih.call hcall hk hbound hapart
    | compact place =>
      cases hs
      exact ih.compact hplace.2

/-- The String at its place is found there. -/
theorem find_place {n : Nat} (hapart : Apart place n) {v : Nat} (hv : v < n) :
    ((List.range n).find? fun u => place u = place v) = some v := by
  cases hf : (List.range n).find? fun u => place u = place v with
  | none => exact absurd (List.find?_eq_none.1 hf v (List.mem_range.2 hv)) (by simp)
  | some u =>
    have hu := List.mem_range.1 (List.mem_of_find?_eq_some hf)
    rw [hapart u hu v hv (by simpa using List.find?_some hf)]

theorem Sound.read (h : m.Sound vt) (hl : loan ∈ m.loans) (hout : m.outstanding loan = true)
    (hplace : m.place loan.chunk = loan.addr) : m.read loan = some (m.bytes loan) := by
  obtain ⟨o, ho, hchunk, -⟩ := h.held hl hout
  simp only [MemoryWorld.read, ← hplace, find_place h.apart (chunk_kept h.fine.sep ho hchunk).1]
  rfl

/-- A call leaves what is lent where it was. -/
theorem Pinned.call (h : m.Sound vt) (hs : stringStep m.strings e = some (r, w))
    (hk : keeps step SendContract vt m.strings.value (valueTrace m.strings e) = true)
    (hbound : ∀ ref, (accepted (vt ++ valueTrace m.strings e) ref).length < 2 ^ 64)
    (hplace : ∀ v < m.strings.heap.length, v ∉ m.strings.writable → place v = m.place v) (hpinned : m.Pinned) :
    Pinned { strings := w, place, loans := m.loans ++ lent m.place m.strings e } := by
  intro loan hl hout
  rcases List.mem_append.1 hl with hold | hnew
  · obtain ⟨o', ho', hacked'⟩ := outstanding_iff.1 hout
    obtain ⟨o, log, ho, -⟩ := h.backed loan hold
    obtain ⟨s', hs', hle⟩ := acked_mono h.reach (h.inner hs hk) (StringWorld.value_get ho) (hbound loan.ref)
    obtain rfl := Option.some.inj (hs'.symm.trans (StringWorld.value_get ho'))
    -- It was outstanding before the call.
    have hbefore : m.outstanding loan = true := by
      refine outstanding_iff.2 ⟨o, ho, Nat.lt_of_le_of_lt ?_ hacked'⟩
      exact hle
    obtain ⟨o₁, ho₁, hchunk, -⟩ := h.held hold hbefore
    obtain ⟨hlt, -, hno⟩ := chunk_kept h.fine.sep ho₁ hchunk
    exact (hplace _ hlt hno).trans (hpinned loan hold hbefore)
  · obtain ⟨-, haddr, o, ho, hchunk⟩ := h.lends hs hk hnew
    obtain ⟨hlt, -, hno⟩ := chunk_kept h.fine.sep ho hchunk
    exact (hplace _ hlt hno).trans haddr.symm

end

end MemoryWorld

/-- **The memory lent to ngtcp2.** In every run, whatever the program does with
its Strings: all that was framed was lent; what is lent and not acknowledged is
in the chunks of its stream, which the program does not have, and holds the
bytes accepted there; and where the address ngtcp2 has is still the String's,
it reads those. The addresses are right all along a run if and only if no
compaction moves a chunk of which something lent is outstanding. -/
theorem lent_memory {embedded : Nat → Bool} {tr : Trace MemoryEvent StringReply} {m : MemoryWorld}
    (h : Steps memoryStep ((PlaceContract embedded).and LentContract) [] {} tr m) :
    (∀ (ref : Nat) o, m.strings.objs[ref]? = some o → ∀ i < o.struct.sentOffset.toNat,
      ∃ loan ∈ m.loans, loan.ref = ref ∧ loan.start ≤ i ∧ i < loan.start + loan.len) ∧
    (∀ loan ∈ m.loans, m.outstanding loan = true →
      loan.chunk ∈ m.chunks loan.ref ∧ loan.chunk ∉ m.strings.owned ∧
      m.bytes loan = ((accepted (memoryTrace tr) loan.ref).drop loan.start).take loan.len ∧
      (m.place loan.chunk = loan.addr → m.read loan = some (m.bytes loan))) ∧
    ((∀ tr₁ m₁, tr₁ <+: tr → Steps memoryStep ((PlaceContract embedded).and LentContract) [] {} tr₁ m₁ →
      m₁.Pinned) ↔
      Steps memoryStep (((PlaceContract embedded).and LentContract).and Unmoved) [] {} tr m) := by
  have hsound := MemoryWorld.Sound.of_steps h
  refine ⟨hsound.covered, fun loan hl hout => ?_, ?_⟩
  · obtain ⟨o, ho, hchunk, hbytes⟩ := hsound.held hl hout
    refine ⟨?_, (chunk_kept hsound.fine.sep ho hchunk).2.1, hbytes, hsound.read hl hout⟩
    simpa [MemoryWorld.chunks, ho] using hchunk
  · refine Steps.everywhere_iff (P := fun _ m => m.Pinned) h (fun loan hl => by cases hl) ?_
    intro tr m e r m' hrun hpinned hK hs
    obtain ⟨hplace, hk, hbound⟩ := hK
    have hsound := MemoryWorld.Sound.of_steps hrun
    cases e with
    | call e place =>
      obtain ⟨⟨r', w⟩, hcall, heq⟩ := Option.map_eq_some_iff.1 hs
      cases heq
      exact ⟨fun _ => trivial, fun _ => hpinned.call hsound hcall hk hbound hplace.1⟩
    | compact place =>
      cases hs
      constructor
      · exact fun hafter loan hl hout => (hafter loan hl hout).trans (hpinned loan hl hout).symm
      · exact fun hsame loan hl hout => (hsame loan hl hout).trans (hpinned loan hl hout)

/-- A chunk framed in two parts, and between them a compaction that moves the
program's String and an acknowledgment of a byte. -/
def lentRun : Trace MemoryEvent StringReply × MemoryWorld :=
  run memoryStep (((PlaceContract fun n => n ≤ 23).and LentContract).and Unmoved)
    [.call (.newString ⟨[51, 52, 53], by decide⟩ .binary) id,
      .call (.openBidiStream (.ok 0)) id,
      .call (.write 0 0 false 100 100) id,
      .call (.writePkt none ⟨.ok [64], 2⟩) id,
      .compact fun v => if v = 0 then 9 else v,
      .call (.callback (.ackedStreamDataOffset 0 0 1)) fun v => if v = 0 then 9 else v,
      .call (.writePkt none ⟨.ok [65], 1⟩) fun v => if v = 0 then 9 else v]
    [] {}

theorem lentRun_steps : Steps memoryStep (((PlaceContract fun n => n ≤ 23).and LentContract).and Unmoved) [] {}
    lentRun.1 lentRun.2 := .of_run (by decide +kernel)

theorem lent_memory_lentRun :
    lentRun.2.Pinned ∧ lentRun.2.loans.map lentRun.2.read = [some [51, 52], some [53]] :=
  have hsteps := lentRun_steps.mono fun _ _ _ hK => hK.1
  ⟨(lent_memory hsteps).2.2.2 lentRun_steps _ _ List.prefix_rfl hsteps, by decide +kernel⟩

end QuicRuby
