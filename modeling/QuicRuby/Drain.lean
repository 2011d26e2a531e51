/-
The loop of `pump_once` that sends what `write_pkt` returns ends. What is
left to send is a number, the unsent bytes and unflushed FINs of the
registered streams: no packet raises it, and one that frames anything
lowers it.

The number is exact while a stream holds fewer than 2^64 bytes. With 2^64
bytes in its chunks every send position is one of an unsent byte, and the
loop never ends.
-/
import QuicRuby.AckGroups

namespace QuicRuby

open Runs

/-! ## What is left to send -/

/-- The bytes the chunks hold past the send position. -/
def QuicStream.unsentBytes (s : QuicStream) : Nat :=
  s.pendingChunks.flatten.length - (s.sentOffset - s.pendingShifted).toNat

/-- The unsent bytes, and 1 for a FIN that is queued and not flushed. -/
def QuicStream.toSend (s : QuicStream) : Nat :=
  s.unsentBytes + if s.finSent && !s.finFlushed then 1 else 0

/-- What the object `ref` has left to send. -/
def Client.toSendOn (c : Client) (ref : Nat) : Nat := (c.objs[ref]?.map QuicStream.toSend).getD 0

/-- What the registered streams have left to send. -/
def Client.toSend (c : Client) : Nat := (c.streams.values.map c.toSendOn).sum

/-- Every stream holds fewer than 2^64 bytes. -/
def Client.Bounded (c : Client) : Prop := ∀ s ∈ c.objs, s.pendingChunks.flatten.length < 2 ^ 64

instance : DecidablePred Client.Bounded := fun c =>
  inferInstanceAs (Decidable (∀ s ∈ c.objs, s.pendingChunks.flatten.length < 2 ^ 64))

/-- The unsent bytes are those of the buffer the stream holds. -/
theorem Represents.unsentBytes_eq {s : QuicStream} {b : SendBuffer UInt8} (h : Represents s b) :
    s.unsentBytes = b.unsent.length := by
  rw [QuicStream.unsentBytes, ← List.length_drop, h.queued.drop_position, h.sent, SendBuffer.unsent]

/-- The packet frames no stream bytes and no FIN. -/
def WritevAnswer.frameless (answer : WritevAnswer) (args : WritevArgs) : Bool :=
  (answer.framed args).isEmpty && !(args.fin && answer.covers args)

theorem frameless_connOnly (answer : WritevAnswer) : answer.frameless .connOnly = true := by
  cases hres : answer.result <;> simp [WritevAnswer.frameless, WritevAnswer.framed, WritevArgs.connOnly, hres]

theorem frameless_error {answer : WritevAnswer} {rv : Ngtcp2Error} (h : answer.result = .error rv)
    (args : WritevArgs) : answer.frameless args = true := by
  simp [WritevAnswer.frameless, WritevAnswer.framed, WritevAnswer.covers, h]

/-! ## One packet -/

/-- The slice offered is part of what is unsent. -/
theorem offer_unsent {s : QuicStream} (hlt : s.pendingChunks.flatten.length < 2 ^ 64) {args : WritevArgs}
    (ho : s.sendOffer = some args) :
    (s.sentOffset - s.pendingShifted).toNat + args.datav.length ≤ s.pendingChunks.flatten.length ∨
      args.datav = [] := by
  have hchunk : ∀ chunk ∈ s.pendingChunks, chunk.length < 2 ^ 64 := fun chunk hm =>
    Nat.lt_of_le_of_lt (List.sublist_flatten_of_mem hm).length_le hlt
  have hwalk_eq := walkPending_eq hchunk (s.sentOffset - s.pendingShifted) 0
  simp only [QuicStream.sendOffer] at ho
  split at ho
  · cases ho
  split at ho
  · next i chunk off hwalk =>
    cases ho
    rw [hwalk, eq_comm, Option.map_eq_some_iff] at hwalk_eq
    obtain ⟨⟨i', chunk', off'⟩, hlocate, heq⟩ := hwalk_eq
    cases heq
    obtain ⟨pre, post, hcs, -, hoff, hat⟩ := ChunkQueue.locate_eq_some hlocate
    left
    rw [hcs, hat]
    simp only [List.flatten_append, List.flatten_cons, List.length_append, List.length_drop]
    omega
  · split at ho
    · cases ho
      exact .inr rfl
    · cases ho

/-- Bytes framed are no longer to send: the send position moves on by
`pdatalen`, and does not wrap. -/
theorem accountWritev_toSend {s : QuicStream} (hlt : s.pendingChunks.flatten.length < 2 ^ 64) (args : WritevArgs)
    (n : Nat) {pdatalen : Int} (hpos : 0 < pdatalen)
    (hroom : (s.sentOffset - s.pendingShifted).toNat + pdatalen.toNat ≤ s.pendingChunks.flatten.length) :
    (s.accountWritev args n pdatalen).toSend < s.toSend := by
  have hmove : (s.sentOffset + UInt64.ofInt pdatalen - s.pendingShifted).toNat =
      (s.sentOffset - s.pendingShifted).toNat + pdatalen.toNat := by
    have hcomm : s.sentOffset + UInt64.ofInt pdatalen - s.pendingShifted =
        s.sentOffset - s.pendingShifted + UInt64.ofInt pdatalen := by
      grind
    rw [hcomm, UInt64.toNat_add, toNat_ofInt_of_pos hpos (by omega)]
    omega
  simp only [QuicStream.accountWritev, hpos, if_true]
  split
  · simp only [QuicStream.toSend, QuicStream.unsentBytes, hmove, Bool.not_true, Bool.and_false,
      Bool.false_eq_true, if_false]
    omega
  · simp only [QuicStream.toSend, QuicStream.unsentBytes, hmove]
    omega

/-- The account of a packet leaves no more to send, and less if the packet
frames anything. -/
theorem afterWritev_toSend {s : QuicStream} (hlt : s.pendingChunks.flatten.length < 2 ^ 64) {args : WritevArgs}
    (ho : s.sendOffer = some args) {answer : WritevAnswer} (hfit : answer.fits args = true) :
    (s.afterWritev args answer).toSend ≤ s.toSend ∧
      (answer.frameless args = false → (s.afterWritev args answer).toSend < s.toSend) := by
  obtain ⟨hflushed, hfin, hcases⟩ := sendOffer_cases ho
  cases hres : answer.result with
  | error rv => simp [QuicStream.afterWritev, hres, frameless_error hres]
  | ok packet =>
    simp only [WritevAnswer.fits, hres, decide_eq_true_eq] at hfit
    simp only [QuicStream.afterWritev, hres]
    by_cases hpos : 0 < answer.pdatalen
    · have hroom : (s.sentOffset - s.pendingShifted).toNat + answer.pdatalen.toNat ≤
          s.pendingChunks.flatten.length := by
        rcases offer_unsent hlt ho with hle | hnil
        · omega
        · simp only [hnil, List.length_nil] at hfit
          omega
      have hless := accountWritev_toSend hlt args packet.length hpos hroom
      exact ⟨Nat.le_of_lt hless, fun _ => hless⟩
    · simp only [QuicStream.accountWritev, hpos, if_false]
      split
      · next halone =>
        -- FIN alone was offered.
        simp only [Bool.and_eq_true, decide_eq_true_eq] at halone
        have hsent := hfin halone.2
        have hless : { s with finFlushed := true }.toSend < s.toSend := by
          simp [QuicStream.toSend, QuicStream.unsentBytes, hsent, hflushed]
        exact ⟨Nat.le_of_lt hless, fun _ => hless⟩
      · next hkept =>
        -- Nothing of the slice was framed, so the packet frames nothing.
        refine ⟨Nat.le_refl _, fun hframes => ?_⟩
        have hzero : answer.pdatalen.toNat = 0 := by omega
        simp only [WritevAnswer.frameless, WritevAnswer.framed, WritevAnswer.covers, hres, hzero, List.take_zero,
          List.isEmpty_nil, Bool.true_and, Bool.not_eq_false', Bool.and_eq_true, decide_eq_true_eq] at hframes
        obtain ⟨hf, hn, hall⟩ := hframes
        rcases hcases with ⟨-, hne⟩ | ⟨hcnt, -, -⟩
        · have := List.length_pos_iff.2 hne
          omega
        · exact absurd (by simp [hcnt, hn, hf]) hkept

theorem afterWritev_pendingChunks (s : QuicStream) (args : WritevArgs) (answer : WritevAnswer) :
    (s.afterWritev args answer).pendingChunks = s.pendingChunks := by
  unfold QuicStream.afterWritev
  split
  · obtain ⟨_, _, hacc⟩ := accountWritev_eq s args _ answer.pdatalen
    rw [hacc]
  · rfl

/-! ## One call of write_pkt -/

/-- The client after a `write_pkt`: the stream picked has made its account. -/
theorem writePkt_objects (c : Client) (answer : WritevAnswer) :
    (quicClientWritePkt (fun _ => answer) none c).2.streams = c.streams ∧
      (quicClientWritePkt (fun _ => answer) none c).2.objs =
        match quicClientPickSendStream c with
        | some (ref, args) => c.objs.modify ref (·.afterWritev args answer)
        | none => c.objs := by
  have hafter := quicClientWritePkt_after c none answer
  have htarget : (Event.writePkt none answer).target c = (quicClientPickSendStream c).map Prod.fst := rfl
  refine ⟨hafter.streams, ?_⟩
  rw [hafter.objs, show (Event.writePkt none answer).objsAfter c = (Event.writePkt none answer).updated c from rfl,
    Event.updated, htarget]
  cases hpick : quicClientPickSendStream c with
  | none => rfl
  | some sel =>
    obtain ⟨ref, args⟩ := sel
    obtain ⟨-, s, hs, ho⟩ := pick_spec hpick
    refine modify_congr fun s' hs' => ?_
    rw [hs] at hs'
    cases hs'
    exact update_writePkt ho none answer

/-- A packet adds to no stream's chunks. -/
theorem Client.Bounded.writePkt {c : Client} (hc : c.Bounded) (answer : WritevAnswer) :
    (quicClientWritePkt (fun _ => answer) none c).2.Bounded := by
  obtain ⟨-, hobjs⟩ := writePkt_objects c answer
  intro s' hs'
  rw [hobjs] at hs'
  split at hs'
  · obtain ⟨i, hi⟩ := List.getElem?_of_mem hs'
    rw [List.getElem?_modify, Option.map_eq_map, Option.map_eq_some_iff] at hi
    obtain ⟨s₀, hs₀, rfl⟩ := hi
    split
    · rw [afterWritev_pendingChunks]
      exact hc s₀ (List.mem_of_getElem? hs₀)
    · exact hc s₀ (List.mem_of_getElem? hs₀)
  · exact hc s' hs'

/-- **No packet adds to what is left to send, and one that frames anything
takes from it.** -/
theorem writePkt_toSend {c : Client} (hc : c.Bounded) {answer : WritevAnswer}
    (hfit : answer.fits c.writevArgs = true) :
    (quicClientWritePkt (fun _ => answer) none c).2.toSend ≤ c.toSend ∧
      (answer.frameless c.writevArgs = false →
        (quicClientWritePkt (fun _ => answer) none c).2.toSend < c.toSend) := by
  obtain ⟨hstreams, hobjs⟩ := writePkt_objects c answer
  generalize (quicClientWritePkt (fun _ => answer) none c).2 = c' at hstreams hobjs ⊢
  cases hpick : quicClientPickSendStream c with
  | none =>
    have hargs : c.writevArgs = .connOnly := by simp [Client.writevArgs, hpick]
    rw [hpick] at hobjs
    have hsame : c'.toSend = c.toSend := by
      simp only [Client.toSend, hstreams]
      congr 2
      funext ref
      simp only [Client.toSendOn, hobjs]
    refine ⟨Nat.le_of_eq hsame, fun hframes => ?_⟩
    rw [hargs, frameless_connOnly] at hframes
    cases hframes
  | some sel =>
    obtain ⟨ref, args⟩ := sel
    obtain ⟨hm, s, hs, ho⟩ := pick_spec hpick
    rw [writevArgs_of_pick hpick] at hfit ⊢
    rw [hpick] at hobjs
    have hlt := hc s (List.mem_of_getElem? hs)
    obtain ⟨hle, hless⟩ := afterWritev_toSend hlt ho hfit
    have hself : c'.toSendOn ref = (s.afterWritev args answer).toSend := by
      simp [Client.toSendOn, hobjs, hs]
    have hself₀ : c.toSendOn ref = s.toSend := by simp [Client.toSendOn, hs]
    have hother : ∀ r, r ≠ ref → c'.toSendOn r = c.toSendOn r := by
      intro r hr
      simp [Client.toSendOn, hobjs, hr.symm]
    have heach : ∀ r, c'.toSendOn r ≤ c.toSendOn r := by
      intro r
      by_cases hr : r = ref
      · rw [hr, hself, hself₀]
        exact hle
      · exact Nat.le_of_eq (hother r hr)
    rw [Client.toSend, Client.toSend, hstreams]
    refine ⟨List.sum_le_sum fun r _ => heach r, fun hframes => ?_⟩
    exact List.sum_lt_sum _ _ (fun r _ => heach r) ⟨ref, hm, by rw [hself, hself₀]; exact hless hframes⟩

/-! ## The loop -/

/-- ngtcp2 frames no more than it is offered, in each round of the loop. -/
def drainFits : List (WritevAnswer × Option RubyError) → Client → Bool
  | [], _ => true
  | (answer, sendRaises) :: rest, c =>
    answer.fits c.writevArgs &&
      match quicClientWritePkt (fun _ => answer) none c, sendRaises with
      | (.ok (some _), c), none => drainFits rest c
      | _, _ => true

/-- How many of the packets the loop sends frame nothing. -/
def framelessPackets : List (WritevAnswer × Option RubyError) → Client → Nat
  | [], _ => 0
  | (answer, sendRaises) :: rest, c =>
    match quicClientWritePkt (fun _ => answer) none c, sendRaises with
    | (.ok (some _), c'), none => (if answer.frameless c.writevArgs then 1 else 0) + framelessPackets rest c'
    | _, _ => 0

theorem drainPackets_ends {writes : List (WritevAnswer × Option RubyError)} {c : Client} (hc : c.Bounded)
    (hfit : drainFits writes c = true) (hlen : c.toSend + framelessPackets writes c < writes.length) :
    drainPackets writes c ≠ none := by
  induction writes generalizing c with
  | nil => simp at hlen
  | cons round rest ih =>
    obtain ⟨answer, sendRaises⟩ := round
    simp only [drainFits, Bool.and_eq_true] at hfit
    obtain ⟨hanswer, hrest⟩ := hfit
    have hc' := hc.writePkt answer
    obtain ⟨hle, hless⟩ := writePkt_toSend hc hanswer
    simp only [framelessPackets, List.length_cons] at hlen
    simp only [drainPackets]
    rcases hw : quicClientWritePkt (fun _ => answer) none c with ⟨reply, c'⟩
    rw [hw] at hrest hlen hc' hle hless
    rcases reply with err | packet
    · simp
    rcases packet with - | packet
    · simp
    rcases sendRaises with - | err
    · refine ih hc' hrest ?_
      dsimp only at hlen hle hless
      cases hframes : answer.frameless c.writevArgs with
      | true =>
        simp only [hframes, if_true] at hlen
        omega
      | false =>
        have := hless hframes
        simp only [hframes, Bool.false_eq_true, if_false] at hlen
        omega
    · simp

/-- In a run every stream is bounded, while fewer than 2^64 bytes are
accepted on each. -/
theorem Reach.bounded {tr c} (h : Reach SendContract tr c)
    (hlt : ∀ ref < c.objs.length, (accepted tr ref).length < 2 ^ 64) : c.Bounded := by
  intro s hs
  obtain ⟨ref, hget⟩ := List.getElem?_of_mem hs
  have href := hlt ref (List.getElem?_eq_some_iff.1 hget).1
  obtain ⟨b, hb⟩ := h.tracks hget href
  have hlen := hb.represents.queued.chunks_length
  rw [hb.accepted_eq] at hlen
  omega

/-! ## At 2^64 -/

/-- The one stream of the client holds 2^64 bytes, so every position is one
of an unsent byte. -/
structure Endless (c : Client) : Prop where
  values : c.streams.values = [0]
  object : ∃ s, c.objs[0]? = some s ∧ s.finFlushed = false ∧ s.finSent = false ∧
    (∀ chunk ∈ s.pendingChunks, chunk.length < 2 ^ 64) ∧ s.pendingChunks.flatten.length = 2 ^ 64

theorem Endless.pick {c : Client} (h : Endless c) : ∃ args, quicClientPickSendStream c = some (0, args) ∧
    args.datav ≠ [] := by
  obtain ⟨s, hs, hflushed, hsent, hchunk, hlen⟩ := h.object
  have hwalk : walkPending s.pendingChunks (s.sentOffset - s.pendingShifted) 0 ≠ none := by
    have hlt := (s.sentOffset - s.pendingShifted).toNat_lt
    rw [Ne, walkPending_none_iff hchunk, hlen]
    omega
  have hoffer : s.sendOffer ≠ none := by
    rw [Ne, sendOffer_eq_none_iff, hflushed]
    simp [hwalk]
  obtain ⟨args, ho⟩ := Option.ne_none_iff_exists'.1 hoffer
  refine ⟨args, pick_eq_some_iff.2 ⟨[], [], h.values, by simp, by simp [Client.offer, hs, ho]⟩, ?_⟩
  -- With no FIN queued the offer has data.
  rcases (sendOffer_cases ho).2.2 with ⟨-, hne⟩ | ⟨-, -, hfin⟩
  · exact hne
  · have := (sendOffer_cases ho).2.1 hfin
    rw [hsent] at this
    cases this

/-- A packet with one byte leaves it endless. -/
theorem Endless.packet {c : Client} (h : Endless c) : ∃ c',
    quicClientWritePkt (fun _ => ⟨.ok [64], 1⟩) none c = (.ok (some [64]), c') ∧ Endless c' ∧
      WritevAnswer.fits ⟨.ok [64], 1⟩ c.writevArgs = true ∧
        WritevAnswer.frameless ⟨.ok [64], 1⟩ c.writevArgs = false := by
  obtain ⟨args, hpick, hne⟩ := h.pick
  obtain ⟨s, hs, hflushed, hsent, hchunk, hlen⟩ := h.object
  obtain ⟨hstreams, hobjs⟩ := writePkt_objects c ⟨.ok [64], 1⟩
  have hpos := List.length_pos_iff.2 hne
  have hargs := writevArgs_of_pick hpick
  have hreply := writePkt_reply (fun _ => ⟨.ok [64], 1⟩) (show (none : Option Encoding) ≠ some .other by simp) c
  rw [hpick] at hobjs
  refine ⟨(quicClientWritePkt (fun _ => ⟨.ok [64], 1⟩) none c).2, Prod.ext hreply rfl,
    ⟨by rw [hstreams]; exact h.values, ?_⟩, ?_, ?_⟩
  · have hnofin : args.fin = false := by
      obtain ⟨-, s', hs', ho⟩ := pick_spec hpick
      rw [hs] at hs'
      cases hs'
      cases hf : args.fin with
      | false => rfl
      | true => rw [(sendOffer_cases ho).2.1 hf] at hsent; cases hsent
    refine ⟨s.accountWritev args 1 1, by simp [hobjs, hs, QuicStream.afterWritev], ?_⟩
    simpa [QuicStream.accountWritev, hnofin, hflushed, hsent, hlen] using hchunk
  · rw [hargs]
    simp only [WritevAnswer.fits, decide_eq_true_eq]
    omega
  · rw [hargs]
    simp [WritevAnswer.frameless, WritevAnswer.framed, hne]

/-- The first `n` rounds of an endless exchange. -/
def script (answers : Nat → WritevAnswer) (n : Nat) : List (WritevAnswer × Option RubyError) :=
  (List.range n).map fun i => (answers i, none)

/-- One byte a packet. -/
def oneByte : Nat → WritevAnswer := fun _ => ⟨.ok [64], 1⟩

theorem script_oneByte_succ (n : Nat) : script oneByte (n + 1) = (⟨.ok [64], 1⟩, none) :: script oneByte n := by
  simp [script, oneByte, List.range_succ_eq_map, Function.comp_def]

theorem Endless.drain {c : Client} (h : Endless c) (n : Nat) : drainPackets (script oneByte n) c = none ∧
    drainFits (script oneByte n) c = true ∧ framelessPackets (script oneByte n) c = 0 := by
  induction n generalizing c with
  | zero => exact ⟨rfl, rfl, rfl⟩
  | succ n ih =>
    obtain ⟨c', hw, hc', hfit, hframes⟩ := h.packet
    obtain ⟨hdrain, hfits, hcount⟩ := ih hc'
    rw [script_oneByte_succ]
    simp only [drainPackets, drainFits, framelessPackets, hw, hdrain, hfits, hcount, hfit, hframes, Bool.and_self,
      Bool.false_eq_true, if_false, Nat.add_zero, and_self]

end QuicRuby
