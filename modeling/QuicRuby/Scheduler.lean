/-
The send scheduler takes the first stream of the registry that has something
to send. One offer is made for each packet, so what ngtcp2 says to it is
what `write_pkt` says: a blocked first stream fails the call, and with it
`pump_once`, whatever the other streams could send.
-/
import QuicRuby.Pump

namespace QuicRuby

open Runs

/-! ## The first match -/

/-- What the object `ref` has to send. -/
def Client.offer (c : Client) (ref : Nat) : Option WritevArgs := c.objs[ref]?.bind (·.sendOffer)

/-- The earliest registered stream with something to send is `ref`, and that
is `args`. -/
def Client.FirstToSend (c : Client) (ref : Nat) (args : WritevArgs) : Prop :=
  ∃ pre post, c.streams.values = pre ++ ref :: post ∧ (∀ r ∈ pre, c.offer r = none) ∧ c.offer ref = some args

theorem pick_eq_some_iff {c : Client} {ref : Nat} {args : WritevArgs} :
    quicClientPickSendStream c = some (ref, args) ↔ c.FirstToSend ref args := by
  unfold quicClientPickSendStream
  rw [List.findSome?_eq_some_iff]
  constructor
  · rintro ⟨pre, r, post, hvalues, hr, hpre⟩
    obtain ⟨args', ho, heq⟩ := Option.map_eq_some_iff.1 hr
    cases heq
    exact ⟨pre, post, hvalues, fun r hm => Option.map_eq_none_iff.1 (hpre r hm), ho⟩
  · rintro ⟨pre, post, hvalues, hpre, ho⟩
    refine ⟨pre, ref, post, hvalues, ?_, fun r hm => Option.map_eq_none_iff.2 (hpre r hm)⟩
    exact Option.map_eq_some_iff.2 ⟨args, ho, rfl⟩

theorem pick_eq_none_iff {c : Client} :
    quicClientPickSendStream c = none ↔ ∀ ref ∈ c.streams.values, c.offer ref = none := by
  unfold quicClientPickSendStream
  rw [List.findSome?_eq_none_iff]
  exact forall₂_congr fun _ _ => Option.map_eq_none_iff

/-- An offer has data or FIN, so it is not what `write_pkt` passes for no
stream. -/
theorem offer_ne_connOnly {c : Client} {ref : Nat} {args : WritevArgs} (h : c.offer ref = some args) :
    args ≠ .connOnly := by
  obtain ⟨s, -, ho⟩ := Option.bind_eq_some_iff.1 h
  rintro rfl
  rcases (sendOffer_cases ho).2.2 with ⟨hcnt, -⟩ | ⟨-, -, hfin⟩
  · cases hcnt
  · cases hfin

/-- `write_pkt` says what ngtcp2 answers to its one offer. -/
theorem writePkt_reply (writev : WritevArgs → WritevAnswer) {buffer : Option Encoding}
    (hb : buffer ≠ some .other) (c : Client) :
    (quicClientWritePkt writev buffer c).1 =
      match (writev c.writevArgs).result with
      | .error rv => .error (quicRaiseNgtcp2Error rv)
      | .ok packet => .ok (if packet = [] then none else some packet) := by
  unfold quicClientWritePkt
  rw [if_neg hb]
  cases hres : (writev c.writevArgs).result with
  | error rv => simp [hres]
  | ok packet => cases packet <;> simp [hres]

/-! ## Blocked streams -/

/-- ngtcp2 at one moment, with its stream-level credit and the control frames
it has to write: data without credit is blocked, any other offer of a stream
gets a packet, and without a stream the control frames are written. -/
structure Answers (credit : Int → Nat) (control : List UInt8) (writev : WritevArgs → WritevAnswer) : Prop where
  blocked : ∀ args, args.datav ≠ [] → credit args.streamId = 0 →
    (writev args).result = .error .streamDataBlocked
  accepted : ∀ args, args ≠ .connOnly → args.datav = [] ∨ 0 < credit args.streamId →
    ∃ packet, packet ≠ [] ∧ (writev args).result = .ok packet
  control : (writev .connOnly).result = .ok control

/-- A `write_pkt` that raises ends the round. -/
theorem pumpOnce_raises {c : Client} {answer : WritevAnswer} {err : RubyError} (hsock : c.sock.isSome = true)
    (h : (quicClientWritePkt (fun _ => answer) none c).1 = .error err) (sendRaises : Option RubyError)
    (rest : List (WritevAnswer × Option RubyError)) (wakeup : Wakeup) :
    ∃ c', pumpOnce ⟨(answer, sendRaises) :: rest, wakeup⟩ c = some (.error err, c') := by
  refine ⟨(quicClientWritePkt (fun _ => answer) none c).2, ?_⟩
  have hw : quicClientWritePkt (fun _ => answer) none c =
      (.error err, (quicClientWritePkt (fun _ => answer) none c).2) := by
    rw [← h]
  have hnone : c.sock.isNone = false := by
    cases hs : c.sock with
    | none => rw [hs] at hsock; cases hsock
    | some sock => rfl
  unfold pumpOnce
  rw [hnone]
  simp only [Bool.false_eq_true, if_false, drainPackets]
  rw [hw]

/-- **The first stream decides.** If the earliest registered stream with
something to send has credit, or FIN alone to send, `write_pkt` returns a
packet; if it is blocked, `write_pkt` raises FlowControl, and so does
`pump_once`. The streams after it and the control frames make no
difference. If no stream has anything to send the control frames are
returned. -/
theorem writePkt_first_match {credit : Int → Nat} {control : List UInt8} {writev : WritevArgs → WritevAnswer}
    (hw : Answers credit control writev) (c : Client) {buffer : Option Encoding} (hb : buffer ≠ some .other) :
    (∀ ref args, c.FirstToSend ref args →
      (args.datav = [] ∨ 0 < credit args.streamId →
        ∃ packet, packet ≠ [] ∧ (quicClientWritePkt writev buffer c).1 = .ok (some packet)) ∧
      (args.datav ≠ [] ∧ credit args.streamId = 0 → ∃ err, err.cls = .flowControl ∧
        (quicClientWritePkt writev buffer c).1 = .error err ∧
        ∀ sendRaises rest wakeup, c.sock.isSome = true →
          ∃ c', pumpOnce ⟨(writev c.writevArgs, sendRaises) :: rest, wakeup⟩ c = some (.error err, c'))) ∧
    ((∀ ref ∈ c.streams.values, c.offer ref = none) →
      (quicClientWritePkt writev buffer c).1 = .ok (if control = [] then none else some control)) := by
  constructor
  · intro ref args hfirst
    have hargs := writevArgs_of_pick (pick_eq_some_iff.2 hfirst)
    obtain ⟨pre, post, -, -, ho⟩ := hfirst
    constructor
    · intro hcan
      obtain ⟨packet, hne, hres⟩ := hw.accepted args (offer_ne_connOnly ho) hcan
      refine ⟨packet, hne, ?_⟩
      rw [writePkt_reply writev hb, hargs, hres]
      simp [hne]
    · rintro ⟨hdata, hcredit⟩
      have hres := hw.blocked args hdata hcredit
      refine ⟨quicRaiseNgtcp2Error .streamDataBlocked, rfl, ?_, fun sendRaises rest wakeup hsock => ?_⟩
      · rw [writePkt_reply writev hb, hargs, hres]
      · refine pumpOnce_raises hsock ?_ sendRaises rest wakeup
        rw [writePkt_reply _ (by decide), hargs, hres]
  · intro hnone
    have hargs : c.writevArgs = .connOnly := by
      simp [Client.writevArgs, pick_eq_none_iff.2 hnone]
    rw [writePkt_reply writev hb, hargs, hw.control]

/-- Two streams with data queued. -/
def twoStreamsRun : ClientTrace × Client :=
  run step FreshIds
    [.bind 0, .openBidiStream (.ok 0), .openBidiStream (.ok 4),
     .write 0 (.ofByte 1) false 1 9,
     .write 1 (.ofByte 2) false 1 9] [] {}

/-- ngtcp2 with credit for every stream but one, and an ACK to write. -/
def blockedOn (id : Int) (args : WritevArgs) : WritevAnswer :=
  if args.datav ≠ [] ∧ args.streamId = id then ⟨.error .streamDataBlocked, -1⟩
  else ⟨.ok [64], args.datav.length⟩

theorem blockedOn_answers (id : Int) : Answers (fun i => if i = id then 0 else 1) [64] (blockedOn id) where
  blocked args hdata hcredit := by
    have hid : args.streamId = id := by simpa using hcredit
    simp [blockedOn, hdata, hid]
  accepted args _ hcan := by
    have hnot : ¬ (args.datav ≠ [] ∧ args.streamId = id) := by
      rintro ⟨hdata, hid⟩
      simp [hdata, hid] at hcan
    exact ⟨[64], by decide, by rw [blockedOn, if_neg hnot]⟩
  control := rfl

theorem writePkt_first_match_twoStreams :
    (∃ packet, packet ≠ [] ∧ (quicClientWritePkt (blockedOn 4) none twoStreamsRun.2).1 = .ok (some packet)) ∧
      ∃ err, err.cls = .flowControl ∧ (quicClientWritePkt (blockedOn 0) none twoStreamsRun.2).1 = .error err :=
  have hfirst : twoStreamsRun.2.FirstToSend 0 ⟨0, false, [1], 1⟩ := pick_eq_some_iff.1 rfl
  have hsend :=
    ((writePkt_first_match (blockedOn_answers 4) twoStreamsRun.2 (by decide)).1 0 _ hfirst).1 (by decide)
  have hraise :=
    ((writePkt_first_match (blockedOn_answers 0) twoStreamsRun.2 (by decide)).1 0 _ hfirst).2 (by decide)
  ⟨hsend, hraise.imp fun _ h => ⟨h.1, h.2.1⟩⟩

/-- The second stream has credit, and there is an ACK to write, but the first
is blocked. -/
theorem twoStreams_blocked :
    ¬ ∀ tr c, Reach FreshIds tr c → ∀ credit control writev, Answers credit control writev →
    (∃ ref ∈ c.streams.values, ∃ args, c.offer ref = some args ∧ (args.datav = [] ∨ 0 < credit args.streamId)) ∨
      control ≠ [] →
    ∃ packet, packet ≠ [] ∧ (quicClientWritePkt writev none c).1 = .ok (some packet) := by
  intro h
  obtain ⟨packet, -, hr⟩ := h twoStreamsRun.1 twoStreamsRun.2 (Steps.of_run (by decide)) _ _ _
    (blockedOn_answers 0) (.inl ⟨1, by decide, ⟨4, false, [2], 1⟩, rfl, by decide⟩)
  cases hr

end QuicRuby
