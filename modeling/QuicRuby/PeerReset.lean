/-
A RESET_STREAM from the peer and the local send side. The callback writes
the flag `reset`, which says of the send side that it was aborted: after it
the queue refuses data, and `reset` thinks it has been called before.

Two runs show it, one with the callback and one without. They show the same
until a call gets past the window to the flag.
-/
import QuicRuby.WriteLoop
import QuicRuby.Lib.Lockstep

namespace QuicRuby

open Runs Loops Lockstep

/-! ## Send-side calls -/

/-- A send-side call as a method on its stream: `none` for a turn of `write`
that only pumps. -/
def Event.sendCall : Event → Option (Nat × (QuicStream → Option (Reply × QuicStream × List Ngtcp2Call)))
  | .write ref data fin streamLeft connLeft =>
    some (ref, fun s => (quicStreamWriteM s data fin streamLeft connLeft).map fun (r, s') => (r.map .int, s', []))
  | .writeNonblock ref data fin streamLeft connLeft =>
    some (ref, fun s =>
      let (r, s') := quicStreamWriteNonblockM s data fin streamLeft connLeft
      some (r.map .int, s', []))
  | .closeWrite ref =>
    some (ref, fun s =>
      let (r, s') := quicStreamCloseWriteM s
      some (r.map .ofUnit, s', []))
  | .reset ref errorCode rv =>
    some (ref, fun s =>
      let (r, s', calls) := quicStreamResetM s errorCode rv
      some (r.map .ofUnit, s', calls))
  | _ => none

/-- The calls in question: the writers, `close_write` and `reset` of any
stream, and `write_pkt`. -/
def Event.sendSide : Event → Bool
  | .write .. | .writeNonblock .. | .closeWrite .. | .reset .. | .writePkt .. => true
  | _ => false

section
variable {e : Event} {ref : Nat} {method : QuicStream → Option (Reply × QuicStream × List Ngtcp2Call)}

/-- A send-side call changes its stream, and adds its calls to the log. -/
theorem step_sendCall (he : e.sendCall = some (ref, method)) (c : Client) :
    step c e = c.objs[ref]?.bind fun s =>
      (method s).map fun (r, s', calls) => (r, (c.modify ref fun _ => s').log calls) := by
  have hmodify : ∀ {s : QuicStream} (f : QuicStream → QuicStream), c.objs[ref]? = some s →
      c.modify ref f = c.modify ref fun _ => f s := by
    intro s f hs
    simp only [Client.modify]
    congr 1
    refine modify_congr fun s' hs' => ?_
    rw [hs] at hs'
    cases hs'
    rfl
  cases e with
  | write ref data fin streamLeft connLeft =>
    cases he
    simp [step, Client.log, Option.map_map, Function.comp_def]
  | writeNonblock ref | closeWrite ref | reset ref =>
    cases he
    simp only [step, Client.call, quiet]
    cases hs : c.objs[ref]? with
    | none => rfl
    | some s => simp [hmodify _ hs]
  | _ => cases he

section
variable {c : Client} {s : QuicStream}

theorem step_sendCall_some (he : e.sendCall = some (ref, method)) (hs : c.objs[ref]? = some s) {r s' calls}
    (hm : method s = some (r, s', calls)) : step c e = some (r, (c.modify ref fun _ => s').log calls) := by
  rw [step_sendCall he, hs, Option.bind_some, hm, Option.map_some]

theorem step_sendCall_none (he : e.sendCall = some (ref, method)) (hnone : c.objs[ref]?.bind method = none) :
    step c e = none := by
  rw [step_sendCall he]
  cases hs : c.objs[ref]? with
  | none => rfl
  | some s =>
    rw [hs, Option.bind_some] at hnone
    rw [Option.bind_some, hnone, Option.map_none]

/-- A reply and nothing else. -/
theorem step_sendCall_same (he : e.sendCall = some (ref, method)) (hs : c.objs[ref]? = some s) {r}
    (hm : method s = some (r, s, [])) : step c e = some (r, c) := by
  rw [step_sendCall_some he hs hm, Client.modify_same hs]
  simp [Client.log]

end

/-! ## Calls that get to the flag -/

/-- The call gets to the send side of the stream: the window lets a write
through, or the code for `reset` is one. -/
def Event.reaches (ref : Nat) : Event → Bool
  | .write r data _ streamLeft connLeft => r = ref && data.len ≤ (quicStreamWindowLeft streamLeft connLeft).toNat
  | .writeNonblock r data _ streamLeft connLeft =>
    r = ref && (data.len = 0 || 0 < (quicStreamWindowLeft streamLeft connLeft).toNat)
  | .closeWrite r => r = ref
  | .reset r errorCode _ => r = ref && (resetErrorCode errorCode).toBool
  | _ => false

/-- A call on the stream that does not get to the send side replies the same
on both objects and changes neither. -/
theorem sendCall_inert (he : e.sendCall = some (ref, method)) (hreach : e.reaches ref = false) :
    (∀ s, s.hasClient = true → method s = none) ∨
      ∃ r, ∀ s, s.hasClient = true → method s = some (r, s, []) := by
  cases e with
  | write r data fin streamLeft connLeft =>
    cases he
    have hsmall : ¬ data.len ≤ (quicStreamWindowLeft streamLeft connLeft).toNat := by
      simpa [Event.reaches] using hreach
    refine .inl fun s hc => ?_
    simp only [quicStreamWriteM_turn hc, if_neg hsmall, Option.map_none]
  | writeNonblock r data fin streamLeft connLeft =>
    cases he
    have hfull : data.len ≠ 0 ∧ ¬ 0 < (quicStreamWindowLeft streamLeft connLeft).toNat := by
      simpa [Event.reaches] using hreach
    refine .inr ⟨.error (.mkText .waitWritable "stream send window is full"), fun s hc => ?_⟩
    simp only [quicStreamWriteNonblockM_full hc hfull.1 fin hfull.2]
    rfl
  | closeWrite r =>
    cases he
    simp [Event.reaches] at hreach
  | reset r errorCode rv =>
    cases he
    simp only [Event.reaches, decide_true, Bool.true_and] at hreach
    cases hcode : resetErrorCode errorCode with
    | ok code => simp [hcode, Except.toBool] at hreach
    | error err =>
      refine .inr ⟨.error err, fun s hc => ?_⟩
      simp only [quicStreamResetM, hcode]
      rfl
  | _ => cases he

/-- A call that gets to the send side replies differently on an open stream
and a reset one, or calls ngtcp2 on the open one only. -/
theorem sendCall_differs (he : e.sendCall = some (ref, method)) (hreach : e.reaches ref = true)
    {s s' : QuicStream} (ho : s.sendOpen = true) (hc : s.hasClient = true)
    (hreset : s'.reset = true) (hfin : s'.finSent = false) (hc' : s'.hasClient = true) :
    ∃ r t calls r' t' calls', method s = some (r, t, calls) ∧ method s' = some (r', t', calls') ∧
      (r ≠ r' ∨ ∃ code rv, calls = [.shutdownStreamWrite s.streamId code rv] ∧ calls' = []) := by
  have hshut : s'.sendOpen = false := by simp [QuicStream.sendOpen, hreset]
  cases e with
  | write r data fin streamLeft connLeft =>
    cases he
    have hholds : data.len ≤ (quicStreamWindowLeft streamLeft connLeft).toNat := by
      simpa [Event.reaches] using hreach
    obtain ⟨text, ht⟩ := quicStreamEnqueue_shut hshut data fin
    refine ⟨.ok (.int data.len), s.enqueued data fin, [], .error (.mkText .streamClosed text), s', [], ?_, ?_,
      .inl (by simp)⟩
    · simp only [quicStreamWriteM_turn hc, if_pos hholds, quicStreamEnqueue_open ho]
      rfl
    · simp only [quicStreamWriteM_turn hc', if_pos hholds, ht]
      rfl
  | writeNonblock r data fin streamLeft connLeft =>
    cases he
    have hpos : data.len = 0 ∨ 0 < (quicStreamWindowLeft streamLeft connLeft).toNat := by
      simpa [Event.reaches] using hreach
    have hreply : ∀ t : QuicStream, t.hasClient = true →
        ∃ slice : RString, ∃ fin' : Bool,
          quicStreamWriteNonblockM t data fin streamLeft connLeft = quicStreamEnqueue t slice fin' := by
      intro t ht
      obtain ⟨hdata, h0, -⟩ | ⟨-, slice, -, -, heq⟩ :=
        quicStreamWriteNonblockM_eq t data fin streamLeft connLeft
      · rw [nonblockTake, if_pos ht] at h0
        omega
      · exact ⟨slice, _, heq⟩
    obtain ⟨slice, fin₁, hw⟩ := hreply s hc
    obtain ⟨slice', fin₂, hw'⟩ := hreply s' hc'
    obtain ⟨text, ht⟩ := quicStreamEnqueue_shut hshut slice' fin₂
    refine ⟨.ok (.int slice.len), s.enqueued slice fin₁, [], .error (.mkText .streamClosed text), s', [], ?_, ?_,
      .inl (by simp)⟩
    · simp only [hw, quicStreamEnqueue_open ho]
      rfl
    · simp only [hw', ht]
      rfl
  | closeWrite r =>
    cases he
    have hopen := (sendOpen_iff.1 ho).2.2
    obtain ⟨text, ht⟩ := quicStreamEnqueue_shut hshut .empty true
    refine ⟨.ok .nil, s.enqueued .empty true, [], .error (.mkText .streamClosed text), s', [], ?_, ?_,
      .inl (by simp)⟩
    · simp only [quicStreamCloseWriteM, hopen, quicStreamEnqueue_open ho]
      rfl
    · simp only [quicStreamCloseWriteM, hfin, ht]
      rfl
  | reset r errorCode rv =>
    cases he
    simp only [Event.reaches, decide_true, Bool.true_and] at hreach
    cases hcode : resetErrorCode errorCode with
    | error err => simp [hcode, Except.toBool] at hreach
    | ok code =>
      have hnot := (sendOpen_iff.1 ho).1
      have hone : (quicStreamResetM s errorCode rv).2.2 = [.shutdownStreamWrite s.streamId code rv] := by
        simp only [quicStreamResetM, hcode, hnot, hc]
        cases rv <;> rfl
      have hnone : (quicStreamResetM s' errorCode rv).2.2 = [] := by
        simp only [quicStreamResetM, hcode, hreset]
        rfl
      exact ⟨_, _, _, _, _, _, rfl, rfl, .inr ⟨code, rv, hone, hnone⟩⟩
  | _ => cases he

end

/-- The calls that get to the flag are calls of that stream. -/
theorem reaches_sendCall {e : Event} {ref : Nat} (h : e.reaches ref = true) :
    ∃ method, e.sendCall = some (ref, method) := by
  cases e with
  | write r | writeNonblock r | closeWrite r | reset r =>
    obtain rfl : r = ref := by
      simp only [Event.reaches, Bool.and_eq_true, decide_eq_true_eq] at h
      first
        | exact h
        | exact h.1
    exact ⟨_, rfl⟩
  | _ => cases h

/-! ## The two runs -/

def Ngtcp2Call.isShutdownStreamWrite : Ngtcp2Call → Bool
  | .shutdownStreamWrite .. => true
  | _ => false

/-- What the send side of a stream shows: its chunks, whether FIN is queued,
its cursor, and the RESET_STREAMs ngtcp2 was asked for. -/
def sendView (ref : Nat) (c : Client) : Option (List (List UInt8) × Bool × UInt64) × List Ngtcp2Call :=
  (c.objs[ref]?.map fun s => (s.pendingChunks, s.finSent, s.sentOffset),
    c.calls.filter (·.isShutdownStreamWrite))

/-- `d` is `c` with the peer's reset delivered to `ref`, which in `c` is open
for sending. -/
structure ResetApart (ref : Nat) (code : UInt64) (c d : Client) : Prop where
  isOpen : ∃ s, c.objs[ref]? = some s ∧ s.sendOpen = true ∧ s.hasClient = true
  reset : d = c.modify ref (·.streamReset code)

section
variable {ref : Nat} {code : UInt64}

theorem sendView_modify {g : QuicStream → QuicStream} (hg : ∀ s, SameSend s (g s)) (c : Client) :
    sendView ref (c.modify ref g) = sendView ref c := by
  simp only [sendView, Client.modify, List.getElem?_modify, if_true]
  cases c.objs[ref]? with
  | none => rfl
  | some s => simp [(hg s).pendingChunks, (hg s).finSent, (hg s).sentOffset]

theorem ResetApart.view {c d : Client} (h : ResetApart ref code c d) : sendView ref d = sendView ref c := by
  rw [h.reset]
  exact sendView_modify (fun s => .streamReset s code) c

/-- The peer's reset changes no offer and no accounting, so it is all the
same to `write_pkt`. -/
theorem accountWritev_streamReset (s : QuicStream) (args : WritevArgs) (n : Nat) (pdatalen : Int) :
    (s.streamReset code).accountWritev args n pdatalen = (s.accountWritev args n pdatalen).streamReset code := by
  simp only [QuicStream.accountWritev, QuicStream.streamReset]
  split
  · split <;> rfl
  · split <;> rfl

/-- Two updates that commute on one object commute. -/
theorem Client.modify_comm (c : Client) (r₁ r₂ : Nat) {f g : QuicStream → QuicStream}
    (hfg : r₁ = r₂ → ∀ s, g (f s) = f (g s)) :
    (c.modify r₁ f).modify r₂ g = (c.modify r₂ g).modify r₁ f := by
  simp only [Client.modify]
  congr 1
  by_cases hr : r₁ = r₂
  · subst hr
    rw [List.modify_modify_eq, List.modify_modify_eq]
    congr 1
    funext s
    exact hfg rfl s
  · exact List.modify_modify_ne f g c.objs hr

theorem writePkt_streamReset (answer : WritevAnswer) (buffer : Option Encoding) (c : Client) :
    quicClientWritePkt (fun _ => answer) buffer (c.modify ref (·.streamReset code)) =
      ((quicClientWritePkt (fun _ => answer) buffer c).1,
        (quicClientWritePkt (fun _ => answer) buffer c).2.modify ref (·.streamReset code)) := by
  have hpick : quicClientPickSendStream (c.modify ref (·.streamReset code)) = quicClientPickSendStream c :=
    pick_modify fun s _ => (SameSend.streamReset s code).sendOffer
  have hargs : (c.modify ref (·.streamReset code)).writevArgs = c.writevArgs := by
    simp only [Client.writevArgs, hpick]
  simp only [quicClientWritePkt]
  split
  · rfl
  simp only [hpick, hargs]
  cases answer.result with
  | error rv => rfl
  | ok packet =>
    cases quicClientPickSendStream c with
    | none => dsimp only; split <;> rfl
    | some sel =>
      obtain ⟨r, args⟩ := sel
      have hcomm := Client.modify_comm (c.log [.writevStream c.writevArgs answer]) r ref
        (f := (·.accountWritev c.writevArgs packet.length answer.pdatalen)) (g := (·.streamReset code))
        fun _ s => (accountWritev_streamReset s _ _ _).symm
      dsimp only
      split
      · exact Prod.ext rfl hcomm.symm
      · exact Prod.ext rfl hcomm.symm

/-- `write_pkt` leaves a stream that is open for sending open. -/
theorem writePkt_isOpen {answer : WritevAnswer} {buffer : Option Encoding} {c : Client}
    (h : ∃ s, c.objs[ref]? = some s ∧ s.sendOpen = true ∧ s.hasClient = true) :
    ∃ s, (quicClientWritePkt (fun _ => answer) buffer c).2.objs[ref]? = some s ∧ s.sendOpen = true ∧
      s.hasClient = true := by
  obtain ⟨s, hs, ho, hc⟩ := h
  refine ⟨_, (quicClientWritePkt_after c buffer answer).get hs, ?_⟩
  split
  · simp only [Event.update]
    split
    · next packet hres =>
      obtain ⟨_, _, hacc⟩ := accountWritev_eq s (s.sendOffer.getD .connOnly) packet.length answer.pdatalen
      rw [hacc]
      exact ⟨ho, hc⟩
    · exact ⟨ho, hc⟩
  · exact ⟨ho, hc⟩

/-- A call that does not get to the flag shows the same in both runs and
keeps them apart by the reset alone. -/
theorem ResetApart.keeps {e : Event} (hside : e.sendSide = true) (hreach : e.reaches ref = false)
    {c d : Client} (h : ResetApart ref code c d) :
    (turn step (sendView ref) e c).1 = (turn step (sendView ref) e d).1 ∧
      ResetApart ref code (turn step (sendView ref) e c).2 (turn step (sendView ref) e d).2 := by
  have hboth : ∀ (r : Reply) (c' d' : Client), step c e = some (r, c') → step d e = some (r, d') →
      ResetApart ref code c' d' →
      (turn step (sendView ref) e c).1 = (turn step (sendView ref) e d).1 ∧
        ResetApart ref code (turn step (sendView ref) e c).2 (turn step (sendView ref) e d).2 := by
    intro r c' d' hc hd h'
    rw [turn_some hc, turn_some hd]
    exact ⟨by rw [h'.view], h'⟩
  have hneither : step c e = none → step d e = none →
      (turn step (sendView ref) e c).1 = (turn step (sendView ref) e d).1 ∧
        ResetApart ref code (turn step (sendView ref) e c).2 (turn step (sendView ref) e d).2 := by
    intro hc hd
    rw [turn_none hc, turn_none hd]
    exact ⟨by rw [h.view], h⟩
  obtain ⟨s, hs, ho, hclient⟩ := h.isOpen
  have hd : d.objs[ref]? = some (s.streamReset code) := by
    rw [h.reset]
    simp [Client.modify, hs]
  cases hcall : e.sendCall with
  | none =>
    -- `write_pkt`
    cases e with
    | writePkt buffer answer =>
      refine hboth ((quicClientWritePkt (fun _ => answer) buffer c).1.map .ofPacket)
        (quicClientWritePkt (fun _ => answer) buffer c).2
        ((quicClientWritePkt (fun _ => answer) buffer c).2.modify ref (·.streamReset code)) rfl ?_
        ⟨writePkt_isOpen h.isOpen, rfl⟩
      rw [h.reset, step, writePkt_streamReset]
    | write | writeNonblock | closeWrite | reset => cases hcall
    | _ => cases hside
  | some call =>
    obtain ⟨r, method⟩ := call
    by_cases hr : r = ref
    · subst hr
      rcases sendCall_inert hcall hreach with hnone | ⟨reply, hsame⟩
      · refine hneither (step_sendCall_none hcall ?_) (step_sendCall_none hcall ?_)
        · rw [hs, Option.bind_some, hnone s hclient]
        · rw [hd, Option.bind_some, hnone (s.streamReset code) hclient]
      · exact hboth reply c d (step_sendCall_same hcall hs (hsame s hclient))
          (step_sendCall_same hcall hd (hsame (s.streamReset code) hclient)) h
    · have hother : d.objs[r]? = c.objs[r]? := by
        rw [h.reset]
        simp [Client.modify, Ne.symm hr]
      cases hobj : c.objs[r]?.bind method with
      | none => exact hneither (step_sendCall_none hcall hobj) (step_sendCall_none hcall (by rw [hother, hobj]))
      | some res =>
        obtain ⟨reply, t', calls⟩ := res
        obtain ⟨t, ht, hm⟩ := Option.bind_eq_some_iff.1 hobj
        refine hboth reply _ _ (step_sendCall_some hcall ht hm)
          (step_sendCall_some hcall (hother.trans ht) hm) ⟨⟨s, ?_, ho, hclient⟩, ?_⟩
        · simp [Client.log, Client.modify, hr, hs]
        · rw [h.reset, Client.modify_comm c ref r fun he => absurd he (Ne.symm hr)]
          rfl

/-- A call that gets to the flag tells the runs apart. -/
theorem ResetApart.tells {e : Event} (hreach : e.reaches ref = true) {c d : Client}
    (h : ResetApart ref code c d) :
    (turn step (sendView ref) e c).1 ≠ (turn step (sendView ref) e d).1 := by
  obtain ⟨s, hs, ho, hclient⟩ := h.isOpen
  have hd : d.objs[ref]? = some (s.streamReset code) := by
    rw [h.reset]
    simp [Client.modify, hs]
  have hfin := (sendOpen_iff.1 ho).2.2
  obtain ⟨method, hcall⟩ := reaches_sendCall hreach
  obtain ⟨r, t, calls, r', t', calls', hm, hm', hdiff⟩ :=
    sendCall_differs hcall hreach ho hclient (rfl : (s.streamReset code).reset = true) hfin hclient
  rw [turn_some (step_sendCall_some hcall hs hm), turn_some (step_sendCall_some hcall hd hm')]
  intro heq
  simp only [Prod.mk.injEq, Option.some.injEq] at heq
  rcases hdiff with hne | ⟨errorCode, rv, hone, hnone⟩
  · exact hne heq.1
  · have hcalls : d.calls = c.calls := by rw [h.reset]; rfl
    have hlen := congrArg List.length (congrArg Prod.snd heq.2)
    simp [sendView, Client.log, Client.modify, hcalls, hone, hnone, Ngtcp2Call.isShutdownStreamWrite] at hlen

end

/-- Delivering the peer's reset sets the runs apart. -/
theorem ResetApart.deliver {c : Client} {ref : Nat} {s : QuicStream} (hs : c.objs[ref]? = some s)
    (hclient : s.hasClient = true) (hreg : c.streams.aref s.streamId = some ref) (hopen : s.sendOpen = true)
    (finalSize code : UInt64) :
    ResetApart ref code c (runCallback c (.streamReset s.streamId finalSize code)) := by
  refine ⟨⟨s, hs, hopen, hclient⟩, ?_⟩
  simp only [runCallback, quicStreamResetCb, quicClientLookupStream, hreg]

/-- **When the peer's reset goes unnoticed on the send side.** A stream is
open for sending. Its writers, `close_write` and `reset`, the same calls of
the other streams, and `write_pkt` give the same replies, chunks, FIN flag,
cursor and RESET_STREAMs whether or not the peer has reset it, exactly if
none of the calls gets to the send side of the stream. -/
theorem peerReset_independent_iff {c : Client} {ref : Nat} {s : QuicStream} (hs : c.objs[ref]? = some s)
    (hclient : s.hasClient = true) (hreg : c.streams.aref s.streamId = some ref) (hopen : s.sendOpen = true)
    (finalSize code : UInt64) {es : List Event} (hes : ∀ e ∈ es, e.sendSide = true) :
    observe step (sendView ref) es c =
        observe step (sendView ref) es (runCallback c (.streamReset s.streamId finalSize code)) ↔
      ∀ e ∈ es, e.reaches ref = false := by
  refine observe_eq_iff (R := ResetApart ref code) (fun e hm c d h hreach => h.keeps (hes e hm) hreach)
    (fun e _ c d h hreach => h.tells (by simpa using hreach)) ?_
  exact .deliver hs hclient hreg hopen finalSize code

/-- A stream of the client's, just opened. -/
def openedRun : ClientTrace × Client := run step FreshIds [.bind 0, .openBidiStream (.ok 0)] [] {}

theorem openedRun_get : openedRun.2.objs[0]? = some (quicStreamNew 0) := rfl

/-- The window is full: nothing gets to the send side. -/
theorem peerReset_independent_iff_openedRun :
    observe step (sendView 0) [.writeNonblock 0 (.ofByte 7) true 0 9, .writePkt none ⟨.ok [64], -1⟩] openedRun.2 =
      observe step (sendView 0) [.writeNonblock 0 (.ofByte 7) true 0 9, .writePkt none ⟨.ok [64], -1⟩]
        (runCallback openedRun.2 (.streamReset 0 0 5)) :=
  (peerReset_independent_iff openedRun_get rfl rfl rfl 0 5 (by decide)).2 (by decide)

/-- The peer resets its direction of a fresh stream. A write that would go
through raises StreamClosed. -/
theorem openedRun_peerReset :
    ¬ ∀ tr c, Reach FreshIds tr c → ∀ ref s, c.objs[ref]? = some s →
    s.streamId % 4 = 0 ∨ s.streamId % 4 = 1 → c.streams.aref s.streamId = some ref → s.sendOpen = true →
    ∀ (finalSize code : UInt64) (es : List Event), (∀ e ∈ es, e.sendSide = true) →
    observe step (sendView ref) es c =
      observe step (sendView ref) es (runCallback c (.streamReset s.streamId finalSize code)) := by
  intro h
  have heq := h openedRun.1 openedRun.2 (Steps.of_run (by decide)) 0 _ openedRun_get (.inl rfl) rfl rfl 0 5
    [.write 0 (.ofByte 7) true 9 9] (by decide)
  have happly := ResetApart.tells (e := .write 0 (.ofByte 7) true 9 9) (by decide)
    (.deliver openedRun_get rfl rfl rfl 0 5)
  exact happly (List.cons.inj heq).1

end QuicRuby
