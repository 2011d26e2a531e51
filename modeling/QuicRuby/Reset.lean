/-
Reset streams and the scheduler. `reset` shuts the stream for ngtcp2 and
refuses later writes, but the scheduler does not look at `reset`: what was
queued before is offered on, and ngtcp2 refuses it with STREAM_SHUT_WR.

So a reset stream is out of the schedule exactly if it had nothing left to
send, or had left the registry.
-/
import QuicRuby.Scheduler
import QuicRuby.SendQueue

namespace QuicRuby

open Runs

/-! ## A stream with nothing to send -/

/-- Whether the walk finds a chunk does not depend on where it counts from. -/
theorem walkPending_none_index {cs : List (List UInt8)} {position : UInt64} {j : Nat}
    (h : walkPending cs position j = none) (j' : Nat) : walkPending cs position j' = none := by
  induction cs generalizing position j j' with
  | nil => rfl
  | cons chunk rest ih =>
    simp only [walkPending] at h ⊢
    split at h
    · cases h
    · next hge =>
      rw [if_neg hge]
      exact ih h (j' + 1)

/-- Shifting acknowledged chunks brings nothing unsent up. -/
theorem walkPending_shiftAcked {cs : List (List UInt8)} {sentOffset shifted ackedOffset : UInt64}
    (h : walkPending cs (sentOffset - shifted) 0 = none) :
    walkPending (shiftAcked cs shifted ackedOffset).1 (sentOffset - (shiftAcked cs shifted ackedOffset).2) 0 =
      none := by
  induction cs generalizing shifted with
  | nil => rfl
  | cons head rest ih =>
    simp only [shiftAcked]
    split
    · refine ih ?_
      have hsub : sentOffset - (shifted + UInt64.ofNat head.length) =
          sentOffset - shifted - UInt64.ofNat head.length := by
        grind
      simp only [walkPending] at h
      split at h
      · cases h
      · rw [hsub]
        exact walkPending_none_index h 0
    · exact h

theorem sendOffer_acked {s : QuicStream} (h : s.sendOffer = none) (datalen : UInt64) :
    (s.ackedStreamDataOffset datalen).sendOffer = none := by
  rw [sendOffer_eq_none_iff] at h ⊢
  exact h.imp id fun ⟨hwalk, hfin⟩ => ⟨walkPending_shiftAcked hwalk, hfin⟩

/-- A reset stream gets nothing more to send. -/
theorem update_sendOffer_none {e : Event} {s : QuicStream} (hreset : s.reset = true) (h : s.sendOffer = none)
    (he : ∀ buffer answer, e ≠ .writePkt buffer answer) : (e.update s).sendOffer = none := by
  have hupdate := update_cases e s
  generalize e.update s = s' at hupdate ⊢
  cases hupdate with
  | same => exact h
  | enqueue data fin ho => simp [QuicStream.sendOpen, hreset] at ho
  | read | reset => exact h
  | account buffer answer => exact absurd rfl (he buffer answer)
  | callback cb =>
    cases cb with
    | streamOpen => exact h
    | recvStreamData fin id offset data =>
      rw [Callback.update, (SameSend.recvStreamData s fin id data).sendOffer, h]
    | ackedStreamDataOffset id offset datalen => exact sendOffer_acked h datalen
    | streamClose set id code => rw [Callback.update, (SameSend.streamClose s set code).sendOffer, h]
    | streamReset id size code => rw [Callback.update, (SameSend.streamReset s code).sendOffer, h]

/-! ## Out of the schedule -/

/-- An answer refuses the stream as shut. -/
def WritevAnswer.shut (answer : WritevAnswer) : Bool :=
  match answer.result with
  | .error .streamShutWr => true
  | _ => false

/-- After the reset ngtcp2 refuses every offer of the stream, and refuses none
but a stream. -/
def keepsShutPromise (ref : Nat) (c : Client) : Event → Bool
  | .writePkt _ answer =>
    match quicClientPickSendStream c with
    | some (r, _) => r ≠ ref || answer.shut
    | none => !answer.shut
  | _ => true

def ShutContract (ref : Nat) : ClientContract := fun _ c e => keepsShutPromise ref c e = true

/-- `write_pkt` does not offer the object, is refused only for another one,
and returns whatever packet ngtcp2 has. -/
structure Unscheduled (ref : Nat) (c : Client) : Prop where
  offered : ∀ args, quicClientPickSendStream c ≠ some (ref, args)
  raises : ∀ buffer answer, keepsShutPromise ref c (.writePkt buffer answer) = true →
    (quicClientWritePkt (fun _ => answer) buffer c).1 = .error (quicRaiseNgtcp2Error .streamShutWr) →
    ∃ ref' args, ref' ≠ ref ∧ quicClientPickSendStream c = some (ref', args)
  written : ∀ packet pdatalen, packet ≠ [] →
    keepsShutPromise ref c (.writePkt none ⟨.ok packet, pdatalen⟩) = true ∧
    (quicClientWritePkt (fun _ => ⟨.ok packet, pdatalen⟩) none c).1 = .ok (some packet)

/-- Nothing of the object will be offered: it is reset, and not registered or
without anything to send. -/
def Quiet (ref : Nat) (c : Client) : Prop :=
  ∃ s, c.objs[ref]? = some s ∧ s.reset = true ∧ (ref ∈ c.streams.values → s.sendOffer = none)

theorem Quiet.not_picked {ref : Nat} {c : Client} (h : Quiet ref c) (args : WritevArgs) :
    quicClientPickSendStream c ≠ some (ref, args) := by
  intro hpick
  obtain ⟨s, hs, -, hnone⟩ := h
  obtain ⟨hm, s', hs', ho⟩ := pick_spec hpick
  obtain rfl : s' = s := by simpa [hs] using hs'.symm
  rw [hnone hm] at ho
  cases ho

theorem quicRaise_shut {writev : WritevArgs → WritevAnswer} {buffer : Option Encoding} {c : Client}
    (h : (quicClientWritePkt writev buffer c).1 = .error (quicRaiseNgtcp2Error .streamShutWr)) :
    (writev c.writevArgs).shut = true := by
  by_cases hb : buffer = some .other
  · subst hb
    cases h
  · rw [writePkt_reply writev hb] at h
    unfold WritevAnswer.shut
    cases hres : (writev c.writevArgs).result with
    | ok packet => rw [hres] at h; cases h
    | error rv =>
      rw [hres] at h
      have hcode : some rv = some Ngtcp2Error.streamShutWr := congrArg RubyError.code (Except.error.inj h)
      cases hcode
      rfl

theorem Quiet.unscheduled {ref : Nat} {c : Client} (h : Quiet ref c) : Unscheduled ref c := by
  refine ⟨h.not_picked, ?_, ?_⟩
  · intro buffer answer hk hr
    have hshut : answer.shut = true := quicRaise_shut hr
    cases hpick : quicClientPickSendStream c with
    | none => simp [keepsShutPromise, hpick, hshut] at hk
    | some sel =>
      obtain ⟨ref', args⟩ := sel
      refine ⟨ref', args, ?_, rfl⟩
      rintro rfl
      exact h.not_picked args hpick
  · intro packet pdatalen hne
    constructor
    · cases hpick : quicClientPickSendStream c with
      | none => simp [keepsShutPromise, hpick, WritevAnswer.shut]
      | some sel =>
        obtain ⟨ref', args⟩ := sel
        have hother : ref' ≠ ref := by
          rintro rfl
          exact h.not_picked args hpick
        simp [keepsShutPromise, hpick, hother]
    · rw [writePkt_reply _ (by decide)]
      simp [hne]

/-- Every event keeps it. -/
theorem Quiet.step {ref : Nat} {c : Client} {e : Event} {r : Reply} {c' : Client} (h : Quiet ref c)
    (hst : step c e = some (r, c')) : Quiet ref c' := by
  have hquiet := h
  obtain ⟨s, hs, hreset, hnone⟩ := h
  have hafter := step_after hst
  refine ⟨_, hafter.get hs, ?_, fun hm => ?_⟩
  · split
    · exact (update_fixed e s).2.2 hreset
    · exact hreset
  · have hold : ref ∈ c.streams.values := by
      obtain ⟨id, hid⟩ := OrderedHash.mem_values_iff.1 hm
      exact OrderedHash.mem_values_iff.2 ⟨id, hafter.registered_before (List.getElem?_eq_some_iff.1 hs).1 hid⟩
    split
    · next ht =>
      refine update_sendOffer_none hreset (hnone hold) ?_
      rintro buffer answer rfl
      simp only [Event.target] at ht
      split at ht
      · cases ht
      · obtain ⟨⟨ref', args⟩, hpick, rfl⟩ := Option.map_eq_some_iff.1 ht
        exact hquiet.not_picked args hpick
    · exact hnone hold

/-! ## A stream with something left is offered -/

/-- The other streams can close until the object is the only one registered. -/
theorem exists_alone {K : ClientContract} (hK : ∀ tr c cb, K tr c (.callback cb)) {ref : Nat} {s : QuicStream}
    (tr : ClientTrace) {c : Client} (hs : c.objs[ref]? = some s) (hm : ref ∈ c.streams.values) :
    ∃ tr' c', Steps step K tr c tr' c' ∧ c'.objs[ref]? = some s ∧ ref ∈ c'.streams.values ∧
      ∀ r ∈ c'.streams.values, r = ref := by
  induction hn : c.streams.entries.length using Nat.strong_induction_on generalizing tr c with
  | _ n ih =>
    by_cases halone : ∀ r ∈ c.streams.values, r = ref
    · exact ⟨tr, c, .refl, hs, hm, halone⟩
    · simp only [not_forall] at halone
      obtain ⟨other, hother, hne⟩ := halone
      obtain ⟨id, hid⟩ := OrderedHash.mem_values_iff.1 hother
      obtain ⟨key, hkey⟩ := OrderedHash.mem_values_iff.1 hm
      have hafter := runCallback_after c (.streamClose false id 0)
      have hstreams : (runCallback c (.streamClose false id 0)).streams = c.streams.delete id := by
        rw [hafter.streams]
        simp [Event.streamsAfter, Event.opens, Event.closes, hid]
      have hkept : (runCallback c (.streamClose false id 0)).objs[ref]? = some s := by
        rw [hafter.get hs, if_neg]
        simp [Event.target, Callback.streamId, hid, hne]
      have hmem : ref ∈ (runCallback c (.streamClose false id 0)).streams.values := by
        have hids : key ≠ id := by
          rintro rfl
          rw [hid] at hkey
          cases hkey
          exact hne rfl
        exact OrderedHash.mem_values_iff.2 ⟨key, by rw [hstreams, OrderedHash.aref_delete, if_neg hids, hkey]⟩
      have hlt : (runCallback c (.streamClose false id 0)).streams.entries.length < n := by
        rw [hstreams, ← hn]
        exact OrderedHash.entries_delete_lt hid
      obtain ⟨tr', c', hrun, hrest⟩ := ih _ hlt _ hkept hmem rfl
      exact ⟨tr', c', (Steps.one (hK _ _ _) rfl).trans hrun, hrest⟩

theorem pick_alone {ref : Nat} {c : Client} {args : WritevArgs} (hm : ref ∈ c.streams.values)
    (halone : ∀ r ∈ c.streams.values, r = ref) (ho : c.offer ref = some args) :
    quicClientPickSendStream c = some (ref, args) := by
  cases hv : c.streams.values with
  | nil => rw [hv] at hm; cases hm
  | cons r rest =>
    obtain rfl : r = ref := halone r (by rw [hv]; exact List.mem_cons_self ..)
    exact pick_eq_some_iff.2 ⟨[], rest, by rw [hv]; rfl, by simp, ho⟩

/-! ## Stream#reset -/

/-- A `reset` that returns leaves the stream reset, and the rest as it was. -/
theorem reset_returned {c : Client} {ref : Nat} {s : QuicStream} {errorCode : Option Int}
    {rv : Option Ngtcp2Error} {v : RValue} {c' : Client} (hs : c.objs[ref]? = some s)
    (h : step c (.reset ref errorCode rv) = some (.ok v, c')) :
    c'.objs[ref]? = some { s with reset := true } ∧ c'.streams = c.streams := by
  have hafter := step_after h
  refine ⟨?_, hafter.streams⟩
  rw [hafter.get hs, if_pos (show (Event.reset ref errorCode rv).target c = some ref from rfl)]
  simp only [step, Client.call, hs, Option.map_some, Option.some.injEq, Prod.mk.injEq] at h
  obtain ⟨hr, -⟩ := h
  simp only [Event.update, quicStreamResetM] at hr ⊢
  split
  · next hcode => simp [hcode, Except.map] at hr
  · next errorCode' hcode =>
    simp only [hcode] at hr
    split
    · next hreset => rw [← hreset]
    · next hreset =>
      split
      · rfl
      · next hclient =>
        cases rv with
        | none => rfl
        | some rv => simp [hreset, hclient, Except.map] at hr

/-- **A reset stream leaves the scheduler only with nothing left to send.**
After `reset` has returned the stream stays out of the schedule along every
later run if and only if it had left the registry, its FIN was flushed, or
all its queued bytes were sent and no FIN was queued. -/
theorem reset_unscheduled_iff {c : Client} {ref : Nat} {s : QuicStream} {errorCode : Option Int} {c' : Client}
    (hs : c.objs[ref]? = some s) (hchunks : ∀ chunk ∈ s.pendingChunks, chunk.length < 2 ^ 63)
    (h : step c (.reset ref errorCode none) = some (.ok .nil, c')) (tr : ClientTrace) :
    (∀ tr' c'', Steps step (ShutContract ref) tr c' tr' c'' → Unscheduled ref c'') ↔
      ref ∉ c.streams.values ∨ s.finFlushed = true ∨
        s.pendingChunks.flatten.length ≤ (s.sentOffset - s.pendingShifted).toNat ∧ s.finSent = false := by
  obtain ⟨hs', hstreams⟩ := reset_returned hs h
  have hoffer : ({ s with reset := true } : QuicStream).sendOffer = s.sendOffer := rfl
  have hlengths : ∀ chunk ∈ s.pendingChunks, chunk.length < 2 ^ 64 :=
    fun chunk hm => Nat.lt_trans (hchunks chunk hm) (by decide)
  rw [← walkPending_none_iff hlengths, ← sendOffer_eq_none_iff]
  constructor
  · intro hall
    by_cases hm : ref ∈ c.streams.values
    case neg => exact .inl hm
    refine .inr ?_
    cases ho : s.sendOffer with
    | none => rfl
    | some args =>
      obtain ⟨tr', c'', hrun, hget, hm', halone⟩ :=
        exists_alone (K := ShutContract ref) (fun _ _ _ => rfl) tr hs' (by rw [hstreams]; exact hm)
      have hleft : c''.offer ref = some args := by simp [Client.offer, hget, hoffer, ho]
      exact absurd (pick_alone hm' halone hleft) ((hall tr' c'' hrun).offered args)
  · intro hquiet tr' c'' hrun
    have hstart : Quiet ref c' := by
      refine ⟨_, hs', rfl, fun hm => ?_⟩
      rw [hstreams] at hm
      exact hquiet.resolve_left fun hnot => hnot hm
    have hend := hrun.invariant (I := fun _ c => Quiet ref c) hstart fun _ _ _ _ _ hq _ hst => hq.step hst
    exact hend.unscheduled

/-- A byte written, sent, and nothing more. -/
def sentRun : ClientTrace × Client :=
  run step FreshIds
    [.openBidiStream (.ok 0), .write 0 (.ofByte 1) false 9 9, .writePkt none ⟨.ok [64], 1⟩] [] {}

/-- And then reset. -/
def resetRun : ClientTrace × Client := run step FreshIds [.reset 0 none none] sentRun.1 sentRun.2

theorem reset_unscheduled_iff_resetRun : step sentRun.2 (.reset 0 none none) = some (.ok .nil, resetRun.2) ∧
    ∀ tr' c'', Steps step (ShutContract 0) sentRun.1 resetRun.2 tr' c'' → Unscheduled 0 c'' :=
  have hs : sentRun.2.objs[0]? = some (sentRun.2.objs.getD 0 (quicStreamNew 0)) := rfl
  have hst : step sentRun.2 (.reset 0 none none) = some (.ok .nil, resetRun.2) := rfl
  ⟨hst, (reset_unscheduled_iff hs (by decide) hst _).2 (.inr (.inr (by decide)))⟩

/-- A byte written and not sent when the stream is reset. -/
def unsentRun : ClientTrace × Client :=
  run step FreshIds [.openBidiStream (.ok 0), .write 0 (.ofByte 1) false 9 9] [] {}

theorem unsentRun_scheduled :
    ¬ ∀ tr c, Reach FreshIds tr c → ∀ (ref : Nat) s errorCode c', c.objs[ref]? = some s →
    step c (.reset ref errorCode none) = some (.ok .nil, c') →
    ∀ tr' c'', Steps step (ShutContract ref) tr c' tr' c'' → Unscheduled ref c'' := by
  intro h
  have hout := h unsentRun.1 unsentRun.2 (Steps.of_run (by decide)) 0 _ none _ rfl rfl _ _ .refl
  exact hout.offered _ rfl

end QuicRuby
