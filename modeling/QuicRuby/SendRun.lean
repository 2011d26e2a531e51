/-
What ngtcp2 promises about sending, and what follows over a whole run: each
stream's sending half holds a send buffer whose content is what the program
was told was accepted, whose sent part is what ngtcp2 framed, and whose
acknowledged part is what ngtcp2 acknowledged.
-/
import QuicRuby.SendQueue

namespace QuicRuby

open Runs

/-- ngtcp2 frames no more than it is offered, and acknowledges in order,
without overlap, and only what was framed. -/
def keepsSendPromise (tr : ClientTrace) (c : Client) : Event → Bool
  | .writePkt _ answer => answer.fits c.writevArgs
  | .callback (.ackedStreamDataOffset id offset datalen) =>
    offset.toNat = acked tr id ∧ offset.toNat + datalen.toNat ≤ (framed c.calls id).length
  | _ => true

def SendContract : ClientContract := fun tr c e => FreshIds tr c e ∧ keepsSendPromise tr c e = true

instance : ∀ tr c e, Decidable (SendContract tr c e) := fun tr c e =>
  inferInstanceAs (Decidable (FreshIds tr c e ∧ keepsSendPromise tr c e = true))

theorem SendContract.fresh (tr : ClientTrace) (c : Client) (e : Event) (h : SendContract tr c e) :
    FreshIds tr c e := h.1

/-- The object `s` holds the buffer `b`, and `b` is what the run so far made
of it. -/
structure Tracks (tr : ClientTrace) (c : Client) (ref : Nat) (s : QuicStream) (b : SendBuffer UInt8) : Prop where
  represents : Represents s b
  accepted_eq : b.accepted = accepted tr ref
  framed_eq : b.framed = framed c.calls s.streamId
  acked_eq : c.streams.aref s.streamId = some ref → b.acked = acked tr s.streamId

/-- A move keeps the representation, and the buffer grows by what the move
accepted, framed and acknowledged. -/
theorem Represents.move {c : Client} {ref : Nat} {s : QuicStream} {e : Event} {acc fr : List UInt8}
    {ff : Bool} {ak : Nat} {s' : QuicStream} {b : SendBuffer UInt8} (h : Represents s b)
    (hm : SendMove c ref s e acc fr ff ak s') (hbound : b.accepted.length + acc.length < 2 ^ 64)
    (hfits : ∀ buffer answer, e = .writePkt buffer answer → answer.fits c.writevArgs = true)
    (hacks : b.acked + ak ≤ b.sent) :
    ∃ b' : SendBuffer UInt8, Represents s' b' ∧ b'.accepted = b.accepted ++ acc ∧ b'.framed = b.framed ++ fr ∧
      b'.acked = b.acked + ak := by
  cases hm with
  | idle hsame => exact ⟨b, h.sameSend hsame, by simp, by simp, rfl⟩
  | accept data fin ho =>
    exact ⟨b.accept data.bytes, h.enqueued ho fin hbound, rfl, by simp, rfl⟩
  | frame buffer answer hb hpick ho =>
    have hfit := hfits buffer answer rfl
    rw [writevArgs_of_pick hpick] at hfit
    obtain ⟨k, hk, hfr, hrep⟩ := h.afterWritev ho hfit
    exact ⟨b.frame k hk, hrep, by simp [SendBuffer.frame], by rw [SendBuffer.framed_frame, hfr], rfl⟩
  | ack off datalen hreg =>
    exact ⟨b.ack datalen.toNat hacks, h.ack hacks, by simp [SendBuffer.ack], by simp, rfl⟩

theorem Tracks.new {tr : ClientTrace} {c : Client} {e : Event} {r : Reply} {c' : Client}
    (hrun : Reach SendContract tr c) (hk : SendContract tr c e) (hs : step c e = some (r, c')) {id : Int}
    (ho : e.opens c = some id) (hacked : acked (tr ++ [(e, r)]) id = 0) :
    Tracks (tr ++ [(e, r)]) c' c.objs.length (quicStreamNew id) .empty := by
  obtain ⟨-, hacc, hfr, -⟩ := hrun.opened SendContract.fresh hk hs ho
  exact ⟨.new id, hacc.symm, hfr.symm, fun _ => hacked.symm⟩

/-- Nothing is acknowledged for an id no object has. -/
theorem Reach.acked_noStream {tr c} (h : Reach SendContract tr c) {id : Int} (hno : c.NoStream id) :
    acked tr id = 0 := by
  induction h with
  | refl => rfl
  | @tail tr c e r c' h hk hs ih =>
    have hno := (step_after hs).noStream hno
    rw [acked_snoc, ih hno, Nat.zero_add]
    cases e with
    | callback cb =>
      cases cb with
      | ackedStreamDataOffset i off datalen =>
        simp only [ackedBy]
        split
        · next hi =>
          subst hi
          have hpromise := hk.2
          simp only [keepsSendPromise, (Reach.framed_noStream h hno).1, List.length_nil,
            decide_eq_true_eq] at hpromise
          omega
        · rfl
      | _ => rfl
    | _ => rfl

theorem Tracks.step {tr : ClientTrace} {c : Client} {e : Event} {r : Reply} {c' : Client}
    (hk : SendContract tr c e) (hs : step c e = some (r, c')) {ref : Nat} {s s' : QuicStream}
    (hget : c.objs[ref]? = some s)
    (hm : SendMove c ref s e (acceptedBy ref (e, r)) (framed (e.newCalls c) s.streamId)
      (finFramed (e.newCalls c) s.streamId) (ackedOn c ref s.streamId (e, r)) s')
    (hlt : (accepted (tr ++ [(e, r)]) ref).length < 2 ^ 64) {b : SendBuffer UInt8} (h : Tracks tr c ref s b) :
    ∃ b', Tracks (tr ++ [(e, r)]) c' ref s' b' := by
  have hafter := step_after hs
  have hpromise := hk.2
  rw [accepted_snoc, List.length_append, ← h.accepted_eq] at hlt
  have hfits : ∀ buffer answer, e = .writePkt buffer answer → answer.fits c.writevArgs = true := by
    rintro buffer answer rfl
    exact hpromise
  have hacks : b.acked + ackedOn c ref s.streamId (e, r) ≤ b.sent := by
    have hle := b.acked_le
    rcases hm.acked_cases with hak | ⟨off, datalen, rfl, hreg, hak⟩
    · omega
    · have hframed : (framed c.calls s.streamId).length = b.sent := by
        rw [← h.framed_eq, SendBuffer.framed_length]
      have hacked := h.acked_eq hreg
      simp only [keepsSendPromise, decide_eq_true_eq] at hpromise
      omega
  obtain ⟨b', hrep, hacc, hfr, hak⟩ := h.represents.move hm hlt hfits hacks
  refine ⟨b', hrep, ?_, ?_, fun hreg => ?_⟩
  · rw [hacc, accepted_snoc, h.accepted_eq]
  · rw [hfr, hm.streamId, hafter.calls, framed_append, h.framed_eq]
  · rw [hm.streamId] at hreg ⊢
    have hreg := hafter.registered_before (List.getElem?_eq_some_iff.1 hget).1 hreg
    rw [hak, acked_snoc, ackedOn_of_registered hreg, h.acked_eq hreg]

/-- **The send queue over a run.** As long as fewer than 2^64 bytes are
accepted on it, a stream object holds the buffer the run made of it. -/
theorem Reach.tracks {tr c} (h : Reach SendContract tr c) {ref : Nat} {s : QuicStream}
    (hs : c.objs[ref]? = some s) (hlt : (accepted tr ref).length < 2 ^ 64) : ∃ b, Tracks tr c ref s b := by
  refine h.objects SendContract.fresh
    (I := fun tr c ref s => (accepted tr ref).length < 2 ^ 64 → ∃ b, Tracks tr c ref s b) ?_ ?_ hs hlt
  · intro tr c e r c' id hrun hk hst ho _
    refine ⟨_, .new hrun hk hst ho ?_⟩
    obtain ⟨hno, -, -, -⟩ := hrun.opened SendContract.fresh hk hst ho
    rw [acked_snoc, hrun.acked_noStream hno, Nat.zero_add]
    cases e with
    | callback cb =>
      cases cb with
      | ackedStreamDataOffset => cases ho
      | _ => rfl
    | _ => rfl
  · intro tr c e r c' ref s s' _ hk hst hget hm ih hlt
    have hlt₀ : (accepted tr ref).length < 2 ^ 64 := by
      rw [accepted_snoc, List.length_append] at hlt
      omega
    obtain ⟨b, hb⟩ := ih hlt₀
    exact hb.step hk hst hget hm hlt

end QuicRuby
