/-
Admission against flow control. `write` and `write_nonblock` look at the
window ngtcp2 reports, which shrinks only when `write_pkt` frames bytes;
what is queued already is not counted. So the queue can come to hold more
than the credit left, and `FitsBeside` is the exact condition under which
it does not.

Credit is a limit the peer grants less the bytes framed, for each stream
and for the connection.
-/
import QuicRuby.SendRun

namespace QuicRuby

open Runs

/-! ## Credit -/

/-- The limit an event grants a stream. -/
def grantedBy (id : Int) : Event × Reply → Nat
  | (.maxStreamData i limit, _) => if i = id then limit.toNat else 0
  | _ => 0

/-- The limit an event grants the connection. -/
def connGrantedBy : Event × Reply → Nat
  | (.maxData limit, _) => limit.toNat
  | _ => 0

/-- The highest limit granted to a stream so far. -/
def streamLimit (tr : ClientTrace) (id : Int) : Nat := tr.foldl (fun m x => max m (grantedBy id x)) 0

def connLimit (tr : ClientTrace) : Nat := tr.foldl (fun m x => max m (connGrantedBy x)) 0

/-- How many bytes a call frames. -/
def Ngtcp2Call.framedLength : Ngtcp2Call → Nat
  | .writevStream args answer => (answer.framed args).length
  | _ => 0

/-- How many bytes were framed on the connection. -/
def connFramed (calls : List Ngtcp2Call) : Nat := (calls.map (·.framedLength)).sum

/-- `ngtcp2_conn_get_max_stream_data_left`. -/
def streamLeft (tr : ClientTrace) (c : Client) (id : Int) : Nat :=
  streamLimit tr id - (framed c.calls id).length

/-- `ngtcp2_conn_get_max_data_left`. -/
def connLeft (tr : ClientTrace) (c : Client) : Nat := connLimit tr - connFramed c.calls

/-- The bytes accepted on an object and not framed. -/
def unframed (tr : ClientTrace) (c : Client) (ref : Nat) : Nat :=
  match c.objs[ref]? with
  | some s => (accepted tr ref).length - (framed c.calls s.streamId).length
  | none => 0

/-- The bytes accepted and not framed, over all streams. -/
def unframedTotal (tr : ClientTrace) (c : Client) : Nat := ∑ ref ∈ Finset.range c.objs.length, unframed tr c ref

section
variable (tr : ClientTrace) (x : Event × Reply) (id : Int)

@[simp] theorem streamLimit_snoc : streamLimit (tr ++ [x]) id = max (streamLimit tr id) (grantedBy id x) := by
  simp [streamLimit]

@[simp] theorem connLimit_snoc :
    connLimit (tr ++ [x]) = max (connLimit tr) (connGrantedBy x) := by simp [connLimit]

@[simp] theorem connFramed_append (calls new : List Ngtcp2Call) :
    connFramed (calls ++ new) = connFramed calls + connFramed new := by simp [connFramed]

end

theorem streamLimit_lt (tr : ClientTrace) (id : Int) : streamLimit tr id < 2 ^ 64 := by
  induction tr using List.reverseRecOn with
  | nil => exact Nat.two_pow_pos 64
  | append_singleton tr x ih =>
    rw [streamLimit_snoc]
    refine Nat.max_lt.2 ⟨ih, ?_⟩
    obtain ⟨e, r⟩ := x
    cases e with
    | maxStreamData i limit =>
      simp only [grantedBy]
      split
      · exact limit.toNat_lt
      · decide
    | _ => exact Nat.two_pow_pos 64

/-- ngtcp2 reports the credit left, frames within it, and says a stream is
blocked only if it has data and no credit. -/
def keepsCreditPromise (tr : ClientTrace) (c : Client) : Event → Bool
  | .write ref _ _ streamWindow connWindow | .writeNonblock ref _ _ streamWindow connWindow =>
    match c.objs[ref]? with
    | some s => streamWindow.toNat = streamLeft tr c s.streamId ∧ connWindow.toNat = connLeft tr c
    | none => true
  | .writePkt _ answer =>
    match answer.result with
    | .ok _ =>
      (answer.framed c.writevArgs).length ≤ streamLeft tr c c.writevArgs.streamId ∧
        (answer.framed c.writevArgs).length ≤ connLeft tr c
    | .error .streamDataBlocked =>
      c.writevArgs.datav ≠ [] ∧ (streamLeft tr c c.writevArgs.streamId = 0 ∨ connLeft tr c = 0)
    | .error _ => true
  | _ => true

def CreditContract : ClientContract := fun tr c e => SendContract tr c e ∧ keepsCreditPromise tr c e = true

instance : ∀ tr c e, Decidable (CreditContract tr c e) := fun tr c e =>
  inferInstanceAs (Decidable (SendContract tr c e ∧ keepsCreditPromise tr c e = true))

theorem CreditContract.fresh (tr : ClientTrace) (c : Client) (e : Event) (h : CreditContract tr c e) :
    FreshIds tr c e := h.1.1

theorem Reach.send {tr c} (h : Reach CreditContract tr c) :
    Reach SendContract tr c := h.mono fun _ _ _ hk => hk.1

/-- The bytes a call takes from an open stream's point of view: all of its
data, or what the window holds of it. -/
def Event.takes (s : QuicStream) : Event → Nat
  | .write _ data _ _ _ => if s.sendOpen then data.len else 0
  | .writeNonblock _ data _ streamWindow connWindow =>
    if s.sendOpen then min data.len (min streamWindow.toNat connWindow.toNat) else 0
  | _ => 0

/-- The bytes a call takes, if any, fit into the credit left beside what is
queued. -/
def FitsBeside : ClientContract := fun tr c e =>
  ∀ (ref : Nat) s, e.target c = some ref → c.objs[ref]? = some s → 0 < e.takes s →
    unframed tr c ref + e.takes s ≤ streamLeft tr c s.streamId ∧ unframedTotal tr c + e.takes s ≤ connLeft tr c

/-- What is queued is within the credit left. -/
structure Within (tr : ClientTrace) (c : Client) : Prop where
  stream : ∀ (ref : Nat) s, c.objs[ref]? = some s → unframed tr c ref ≤ streamLeft tr c s.streamId
  conn : unframedTotal tr c ≤ connLeft tr c

/-! ## Framed within the limits -/

theorem newCalls_connFramed {c : Client} {e : Event} (he : ∀ buffer answer, e ≠ .writePkt buffer answer) :
    connFramed (e.newCalls c) = 0 := by
  refine List.sum_eq_zero fun n hn => ?_
  obtain ⟨call, hm, rfl⟩ := List.mem_map.1 hn
  cases newCalls_makes hm with
  | writev buffer answer => exact absurd rfl (he buffer answer)
  | _ => rfl

theorem writePkt_connFramed {c : Client} {buffer : Option Encoding} (answer : WritevAnswer)
    (hb : buffer ≠ some .other) :
    connFramed ((Event.writePkt buffer answer).newCalls c) = (answer.framed c.writevArgs).length := by
  simp [Event.newCalls, hb, connFramed, Ngtcp2Call.framedLength]

/-- What an event frames, it frames for its object. -/
theorem connFramed_target {c : Client} {e : Event} :
    (e.target c = none → connFramed (e.newCalls c) = 0) ∧
      ∀ (ref : Nat) s, e.target c = some ref → c.objs[ref]? = some s →
        connFramed (e.newCalls c) = (framed (e.newCalls c) s.streamId).length := by
  rcases e.writePkt_or with ⟨buffer, answer, rfl⟩ | hnot
  case inr =>
    rw [newCalls_connFramed hnot]
    refine ⟨fun _ => rfl, fun ref s _ _ => ?_⟩
    rw [(newCalls_framed hnot _).1, List.length_nil]
  by_cases hb : buffer = some .other
  · simp [Event.newCalls, Event.target, hb, connFramed]
  rw [writePkt_connFramed answer hb]
  simp only [Event.target, hb, if_false, Option.map_eq_none_iff, Option.map_eq_some_iff]
  refine ⟨fun hpick => ?_, ?_⟩
  · rw [show c.writevArgs = .connOnly by simp [Client.writevArgs, hpick]]
    unfold WritevAnswer.framed WritevArgs.connOnly
    split <;> simp
  · rintro ref s ⟨⟨ref', args⟩, hpick, rfl⟩ hs
    obtain ⟨-, s', hs', ho⟩ := pick_spec hpick
    obtain rfl : s' = s := by simpa [hs] using hs'.symm
    rw [← sendOffer_streamId ho, (writePkt_framed answer hpick hb).1, writevArgs_of_pick hpick]

/-- A packet has no more data than the credit left. -/
theorem CreditContract.frames_le {tr : ClientTrace} {c : Client} {e : Event} (hk : CreditContract tr c e) :
    (∀ id, (framed (e.newCalls c) id).length ≤ streamLeft tr c id) ∧
      connFramed (e.newCalls c) ≤ connLeft tr c := by
  rcases e.writePkt_or with ⟨buffer, answer, rfl⟩ | hnot
  case inr =>
    rw [newCalls_connFramed hnot]
    refine ⟨fun id => ?_, Nat.zero_le _⟩
    rw [(newCalls_framed hnot id).1]
    exact Nat.zero_le _
  by_cases hb : buffer = some .other
  · simp [Event.newCalls, hb, framed, connFramed]
  have hfits : (answer.framed c.writevArgs).length ≤ streamLeft tr c c.writevArgs.streamId ∧
      (answer.framed c.writevArgs).length ≤ connLeft tr c := by
    have hpromise := hk.2
    unfold keepsCreditPromise at hpromise
    cases hres : answer.result with
    | ok packet => simpa [hres] using hpromise
    | error rv => simp [WritevAnswer.framed, hres]
  rw [writePkt_connFramed answer hb]
  refine ⟨fun id => ?_, hfits.2⟩
  have hcalls : (Event.writePkt buffer answer).newCalls c = [.writevStream c.writevArgs answer] := by
    simp [Event.newCalls, hb]
  rw [hcalls]
  by_cases hid : c.writevArgs.streamId = id
  · have hnew : framed [.writevStream c.writevArgs answer] id = answer.framed c.writevArgs := by
      simp [framed, Ngtcp2Call.framed, hid]
    rw [hnew, ← hid]
    exact hfits.1
  · rw [framed_other hid]
    exact Nat.zero_le _

/-- ngtcp2 has framed no more than the peer allowed. -/
theorem Reach.framed_le_limit {tr c} (h : Reach CreditContract tr c) :
    (∀ id, (framed c.calls id).length ≤ streamLimit tr id) ∧ connFramed c.calls ≤ connLimit tr := by
  refine h.invariant
    (I := fun tr c => (∀ id, (framed c.calls id).length ≤ streamLimit tr id) ∧ connFramed c.calls ≤ connLimit tr)
    ⟨fun _ => Nat.le_refl _, Nat.le_refl _⟩ ?_
  intro tr c e r c' ⟨hstream, hconn⟩ hk hs
  obtain ⟨hnew, hconnNew⟩ := hk.frames_le
  unfold connLeft at hconnNew
  simp only [(step_after hs).calls, framed_append, connFramed_append, List.length_append, streamLimit_snoc,
    connLimit_snoc]
  refine ⟨fun id => ?_, by omega⟩
  have hold := hstream id
  have hfit := hnew id
  unfold streamLeft at hfit
  omega

/-! ## What a step does to the queue -/

/-- The bytes an event got accepted are those its call takes. -/
theorem acceptedBy_length {c : Client} {e : Event} {r : Reply} {c' : Client} (hst : step c e = some (r, c'))
    {ref : Nat} {s : QuicStream} (hs : c.objs[ref]? = some s) (hclient : s.hasClient = true) :
    (acceptedBy ref (e, r)).length = if e.target c = some ref then e.takes s else 0 := by
  by_cases ht : e.target c = some ref
  case neg => rw [if_neg ht, acceptedBy_of_not_target ht, List.length_nil]
  rw [if_pos ht]
  cases e with
  | write r' data fin streamWindow connWindow =>
    cases ht
    simp only [step, hs, Option.bind_some, Option.map_eq_some_iff, Prod.mk.injEq] at hst
    obtain ⟨⟨r', s'⟩, hw, rfl, -⟩ := hst
    have hr := quicStreamWriteM_eq hw
    cases ho : s.sendOpen with
    | true =>
      rw [quicStreamEnqueue_open ho] at hr
      cases hr
      simp [acceptedBy, Except.map, Event.takes, ho, RString.len]
    | false =>
      obtain ⟨text, htext⟩ := quicStreamEnqueue_shut ho data fin
      rw [htext] at hr
      cases hr
      simp [acceptedBy, Except.map, Event.takes, ho]
  | writeNonblock r' data fin streamWindow connWindow =>
    cases ht
    simp only [step, Client.call, quiet, hs, Option.map_some, Option.some.injEq, Prod.mk.injEq] at hst
    obtain ⟨rfl, -⟩ := hst
    have htake : nonblockTake s data streamWindow connWindow =
        min data.len (min streamWindow.toNat connWindow.toNat) := by
      rw [nonblockTake, if_pos hclient, windowLeft_toNat]
    simp only [Event.takes]
    obtain ⟨h0, err, he⟩ | ⟨ho, slice, fin', hb, hl, he⟩ :=
      quicStreamWriteNonblockM_cases s data fin streamWindow connWindow
    · rw [he]
      split
      · next ho =>
        rw [← htake, h0 ho]
        rfl
      · rfl
    · rw [he, if_pos ho, ← htake, ← hl]
      simp only [acceptedBy, Except.map, if_true, List.length_take]
      have hle : slice.len ≤ data.len := by
        rw [hl, htake]
        exact Nat.min_le_left _ _
      exact Nat.min_eq_left hle
  | openBidiStream | openUniStream | acceptStreamNonblock | bind | maxStreamData | maxData => cases ht
  | _ => rfl

/-- A move frames no more than is unsent. -/
theorem SendMove.frames_le {c : Client} {ref : Nat} {s : QuicStream} {e : Event} {acc fr : List UInt8}
    {ff : Bool} {ak : Nat} {s' : QuicStream} {b : SendBuffer UInt8} (hm : SendMove c ref s e acc fr ff ak s')
    (h : Represents s b)
    (hfits : ∀ buffer answer, e = .writePkt buffer answer → answer.fits c.writevArgs = true) :
    b.sent + fr.length ≤ b.accepted.length + acc.length := by
  have hle := b.sent_le
  cases hm with
  | frame buffer answer hb hpick ho =>
    have hfit := hfits buffer answer rfl
    rw [writevArgs_of_pick hpick] at hfit
    obtain ⟨k, hk, hfr, -⟩ := h.afterWritev ho hfit
    have hlen := congrArg List.length hfr
    have hunsent := b.unsent_length
    rw [List.length_take] at hlen
    omega
  | _ => simp only [List.length_nil]; omega

section
variable {tr : ClientTrace} {c : Client} {e : Event} {r : Reply} {c' : Client}

theorem Within.accepted_lt (hrun : Reach CreditContract tr c) (hw : Within tr c) {ref : Nat} {s : QuicStream}
    (hs : c.objs[ref]? = some s) : (accepted tr ref).length < 2 ^ 64 := by
  have hle := hw.stream ref s hs
  have hframed := hrun.framed_le_limit.1 s.streamId
  have hlimit := streamLimit_lt tr s.streamId
  simp only [unframed, hs, streamLeft] at hle
  omega

/-- What is queued on an object grows by what is accepted and shrinks by what
is framed. -/
theorem Within.unframed_step (hrun : Reach CreditContract tr c) (hw : Within tr c) (hk : CreditContract tr c e)
    (hst : step c e = some (r, c')) {ref : Nat} {s : QuicStream} (hs : c.objs[ref]? = some s) :
    unframed (tr ++ [(e, r)]) c' ref + (framed (e.newCalls c) s.streamId).length =
      unframed tr c ref + if e.target c = some ref then e.takes s else 0 := by
  obtain ⟨b, hb⟩ := hrun.send.tracks hs (hw.accepted_lt hrun hs)
  obtain ⟨s', hs', hm⟩ := step_send (hrun.registered CreditContract.fresh) hst hs
  have hfits : ∀ buffer answer, e = .writePkt buffer answer → answer.fits c.writevArgs = true := by
    rintro buffer answer rfl
    exact hk.1.2
  have hle := hm.frames_le hb.represents hfits
  have hsent := b.sent_le
  have hframed : (framed c.calls s.streamId).length = b.sent := by rw [← hb.framed_eq, SendBuffer.framed_length]
  have hacc := acceptedBy_length hst hs (hrun.hasClient hs)
  rw [← hacc]
  simp only [unframed, hs, hs', hm.streamId, (step_after hst).calls, framed_append, accepted_snoc,
    List.length_append, hframed]
  rw [← hb.accepted_eq]
  omega

/-- What is queued over all streams grows by what the event's call takes and
shrinks by what is framed. -/
theorem Within.unframedTotal_step (hrun : Reach CreditContract tr c) (hw : Within tr c)
    (hk : CreditContract tr c e) (hst : step c e = some (r, c')) :
    (e.target c = none → unframedTotal (tr ++ [(e, r)]) c' = unframedTotal tr c) ∧
      ∀ (ref : Nat) s, e.target c = some ref → c.objs[ref]? = some s →
        unframedTotal (tr ++ [(e, r)]) c' + connFramed (e.newCalls c) = unframedTotal tr c + e.takes s := by
  have hreg := hrun.registered CreditContract.fresh
  have hnew : (e.opens c).isSome = true → unframed (tr ++ [(e, r)]) c' c.objs.length = 0 := by
    intro ho
    obtain ⟨id, ho⟩ := Option.isSome_iff_exists.1 ho
    obtain ⟨-, hacc, -, -⟩ := hrun.opened CreditContract.fresh hk hst ho
    unfold unframed
    split
    · rw [hacc]
      exact Nat.zero_sub _
    · rfl
  have hsame : ∀ ref < c.objs.length, e.target c ≠ some ref →
      unframed (tr ++ [(e, r)]) c' ref = unframed tr c ref := by
    intro ref hlt hne
    have hs := List.getElem?_eq_getElem hlt
    have hstep := hw.unframed_step hrun hk hst hs
    rwa [if_neg hne, (newCalls_framed_of_not_target hreg hs hne).1, List.length_nil, Nat.add_zero,
      Nat.add_zero] at hstep
  obtain ⟨hnone, hsome⟩ := (step_after hst).sum hnew hsame
  refine ⟨hnone, fun ref s ht hs => ?_⟩
  have hsum := hsome ref (List.getElem?_eq_some_iff.1 hs).1 ht
  have hstep := hw.unframed_step hrun hk hst hs
  rw [if_pos ht, ← connFramed_target.2 ref s ht hs] at hstep
  unfold unframedTotal
  omega

/-- Credit left shrinks by what is framed, and grows only with a grant. -/
theorem left_step (hrun : Reach CreditContract tr c) (hk : CreditContract tr c e)
    (hst : step c e = some (r, c')) :
    (∀ id, streamLeft tr c id ≤ streamLeft (tr ++ [(e, r)]) c' id + (framed (e.newCalls c) id).length ∧
        (e.target c ≠ none →
          streamLeft (tr ++ [(e, r)]) c' id + (framed (e.newCalls c) id).length = streamLeft tr c id)) ∧
      connLeft tr c ≤ connLeft (tr ++ [(e, r)]) c' + connFramed (e.newCalls c) ∧
        (e.target c ≠ none → connLeft (tr ++ [(e, r)]) c' + connFramed (e.newCalls c) = connLeft tr c) := by
  obtain ⟨hfit, hconnFit⟩ := hk.frames_le
  obtain ⟨hle, hconnLe⟩ := hrun.framed_le_limit
  have hgrant : e.target c ≠ none → (∀ id, grantedBy id (e, r) = 0) ∧ connGrantedBy (e, r) = 0 := by
    intro ht
    cases e with
    | maxStreamData | maxData => exact absurd rfl ht
    | _ => exact ⟨fun _ => rfl, rfl⟩
  unfold streamLeft at hfit ⊢
  unfold connLeft at hconnFit ⊢
  simp only [(step_after hst).calls, framed_append, connFramed_append, List.length_append, streamLimit_snoc,
    connLimit_snoc]
  refine ⟨fun id => ⟨?_, fun ht => ?_⟩, ?_, fun ht => ?_⟩
  · have := hfit id
    omega
  · rw [(hgrant ht).1 id]
    have := hfit id
    omega
  · omega
  · rw [(hgrant ht).2]
    omega

/-- **One step.** What is queued stays within the credit left exactly when
what the call takes fits beside it. -/
theorem Within.step_iff (hrun : Reach CreditContract tr c) (hw : Within tr c) (hk : CreditContract tr c e)
    (hst : step c e = some (r, c')) : Within (tr ++ [(e, r)]) c' ↔ FitsBeside tr c e := by
  obtain ⟨hleft, hconn, hconnEq⟩ := left_step hrun hk hst
  obtain ⟨hnone, hsome⟩ := hw.unframedTotal_step hrun hk hst
  have hafter := step_after hst
  constructor
  · intro hw' ref s ht hs _
    obtain ⟨s', hs', hid⟩ : ∃ s', c'.objs[ref]? = some s' ∧ s'.streamId = s.streamId :=
      ⟨_, hafter.get hs, target_streamId c e ref s⟩
    have htarget : e.target c ≠ none := by rw [ht]; simp
    have hstream := hw'.stream ref s' hs'
    have hstep := hw.unframed_step hrun hk hst hs
    have heq := (hleft s.streamId).2 htarget
    have htotal := hsome ref s ht hs
    have hconnTotal := hw'.conn
    have hconnLeft := hconnEq htarget
    rw [if_pos ht] at hstep
    rw [hid] at hstream
    omega
  · intro hfits
    have hfits : ∀ (ref : Nat) s, e.target c = some ref → c.objs[ref]? = some s →
        unframed tr c ref + e.takes s ≤ streamLeft tr c s.streamId ∧
          unframedTotal tr c + e.takes s ≤ connLeft tr c := by
      intro ref s ht hs
      rcases Nat.eq_zero_or_pos (e.takes s) with h0 | hpos
      · rw [h0]
        exact ⟨hw.stream ref s hs, hw.conn⟩
      · exact hfits ref s ht hs hpos
    refine ⟨fun ref s' hs' => ?_, ?_⟩
    · rcases hafter.streamId hs' with ⟨s, hs, hid⟩ | ⟨rfl, id, ho, hid⟩
      · have hstep := hw.unframed_step hrun hk hst hs
        have hle := (hleft s.streamId).1
        rw [hid]
        by_cases ht : e.target c = some ref
        · have hfit := (hfits ref s ht hs).1
          rw [if_pos ht] at hstep
          omega
        · have hold := hw.stream ref s hs
          rw [if_neg ht] at hstep
          omega
      · obtain ⟨-, hacc, -, -⟩ := hrun.opened CreditContract.fresh hk hst ho
        simp only [unframed, hs', hacc, List.length_nil, Nat.zero_sub, Nat.zero_le]
    · cases ht : e.target c with
      | none =>
        have hzero := connFramed_target.1 ht
        have hold := hw.conn
        rw [hnone ht]
        omega
      | some ref =>
        obtain ⟨s, hs⟩ := target_get (hrun.registered CreditContract.fresh).streams hst ht
        have htotal := hsome ref s ht hs
        have hfit := (hfits ref s ht hs).2
        omega

end

/-! ## Admission -/

/-- **Admission respects flow control.** On each stream and over all of them
what is queued is within the credit left, no stream is offered without
credit, and `write_pkt` does not raise `FlowControl`. -/
structure Admitted (tr : ClientTrace) (c : Client) : Prop where
  within : Within tr c
  offered : ∀ (ref : Nat) args, quicClientPickSendStream c = some (ref, args) → args.datav ≠ [] →
    0 < streamLeft tr c args.streamId ∧ 0 < connLeft tr c
  raises : ∀ buffer answer r c', CreditContract tr c (.writePkt buffer answer) →
    quicClientWritePkt (fun _ => answer) buffer c = (.error r, c') → r.cls ≠ .flowControl

theorem Within.offered {tr c} (hw : Within tr c) (hrun : Reach CreditContract tr c) {ref : Nat}
    {args : WritevArgs} (hpick : quicClientPickSendStream c = some (ref, args)) (hdata : args.datav ≠ []) :
    0 < streamLeft tr c args.streamId ∧ 0 < connLeft tr c := by
  obtain ⟨-, s, hs, ho⟩ := pick_spec hpick
  obtain ⟨b, hb⟩ := hrun.send.tracks hs (hw.accepted_lt hrun hs)
  have hpre := (hb.represents.offer ho).2.1.length_le
  have hpos := List.length_pos_iff.2 hdata
  have hqueued : 0 < unframed tr c ref := by
    simp only [unframed, hs]
    rw [← hb.framed_eq, SendBuffer.framed_length, ← hb.accepted_eq, ← b.unsent_length]
    omega
  have hstream := hw.stream ref s hs
  have hconn := hw.conn
  have hle : unframed tr c ref ≤ unframedTotal tr c :=
    Finset.single_le_sum (f := unframed tr c) (fun _ _ => Nat.zero_le _)
      (Finset.mem_range.2 (List.getElem?_eq_some_iff.1 hs).1)
  rw [sendOffer_streamId ho]
  omega

theorem writePkt_flowControl {c : Client} {buffer : Option Encoding} {answer : WritevAnswer} {err : RubyError}
    {c' : Client} (h : quicClientWritePkt (fun _ => answer) buffer c = (.error err, c'))
    (hcls : err.cls = .flowControl) :
    answer.result = .error .streamDataBlocked := by
  unfold quicClientWritePkt at h
  split at h
  · cases h
    cases hcls
  · dsimp only at h
    split at h
    · next rv hres =>
      cases h
      rw [hres, ngtcp2ErrorClass_flowControl.1 hcls]
    · split at h <;> cases h

theorem Within.admitted {tr c} (hw : Within tr c) (hrun : Reach CreditContract tr c) : Admitted tr c := by
  refine ⟨hw, fun ref args hpick hdata => hw.offered hrun hpick hdata, ?_⟩
  intro buffer answer err c' hk hstep hcls
  have hblocked := writePkt_flowControl hstep hcls
  have hpromise := hk.2
  simp only [keepsCreditPromise, hblocked, decide_eq_true_eq] at hpromise
  obtain ⟨hdata, hzero⟩ := hpromise
  cases hpick : quicClientPickSendStream c with
  | none =>
    rw [show c.writevArgs = .connOnly by simp [Client.writevArgs, hpick]] at hdata
    exact hdata rfl
  | some sel =>
    obtain ⟨ref, args⟩ := sel
    rw [writevArgs_of_pick hpick] at hdata hzero
    have hleft := hw.offered hrun hpick hdata
    omega

/-- **Queued bytes are not counted.** Along a run admission respects flow
control in every state if and only if each call takes only what fits beside
what is queued. -/
theorem admitted_everywhere_iff {tr c} (h : Reach CreditContract tr c) :
    (∀ tr₁ c₁, tr₁ <+: tr → Reach CreditContract tr₁ c₁ → Admitted tr₁ c₁) ↔
      Reach (CreditContract.and FitsBeside) tr c := by
  have hwithin : (∀ tr₁ c₁, tr₁ <+: tr → Reach CreditContract tr₁ c₁ → Admitted tr₁ c₁) ↔
      ∀ tr₁ c₁, tr₁ <+: tr → Reach CreditContract tr₁ c₁ → Within tr₁ c₁ :=
    ⟨fun hall tr₁ c₁ hp hs => (hall tr₁ c₁ hp hs).within,
      fun hall tr₁ c₁ hp hs => (hall tr₁ c₁ hp hs).admitted hs⟩
  rw [hwithin]
  refine Steps.everywhere_iff (P := Within) h ⟨fun ref s hs => by simp at hs, Nat.zero_le _⟩ ?_
  intro tr c e r c' hrun hw hk hst
  exact hw.step_iff hrun hk hst

/-- Two writes with a packet between them. -/
def spacedRun : ClientTrace × Client :=
  run step CreditContract
    [.openBidiStream (.ok 0), .maxStreamData 0 10, .maxData 100,
     .write 0 ⟨[1, 2, 3, 4, 5, 6], by decide⟩ false 10 100,
     .writePkt none ⟨.ok [64], 6⟩,
     .writeNonblock 0 ⟨[7, 8, 9, 10, 11, 12], by decide⟩ false 4 94,
     .writePkt none ⟨.ok [65], 4⟩] [] {}

theorem admitted_everywhere_iff_spacedRun :
    (∀ tr₁ c₁, tr₁ <+: spacedRun.1 → Reach CreditContract tr₁ c₁ → Admitted tr₁ c₁) ↔
      Reach (CreditContract.and FitsBeside) spacedRun.1 spacedRun.2 :=
  admitted_everywhere_iff (Steps.of_run (by decide))

/-- Two writes of 8 bytes in a row, each into a window of 10, and the packets
that use the window up. -/
def rowRun : ClientTrace × Client :=
  run step CreditContract
    [.openBidiStream (.ok 0), .maxStreamData 0 10, .maxData 100,
     .write 0 ⟨[1, 2, 3, 4, 5, 6, 7, 8], by decide⟩ false 10 100,
     .write 0 ⟨[1, 2, 3, 4, 5, 6, 7, 8], by decide⟩ false 10 100,
     .writePkt none ⟨.ok [64], 8⟩,
     .writePkt none ⟨.ok [65], 2⟩] [] {}

theorem rowRun_not_admitted : (¬ ∀ tr c, Reach CreditContract tr c → Within tr c) ∧
    ¬ ∀ tr c, Reach CreditContract tr c → ∀ buffer answer err c', CreditContract tr c (.writePkt buffer answer) →
      quicClientWritePkt (fun _ => answer) buffer c = (.error err, c') → err.cls ≠ .flowControl := by
  have hrun : Reach CreditContract rowRun.1 rowRun.2 := Steps.of_run (by decide)
  constructor
  · intro h
    have hstream := (h _ _ hrun).stream 0 _ rfl
    exact absurd hstream (by decide)
  · intro h
    exact h _ _ hrun none ⟨.error .streamDataBlocked, -1⟩ _ _ (by decide) rfl rfl

end QuicRuby
