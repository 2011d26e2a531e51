/-
The credit the peer has for sending. It is what the transport parameters
announce, plus what the client extends it by, less what was delivered.

The client never extends it: no step calls `extend_max_stream_offset` or
`extend_max_offset`, whatever the program reads. So the initial windows
are all the peer can ever send.
-/
import QuicRuby.ReadExact
import QuicRuby.TransportParams

namespace QuicRuby

open Runs

/-! ## Credit -/

/-- How far a call extends the peer's limit on a stream. -/
def Ngtcp2Call.extends (id : Int) : Ngtcp2Call → Nat
  | .extendMaxStreamOffset i datalen => if i = id then datalen.toNat else 0
  | _ => 0

/-- How far a call extends the peer's limit on the connection. -/
def Ngtcp2Call.connExtends : Ngtcp2Call → Nat
  | .extendMaxOffset datalen => datalen.toNat
  | _ => 0

def extended (calls : List Ngtcp2Call) (id : Int) : Nat := (calls.map (·.extends id)).sum

def connExtended (calls : List Ngtcp2Call) : Nat := (calls.map (·.connExtends)).sum

/-- How many bytes an event delivers, on any stream. -/
def connDeliveredBy : Event × Reply → Nat
  | (.callback (.recvStreamData _ _ _ data), _) => data.length
  | _ => 0

def connDelivered (tr : ClientTrace) : Nat := (tr.map connDeliveredBy).sum

/-- How many more bytes the peer may send on a stream. -/
def peerCredit (p : TransportParams UInt64) (tr : ClientTrace) (c : Client) (id : Int) : Nat :=
  (p.streamWindow id).toNat + extended c.calls id - (delivered tr id).length

/-- How many more bytes the peer may send on the connection. -/
def peerConnCredit (p : TransportParams UInt64) (tr : ClientTrace) (c : Client) : Nat :=
  p.initialMaxData.toNat + connExtended c.calls - connDelivered tr

/-- The peer sends within its credit. -/
def keepsWindow (p : TransportParams UInt64) (tr : ClientTrace) (c : Client) : Event → Bool
  | .callback (.recvStreamData _ id _ data) =>
    data.length ≤ peerCredit p tr c id ∧ data.length ≤ peerConnCredit p tr c
  | _ => true

def WindowContract (p : TransportParams UInt64) : ClientContract := fun tr c e =>
  RecvContract tr c e ∧ keepsWindow p tr c e = true

instance (p : TransportParams UInt64) : ∀ tr c e, Decidable (WindowContract p tr c e) := fun tr c e =>
  inferInstanceAs (Decidable (RecvContract tr c e ∧ keepsWindow p tr c e = true))

/-- How many bytes the program has read, on any stream object. -/
def returnedTotal (tr : ClientTrace) (c : Client) : Nat :=
  ∑ ref ∈ Finset.range c.objs.length, (returned tr ref).length

@[simp] theorem connDelivered_snoc (tr : ClientTrace) (x : Event × Reply) :
    connDelivered (tr ++ [x]) = connDelivered tr + connDeliveredBy x := by
  simp [connDelivered]

/-! ## Nothing is extended -/

theorem newCalls_not_extend {c : Client} {e : Event} {call : Ngtcp2Call} (h : call ∈ e.newCalls c) :
    (∀ id datalen, call ≠ .extendMaxStreamOffset id datalen) ∧ ∀ datalen, call ≠ .extendMaxOffset datalen := by
  cases newCalls_makes h <;> simp

/-- No call of a run gives credit back. -/
theorem Reach.not_extended {K : ClientContract} {tr c} (h : Reach K tr c) :
    (∀ id, extended c.calls id = 0) ∧ connExtended c.calls = 0 := by
  have hcalls : ∀ call ∈ c.calls,
      (∀ id datalen, call ≠ .extendMaxStreamOffset id datalen) ∧ ∀ datalen, call ≠ .extendMaxOffset datalen := by
    refine h.invariant (I := fun _ c => ∀ call ∈ c.calls,
      (∀ id datalen, call ≠ .extendMaxStreamOffset id datalen) ∧ ∀ datalen, call ≠ .extendMaxOffset datalen)
      (by simp) ?_
    intro tr c e r c' ih _ hs call hm
    rw [(step_after hs).calls, List.mem_append] at hm
    exact hm.elim (ih call) newCalls_not_extend
  constructor
  · intro id
    refine List.sum_eq_zero fun n hn => ?_
    obtain ⟨call, hm, rfl⟩ := List.mem_map.1 hn
    cases call with
    | extendMaxStreamOffset i datalen => exact absurd rfl ((hcalls _ hm).1 i datalen)
    | _ => rfl
  · refine List.sum_eq_zero fun n hn => ?_
    obtain ⟨call, hm, rfl⟩ := List.mem_map.1 hn
    cases call with
    | extendMaxOffset datalen => exact absurd rfl ((hcalls _ hm).2 datalen)
    | _ => rfl

/-! ## Delivered within the windows -/

section
variable {p : TransportParams UInt64} {tr : ClientTrace} {c : Client}

theorem Reach.recv (h : Reach (WindowContract p) tr c) : Reach RecvContract tr c := h.mono fun _ _ _ hk => hk.1

theorem Reach.delivered_le (h : Reach (WindowContract p) tr c) :
    (∀ id, (delivered tr id).length ≤ (p.streamWindow id).toNat) ∧
      connDelivered tr ≤ p.initialMaxData.toNat := by
  induction h with
  | refl => exact ⟨fun _ => Nat.zero_le _, Nat.zero_le _⟩
  | @tail tr c e r c' h hk _ ih =>
    obtain ⟨hstream, hconn⟩ := ih
    obtain ⟨hext, hconnExt⟩ := Reach.not_extended h
    rw [connDelivered_snoc]
    simp only [delivered_snoc, List.length_append]
    cases e with
    | callback cb =>
      cases cb with
      | recvStreamData fin i offset data =>
        have hfits := hk.2
        simp only [keepsWindow, peerCredit, peerConnCredit, hext, hconnExt, decide_eq_true_eq] at hfits
        refine ⟨fun id => ?_, by simp only [connDeliveredBy]; omega⟩
        have hold := hstream id
        simp only [deliveredBy]
        split
        · next hid =>
          subst hid
          omega
        · exact hold
      | _ => exact ⟨hstream, hconn⟩
    | _ => exact ⟨hstream, hconn⟩

end

/-! ## All that was delivered is on some stream -/

/-- How many bytes were delivered for an object's id. -/
def deliveredTo (tr : ClientTrace) (c : Client) (ref : Nat) : Nat :=
  match c.objs[ref]? with
  | some s => (delivered tr s.streamId).length
  | none => 0

/-- Data goes to the object of its id. -/
theorem connDeliveredBy_target {tr : ClientTrace} {c : Client} {e : Event} (hrun : Reach RecvContract tr c)
    (hk : RecvContract tr c e) (r : Reply) :
    (e.target c = none → connDeliveredBy (e, r) = 0) ∧
      ∀ (ref : Nat) s, e.target c = some ref → c.objs[ref]? = some s →
        connDeliveredBy (e, r) = (deliveredBy s.streamId (e, r)).length := by
  cases e with
  | callback cb =>
    cases cb with
    | recvStreamData fin id offset data =>
      have hpromise := hk.2
      simp only [keepsRecvPromise, Bool.and_eq_true, Bool.not_eq_true'] at hpromise
      have hentry := (hrun.live RecvContract.fresh).entry id hpromise.1 hpromise.2
      refine ⟨fun ht => ?_, fun ref s ht hs => ?_⟩
      · rw [show c.streams.aref id = none from ht] at hentry
        cases hentry
      · obtain ⟨s', hs', hid⟩ := (hrun.registered RecvContract.fresh).streams id ref ht
        obtain rfl : s' = s := by simpa [hs] using hs'.symm
        simp [connDeliveredBy, deliveredBy, hid]
    | _ => exact ⟨fun _ => rfl, fun _ _ _ _ => rfl⟩
  | _ => exact ⟨fun _ => rfl, fun _ _ _ _ => rfl⟩

theorem Reach.connDelivered_eq {tr c} (h : Reach RecvContract tr c) :
    connDelivered tr = ∑ ref ∈ Finset.range c.objs.length, deliveredTo tr c ref := by
  induction h with
  | refl => rfl
  | @tail tr c e r c' h hk hst ih =>
    have hafter := step_after hst
    obtain ⟨hconnNone, hconnSome⟩ := connDeliveredBy_target h hk r
    have hstep : ∀ (ref : Nat) s, c.objs[ref]? = some s →
        deliveredTo (tr ++ [(e, r)]) c' ref =
          deliveredTo tr c ref + (deliveredBy s.streamId (e, r)).length := by
      intro ref s hs
      simp only [deliveredTo, hs, hafter.get hs, target_streamId, delivered_snoc, List.length_append]
    have hnew : (e.opens c).isSome = true → deliveredTo (tr ++ [(e, r)]) c' c.objs.length = 0 := by
      intro ho
      obtain ⟨id, ho⟩ := Option.isSome_iff_exists.1 ho
      have hno : c.NoStream id := hk.1 id ho
      have hby : deliveredBy id (e, r) = [] := by
        cases e with
        | callback cb =>
          cases cb with
          | streamOpen => rfl
          | _ => cases ho
        | _ => rfl
      unfold deliveredTo
      split
      · next s hs =>
        rcases hafter.streamId hs with ⟨s₀, hs₀, -⟩ | ⟨-, id', ho', hid⟩
        · simp at hs₀
        · rw [ho] at ho'
          cases ho'
          rw [hid, delivered_snoc, ((RecvContract.dataOpen id).delivered_noStream RecvContract.fresh h hno).1, hby]
          rfl
      · rfl
    have hsame : ∀ ref < c.objs.length, e.target c ≠ some ref →
        deliveredTo (tr ++ [(e, r)]) c' ref = deliveredTo tr c ref := by
      intro ref hlt hne
      have hs := List.getElem?_eq_getElem hlt
      have hopen : ∀ fin offset data, e = .callback (.recvStreamData fin c.objs[ref].streamId offset data) →
          c.streams.aref c.objs[ref].streamId = some ref := by
        rintro fin offset data rfl
        exact (RecvContract.dataOpen _).registered RecvContract.fresh h hs hk
      rw [hstep ref _ hs, (deliveredBy_of_not_target hne hopen r).1, List.length_nil, Nat.add_zero]
    obtain ⟨hnone, hsome⟩ := hafter.sum hnew hsame
    rw [connDelivered_snoc, ih]
    cases ht : e.target c with
    | none => rw [hnone ht, hconnNone ht, Nat.add_zero]
    | some ref =>
      obtain ⟨s, hs⟩ := target_get (Reach.registered RecvContract.fresh h).streams hst ht
      have hsum := hsome ref (List.getElem?_eq_some_iff.1 hs).1 ht
      rw [hstep ref s hs, ← hconnSome ref s ht hs] at hsum
      omega

/-- With every buffer empty, all that was delivered has been read. -/
theorem returnedTotal_eq {tr c} (h : Reach RecvContract tr c)
    (hempty : ∀ (ref : Nat) s, c.objs[ref]? = some s → s.recvBuffer = []) :
    returnedTotal tr c = connDelivered tr := by
  rw [h.connDelivered_eq, returnedTotal]
  refine Finset.sum_congr rfl fun ref hm => ?_
  have hs := List.getElem?_eq_getElem (Finset.mem_range.1 hm)
  simp only [deliveredTo, hs, ← (h.buffered hs).empty_iff.1 (hempty ref _ hs)]

/-! ## The credit the peer holds -/

/-- **No credit is given back.** A run makes no call that extends a limit, so
a stream that is read empty leaves the peer its initial window less what
was read, and no more than the window is ever received on it; and so for
the connection. -/
theorem peerCredit_exact {tp : TransportParams Int} {p : TransportParams UInt64}
    (hp : quicFillTransportParams tp = .ok p) (hpos : tp.PositiveWindows) {tr c}
    (h : Reach (WindowContract p) tr c) :
    ((∀ id, extended c.calls id = 0) ∧ connExtended c.calls = 0) ∧
    (∀ (ref : Nat) s, c.objs[ref]? = some s → s.recvBuffer = [] →
      peerCredit p tr c s.streamId = (tp.streamWindow s.streamId).toNat - (returned tr ref).length ∧
        (returned tr ref).length ≤ (tp.streamWindow s.streamId).toNat ∧
        (0 < peerCredit p tr c s.streamId ↔ (returned tr ref).length < (tp.streamWindow s.streamId).toNat)) ∧
    ((∀ (ref : Nat) s, c.objs[ref]? = some s → s.recvBuffer = []) →
      peerConnCredit p tr c = tp.initialMaxData.toNat - returnedTotal tr c ∧
        returnedTotal tr c ≤ tp.initialMaxData.toNat ∧
        (0 < peerConnCredit p tr c ↔ returnedTotal tr c < tp.initialMaxData.toNat)) := by
  obtain ⟨hext, hconnExt⟩ := h.not_extended
  obtain ⟨hle, hconnLe⟩ := h.delivered_le
  refine ⟨⟨hext, hconnExt⟩, ?_, ?_⟩
  · intro ref s hs hempty
    have hread := (h.recv.buffered hs).empty_iff.1 hempty
    have hwithin := hle s.streamId
    rw [streamWindow_toNat hp hpos, ← hread] at hwithin
    have hcredit : peerCredit p tr c s.streamId =
        (tp.streamWindow s.streamId).toNat - (returned tr ref).length := by
      rw [peerCredit, hext, Nat.add_zero, streamWindow_toNat hp hpos, hread]
    exact ⟨hcredit, hwithin, by omega⟩
  · intro hempty
    have hread := returnedTotal_eq h.recv hempty
    rw [initialMaxData_toNat hp hpos, ← hread] at hconnLe
    have hcredit : peerConnCredit p tr c = tp.initialMaxData.toNat - returnedTotal tr c := by
      rw [peerConnCredit, hconnExt, Nat.add_zero, initialMaxData_toNat hp hpos, hread]
    exact ⟨hcredit, hconnLe, by omega⟩

/-- Windows of two bytes for each stream, three for the connection. -/
def smallWindows : TransportParams Int :=
  { TransportParams.default with
    initialMaxStreamDataBidiLocal := 2
    initialMaxStreamDataBidiRemote := 2
    initialMaxStreamDataUni := 2
    initialMaxData := 3 }

def smallWindowsFilled : TransportParams UInt64 :=
  { initialMaxStreamDataBidiLocal := 2
    initialMaxStreamDataBidiRemote := 2
    initialMaxStreamDataUni := 2
    initialMaxData := 3
    initialMaxStreamsBidi := 100
    initialMaxStreamsUni := 100
    maxIdleTimeout := 30000000000
    activeConnectionIdLimit := 7 }

/-- A stream's window used up, and read. -/
def drainedRun : ClientTrace × Client :=
  run step (WindowContract smallWindowsFilled)
    [.openBidiStream (.ok 0),
     .callback (.recvStreamData false 0 0 [1]),
     .readNonblock 0 10,
     .callback (.recvStreamData false 0 1 [2]),
     .readNonblock 0 10] [] {}

theorem peerCredit_exact_drainedRun : peerCredit smallWindowsFilled drainedRun.1 drainedRun.2 0 = 0 ∧
    peerConnCredit smallWindowsFilled drainedRun.1 drainedRun.2 = 3 - returnedTotal drainedRun.1 drainedRun.2 :=
  have hrun : Reach (WindowContract smallWindowsFilled) drainedRun.1 drainedRun.2 := Steps.of_run (by decide)
  have hfill : quicFillTransportParams smallWindows = .ok smallWindowsFilled := rfl
  have hexact := peerCredit_exact hfill (by decide) hrun
  have hempty : ∀ s ∈ drainedRun.2.objs, s.recvBuffer = [] := by decide
  ⟨(hexact.2.1 0 _ rfl rfl).1, (hexact.2.2 fun _ s hs => hempty s (List.mem_of_getElem? hs)).1⟩

/-- A stream read empty, without FIN or reset, whose peer can send no more. -/
theorem drainedRun_no_credit :
    ¬ ∀ (tp : TransportParams Int) p, quicFillTransportParams tp = .ok p → tp.PositiveWindows →
    ∀ tr c, Reach (WindowContract p) tr c → ∀ (ref : Nat) s, c.objs[ref]? = some s →
      s.recvBuffer = [] → s.finReceived = false → s.reset = false → 0 < peerCredit p tr c s.streamId := by
  intro h
  have hcredit := h smallWindows smallWindowsFilled rfl (by decide) drainedRun.1 drainedRun.2
    (Steps.of_run (by decide)) 0 _ rfl rfl rfl rfl
  exact absurd hcredit (by decide)

end QuicRuby
