/-
Accepting the server's streams. The first data of a stream, or its FIN, puts
it on `@accept_queue`, and the flag in the object keeps later data from
doing so again. What was accepted followed by what is queued is then the
server's streams in the order of their first data, closed or not.

`accept_stream` takes from the queue around rounds of `pump_once`, which may
put streams on it: a call is a run of the machine that ends with the
`accept_stream_nonblock` that found the stream.
-/
import QuicRuby.Registry
import QuicRuby.ReadExact
import QuicRuby.Pump

namespace QuicRuby

open Runs

/-! ## Streams that have arrived, and streams accepted -/

/-- The server's stream an event brings data or FIN for. -/
def arrivedBy : Event × Reply → List Int
  | (.callback (.recvStreamData _ id _ _), _) => if id % 2 = 1 then [id] else []
  | _ => []

/-- The server's streams that have had a data callback, by the first one. -/
def arrivals (tr : ClientTrace) : List Int := (tr.flatMap arrivedBy).eraseDups

def acceptedStreamBy : Event × Reply → List Nat
  | (.acceptStreamNonblock, .ok (.stream ref)) => [ref]
  | _ => []

/-- The stream objects returned so far. -/
def acceptedStreams (tr : ClientTrace) : List Nat := tr.flatMap acceptedStreamBy

@[simp] theorem acceptedStreams_snoc (tr : ClientTrace) (x : Event × Reply) :
    acceptedStreams (tr ++ [x]) = acceptedStreams tr ++ acceptedStreamBy x := by simp [acceptedStreams]

theorem eraseDups_concat {α : Type} [DecidableEq α] (l : List α) (a : α) :
    (l ++ [a]).eraseDups = if a ∈ l then l.eraseDups else l.eraseDups ++ [a] := by
  rw [List.eraseDups_append]
  by_cases hm : a ∈ l <;> simp [List.removeAll, hm, List.eraseDups_cons]

theorem eraseDups_nodup {α : Type} [DecidableEq α] (l : List α) : l.eraseDups.Nodup := by
  induction l using List.reverseRecOn with
  | nil => simp
  | append_singleton l a ih =>
    rw [eraseDups_concat]
    split
    · exact ih
    · next hm =>
      rw [← List.concat_eq_append]
      exact ih.concat fun h => hm (List.mem_eraseDups.1 h)

theorem arrivals_nodup (tr : ClientTrace) : (arrivals tr).Nodup := eraseDups_nodup _

theorem arrivals_odd {tr : ClientTrace} {id : Int} (h : id ∈ arrivals tr) : id % 2 = 1 := by
  obtain ⟨x, -, hid⟩ := List.mem_flatMap.1 (List.mem_eraseDups.1 h)
  unfold arrivedBy at hid
  split at hid
  · split at hid
    · next hodd =>
      obtain rfl := List.mem_singleton.1 hid
      exact hodd
    · cases hid
  · cases hid

/-- Data of a server's stream adds the stream unless it is there. -/
theorem arrivals_snoc (tr : ClientTrace) (x : Event × Reply) :
    arrivals (tr ++ [x]) = arrivals tr ++ (arrivedBy x).filter (· ∉ arrivals tr) := by
  have hby : arrivedBy x = [] ∨ ∃ id, arrivedBy x = [id] := by
    unfold arrivedBy
    split
    · split
      · exact .inr ⟨_, rfl⟩
      · exact .inl rfl
    · exact .inl rfl
  simp only [arrivals, List.flatMap_append, List.flatMap_singleton]
  rcases hby with hnil | ⟨id, hone⟩
  · simp [hnil]
  · rw [hone, eraseDups_concat]
    by_cases hm : id ∈ tr.flatMap arrivedBy <;> simp [hm, List.mem_eraseDups]

/-! ## What ngtcp2 promises -/

/-- Data for a server's stream comes after its `stream_open` and before its
`stream_close`. -/
def serverDataOpen (tr : ClientTrace) : Event → Bool
  | .callback (.recvStreamData _ id _ _) => id % 2 ≠ 1 || opened tr id && !closed tr id
  | _ => true

def keepsAcceptPromise (tr : ClientTrace) (e : Event) : Bool := neverReused tr e && serverDataOpen tr e

def AcceptContract : ClientContract := fun tr _ e => keepsAcceptPromise tr e = true

instance : ∀ tr c e, Decidable (AcceptContract tr c e) := fun tr _ e =>
  inferInstanceAs (Decidable (keepsAcceptPromise tr e = true))

theorem AcceptContract.neverReused (tr : ClientTrace) (c : Client) (e : Event) (h : AcceptContract tr c e) :
    NeverReused tr c e := by
  simp only [AcceptContract, keepsAcceptPromise, Bool.and_eq_true] at h
  exact h.1

theorem AcceptContract.dataOpen {id : Int} (hid : id % 2 = 1) : DataOpen AcceptContract id := by
  intro tr c fin offset data hk
  simpa [AcceptContract, keepsAcceptPromise, QuicRuby.neverReused, serverDataOpen, hid] using hk

/-- Ids stay apart along such a run. -/
theorem Reach.acceptFresh {tr c} (h : Reach AcceptContract tr c) :
    Reach (AcceptContract.and FreshIds) tr c := by
  refine h.strengthen fun tr' c' e hrun hk => ?_
  have hreg : Reach NeverReused tr' c' := hrun.mono fun tr c e hk => hk.1.neverReused
  exact hreg.registry.fresh hk.neverReused

/-! ## The queue, step by step -/

/-- What an event puts on the queue. -/
def Event.pushes (c : Client) : Event → List Nat
  | .callback (.recvStreamData _ id _ _) =>
    match c.streams.aref id with
    | some ref => if (c.objs[ref]?.map (·.toAccept id)).getD false then [ref] else []
    | none => []
  | _ => []

theorem openStream_acceptQueue (call : Ngtcp2Call) (answer : Except Ngtcp2Error Int) (c : Client) :
    (openStream call answer c).2.acceptQueue = c.acceptQueue := by
  cases answer <;> rfl

theorem writePkt_acceptQueue (writev : WritevArgs → WritevAnswer) (buffer : Option Encoding) (c : Client) :
    (quicClientWritePkt writev buffer c).2.acceptQueue = c.acceptQueue := by
  unfold quicClientWritePkt
  split
  · rfl
  dsimp only
  split
  · rfl
  · cases quicClientPickSendStream c <;> split <;> rfl

/-- What is accepted comes off the front of the queue, what arrives goes to
the end. -/
theorem step_acceptQueue {c : Client} {e : Event} {r : Reply} {c' : Client} (h : step c e = some (r, c')) :
    acceptedStreamBy (e, r) ++ c'.acceptQueue = c.acceptQueue ++ e.pushes c := by
  cases e with
  | openBidiStream answer | openUniStream answer =>
    simp only [step, Option.some.injEq, Prod.mk.injEq] at h
    obtain ⟨-, rfl⟩ := h
    exact (openStream_acceptQueue _ answer c).trans (List.append_nil _).symm
  | write ref data fin streamLeft connLeft =>
    simp only [step, Option.bind_eq_some_iff, Option.map_eq_some_iff, Prod.mk.injEq] at h
    obtain ⟨s, -, x, -, -, rfl⟩ := h
    simp [acceptedStreamBy, Event.pushes, Client.modify]
  | writeNonblock | closeWrite | readNonblock | closeRead | close | reset =>
    simp only [step, Client.call, Option.map_eq_some_iff, Prod.mk.injEq] at h
    obtain ⟨s, -, -, rfl⟩ := h
    simp [acceptedStreamBy, Event.pushes, Client.modify, Client.log]
  | writePkt buffer answer =>
    simp only [step, Option.some.injEq, Prod.mk.injEq] at h
    obtain ⟨-, rfl⟩ := h
    exact (writePkt_acceptQueue _ buffer c).trans (List.append_nil _).symm
  | acceptStreamNonblock =>
    simp only [step, acceptStreamNonblock, Option.some.injEq, Prod.mk.injEq] at h
    obtain ⟨rfl, rfl⟩ := h
    cases hq : c.acceptQueue <;> simp [acceptedStreamBy, Event.pushes, Except.map, hq]
  | bind | maxStreamData | maxData =>
    cases h
    simp [acceptedStreamBy, Event.pushes, Client.bind]
  | callback cb =>
    cases h
    cases cb with
    | streamOpen id =>
      simp only [acceptedStreamBy, Event.pushes, runCallback, quicStreamOpenCb, List.nil_append, List.append_nil]
      split <;> rfl
    | recvStreamData fin id offset data =>
      cases hid : c.streams.aref id with
      | none =>
        simp [acceptedStreamBy, Event.pushes, runCallback, quicRecvStreamDataCb, quicClientLookupStream, hid]
      | some ref =>
        simp only [acceptedStreamBy, Event.pushes, runCallback, quicRecvStreamDataCb, quicClientLookupStream, hid,
          List.nil_append]
        split <;> simp [Client.modify]
    | ackedStreamDataOffset id offset datalen =>
      simp only [acceptedStreamBy, Event.pushes, runCallback, quicAckedStreamDataOffsetCb, List.nil_append,
        List.append_nil]
      split <;> rfl
    | streamClose set id code =>
      simp only [acceptedStreamBy, Event.pushes, runCallback, quicStreamCloseCb, List.nil_append, List.append_nil]
      split <;> rfl
    | streamReset id size code =>
      simp only [acceptedStreamBy, Event.pushes, runCallback, quicStreamResetCb, List.nil_append, List.append_nil]
      split <;> rfl

/-! ## The flag, step by step -/

@[simp] theorem recvStreamData_acceptQueued (s : QuicStream) (fin : Bool) (id : Int) (data : List UInt8) :
    (s.recvStreamData fin id data).acceptQueued = (s.acceptQueued || id % 2 = 1) := by
  rw [recvStreamData_eq]

/-- Data of a server's stream sets the flag, and nothing else changes it. -/
theorem update_acceptQueued (e : Event) (s : QuicStream) (r : Reply) :
    (e.update s).acceptQueued = (s.acceptQueued || !(arrivedBy (e, r)).isEmpty) := by
  have call : (∀ cb, e ≠ .callback cb) → (e.update s).acceptQueued = s.acceptQueued := by
    intro he
    have hupdate := update_cases e s
    generalize e.update s = s' at hupdate ⊢
    cases hupdate with
    | account buffer answer n =>
      obtain ⟨_, _, hacc⟩ := accountWritev_eq s (s.sendOffer.getD .connOnly) n answer.pdatalen
      rw [hacc]
    | callback cb => exact absurd rfl (he cb)
    | same | enqueue | read | reset => rfl
  cases e with
  | callback cb =>
    cases cb with
    | recvStreamData fin id offset data =>
      simp only [Event.update, Callback.update, recvStreamData_acceptQueued, arrivedBy]
      split <;> simp_all
    | streamClose set id code =>
      obtain ⟨_, _, hclose⟩ := streamClose_eq s set code
      rw [Event.update, Callback.update, hclose]
      exact (Bool.or_false s.acceptQueued).symm
    | _ => exact (Bool.or_false s.acceptQueued).symm
  | _ => exact (call fun cb h => by cases h).trans (Bool.or_false s.acceptQueued).symm

/-! ## The queue along a run -/

/-- The ids of some stream objects. -/
def Client.ids (c : Client) (refs : List Nat) : List (Option Int) :=
  refs.map fun ref => c.objs[ref]?.map (·.streamId)

@[simp] theorem Client.ids_append (c : Client) (refs refs' : List Nat) :
    c.ids (refs ++ refs') = c.ids refs ++ c.ids refs' := List.map_append

/-- Objects keep their ids. -/
theorem After.ids {c : Client} {e : Event} {c' : Client} (h : After c e c') {refs : List Nat} {ids : List Int}
    (hids : c.ids refs = ids.map some) : c'.ids refs = ids.map some := by
  rw [← hids]
  refine List.map_congr_left fun ref hm => ?_
  have hsome : c.objs[ref]?.map (·.streamId) ∈ ids.map some := hids ▸ List.mem_map_of_mem hm
  obtain ⟨id, -, hid⟩ := List.mem_map.1 hsome
  obtain ⟨s, hs, -⟩ := Option.map_eq_some_iff.1 hid.symm
  rw [h.get hs, hs, Option.map_some, Option.map_some, target_streamId]

/-- What was accepted and what is queued are the streams that have arrived, in
order, and the flag says which have. -/
structure Accepts (tr : ClientTrace) (c : Client) : Prop where
  order : c.ids (acceptedStreams tr ++ c.acceptQueue) = (arrivals tr).map some
  flag : ∀ (ref : Nat) s, c.objs[ref]? = some s → s.acceptQueued = decide (s.streamId ∈ arrivals tr)

theorem Accepts.initial : Accepts [] {} := ⟨rfl, by simp⟩

section
variable {tr : ClientTrace} {c : Client} {e : Event} {r : Reply}

/-- A stream that has arrived has an object. -/
theorem Accepts.object (h : Accepts tr c) {id : Int} (hid : id ∈ arrivals tr) :
    ∃ s ∈ c.objs, s.streamId = id := by
  have hm : some id ∈ c.ids (acceptedStreams tr ++ c.acceptQueue) := h.order ▸ List.mem_map_of_mem hid
  obtain ⟨ref, -, href⟩ := List.mem_map.1 hm
  obtain ⟨s, hs, rfl⟩ := Option.map_eq_some_iff.1 href
  exact ⟨s, List.mem_of_getElem? hs, rfl⟩

/-- Data for a server's stream finds its object. -/
theorem arrival_object (hreg : Registered c) (hlive : Live tr c) (hk : AcceptContract tr c e) {id : Int}
    (hid : id ∈ arrivedBy (e, r)) :
    ∃ ref s, e.target c = some ref ∧ c.objs[ref]? = some s ∧ s.streamId = id ∧ id % 2 = 1 := by
  cases e with
  | callback cb =>
    cases cb with
    | recvStreamData fin i offset data =>
      simp only [arrivedBy] at hid
      split at hid
      · next hodd =>
        obtain rfl := List.mem_singleton.1 hid
        obtain ⟨hopened, hclosed⟩ := AcceptContract.dataOpen hodd tr c fin offset data hk
        obtain ⟨ref, haref⟩ := Option.isSome_iff_exists.1 (hlive.entry id hopened hclosed)
        obtain ⟨s, hs, hsid⟩ := hreg.streams id ref haref
        exact ⟨ref, s, haref, hs, hsid, hodd⟩
      · cases hid
    | _ => cases hid
  | _ => cases hid

/-- A stream is put on the queue when it arrives, and not again. -/
theorem Accepts.pushes (h : Accepts tr c) (hreg : Registered c) (hlive : Live tr c) (hk : AcceptContract tr c e) :
    c.ids (e.pushes c) = ((arrivedBy (e, r)).filter (· ∉ arrivals tr)).map some := by
  cases e with
  | callback cb =>
    cases cb with
    | recvStreamData fin id offset data =>
      by_cases hodd : id % 2 = 1
      · have hby : arrivedBy (.callback (.recvStreamData fin id offset data), r) = [id] := by
          simp [arrivedBy, hodd]
        obtain ⟨ref, s, haref, hs, hsid, -⟩ := arrival_object hreg hlive hk (r := r) (by simp [hby] : id ∈ _)
        have haref : c.streams.aref id = some ref := haref
        have hflag := h.flag ref s hs
        rw [hsid] at hflag
        rw [hby]
        by_cases hm : id ∈ arrivals tr <;>
          simp [Event.pushes, haref, hs, QuicStream.toAccept, hflag, hodd, hm, Client.ids, hsid]
      · have hpush : (Event.callback (.recvStreamData fin id offset data)).pushes c = [] := by
          simp only [Event.pushes]
          split
          · next ref haref =>
            obtain ⟨s, hs, -⟩ := hreg.streams id ref haref
            simp [hs, QuicStream.toAccept, hodd]
          · rfl
        simp [hpush, arrivedBy, hodd, Client.ids]
    | _ => rfl
  | _ => rfl

/-- An event brings data for an object exactly if it is about the object and
brings data. -/
theorem arrival_iff (hreg : Registered c) (hlive : Live tr c) (hk : AcceptContract tr c e) {ref : Nat}
    {s : QuicStream} (hs : c.objs[ref]? = some s) :
    s.streamId ∈ arrivedBy (e, r) ↔ e.target c = some ref ∧ arrivedBy (e, r) ≠ [] := by
  constructor
  · intro hid
    obtain ⟨ref', s', ht, hs', hsid, -⟩ := arrival_object hreg hlive hk hid
    rw [ht, hreg.ids ref' ref s' s hs' hs hsid]
    exact ⟨rfl, List.ne_nil_of_mem hid⟩
  · rintro ⟨ht, hne⟩
    obtain ⟨id, hid⟩ := List.exists_mem_of_ne_nil _ hne
    obtain ⟨ref', s', ht', hs', hsid, -⟩ := arrival_object hreg hlive hk hid
    obtain rfl : ref' = ref := Option.some.inj (ht'.symm.trans ht)
    obtain rfl : s' = s := Option.some.inj (hs'.symm.trans hs)
    rwa [hsid]

theorem Accepts.step (h : Accepts tr c) (hreg : Registered c) (hlive : Live tr c) (hk : AcceptContract tr c e)
    (hfresh : FreshIds tr c e) {c' : Client} (hs : step c e = some (r, c')) :
    Accepts (tr ++ [(e, r)]) c' := by
  have hafter := step_after hs
  have hpushes := h.pushes hreg hlive hk (r := r)
  constructor
  · rw [acceptedStreams_snoc, List.append_assoc, step_acceptQueue hs, ← List.append_assoc, Client.ids_append,
      hafter.ids h.order, hafter.ids hpushes, arrivals_snoc, List.map_append]
  · intro ref s' hs'
    have hmem : ∀ id, id ∈ arrivals (tr ++ [(e, r)]) ↔ id ∈ arrivals tr ∨ id ∈ arrivedBy (e, r) := by
      intro id
      rw [arrivals_snoc, List.mem_append, List.mem_filter]
      by_cases hm : id ∈ arrivals tr <;> simp [hm]
    rcases hafter.get_inv hs' with ⟨s, hget, rfl⟩ | ⟨rfl, id, ho, rfl⟩
    · have harrives := arrival_iff hreg hlive hk (r := r) hget
      rw [Bool.eq_iff_iff, decide_eq_true_iff, target_streamId, hmem, harrives]
      by_cases ht : e.target c = some ref
      · rw [if_pos ht, update_acceptQueued e s r, h.flag ref s hget]
        simp [ht]
      · rw [if_neg ht, h.flag ref s hget]
        simp [ht]
    · -- A new object's id is no older object's, so nothing of it has arrived.
      rw [Bool.eq_iff_iff, decide_eq_true_iff, hmem]
      refine ⟨fun hq => (by cases hq), ?_⟩
      rintro (hm | hm)
      · obtain ⟨s, hsm, hsid⟩ := h.object hm
        exact absurd hsid (hfresh id ho s hsm)
      · obtain ⟨ref, s, ht, -⟩ := arrival_object hreg hlive hk hm
        rw [opens_target ho] at ht
        cases ht

end

theorem Reach.accepts {tr c} (h : Reach AcceptContract tr c) : Accepts tr c := by
  refine (h.acceptFresh.invariant (I := fun tr c => (Registered c ∧ Live tr c) ∧ Accepts tr c)
    ⟨⟨.initial, ?_⟩, .initial⟩ ?_).2
  · exact ⟨fun _ hopen => (by cases hopen), fun _ hopen => (by cases hopen)⟩
  · rintro tr c e r c' ⟨⟨hreg, hlive⟩, hacc⟩ ⟨hk, hfresh⟩ hs
    exact ⟨⟨hreg.after hfresh (step_after hs), hlive.after hreg hs⟩, hacc.step hreg hlive hk hfresh hs⟩

/-! ## The blocking call -/

/-- The callbacks keep ngtcp2's promise if they come in this order. -/
def promised : ClientTrace → List Callback → Bool
  | _, [] => true
  | tr, cb :: cbs => keepsAcceptPromise tr (.callback cb) && promised (tr ++ [(.callback cb, .ok .nil)]) cbs

/-- What `accept_stream` does to the client: rounds, and taking from the queue. -/
def AcceptEvents : ClientContract := fun tr c e => PumpEvents tr c e ∨ e = .acceptStreamNonblock

/-- The stream a call of `accept_stream` returns, if any. -/
def acceptedIn : Except RubyError (Option Nat) → List Nat
  | .ok (some ref) => [ref]
  | _ => []

/-- The promise is about what was opened and closed before. -/
theorem promised_congr {tr tr' : ClientTrace} (hopened : opened tr' = opened tr) (hclosed : closed tr' = closed tr)
    (cbs : List Callback) : promised tr' cbs = promised tr cbs := by
  induction cbs generalizing tr tr' with
  | nil => rfl
  | cons cb cbs ih =>
    have hkeeps : keepsAcceptPromise tr' (.callback cb) = keepsAcceptPromise tr (.callback cb) := by
      cases cb <;> simp only [keepsAcceptPromise, neverReused, serverDataOpen, hopened, hclosed]
    rw [promised, promised, hkeeps, ih]
    · funext id
      rw [opened_snoc, opened_snoc, hopened]
    · funext id
      rw [closed_snoc, closed_snoc, hclosed]

theorem promised_writePkt (tr : ClientTrace) (answer : WritevAnswer) (r : Reply) (cbs : List Callback) :
    promised (tr ++ [(.writePkt none answer, r)]) cbs = promised tr cbs := by
  refine promised_congr ?_ ?_ cbs
  · funext id
    rw [opened_snoc]
    exact Bool.or_false _
  · funext id
    rw [closed_snoc]
    exact Bool.or_false _

/-- A round accepts nothing. -/
theorem acceptedStreams_of_pump {K : ClientContract} {tr tr' : ClientTrace} {c c' : Client}
    (h : Steps step (K.and PumpEvents) tr c tr' c') : acceptedStreams tr' = acceptedStreams tr := by
  refine h.invariant (I := fun tr' _ => acceptedStreams tr' = acceptedStreams tr) rfl ?_
  rintro tr' c e r c' hI ⟨-, hpump⟩ -
  rw [acceptedStreams_snoc, hI]
  rcases hpump with ⟨answer, rfl⟩ | ⟨cb, rfl⟩ <;> exact List.append_nil _

/-- A round whose callbacks keep the promise is a run under it. -/
theorem pumpOnce_promised {round : PumpRound} {c : Client} {r c'} (h : pumpOnce round c = some (r, c'))
    {tr : ClientTrace} {cbs : List Callback} (hp : promised tr (round.callbacks ++ cbs) = true) :
    ∃ tr', Steps step (AcceptContract.and AcceptEvents) tr c tr' c' ∧ acceptedStreams tr' = acceptedStreams tr ∧
      (r = .ok () → promised tr' cbs = true) := by
  obtain ⟨tr', hrun, hp'⟩ := pumpOnce_run (K := AcceptContract) (J := fun tr cbs => promised tr cbs = true)
    (fun tr _ answer r cbs hJ => ⟨rfl, (promised_writePkt tr answer r cbs).trans hJ⟩)
    (fun tr _ cb cbs hJ => by simpa [promised, AcceptContract] using hJ) h tr cbs hp
  exact ⟨tr', hrun.mono fun _ _ _ hk => ⟨hk.1, .inl hk.2⟩, acceptedStreams_of_pump hrun, hp'⟩

/-- Taking a stream from the queue. -/
theorem shift_step {tr : ClientTrace} {c c' : Client} {ref : Nat} (h : shiftAcceptQueue c = (some ref, c')) :
    Steps step (AcceptContract.and AcceptEvents) tr c (tr ++ [(.acceptStreamNonblock, .ok (.stream ref))]) c' := by
  refine .one ⟨rfl, .inr rfl⟩ ?_
  unfold shiftAcceptQueue at h
  split at h
  · cases h
  · next hq =>
    cases h
    simp only [step, acceptStreamNonblock, hq]
    rfl

theorem shift_none {c c' : Client} (h : shiftAcceptQueue c = (none, c')) : c' = c ∧ c.acceptQueue = [] := by
  unfold shiftAcceptQueue at h
  split at h
  · next hq =>
    cases h
    exact ⟨rfl, hq⟩
  · cases h

theorem acceptLoop_run {deadline : Option Rat} {turns : List (Rat × PumpRound)} {c : Client} {r c'}
    (h : acceptLoop deadline turns c = some (r, c')) (hq : c.acceptQueue = []) {tr : ClientTrace}
    (hp : promised tr (turns.flatMap (·.2.callbacks)) = true) :
    ∃ tr', Steps step (AcceptContract.and AcceptEvents) tr c tr' c' ∧
      acceptedStreams tr' = acceptedStreams tr ++ acceptedIn r ∧ (r = .ok none → c'.acceptQueue = []) := by
  induction turns generalizing c tr with
  | nil => cases h
  | cons turn turns ih =>
    obtain ⟨now, round⟩ := turn
    simp only [acceptLoop] at h
    split at h
    · cases h
      exact ⟨tr, .refl, (List.append_nil _).symm, fun _ => hq⟩
    split at h
    · cases h
    · next e c₁ hpump =>
      cases h
      obtain ⟨tr₁, h₁, hacc, -⟩ := pumpOnce_promised hpump hp
      exact ⟨tr₁, h₁, hacc.trans (List.append_nil _).symm, fun hr => (by cases hr)⟩
    · next c₁ hpump =>
      obtain ⟨tr₁, h₁, hacc, hp₁⟩ := pumpOnce_promised hpump hp
      split at h
      · next ref c₂ hshift =>
        cases h
        refine ⟨_, h₁.trans (shift_step hshift), ?_, fun hr => (by cases hr)⟩
        rw [acceptedStreams_snoc, hacc]
        rfl
      · next c₂ hshift =>
        obtain ⟨rfl, hq₁⟩ := shift_none hshift
        obtain ⟨tr₂, h₂, hacc₂, hnil⟩ := ih h hq₁ (hp₁ rfl)
        exact ⟨tr₂, h₁.trans h₂, by rw [hacc₂, hacc], hnil⟩

/-- **A call of `accept_stream` is a run** that accepts the stream it returns. -/
theorem acceptStream_run {timeout : Option Rat} {start : Rat} {turns : List (Rat × PumpRound)} {c : Client} {r c'}
    (h : acceptStream timeout start turns c = some (r, c')) {tr : ClientTrace}
    (hp : promised tr (turns.flatMap (·.2.callbacks)) = true) :
    ∃ tr', Steps step (AcceptContract.and AcceptEvents) tr c tr' c' ∧
      acceptedStreams tr' = acceptedStreams tr ++ acceptedIn r ∧ (r = .ok none → c'.acceptQueue = []) := by
  unfold acceptStream at h
  split at h
  · next ref c₁ hshift =>
    cases h
    exact ⟨_, shift_step hshift, by rw [acceptedStreams_snoc]; rfl, fun hr => (by cases hr)⟩
  · next c₁ hshift =>
    obtain ⟨rfl, hq⟩ := shift_none hshift
    split at h
    · cases h
      exact ⟨tr, .refl, (List.append_nil _).symm, fun _ => hq⟩
    · exact acceptLoop_run h hq hp

/-- **Accepting streams.** In every state reached, the streams returned so far
followed by the queue are the server's streams that have had a data callback,
in the order of the first one, each once. Each is a stream of the server's
with all its data, closed or not. A call of `accept_stream`, with any timeout,
is a run on which all this holds again, returning at its end the stream that
was first in the queue; it returns nil only with the queue empty. -/
theorem accept_exact {tr c} (h : Reach AcceptContract tr c) :
    c.ids (acceptedStreams tr ++ c.acceptQueue) = (arrivals tr).map some ∧
    (acceptedStreams tr ++ c.acceptQueue).Nodup ∧
    (∀ ref ∈ acceptedStreams tr ++ c.acceptQueue, ∃ s, c.objs[ref]? = some s ∧ s.streamId % 2 = 1 ∧
      returned tr ref ++ s.recvBuffer = delivered tr s.streamId) ∧
    ∀ timeout start turns r c', promised tr (turns.flatMap (·.2.callbacks)) = true →
      acceptStream timeout start turns c = some (r, c') →
      ∃ tr', Steps step (AcceptContract.and AcceptEvents) tr c tr' c' ∧
        acceptedStreams tr' = acceptedStreams tr ++ acceptedIn r ∧ (r = .ok none → c'.acceptQueue = []) := by
  have hacc := h.accepts
  refine ⟨hacc.order, ?_, ?_, fun timeout start turns r c' hp hcall => acceptStream_run hcall hp⟩
  · have hnodup : (c.ids (acceptedStreams tr ++ c.acceptQueue)).Nodup := by
      rw [hacc.order]
      exact (arrivals_nodup tr).map (Option.some_injective _)
    exact hnodup.of_map _
  · intro ref hm
    have hsome : c.objs[ref]?.map (·.streamId) ∈ (arrivals tr).map some := hacc.order ▸ List.mem_map_of_mem hm
    obtain ⟨id, hid, href⟩ := List.mem_map.1 hsome
    obtain ⟨s, hs, rfl⟩ := Option.map_eq_some_iff.1 href.symm
    have hodd : s.streamId % 2 = 1 := arrivals_odd hid
    have hopen : DataOpen (AcceptContract.and FreshIds) s.streamId := fun tr c fin offset data hk =>
      AcceptContract.dataOpen hodd tr c fin offset data hk.1
    exact ⟨s, hs, hodd, (hopen.buffered (fun _ _ _ hk => hk.2) h.acceptFresh hs).exact⟩

/-- Two streams of the server's: the second one ends without a byte and is
closed, then the first one has data. One is accepted. -/
def acceptRun : ClientTrace × Client :=
  run step AcceptContract
    [.openBidiStream (.ok 0), .callback (.streamOpen 1), .callback (.streamOpen 5),
     .callback (.recvStreamData true 5 0 []), .callback (.streamClose false 5 0),
     .callback (.recvStreamData false 1 0 [7]), .acceptStreamNonblock] [] {}

theorem acceptRun_reach : Reach AcceptContract acceptRun.1 acceptRun.2 := Steps.of_run (by decide)

theorem accept_exact_acceptRun :
    acceptRun.2.ids (acceptedStreams acceptRun.1 ++ acceptRun.2.acceptQueue) = [some 5, some 1] ∧
      ∃ c' tr', acceptStream none 0 [] acceptRun.2 = some (.ok (some 1), c') ∧
        Steps step (AcceptContract.and AcceptEvents) acceptRun.1 acceptRun.2 tr' c' ∧
        acceptedStreams tr' = [2, 1] :=
  have hexact := accept_exact acceptRun_reach
  have ⟨tr', hrun, hacc, _⟩ := hexact.2.2.2 none 0 [] (.ok (some 1)) _ rfl rfl
  ⟨hexact.1.trans (by decide), _, tr', rfl, hrun, hacc.trans (by decide)⟩

end QuicRuby
