/-
The order of callbacks. The frames of several streams arrive in packets as
the network pleases, and ngtcp2 makes its callbacks in that order. A callback
only touches what the client has for its own stream id: the stream's object,
its entry in `@streams`, and its places on `@accept_queue`. So two orders of
callbacks that agree for each stream leave every stream the same, and differ
in no more than the order in which streams stand in `@streams` and on
`@accept_queue`.

ngtcp2 may only not announce a stream again after closing it, which is about
the order for one stream as well.
-/
import QuicRuby.Accept
import QuicRuby.Lib.Keyed

namespace QuicRuby

open Runs

/-! ## What the client has for a stream id -/

/-- The stream object with the id, in `@streams` or not. -/
def Client.stream (c : Client) (id : Int) : Option QuicStream := c.objs.find? (·.streamId = id)

/-- What the client has for an id: the object, whether it is in `@streams`,
and how often it is on `@accept_queue`. -/
structure StreamView where
  stream : Option QuicStream
  registered : Bool
  queued : Nat
deriving DecidableEq

def Client.view (c : Client) (id : Int) : StreamView :=
  { stream := c.stream id
    registered := (c.streams.aref id).isSome
    queued := (c.ids c.acceptQueue).count (some id) }

/-- A callback for the stream, on that. -/
def StreamView.after (v : StreamView) (cb : Callback) : StreamView :=
  match cb with
  | .streamOpen id =>
    if v.registered then v else { v with stream := some (v.stream.getD (quicStreamNew id)), registered := true }
  | .recvStreamData _ id _ _ =>
    if v.registered then
      { v with
        stream := v.stream.map cb.update
        queued := v.queued + if (v.stream.map (·.toAccept id)).getD false then 1 else 0 }
    else v
  | .streamClose .. => if v.registered then { v with stream := v.stream.map cb.update, registered := false } else v
  | .ackedStreamDataOffset .. | .streamReset .. => if v.registered then { v with stream := v.stream.map cb.update } else v

section
variable {c : Client} {id : Int}

/-- Ids are the objects' own, so looking for one finds its object. -/
theorem Registered.stream_iff (hreg : Registered c) {s : QuicStream} :
    c.stream id = some s ↔ ∃ ref : Nat, c.objs[ref]? = some s ∧ s.streamId = id := by
  constructor
  · intro h
    obtain ⟨ref, hs⟩ := List.mem_iff_getElem?.1 (List.mem_of_find?_eq_some h)
    exact ⟨ref, hs, by simpa using List.find?_some h⟩
  · rintro ⟨ref, hs, rfl⟩
    cases hf : c.objs.find? (·.streamId = s.streamId) with
    | none => simpa using List.find?_eq_none.1 hf s (List.mem_of_getElem? hs)
    | some s' =>
      obtain ⟨ref', hs'⟩ := List.mem_iff_getElem?.1 (List.mem_of_find?_eq_some hf)
      obtain rfl := hreg.ids ref' ref s' s hs' hs (by simpa using List.find?_some hf)
      rw [Client.stream, hf, ← hs, hs']

/-- The entry of an id is its object. -/
theorem Registered.stream_entry (hreg : Registered c) {ref : Nat} (h : c.streams.aref id = some ref) :
    ∃ s, c.objs[ref]? = some s ∧ s.streamId = id ∧ c.stream id = some s := by
  obtain ⟨s, hs, hid⟩ := hreg.streams id ref h
  exact ⟨s, hs, hid, hreg.stream_iff.2 ⟨ref, hs, hid⟩⟩

end

/-! ## One callback -/

/-- `@accept_queue` has objects there are. -/
def QueueHeld (c : Client) : Prop := ∀ ref ∈ c.acceptQueue, ref < c.objs.length

theorem QueueHeld.ids_some {c : Client} (hq : QueueHeld c) : none ∉ c.ids c.acceptQueue := by
  intro hm
  obtain ⟨ref, href, hnone⟩ := List.mem_map.1 hm
  rw [Option.map_eq_none_iff, List.getElem?_eq_none_iff] at hnone
  exact absurd (hq ref href) (Nat.not_lt.2 hnone)

theorem pushes_target {c : Client} {e : Event} {ref : Nat} (h : ref ∈ e.pushes c) : e.target c = some ref := by
  cases e with
  | callback cb =>
    cases cb with
    | recvStreamData fin id offset data =>
      simp only [Event.pushes] at h
      split at h
      · next ref' haref =>
        split at h
        · obtain rfl := List.mem_singleton.1 h
          exact haref
        · cases h
      · cases h
    | _ => cases h
  | _ => cases h

section
variable {c : Client} {e : Event} {r : Reply} {c' : Client}

theorem QueueHeld.step (hq : QueueHeld c) (hent : Entries c) (hs : step c e = some (r, c')) : QueueHeld c' := by
  have hlen : c.objs.length ≤ c'.objs.length := by
    rw [(step_after hs).length]
    exact Nat.le_add_right _ _
  intro ref hm
  have hm' : ref ∈ c.acceptQueue ++ e.pushes c := by
    rw [← step_acceptQueue hs]
    exact List.mem_append_right _ hm
  rcases List.mem_append.1 hm' with hold | hpush
  · exact Nat.lt_of_lt_of_le (hq ref hold) hlen
  · obtain ⟨s, hget⟩ := target_get hent hs (pushes_target hpush)
    exact Nat.lt_of_lt_of_le (List.getElem?_eq_some_iff.1 hget).1 hlen

end

theorem Reach.queueHeld {K : ClientContract} {tr c} (h : Reach K tr c) : QueueHeld c := by
  refine (h.invariant (I := fun _ c => QueueHeld c ∧ Entries c) ⟨by simp [QueueHeld], Registered.initial.streams⟩ ?_).1
  rintro tr c e r c' ⟨hq, hent⟩ - hs
  exact ⟨hq.step hent hs, hent.after (step_after hs)⟩

section
variable {c : Client} {e : Event} {c' : Client}

/-- An object is found under its id as the event leaves it. -/
theorem After.stream (h : After c e c') (hreg' : Registered c') {ref : Nat} {s : QuicStream}
    (hs : c.objs[ref]? = some s) :
    c'.stream s.streamId = some (if e.target c = some ref then e.update s else s) :=
  hreg'.stream_iff.2 ⟨ref, h.get hs, target_streamId c e ref s⟩

theorem After.stream_none (h : After c e c') (hreg : Registered c) (hreg' : Registered c') {id : Int}
    (hnone : c.stream id = none) (ho : e.opens c ≠ some id) : c'.stream id = none := by
  refine Option.eq_none_iff_forall_ne_some.2 fun s' hs' => ?_
  obtain ⟨ref, hget, hid⟩ := hreg'.stream_iff.1 hs'
  rcases h.streamId hget with ⟨s, hs, hsid⟩ | ⟨-, i, hi, hsid⟩
  · rw [hreg.stream_iff.2 ⟨ref, hs, hsid.symm.trans hid⟩] at hnone
    cases hnone
  · exact ho (by rw [hi, ← hsid, hid])

theorem After.stream_new (h : After c e c') (hreg' : Registered c') {id : Int} (ho : e.opens c = some id) :
    c'.stream id = some (quicStreamNew id) := by
  have hlt : c.objs.length < c'.objs.length := by
    rw [h.length, ho]
    exact Nat.lt_succ_self _
  obtain ⟨s', hs'⟩ : ∃ s', c'.objs[c.objs.length]? = some s' := ⟨_, List.getElem?_eq_getElem hlt⟩
  rcases h.get_inv hs' with ⟨s, hs, -⟩ | ⟨-, i, hi, rfl⟩
  · simp at hs
  · obtain rfl := Option.some.inj (ho.symm.trans hi)
    exact hreg'.stream_iff.2 ⟨_, hs', rfl⟩

end

section
variable {tr : ClientTrace} {c : Client} {cb : Callback}

/-- An id with no entry, and that ngtcp2 may announce, has no object. -/
theorem Registry.stream_none (hreg : Registry tr c) {id : Int} (haref : c.streams.aref id = none)
    (hk : NeverReused tr c (.callback (.streamOpen id))) : c.stream id = none := by
  refine Option.eq_none_iff_forall_ne_some.2 fun s hs => ?_
  obtain ⟨ref, hget, rfl⟩ := hreg.registered.stream_iff.1 hs
  rcases hreg.object ref s hget with hentry | ⟨-, hclosed⟩
  · rw [haref] at hentry
    cases hentry
  · simp [NeverReused, neverReused, hclosed] at hk

/-- Objects there are keep their ids. -/
theorem After.ids_eq {e : Event} {c' : Client} (h : After c e c') {refs : List Nat}
    (hlt : ∀ ref ∈ refs, ref < c.objs.length) : c'.ids refs = c.ids refs := by
  refine List.map_congr_left fun ref hm => ?_
  obtain ⟨s, hs⟩ : ∃ s, c.objs[ref]? = some s := ⟨_, List.getElem?_eq_getElem (hlt ref hm)⟩
  rw [h.get hs, hs, Option.map_some, Option.map_some, target_streamId]

theorem runCallback_ids (hq : QueueHeld c) (hent : Entries c) :
    (runCallback c cb).ids (runCallback c cb).acceptQueue =
      c.ids c.acceptQueue ++ c.ids ((Event.callback cb).pushes c) := by
  have hqueue : (runCallback c cb).acceptQueue = c.acceptQueue ++ (Event.callback cb).pushes c :=
    step_acceptQueue (c := c) (e := .callback cb) (r := .ok .nil) rfl
  rw [hqueue, ← Client.ids_append]
  refine (runCallback_after c cb).ids_eq fun ref hm => ?_
  rcases List.mem_append.1 hm with hold | hpush
  · exact hq ref hold
  · obtain ⟨s, hs⟩ := target_get (e := .callback cb) (r := .ok .nil) hent rfl (pushes_target hpush)
    exact (List.getElem?_eq_some_iff.1 hs).1

/-- What a callback puts on the queue has the callback's id. -/
theorem pushes_ids (hent : Entries c) {i : Option Int} (hi : i ∈ c.ids ((Event.callback cb).pushes c)) :
    i = some cb.streamId := by
  obtain ⟨ref, hm, rfl⟩ := List.mem_map.1 hi
  obtain ⟨s, hs, hid⟩ := hent _ ref (pushes_target hm)
  rw [hs, Option.map_some, hid]

theorem callback_opens {id : Int} (h : (Event.callback cb).opens c = some id) : id = cb.streamId := by
  cases cb with
  | streamOpen i =>
    simp only [Event.opens] at h
    split at h
    · cases h
    · exact (Option.some.inj h).symm
  | _ => cases h

theorem callback_closes {id : Int} (h : (Event.callback cb).closes c = some id) : id = cb.streamId := by
  cases cb with
  | streamClose set i code =>
    simp only [Event.closes] at h
    split at h
    · exact (Option.some.inj h).symm
    · cases h
  | _ => cases h

/-- The entries of other ids stay. -/
theorem runCallback_aref {k : Int} (hk : k ≠ cb.streamId) :
    (runCallback c cb).streams.aref k = c.streams.aref k := by
  rw [(runCallback_after c cb).streams, Event.streamsAfter]
  split
  · next id _ ho => exact OrderedHash.aref_aset_ne (fun h => hk (h.trans (callback_opens ho)))
  · next id _ hc => rw [OrderedHash.aref_delete, if_neg (fun h => hk (h.trans (callback_closes hc)))]
  · rfl

/-- A callback leaves other streams as they are. -/
theorem runCallback_view_ne (hreg : Registered c) (hreg' : Registered (runCallback c cb)) (hq : QueueHeld c) {k : Int}
    (hk : k ≠ cb.streamId) : (runCallback c cb).view k = c.view k := by
  have hafter := runCallback_after c cb
  have hstream : (runCallback c cb).stream k = c.stream k := by
    cases hs : c.stream k with
    | none => exact hafter.stream_none hreg hreg' hs fun ho => hk (callback_opens ho)
    | some s =>
      obtain ⟨ref, hget, rfl⟩ := hreg.stream_iff.1 hs
      rw [hafter.stream hreg' hget, if_neg]
      intro ht
      obtain ⟨s', hs', hid⟩ := hreg.streams _ _ ht
      obtain rfl := Option.some.inj (hget.symm.trans hs')
      exact hk hid
  have hcount : (c.ids ((Event.callback cb).pushes c)).count (some k) = 0 :=
    List.count_eq_zero.2 fun hm => hk (Option.some.inj (pushes_ids hreg.streams hm))
  rw [Client.view, Client.view, hstream, runCallback_aref hk, runCallback_ids hq hreg.streams, List.count_append,
    hcount, Nat.add_zero]

/-- A callback for a stream that is not in `@streams`, other than its
announcement, does nothing. -/
theorem runCallback_lost (haref : c.streams.aref cb.streamId = none) (hopen : ∀ id, cb ≠ .streamOpen id) :
    runCallback c cb = c := by
  cases cb with
  | streamOpen id => exact absurd rfl (hopen id)
  | _ =>
    simp only [Callback.streamId] at haref
    simp [runCallback, quicRecvStreamDataCb, quicAckedStreamDataOffsetCb, quicStreamCloseCb, quicStreamResetCb,
      quicClientLookupStream, haref]

/-- A callback does to its own stream what `StreamView.after` says. -/
theorem runCallback_view_self (hreg : Registry tr c) (hreg' : Registered (runCallback c cb)) (hq : QueueHeld c)
    (hk : NeverReused tr c (.callback cb)) :
    (runCallback c cb).view cb.streamId = (c.view cb.streamId).after cb := by
  have hafter := runCallback_after c cb
  have hids : (runCallback c cb).ids (runCallback c cb).acceptQueue =
      c.ids c.acceptQueue ++ c.ids ((Event.callback cb).pushes c) := runCallback_ids hq hreg.registered.streams
  cases haref : c.streams.aref cb.streamId with
  | none =>
    by_cases hopen : ∃ id, cb = .streamOpen id
    · obtain ⟨id, rfl⟩ := hopen
      have haref : c.streams.aref id = none := haref
      have ho : (Event.callback (.streamOpen id)).opens c = some id := by simp [Event.opens, haref]
      rw [Client.view, Client.view, Callback.streamId, hafter.stream_new hreg' ho, hids, hafter.streams,
        Event.streamsAfter, ho, hreg.stream_none haref hk]
      simp [StreamView.after, haref, OrderedHash.aref_aset_self, Event.pushes, Client.ids]
    · rw [runCallback_lost haref (fun id h => hopen ⟨id, h⟩)]
      cases cb with
      | streamOpen id => exact absurd ⟨id, rfl⟩ hopen
      | _ => simp [StreamView.after, Client.view, haref]
  | some ref =>
    obtain ⟨s, hs, hid, hstream⟩ := hreg.registered.stream_entry haref
    have hstream' : (runCallback c cb).stream cb.streamId = some (cb.update s) := by
      have := hafter.stream hreg' hs
      rwa [hid, if_pos (show (Event.callback cb).target c = some ref from haref)] at this
    rw [Client.view, Client.view, hstream', hids, hafter.streams, hstream]
    cases cb with
    | streamOpen id | streamClose set id code | streamReset id size code | ackedStreamDataOffset id offset datalen =>
      simp only [Callback.streamId] at haref
      simp [StreamView.after, Event.streamsAfter, Event.opens, Event.closes, Event.pushes, Callback.streamId,
        Callback.update, Client.ids, haref, OrderedHash.aref_delete]
    | recvStreamData fin id offset data =>
      simp only [Callback.streamId] at haref hid
      simp only [StreamView.after, Event.streamsAfter, Event.opens, Event.closes, Event.pushes, Callback.streamId,
        Callback.update, haref, hs, Option.isSome_some, Option.map_some, Option.getD_some, if_true,
        List.count_append]
      by_cases hacc : s.toAccept id = true <;> simp [hacc, Client.ids, hs, hid]

end

/-! ## Any order -/

/-- ngtcp2 does not announce the stream again after closing it; the callbacks
are one stream's, `closed` whether it was closed before. -/
def opensBeforeClose : Bool → List Callback → Bool
  | _, [] => true
  | closed, .streamOpen _ :: cbs => !closed && opensBeforeClose closed cbs
  | _, .streamClose .. :: cbs => opensBeforeClose true cbs
  | closed, _ :: cbs => opensBeforeClose closed cbs

/-- The callbacks for a stream. -/
abbrev callbacksFor (id : Int) (cbs : List Callback) : List Callback := Keyed.under Callback.streamId id cbs

/-- The callbacks as events of a trace. -/
def called (cbs : List Callback) : ClientTrace := cbs.map fun cb => (.callback cb, .ok .nil)

/-- The callbacks may come in this order. -/
def MayCome (c : Client) (cbs : List Callback) : Prop :=
  ∃ tr, Registry tr c ∧ QueueHeld c ∧ ∀ id, opensBeforeClose (closed tr id) (callbacksFor id cbs) = true

section
variable {tr : ClientTrace} {c : Client} {cb : Callback} {cbs : List Callback}

theorem opensBeforeClose_cons (b : Bool) :
    opensBeforeClose b (cb :: cbs) =
      ((!b || !cb matches .streamOpen _) && opensBeforeClose (b || (Event.callback cb).isStreamClose) cbs) := by
  cases cb <;> simp [opensBeforeClose, Event.isStreamClose]

theorem closedBy_callback (id : Int) (r : Reply) :
    closedBy id (.callback cb, r) = (decide (cb.streamId = id) && (Event.callback cb).isStreamClose) := by
  cases cb with
  | streamClose set i code => exact (Bool.and_true _).symm
  | _ => exact (Bool.and_false _).symm

theorem neverReused_callback : neverReused tr (.callback cb) = (!closed tr cb.streamId || !cb matches .streamOpen _) := by
  cases cb <;> simp [neverReused, Callback.streamId]

/-- The first callback keeps the promise, and the rest keep it after it. -/
theorem promise_cons :
    (∀ id, opensBeforeClose (closed tr id) (callbacksFor id (cb :: cbs)) = true) ↔
      NeverReused tr c (.callback cb) ∧
        ∀ id, opensBeforeClose (closed (tr ++ [(.callback cb, .ok .nil)]) id) (callbacksFor id cbs) = true := by
  have hself : opensBeforeClose (closed tr cb.streamId) (callbacksFor cb.streamId (cb :: cbs)) = true ↔
      NeverReused tr c (.callback cb) ∧ opensBeforeClose
        (closed (tr ++ [(.callback cb, .ok .nil)]) cb.streamId) (callbacksFor cb.streamId cbs) = true := by
    rw [callbacksFor, Keyed.under_cons, if_pos rfl, opensBeforeClose_cons, Bool.and_eq_true, NeverReused,
      neverReused_callback, closed_snoc, closedBy_callback, decide_eq_true rfl, Bool.true_and]
  have hother : ∀ id, cb.streamId ≠ id →
      opensBeforeClose (closed (tr ++ [(.callback cb, .ok .nil)]) id) (callbacksFor id cbs) =
        opensBeforeClose (closed tr id) (callbacksFor id (cb :: cbs)) := by
    intro id hne
    rw [callbacksFor, callbacksFor, Keyed.under_cons, if_neg hne, closed_snoc, closedBy_callback]
    simp [hne]
  constructor
  · intro h
    refine ⟨(hself.1 (h _)).1, fun id => ?_⟩
    by_cases hid : cb.streamId = id
    · exact hid ▸ (hself.1 (h _)).2
    · exact (hother id hid).trans (h id)
  · rintro ⟨hk, hrest⟩ id
    by_cases hid : cb.streamId = id
    · exact hid ▸ hself.2 ⟨hk, hrest _⟩
    · exact (hother id hid).symm.trans (hrest id)

theorem MayCome.tail (h : MayCome c (cb :: cbs)) : MayCome (runCallback c cb) cbs := by
  obtain ⟨tr, hreg, hq, hcbs⟩ := h
  obtain ⟨hk, hrest⟩ := (promise_cons (c := c)).1 hcbs
  exact ⟨_, hreg.step hk rfl, hq.step (e := .callback cb) (r := .ok .nil) hreg.registered.streams rfl, hrest⟩

theorem MayCome.view (h : MayCome c (cb :: cbs)) (k : Int) :
    (runCallback c cb).view k = if cb.streamId = k then (c.view k).after cb else c.view k := by
  obtain ⟨tr, hreg, hq, hcbs⟩ := h
  obtain ⟨hk, -⟩ := (promise_cons (c := c)).1 hcbs
  have hreg' := (hreg.step (r := .ok .nil) hk rfl).registered
  split
  · next hid =>
    subst hid
    exact runCallback_view_self hreg hreg' hq hk
  · next hid => exact runCallback_view_ne hreg.registered hreg' hq (Ne.symm hid)

/-- What the callbacks do, one after the other, is a run if they keep the
promise, and only then. -/
theorem called_run {c' : Client} :
    Steps step NeverReused tr c (tr ++ called cbs) c' ↔
      c' = cbs.foldl runCallback c ∧ ∀ id, opensBeforeClose (closed tr id) (callbacksFor id cbs) = true := by
  induction cbs generalizing tr c with
  | nil =>
    rw [called, List.map_nil, List.append_nil]
    constructor
    · intro h
      exact ⟨h.det (.refl : Steps step NeverReused tr c tr c), fun _ => rfl⟩
    · rintro ⟨rfl, -⟩
      exact .refl
  | cons cb cbs ih =>
    have happ : tr ++ called (cb :: cbs) = tr ++ [(.callback cb, .ok .nil)] ++ called cbs := by simp [called]
    constructor
    · intro h
      have hfirst : Steps step NeverReused tr c (tr ++ (.callback cb, .ok .nil) :: called cbs) c' := h
      obtain ⟨hk, c₁, hs, hrest⟩ := hfirst.first
      cases hs
      obtain ⟨rfl, hcbs⟩ := ih.1 (happ ▸ hrest)
      exact ⟨rfl, (promise_cons (c := c)).2 ⟨hk, hcbs⟩⟩
    · rintro ⟨rfl, hcbs⟩
      obtain ⟨hk, hrest⟩ := (promise_cons (c := c)).1 hcbs
      rw [happ]
      exact (Steps.one hk rfl).trans (ih.2 ⟨rfl, hrest⟩)

end

/-- **The order of callbacks of different streams does not matter.** From any
state reached, let ngtcp2 make callbacks in one order, and let another order
agree with it for each stream. Then ngtcp2 may make them in that order too, and
every stream ends up the same: its object with all its data, flags and
accounting, and whether it is in `@streams`. `@accept_queue` holds the same
streams. -/
theorem callbacks_interleave {tr c} (h : Reach NeverReused tr c) {cbs₁ cbs₂ : List Callback} {c₁ : Client}
    (h₁ : Steps step NeverReused tr c (tr ++ called cbs₁) c₁)
    (hsame : ∀ id, callbacksFor id cbs₁ = callbacksFor id cbs₂) :
    ∃ c₂, Steps step NeverReused tr c (tr ++ called cbs₂) c₂ ∧
      (∀ id, c₂.stream id = c₁.stream id ∧
        (c₂.streams.aref id).isSome = (c₁.streams.aref id).isSome) ∧
      (c₂.ids c₂.acceptQueue).Perm (c₁.ids c₁.acceptQueue) := by
  obtain ⟨rfl, hcbs₁⟩ := called_run.1 h₁
  have hcbs₂ : ∀ id, opensBeforeClose (closed tr id) (callbacksFor id cbs₂) = true := by
    intro id
    rw [← hsame]
    exact hcbs₁ id
  have hrun₂ : Steps step NeverReused tr c (tr ++ called cbs₂) (cbs₂.foldl runCallback c) :=
    called_run.2 ⟨rfl, hcbs₂⟩
  have hview : ∀ id, (cbs₂.foldl runCallback c).view id = (cbs₁.foldl runCallback c).view id :=
    Keyed.foldl_interleave (P := MayCome) (fun _ _ _ => MayCome.tail) (fun _ _ _ => MayCome.view)
      ⟨tr, h.registry, h.queueHeld, hcbs₂⟩ ⟨tr, h.registry, h.queueHeld, hcbs₁⟩ fun id => (hsame id).symm
  refine ⟨_, hrun₂, fun id => ?_, ?_⟩
  · exact ⟨congrArg StreamView.stream (hview id), congrArg StreamView.registered (hview id)⟩
  · -- Everything on a queue has an id, and each id is on both as often.
    refine List.perm_iff_count.2 fun i => ?_
    cases i with
    | some id => exact congrArg StreamView.queued (hview id)
    | none =>
      have hq₂ := Reach.queueHeld (h.trans hrun₂)
      have hq₁ := Reach.queueHeld (h.trans h₁)
      rw [List.count_eq_zero.2 hq₂.ids_some, List.count_eq_zero.2 hq₁.ids_some]

/-- Two streams of the server's with data and FIN, one reset and closed. -/
def arrivalOrder : List Callback :=
  [.streamOpen 1, .streamOpen 5, .recvStreamData false 1 0 [1, 2], .recvStreamData false 5 0 [9],
   .recvStreamData true 1 2 [3], .streamReset 5 1 7, .streamClose true 5 7]

/-- The same, the second stream first. -/
def laterOrder : List Callback :=
  [.streamOpen 5, .recvStreamData false 5 0 [9], .streamReset 5 1 7, .streamClose true 5 7,
   .streamOpen 1, .recvStreamData false 1 0 [1, 2], .recvStreamData true 1 2 [3]]

theorem callbacks_interleave_later :
    ∃ c₂, Steps step NeverReused [] {} (called laterOrder) c₂ ∧
      (∀ id, c₂.stream id = (arrivalOrder.foldl runCallback {}).stream id ∧
        (c₂.streams.aref id).isSome = ((arrivalOrder.foldl runCallback {}).streams.aref id).isSome) ∧
      (c₂.ids c₂.acceptQueue).Perm [some 1, some 5] :=
  have hsame : ∀ id, callbacksFor id arrivalOrder = callbacksFor id laterOrder := by
    intro id
    by_cases h₁ : (1 : Int) = id
    · subst h₁
      decide
    · by_cases h₅ : (5 : Int) = id
      · subst h₅
        decide
      · simp [callbacksFor, Keyed.under, arrivalOrder, laterOrder, Callback.streamId, h₁, h₅]
  have hrun : Steps step NeverReused [] {} ([] ++ called arrivalOrder) (arrivalOrder.foldl runCallback {}) :=
    called_run.2 ⟨rfl, fun id => by
      by_cases h₁ : (1 : Int) = id
      · subst h₁
        decide
      · by_cases h₅ : (5 : Int) = id
        · subst h₅
          decide
        · simp [callbacksFor, Keyed.under, arrivalOrder, Callback.streamId, h₁, h₅, opensBeforeClose]⟩
  callbacks_interleave .refl hrun hsame

end QuicRuby
