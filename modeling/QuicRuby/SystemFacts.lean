/-
What one event does: to the objects, the registry and the calls made
(`step_after`), to one object (`After.get`), and what the registry keeps
(`Registered`).
-/
import QuicRuby.System
import QuicRuby.StreamFacts

namespace QuicRuby

open Runs

theorem modify_congr {objs : List QuicStream} {ref : Nat} {f g : QuicStream → QuicStream}
    (h : ∀ s, objs[ref]? = some s → f s = g s) : objs.modify ref f = objs.modify ref g := by
  apply List.ext_getElem?
  intro i
  simp only [List.getElem?_modify]
  cases hi : objs[i]? with
  | none => rfl
  | some s =>
    by_cases he : ref = i
    · subst he; simp [h s hi]
    · simp [he]

/-- An update that leaves its object as it is changes nothing. -/
theorem Client.modify_id {c : Client} {ref : Nat} {f : QuicStream → QuicStream}
    (hf : ∀ s, c.objs[ref]? = some s → f s = s) : c.modify ref f = c := by
  have hsame : c.objs.modify ref f = c.objs := (modify_congr hf).trans (List.modify_id _ _)
  simp [Client.modify, hsame]

theorem Client.modify_same {c : Client} {ref : Nat} {s : QuicStream} (hs : c.objs[ref]? = some s) :
    (c.modify ref fun _ => s) = c :=
  Client.modify_id fun _ hs' => Option.some.inj (hs.symm.trans hs')

/-- The stream picked is registered and has the slice to send. -/
theorem pick_spec {c : Client} {ref : Nat} {args : WritevArgs}
    (h : quicClientPickSendStream c = some (ref, args)) :
    ref ∈ c.streams.values ∧ ∃ s, c.objs[ref]? = some s ∧ s.sendOffer = some args := by
  obtain ⟨ref', hm, hf⟩ := List.exists_of_findSome?_eq_some h
  simp only [Option.map_eq_some_iff, Prod.mk.injEq, Option.bind_eq_some_iff] at hf
  obtain ⟨args', ⟨s, hs, ho⟩, rfl, rfl⟩ := hf
  exact ⟨hm, s, hs, ho⟩

/-- An update that leaves its object's offer as it is leaves the choice. -/
theorem pick_modify {c : Client} {ref : Nat} {f : QuicStream → QuicStream}
    (hf : ∀ s, c.objs[ref]? = some s → (f s).sendOffer = s.sendOffer) :
    quicClientPickSendStream (c.modify ref f) = quicClientPickSendStream c := by
  simp only [quicClientPickSendStream, Client.modify]
  congr 1
  funext r
  simp only [List.getElem?_modify]
  cases hs : c.objs[r]? with
  | none => rfl
  | some s =>
    by_cases hr : ref = r
    · subst hr
      simp [hf s hs]
    · simp [hr]

theorem writevArgs_of_pick {c : Client} {ref : Nat} {args : WritevArgs}
    (h : quicClientPickSendStream c = some (ref, args)) :
    c.writevArgs = args := by
  simp [Client.writevArgs, h]

/-- An event's effect on the state, apart from `@accept_queue` and `@sock`. -/
structure After (c : Client) (e : Event) (c' : Client) : Prop where
  objs : c'.objs = e.objsAfter c
  streams : c'.streams = e.streamsAfter c
  calls : c'.calls = c.calls ++ e.newCalls c

theorem writePkt_after {c : Client} {buffer : Option Encoding} {answer : WritevAnswer} {r c'}
    (h : quicClientWritePkt (fun _ => answer) buffer c = (r, c')) : After c (.writePkt buffer answer) c' := by
  have hopens : (Event.writePkt buffer answer).opens c = none := rfl
  by_cases hb : buffer = some .other
  · simp only [quicClientWritePkt, hb, if_true] at h
    cases h
    exact ⟨by simp [Event.objsAfter, Event.updated, Event.target, Event.opens, hb], rfl,
      by simp [Event.newCalls, hb]⟩
  have hcalls : (Event.writePkt buffer answer).newCalls c = [.writevStream c.writevArgs answer] := by
    simp [Event.newCalls, hb]
  have htarget : (Event.writePkt buffer answer).target c = (quicClientPickSendStream c).map Prod.fst := by
    simp [Event.target, hb]
  simp only [quicClientWritePkt, hb, if_false] at h
  cases hres : answer.result with
  | error rv =>
    rw [hres] at h
    cases h
    refine ⟨?_, rfl, by rw [hcalls]; rfl⟩
    simp only [Event.objsAfter, Event.updated, hopens, Event.update, hres, Client.log]
    split
    · exact (List.modify_id _ _).symm
    · rfl
  | ok packet =>
    rw [hres] at h
    dsimp only at h
    cases hpick : quicClientPickSendStream c with
    | none =>
      have hc : c' = c.log [.writevStream c.writevArgs answer] := by
        rw [hpick] at h
        split at h <;> cases h <;> rfl
      rw [hc]
      refine ⟨?_, rfl, by rw [hcalls]; rfl⟩
      simp [Event.objsAfter, Event.updated, hopens, htarget, hpick, Client.log]
    | some sel =>
      obtain ⟨ref, args⟩ := sel
      have hc : c' = (c.log [.writevStream c.writevArgs answer]).modify ref
          (·.accountWritev c.writevArgs packet.length answer.pdatalen) := by
        rw [hpick] at h
        split at h <;> cases h <;> rfl
      rw [hc]
      obtain ⟨-, s, hs, ho⟩ := pick_spec hpick
      refine ⟨?_, rfl, by rw [hcalls]; rfl⟩
      simp only [Event.objsAfter, Event.updated, hopens, htarget, hpick, Option.map_some]
      refine modify_congr fun s₁ hs₁ => ?_
      rw [show s₁ = s by simpa [Client.log, hs] using hs₁.symm]
      simp [Event.update, hres, ho, writevArgs_of_pick hpick]

theorem quicClientWritePkt_after (c : Client) (buffer : Option Encoding) (answer : WritevAnswer) :
    After c (.writePkt buffer answer) (quicClientWritePkt (fun _ => answer) buffer c).2 := writePkt_after rfl

theorem runCallback_after (c : Client) (cb : Callback) : After c (.callback cb) (runCallback c cb) := by
  have hcalls : (Event.callback cb).newCalls c = [] := rfl
  cases cb with
  | streamOpen id =>
    cases hid : c.streams.aref id with
    | some ref =>
      have hopens : (Event.callback (.streamOpen id)).opens c = none := by simp [Event.opens, hid]
      refine ⟨?_, ?_, ?_⟩
      · simp only [runCallback, quicStreamOpenCb, quicClientLookupStream, hid, Event.objsAfter, Event.updated,
          hopens, Event.target, Callback.streamId, Event.update, Callback.update]
        exact (List.modify_id _ _).symm
      · simp [runCallback, quicStreamOpenCb, quicClientLookupStream, hid, Event.streamsAfter, Event.closes,
          hopens]
      · simp [runCallback, quicStreamOpenCb, quicClientLookupStream, hid, hcalls]
    | none =>
      have hopens : (Event.callback (.streamOpen id)).opens c = some id := by simp [Event.opens, hid]
      refine ⟨?_, ?_, ?_⟩
      · simp [runCallback, quicStreamOpenCb, quicClientLookupStream, hid, Client.newStream, Event.objsAfter,
          Event.updated, hopens, Event.target, Callback.streamId]
      · simp [runCallback, quicStreamOpenCb, quicClientLookupStream, hid, Client.newStream, Event.streamsAfter,
          Event.closes, hopens]
      · simp [runCallback, quicStreamOpenCb, quicClientLookupStream, hid, Client.newStream, hcalls]
  | recvStreamData _ id _ _ | ackedStreamDataOffset id _ _ | streamClose _ id _ | streamReset id _ _ =>
    cases hid : c.streams.aref id <;> constructor <;>
      simp only [runCallback, quicRecvStreamDataCb, quicAckedStreamDataOffsetCb, quicStreamCloseCb,
        quicStreamResetCb, quicClientLookupStream, hid, Client.modify, Event.objsAfter, Event.updated,
        Event.streamsAfter, Event.target, Event.opens, Event.closes, Callback.streamId, Event.update,
        Callback.update, hcalls, List.append_nil, Option.isSome_some, Option.isSome_none,
        Bool.false_eq_true, if_true, if_false] <;>
      split <;> rfl

theorem step_after {c : Client} {e : Event} {r : Reply} {c' : Client} (h : step c e = some (r, c')) :
    After c e c' := by
  cases e with
  | openBidiStream answer | openUniStream answer =>
    simp only [step, Option.some.injEq, Prod.mk.injEq] at h
    obtain ⟨-, rfl⟩ := h
    cases answer <;> exact ⟨rfl, rfl, rfl⟩
  | write ref data fin streamLeft connLeft =>
    simp only [step, Option.bind_eq_some_iff, Option.map_eq_some_iff, Prod.mk.injEq] at h
    obtain ⟨s, hs, ⟨r', s'⟩, hw, -, rfl⟩ := h
    refine ⟨?_, rfl, by simp [Event.newCalls, Client.modify]⟩
    simp only [Client.modify, Event.objsAfter, Event.updated, Event.target, Event.opens]
    refine modify_congr fun s₁ hs₁ => ?_
    rw [hs] at hs₁
    cases hs₁
    simp [Event.update, hw]
  | writeNonblock | closeWrite | readNonblock =>
    simp only [step, Client.call, Option.map_eq_some_iff, Prod.mk.injEq] at h
    obtain ⟨s, hs, -, rfl⟩ := h
    exact ⟨rfl, rfl, by simp [Event.newCalls, Client.log, Client.modify, quiet]⟩
  | closeRead ref | close ref | reset ref =>
    simp only [step, Client.call, Option.map_eq_some_iff, Prod.mk.injEq] at h
    obtain ⟨s, hs, -, rfl⟩ := h
    exact ⟨rfl, rfl, by simp [Event.newCalls, Client.log, Client.modify, hs]⟩
  | writePkt buffer answer =>
    simp only [step, Option.some.injEq, Prod.mk.injEq] at h
    obtain ⟨-, rfl⟩ := h
    exact writePkt_after rfl
  | acceptStreamNonblock =>
    simp only [step, acceptStreamNonblock, Option.some.injEq, Prod.mk.injEq] at h
    obtain ⟨-, rfl⟩ := h
    cases c.acceptQueue <;> exact ⟨rfl, rfl, by simp [Event.newCalls]⟩
  | bind | maxStreamData | maxData =>
    simp only [step, Option.some.injEq, Prod.mk.injEq] at h
    obtain ⟨-, rfl⟩ := h
    exact ⟨rfl, rfl, by simp [Event.newCalls, Client.bind]⟩
  | callback cb =>
    simp only [step, Option.some.injEq, Prod.mk.injEq] at h
    obtain ⟨-, rfl⟩ := h
    exact runCallback_after c cb

/-! ## The calls made -/

/-- The calls an event can make. -/
inductive Makes (c : Client) : Event → Ngtcp2Call → Prop
  | openBidi (answer : Except Ngtcp2Error Int) : Makes c (.openBidiStream answer) (.openBidiStream answer)
  | openUni (answer : Except Ngtcp2Error Int) : Makes c (.openUniStream answer) (.openUniStream answer)
  | writev (buffer : Option Encoding) (answer : WritevAnswer) :
      Makes c (.writePkt buffer answer) (.writevStream c.writevArgs answer)
  | shutdownRead {e} (id : Int) (rv : Option Ngtcp2Error) : Makes c e (.shutdownStreamRead id 0 rv)
  | shutdownWrite {e} (id : Int) (code : UInt64) (rv : Option Ngtcp2Error) :
      Makes c e (.shutdownStreamWrite id code rv)

theorem newCalls_makes {c : Client} {e : Event} {call : Ngtcp2Call} (h : call ∈ e.newCalls c) :
    Makes c e call := by
  cases e with
  | openBidiStream answer =>
    obtain rfl := List.mem_singleton.1 h
    exact .openBidi answer
  | openUniStream answer =>
    obtain rfl := List.mem_singleton.1 h
    exact .openUni answer
  | closeRead ref rv =>
    cases hs : c.objs[ref]? with
    | none => simp [Event.newCalls, hs] at h
    | some s =>
      simp only [Event.newCalls, hs, Option.map_some, Option.getD_some] at h
      rcases quicStreamCloseReadM_calls s rv with hc | hc <;> rw [hc] at h
      · cases h
      · obtain rfl := List.mem_singleton.1 h
        exact .shutdownRead _ _
  | close ref rv =>
    cases hs : c.objs[ref]? with
    | none => simp [Event.newCalls, hs] at h
    | some s =>
      simp only [Event.newCalls, hs, Option.map_some, Option.getD_some] at h
      rcases quicStreamCloseM_calls s rv with hc | ⟨id, hc⟩ <;> rw [hc] at h
      · cases h
      · obtain rfl := List.mem_singleton.1 h
        exact .shutdownRead _ _
  | reset ref errorCode rv =>
    cases hs : c.objs[ref]? with
    | none => simp [Event.newCalls, hs] at h
    | some s =>
      simp only [Event.newCalls, hs, Option.map_some, Option.getD_some] at h
      rcases quicStreamResetM_calls s errorCode rv with hc | ⟨code, hc⟩ <;> rw [hc] at h
      · cases h
      · obtain rfl := List.mem_singleton.1 h
        exact .shutdownWrite _ _ _
  | writePkt buffer answer =>
    simp only [Event.newCalls] at h
    split at h
    · cases h
    · obtain rfl := List.mem_singleton.1 h
      exact .writev buffer answer
  | _ => cases h

theorem Event.writePkt_or (e : Event) :
    (∃ buffer answer, e = .writePkt buffer answer) ∨ ∀ buffer answer, e ≠ .writePkt buffer answer := by
  cases e with
  | writePkt buffer answer => exact .inl ⟨buffer, answer, rfl⟩
  | _ => exact .inr fun _ _ h => (by cases h)

/-! ## One object -/

/-- What an event can make of its object. -/
inductive Update (s : QuicStream) : Event → QuicStream → Prop
  | same {e} : Update s e s
  | enqueue {e} (data : RString) (fin : Bool) : s.sendOpen = true → Update s e (s.enqueued data fin)
  | read (ref : Nat) (length : Int) (bytes buffer : List UInt8) : bytes ++ buffer = s.recvBuffer →
      Update s (.readNonblock ref length) { s with recvBuffer := buffer }
  | reset (ref : Nat) (errorCode : Option Int) (rv : Option Ngtcp2Error) :
      Update s (.reset ref errorCode rv) { s with reset := true }
  | account (buffer : Option Encoding) (answer : WritevAnswer) (n : Nat) :
      Update s (.writePkt buffer answer) (s.accountWritev (s.sendOffer.getD .connOnly) n answer.pdatalen)
  | callback (cb : Callback) : Update s (.callback cb) (cb.update s)

/-- **One object, event by event.** -/
theorem update_cases (e : Event) (s : QuicStream) : Update s e (e.update s) := by
  cases e with
  | write ref data fin streamLeft connLeft =>
    simp only [Event.update]
    split
    · next r s' hw =>
      have hr := quicStreamWriteM_eq hw
      cases ho : s.sendOpen with
      | true =>
        rw [quicStreamEnqueue_open ho] at hr
        cases hr
        exact .enqueue data fin ho
      | false =>
        obtain ⟨text, ht⟩ := quicStreamEnqueue_shut ho data fin
        rw [ht] at hr
        cases hr
        exact .same
    · exact .same
  | writeNonblock ref data fin streamLeft connLeft =>
    rw [Event.update]
    obtain ⟨-, e, he⟩ | ⟨ho, slice, fin', -, -, he⟩ :=
      quicStreamWriteNonblockM_cases s data fin streamLeft connLeft
    · rw [he]; exact .same
    · rw [he]; exact .enqueue slice fin' ho
  | closeWrite ref =>
    rw [Event.update]
    rcases quicStreamCloseWriteM_cases s with h | ⟨ho, h⟩
    · rw [h]; exact .same
    · rw [h]; exact .enqueue .empty true ho
  | close ref rv =>
    rw [Event.update, quicStreamCloseM_stream]
    rcases quicStreamCloseWriteM_cases s with h | ⟨ho, h⟩
    · rw [h]; exact .same
    · rw [h]; exact .enqueue .empty true ho
  | readNonblock ref length =>
    rw [Event.update]
    obtain ⟨e, h⟩ | ⟨bytes, buffer, h, hb⟩ := quicStreamReadNonblockM_cases s length
    · rw [h]; exact .same
    · rw [h]; exact .read ref length bytes buffer hb
  | closeRead ref rv => rw [Event.update, quicStreamCloseReadM_stream]; exact .same
  | reset ref errorCode rv =>
    rw [Event.update]
    rcases quicStreamResetM_stream s errorCode rv with h | h
    · rw [h]; exact .same
    · rw [h]; exact .reset ref errorCode rv
  | writePkt buffer answer =>
    rw [Event.update]
    split
    · next packet hres => exact .account buffer answer packet.length
    · exact .same
  | callback cb => exact .callback cb
  | openBidiStream | openUniStream | acceptStreamNonblock | bind | maxStreamData | maxData => exact .same

/-- An event leaves an object its id and its client, and a reset stream
reset. -/
theorem update_fixed (e : Event) (s : QuicStream) :
    (e.update s).streamId = s.streamId ∧ (e.update s).hasClient = s.hasClient ∧
      (s.reset = true → (e.update s).reset = true) := by
  have hupdate := update_cases e s
  generalize e.update s = s' at hupdate ⊢
  cases hupdate with
  | same => exact ⟨rfl, rfl, id⟩
  | enqueue data fin => exact ⟨rfl, rfl, id⟩
  | read ref length bytes buffer => exact ⟨rfl, rfl, id⟩
  | reset ref errorCode rv => exact ⟨rfl, rfl, fun _ => rfl⟩
  | account buffer answer n =>
    obtain ⟨_, _, hacc⟩ := accountWritev_eq s (s.sendOffer.getD .connOnly) n answer.pdatalen
    rw [hacc]
    exact ⟨rfl, rfl, id⟩
  | callback cb =>
    cases cb with
    | streamOpen => exact ⟨rfl, rfl, id⟩
    | recvStreamData fin id offset data =>
      rw [Callback.update, recvStreamData_eq]
      exact ⟨rfl, rfl, fun h => h⟩
    | ackedStreamDataOffset => exact ⟨rfl, rfl, id⟩
    | streamClose set id code =>
      obtain ⟨_, _, hclose⟩ := streamClose_eq s set code
      rw [Callback.update, hclose]
      exact ⟨rfl, rfl, fun h => h⟩
    | streamReset => exact ⟨rfl, rfl, fun _ => rfl⟩

theorem update_streamId (e : Event) (s : QuicStream) :
    (e.update s).streamId = s.streamId := (update_fixed e s).1

/-- An event leaves the object its id, whether it is about it or not. -/
theorem target_streamId (c : Client) (e : Event) (ref : Nat) (s : QuicStream) :
    (if e.target c = some ref then e.update s else s).streamId = s.streamId := by
  split
  · exact update_streamId e s
  · rfl

section
variable {c c' : Client} {e : Event}

theorem updated_get {ref : Nat} {s : QuicStream} (hs : c.objs[ref]? = some s) :
    (e.updated c)[ref]? = some (if e.target c = some ref then e.update s else s) := by
  simp only [Event.updated]
  split
  · next r ht =>
    rw [List.getElem?_modify, hs, ht]
    by_cases hr : r = ref <;> simp [hr]
  · next ht => simp [ht, hs]

@[simp] theorem updated_length : (e.updated c).length = c.objs.length := by
  simp only [Event.updated]
  split <;> simp

/-- An object is there afterwards, updated if the event was about it. -/
theorem After.get (h : After c e c') {ref : Nat} {s : QuicStream} (hs : c.objs[ref]? = some s) :
    c'.objs[ref]? = some (if e.target c = some ref then e.update s else s) := by
  rw [h.objs, Event.objsAfter]
  split
  · rw [List.getElem?_append_left (by simpa using (List.getElem?_eq_some_iff.1 hs).1), updated_get hs]
  · exact updated_get hs

theorem After.length (h : After c e c') :
    c'.objs.length = c.objs.length + (if (e.opens c).isSome then 1 else 0) := by
  rw [h.objs, Event.objsAfter]
  split <;> simp_all

/-- An object afterwards is one there was, or the one the event made. -/
theorem After.get_inv (h : After c e c') {ref : Nat} {s' : QuicStream} (hs' : c'.objs[ref]? = some s') :
    (∃ s, c.objs[ref]? = some s ∧ s' = if e.target c = some ref then e.update s else s) ∨
      ref = c.objs.length ∧ ∃ id, e.opens c = some id ∧ s' = quicStreamNew id := by
  cases hs : c.objs[ref]? with
  | some s =>
    have := h.get hs
    rw [hs'] at this
    exact .inl ⟨s, rfl, by simpa using this⟩
  | none =>
    have hge := List.getElem?_eq_none_iff.1 hs
    have hlt := (List.getElem?_eq_some_iff.1 hs').1
    rw [h.length] at hlt
    split at hlt
    · next ho =>
      obtain ⟨id, hid⟩ := Option.isSome_iff_exists.1 ho
      have href : ref = c.objs.length := by omega
      refine .inr ⟨href, id, hid, ?_⟩
      subst href
      rw [h.objs, Event.objsAfter, hid] at hs'
      dsimp only at hs'
      rw [List.getElem?_append_right (by simp)] at hs'
      simpa using hs'.symm
    · omega

/-- A sum over the objects, by what the event changes: its object's term. -/
theorem After.sum (h : After c e c') {f g : Nat → Nat} (hnew : (e.opens c).isSome = true → g c.objs.length = 0)
    (hsame : ∀ ref < c.objs.length, e.target c ≠ some ref → g ref = f ref) :
    (e.target c = none →
      ∑ ref ∈ Finset.range c'.objs.length, g ref = ∑ ref ∈ Finset.range c.objs.length, f ref) ∧
    ∀ (ref : Nat), ref < c.objs.length → e.target c = some ref →
      (∑ i ∈ Finset.range c'.objs.length, g i) + f ref = (∑ i ∈ Finset.range c.objs.length, f i) + g ref := by
  have hold : ∑ i ∈ Finset.range c'.objs.length, g i = ∑ i ∈ Finset.range c.objs.length, g i := by
    rw [h.length]
    split
    · next ho => rw [Finset.sum_range_succ, hnew ho, Nat.add_zero]
    · rfl
  rw [hold]
  refine ⟨fun ht => ?_, fun ref hlt ht => ?_⟩
  · exact Finset.sum_congr rfl fun i hi => hsame i (Finset.mem_range.1 hi) (by rw [ht]; simp)
  · have hg := Finset.add_sum_erase (Finset.range c.objs.length) g (Finset.mem_range.2 hlt)
    have hf := Finset.add_sum_erase (Finset.range c.objs.length) f (Finset.mem_range.2 hlt)
    have hrest : ∑ i ∈ (Finset.range c.objs.length).erase ref, g i =
        ∑ i ∈ (Finset.range c.objs.length).erase ref, f i := by
      refine Finset.sum_congr rfl fun i hi => hsame i (Finset.mem_range.1 (Finset.mem_of_mem_erase hi)) ?_
      rw [ht]
      simpa using (Finset.ne_of_mem_erase hi).symm
    omega

end

/-! ## The registry -/

/-- `@streams` maps an id to an object with that id. -/
def Entries (c : Client) : Prop :=
  ∀ id ref, c.streams.aref id = some ref → ∃ s, c.objs[ref]? = some s ∧ s.streamId = id

/-- No two objects have one id, and `@streams` maps an id to its object. -/
structure Registered (c : Client) : Prop where
  ids : ∀ (r₁ r₂ : Nat) (s₁ s₂ : QuicStream), c.objs[r₁]? = some s₁ → c.objs[r₂]? = some s₂ →
    s₁.streamId = s₂.streamId → r₁ = r₂
  streams : Entries c

/-- ngtcp2 never uses a stream id for a second stream: the id a new object
is made for is no older object's. -/
def FreshIds : ClientContract := fun _ c e => ∀ id ∈ e.opens c, ∀ s ∈ c.objs, s.streamId ≠ id

instance : ∀ tr c e, Decidable (FreshIds tr c e) := fun _ c e =>
  inferInstanceAs (Decidable (∀ id ∈ e.opens c, ∀ s ∈ c.objs, s.streamId ≠ id))

/-- An event is about the object it changes or about the one it makes. -/
theorem opens_target {c : Client} {e : Event} {id : Int} (h : e.opens c = some id) : e.target c = none := by
  cases e with
  | callback cb =>
    cases cb with
    | streamOpen id' =>
      simp only [Event.opens] at h
      split at h
      · cases h
      · next hn => simpa [Event.target, Callback.streamId] using hn
    | _ => cases h
  | openBidiStream | openUniStream => rfl
  | _ => cases h

/-- A step is about an object there is. -/
theorem target_get {c : Client} {e : Event} {r : Reply} {c' : Client} (hent : Entries c)
    (h : step c e = some (r, c')) {ref : Nat} (ht : e.target c = some ref) : ∃ s, c.objs[ref]? = some s := by
  cases e with
  | write =>
    cases ht
    simp only [step, Option.bind_eq_some_iff] at h
    obtain ⟨s, hs, -⟩ := h
    exact ⟨s, hs⟩
  | writeNonblock | closeWrite | readNonblock | closeRead | close | reset =>
    cases ht
    simp only [step, Client.call, Option.map_eq_some_iff] at h
    obtain ⟨s, hs, -⟩ := h
    exact ⟨s, hs⟩
  | writePkt buffer answer =>
    simp only [Event.target] at ht
    split at ht
    · cases ht
    · obtain ⟨⟨ref', args⟩, hpick, rfl⟩ := Option.map_eq_some_iff.1 ht
      obtain ⟨-, s, hs, -⟩ := pick_spec hpick
      exact ⟨s, hs⟩
  | callback cb =>
    obtain ⟨s, hs, -⟩ := hent _ _ ht
    exact ⟨s, hs⟩
  | openBidiStream | openUniStream | acceptStreamNonblock | bind | maxStreamData | maxData => cases ht

/-- An entry is an old one, or the new object's. -/
theorem streamsAfter_aref {c : Client} {e : Event} {id : Int} {ref : Nat}
    (h : (e.streamsAfter c).aref id = some ref) :
    c.streams.aref id = some ref ∨ e.opens c = some id ∧ ref = c.objs.length := by
  simp only [Event.streamsAfter] at h
  split at h
  · next id' _ ho =>
    rw [OrderedHash.aref_aset] at h
    split at h
    · next heq => cases h; exact .inr ⟨by rw [heq, ho], rfl⟩
    · exact .inl h
  · rw [OrderedHash.aref_delete] at h
    split at h
    · cases h
    · exact .inl h
  · exact .inl h

section
variable {c c' : Client} {e : Event}

theorem Registered.initial : Registered {} :=
  ⟨fun _ _ _ _ h => by simp at h, fun _ _ h => by simp at h⟩

/-- The registry finds the stream of an id, if anything. -/
theorem Registered.object (hreg : Registered c) {ref r : Nat} {s s' : QuicStream} (hs : c.objs[ref]? = some s)
    (hid : c.streams.aref s.streamId = some r) (hs' : c.objs[r]? = some s') : s' = s := by
  obtain ⟨s₁, hs₁, hid₁⟩ := hreg.streams _ _ hid
  obtain rfl := hreg.ids _ _ _ _ hs₁ hs hid₁
  rw [hs] at hs'
  exact (Option.some.inj hs').symm

/-- An object afterwards has the id it had before or was made for. -/
theorem After.streamId (h : After c e c') {ref : Nat} {s' : QuicStream} (hs' : c'.objs[ref]? = some s') :
    (∃ s, c.objs[ref]? = some s ∧ s'.streamId = s.streamId) ∨
      ref = c.objs.length ∧ ∃ id, e.opens c = some id ∧ s'.streamId = id := by
  rcases h.get_inv hs' with ⟨s, hs, rfl⟩ | ⟨hr, id, hid, rfl⟩
  · exact .inl ⟨s, hs, target_streamId c e ref s⟩
  · exact .inr ⟨hr, id, hid, rfl⟩

theorem Entries.after (hent : Entries c) (h : After c e c') : Entries c' := by
  intro id ref hid
  rw [h.streams] at hid
  rcases streamsAfter_aref hid with hold | ⟨ho, rfl⟩
  · obtain ⟨s, hs, rfl⟩ := hent id ref hold
    exact ⟨_, h.get hs, target_streamId c e ref s⟩
  · obtain ⟨s', hs'⟩ : ∃ s', c'.objs[c.objs.length]? = some s' := by
      refine ⟨_, List.getElem?_eq_getElem (h := ?_)⟩
      rw [h.length, ho]
      simp
    rcases h.streamId hs' with ⟨s, hs, -⟩ | ⟨-, id', ho', hid'⟩
    · simp at hs
    · rw [ho] at ho'
      cases ho'
      exact ⟨s', hs', hid'⟩

theorem Registered.after {tr : ClientTrace} (hreg : Registered c) (hfresh : FreshIds tr c e)
    (h : After c e c') :
    Registered c' := by
  refine ⟨fun r₁ r₂ s₁ s₂ h₁ h₂ hid => ?_, hreg.streams.after h⟩
  rcases h.streamId h₁ with ⟨t₁, g₁, i₁⟩ | ⟨rfl, id₁, o₁, i₁⟩ <;>
    rcases h.streamId h₂ with ⟨t₂, g₂, i₂⟩ | ⟨rfl, id₂, o₂, i₂⟩
  · exact hreg.ids r₁ r₂ t₁ t₂ g₁ g₂ (by rw [← i₁, ← i₂, hid])
  · exact absurd (by rw [← i₁, hid, i₂]) (hfresh _ o₂ t₁ (List.mem_of_getElem? g₁))
  · exact absurd (by rw [← i₂, ← hid, i₁]) (hfresh _ o₁ t₂ (List.mem_of_getElem? g₂))
  · rfl

end

theorem Reach.entries {K : ClientContract} {tr c} (h : Reach K tr c) : Entries c :=
  h.invariant (I := fun _ c => Entries c) Registered.initial.streams fun _ _ _ _ _ hent _ hs =>
    hent.after (step_after hs)

theorem Reach.registered {K : ClientContract} (hK : ∀ tr c e, K tr c e → FreshIds tr c e) {tr c}
    (h : Reach K tr c) :
    Registered c :=
  h.invariant (I := fun _ c => Registered c) .initial fun _ _ _ _ _ hreg hk hs =>
    hreg.after (hK _ _ _ hk) (step_after hs)

/-! ## One object along a run -/

section
variable {K : ClientContract} (hK : ∀ tr c e, K tr c e → FreshIds tr c e)

/-- **The object rule.** What holds of a new object, and of an object after
each event, holds of every object in every state reached. -/
theorem Reach.each {I : ClientTrace → Client → Nat → QuicStream → Prop}
    (hnew : ∀ tr c e r c' id, Reach K tr c → K tr c e → step c e = some (r, c') → e.opens c = some id →
      I (tr ++ [(e, r)]) c' c.objs.length (quicStreamNew id))
    (hold : ∀ tr c e r c' ref s, Reach K tr c → K tr c e → step c e = some (r, c') → c.objs[ref]? = some s →
      I tr c ref s → I (tr ++ [(e, r)]) c' ref (if e.target c = some ref then e.update s else s))
    {tr c} (h : Reach K tr c) {ref : Nat} {s : QuicStream} (hs : c.objs[ref]? = some s) : I tr c ref s := by
  induction h generalizing ref s with
  | refl => simp at hs
  | tail h hk hst ih =>
    rcases (step_after hst).get_inv hs with ⟨s₀, hs₀, rfl⟩ | ⟨rfl, id, hid, rfl⟩
    · exact hold _ _ _ _ _ _ _ h hk hst hs₀ (ih hs₀)
    · exact hnew _ _ _ _ _ _ h hk hst hid

/-- A client's streams have their client. -/
theorem Reach.hasClient {tr c} (h : Reach K tr c) {ref : Nat} {s : QuicStream} (hs : c.objs[ref]? = some s) :
    s.hasClient = true := by
  refine Reach.each (I := fun _ _ _ s => s.hasClient = true) (fun _ _ _ _ _ _ _ _ _ _ => rfl) ?_ h hs
  intro tr c e r c' ref s _ _ _ _ hI
  split
  · rw [(update_fixed e s).2.1, hI]
  · exact hI

include hK in
/-- What only events about an object add to is empty for one not there yet. -/
theorem Reach.noObject {α : Type} {f : Event × Reply → List α} {ref : Nat}
    (hf : ∀ (c : Client) e r, e.target c ≠ some ref → f (e, r) = []) {tr c} (h : Reach K tr c)
    (href : c.objs.length ≤ ref) : tr.flatMap f = [] := by
  refine (h.invariant (I := fun tr c => Registered c ∧ (c.objs.length ≤ ref → tr.flatMap f = []))
    ⟨.initial, fun _ => rfl⟩ ?_).2 href
  intro tr c e r c' ⟨hreg, ih⟩ hk hs
  have hafter := step_after hs
  refine ⟨hreg.after (hK _ _ _ hk) hafter, fun href => ?_⟩
  have hlen : c.objs.length ≤ ref := Nat.le_trans (by rw [hafter.length]; exact Nat.le_add_right _ _) href
  have htarget : e.target c ≠ some ref := by
    intro ht
    obtain ⟨s, hs'⟩ := target_get hreg.streams hs ht
    have := (List.getElem?_eq_some_iff.1 hs').1
    omega
  simp [ih hlen, hf c e r htarget]

end

/-- No object has the id. -/
def Client.NoStream (c : Client) (id : Int) : Prop := ∀ s ∈ c.objs, s.streamId ≠ id

theorem After.noStream {c : Client} {e : Event} {c' : Client} (h : After c e c') {id : Int}
    (hno : c'.NoStream id) :
    c.NoStream id := by
  intro s hm hid
  obtain ⟨ref, hs⟩ := List.mem_iff_getElem?.1 hm
  refine hno _ (List.mem_of_getElem? (h.get hs)) ?_
  rw [target_streamId, hid]

end QuicRuby
