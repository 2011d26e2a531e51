/-
The stream registry over a whole run. ngtcp2 opens each stream once; then
every object has an id of its own, `@streams` has the objects that are not
closed under their ids, and a closed object has left it for good, so that no
callback finds it and the scheduler never picks it.

`FreshIds` speaks of the objects there are. `NeverReused` is what ngtcp2 can
promise, in terms of what it said before; the registry makes one of the
other.
-/
import QuicRuby.Receive

namespace QuicRuby

open Runs

/-- ngtcp2 opens an id for the client only if it was not opened before, and
announces none that was closed. -/
def neverReused (tr : ClientTrace) : Event → Bool
  | .openBidiStream (.ok id) | .openUniStream (.ok id) => !opened tr id
  | .callback (.streamOpen id) => !closed tr id
  | _ => true

def NeverReused : ClientContract := fun tr _ e => neverReused tr e = true

instance : ∀ tr c e, Decidable (NeverReused tr c e) := fun tr _ e =>
  inferInstanceAs (Decidable (neverReused tr e = true))

/-! ## The closed flag -/

/-- The event is a `stream_close` callback. -/
def Event.isStreamClose : Event → Bool
  | .callback (.streamClose ..) => true
  | _ => false

/-- A call leaves the flag. -/
theorem update_closed_call {e : Event} (he : ∀ cb, e ≠ .callback cb) (s : QuicStream) :
    (e.update s).closed = s.closed := by
  have hupdate := update_cases e s
  generalize e.update s = s' at hupdate ⊢
  cases hupdate with
  | account buffer answer n =>
    obtain ⟨_, _, hacc⟩ := accountWritev_eq s (s.sendOffer.getD .connOnly) n answer.pdatalen
    rw [hacc]
  | callback cb => exact absurd rfl (he cb)
  | same | enqueue | read | reset => rfl

/-- Only `stream_close` closes an object, and nothing opens it again. -/
theorem update_closed (e : Event) (s : QuicStream) :
    (e.update s).closed = (s.closed || e.isStreamClose) := by
  cases e with
  | callback cb =>
    cases cb with
    | streamClose set id code =>
      obtain ⟨_, _, hclose⟩ := streamClose_eq s set code
      rw [Event.update, Callback.update, hclose]
      exact (Bool.or_true s.closed).symm
    | recvStreamData fin id offset data =>
      rw [Event.update, Callback.update, recvStreamData_eq]
      exact (Bool.or_false s.closed).symm
    | _ => exact (Bool.or_false s.closed).symm
  | _ => exact (update_closed_call (fun cb h => by cases h) s).trans (Bool.or_false s.closed).symm

/-! ## The registry along a run -/

/-- What the registry keeps: ids are opened once, and an object is under its id
until it is closed, and not closed while it is. -/
structure Registry (tr : ClientTrace) (c : Client) : Prop where
  registered : Registered c
  opened : ∀ s ∈ c.objs, opened tr s.streamId = true
  entry : ∀ id ref s, c.streams.aref id = some ref → c.objs[ref]? = some s → s.closed = false
  object : ∀ (ref : Nat) s, c.objs[ref]? = some s →
    c.streams.aref s.streamId = some ref ∨ s.closed = true ∧ QuicRuby.closed tr s.streamId = true

theorem Registry.initial : Registry [] {} :=
  ⟨.initial, by simp, by simp, by simp⟩

/-- An event that makes an object opens its id. -/
theorem openedBy_of_opens {c : Client} {e : Event} {id : Int} (h : e.opens c = some id) (r : Reply) :
    openedBy id (e, r) = true := by
  cases e with
  | openBidiStream answer | openUniStream answer =>
    cases answer with
    | error rv => cases h
    | ok i => cases h; simp [openedBy]
  | callback cb =>
    cases cb with
    | streamOpen i =>
      simp only [Event.opens] at h
      split at h
      · cases h
      · cases h; simp [openedBy]
    | _ => cases h
  | _ => cases h

section
variable {tr : ClientTrace} {c : Client} {e : Event}

/-- What ngtcp2 promises of the ids it said keeps the objects' ids apart. -/
theorem Registry.fresh (h : Registry tr c) (hk : NeverReused tr c e) : FreshIds tr c e := by
  intro id ho s hm hid
  have hopened := h.opened s hm
  rw [hid] at hopened
  cases e with
  | openBidiStream answer | openUniStream answer =>
    cases answer with
    | error rv => cases ho
    | ok i =>
      cases ho
      simp [NeverReused, neverReused, hopened] at hk
  | callback cb =>
    cases cb with
    | streamOpen i =>
      simp only [Event.opens] at ho
      split at ho
      · cases ho
      · next hnone =>
        cases ho
        -- The object with the id is not registered, so the id was closed.
        obtain ⟨ref, hs⟩ := List.mem_iff_getElem?.1 hm
        rcases h.object ref s hs with hreg | ⟨-, hclosed⟩
        · rw [hid] at hreg
          simp [hreg] at hnone
        · rw [hid] at hclosed
          simp [NeverReused, neverReused, hclosed] at hk
    | _ => cases ho
  | _ => cases ho

/-- The object a `stream_close` is about, and the id it takes out. -/
theorem closes_target {id : Int} (h : e.closes c = some id) :
    e.isStreamClose = true ∧ e.target c = c.streams.aref id ∧ ∀ r, closedBy id (e, r) = true := by
  cases e with
  | callback cb =>
    cases cb with
    | streamClose set i code =>
      simp only [Event.closes] at h
      split at h
      · cases h
        exact ⟨rfl, rfl, fun r => by simp [closedBy]⟩
      · cases h
    | _ => cases h
  | _ => cases h

/-- A `stream_close` about an object takes its entry out. -/
theorem closes_of_target {ref : Nat} (h : e.isStreamClose = true) (ht : e.target c = some ref) :
    ∃ id, e.closes c = some id ∧ c.streams.aref id = some ref := by
  cases e with
  | callback cb =>
    cases cb with
    | streamClose set i code =>
      have haref : c.streams.aref i = some ref := ht
      exact ⟨i, by simp [Event.closes, haref], haref⟩
    | _ => cases h
  | _ => cases h

theorem streamsAfter_of_closes {id : Int} (h : e.closes c = some id) : e.streamsAfter c = c.streams.delete id := by
  have hopens : e.opens c = none := by
    cases e with
    | callback cb =>
      cases cb with
      | streamClose => rfl
      | _ => cases h
    | _ => cases h
  rw [Event.streamsAfter, hopens, h]

/-- The flag of an object after an event. -/
theorem target_closed (s : QuicStream) (ref : Nat) :
    (if e.target c = some ref then e.update s else s).closed =
      (s.closed || (e.target c = some ref && e.isStreamClose)) := by
  by_cases ht : e.target c = some ref
  · simp [ht, update_closed]
  · simp [ht]

/-- An entry of an object stays unless the event closes the object's id. -/
theorem streamsAfter_keeps {id : Int} {ref : Nat} (hfresh : e.opens c ≠ some id)
    (hreg : c.streams.aref id = some ref) :
    (e.streamsAfter c).aref id = some ref ∨ e.closes c = some id := by
  cases hc : e.closes c with
  | some id' =>
    by_cases hid : id' = id
    · exact .inr (by rw [hid])
    · rw [streamsAfter_of_closes hc, OrderedHash.aref_delete, if_neg (Ne.symm hid)]
      exact .inl hreg
  | none =>
    refine .inl ?_
    rw [Event.streamsAfter, hc]
    split
    · next id' _ ho =>
      rw [OrderedHash.aref_aset_ne (fun hid => hfresh (by rw [hid, ho]))]
      exact hreg
    · next hc' => cases hc'
    · exact hreg

/-- The entry of the object an event is about goes with a `stream_close`, and
no other. -/
theorem streamsAfter_target {ref : Nat} {s : QuicStream} (hreg : Registered c) (ht : e.target c = some ref)
    (hs : c.objs[ref]? = some s) :
    ((e.streamsAfter c).aref s.streamId = some ref ↔
        c.streams.aref s.streamId = some ref ∧ e.isStreamClose = false) ∧
      ∀ id, id ≠ s.streamId → (e.streamsAfter c).aref id = c.streams.aref id := by
  have hopens : e.opens c = none := by
    cases ho : e.opens c with
    | none => rfl
    | some id => rw [opens_target ho] at ht; cases ht
  cases hclose : e.isStreamClose with
  | true =>
    obtain ⟨id, hc, haref⟩ := closes_of_target hclose ht
    obtain ⟨s₁, hs₁, rfl⟩ := hreg.streams id ref haref
    obtain rfl : s₁ = s := by simpa [hs] using hs₁.symm
    rw [streamsAfter_of_closes hc]
    refine ⟨by simp [OrderedHash.aref_delete], fun id hne => ?_⟩
    rw [OrderedHash.aref_delete, if_neg hne]
  | false =>
    have hcloses : e.closes c = none := by
      cases hc : e.closes c with
      | none => rfl
      | some id => rw [(closes_target hc).1] at hclose; cases hclose
    simp [Event.streamsAfter, hopens, hcloses]

theorem Registry.step (h : Registry tr c) (hk : NeverReused tr c e) {r : Reply} {c' : Client}
    (hs : step c e = some (r, c')) : Registry (tr ++ [(e, r)]) c' := by
  have hafter := step_after hs
  have hfresh := h.fresh hk
  refine ⟨h.registered.after hfresh hafter, ?_, ?_, ?_⟩
  · intro s' hm
    obtain ⟨ref, hs'⟩ := List.mem_iff_getElem?.1 hm
    rw [opened_snoc, Bool.or_eq_true]
    rcases hafter.streamId hs' with ⟨s, hs, hid⟩ | ⟨-, id, ho, hid⟩
    · rw [hid]
      exact .inl (h.opened s (List.mem_of_getElem? hs))
    · rw [hid]
      exact .inr (openedBy_of_opens ho r)
  · intro id ref s' haref hs'
    rw [hafter.streams] at haref
    rcases streamsAfter_aref haref with hold | ⟨ho, rfl⟩
    · obtain ⟨s, hs, hid⟩ := h.registered.streams id ref hold
      obtain rfl : s' = _ := Option.some.inj (hs'.symm.trans (hafter.get hs))
      rw [target_closed, h.entry id ref s hold hs, Bool.false_or, Bool.and_eq_false_iff]
      by_cases hclose : e.isStreamClose = true
      · refine .inl (decide_eq_false fun ht => ?_)
        -- The event would take out the entry that is there afterwards.
        obtain ⟨id', hc, hreg⟩ := closes_of_target hclose ht
        obtain ⟨s₁, hs₁, hid₁⟩ := h.registered.streams id' ref hreg
        have hsame : id = id' := by
          rw [← hid, ← hid₁, Option.some.inj (hs.symm.trans hs₁)]
        rw [streamsAfter_of_closes hc, OrderedHash.aref_delete, if_pos hsame] at haref
        cases haref
      · exact .inr (Bool.eq_false_iff.2 hclose)
    · rcases hafter.get_inv hs' with ⟨s, hs, -⟩ | ⟨-, id', -, rfl⟩
      · simp at hs
      · rfl
  · intro ref s' hs'
    rcases hafter.get_inv hs' with ⟨s, hs, rfl⟩ | ⟨rfl, id, ho, rfl⟩
    · rw [target_streamId, target_closed, closed_snoc, hafter.streams]
      rcases h.object ref s hs with hreg | ⟨hclosed, hid⟩
      · have hnew : e.opens c ≠ some s.streamId := fun ho =>
          hfresh _ ho s (List.mem_of_getElem? hs) rfl
        rcases streamsAfter_keeps hnew hreg with hkeep | hc
        · exact .inl hkeep
        · obtain ⟨hclose, ht, hby⟩ := closes_target hc
          exact .inr ⟨by simp [hclose, ht, hreg], by rw [hby r, Bool.or_true]⟩
      · exact .inr ⟨by rw [hclosed, Bool.true_or], by rw [hid, Bool.true_or]⟩
    · refine .inl ?_
      rw [hafter.streams, Event.streamsAfter, ho]
      exact OrderedHash.aref_aset_self

end

theorem Reach.registry {tr c} (h : Reach NeverReused tr c) : Registry tr c :=
  h.invariant .initial fun _ _ _ _ _ hI hk hs => hI.step hk hs

/-! ## Closed for good -/

section
variable {tr : ClientTrace} {c : Client} {ref : Nat} {s : QuicStream}

/-- A closed object has no entry. -/
theorem Registry.no_entry (h : Registry tr c) (hs : c.objs[ref]? = some s) (hclosed : s.closed = true) (id : Int) :
    c.streams.aref id ≠ some ref := by
  intro haref
  rw [h.entry id ref s haref hs] at hclosed
  cases hclosed

/-- No callback finds a closed object. -/
theorem Registry.callback_unchanged (h : Registry tr c) (hs : c.objs[ref]? = some s) (hclosed : s.closed = true)
    (cb : Callback) : (runCallback c cb).objs[ref]? = some s := by
  have ht : (Event.callback cb).target c ≠ some ref := h.no_entry hs hclosed cb.streamId
  rw [(runCallback_after c cb).get hs, if_neg ht]

/-- The scheduler does not pick it. -/
theorem Registry.not_picked (h : Registry tr c) (hs : c.objs[ref]? = some s) (hclosed : s.closed = true)
    (args : WritevArgs) : quicClientPickSendStream c ≠ some (ref, args) := by
  intro hpick
  obtain ⟨hm, -⟩ := pick_spec hpick
  obtain ⟨id, haref⟩ := OrderedHash.mem_values_iff.1 hm
  exact h.no_entry hs hclosed id haref

end

/-- A closed object stays closed. -/
theorem Steps.closed {K : ClientContract} {tr tr' : ClientTrace} {c c' : Client} (h : Steps step K tr c tr' c')
    {ref : Nat} (hclosed : ∃ s, c.objs[ref]? = some s ∧ s.closed = true) :
    ∃ s, c'.objs[ref]? = some s ∧ s.closed = true := by
  refine h.invariant (I := fun _ c => ∃ s, c.objs[ref]? = some s ∧ s.closed = true) hclosed ?_
  rintro tr c e r c' ⟨s, hs, hclosed⟩ - hst
  exact ⟨_, (step_after hst).get hs, by rw [target_closed, hclosed, Bool.true_or]⟩

/-- **The registry.** In every state reached, `@streams` maps an id to an object
that has the id and is not closed; no two objects ever made have one id; an
object that is not in `@streams` is closed; and from the `stream_close` of a
stream on, no callback changes its object and the scheduler never picks it. -/
theorem registry_exact {tr c} (h : Reach NeverReused tr c) :
    (∀ id ref, c.streams.aref id = some ref →
      ∃ s, c.objs[ref]? = some s ∧ s.streamId = id ∧ s.closed = false) ∧
    (∀ (r₁ r₂ : Nat) s₁ s₂, c.objs[r₁]? = some s₁ → c.objs[r₂]? = some s₂ →
      s₁.streamId = s₂.streamId → r₁ = r₂) ∧
    (∀ (ref : Nat) s, c.objs[ref]? = some s → (∀ id, c.streams.aref id ≠ some ref) → s.closed = true) ∧
    ∀ set id code ref, c.streams.aref id = some ref → ∀ tr' c',
      Steps step NeverReused (tr ++ [(.callback (.streamClose set id code), .ok .nil)])
        (runCallback c (.streamClose set id code)) tr' c' →
      (∀ cb, (runCallback c' cb).objs[ref]? = c'.objs[ref]?) ∧
      ∀ args, quicClientPickSendStream c' ≠ some (ref, args) := by
  have hreg := h.registry
  refine ⟨fun id ref haref => ?_, hreg.registered.ids, fun ref s hs hnone => ?_, ?_⟩
  · obtain ⟨s, hs, hid⟩ := hreg.registered.streams id ref haref
    exact ⟨s, hs, hid, hreg.entry id ref s haref hs⟩
  · exact ((hreg.object ref s hs).resolve_left (hnone _)).1
  · intro set id code ref haref tr' c' hrest
    have hclose : Steps step NeverReused tr c (tr ++ [(.callback (.streamClose set id code), .ok .nil)])
        (runCallback c (.streamClose set id code)) := .one rfl rfl
    have hreg' := Reach.registry (h.trans (hclose.trans hrest))
    obtain ⟨s, hs, -⟩ := hreg.registered.streams id ref haref
    have hget := (runCallback_after c (.streamClose set id code)).get hs
    have hclosed : ∃ s, (runCallback c (.streamClose set id code)).objs[ref]? = some s ∧ s.closed = true := by
      refine ⟨_, hget, ?_⟩
      rw [target_closed]
      simp [Event.target, Callback.streamId, haref, Event.isStreamClose]
    obtain ⟨s', hs', hcl⟩ := Steps.closed hrest hclosed
    exact ⟨fun cb => (hreg'.callback_unchanged hs' hcl cb).trans hs'.symm, hreg'.not_picked hs' hcl⟩

/-- A stream of the client's and one of the server's, the first one closed. -/
def closedRun : ClientTrace × Client :=
  run step NeverReused
    [.openBidiStream (.ok 0), .callback (.streamOpen 1), .callback (.streamOpen 0),
     .callback (.streamClose true 0 7)] [] {}

theorem registry_exact_closedRun :
    ∃ s, closedRun.2.objs[0]? = some s ∧ s.closed = true ∧ closedRun.2.streams.aref 1 = some 1 :=
  have hreach : Reach NeverReused closedRun.1 closedRun.2 := Steps.of_run (by decide)
  have hs : closedRun.2.objs[0]? = some (closedRun.2.objs.getD 0 (quicStreamNew 0)) := rfl
  have hnone : ∀ id, closedRun.2.streams.aref id ≠ some 0 := by
    intro id haref
    have hm := OrderedHash.aref_eq_some_iff.1 haref
    have hentries : closedRun.2.streams.entries = [(1, 1)] := rfl
    rw [hentries] at hm
    simp at hm
  ⟨_, hs, (registry_exact hreach).2.2.1 0 _ hs hnone, rfl⟩

end QuicRuby
