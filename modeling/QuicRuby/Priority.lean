/-
The order in which streams are served. The scheduler takes the first stream
of `@streams` that has something to send, each time anew. So as long as no
stream gets anything more to send and none is opened or closed, the streams
are served one after the other as they were registered, each to its end: an
earlier stream is never served after a later one, and when a stream is served
all earlier ones are done. What comes in between (acks, data, reads, resets,
accepts) makes no difference. A stream registered early that always has more
keeps all later ones waiting.
-/
import QuicRuby.Pick
import QuicRuby.Reset

namespace QuicRuby

open Runs

/-- An event that may give a stream something to send, or changes the
registry. -/
def Event.addsWork : Event → Bool
  | .write .. | .writeNonblock .. | .closeWrite _ | .close .. | .openBidiStream _ | .openUniStream _
  | .callback (.streamOpen _) | .callback (.streamClose ..) => true
  | _ => false

def NoNewWork : ClientContract := fun _ _ e => e.addsWork = false

instance : ∀ tr c e, Decidable (NoNewWork tr c e) := fun _ _ e =>
  inferInstanceAs (Decidable (e.addsWork = false))

/-- The stream a call offers something of. -/
def Ngtcp2Call.serves : Ngtcp2Call → Option Int
  | .writevStream args _ => if args.datavcnt = 0 && !args.fin then none else some args.streamId
  | _ => none

/-- The streams served, in order. -/
def served (calls : List Ngtcp2Call) : List Int := calls.filterMap Ngtcp2Call.serves

/-- The ids of `@streams`, in the order they were registered. -/
def Client.ranking (c : Client) : List Int := c.streams.entries.map Prod.fst

/-- The stream `id` was registered before `id'`. -/
def Client.Before (c : Client) (id id' : Int) : Prop := [id, id'].Sublist c.ranking

/-- The stream of the id has nothing to send. -/
def Client.Done (c : Client) (id : Int) : Prop := ∀ ref, c.streams.aref id = some ref → c.offer ref = none

/-! ## One step -/

section
variable {c : Client} {e : Event} {r : Reply} {c' : Client}

theorem streamsAfter_of_noWork (h : e.addsWork = false) : e.streamsAfter c = c.streams := by
  cases e with
  | callback cb =>
    cases cb with
    | streamOpen | streamClose => cases h
    | _ => rfl
  | openBidiStream | openUniStream => cases h
  | _ => rfl

theorem opens_of_noWork (h : e.addsWork = false) : e.opens c = none := by
  cases e with
  | callback cb =>
    cases cb with
    | streamOpen => cases h
    | _ => rfl
  | openBidiStream | openUniStream => cases h
  | _ => rfl

/-- A stream with nothing to send gets nothing. -/
theorem update_offer_none {s : QuicStream} (h : e.addsWork = false)
    (he : ∀ buffer answer, e ≠ .writePkt buffer answer) (hnone : s.sendOffer = none) :
    (e.update s).sendOffer = none := by
  cases e with
  | write | writeNonblock | closeWrite | close | openBidiStream | openUniStream => cases h
  | writePkt buffer answer => exact absurd rfl (he buffer answer)
  | readNonblock ref length => rw [Event.update, (SameSend.readNonblockM s length).sendOffer, hnone]
  | closeRead ref rv => rw [Event.update, quicStreamCloseReadM_stream, hnone]
  | reset ref errorCode rv => rw [Event.update, (SameSend.resetM s errorCode rv).sendOffer, hnone]
  | callback cb =>
    cases cb with
    | streamOpen | streamClose => cases h
    | recvStreamData fin id offset data =>
      rw [Event.update, Callback.update, (SameSend.recvStreamData s fin id data).sendOffer, hnone]
    | ackedStreamDataOffset id offset datalen => exact sendOffer_acked hnone datalen
    | streamReset id size code =>
      rw [Event.update, Callback.update, (SameSend.streamReset s code).sendOffer, hnone]
  | acceptStreamNonblock | bind | maxStreamData | maxData => exact hnone

/-- Done stays done. -/
theorem Client.Done.step (hs : step c e = some (r, c')) (h : e.addsWork = false) {id : Int} (hdone : c.Done id) :
    c'.Done id := by
  have hafter := step_after hs
  intro ref href
  rw [hafter.streams, streamsAfter_of_noWork h] at href
  have hnone := hdone ref href
  rw [Client.offer, Option.bind_eq_none_iff]
  intro s' hs'
  rcases hafter.get_inv hs' with ⟨s, hget, rfl⟩ | ⟨-, i, ho, -⟩
  · have hold : s.sendOffer = none := by simpa [Client.offer, hget] using hnone
    split
    · next ht =>
      refine update_offer_none h ?_ hold
      -- A picked stream has an offer.
      rintro buffer answer rfl
      simp only [Event.target] at ht
      split at ht
      · cases ht
      · obtain ⟨⟨ref', args⟩, hpick, rfl⟩ := Option.map_eq_some_iff.1 ht
        obtain ⟨-, s', hs'', ho⟩ := pick_spec hpick
        obtain rfl := Option.some.inj (hget.symm.trans hs'')
        rw [hold] at ho
        cases ho
    · exact hold
  · rw [opens_of_noWork h] at ho
    cases ho

/-- What an event serves: the stream picked. -/
theorem served_newCalls (id : Int) (h : id ∈ served (e.newCalls c)) :
    ∃ ref args, quicClientPickSendStream c = some (ref, args) ∧ args.streamId = id ∧
      served (e.newCalls c) = [id] := by
  obtain ⟨call, hm, hcall⟩ := List.mem_filterMap.1 h
  cases newCalls_makes hm with
  | writev buffer answer =>
    cases hpick : quicClientPickSendStream c with
    | none =>
      rw [Client.writevArgs, hpick] at hcall
      cases hcall
    | some sel =>
      obtain ⟨ref, args⟩ := sel
      rw [writevArgs_of_pick hpick] at hcall
      refine ⟨ref, args, rfl, ?_, ?_⟩
      · simp only [Ngtcp2Call.serves] at hcall
        split at hcall
        · cases hcall
        · exact Option.some.inj hcall
      · have hb : buffer ≠ some .other := by
          rintro rfl
          simp [Event.newCalls] at hm
        simp [Event.newCalls, hb, served, writevArgs_of_pick hpick, hcall]
  | _ => cases hcall

end

/-! ## The ranking -/

/-- Of two ids in a list one comes first. -/
theorem pair_sublist_or {α : Type} {l : List α} {a b : α} (ha : a ∈ l) (hb : b ∈ l) :
    a = b ∨ [a, b].Sublist l ∨ [b, a].Sublist l := by
  obtain ⟨pre, post, rfl⟩ := List.append_of_mem ha
  rw [List.mem_append, List.mem_cons] at hb
  rcases hb with hpre | rfl | hpost
  · obtain ⟨l₁, l₂, rfl⟩ := List.append_of_mem hpre
    exact .inr (.inr (by simp))
  · exact .inl rfl
  · exact .inr (.inl (List.sublist_append_of_sublist_right (by simpa using hpost)))

/-- What comes before an id in a list without repeats is in front of it. -/
theorem mem_of_pair_sublist {α : Type} {pre post : List α} {a b : α} (hn : (pre ++ b :: post).Nodup)
    (h : [a, b].Sublist (pre ++ b :: post)) : a ∈ pre := by
  obtain ⟨l₁, l₂, heq, h₁, h₂⟩ := List.sublist_append_iff.1 h
  have hb : b ∉ post := by
    rw [List.nodup_append, List.nodup_cons] at hn
    exact hn.2.1.1
  cases l₁ with
  | nil =>
    rw [List.nil_append] at heq
    rw [← heq] at h₂
    cases h₂ with
    | cons _ h => exact absurd (h.subset (by simp)) hb
    | cons_cons _ h => exact absurd (h.subset (by simp)) hb
  | cons x l₁ =>
    obtain ⟨rfl, -⟩ := List.cons.inj heq
    exact h₁.subset (by simp)

section
variable {c : Client}

/-- The stream picked is registered and not done, and all registered before
it are. -/
theorem picked_rank (hent : Entries c) {ref : Nat} {args : WritevArgs}
    (hpick : quicClientPickSendStream c = some (ref, args)) :
    args.streamId ∈ c.ranking ∧ ¬ c.Done args.streamId ∧ ∀ id, c.Before id args.streamId → c.Done id := by
  obtain ⟨pre, post, hvalues, hpre, ho⟩ := pick_eq_some_iff.1 hpick
  obtain ⟨epre, erest, hentries, rfl, hrest⟩ := List.map_eq_append_iff.1 hvalues
  obtain ⟨⟨id, ref'⟩, epost, rfl, rfl, rfl⟩ := List.map_eq_cons_iff.1 hrest
  have haref : c.streams.aref id = some ref' := OrderedHash.aref_eq_some_iff.2 (by simp [hentries])
  obtain ⟨s, hs, hoffer⟩ := Option.bind_eq_some_iff.1 ho
  obtain ⟨s', hs', hid⟩ := hent id ref' haref
  obtain rfl := Option.some.inj (hs.symm.trans hs')
  rw [sendOffer_streamId hoffer, hid]
  have hranking : c.ranking = epre.map Prod.fst ++ id :: epost.map Prod.fst := by
    rw [Client.ranking, hentries]
    simp
  refine ⟨by simp [hranking], fun hdone => ?_, fun id' hbefore ref'' haref'' => ?_⟩
  · rw [hdone ref' haref] at ho
    cases ho
  · rw [Client.Before, hranking] at hbefore
    have hnodup : (epre.map Prod.fst ++ id :: epost.map Prod.fst).Nodup := hranking ▸ c.streams.nodup
    obtain ⟨⟨i, r⟩, hm, rfl⟩ := List.mem_map.1 (mem_of_pair_sublist hnodup hbefore)
    have hr : c.streams.aref i = some r := OrderedHash.aref_eq_some_iff.2 (by simp [hentries, hm])
    obtain rfl := Option.some.inj (hr.symm.trans haref'')
    exact hpre r (List.mem_map_of_mem hm)

end

/-! ## The order -/

/-- Since `c₀` the streams were served by rank, and those before one served
are done. -/
def ServedInOrder (c₀ c : Client) : Prop :=
  c.streams = c₀.streams ∧ ∃ new, c.calls = c₀.calls ++ new ∧
    (served new).Pairwise (fun id id' => id = id' ∨ c₀.Before id id') ∧
    ∀ id ∈ served new, id ∈ c₀.ranking ∧ ∀ id', c₀.Before id' id → c.Done id'

theorem ServedInOrder.refl (c : Client) : ServedInOrder c c := ⟨rfl, [], by simp [served]⟩

theorem ServedInOrder.step {c₀ c c' : Client} {e : Event} {r : Reply} (h : ServedInOrder c₀ c) (hent : Entries c)
    (hs : step c e = some (r, c')) (hno : e.addsWork = false) : ServedInOrder c₀ c' := by
  obtain ⟨hstreams, new, hcalls, hsorted, hdone⟩ := h
  have hafter := step_after hs
  have hlater : ∀ id ∈ served new, id ∈ c₀.ranking ∧ ∀ id', c₀.Before id' id → c'.Done id' := fun id hm =>
    ⟨(hdone id hm).1, fun id' hb => ((hdone id hm).2 id' hb).step hs hno⟩
  refine ⟨by rw [hafter.streams, streamsAfter_of_noWork hno, hstreams], new ++ e.newCalls c,
    by rw [hafter.calls, hcalls, List.append_assoc], ?_⟩
  have happ : served (new ++ e.newCalls c) = served new ++ served (e.newCalls c) := List.filterMap_append
  rw [happ]
  cases hnew : served (e.newCalls c) with
  | nil => simpa using ⟨hsorted, hlater⟩
  | cons id rest =>
    obtain ⟨ref, args, hpick, rfl, hone⟩ := served_newCalls id (by rw [hnew]; exact List.mem_cons_self)
    rw [hone] at hnew
    obtain ⟨-, rfl⟩ := List.cons.inj hnew
    -- The stream picked has the rank it had at the start.
    have hrank : c.ranking = c₀.ranking := by rw [Client.ranking, hstreams, Client.ranking]
    obtain ⟨hmem, hnot, hbefore⟩ := picked_rank hent hpick
    rw [hrank] at hmem
    have hbefore₀ : ∀ id', c₀.Before id' args.streamId → c.Done id' := fun id' hb =>
      hbefore id' (by rwa [Client.Before, hrank])
    refine ⟨List.pairwise_append.2 ⟨hsorted, List.pairwise_singleton _ _, fun i hi j hj => ?_⟩, fun i hi => ?_⟩
    · obtain rfl := List.mem_singleton.1 hj
      obtain ⟨hi', hall⟩ := hdone i hi
      rcases pair_sublist_or hi' hmem with heq | hb | hb
      · exact .inl heq
      · exact .inr hb
      · exact absurd (hall _ hb) hnot
    · rcases List.mem_append.1 hi with hold | hlast
      · exact hlater i hold
      · obtain rfl := List.mem_singleton.1 hlast
        exact ⟨hmem, fun id' hb => (hbefore₀ id' hb).step hs hno⟩

/-- A stream that is done has sent everything accepted on it, and its FIN. -/
theorem Client.Done.flushed {tr : ClientTrace} {c : Client} (h : Reach SendContract tr c) {id : Int}
    (hdone : c.Done id) {ref : Nat} {s : QuicStream} (hreg : c.streams.aref id = some ref)
    (hs : c.objs[ref]? = some s) (hlt : (accepted tr ref).length < 2 ^ 64) :
    framed c.calls id = accepted tr ref ∧ (s.finSent = true → s.finFlushed = true) := by
  obtain ⟨b, hb⟩ := h.tracks hs hlt
  obtain ⟨s', hs', hid⟩ := h.entries id ref hreg
  obtain rfl := Option.some.inj (hs.symm.trans hs')
  have hnone : s.sendOffer = none := by simpa [Client.offer, hs] using hdone ref hreg
  have hnot := hb.represents.queued.offer_none.1 hnone
  rw [← hid, ← hb.framed_eq, ← hb.accepted_eq, SendBuffer.framed]
  cases hfl : s.finFlushed with
  | true => exact ⟨by rw [(hb.represents.flushed hfl).2, List.take_length], fun _ => rfl⟩
  | false =>
    simp only [QuicRuby.HasToSend, hfl, true_and, not_or, hb.represents.sent] at hnot
    exact ⟨List.take_of_length_le (by omega), fun hf => absurd hf hnot.2⟩

/-- Three streams, two bytes each on the first two. -/
def queuedRun : ClientTrace × Client :=
  run step SendContract
    [.openBidiStream (.ok 0),
     .openBidiStream (.ok 4),
     .openBidiStream (.ok 8),
     .write 1 ⟨[21, 22], by decide⟩ true 100 100,
     .write 0 ⟨[11, 12], by decide⟩ true 100 100] [] {}

/-- Then packets, with an ack and data in between. -/
def servingRun : ClientTrace × Client :=
  run step (SendContract.and NoNewWork)
    [.writePkt none ⟨.ok [64], 1⟩,
     .callback (.recvStreamData false 8 0 [7]),
     .writePkt none ⟨.ok [65], 1⟩,
     .callback (.ackedStreamDataOffset 0 0 1),
     .writePkt none ⟨.ok [66], 1⟩] queuedRun.1 queuedRun.2

end QuicRuby
