/-
The send scheduler overlooks nothing. Over any registry of send queues,
whatever the order of insertion, it offers the earliest stream that has
bytes or a FIN left, and the slice offered is the right one; it offers
nothing only when no stream has anything.
-/
import QuicRuby.SendExact
import QuicRuby.Scheduler

namespace QuicRuby

open Runs

/-- The stream has bytes left to send, or a FIN. -/
def HasToSend (s : QuicStream) (accepted : List UInt8) : Prop :=
  s.finFlushed = false ∧ (s.sentOffset.toNat < accepted.length ∨ s.finSent = true)

theorem Slice.hasToSend {s : QuicStream} {accepted : List UInt8} {args : WritevArgs}
    (hflushed : s.finFlushed = false) (h : Slice s accepted args) : HasToSend s accepted := by
  refine ⟨hflushed, ?_⟩
  cases h with
  | data _ _ _ _ hne hpre _ =>
    have hlen := hpre.length_le
    have hpos := List.length_pos_iff.2 hne
    rw [List.length_drop] at hlen
    exact .inl (by omega)
  | finOnly _ hfin => exact .inr hfin

theorem Queued.offer_none {s : QuicStream} {accepted : List UInt8} (h : Queued s accepted) :
    s.sendOffer = none ↔ ¬ HasToSend s accepted := by
  have hle := h.sent_le
  rw [sendOffer_eq_none_iff, h.walk_none, HasToSend]
  cases s.finFlushed <;> cases s.finSent <;> (simp; try omega)

/-- Every registered stream is a send queue; `accepted` is what was accepted
on each. -/
def QueuedRegistry (c : Client) (accepted : Nat → List UInt8) : Prop :=
  ∀ ref ∈ c.streams.values, ∃ s, c.objs[ref]? = some s ∧ Queued s (accepted ref)

/-- The registered stream `ref` has something to send. -/
def Client.HasToSend (c : Client) (accepted : Nat → List UInt8) (ref : Nat) : Prop :=
  ∃ s, c.objs[ref]? = some s ∧ QuicRuby.HasToSend s (accepted ref)

section
variable {c : Client} {acc : Nat → List UInt8}

theorem QueuedRegistry.offer_none (h : QueuedRegistry c acc) {ref : Nat} (hm : ref ∈ c.streams.values) :
    c.offer ref = none ↔ ¬ c.HasToSend acc ref := by
  obtain ⟨s, hs, hq⟩ := h ref hm
  rw [show c.offer ref = s.sendOffer by simp [Client.offer, hs], hq.offer_none]
  refine not_congr ⟨fun hsend => ⟨s, hs, hsend⟩, ?_⟩
  rintro ⟨s', hs', hsend⟩
  rw [hs] at hs'
  cases hs'
  exact hsend

/-- **Complete, and the first.** Nothing is picked exactly if no registered
stream has anything to send; what is picked is the earliest one that has,
with the slice that comes next on it. -/
theorem pick_complete (h : QueuedRegistry c acc) :
    (quicClientPickSendStream c = none ↔ ∀ ref ∈ c.streams.values, ¬ c.HasToSend acc ref) ∧
      ∀ ref args, quicClientPickSendStream c = some (ref, args) →
        ∃ pre post s, c.streams.values = pre ++ ref :: post ∧ (∀ r ∈ pre, ¬ c.HasToSend acc r) ∧
          c.objs[ref]? = some s ∧ HasToSend s (acc ref) ∧ args.streamId = s.streamId ∧
            Slice s (acc ref) args := by
  constructor
  · rw [pick_eq_none_iff]
    exact forall₂_congr fun ref hm => h.offer_none hm
  · intro ref args hpick
    obtain ⟨pre, post, hvalues, hpre, ho⟩ := pick_eq_some_iff.1 hpick
    obtain ⟨s, hs, hoffer⟩ := Option.bind_eq_some_iff.1 ho
    obtain ⟨s', hs', hq⟩ := h ref (by simp [hvalues])
    rw [hs] at hs'
    cases hs'
    obtain ⟨hflushed, hslice⟩ := hq.slice hoffer
    refine ⟨pre, post, s, hvalues, fun r hr => ?_, hs, hslice.hasToSend hflushed, sendOffer_streamId hoffer, hslice⟩
    exact (h.offer_none (by simp [hvalues, hr])).1 (hpre r hr)

end

/-- In a run the registry is one of send queues, while fewer than 2^64 bytes
are accepted on each stream. -/
theorem Reach.queuedRegistry {tr c} (h : Reach SendContract tr c)
    (hlt : ∀ ref ∈ c.streams.values, (accepted tr ref).length < 2 ^ 64) : QueuedRegistry c (accepted tr) := by
  intro ref hm
  obtain ⟨id, hid⟩ := OrderedHash.mem_values_iff.1 hm
  obtain ⟨s, hs, -⟩ := h.entries id ref hid
  obtain ⟨b, hb⟩ := h.tracks hs (hlt ref hm)
  rw [← hb.accepted_eq]
  exact ⟨s, hs, hb.represents.queued⟩

/-- Two streams: the first has sent all it was given, the second has data and
FIN left. -/
def twoStreams : ClientTrace × Client :=
  run step SendContract
    [.openBidiStream (.ok 0),
     .openBidiStream (.ok 4),
     .write 0 ⟨[1, 2], by decide⟩ false 100 100,
     .write 1 ⟨[3, 4], by decide⟩ false 100 100,
     .writePkt none ⟨.ok [64], 2⟩,
     .write 1 ⟨[5], by decide⟩ true 100 100,
     .writePkt none ⟨.ok [65], 1⟩] [] {}

theorem twoStreams_reach : Reach SendContract twoStreams.1 twoStreams.2 := Steps.of_run (by decide)

theorem pick_complete_twoStreams : ∃ pre post s, twoStreams.2.streams.values = pre ++ 1 :: post ∧
    (∀ r ∈ pre, ¬ twoStreams.2.HasToSend (accepted twoStreams.1) r) ∧ twoStreams.2.objs[1]? = some s ∧
      HasToSend s (accepted twoStreams.1 1) ∧ 4 = s.streamId ∧
        Slice s (accepted twoStreams.1 1) { streamId := 4, fin := false, datav := [4], datavcnt := 1 } :=
  (pick_complete (twoStreams_reach.queuedRegistry (by decide))).2 1
    { streamId := 4, fin := false, datav := [4], datavcnt := 1 } (by decide)

end QuicRuby
