/-
The round trip against a server that echoes. What the server sends on a
stream is what ngtcp2 framed on it, in order, and it ends its side once it
has the client's FIN and has sent everything back. Then what the program
reads is what it wrote: never anything else, and all of it when `eof?` says
so, whatever else the client does in between and however the network cuts
the bytes into frames.
-/
import QuicRuby.Fin
import QuicRuby.ReadExact

namespace QuicRuby

open Runs

/-- The server sends back what it got, and FIN behind all of it. -/
def echoes (tr : ClientTrace) (c : Client) : Event → Bool
  | .callback (.recvStreamData fin id _ data) =>
    (delivered tr id ++ data).isPrefixOf (framed c.calls id) &&
      (!fin || finFramed c.calls id && delivered tr id ++ data = framed c.calls id)
  | _ => true

def keepsEchoPromise (tr : ClientTrace) (c : Client) (e : Event) : Bool :=
  keepsSendPromise tr c e && keepsRecvPromise tr e && echoes tr c e

def EchoContract : ClientContract := fun tr c e => FreshIds tr c e ∧ keepsEchoPromise tr c e = true

instance : ∀ tr c e, Decidable (EchoContract tr c e) := fun tr c e =>
  inferInstanceAs (Decidable (FreshIds tr c e ∧ keepsEchoPromise tr c e = true))

section
variable {tr : ClientTrace} {c : Client} {e : Event}

theorem EchoContract.promises (h : EchoContract tr c e) :
    SendContract tr c e ∧ RecvContract tr c e ∧ echoes tr c e = true := by
  obtain ⟨hfresh, h⟩ := h
  simp only [keepsEchoPromise, Bool.and_eq_true] at h
  exact ⟨⟨hfresh, h.1.1⟩, ⟨hfresh, h.1.2⟩, h.2⟩

theorem EchoContract.fresh (tr : ClientTrace) (c : Client) (e : Event) (h : EchoContract tr c e) :
    FreshIds tr c e := h.1

theorem Reach.echoSend (h : Reach EchoContract tr c) : Reach SendContract tr c :=
  h.mono fun _ _ _ hk => hk.promises.1

theorem Reach.echoRecv (h : Reach EchoContract tr c) : Reach RecvContract tr c :=
  h.mono fun _ _ _ hk => hk.promises.2.1

/-- What an echo of the stream brings. -/
theorem EchoContract.delivers (hk : EchoContract tr c e) (r : Reply) (id : Int) :
    (deliveredBy id (e, r) = [] ∧ finDeliveredBy id (e, r) = false) ∨
      delivered tr id ++ deliveredBy id (e, r) <+: framed c.calls id ∧
        (finDeliveredBy id (e, r) = true →
          finFramed c.calls id = true ∧ delivered tr id ++ deliveredBy id (e, r) = framed c.calls id) := by
  cases e with
  | callback cb =>
    cases cb with
    | recvStreamData fin i offset data =>
      by_cases hi : i = id
      · subst hi
        have hecho := hk.promises.2.2
        simp only [echoes, Bool.and_eq_true, List.isPrefixOf_iff_prefix, Bool.or_eq_true, Bool.not_eq_true',
          decide_eq_true_eq] at hecho
        refine .inr ⟨by simpa [deliveredBy] using hecho.1, fun hfin => ?_⟩
        have hfin : fin = true := by simpa [finDeliveredBy] using hfin
        simpa [deliveredBy] using hecho.2.resolve_left (by simp [hfin])
      · exact .inl (by simp [deliveredBy, finDeliveredBy, hi])
    | _ => exact .inl ⟨rfl, rfl⟩
  | _ => exact .inl ⟨rfl, rfl⟩

/-- What was framed is a first part of what was accepted, all of it once FIN
was framed. -/
theorem Reach.framed_accepted (h : Reach SendContract tr c) {ref : Nat} {s : QuicStream}
    (hs : c.objs[ref]? = some s) (hlt : (accepted tr ref).length < 2 ^ 64) :
    framed c.calls s.streamId <+: accepted tr ref ∧
      (finFramed c.calls s.streamId = true →
        s.finSent = true ∧ framed c.calls s.streamId = accepted tr ref) := by
  obtain ⟨b, hb⟩ := h.tracks hs hlt
  rw [← hb.accepted_eq, ← hb.framed_eq]
  refine ⟨List.take_prefix _ _, fun hff => ?_⟩
  obtain ⟨hsent, hall⟩ := hb.represents.flushed (finFlushed_of_finFramed SendContract.fresh h hs hff)
  exact ⟨hsent, by rw [SendBuffer.framed, hall, List.take_length]⟩

end

/-- What came back is a first part of what was written, and FIN came behind
all of it. -/
structure Echoed (tr : ClientTrace) (ref : Nat) (s : QuicStream) : Prop where
  part : delivered tr s.streamId <+: accepted tr ref
  whole : finDelivered tr s.streamId = true → s.finSent = true ∧ delivered tr s.streamId = accepted tr ref

theorem Echoed.move {tr : ClientTrace} {c : Client} {e : Event} {r : Reply} {ref : Nat} {s s' : QuicStream}
    {fr : List UInt8} {ff : Bool} {ak : Nat} (h : Echoed tr ref s) (hrun : Reach EchoContract tr c)
    (hk : EchoContract tr c e) (hs : c.objs[ref]? = some s) (hlt : (accepted tr ref).length < 2 ^ 64)
    (hm : SendMove c ref s e (acceptedBy ref (e, r)) fr ff ak s') : Echoed (tr ++ [(e, r)]) ref s' := by
  obtain ⟨hframed, hall⟩ := hrun.echoSend.framed_accepted hs hlt
  have hgrows : accepted tr ref <+: accepted (tr ++ [(e, r)]) ref := by
    rw [accepted_snoc]
    exact List.prefix_append _ _
  -- Once FIN is queued nothing more is written.
  have hstays : s.finSent = true → s'.finSent = true ∧ accepted (tr ++ [(e, r)]) ref = accepted tr ref := by
    intro hf
    obtain ⟨hnil, hf'⟩ := hm.finSent hf
    exact ⟨hf', by rw [accepted_snoc, hnil, List.append_nil]⟩
  have hpart : delivered (tr ++ [(e, r)]) s.streamId <+: accepted tr ref := by
    rw [delivered_snoc]
    rcases hk.delivers r s.streamId with ⟨hnil, -⟩ | ⟨hpre, -⟩
    · rw [hnil, List.append_nil]
      exact h.part
    · exact hpre.trans hframed
  constructor
  · rw [hm.streamId]
    exact hpart.trans hgrows
  · rw [hm.streamId, finDelivered_snoc, Bool.or_eq_true]
    rintro (hold | hnew)
    · -- FIN had come, with everything before it.
      obtain ⟨hf, heq⟩ := h.whole hold
      obtain ⟨hf', hacc⟩ := hstays hf
      refine ⟨hf', ?_⟩
      rw [hacc]
      refine hpart.eq_of_length_le ?_
      rw [← heq, delivered_snoc, List.length_append]
      exact Nat.le_add_right _ _
    · rcases hk.delivers r s.streamId with ⟨-, hno⟩ | ⟨-, hfin⟩
      · rw [hno] at hnew
        cases hnew
      · obtain ⟨hff, heq⟩ := hfin hnew
        obtain ⟨hf, hacc⟩ := hall hff
        obtain ⟨hf', hacc'⟩ := hstays hf
        exact ⟨hf', by rw [delivered_snoc, heq, hacc, hacc']⟩

/-- What makes an object delivers nothing. -/
theorem delivers_nothing_of_opens {c : Client} {e : Event} {id : Int} (h : e.opens c = some id) (r : Reply) :
    deliveredBy id (e, r) = [] ∧ finDeliveredBy id (e, r) = false := by
  cases e with
  | callback cb =>
    cases cb with
    | recvStreamData => cases h
    | _ => exact ⟨rfl, rfl⟩
  | _ => exact ⟨rfl, rfl⟩

theorem Reach.echoed {tr c} (h : Reach EchoContract tr c) {ref : Nat} {s : QuicStream}
    (hs : c.objs[ref]? = some s) (hlt : (accepted tr ref).length < 2 ^ 64) : Echoed tr ref s := by
  refine h.objects EchoContract.fresh
    (I := fun tr _ ref s => (accepted tr ref).length < 2 ^ 64 → Echoed tr ref s) ?_ ?_ hs hlt
  · intro tr c e r c' id hrun hk hst ho _
    obtain ⟨hd, hf⟩ := (RecvContract.dataOpen id).delivered_noStream RecvContract.fresh hrun.echoRecv (hk.1 id ho)
    obtain ⟨hd', hf'⟩ := delivers_nothing_of_opens ho r
    have hnil : delivered (tr ++ [(e, r)]) id = [] := by rw [delivered_snoc, hd, hd', List.append_nil]
    have hno : finDelivered (tr ++ [(e, r)]) id = false := by rw [finDelivered_snoc, hf, hf', Bool.or_false]
    refine ⟨?_, fun hfin => ?_⟩
    · exact (hnil ▸ List.nil_prefix : delivered (tr ++ [(e, r)]) id <+: _)
    · exact absurd (hno.symm.trans hfin) (by decide)
  · intro tr c e r c' ref s s' hrun hk hst hget hm ih hlt
    have hlt₀ : (accepted tr ref).length < 2 ^ 64 := by
      rw [accepted_snoc, List.length_append] at hlt
      omega
    exact (ih hlt₀).move hrun hk hget hlt₀ hm

/-- An object stays, under its id. -/
theorem Steps.object {K : ClientContract} {tr tr' : ClientTrace} {c c' : Client} (h : Steps step K tr c tr' c')
    {ref : Nat} {s : QuicStream} (hs : c.objs[ref]? = some s) :
    ∃ s', c'.objs[ref]? = some s' ∧ s'.streamId = s.streamId := by
  refine h.invariant (I := fun _ c' => ∃ s', c'.objs[ref]? = some s' ∧ s'.streamId = s.streamId) ⟨s, hs, rfl⟩ ?_
  rintro tr c e r c' ⟨s', hs', hid⟩ - hst
  exact ⟨_, (step_after hst).get hs', by rw [target_streamId, hid]⟩

section
variable {tr : ClientTrace} {c : Client} (h : Reach EchoContract tr c) {ref : Nat} {s : QuicStream}
  (hs : c.objs[ref]? = some s) (hlt : (accepted tr ref).length < 2 ^ 64)
include h hs hlt

theorem Reach.read_part : returned tr ref ++ s.recvBuffer <+: accepted tr ref := by
  rw [(h.echoRecv.buffered hs).exact]
  exact (h.echoed hs hlt).part

/-- At the end of the stream all is read back. -/
theorem Reach.read_whole (heof : quicStreamEofP s = true) : s.finSent = true ∧ returned tr ref = accepted tr ref := by
  obtain ⟨hread, hfin⟩ := (h.echoRecv.buffered hs).eof_iff.1 heof
  obtain ⟨hf, hall⟩ := (h.echoed hs hlt).whole hfin
  exact ⟨hf, hread.trans hall⟩

theorem Reach.read_final (heof : quicStreamEofP s = true) {tr' c'} (hrun : Steps step EchoContract tr c tr' c') :
    returned tr' ref = returned tr ref ∧ accepted tr' ref = accepted tr ref := by
  obtain ⟨hf, hread⟩ := h.read_whole hs hlt heof
  have hacc := finSent_accepted EchoContract.fresh h hs hf hrun
  refine ⟨?_, hacc⟩
  -- What is read later begins with what was read, and is no more than was written.
  obtain ⟨s', hs', -⟩ := Steps.object hrun hs
  have hpart := Reach.read_part (h.trans hrun) hs' (by rwa [hacc])
  rw [hacc, ← hread] at hpart
  have hgrows : returned tr ref <+: returned tr' ref := by
    obtain ⟨rest, rfl⟩ := hrun.grows
    rw [returned, returned, List.flatMap_append]
    exact List.prefix_append _ _
  exact (hgrows.eq_of_length_le ((List.prefix_append _ _).trans hpart).length_le).symm

end

/-- **The echo comes back exactly.** In every state reached, over any streams
and in any order of calls, callbacks and packets, what the program has read
from a stream followed by what is buffered is a first part of what it wrote.
When `eof?` holds it has read back all it wrote, and from then on it neither
writes nor reads anything more on the stream; and `eof?` holds as soon as all
is read and FIN was delivered. -/
theorem echo_exact {tr c} (h : Reach EchoContract tr c) {ref : Nat} {s : QuicStream}
    (hs : c.objs[ref]? = some s) (hlt : (accepted tr ref).length < 2 ^ 64) :
    returned tr ref ++ s.recvBuffer <+: accepted tr ref ∧
    (finDelivered tr s.streamId = true →
      (quicStreamEofP s = true ↔ returned tr ref = accepted tr ref)) ∧
    (quicStreamEofP s = true → returned tr ref = accepted tr ref ∧
      ∀ tr' c', Steps step EchoContract tr c tr' c' →
        returned tr' ref = returned tr ref ∧ accepted tr' ref = accepted tr ref) := by
  refine ⟨h.read_part hs hlt, fun hfin => ⟨fun heof => (h.read_whole hs hlt heof).2, fun hread => ?_⟩,
    fun heof => ⟨(h.read_whole hs hlt heof).2, fun _ _ => h.read_final hs hlt heof⟩⟩
  exact (h.echoRecv.buffered hs).eof_iff.2 ⟨hread.trans ((h.echoed hs hlt).whole hfin).2.symm, hfin⟩

/-- Three bytes and FIN go out in two packets and come back in three frames,
the last one FIN alone. -/
def echoRun : ClientTrace × Client :=
  run step EchoContract
    [.openBidiStream (.ok 0),
     .write 0 ⟨[104, 105, 33], by decide⟩ true 100 100,
     .writePkt none ⟨.ok [64], 2⟩,
     .callback (.recvStreamData false 0 0 [104]),
     .writePkt none ⟨.ok [65], 1⟩,
     .readNonblock 0 16,
     .callback (.recvStreamData false 0 1 [105, 33]),
     .callback (.recvStreamData true 0 3 []),
     .readNonblock 0 16] [] {}

theorem echo_exact_echoRun : returned echoRun.1 0 = accepted echoRun.1 0 ∧ returned echoRun.1 0 = [104, 105, 33] :=
  have hreach : Reach EchoContract echoRun.1 echoRun.2 := Steps.of_run (by decide)
  have hs : echoRun.2.objs[0]? = some (echoRun.2.objs.getD 0 (quicStreamNew 0)) := rfl
  ⟨((echo_exact hreach hs (by decide)).2.2 (by decide)).1, by decide⟩

end QuicRuby
