/-
The sending side seen from outside: what the writers were told was accepted
(`accepted`, from the trace), what ngtcp2 framed (`framed`, `finFramed`,
from the calls it answered), and what it acknowledged (`acked`).

`step_send` is the inversion everything on this side rests on: an event
does one of four things to the sending half of an object, and the three
observations grow accordingly.
-/
import QuicRuby.SystemFacts

namespace QuicRuby

open Runs

/-! ## What was accepted, framed, acknowledged -/

/-- The bytes an event got accepted on the object `ref`: as many of its data
as the reply says. -/
def acceptedBy (ref : Nat) : Event × Reply → List UInt8
  | (.write r data _ _ _, .ok (.int n)) | (.writeNonblock r data _ _ _, .ok (.int n)) =>
    if r = ref then data.bytes.take n else []
  | _ => []

/-- All data accepted by `write` and `write_nonblock` on the object `ref`. -/
def accepted (tr : ClientTrace) (ref : Nat) : List UInt8 := tr.flatMap (acceptedBy ref)

/-- The bytes an answer frames: the first `pdatalen` of the slice offered,
unless it is an error. -/
def WritevAnswer.framed (answer : WritevAnswer) (args : WritevArgs) : List UInt8 :=
  match answer.result with
  | .ok _ => args.datav.take answer.pdatalen.toNat
  | .error _ => []

/-- An answer frames no more than was offered. -/
def WritevAnswer.fits (answer : WritevAnswer) (args : WritevArgs) : Bool :=
  match answer.result with
  | .ok _ => answer.pdatalen ≤ args.datav.length
  | .error _ => true

/-- The packet has a STREAM frame that covers the whole slice offered
(`pdatalen` is -1 when there is no STREAM frame). -/
def WritevAnswer.covers (answer : WritevAnswer) (args : WritevArgs) : Bool :=
  match answer.result with
  | .ok packet => 0 < packet.length && answer.pdatalen = args.datav.length
  | .error _ => false

/-- The bytes a call frames for the stream id. -/
def Ngtcp2Call.framed (id : Int) : Ngtcp2Call → List UInt8
  | .writevStream args answer => if args.streamId = id then answer.framed args else []
  | _ => []

/-- The call frames FIN for the stream id: FIN is encoded when the STREAM
frame covers all that was offered with the flag. -/
def Ngtcp2Call.finFramed (id : Int) : Ngtcp2Call → Bool
  | .writevStream args answer => args.streamId = id && args.fin && answer.covers args
  | _ => false

/-- All bytes framed for a stream id. -/
def framed (calls : List Ngtcp2Call) (id : Int) : List UInt8 := calls.flatMap (·.framed id)

/-- Whether FIN has been framed for a stream id. -/
def finFramed (calls : List Ngtcp2Call) (id : Int) : Bool := calls.any (·.finFramed id)

/-- How many bytes an event acknowledges for a stream id. -/
def ackedBy (id : Int) : Event × Reply → Nat
  | (.callback (.ackedStreamDataOffset i _ datalen), _) => if i = id then datalen.toNat else 0
  | _ => 0

/-- How many bytes ngtcp2 has reported acknowledged for a stream id. -/
def acked (tr : ClientTrace) (id : Int) : Nat := (tr.map (ackedBy id)).sum

/-- How many bytes an event acknowledges on the object `ref`: those for its
id, while the registry has it. -/
def ackedOn (c : Client) (ref : Nat) (id : Int) : Event × Reply → Nat
  | (.callback (.ackedStreamDataOffset i _ datalen), _) =>
    if i = id ∧ c.streams.aref id = some ref then datalen.toNat else 0
  | _ => 0

@[simp] theorem accepted_snoc (tr : ClientTrace) (x : Event × Reply) (ref : Nat) :
    accepted (tr ++ [x]) ref = accepted tr ref ++ acceptedBy ref x := by
  simp [accepted]

@[simp] theorem framed_append (calls new : List Ngtcp2Call) (id : Int) :
    framed (calls ++ new) id = framed calls id ++ framed new id := by
  simp [framed]

@[simp] theorem finFramed_append (calls new : List Ngtcp2Call) (id : Int) :
    finFramed (calls ++ new) id = (finFramed calls id || finFramed new id) := by
  simp [finFramed]

@[simp] theorem acked_snoc (tr : ClientTrace) (x : Event × Reply) (id : Int) :
    acked (tr ++ [x]) id = acked tr id + ackedBy id x := by
  simp [acked]

/-- A call without a stream frames nothing for any. -/
theorem framed_connOnly (answer : WritevAnswer) (id : Int) :
    framed [.writevStream .connOnly answer] id = [] := by
  simp only [framed, List.flatMap_cons, List.flatMap_nil, List.append_nil, Ngtcp2Call.framed,
    WritevAnswer.framed, WritevArgs.connOnly]
  split
  · split <;> simp
  · rfl

theorem finFramed_connOnly (answer : WritevAnswer) (id : Int) :
    finFramed [.writevStream .connOnly answer] id = false := by
  simp [finFramed, Ngtcp2Call.finFramed, WritevArgs.connOnly]

theorem framed_other {args : WritevArgs} {id : Int} (h : args.streamId ≠ id) (answer : WritevAnswer) :
    framed [.writevStream args answer] id = [] := by
  simp [framed, Ngtcp2Call.framed, h]

theorem finFramed_other {args : WritevArgs} {id : Int} (h : args.streamId ≠ id) (answer : WritevAnswer) :
    finFramed [.writevStream args answer] id = false := by
  simp [finFramed, Ngtcp2Call.finFramed, h]

/-! ## What an event does to the sending half of an object -/

/-- The object after a `writev_stream` answer to its offer. -/
def QuicStream.afterWritev (s : QuicStream) (args : WritevArgs) (answer : WritevAnswer) : QuicStream :=
  match answer.result with
  | .ok packet => s.accountWritev args packet.length answer.pdatalen
  | .error _ => s

/-- The four things an event can do to the sending half of the object
`ref`, with the bytes it accepts there, the bytes it frames for its id,
whether it frames FIN for it, and how many bytes it acknowledges. -/
inductive SendMove (c : Client) (ref : Nat) (s : QuicStream) :
    Event → List UInt8 → List UInt8 → Bool → Nat → QuicStream → Prop
  | idle {e s'} : SameSend s s' → SendMove c ref s e [] [] false 0 s'
  | accept {e} (data : RString) (fin : Bool) : s.sendOpen = true →
      SendMove c ref s e data.bytes [] false 0 (s.enqueued data fin)
  | frame {args} (buffer : Option Encoding) (answer : WritevAnswer) :
      buffer ≠ some .other → quicClientPickSendStream c = some (ref, args) → s.sendOffer = some args →
      SendMove c ref s (.writePkt buffer answer) [] (answer.framed args) (args.fin && answer.covers args) 0
        (s.afterWritev args answer)
  | ack (offset datalen : UInt64) : c.streams.aref s.streamId = some ref →
      SendMove c ref s (.callback (.ackedStreamDataOffset s.streamId offset datalen)) [] [] false datalen.toNat
        (s.ackedStreamDataOffset datalen)

@[simp] theorem afterWritev_streamId (s : QuicStream) (args : WritevArgs) (answer : WritevAnswer) :
    (s.afterWritev args answer).streamId = s.streamId := by
  unfold QuicStream.afterWritev
  split <;> simp

/-- Calls that are not `writev_stream` frame nothing. -/
theorem newCalls_framed {c : Client} {e : Event} (he : ∀ buffer answer, e ≠ .writePkt buffer answer) (id : Int) :
    framed (e.newCalls c) id = [] ∧ finFramed (e.newCalls c) id = false := by
  refine ⟨List.flatMap_eq_nil_iff.2 fun call hm => ?_, List.any_eq_false.2 fun call hm => ?_⟩
  · cases newCalls_makes hm with
    | writev buffer answer => exact absurd rfl (he buffer answer)
    | _ => rfl
  · cases newCalls_makes hm with
    | writev buffer answer => exact absurd rfl (he buffer answer)
    | _ => simp [Ngtcp2Call.finFramed]

/-- `write_pkt` frames for the stream it picked. -/
theorem writePkt_framed {c : Client} {ref : Nat} {args : WritevArgs} {buffer : Option Encoding}
    (answer : WritevAnswer) (hpick : quicClientPickSendStream c = some (ref, args))
    (hb : buffer ≠ some .other) :
    framed ((Event.writePkt buffer answer).newCalls c) args.streamId = answer.framed args ∧
      finFramed ((Event.writePkt buffer answer).newCalls c) args.streamId =
        (args.fin && answer.covers args) := by
  simp [Event.newCalls, hb, writevArgs_of_pick hpick, framed, finFramed, Ngtcp2Call.framed,
    Ngtcp2Call.finFramed]

/-- `write_pkt` frames nothing for a stream it did not pick. -/
theorem writePkt_framed_other {c : Client} {buffer : Option Encoding} (answer : WritevAnswer) {id : Int}
    (h : ∀ ref args, quicClientPickSendStream c = some (ref, args) → args.streamId ≠ id) :
    framed ((Event.writePkt buffer answer).newCalls c) id = [] ∧
      finFramed ((Event.writePkt buffer answer).newCalls c) id = false := by
  simp only [Event.newCalls]
  split
  · exact ⟨rfl, rfl⟩
  · cases hpick : quicClientPickSendStream c with
    | none =>
      rw [show c.writevArgs = .connOnly by simp [Client.writevArgs, hpick]]
      exact ⟨framed_connOnly answer id, finFramed_connOnly answer id⟩
    | some sel =>
      obtain ⟨ref, args⟩ := sel
      rw [writevArgs_of_pick hpick]
      exact ⟨framed_other (h ref args hpick) answer, finFramed_other (h ref args hpick) answer⟩

theorem update_writePkt {s : QuicStream} {args : WritevArgs} (h : s.sendOffer = some args)
    (buffer : Option Encoding) (answer : WritevAnswer) :
    (Event.writePkt buffer answer).update s = s.afterWritev args answer := by
  cases hres : answer.result <;> simp [Event.update, QuicStream.afterWritev, h, hres]

theorem acceptedBy_of_not_target {c : Client} {e : Event} {ref : Nat} (h : e.target c ≠ some ref) (r : Reply) :
    acceptedBy ref (e, r) = [] := by
  cases e with
  | write r' data fin sl cl | writeNonblock r' data fin sl cl =>
    have hne : r' ≠ ref := fun he => h (by rw [he]; rfl)
    rcases r with err | v
    · rfl
    · cases v with
      | int n => simp only [acceptedBy, hne, if_false]
      | _ => rfl
  | _ => rfl

theorem ackedOn_of_registered {c : Client} {ref : Nat} {id : Int} (h : c.streams.aref id = some ref)
    (x : Event × Reply) :
    ackedOn c ref id x = ackedBy id x := by
  obtain ⟨e, r⟩ := x
  cases e with
  | callback cb => cases cb <;> simp [ackedOn, ackedBy, h]
  | _ => rfl

theorem ackedOn_of_not_target {c : Client} {e : Event} {ref : Nat} (h : e.target c ≠ some ref) (id : Int)
    (r : Reply) :
    ackedOn c ref id (e, r) = 0 := by
  cases e with
  | callback cb =>
    cases cb with
    | ackedStreamDataOffset i off datalen =>
      simp only [ackedOn]
      split
      · next hid => exact absurd hid.2 (by rw [← hid.1]; exact h)
      · rfl
    | _ => rfl
  | _ => rfl

/-- An event that is not about an object frames nothing for its id. -/
theorem newCalls_framed_of_not_target {c : Client} {e : Event} (hreg : Registered c) {ref : Nat}
    {s : QuicStream} (hs : c.objs[ref]? = some s) (h : e.target c ≠ some ref) :
    framed (e.newCalls c) s.streamId = [] ∧ finFramed (e.newCalls c) s.streamId = false := by
  rcases e.writePkt_or with ⟨buffer, answer, rfl⟩ | hnot
  case inr => exact newCalls_framed hnot _
  by_cases hb : buffer = some .other
  · simp [Event.newCalls, hb, framed, finFramed]
  refine writePkt_framed_other answer fun ref' args hpick hid => h ?_
  obtain ⟨-, s', hs', ho⟩ := pick_spec hpick
  have href := hreg.ids ref' ref s' s hs' hs (by rw [← sendOffer_streamId ho, hid])
  simp [Event.target, hb, hpick, href]

/-- An enqueue takes all of its data or raises. -/
theorem enqueue_move (c : Client) (ref : Nat) {s s' : QuicStream} {r : Except RubyError Nat} (e : Event)
    {data : RString} {fin : Bool} (h : quicStreamEnqueue s data fin = (r, s')) :
    (∃ err, r = .error err ∧ SendMove c ref s e [] [] false 0 s') ∨
      r = .ok data.len ∧ SendMove c ref s e data.bytes [] false 0 s' := by
  cases ho : s.sendOpen with
  | true =>
    rw [quicStreamEnqueue_open ho] at h
    cases h
    exact .inr ⟨rfl, .accept data fin ho⟩
  | false =>
    obtain ⟨text, ht⟩ := quicStreamEnqueue_shut ho data fin
    rw [ht] at h
    cases h
    exact .inl ⟨_, rfl, .idle (.refl s)⟩

/-- **The sending half, step by step.** In any step each object's sending
half makes one of the four moves, and what was accepted on it, framed for
its id and acknowledged grows by what the move says. -/
theorem step_send {c : Client} {e : Event} {r : Reply} {c' : Client} (hreg : Registered c)
    (h : step c e = some (r, c')) {ref : Nat} {s : QuicStream} (hs : c.objs[ref]? = some s) :
    ∃ s', c'.objs[ref]? = some s' ∧
      SendMove c ref s e (acceptedBy ref (e, r)) (framed (e.newCalls c) s.streamId)
        (finFramed (e.newCalls c) s.streamId) (ackedOn c ref s.streamId (e, r)) s' := by
  refine ⟨_, (step_after h).get hs, ?_⟩
  by_cases ht : e.target c = some ref
  case neg =>
    obtain ⟨hf, hff⟩ := newCalls_framed_of_not_target hreg hs ht
    rw [if_neg ht, acceptedBy_of_not_target ht, ackedOn_of_not_target ht, hf, hff]
    exact .idle (.refl s)
  rw [if_pos ht]
  rcases e.writePkt_or with ⟨buffer, answer, rfl⟩ | hnot
  · simp only [Event.target] at ht
    split at ht
    · cases ht
    next hb =>
    obtain ⟨⟨ref', args⟩, hpick, rfl⟩ := Option.map_eq_some_iff.1 ht
    obtain ⟨-, s₁, hs₁, ho⟩ := pick_spec hpick
    obtain rfl : s₁ = s := by simpa [hs] using hs₁.symm
    obtain ⟨hf, hff⟩ := writePkt_framed answer hpick hb
    rw [sendOffer_streamId ho] at hf hff
    rw [hf, hff, update_writePkt ho]
    exact .frame buffer answer hb hpick ho
  obtain ⟨hf, hff⟩ := newCalls_framed (c := c) hnot s.streamId
  rw [hf, hff]
  cases e with
  | writePkt buffer answer => exact absurd rfl (hnot buffer answer)
  | openBidiStream | openUniStream | acceptStreamNonblock | bind | maxStreamData | maxData => cases ht
  | write r' data fin streamLeft connLeft =>
    cases ht
    simp only [step, Option.bind_eq_some_iff, Option.map_eq_some_iff, Prod.mk.injEq] at h
    obtain ⟨s₁, hs₁, ⟨r', s'⟩, hq, rfl, -⟩ := h
    obtain rfl : s₁ = s := by simpa [hs] using hs₁.symm
    have hupd : (Event.write ref data fin streamLeft connLeft).update s₁ = s' := by simp only [Event.update, hq]
    rw [hupd]
    obtain ⟨err, rfl, hm⟩ | ⟨rfl, hm⟩ := enqueue_move c ref (.write ref data fin streamLeft connLeft)
      (quicStreamWriteM_eq hq).symm
    · exact hm
    · simpa [acceptedBy, ackedOn, Except.map, RString.len] using hm
  | writeNonblock r' data fin streamLeft connLeft =>
    cases ht
    simp only [step, Client.call, quiet, hs, Option.map_some, Option.some.injEq, Prod.mk.injEq] at h
    obtain ⟨rfl, -⟩ := h
    obtain ⟨-, err, he⟩ | ⟨ho, slice, fin', hb, -, he⟩ :=
      quicStreamWriteNonblockM_cases s data fin streamLeft connLeft
    · rw [Event.update, he]
      exact .idle (.refl s)
    · have hbytes : acceptedBy ref (.writeNonblock ref data fin streamLeft connLeft, .ok (.int slice.len)) =
          slice.bytes := by
        rw [hb]
        simp only [acceptedBy, if_true, RString.len, hb, List.length_take]
        exact (List.take_eq_take_iff.2 (by omega))
      rw [Event.update, he]
      simp only [Except.map, hbytes]
      exact .accept slice fin' ho
  | closeWrite r' =>
    cases ht
    rcases quicStreamCloseWriteM_cases s with h | ⟨ho, h⟩
    · rw [Event.update, h]; exact .idle (.refl s)
    · rw [Event.update, h]; exact .accept .empty true ho
  | close r' rv =>
    cases ht
    rw [Event.update, quicStreamCloseM_stream]
    rcases quicStreamCloseWriteM_cases s with h | ⟨ho, h⟩
    · rw [h]; exact .idle (.refl s)
    · rw [h]; exact .accept .empty true ho
  | readNonblock r' length => exact .idle (.readNonblockM s length)
  | closeRead r' rv => rw [Event.update, quicStreamCloseReadM_stream]; exact .idle (.refl s)
  | reset r' errorCode rv => exact .idle (.resetM s errorCode rv)
  | callback cb =>
    cases cb with
    | streamOpen id => exact .idle (.refl s)
    | recvStreamData fin id off data => exact .idle (.recvStreamData s fin id data)
    | ackedStreamDataOffset id off datalen =>
      obtain ⟨s₁, hs₁, rfl⟩ := hreg.streams id ref ht
      obtain rfl : s₁ = s := by simpa [hs] using hs₁.symm
      have hreg' : c.streams.aref s₁.streamId = some ref := ht
      have hacked : ackedOn c ref s₁.streamId (.callback (.ackedStreamDataOffset s₁.streamId off datalen), r) =
          datalen.toNat := by
        rw [ackedOn_of_registered hreg', ackedBy, if_pos rfl]
      rw [hacked]
      exact .ack off datalen hreg'
    | streamClose set id code => exact .idle (.streamClose s set code)
    | streamReset id size code => exact .idle (.streamReset s code)

/-! ## Ids and objects not there yet -/

theorem newCalls_framed_of_noStream {c : Client} {id : Int} (hno : c.NoStream id) (e : Event) :
    framed (e.newCalls c) id = [] ∧ finFramed (e.newCalls c) id = false := by
  rcases e.writePkt_or with ⟨buffer, answer, rfl⟩ | hnot
  · refine writePkt_framed_other answer fun ref args hpick hid => ?_
    obtain ⟨-, s, hs, ho⟩ := pick_spec hpick
    exact hno s (List.mem_of_getElem? hs) (by rw [← sendOffer_streamId ho, hid])
  · exact newCalls_framed hnot id

/-- Nothing was framed for an id no object has. -/
theorem Reach.framed_noStream {K : ClientContract} {tr c} (h : Reach K tr c) {id : Int} (hno : c.NoStream id) :
    framed c.calls id = [] ∧ finFramed c.calls id = false := by
  refine h.invariant (I := fun _ c => c.NoStream id → framed c.calls id = [] ∧ finFramed c.calls id = false)
    (fun _ => ⟨rfl, rfl⟩) ?_ hno
  intro tr c e r c' ih _ hs hno
  have hafter := step_after hs
  have hno := hafter.noStream hno
  obtain ⟨hf, hff⟩ := newCalls_framed_of_noStream hno e
  obtain ⟨hf₀, hff₀⟩ := ih hno
  simp [hafter.calls, hf, hff, hf₀, hff₀]

/-- Nothing was accepted on an object that is not there. -/
theorem Reach.accepted_noObject {K : ClientContract} (hK : ∀ tr c e, K tr c e → FreshIds tr c e) {tr c}
    (h : Reach K tr c) {ref : Nat} (href : c.objs.length ≤ ref) : accepted tr ref = [] :=
  Reach.noObject hK (fun _ _ r ht => acceptedBy_of_not_target ht r) h href

/-- The object a step makes is a new one, with nothing accepted on it and
nothing framed for its id. -/
theorem Reach.opened {K : ClientContract} (hK : ∀ tr c e, K tr c e → FreshIds tr c e) {tr c e r c'}
    (h : Reach K tr c) (hk : K tr c e) (hs : step c e = some (r, c')) {id : Int} (ho : e.opens c = some id) :
    c.NoStream id ∧ accepted (tr ++ [(e, r)]) c.objs.length = [] ∧ framed c'.calls id = [] ∧
      finFramed c'.calls id = false := by
  have hno : c.NoStream id := hK _ _ _ hk id ho
  have htarget : e.target c ≠ some c.objs.length := by rw [opens_target ho]; simp
  obtain ⟨hf, hff⟩ := newCalls_framed_of_noStream hno e
  obtain ⟨hf₀, hff₀⟩ := h.framed_noStream hno
  rw [accepted_snoc, h.accepted_noObject hK (Nat.le_refl _), acceptedBy_of_not_target htarget,
    (step_after hs).calls]
  simp [hno, hf, hff, hf₀, hff₀]

/-- The object rule for the sending half: what each move keeps. -/
theorem Reach.objects {K : ClientContract} (hK : ∀ tr c e, K tr c e → FreshIds tr c e)
    {I : ClientTrace → Client → Nat → QuicStream → Prop}
    (hnew : ∀ tr c e r c' id, Reach K tr c → K tr c e → step c e = some (r, c') → e.opens c = some id →
      I (tr ++ [(e, r)]) c' c.objs.length (quicStreamNew id))
    (hmove : ∀ tr c e r c' ref s s', Reach K tr c → K tr c e → step c e = some (r, c') → c.objs[ref]? = some s →
      SendMove c ref s e (acceptedBy ref (e, r)) (framed (e.newCalls c) s.streamId)
        (finFramed (e.newCalls c) s.streamId) (ackedOn c ref s.streamId (e, r)) s' →
      I tr c ref s → I (tr ++ [(e, r)]) c' ref s')
    {tr c} (h : Reach K tr c) {ref : Nat} {s : QuicStream} (hs : c.objs[ref]? = some s) : I tr c ref s := by
  refine Reach.each hnew ?_ h hs
  intro tr c e r c' ref s hrun hk hst hget hI
  obtain ⟨s', hs', hm⟩ := step_send (hrun.registered hK) hst hget
  obtain rfl : s' = if e.target c = some ref then e.update s else s := by
    simpa [hs'] using (step_after hst).get hget
  exact hmove _ _ _ _ _ _ _ _ hrun hk hst hget hm hI

theorem SendMove.streamId {c : Client} {ref : Nat} {s : QuicStream} {e : Event} {acc fr : List UInt8}
    {ff : Bool} {ak : Nat} {s' : QuicStream} (h : SendMove c ref s e acc fr ff ak s') :
    s'.streamId = s.streamId := by
  cases h with
  | idle hs => exact hs.streamId
  | accept => rfl
  | frame buffer answer => exact afterWritev_streamId _ _ _
  | ack => rfl

/-- Bytes are acknowledged on an object only by a callback for its id, while
it is registered. -/
theorem SendMove.acked_cases {c : Client} {ref : Nat} {s : QuicStream} {e : Event} {acc fr : List UInt8}
    {ff : Bool} {ak : Nat} {s' : QuicStream} (h : SendMove c ref s e acc fr ff ak s') :
    ak = 0 ∨ ∃ off datalen, e = .callback (.ackedStreamDataOffset s.streamId off datalen) ∧
      c.streams.aref s.streamId = some ref ∧ ak = datalen.toNat := by
  cases h with
  | ack off datalen hreg => exact .inr ⟨off, datalen, rfl, hreg, rfl⟩
  | _ => exact .inl rfl

/-- A registered object was registered before, unless it is new. -/
theorem After.registered_before {c : Client} {e : Event} {c' : Client} (h : After c e c') {id : Int} {ref : Nat}
    (hlt : ref < c.objs.length) (hr : c'.streams.aref id = some ref) : c.streams.aref id = some ref := by
  rw [h.streams] at hr
  rcases streamsAfter_aref hr with hold | ⟨-, rfl⟩
  · exact hold
  · omega

end QuicRuby
