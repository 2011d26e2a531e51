/-
The client is a multiplexer of reliable byte streams: a run of it, over any
streams and in any order of calls, callbacks and packets, is a run of the
abstract `Mux` of `Lib.Multiplexer`, with one channel for each stream.

`Client.action` reads off each step what it is in the abstract, from the
event, its reply and the object it is about. `Holds` ties an object to its
channel, `Abstracts` the client to the multiplexer.
-/
import QuicRuby.Accept
import QuicRuby.Fin
import QuicRuby.Lib.Multiplexer

namespace QuicRuby

open Runs

/-! ## What a step is in the abstract -/

/-- The low bit of a stream id marks the initiator. -/
def serverInitiated (streamId : Int) : Bool := streamId % 2 = 1

def Callback.op : Callback → Option (Channel.Op UInt8)
  | .streamOpen _ => none
  | .recvStreamData fin _ _ data => some (.deliver data fin)
  | .ackedStreamDataOffset _ _ datalen => some (.ack datalen.toNat)
  | .streamClose _ _ _ => some .close
  | .streamReset _ _ _ => some .shut

/-- What an event with its reply is for the stream object `s` it is about. -/
def Event.op (s : QuicStream) (r : Reply) : Event → Option (Channel.Op UInt8)
  | .write _ data fin _ _ | .writeNonblock _ data fin _ _ =>
    match r with
    | .ok (.int n) => some (.write (data.bytes.take n) (fin && n = data.len))
    | _ => none
  | .closeWrite _ | .close _ _ => if s.sendOpen then some (.write [] true) else none
  | .readNonblock _ _ =>
    match r with
    | .ok (.str bytes) => some (.take bytes)
    | _ => none
  | .reset _ _ _ =>
    match r with
    | .ok _ => some .shut
    | .error _ => none
  | .writePkt _ answer =>
    match answer.result with
    | .ok _ => s.sendOffer.map fun args => .frame (answer.framed args) (args.fin && answer.covers args)
    | .error _ => none
  | .callback cb => cb.op
  | _ => none

def Client.action (c : Client) (e : Event) (r : Reply) : Option (Mux.Action Int UInt8) :=
  match e.opens c, e.target c with
  | some id, _ => some (.open id)
  | none, some ref => c.objs[ref]?.bind fun s => (e.op s r).map (.on s.streamId)
  | none, none =>
    match e, r with
    | .acceptStreamNonblock, .ok (.stream ref) => c.objs[ref]?.map fun s => .accept s.streamId
    | _, _ => none

/-- The actions of a run from the client `_open` leaves. -/
abbrev actionsOf (tr : ClientTrace) : List (Mux.Action Int UInt8) := actions step Client.action {} tr

/-! ## The abstraction -/

/-- The object has the content of the channel. -/
structure Holds (s : QuicStream) (ch : Channel UInt8) : Prop where
  out : Represents s ch.out
  finQueued : s.finSent = ch.finQueued
  finSent : s.finFlushed = ch.finSent
  inbox : s.recvBuffer = ch.inbox
  ended : s.finReceived = ch.ended
  announced : s.acceptQueued = (ch.announced && serverInitiated s.streamId)
  shut : (s.reset || s.closed) = ch.shut

/-- Every object has a channel with its content, live while the registry has
the object; other ids have none; and the accept queue has the ids waiting. -/
structure Abstracts (c : Client) (m : Mux Int UInt8) : Prop where
  object : ∀ (ref : Nat) s, c.objs[ref]? = some s → ∃ ch, m.channel s.streamId = some ch ∧ Holds s ch ∧
    (ch.live = true ↔ c.streams.aref s.streamId = some ref)
  channel : ∀ id, c.NoStream id → m.channel id = none
  waiting : c.ids c.acceptQueue = m.waiting.map some

/-- The channel makes the step `op`, if any, as the object becomes `s'`; `acc`
is what is accepted on it. -/
def Follows (ch : Channel UInt8) (op : Option (Channel.Op UInt8)) (acc : List UInt8) (closes : Bool)
    (s' : QuicStream) : Prop :=
  ∃ ch', Matches Channel.Step ch op ch' ∧ Holds s' ch' ∧ ch'.live = (ch.live && !closes) ∧
    ch'.out.accepted = ch.out.accepted ++ acc

/-! ## One object -/

section
variable {s : QuicStream} {ch : Channel UInt8}

theorem Holds.stays (h : Holds s ch) : Follows ch none [] false s :=
  ⟨ch, .stutter, h, by simp, by simp⟩

theorem Holds.enqueues (h : Holds s ch) (ho : s.sendOpen = true) {data : RString} (fin : Bool)
    (hlt : (ch.out.accepted ++ data.bytes).length < 2 ^ 64) :
    Follows ch (some (.write data.bytes fin)) data.bytes false (s.enqueued data fin) := by
  obtain ⟨hr, hc, hf⟩ := sendOpen_iff.1 ho
  have hopen : ch.shut = false := by rw [← h.shut, hr, hc]; rfl
  have hq : ch.finQueued = false := by rw [← h.finQueued, hf]
  have hlen : ch.out.accepted.length + data.len < 2 ^ 64 := by simpa [RString.len] using hlt
  refine ⟨ch.write data.bytes fin hq, .act (.write data.bytes fin hopen hq), ?_, by simp [Channel.write], rfl⟩
  exact ⟨h.out.enqueued ho fin hlen, by simp [QuicStream.enqueued, Channel.write, hf], h.finSent, h.inbox, h.ended,
    h.announced, h.shut⟩

/-- An enqueue takes all of its data or raises. -/
theorem Holds.write (h : Holds s ch) {data : RString} {fin : Bool} {r : Except RubyError Nat} {s' : QuicStream}
    (hq : quicStreamEnqueue s data fin = (r, s'))
    (hlt : s.sendOpen = true → (ch.out.accepted ++ data.bytes).length < 2 ^ 64) :
    (∃ err, r = .error err ∧ Follows ch none [] false s') ∨
      r = .ok data.len ∧ Follows ch (some (.write data.bytes fin)) data.bytes false s' := by
  cases ho : s.sendOpen with
  | true =>
    rw [quicStreamEnqueue_open ho] at hq
    cases hq
    exact .inr ⟨rfl, h.enqueues ho fin (hlt ho)⟩
  | false =>
    obtain ⟨text, ht⟩ := quicStreamEnqueue_shut ho data fin
    rw [ht] at hq
    cases hq
    exact .inl ⟨_, rfl, h.stays⟩

/-- Queueing FIN alone. -/
theorem Holds.closeWrite (h : Holds s ch) (hlt : ch.out.accepted.length < 2 ^ 64) :
    Follows ch (if s.sendOpen then some (.write [] true) else none) [] false (quicStreamCloseWriteM s).2 := by
  have hlt' : (ch.out.accepted ++ RString.empty.bytes).length < 2 ^ 64 := by simpa [RString.empty] using hlt
  rcases quicStreamCloseWriteM_cases s with hsame | ⟨ho, hq⟩
  · cases ho : s.sendOpen with
    | false =>
      rw [hsame]
      exact h.stays
    | true =>
      have hf := (sendOpen_iff.1 ho).2.2
      have henq : (quicStreamCloseWriteM s).2 = s.enqueued .empty true := by
        rw [quicStreamCloseWriteM, hf]
        simp only [Bool.false_eq_true, if_false, quicStreamEnqueue_open ho]
      rw [henq]
      exact h.enqueues ho true hlt'
  · rw [hq, ho]
    exact h.enqueues ho true hlt'

/-- A packet: as much of what is unsent as the answer frames. -/
theorem Holds.frames (h : Holds s ch) {args : WritevArgs} {answer : WritevAnswer} {packet : List UInt8}
    (ho : s.sendOffer = some args) (hres : answer.result = .ok packet) (hfits : answer.fits args = true)
    (hsound : answer.sound args = true) (hmiss : answer.missesFin args = false) (hlive : ch.live = true) :
    Follows ch (some (.frame (answer.framed args) (args.fin && answer.covers args))) [] false
      (s.afterWritev args answer) := by
  obtain ⟨k, hk, hframed, hrep⟩ := h.out.afterWritev ho hfits
  obtain ⟨hflushed, hpre, hcases⟩ := h.out.offer ho
  have hopen : ch.finSent = false := by rw [← h.finSent, hflushed]
  have hfin : (args.fin && answer.covers args) = true → ch.finQueued = true ∧ k = ch.out.unsent.length := by
    intro hf
    obtain ⟨hargs, hcov⟩ := Bool.and_eq_true_iff.1 hf
    have hend : s.finSent = true ∧ ch.out.sent + args.datav.length = ch.out.accepted.length := by
      rcases hcases with ⟨-, -, hiff⟩ | ⟨-, hnil, -, hs, hall⟩
      · exact hiff.1 hargs
      · exact ⟨hs, by rw [hnil, List.length_nil, Nat.add_zero, hall]⟩
    -- The whole slice is framed, and it goes to the end.
    have hall : answer.framed args = args.datav := by
      simp only [WritevAnswer.covers, hres, Bool.and_eq_true, decide_eq_true_eq] at hcov
      simp [WritevAnswer.framed, hres, hcov.2]
    have hlen : (answer.framed args).length = k := by rw [hframed, List.length_take, Nat.min_eq_left hk]
    have hunsent := ch.out.unsent_length
    rw [hall] at hlen
    exact ⟨by rw [← h.finQueued, hend.1], by omega⟩
  have hflushed' : (s.afterWritev args answer).finFlushed = (args.fin && answer.covers args) := by
    rw [afterWritev_finFlushed ho hsound, hmiss, Bool.or_false]
  have hacc : s.afterWritev args answer = s.accountWritev args packet.length answer.pdatalen := by
    simp [QuicStream.afterWritev, hres]
  obtain ⟨offset, flushed, heq⟩ := accountWritev_eq s args packet.length answer.pdatalen
  rw [hframed]
  refine ⟨ch.frame k _ hk hfin, .act (.frame k _ hlive hk hopen hfin), ?_, by simp [Channel.frame], ?_⟩
  · refine ⟨hrep, ?_, hflushed', ?_, ?_, ?_, ?_⟩ <;> rw [hacc, heq]
    · exact h.finQueued
    · exact h.inbox
    · exact h.ended
    · exact h.announced
    · exact h.shut
  · simp [Channel.frame, SendBuffer.frame]

theorem Holds.acks (h : Holds s ch) {datalen : UInt64} (hlive : ch.live = true)
    (hle : ch.out.acked + datalen.toNat ≤ ch.out.sent) :
    Follows ch (some (.ack datalen.toNat)) [] false (s.ackedStreamDataOffset datalen) :=
  ⟨ch.ack datalen.toNat hle, .act (.ack _ hlive hle),
    ⟨h.out.ack hle, h.finQueued, h.finSent, h.inbox, h.ended, h.announced, h.shut⟩, by simp [Channel.ack],
    by simp [Channel.ack, SendBuffer.ack]⟩

theorem Holds.receives (h : Holds s ch) (hlive : ch.live = true) (fin : Bool) (data : List UInt8) :
    Follows ch (some (.deliver data fin)) [] false (s.recvStreamData fin s.streamId data) := by
  refine ⟨ch.deliver data fin, .act (.deliver data fin hlive), ?_, by simp [Channel.deliver],
    by simp [Channel.deliver]⟩
  have hrep := h.out.sameSend (SameSend.recvStreamData s fin s.streamId data)
  rw [recvStreamData_eq] at hrep ⊢
  refine ⟨hrep, h.finQueued, h.finSent, ?_, ?_, ?_, h.shut⟩
  · simp [Channel.deliver, h.inbox]
  · simp [Channel.deliver, h.ended]
  · simp only [Channel.deliver, Bool.true_and, h.announced, serverInitiated]
    cases ch.announced <;> simp

theorem Holds.reads (h : Holds s ch) {bytes buffer : List UInt8} (hb : bytes ++ buffer = s.recvBuffer) :
    Follows ch (some (.take bytes)) [] false { s with recvBuffer := buffer } :=
  ⟨{ ch with inbox := buffer }, .act (.take bytes buffer (by rw [hb, h.inbox])),
    ⟨h.out.sameSend ⟨rfl, rfl, rfl, rfl, rfl, rfl, rfl⟩, h.finQueued, h.finSent, rfl, h.ended, h.announced, h.shut⟩,
    by simp, by simp⟩

/-- A reset, whoever it comes from. -/
theorem Holds.shuts (h : Holds s ch) {s' : QuicStream} (hsend : SameSend s s')
    (hrest : s'.recvBuffer = s.recvBuffer ∧ s'.finReceived = s.finReceived ∧ s'.acceptQueued = s.acceptQueued)
    (hreset : s'.reset = true) : Follows ch (some .shut) [] false s' :=
  ⟨{ ch with shut := true }, .act .shut,
    ⟨h.out.sameSend hsend, by rw [hsend.finSent, h.finQueued], by rw [hsend.finFlushed, h.finSent],
      by rw [hrest.1, h.inbox], by rw [hrest.2.1, h.ended], by rw [hrest.2.2, hsend.streamId, h.announced],
      by rw [hreset]; rfl⟩, by simp, by simp⟩

theorem Holds.closes (h : Holds s ch) (hlive : ch.live = true) (set : Bool) (code : UInt64) :
    Follows ch (some .close) [] true (s.streamClose set code) := by
  have hsend := SameSend.streamClose s set code
  refine ⟨{ ch with shut := true, live := false }, .act (.close hlive), ?_, by simp, by simp⟩
  obtain ⟨hasCode, code', heq⟩ := streamClose_eq s set code
  rw [heq] at hsend ⊢
  exact ⟨h.out.sameSend hsend, h.finQueued, h.finSent, h.inbox, h.ended, h.announced, Bool.or_true _⟩

end

/-! ## One step -/

/-- ngtcp2's promises about sending and about FIN, and no packet that misses
the FIN it was asked for. -/
def MuxContract : ClientContract := SendContract.and (FinContract.and FinAnswered)

instance : ∀ tr c e, Decidable (MuxContract tr c e) := fun tr c e =>
  inferInstanceAs (Decidable ((SendContract.and (FinContract.and FinAnswered)) tr c e))

theorem MuxContract.fresh (tr : ClientTrace) (c : Client) (e : Event) (h : MuxContract tr c e) :
    FreshIds tr c e := h.1.1

section
variable {tr : ClientTrace} {c c' : Client} {e : Event} {r : Reply} {ref : Nat} {s : QuicStream}
  {ch : Channel UInt8}

/-- **The object an event is about.** Its channel makes the step the event is
in the abstract. -/
theorem Holds.update (h : Holds s ch) (hent : Entries c) (hk : MuxContract tr c e)
    (hst : step c e = some (r, c')) (hs : c.objs[ref]? = some s) (ht : e.target c = some ref)
    (hlive : ch.live = true ↔ c.streams.aref s.streamId = some ref)
    (hlt : (ch.out.accepted ++ acceptedBy ref (e, r)).length < 2 ^ 64)
    (hack : ∀ off datalen, e = .callback (.ackedStreamDataOffset s.streamId off datalen) →
      ch.out.acked + datalen.toNat ≤ ch.out.sent) :
    Follows ch (e.op s r) (acceptedBy ref (e, r)) e.isStreamClose (e.update s) := by
  cases e with
  | openBidiStream | openUniStream | acceptStreamNonblock | bind | maxStreamData | maxData => cases ht
  | write r' data fin streamLeft connLeft =>
    cases ht
    simp only [step, Option.bind_eq_some_iff, Option.map_eq_some_iff, Prod.mk.injEq] at hst
    obtain ⟨s₁, hs₁, ⟨r', s'⟩, hq, rfl, -⟩ := hst
    obtain rfl : s₁ = s := by simpa [hs] using hs₁.symm
    have hupd : (Event.write ref data fin streamLeft connLeft).update s₁ = s' := by simp only [Event.update, hq]
    have henq := (quicStreamWriteM_eq hq).symm
    have hwhole : acceptedBy ref (.write ref data fin streamLeft connLeft, .ok (.int data.len)) = data.bytes := by
      simp [acceptedBy, RString.len]
    rw [hupd]
    have hroom : s₁.sendOpen = true → (ch.out.accepted ++ data.bytes).length < 2 ^ 64 := by
      intro ho
      rw [quicStreamEnqueue_open ho] at henq
      cases henq
      rwa [Except.map, hwhole] at hlt
    rcases h.write henq hroom with ⟨err, rfl, hf⟩ | ⟨rfl, hf⟩
    · exact hf
    · have hop : (Event.write ref data fin streamLeft connLeft).op s₁ (.ok (.int data.len)) =
          some (.write data.bytes fin) := by
        simp [Event.op, RString.len]
      rw [Except.map, hop, hwhole]
      exact hf
  | writeNonblock r' data fin streamLeft connLeft =>
    cases ht
    simp only [step, Client.call, quiet, hs, Option.map_some, Option.some.injEq, Prod.mk.injEq] at hst
    obtain ⟨rfl, -⟩ := hst
    obtain ⟨-, -, text, he⟩ | ⟨-, slice, hb, hl, he⟩ := quicStreamWriteNonblockM_eq s data fin streamLeft connLeft
    · rw [Event.update, he]
      exact h.stays
    · have hslice : acceptedBy ref (.writeNonblock ref data fin streamLeft connLeft, .ok (.int slice.len)) =
          slice.bytes := by
        simp [acceptedBy, hl, hb]
      rw [Event.update, he]
      rw [he] at hlt
      generalize hq : quicStreamEnqueue s slice (fin && nonblockTake s data streamLeft connLeft = data.len) = res
        at hlt
      obtain ⟨r', s'⟩ := res
      have hroom : s.sendOpen = true → (ch.out.accepted ++ slice.bytes).length < 2 ^ 64 := by
        intro ho
        rw [quicStreamEnqueue_open ho] at hq
        cases hq
        rwa [Except.map, hslice] at hlt
      rcases h.write hq hroom with ⟨err, rfl, hf⟩ | ⟨rfl, hf⟩
      · exact hf
      · have hop : (Event.writeNonblock ref data fin streamLeft connLeft).op s (.ok (.int slice.len)) =
            some (.write slice.bytes (fin && nonblockTake s data streamLeft connLeft = data.len)) := by
          simp [Event.op, hl, hb]
        rw [Except.map, hop, hslice]
        exact hf
  | closeWrite r' =>
    cases ht
    have hnil : acceptedBy ref (.closeWrite ref, r) = [] := rfl
    rw [hnil, List.append_nil] at hlt
    exact h.closeWrite hlt
  | close r' rv =>
    cases ht
    have hnil : acceptedBy ref (.close ref rv, r) = [] := rfl
    rw [hnil, List.append_nil] at hlt
    rw [Event.update, quicStreamCloseM_stream]
    exact h.closeWrite hlt
  | readNonblock r' length =>
    cases ht
    simp only [step, Client.call, quiet, hs, Option.map_some, Option.some.injEq, Prod.mk.injEq] at hst
    obtain ⟨rfl, -⟩ := hst
    rw [Event.update]
    obtain ⟨err, he⟩ | ⟨bytes, buffer, he, hb⟩ := quicStreamReadNonblockM_cases s length
    · rw [he]
      exact h.stays
    · rw [he]
      exact h.reads hb
  | closeRead r' rv =>
    rw [Event.update, quicStreamCloseReadM_stream]
    exact h.stays
  | reset r' errorCode rv =>
    cases ht
    simp only [step, Client.call, hs, Option.map_some, Option.some.injEq, Prod.mk.injEq] at hst
    obtain ⟨rfl, -⟩ := hst
    rw [Event.update]
    rcases quicStreamResetM_cases s errorCode rv with ⟨err, herr, hsame⟩ | ⟨hok, hreset⟩
    · rw [herr, hsame]
      exact h.stays
    · rw [hok, hreset]
      exact h.shuts ⟨rfl, rfl, rfl, rfl, rfl, rfl, rfl⟩ ⟨rfl, rfl, rfl⟩ rfl
  | writePkt buffer answer =>
    simp only [Event.target] at ht
    split at ht
    · cases ht
    next hb =>
    obtain ⟨⟨ref', args⟩, hpick, rfl⟩ := Option.map_eq_some_iff.1 ht
    obtain ⟨hm, s₁, hs₁, ho⟩ := pick_spec hpick
    obtain rfl : s₁ = s := by simpa [hs] using hs₁.symm
    have hargs := writevArgs_of_pick hpick
    have hreg : ch.live = true := by
      obtain ⟨id, hid⟩ := OrderedHash.mem_values_iff.1 hm
      obtain ⟨s₂, hs₂, rfl⟩ := hent id ref' hid
      obtain rfl : s₂ = s₁ := by simpa [hs] using hs₂.symm
      exact hlive.2 hid
    have hfits : answer.fits args = true := hargs ▸ hk.1.2
    have hsound : answer.sound args = true := hargs ▸ hk.2.1.2
    have hanswered := hk.2.2
    simp only [FinAnswered, answersFin, hb, decide_false, Bool.false_or, Bool.not_eq_true', hargs] at hanswered
    rw [update_writePkt ho]
    cases hres : answer.result with
    | error rv =>
      have hsame : s₁.afterWritev args answer = s₁ := by simp [QuicStream.afterWritev, hres]
      have hop : (Event.writePkt buffer answer).op s₁ r = none := by simp [Event.op, hres]
      rw [hsame, hop]
      exact h.stays
    | ok packet =>
      have hop : (Event.writePkt buffer answer).op s₁ r =
          some (.frame (answer.framed args) (args.fin && answer.covers args)) := by
        simp [Event.op, hres, ho]
      rw [hop]
      exact h.frames ho hres hfits hsound hanswered hreg
  | callback cb =>
    obtain ⟨s₁, hs₁, hid⟩ := hent _ ref ht
    obtain rfl : s₁ = s := by simpa [hs] using hs₁.symm
    have hreg : ch.live = true := hlive.2 (by rw [hid]; exact ht)
    cases cb with
    | streamOpen id => exact h.stays
    | recvStreamData fin id off data =>
      obtain rfl : s₁.streamId = id := hid
      exact h.receives hreg fin data
    | ackedStreamDataOffset id off datalen =>
      obtain rfl : s₁.streamId = id := hid
      exact h.acks hreg (hack off datalen rfl)
    | streamClose set id code => exact h.closes hreg set code
    | streamReset id size code =>
      exact h.shuts (SameSend.streamReset s₁ code) ⟨rfl, rfl, rfl⟩ rfl

end

/-- The client has the content of the multiplexer, and each channel what was
accepted on its object. -/
structure Simulated (tr : ClientTrace) (c : Client) (m : Mux Int UInt8) : Prop extends Abstracts c m where
  accepted_eq : ∀ (ref : Nat) s ch, c.objs[ref]? = some s → m.channel s.streamId = some ch →
    ch.out.accepted = accepted tr ref

theorem Simulated.initial : Simulated [] {} .empty :=
  ⟨⟨fun _ _ hs => (by simp at hs), fun _ _ => rfl, rfl⟩, fun _ _ _ hs => (by simp at hs)⟩

section
variable {tr : ClientTrace} {c c' : Client} {e : Event} {r : Reply} {m : Mux Int UInt8}

/-- What a delivery puts on the accept queue is what it announces. -/
theorem Holds.announces {ref : Nat} {s : QuicStream} {ch : Channel UInt8} (h : Holds s ch) (hent : Entries c)
    (hs : c.objs[ref]? = some s) (ht : e.target c = some ref) :
    c.ids (e.pushes c) =
      (((e.op s r).map (Mux.announces serverInitiated s.streamId ch)).getD []).map some := by
  cases e with
  | callback cb =>
    cases cb with
    | recvStreamData fin id off data =>
      have haref : c.streams.aref id = some ref := ht
      obtain ⟨s₁, hs₁, rfl⟩ := hent id ref haref
      obtain rfl : s₁ = s := by simpa [hs] using hs₁.symm
      have hann := h.announced
      simp only [serverInitiated] at hann
      simp only [Event.pushes, haref, hs, Option.map_some, Option.getD_some, QuicStream.toAccept, hann, Event.op,
        Callback.op, Mux.announces, serverInitiated]
      by_cases hodd : s₁.streamId % 2 = 1 <;> cases ch.announced <;> simp [hodd, Client.ids, hs]
    | _ => rfl
  | write | writeNonblock =>
    simp only [Event.op]
    split <;> rfl
  | closeWrite | close | readNonblock | reset =>
    simp only [Event.op]
    split <;> rfl
  | writePkt buffer answer =>
    simp only [Event.op]
    split
    · cases s.sendOffer <;> rfl
    · rfl
  | _ => rfl

/-- A step that opens a stream. -/
theorem Simulated.opens (h : Simulated tr c m) (hrun : Reach MuxContract tr c) (hk : MuxContract tr c e)
    (hst : step c e = some (r, c')) {id : Int} (ho : e.opens c = some id) :
    ∃ m', Matches (Mux.Step serverInitiated) m (c.action e r) m' ∧ Simulated (tr ++ [(e, r)]) c' m' := by
  have hafter := step_after hst
  have htarget := opens_target ho
  obtain ⟨hno, hacc, -, -⟩ := hrun.opened MuxContract.fresh hk hst ho
  have hstreams : c'.streams = c.streams.aset id c.objs.length := by rw [hafter.streams, Event.streamsAfter, ho]
  have hqueue : c'.acceptQueue = c.acceptQueue := by
    have hq := step_acceptQueue hst
    cases e with
    | openBidiStream | openUniStream => simpa [acceptedStreamBy, Event.pushes] using hq
    | callback cb =>
      cases cb with
      | streamOpen => simpa [acceptedStreamBy, Event.pushes] using hq
      | _ => cases ho
    | _ => cases ho
  have hact : c.action e r = some (.open id) := by simp [Client.action, ho]
  rw [hact]
  refine ⟨_, .act (.open id (h.channel id hno)), ⟨?_, ?_, ?_⟩, ?_⟩
  · intro ref s' hs'
    rcases hafter.get_inv hs' with ⟨s, hs, rfl⟩ | ⟨rfl, id', ho', rfl⟩
    · have hne : s.streamId ≠ id := hno s (List.mem_of_getElem? hs)
      obtain ⟨ch, hch, hholds, hlive⟩ := h.object ref s hs
      rw [htarget, if_neg (by simp), hstreams, OrderedHash.aref_aset_ne hne]
      exact ⟨ch, (Function.update_of_ne hne ..).trans hch, hholds, hlive⟩
    · obtain rfl : id = id' := Option.some.inj (ho.symm.trans ho')
      refine ⟨.new, Function.update_self .., ⟨.new id, rfl, rfl, rfl, rfl, rfl, rfl⟩, ?_⟩
      rw [hstreams]
      exact iff_of_true rfl OrderedHash.aref_aset_self
  · intro id' hno'
    have hne : id' ≠ id := by
      rintro rfl
      refine hno' (quicStreamNew id') ?_ rfl
      rw [hafter.objs, Event.objsAfter, ho]
      simp
    dsimp only
    rw [Function.update_of_ne hne]
    exact h.channel id' (hafter.noStream hno')
  · rw [hqueue]
    exact hafter.ids h.waiting
  · intro ref s' ch hs' hch
    rcases hafter.get_inv hs' with ⟨s, hs, rfl⟩ | ⟨rfl, id', ho', rfl⟩
    · have hne : s.streamId ≠ id := hno s (List.mem_of_getElem? hs)
      simp only [htarget, reduceCtorEq, if_false, Function.update_of_ne hne] at hch
      rw [accepted_snoc, acceptedBy_of_not_target (by rw [htarget]; simp), List.append_nil]
      exact h.accepted_eq ref s ch hs hch
    · obtain rfl : id = id' := Option.some.inj (ho.symm.trans ho')
      cases (Function.update_self id (some Channel.new) m.channel).symm.trans hch
      exact hacc.symm

/-- A step about a stream there is. -/
theorem Simulated.moves (h : Simulated tr c m) (hrun : Reach MuxContract tr c) (hk : MuxContract tr c e)
    (hst : step c e = some (r, c')) (hlt : ∀ ref, (accepted (tr ++ [(e, r)]) ref).length < 2 ^ 64) {ref : Nat}
    (ht : e.target c = some ref) :
    ∃ m', Matches (Mux.Step serverInitiated) m (c.action e r) m' ∧ Simulated (tr ++ [(e, r)]) c' m' := by
  have hafter := step_after hst
  have hreg := hrun.registered MuxContract.fresh
  have hopens : e.opens c = none := by
    cases ho : e.opens c with
    | none => rfl
    | some id => rw [opens_target ho] at ht; cases ht
  obtain ⟨s, hs⟩ := target_get hreg.streams hst ht
  obtain ⟨ch, hch, hholds, hlive⟩ := h.object ref s hs
  have hacc := h.accepted_eq ref s ch hs hch
  have hlt' : (ch.out.accepted ++ acceptedBy ref (e, r)).length < 2 ^ 64 := by
    rw [hacc, ← accepted_snoc]
    exact hlt ref
  -- The channel knows what ngtcp2 framed and acknowledged.
  have hack : ∀ off datalen, e = .callback (.ackedStreamDataOffset s.streamId off datalen) →
      ch.out.acked + datalen.toNat ≤ ch.out.sent := by
    rintro off datalen rfl
    have hsend : Reach SendContract tr c := hrun.mono fun _ _ _ hk => hk.1
    have hbound : (accepted tr ref).length < 2 ^ 64 := by
      rw [← hacc]
      exact hholds.out.bound
    obtain ⟨b, hb⟩ := hsend.tracks hs hbound
    have hsent : ch.out.sent = b.sent := hholds.out.sent.symm.trans hb.represents.sent
    have hacked : ch.out.acked = b.acked := hholds.out.acked.symm.trans hb.represents.acked
    have hframed : (framed c.calls s.streamId).length = b.sent := by rw [← hb.framed_eq, SendBuffer.framed_length]
    have heq := hb.acked_eq ht
    have hpromise := hk.1.2
    simp only [keepsSendPromise, decide_eq_true_eq] at hpromise
    omega
  obtain ⟨ch', hmatch, hholds', hlive', hacc'⟩ := hholds.update hreg.streams hk hst hs ht hlive hlt' hack
  obtain ⟨hentry, hothers⟩ := streamsAfter_target hreg ht hs
  have hact : c.action e r = (e.op s r).map (.on s.streamId) := by simp [Client.action, hopens, ht, hs]
  have hid := update_streamId e s
  have hother : ∀ (ref' : Nat) s', c.objs[ref']? = some s' → ref ≠ ref' → s'.streamId ≠ s.streamId :=
    fun ref' s' hs' hne he => hne (hreg.ids ref ref' s s' hs hs' he.symm)
  rw [hact]
  refine ⟨_, Mux.Step.lift hch hmatch, ⟨?_, ?_, ?_⟩, ?_⟩
  · intro ref' s' hs'
    rcases hafter.get_inv hs' with ⟨s₁, hs₁, rfl⟩ | ⟨-, id', ho', -⟩
    case inr => rw [hopens] at ho'; cases ho'
    rw [hafter.streams, ht]
    by_cases hr : ref = ref'
    · subst hr
      obtain rfl : s₁ = s := by simpa [hs] using hs₁.symm
      rw [if_pos rfl, hid]
      refine ⟨ch', Function.update_self .., hholds', ?_⟩
      rw [hlive', Bool.and_eq_true, Bool.not_eq_true', hentry, hlive]
    · rw [if_neg (by simpa using hr)]
      have hne := hother ref' s₁ hs₁ hr
      obtain ⟨ch₁, hch₁, hholds₁, hlive₁⟩ := h.object ref' s₁ hs₁
      rw [hothers _ hne]
      exact ⟨ch₁, (Function.update_of_ne hne ..).trans hch₁, hholds₁, hlive₁⟩
  · intro id' hno'
    have hno := hafter.noStream hno'
    have hne : id' ≠ s.streamId := fun he => hno s (List.mem_of_getElem? hs) he.symm
    dsimp only
    rw [Function.update_of_ne hne]
    exact h.channel id' hno
  · have hq := step_acceptQueue hst
    have hnil : acceptedStreamBy (e, r) = [] := by
      cases e with
      | acceptStreamNonblock => cases ht
      | _ => rfl
    rw [hnil, List.nil_append] at hq
    rw [hq, Client.ids_append, List.map_append, hafter.ids h.waiting,
      hafter.ids (hholds.announces (r := r) hreg.streams hs ht)]
  · intro ref' s' ch₁ hs' hch₁
    rcases hafter.get_inv hs' with ⟨s₁, hs₁, rfl⟩ | ⟨-, id', ho', -⟩
    case inr => rw [hopens] at ho'; cases ho'
    rw [accepted_snoc]
    by_cases hr : ref = ref'
    · subst hr
      obtain rfl : s₁ = s := by simpa [hs] using hs₁.symm
      rw [ht, if_pos rfl, hid] at hch₁
      cases (Function.update_self s₁.streamId (some ch') m.channel).symm.trans hch₁
      rw [hacc', hacc]
    · have hnot : e.target c ≠ some ref' := by rw [ht]; simpa using hr
      have hne := hother ref' s₁ hs₁ hr
      simp only [hnot, if_false, Function.update_of_ne hne] at hch₁
      rw [acceptedBy_of_not_target hnot, List.append_nil]
      exact h.accepted_eq ref' s₁ ch₁ hs₁ hch₁

/-- A step about no stream: at most one is accepted. -/
theorem Simulated.rests (h : Simulated tr c m) (hst : step c e = some (r, c')) (ho : e.opens c = none)
    (ht : e.target c = none) :
    ∃ m', Matches (Mux.Step serverInitiated) m (c.action e r) m' ∧ Simulated (tr ++ [(e, r)]) c' m' := by
  have hafter := step_after hst
  have hcloses : e.closes c = none := by
    cases hc : e.closes c with
    | none => rfl
    | some id =>
      obtain ⟨hclose, htarget, -⟩ := closes_target hc
      cases e with
      | callback cb =>
        cases cb with
        | streamClose set i code =>
          simp only [Event.closes] at hc
          split at hc
          · next hsome =>
            rw [show c.streams.aref i = none from ht] at hsome
            cases hsome
          · cases hc
        | _ => cases hclose
      | _ => cases hclose
  have hobjs : c'.objs = c.objs := by rw [hafter.objs, Event.objsAfter, ho, Event.updated, ht]
  have hstreams : c'.streams = c.streams := by rw [hafter.streams, Event.streamsAfter, ho, hcloses]
  have hids : ∀ refs, c'.ids refs = c.ids refs := fun refs => by simp only [Client.ids, hobjs]
  have hpushes : e.pushes c = [] := by
    cases e with
    | callback cb =>
      cases cb with
      | recvStreamData fin id off data =>
        rw [Event.pushes, show c.streams.aref id = none from ht]
      | _ => rfl
    | _ => rfl
  have hq := step_acceptQueue hst
  rw [hpushes, List.append_nil] at hq
  have hobject : ∀ (ref : Nat) s, c'.objs[ref]? = some s → ∃ ch, m.channel s.streamId = some ch ∧ Holds s ch ∧
      (ch.live = true ↔ c'.streams.aref s.streamId = some ref) := by
    rw [hobjs, hstreams]
    exact h.object
  have hchannel : ∀ id, c'.NoStream id → m.channel id = none := by
    simp only [Client.NoStream, hobjs]
    exact h.channel
  have haccepted : ∀ (ref : Nat) s ch, c'.objs[ref]? = some s → m.channel s.streamId = some ch →
      ch.out.accepted = accepted (tr ++ [(e, r)]) ref := by
    intro ref s ch hs hch
    rw [accepted_snoc, acceptedBy_of_not_target (by rw [ht]; simp), List.append_nil]
    exact h.accepted_eq ref s ch (hobjs ▸ hs) hch
  by_cases hacc : acceptedStreamBy (e, r) = []
  · have hact : c.action e r = none := by
      simp only [Client.action, ho, ht]
      split
      · simp [acceptedStreamBy] at hacc
      · rfl
    rw [hact]
    rw [hacc, List.nil_append] at hq
    exact ⟨m, .stutter, ⟨hobject, hchannel, by rw [hids, hq]; exact h.waiting⟩, haccepted⟩
  · obtain ⟨ref, rfl, rfl⟩ : ∃ ref, e = .acceptStreamNonblock ∧ r = .ok (.stream ref) := by
      unfold acceptedStreamBy at hacc
      split at hacc
      · next heq => cases heq; exact ⟨_, rfl, rfl⟩
      · exact absurd rfl hacc
    have hwait := h.waiting
    rw [← hq] at hwait
    cases hm : m.waiting with
    | nil => rw [hm] at hwait; simp [acceptedStreamBy, Client.ids] at hwait
    | cons id rest =>
      rw [hm] at hwait
      simp only [acceptedStreamBy, Client.ids, List.cons_append, List.nil_append, List.map_cons,
        List.cons.injEq] at hwait
      obtain ⟨hhead, htail⟩ := hwait
      obtain ⟨s, hs, rfl⟩ := Option.map_eq_some_iff.1 hhead
      have hact : c.action .acceptStreamNonblock (.ok (.stream ref)) = some (.accept s.streamId) := by
        simp [Client.action, ho, ht, hs]
      rw [hact]
      exact ⟨_, .act (.accept _ rest hm), ⟨hobject, hchannel, by rw [hids]; exact htail⟩, haccepted⟩

end

/-! ## Runs -/

theorem accepted_le_later {tr tr' : ClientTrace} (h : tr <+: tr') (ref : Nat) :
    (accepted tr ref).length ≤ (accepted tr' ref).length := by
  obtain ⟨rest, rfl⟩ := h
  simp [accepted]

/-- A run is matched, with what was accepted on each object in its channel. -/
theorem Reach.simulated {tr c} (h : Reach MuxContract tr c)
    (hlt : ∀ ref < c.objs.length, (accepted tr ref).length < 2 ^ 64) :
    ∃ m, Mux.Run serverInitiated .empty (actionsOf tr) m ∧ Simulated tr c m := by
  have hall : ∀ ref, (accepted tr ref).length < 2 ^ 64 := by
    intro ref
    by_cases href : ref < c.objs.length
    · exact hlt ref href
    · rw [Reach.accepted_noObject MuxContract.fresh h (Nat.not_lt.1 href)]
      decide
  refine Steps.simulated h .initial ?_
  intro tr₁ c₁ e r c₂ m₁ hp hrun hsim hk hst
  cases ho : e.opens c₁ with
  | some id => exact hsim.opens hrun hk hst ho
  | none =>
    cases ht : e.target c₁ with
    | some ref =>
      exact hsim.moves hrun hk hst (fun ref => Nat.lt_of_le_of_lt (accepted_le_later hp ref) (hall ref)) ht
    | none => exact hsim.rests hst ho ht

/-- Two streams, one of each side. The client's sends two bytes and FIN in
two packets; the server's ends, is accepted, read and closed. -/
def muxRun : ClientTrace × Client :=
  run step MuxContract
    [.openBidiStream (.ok 0),
     .write 0 ⟨[8, 9], by decide⟩ true 100 100,
     .callback (.streamOpen 1),
     .writePkt none ⟨.ok [64], 1⟩,
     .callback (.recvStreamData true 1 0 [7]),
     .callback (.ackedStreamDataOffset 0 0 1),
     .writePkt none ⟨.ok [65], 1⟩,
     .acceptStreamNonblock,
     .readNonblock 1 16,
     .callback (.streamClose false 1 0)] [] {}

theorem muxRun_reach : Reach MuxContract muxRun.1 muxRun.2 := Steps.of_run (by decide)

example : actionsOf muxRun.1 =
    [.open 0, .on 0 (.write [8, 9] true), .open 1, .on 0 (.frame [8] false), .on 1 (.deliver [7] true),
      .on 0 (.ack 1), .on 0 (.frame [9] true), .accept 1, .on 1 (.take [7]), .on 1 .close] := by decide

end QuicRuby
