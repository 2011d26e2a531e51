/-
Exceptions. A blocking call raises what one of its rounds raised, or that the
stream or its argument is no good; never that it would block, which is what
its rounds are for.

A call that raises leaves the client as it was: in any run the calls that
raised can be left out, and the rest is a run with the same replies and the
same streams at the end. One of them does half its work before it raises,
`Stream#close` when STOP_SENDING fails, and stays as a `close_write`.
-/
import QuicRuby.Session

namespace QuicRuby

open Runs Loops

/-! ## What blocking calls raise -/

/-- The socket raises it in one of the rounds. -/
inductive SocketError (rounds : List PumpRound) (e : RubyError) : Prop
  | send {round answer} : round ∈ rounds → (answer, some e) ∈ round.writes → SocketError rounds e
  | recvfrom {round} : round ∈ rounds → round.wakeup = .recvfromRaises e → SocketError rounds e

/-- What rounds raise: the client is not bound, ngtcp2 failed, or the socket
raised. -/
def RoundsError (rounds : List PumpRound) (e : RubyError) : Prop :=
  e = notBound ∨ (∃ rv, e = quicRaiseNgtcp2Error rv) ∨ SocketError rounds e

theorem SocketError.mono {rounds rounds' : List PumpRound} {e : RubyError} (h : SocketError rounds e)
    (hsub : rounds ⊆ rounds') : SocketError rounds' e := by
  cases h with
  | send hm hw => exact .send (hsub hm) hw
  | recvfrom hm hw => exact .recvfrom (hsub hm) hw

theorem RoundsError.mono {rounds rounds' : List PumpRound} {e : RubyError} (h : RoundsError rounds e)
    (hsub : rounds ⊆ rounds') : RoundsError rounds' e :=
  h.imp id (Or.imp id fun hs => hs.mono hsub)

theorem quicClientWritePkt_raises {writev : WritevArgs → WritevAnswer} {c c' : Client} {e : RubyError}
    (h : quicClientWritePkt writev none c = (.error e, c')) : ∃ rv, e = quicRaiseNgtcp2Error rv := by
  simp only [quicClientWritePkt, reduceCtorEq, if_false] at h
  split at h
  · cases h; exact ⟨_, rfl⟩
  · split at h <;> split at h <;> cases h

theorem drainPackets_raises {writes : List (WritevAnswer × Option RubyError)} {c c' : Client} {e : RubyError}
    (h : drainPackets writes c = some (.error e, c')) :
    (∃ rv, e = quicRaiseNgtcp2Error rv) ∨ ∃ answer, (answer, some e) ∈ writes := by
  induction writes generalizing c with
  | nil => cases h
  | cons w rest ih =>
    obtain ⟨answer, sendRaises⟩ := w
    simp only [drainPackets] at h
    split at h
    · next hq => cases h; exact .inl (quicClientWritePkt_raises hq)
    · cases h
    · split at h
      · cases h; exact .inr ⟨answer, List.mem_cons_self⟩
      · rcases ih h with hng | ⟨answer', hm⟩
        · exact .inl hng
        · exact .inr ⟨answer', List.mem_cons_of_mem _ hm⟩

theorem pumpOnce_roundsError {round : PumpRound} {c c' : Client} {e : RubyError}
    (h : pumpOnce round c = some (.error e, c')) : RoundsError [round] e := by
  have hrv : ∀ {rv e}, raiseUnlessZero rv = .error e → ∃ rv, e = quicRaiseNgtcp2Error rv := by
    intro rv e hr
    cases rv <;> cases hr
    exact ⟨_, rfl⟩
  unfold pumpOnce at h
  split at h
  · cases h; exact .inl rfl
  split at h
  · cases h
  · next hd =>
    cases h
    rcases drainPackets_raises hd with hng | ⟨answer, hm⟩
    · exact .inr (.inl hng)
    · exact .inr (.inr (.send List.mem_cons_self hm))
  · split at h
    · next callbacks rv hw =>
      obtain ⟨hr, -⟩ := Prod.mk.inj (Option.some.inj h)
      exact .inr (.inl (hrv hr))
    · next hw => cases h; exact .inr (.inr (.recvfrom List.mem_cons_self hw))
    · next rv hw =>
      obtain ⟨hr, -⟩ := Prod.mk.inj (Option.some.inj h)
      exact .inr (.inl (hrv hr))

section
variable {round : PumpRound} {rounds : List PumpRound} {e : RubyError}

theorem RoundsError.head (h : RoundsError [round] e) : RoundsError (round :: rounds) e :=
  h.mono (by simp)

theorem RoundsError.tail (h : RoundsError rounds e) : RoundsError (round :: rounds) e :=
  h.mono (List.subset_cons_self _ _)

end

theorem pumpUntil_roundsError {pred : Client → Bool} {rounds rest : List PumpRound} {c c' : Client} {e : RubyError}
    (h : pumpUntil pred rounds c = some (.error e, c', rest)) : RoundsError rounds e := by
  induction rounds generalizing c with
  | nil =>
    unfold pumpUntil at h
    split at h <;> cases h
  | cons round rounds ih =>
    unfold pumpUntil at h
    split at h
    · cases h
    dsimp only at h
    split at h
    · cases h
    · next hr => cases h; exact (pumpOnce_roundsError hr).head
    · exact (ih h).tail

theorem untilCompleted_roundsError {completed : List Bool} {rounds : List PumpRound} {c c' : Client} {e : RubyError}
    (h : untilCompleted completed rounds c = some (.error e, c')) : RoundsError rounds e := by
  induction completed generalizing rounds c with
  | nil => cases h
  | cons b completed ih =>
    cases b with
    | true => cases h
    | false =>
      cases rounds with
      | nil => cases h
      | cons round rounds =>
        simp only [untilCompleted] at h
        split at h
        · cases h
        · next hr => cases h; exact (pumpOnce_roundsError hr).head
        · exact (ih h).tail

theorem streamWrite_raises {ref : Nat} {data : RString} {fin : Bool} {windows : List (UInt64 × UInt64)}
    {rounds : List PumpRound} {c c' : Client} {e : RubyError}
    (h : streamWrite ref data fin windows rounds c = some (.error e, c')) :
    RoundsError rounds e ∨ ∃ text, e = .mkText .streamClosed text := by
  induction windows generalizing rounds c with
  | nil => cases h
  | cons w windows ih =>
    obtain ⟨streamLeft, connLeft⟩ := w
    simp only [streamWrite] at h
    split at h
    · cases h
    next s hs =>
    split at h
    · next r s' hw =>
      cases h
      have henq := quicStreamWriteM_eq hw
      cases ho : s.sendOpen with
      | true => rw [quicStreamEnqueue_open ho] at henq; cases henq
      | false =>
        obtain ⟨text, ht⟩ := quicStreamEnqueue_shut ho data fin
        rw [ht] at henq
        cases henq
        exact .inr ⟨text, rfl⟩
    · cases h
    · split at h
      · cases h
      · next hr => cases h; exact .inl (pumpOnce_roundsError hr).head
      · exact (ih h).imp RoundsError.tail id

/-- With the buffer as `read(length)` waits for, only the length can be
refused. -/
theorem streamRead_raises {ref : Nat} {length : Option Int} {rounds rest : List PumpRound} {c c' : Client}
    {e : RubyError} (h : streamRead ref length rounds c = some (.error e, c', rest)) :
    RoundsError rounds e ∨ ∃ n ∈ length, ¬ (0 ≤ n ∧ n < 2 ^ 63) ∧ (e.cls = .argumentError ∨ e.cls = .rangeError) := by
  obtain ⟨e', he, hp⟩ | ⟨c₁, s, -, hs, hready, hr, -⟩ := streamRead_cases h
  · cases he
    exact .inl (pumpUntil_roundsError hp)
  · refine .inr ?_
    cases length with
    | none =>
      have heof : quicStreamEofP s = true := by simpa [readReady, hs] using hready
      simp only [Option.getD_none, readNonblock_eof heof, readReply] at hr
      cases hr
    | some n =>
      obtain ⟨s', hs', hne⟩ := readReady_length.1 hready
      obtain rfl : s' = s := Option.some.inj (hs'.symm.trans hs)
      refine ⟨n, rfl, ?_⟩
      by_cases hrange : 0 ≤ n ∧ n < 2 ^ 63
      · rw [Option.getD_some, quicStreamReadNonblockM_eq s' hrange.1 hrange.2, if_neg hne] at hr
        cases hr
      · refine ⟨hrange, ?_⟩
        simp only [Option.getD_some, quicStreamReadNonblockM, num2long] at hr
        by_cases hlong : -2 ^ 63 ≤ n ∧ n < 2 ^ 63
        · have hneg : n < 0 := by omega
          simp only [hlong, and_self, if_true, hneg] at hr
          cases hr
          exact .inl rfl
        · simp only [hlong, if_false] at hr
          cases hr
          exact .inr rfl

theorem acceptLoop_roundsError {deadline : Option Rat} {turns : List (Rat × PumpRound)} {c c' : Client} {e : RubyError}
    (h : acceptLoop deadline turns c = some (.error e, c')) : RoundsError (turns.map Prod.snd) e := by
  induction turns generalizing c with
  | nil => cases h
  | cons turn turns ih =>
    obtain ⟨now, round⟩ := turn
    simp only [acceptLoop] at h
    split at h
    · cases h
    split at h
    · cases h
    · next hr => cases h; exact (pumpOnce_roundsError hr).head
    · split at h
      · cases h
      · exact (ih h).tail

/-- The rounds of a call. -/
def Call.rounds : Call → List PumpRound
  | .event _ => []
  | .pumpOnce round => [round]
  | .run _ rounds | .write _ _ _ _ rounds | .read _ _ rounds => rounds
  | .acceptStream _ _ turns => turns.map Prod.snd

/-- What a call raises of itself: the stream is finished, or the length is not
one. -/
def Call.Refuses : Call → RubyError → Prop
  | .write _ _ _ _ _, e => ∃ text, e = .mkText .streamClosed text
  | .read _ length _, e =>
    ∃ n ∈ length, ¬ (0 ≤ n ∧ n < 2 ^ 63) ∧ (e.cls = .argumentError ∨ e.cls = .rangeError)
  | _, _ => False

/-- What calls that do not block raise instead of waiting. -/
def RubyError.wouldBlock (e : RubyError) : Bool :=
  e.cls = .waitReadable || e.cls = .waitWritable || e.cls = .eofError

theorem call_raises {c c' : Client} {call : Call} {e : RubyError} (hcall : ∀ ev, call ≠ .event ev)
    (h : callStep c call = some (.error e, c')) : RoundsError call.rounds e ∨ call.Refuses e := by
  have hmap : ∀ {α : Type} {f : α → RValue} {res : Except RubyError α}, res.map f = .error e → res = .error e := by
    intro α f res hres
    cases res <;> cases hres
    rfl
  cases call with
  | event ev => exact absurd rfl (hcall ev)
  | pumpOnce round =>
    obtain ⟨⟨res, c₁⟩, hp, heq⟩ := Option.map_eq_some_iff.1 h
    obtain rfl := hmap (Prod.mk.inj heq).1
    exact .inl (pumpOnce_roundsError hp)
  | run completed rounds =>
    obtain ⟨⟨res, c₁⟩, hp, heq⟩ := Option.map_eq_some_iff.1 h
    obtain rfl := hmap (Prod.mk.inj heq).1
    unfold clientRun at hp
    split at hp
    · cases hp; exact .inl (.inl rfl)
    · exact .inl (untilCompleted_roundsError hp)
  | write ref data fin windows rounds =>
    obtain ⟨⟨res, c₁⟩, hp, heq⟩ := Option.map_eq_some_iff.1 h
    obtain rfl := hmap (Prod.mk.inj heq).1
    exact streamWrite_raises hp
  | read ref length rounds =>
    obtain ⟨⟨res, c₁, rest⟩, hp, heq⟩ := Option.map_eq_some_iff.1 h
    obtain rfl := hmap (Prod.mk.inj heq).1
    exact streamRead_raises hp
  | acceptStream timeout start turns =>
    obtain ⟨⟨res, c₁⟩, hp, heq⟩ := Option.map_eq_some_iff.1 h
    obtain rfl := hmap (Prod.mk.inj heq).1
    refine .inl ?_
    unfold QuicRuby.acceptStream at hp
    split at hp
    · cases hp
    · split at hp
      · cases hp
      · exact acceptLoop_roundsError hp

theorem quicRaiseNgtcp2Error_wouldBlock (rv : Ngtcp2Error) : (quicRaiseNgtcp2Error rv).wouldBlock = false := by
  cases rv <;> rfl

/-- Waiting for a stream on a connection that idles out. -/
def idleCall : Call := .acceptStream none 0 [(0, ⟨[(⟨.ok [], -1⟩, none)], .timeout (some .idleClose)⟩)]

/-- The client but for the record of its calls on ngtcp2. -/
def Client.core (c : Client) : Client := { c with calls := [] }

/-- What stays of a call: nothing if it raised, but the FIN of a `close` whose
STOP_SENDING failed. -/
def effective : Event × Reply → Option (Event × Reply)
  | (e, .ok v) => some (e, .ok v)
  | (.close ref (some rv), .error e) =>
    if e = quicRaiseNgtcp2Error rv then some (.closeWrite ref, .ok .nil) else none
  | (_, .error _) => none

theorem writePkt_core (streams : OrderedHash Int Nat) (queue : List Nat) (sock : Option Nat) (objs : List QuicStream)
    (calls calls' : List Ngtcp2Call) (buffer : Option Encoding) (answer : WritevAnswer) :
    (quicClientWritePkt (fun _ => answer) buffer ⟨streams, queue, sock, objs, calls⟩).1 =
        (quicClientWritePkt (fun _ => answer) buffer ⟨streams, queue, sock, objs, calls'⟩).1 ∧
      (quicClientWritePkt (fun _ => answer) buffer ⟨streams, queue, sock, objs, calls⟩).2.core =
        (quicClientWritePkt (fun _ => answer) buffer ⟨streams, queue, sock, objs, calls'⟩).2.core := by
  have hpick : quicClientPickSendStream ⟨streams, queue, sock, objs, calls⟩ =
      quicClientPickSendStream ⟨streams, queue, sock, objs, calls'⟩ := rfl
  simp only [quicClientWritePkt, Client.writevArgs, hpick]
  split
  · exact ⟨rfl, rfl⟩
  cases answer.result with
  | error rv => exact ⟨rfl, rfl⟩
  | ok packet =>
    cases quicClientPickSendStream ⟨streams, queue, sock, objs, calls'⟩ with
    | none => dsimp only; split <;> exact ⟨rfl, rfl⟩
    | some x => dsimp only; split <;> exact ⟨rfl, rfl⟩

/-- What was called on ngtcp2 before changes nothing. -/
theorem step_core {c c' d : Client} {e : Event} {r : Reply} (hcore : d.core = c.core)
    (h : step c e = some (r, c')) : ∃ d', step d e = some (r, d') ∧ d'.core = c'.core := by
  obtain ⟨streams, queue, sock, objs, calls⟩ := c
  obtain ⟨streams', queue', sock', objs', calls'⟩ := d
  simp only [Client.core, Client.mk.injEq, and_true] at hcore
  obtain ⟨rfl, rfl, rfl, rfl⟩ := hcore
  cases e with
  | openBidiStream answer => cases answer <;> cases h <;> exact ⟨_, rfl, rfl⟩
  | openUniStream answer => cases answer <;> cases h <;> exact ⟨_, rfl, rfl⟩
  | write ref data fin streamLeft connLeft =>
    simp only [step, Option.bind_eq_some_iff, Option.map_eq_some_iff, Prod.mk.injEq] at h ⊢
    obtain ⟨s, hs, ⟨r', s'⟩, hw, rfl, rfl⟩ := h
    exact ⟨_, ⟨s, hs, (r', s'), hw, rfl, rfl⟩, rfl⟩
  | writeNonblock | closeWrite | readNonblock | closeRead | close | reset =>
    simp only [step, Client.call, Option.map_eq_some_iff, Prod.mk.injEq] at h ⊢
    obtain ⟨s, hs, rfl, rfl⟩ := h
    exact ⟨_, ⟨s, hs, rfl, rfl⟩, rfl⟩
  | writePkt buffer answer =>
    have hstep : ∀ c, step c (.writePkt buffer answer) =
        some ((quicClientWritePkt (fun _ => answer) buffer c).1.map .ofPacket,
          (quicClientWritePkt (fun _ => answer) buffer c).2) := fun _ => rfl
    rw [hstep, Option.some.injEq, Prod.mk.injEq] at h
    obtain ⟨rfl, rfl⟩ := h
    obtain ⟨hreply, hcore⟩ := writePkt_core streams' queue' sock' objs' calls' calls buffer answer
    exact ⟨_, by rw [hstep, hreply], hcore⟩
  | acceptStreamNonblock => cases queue' <;> cases h <;> exact ⟨_, rfl, rfl⟩
  | bind sock => cases h; exact ⟨_, rfl, rfl⟩
  | callback cb =>
    cases h
    refine ⟨_, rfl, ?_⟩
    cases cb with
    | streamOpen id =>
      simp only [runCallback, quicStreamOpenCb, quicClientLookupStream]
      split <;> rfl
    | recvStreamData fin id offset data =>
      simp only [runCallback, quicRecvStreamDataCb, quicClientLookupStream]
      split
      · rfl
      · split <;> rfl
    | ackedStreamDataOffset id offset datalen =>
      simp only [runCallback, quicAckedStreamDataOffsetCb, quicClientLookupStream]
      split <;> rfl
    | streamClose set id code =>
      simp only [runCallback, quicStreamCloseCb]
      split <;> rfl
    | streamReset id finalSize code =>
      simp only [runCallback, quicStreamResetCb, quicClientLookupStream]
      split <;> rfl
  | maxStreamData | maxData => cases h; exact ⟨_, rfl, rfl⟩

/-- A method that raises, by what it makes of its object. -/
theorem call_error {α : Type} {c c' : Client} {ref : Nat} {f : α → RValue}
    {method : QuicStream → Except RubyError α × QuicStream × List Ngtcp2Call} {e : RubyError}
    (h : c.call ref f method = some (.error e, c')) :
    ∃ s, c.objs[ref]? = some s ∧ (method s).1 = .error e ∧ c'.core = (c.modify ref fun _ => (method s).2.1).core := by
  obtain ⟨s, hs, heq⟩ := Option.map_eq_some_iff.1 h
  obtain ⟨hr, rfl⟩ := Prod.mk.inj heq
  refine ⟨s, hs, ?_, ?_⟩
  · cases hm : (method s).1 with
    | error e' => rw [hm] at hr; cases hr; rfl
    | ok v => rw [hm] at hr; cases hr
  · have hobjs : c.objs.modify ref (fun s => (method s).2.1) = c.objs.modify ref fun _ => (method s).2.1 :=
      modify_congr fun s' hs' => by rw [Option.some.inj (hs'.symm.trans hs)]
    simp only [Client.core, Client.log, Client.modify, hobjs]

theorem call_error_same {α : Type} {c c' : Client} {ref : Nat} {f : α → RValue}
    {method : QuicStream → Except RubyError α × QuicStream × List Ngtcp2Call} {e : RubyError}
    (h : c.call ref f method = some (.error e, c'))
    (hsame : ∀ s, (method s).1 = .error e → (method s).2.1 = s) : c'.core = c.core := by
  obtain ⟨s, hs, hr, hcore⟩ := call_error h
  rw [hcore, hsame s hr, Client.modify_same hs]

theorem closeWrite_reply (s : QuicStream) :
    (∃ text, quicStreamCloseWriteM s = (.error (.mkText .streamClosed text), s)) ∨
      (quicStreamCloseWriteM s).1 = .ok () := by
  simp only [quicStreamCloseWriteM]
  split
  · exact .inr rfl
  cases ho : s.sendOpen with
  | true => exact .inr (by rw [quicStreamEnqueue_open ho]; rfl)
  | false =>
    obtain ⟨text, ht⟩ := quicStreamEnqueue_shut ho .empty true
    exact .inl ⟨text, by rw [ht]; rfl⟩

theorem closeWrite_hasClient (s : QuicStream) : (quicStreamCloseWriteM s).2.hasClient = s.hasClient := by
  rcases quicStreamCloseWriteM_cases s with h | ⟨-, h⟩ <;> rw [h]
  rfl

theorem step_closeWrite {c : Client} {ref : Nat} {s : QuicStream} (hs : c.objs[ref]? = some s)
    (hok : (quicStreamCloseWriteM s).1 = .ok ()) :
    ∃ d, step c (.closeWrite ref) = some (.ok .nil, d) ∧
      d.core = (c.modify ref fun _ => (quicStreamCloseWriteM s).2).core := by
  have hobjs : c.objs.modify ref (fun s => (quicStreamCloseWriteM s).2) =
      c.objs.modify ref fun _ => (quicStreamCloseWriteM s).2 :=
    modify_congr fun s' hs' => by rw [Option.some.inj (hs'.symm.trans hs)]
  refine ⟨(c.modify ref fun s => (quicStreamCloseWriteM s).2).log [], ?_, ?_⟩
  · simp only [step, Client.call, hs, Option.map_some, quiet, hok]
    rfl
  · simp only [Client.core, Client.log, Client.modify, hobjs]

/-- **A call that raises**: nothing has changed, or a `close` has done its
first leg. -/
theorem step_raises {c c' : Client} {e : Event} {err : RubyError} (hclient : ∀ s ∈ c.objs, s.hasClient = true)
    (h : step c e = some (.error err, c')) :
    effective (e, .error err) = none ∧ c'.core = c.core ∨
    ∃ ref d, effective (e, .error err) = some (.closeWrite ref, .ok .nil) ∧
      step c (.closeWrite ref) = some (.ok .nil, d) ∧ d.core = c'.core := by
  cases e with
  | openBidiStream answer => cases answer <;> cases h; exact .inl ⟨rfl, rfl⟩
  | openUniStream answer => cases answer <;> cases h; exact .inl ⟨rfl, rfl⟩
  | write ref data fin streamLeft connLeft =>
    simp only [step, Option.bind_eq_some_iff, Option.map_eq_some_iff, Prod.mk.injEq] at h
    obtain ⟨s, hs, ⟨r', s'⟩, hw, hr, rfl⟩ := h
    refine .inl ⟨rfl, ?_⟩
    have henq := quicStreamWriteM_eq hw
    cases ho : s.sendOpen with
    | true => rw [quicStreamEnqueue_open ho] at henq; cases henq; cases hr
    | false =>
      obtain ⟨text, ht⟩ := quicStreamEnqueue_shut ho data fin
      rw [ht] at henq
      cases henq
      rw [Client.modify_same hs]
  | writeNonblock ref data fin streamLeft connLeft =>
    refine .inl ⟨rfl, call_error_same h fun s hr => ?_⟩
    obtain ⟨-, e, he⟩ | ⟨-, slice, fin', -, -, he⟩ := quicStreamWriteNonblockM_cases s data fin streamLeft connLeft
    · simp only [quiet, he]
    · simp only [quiet, he] at hr; cases hr
  | closeWrite ref =>
    refine .inl ⟨rfl, call_error_same h fun s hr => ?_⟩
    obtain ⟨text, ht⟩ | hok := closeWrite_reply s
    · simp only [quiet, ht]
    · simp only [quiet, hok] at hr; cases hr
  | readNonblock ref length =>
    refine .inl ⟨rfl, call_error_same h fun s hr => ?_⟩
    obtain ⟨e, he⟩ | ⟨bytes, buffer, he, -⟩ := quicStreamReadNonblockM_cases s length
    · simp only [quiet, he]
    · simp only [quiet, he] at hr; cases hr
  | closeRead ref rv =>
    exact .inl ⟨rfl, call_error_same h fun s _ => quicStreamCloseReadM_stream s rv⟩
  | close ref rv =>
    obtain ⟨s, hs, hr, hcore⟩ := call_error h
    obtain ⟨text, ht⟩ | hok := closeWrite_reply s
    · -- Its first leg raises.
      simp only [quicStreamCloseM, ht] at hr hcore
      cases hr
      refine .inl ⟨?_, by rw [hcore, Client.modify_same hs]⟩
      cases rv with
      | none => rfl
      | some rv => simp [effective, RubyError.mkText, quicRaiseNgtcp2Error]
    · have hclosed : quicStreamCloseWriteM s = (.ok (), (quicStreamCloseWriteM s).2) := by rw [← hok]
      rw [quicStreamCloseM_stream] at hcore
      have hhas : (quicStreamCloseWriteM s).2.hasClient = true :=
        (closeWrite_hasClient s).trans (hclient s (List.mem_of_getElem? hs))
      rw [quicStreamCloseM, hclosed] at hr
      simp only [quicStreamCloseReadM, hhas, Bool.not_true, Bool.false_eq_true, if_false] at hr
      cases rv with
      | none => cases hr
      | some rv =>
        cases hr
        obtain ⟨d, hd, hdcore⟩ := step_closeWrite hs hok
        exact .inr ⟨ref, d, by simp [effective], hd, hdcore.trans hcore.symm⟩
  | reset ref errorCode rv =>
    refine .inl ⟨rfl, call_error_same h fun s hr => ?_⟩
    obtain ⟨e, -, hs⟩ | ⟨hok, -⟩ := quicStreamResetM_cases s errorCode rv
    · exact hs
    · rw [hok] at hr; cases hr
  | writePkt buffer answer =>
    have hstep : step c (.writePkt buffer answer) =
        some ((quicClientWritePkt (fun _ => answer) buffer c).1.map .ofPacket,
          (quicClientWritePkt (fun _ => answer) buffer c).2) := rfl
    rw [hstep, Option.some.injEq, Prod.mk.injEq] at h
    obtain ⟨hr, rfl⟩ := h
    refine .inl ⟨rfl, ?_⟩
    simp only [quicClientWritePkt] at hr ⊢
    split
    · rfl
    next hb =>
    rw [if_neg hb] at hr
    cases hres : answer.result with
    | error rv => rfl
    | ok packet =>
      simp only [hres] at hr
      split at hr <;> cases hr
  | acceptStreamNonblock =>
    cases hq : c.acceptQueue with
    | nil =>
      simp only [step, acceptStreamNonblock, hq] at h
      cases h
      exact .inl ⟨rfl, rfl⟩
    | cons ref rest =>
      simp only [step, acceptStreamNonblock, hq] at h
      cases h
  | bind sock => cases h
  | callback cb => cases h
  | maxStreamData | maxData => cases h

/-- **Calls that raise can be left out.** Of any run, what the other calls did
(and the FIN of a `close` that raised behind it) is a run by itself, with the
replies they got, to a client with the same streams, queue and socket. -/
theorem failures_invisible {tr : ClientTrace} {c : Client} (h : Reach .any tr c) :
    ∃ c', Reach .any (tr.filterMap effective) c' ∧ c'.core = c.core := by
  induction h with
  | refl => exact ⟨{}, .refl, rfl⟩
  | @tail tr c e r c' h hK hs ih =>
    obtain ⟨d, hd, hcore⟩ := ih
    rw [List.filterMap_append]
    cases r with
    | ok v =>
      obtain ⟨d', hd', hcore'⟩ := step_core hcore hs
      exact ⟨d', hd.trans (.one trivial hd'), hcore'⟩
    | error err =>
      have hclient : ∀ s ∈ c.objs, s.hasClient = true := by
        intro s hm
        obtain ⟨ref, hget⟩ := List.mem_iff_getElem?.1 hm
        exact Reach.hasClient h hget
      obtain ⟨hnone, hsame⟩ | ⟨ref, c₁, hsome, hclose, hcore₁⟩ := step_raises hclient hs
      · rw [List.filterMap_cons_none hnone, List.filterMap_nil, List.append_nil]
        exact ⟨d, hd, hcore.trans hsame.symm⟩
      · rw [List.filterMap_cons_some hsome, List.filterMap_nil]
        obtain ⟨d', hd', hcore'⟩ := step_core hcore hclose
        exact ⟨d', hd.trans (.one trivial hd'), hcore'.trans hcore₁⟩

/-- A stream that has nothing to read and no window, then a `close` whose
STOP_SENDING fails. -/
def failingRun : ClientTrace × Client :=
  run step .any
    [.openBidiStream (.ok 0),
     .openUniStream (.error (.other (-206))),
     .readNonblock 0 4,
     .writeNonblock 0 ⟨[9, 9], by decide⟩ false 0 100,
     .close 0 (some (.other (-501))),
     .closeWrite 0] [] {}

theorem failures_invisible_failingRun :
    ∃ c', Reach .any (failingRun.1.filterMap effective) c' ∧ c'.core = failingRun.2.core ∧
      (failingRun.1.filterMap effective).length = 3 := by
  obtain ⟨c', hreach, hcore⟩ := failures_invisible (Steps.of_run (by decide +kernel) :
    Reach .any failingRun.1 failingRun.2)
  exact ⟨c', hreach, hcore, by decide +kernel⟩

end QuicRuby
