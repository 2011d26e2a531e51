/-
What goes out on the wire. Every packet ngtcp2 writes for `write_pkt` leaves
the client, once and in order: `pump_once` hands it to the `send` of the
socket bound, a call of `write_pkt` by the program returns it. A packet is
lost only to an exception of `send`, which ends its round with that exception
at the packet it hit.
-/
import QuicRuby.ConnFacts
import QuicRuby.Scheduler
import QuicRuby.Lib.Simulation

namespace QuicRuby

open Runs

/-- The packet a call wrote, if any. -/
def Ngtcp2Call.packet : Ngtcp2Call → Option (List UInt8)
  | .writevStream _ answer =>
    match answer.result with
    | .ok packet => if packet.length = 0 then none else some packet
    | .error _ => none
  | _ => none

/-- The packets written, in order. -/
def produced (calls : List Ngtcp2Call) : List (List UInt8) := calls.filterMap Ngtcp2Call.packet

/-- A packet that left the client: returned by `write_pkt`, or given to the
`send` of a socket, which may raise. -/
inductive Handed
  | program (packet : List UInt8)
  | socket (sock : Nat) (packet : List UInt8) (raises : Option RubyError)
deriving DecidableEq, Repr

def Handed.packet : Handed → List UInt8
  | .program packet | .socket _ packet _ => packet

/-- What `send` raised for it. -/
def Handed.raised : Handed → Option RubyError
  | .program _ => none
  | .socket _ _ raises => raises

/-- The `send` calls of the loop in `pump_once`. -/
def drainSends (sock : Nat) : List (WritevAnswer × Option RubyError) → List Handed
  | [] => []
  | (answer, sendRaises) :: rest =>
    match answer.result with
    | .error _ => []
    | .ok packet =>
      if packet.length = 0 then []
      else .socket sock packet sendRaises :: if sendRaises.isSome then [] else drainSends sock rest

/-- What leaves the client at an event, with what the event's reply raises. -/
def handedBy (k : Connection) (e : ConnEvent) (r : Reply) : Option (List Handed × Option RubyError) :=
  match e, r with
  | .client (.writePkt _ _), .ok (.str packet) => some ([.program packet], none)
  | .pumpOnce round, r =>
    k.client.sock.map fun sock => (drainSends sock round.writes, match r with | .error e => some e | .ok _ => none)
  | _, _ => none

/-- What left the client in a run, event by event. -/
abbrev handedIn (net : Nat → Except RubyError RString) (k₀ : Connection) (tr : ConnTrace) :
    List (List Handed × Option RubyError) := actions (connStep net) handedBy k₀ tr

/-- One event's packets: only the last can have met an exception, and that is
what the event raises. -/
def Losses (batch : List Handed × Option RubyError) : Prop :=
  ∀ pre x post, batch.1 = pre ++ x :: post → x.raised = none ∨ post = [] ∧ x.raised = batch.2

/-! ## The loop of pump_once -/

@[simp] theorem produced_append (calls new : List Ngtcp2Call) :
    produced (calls ++ new) = produced calls ++ produced new := List.filterMap_append

theorem writePkt_calls (answer : WritevAnswer) (c : Client) :
    (quicClientWritePkt (fun _ => answer) none c).2.calls = c.calls ++ [.writevStream c.writevArgs answer] :=
  (step_after (c := c) (e := .writePkt none answer) rfl).calls

theorem losses_nil (raised : Option RubyError) : Losses ([], raised) := by
  intro pre x post h
  simp at h

theorem losses_last (sock : Nat) (packet : List UInt8) (e : RubyError) :
    Losses ([.socket sock packet (some e)], some e) := by
  intro pre x post h
  cases pre with
  | nil =>
    obtain ⟨rfl, rfl⟩ := List.cons.inj h
    exact .inr ⟨rfl, rfl⟩
  | cons y pre => simp at h

theorem losses_program (packet : List UInt8) (raised : Option RubyError) : Losses ([.program packet], raised) := by
  intro pre x post h
  cases pre with
  | nil =>
    obtain ⟨rfl, -⟩ := List.cons.inj h
    exact .inl rfl
  | cons y pre => simp at h

/-- A packet with no exception in front. -/
theorem Losses.cons {sock : Nat} {packet : List UInt8} {rest : List Handed} {raised : Option RubyError}
    (h : Losses (rest, raised)) : Losses (.socket sock packet none :: rest, raised) := by
  intro pre x post heq
  cases pre with
  | nil =>
    obtain ⟨rfl, -⟩ := List.cons.inj heq
    exact .inl rfl
  | cons y pre =>
    obtain ⟨-, heq⟩ := List.cons.inj heq
    exact h pre x post heq

/-- A call raises, has no packet, or has the one ngtcp2 wrote. -/
inductive WriteEnds (answer : WritevAnswer) : Except RubyError (Option (List UInt8)) → Option (List UInt8) → Prop
  | raised {rv : Ngtcp2Error} (h : answer.result = .error rv) :
      WriteEnds answer (.error (quicRaiseNgtcp2Error rv)) none
  | empty (h : answer.result = .ok []) : WriteEnds answer (.ok none) none
  | packet {packet : List UInt8} (h : answer.result = .ok packet) (hne : packet ≠ []) :
      WriteEnds answer (.ok (some packet)) (some packet)

theorem writePkt_ends {buffer : Option Encoding} (hb : buffer ≠ some .other) (answer : WritevAnswer) (c : Client) :
    WriteEnds answer (quicClientWritePkt (fun _ => answer) buffer c).1
      (Ngtcp2Call.writevStream c.writevArgs answer).packet := by
  rw [writePkt_reply _ hb, Ngtcp2Call.packet]
  cases hres : answer.result with
  | error rv => exact .raised hres
  | ok packet =>
    cases packet with
    | nil => exact .empty hres
    | cons byte rest => exact .packet hres (List.cons_ne_nil byte rest)

/-- The loop hands over what ngtcp2 writes in it. -/
theorem drainPackets_sends (sock : Nat) {writes : List (WritevAnswer × Option RubyError)} {c : Client} {r c'}
    (h : drainPackets writes c = some (r, c')) :
    produced c'.calls = produced c.calls ++ (drainSends sock writes).map Handed.packet ∧
      ((∃ e, r = .error e ∧ Losses (drainSends sock writes, some e)) ∨
        r = .ok () ∧ ∀ raised, Losses (drainSends sock writes, raised)) := by
  induction writes generalizing c with
  | nil => cases h
  | cons w rest ih =>
    obtain ⟨answer, sendRaises⟩ := w
    have hcalls : produced (quicClientWritePkt (fun _ => answer) none c).2.calls =
        produced c.calls ++ (Ngtcp2Call.writevStream c.writevArgs answer).packet.toList := by
      rw [writePkt_calls, produced_append]
      cases hp : (Ngtcp2Call.writevStream c.writevArgs answer).packet <;> simp [produced, hp]
    have hends := writePkt_ends (by decide : (none : Option Encoding) ≠ some .other) answer c
    generalize hw : quicClientWritePkt (fun _ => answer) none c = w at hcalls hends
    obtain ⟨reply, c₁⟩ := w
    simp only [drainPackets, hw] at h
    generalize (Ngtcp2Call.writevStream c.writevArgs answer).packet = packet at hcalls hends
    cases hends with
    | raised hres =>
      cases h
      have hsends : drainSends sock ((answer, sendRaises) :: rest) = [] := by simp only [drainSends, hres]
      rw [hsends]
      exact ⟨by simpa using hcalls, .inl ⟨_, rfl, losses_nil _⟩⟩
    | empty hres =>
      cases h
      have hsends : drainSends sock ((answer, sendRaises) :: rest) = [] := by simp [drainSends, hres]
      rw [hsends]
      exact ⟨by simpa using hcalls, .inr ⟨rfl, losses_nil⟩⟩
    | @packet packet hres hne =>
      have hlen : packet.length ≠ 0 := fun h0 => hne (List.length_eq_zero_iff.1 h0)
      have hsends : drainSends sock ((answer, sendRaises) :: rest) =
          .socket sock packet sendRaises :: if sendRaises.isSome then [] else drainSends sock rest := by
        simp only [drainSends, hres, if_neg hlen]
      rw [hsends]
      cases sendRaises with
      | some e =>
        cases h
        exact ⟨by simpa [Handed.packet] using hcalls, .inl ⟨e, rfl, losses_last _ _ _⟩⟩
      | none =>
        obtain ⟨hprod, hloss⟩ := ih h
        simp only [Option.isSome_none, Bool.false_eq_true, if_false, List.map_cons]
        refine ⟨by rw [hprod, hcalls, List.append_assoc]; rfl, ?_⟩
        rcases hloss with ⟨e, hr, hl⟩ | ⟨hr, hl⟩
        · exact .inl ⟨e, hr, hl.cons⟩
        · exact .inr ⟨hr, fun raised => (hl raised).cons⟩

/-! ## One event -/

section
variable {net : Nat → Except RubyError RString}

theorem runCallback_calls (cb : Callback) (c : Client) : (runCallback c cb).calls = c.calls :=
  (runCallback_after c cb).calls.trans (List.append_nil _)

theorem callbacks_calls (cbs : List Callback) (c : Client) : (cbs.foldl runCallback c).calls = c.calls := by
  induction cbs generalizing c with
  | nil => rfl
  | cons cb cbs ih => rw [List.foldl_cons, ih, runCallback_calls]

/-- A round hands over what ngtcp2 writes in it, and raises what a `send`
raised. -/
theorem pumpOnce_sends {round : PumpRound} {c : Client} {r c'} (h : pumpOnce round c = some (r, c')) :
    (c.sock = none → produced c'.calls = produced c.calls) ∧
      ∀ sock, c.sock = some sock →
        produced c'.calls = produced c.calls ++ (drainSends sock round.writes).map Handed.packet ∧
          Losses (drainSends sock round.writes, match r with | .error e => some e | .ok _ => none) := by
  unfold pumpOnce at h
  cases hsock : c.sock with
  | none =>
    rw [hsock] at h
    cases h
    exact ⟨fun _ => rfl, fun sock hs => (by cases hs)⟩
  | some sock₀ =>
    refine ⟨fun hs => (by cases hs), fun sock hs => ?_⟩
    simp only [hsock, Option.isNone_some, Bool.false_eq_true, if_false] at h
    cases hd : drainPackets round.writes c with
    | none => simp [hd] at h
    | some res =>
      obtain ⟨r₁, c₁⟩ := res
      obtain ⟨hprod, hloss⟩ := drainPackets_sends sock hd
      rcases hloss with ⟨e, rfl, hl⟩ | ⟨rfl, hl⟩
      · simp only [hd] at h
        cases h
        exact ⟨hprod, hl⟩
      · -- What follows the loop writes nothing.
        simp only [hd] at h
        have hc' : c'.calls = c₁.calls := by
          cases hw : round.wakeup with
          | datagram callbacks rv =>
            rw [hw] at h
            cases h
            exact callbacks_calls callbacks c₁
          | recvfromRaises e => rw [hw] at h; cases h; rfl
          | timeout rv => rw [hw] at h; cases h; rfl
        exact ⟨by rw [hc', hprod], hl _⟩

/-- Calls other than `write_pkt` write no packet. -/
theorem newCalls_produced {c : Client} {e : Event} (he : ∀ buffer answer, e ≠ .writePkt buffer answer) :
    produced (e.newCalls c) = [] := by
  refine List.filterMap_eq_nil_iff.2 fun call hm => ?_
  cases newCalls_makes hm with
  | writev buffer answer => exact absurd rfl (he buffer answer)
  | _ => rfl

/-- The program's own `write_pkt`. -/
theorem writePkt_handed (k : Connection) (buffer : Option Encoding) (answer : WritevAnswer) :
    produced k.client.calls ++ produced ((Event.writePkt buffer answer).newCalls k.client) =
        produced k.client.calls ++
          ((handedBy k (.client (.writePkt buffer answer))
            ((quicClientWritePkt (fun _ => answer) buffer k.client).1.map .ofPacket)).toList.flatMap
              Prod.fst).map Handed.packet ∧
      ∀ batch ∈ handedBy k (.client (.writePkt buffer answer))
        ((quicClientWritePkt (fun _ => answer) buffer k.client).1.map .ofPacket), Losses batch := by
  by_cases hb : buffer = some .other
  · subst hb
    exact ⟨by simp [Event.newCalls, produced, quicClientWritePkt, handedBy, Except.map],
      by simp [quicClientWritePkt, handedBy, Except.map]⟩
  have hends := writePkt_ends hb answer k.client
  have hnew : produced ((Event.writePkt buffer answer).newCalls k.client) =
      (Ngtcp2Call.writevStream k.client.writevArgs answer).packet.toList := by
    cases hp : (Ngtcp2Call.writevStream k.client.writevArgs answer).packet <;>
      simp [Event.newCalls, hb, produced, hp]
  rw [hnew]
  generalize (quicClientWritePkt (fun _ => answer) buffer k.client).1 = reply at hends ⊢
  generalize (Ngtcp2Call.writevStream k.client.writevArgs answer).packet = packet at hends ⊢
  cases hends with
  | raised | empty => exact ⟨by simp [handedBy, Except.map, RValue.ofPacket], by simp [handedBy, Except.map, RValue.ofPacket]⟩
  | packet =>
    refine ⟨by simp [handedBy, Except.map, RValue.ofPacket, Handed.packet], ?_⟩
    rintro batch hm
    obtain rfl := Option.some.inj hm
    exact losses_program _ _

/-- An event hands over what ngtcp2 writes in it. -/
theorem connStep_sends {k : Connection} {e : ConnEvent} {r : Reply} {k' : Connection}
    (h : connStep net k e = some (r, k')) :
    produced k'.client.calls =
        produced k.client.calls ++ ((handedBy k e r).toList.flatMap Prod.fst).map Handed.packet ∧
      ∀ batch ∈ handedBy k e r, Losses batch := by
  cases e with
  | client e =>
    simp only [connStep, Option.map_eq_some_iff, Prod.mk.injEq] at h
    obtain ⟨⟨r', c'⟩, hst, rfl, rfl⟩ := h
    have hcalls := (step_after hst).calls
    dsimp only at hcalls ⊢
    rw [hcalls, produced_append]
    rcases e.writePkt_or with ⟨buffer, answer, rfl⟩ | hnot
    · simp only [step, Option.some.injEq, Prod.mk.injEq] at hst
      obtain ⟨rfl, -⟩ := hst
      exact writePkt_handed k buffer answer
    · have hno : handedBy k (.client e) r' = none := by
        cases e with
        | writePkt buffer answer => exact absurd rfl (hnot buffer answer)
        | _ => rfl
      rw [newCalls_produced hnot, hno]
      simp
  | pumpOnce round =>
    simp only [connStep, Option.map_eq_some_iff, Prod.mk.injEq] at h
    obtain ⟨⟨r', k₁⟩, hp, rfl, rfl⟩ := h
    obtain ⟨wakeup, hp'⟩ := pumpOnce_client hp
    obtain ⟨hunbound, hbound⟩ := pumpOnce_sends hp'
    cases hsock : k.client.sock with
    | none => simpa [handedBy, hsock] using hunbound hsock
    | some sock =>
      obtain ⟨hprod, hloss⟩ := hbound sock hsock
      cases r' <;> simp only [handedBy, hsock, Except.map, Option.map_some, Option.toList_some,
        List.flatMap_singleton, Option.mem_def, Option.some.injEq, forall_eq'] <;> exact ⟨hprod, hloss⟩
  | close args answer sendRaises =>
    cases h
    rw [(close_cases args answer sendRaises k).client]
    simp [handedBy]
  | enterDraining =>
    cases h
    simp [handedBy]

end

/-- A bound client; a round sends two packets, the next one's `send` raises,
and the program asks for one itself. -/
def wireRun : ConnTrace × Connection :=
  run (connStep fun _ => .ok anySockaddr) .any
    [.client (.bind 3),
     .pumpOnce
       { writes := [(⟨.ok [64], -1⟩, none), (⟨.ok [65, 1], -1⟩, none), (⟨.ok [], -1⟩, none)]
         expiry := 0, nowNs := 0, arrival := none },
     .pumpOnce
       { writes := [(⟨.ok [66], -1⟩, some (.mkText .systemCallError "refused")), (⟨.ok [67], -1⟩, none)]
         expiry := 0, nowNs := 0, arrival := none },
     .client (.writePkt none ⟨.ok [67], -1⟩)] [] loopbackConnection

end QuicRuby
