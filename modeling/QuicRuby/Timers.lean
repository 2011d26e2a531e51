/-
The timer of a connection. A round either reads a datagram or handles the
timer (`Lap.handled_iff`), and of a datagram that is there and a timer that
is due it takes the datagram. So a due timer is handled in its round or the
next exactly if one of the two waits meets no datagram, and a steady flow of
datagrams puts it off for ever.
-/
import QuicRuby.ConnFacts
import QuicRuby.Scheduler

namespace QuicRuby

/-! ## The wait of a round -/

/-- What a round sends ends with ngtcp2 having nothing more, every packet
sent. -/
def drainsDry : List (WritevAnswer × Option RubyError) → Bool
  | [] => false
  | (answer, sendRaises) :: rest =>
    match answer.result with
    | .error _ => false
    | .ok packet => packet.isEmpty || (sendRaises.isNone && drainsDry rest)

/-- The timer is due when the round looks at the clock. -/
def TimedRound.due (round : TimedRound) : Bool :=
  round.expiry ≠ 0xFFFFFFFFFFFFFFFF && round.expiry.toNat ≤ round.nowNs

/-- The wait ends with no datagram to read. -/
def TimedRound.quiet (round : TimedRound) : Bool :=
  round.waitFor.any fun wait => 0 ≤ wait && !round.arrival.any (· ≤ wait)

theorem drainPackets_dry (writes : List (WritevAnswer × Option RubyError)) (c : Client) :
    (∃ c', drainPackets writes c = some (.ok (), c')) ↔ drainsDry writes = true := by
  induction writes generalizing c with
  | nil => simp [drainPackets, drainsDry]
  | cons w rest ih =>
    obtain ⟨answer, sendRaises⟩ := w
    have hreply := writePkt_reply (fun _ => answer) (show (none : Option Encoding) ≠ some .other by simp) c
    simp only [drainPackets, drainsDry]
    cases hq : quicClientWritePkt (fun _ => answer) none c with
    | mk r c₁ =>
      rw [hq] at hreply
      cases hres : answer.result with
      | error rv =>
        simp only [hres] at hreply
        subst hreply
        simp
      | ok packet =>
        simp only [hres] at hreply
        subst hreply
        by_cases hnil : packet = []
        · simp [hnil]
        · cases sendRaises with
          | some e => simp [hnil]
          | none => simp [hnil, ih]

theorem ioSelect_quiet (round : TimedRound) :
    ioSelect round.arrival round.waitFor = some (.ok false) ↔ round.quiet = true := by
  unfold ioSelect TimedRound.quiet
  cases round.waitFor with
  | none => cases round.arrival <;> simp
  | some wait =>
    simp only [Option.any_some]
    by_cases hneg : wait < 0
    · simp [hneg, not_le.2 hneg]
    · simp [hneg, not_lt.1 hneg]

/-! ## Laps -/

/-- A round that came to an end: the connection before and after. -/
structure Lap where
  before : Connection
  round : TimedRound
  after : Connection

variable {net : Nat → Except RubyError RString}

/-- The rounds of a run, up to the first event not taken (a round that waits
for ever, for one). -/
def laps (net : Nat → Except RubyError RString) : List ConnEvent → Connection → List Lap
  | [], _ => []
  | e :: es, k =>
    match connStep net k e with
    | none => []
    | some (_, k') =>
      match e with
      | .pumpOnce round => ⟨k, round, k'⟩ :: laps net es k'
      | .client _ | .close .. | .enterDraining => laps net es k'

def ConnCall.isHandleExpiry : ConnCall → Bool
  | .handleExpiry _ => true
  | _ => false

namespace Lap

/-- It reached its wait: a socket is bound and everything was sent. -/
def waits (l : Lap) : Bool := l.before.client.sock.isSome && drainsDry l.round.writes

/-- It reached its wait with the timer due. -/
def due (l : Lap) : Bool := l.waits && l.round.due

/-- It called `handle_expiry`. -/
def handled (l : Lap) : Bool := (l.after.calls.drop l.before.calls.length).any ConnCall.isHandleExpiry

end Lap

theorem laps_round {es : List ConnEvent} {k : Connection} {l : Lap} (h : l ∈ laps net es k) :
    ∃ r, l.before.pumpOnce net l.round = some (r, l.after) := by
  induction es generalizing k with
  | nil => cases h
  | cons e es ih =>
    simp only [laps] at h
    split at h
    · cases h
    next r k' hst =>
    cases connStep_move hst with
    | client | close | enterDraining => exact ih h
    | pumpOnce hp =>
      rcases List.mem_cons.1 h with rfl | h
      · exact ⟨_, hp⟩
      · exact ih h

/-- A datagram handles no timer. -/
theorem receive_calls (net : Nat → Except RubyError RString) (sock : Nat) (round : TimedRound) (k : Connection) :
    (k.receive net sock round).2.calls = k.calls ∨
      ∃ path, (k.receive net sock round).2.calls = k.calls ++ [.readPkt path round.readRv] := by
  simp only [Connection.receive]
  split
  · exact .inl rfl
  rw [pumpLocal_eq]
  rcases pumpRemote_cases net sock { k with pumpLocalSockaddr := some k.pumpLocalAddr } with ⟨e, he⟩ | ⟨addr, -, he⟩
  · rw [he]
    exact .inl rfl
  · rw [he]
    exact .inr ⟨_, rfl⟩

/-- **What a round does at its wait.** The timer is handled exactly if no
datagram ends the wait, due or not. -/
theorem Lap.handled_iff {l : Lap} {r} (h : l.before.pumpOnce net l.round = some (r, l.after)) :
    l.handled = true ↔ l.waits = true ∧ l.round.quiet = true := by
  obtain ⟨k, round, k'⟩ := l
  simp only [Lap.handled, Lap.waits, Bool.and_eq_true] at h ⊢
  rw [← ioSelect_quiet]
  simp only [Connection.pumpOnce] at h
  split at h
  · next hsock =>
    cases h
    simp [hsock]
  next sock hsock =>
  rw [← drainPackets_dry round.writes k.client]
  split at h
  · cases h
  · next e c hd =>
    cases h
    simp [hd]
  next c hd =>
  split at h
  · cases h
  · next e hsel =>
    cases h
    simp [hsel]
  · next hsel =>
    have hk' : k' = ({ k with client := c : Connection }.receive net sock round).2 :=
      congrArg Prod.snd (Option.some.inj h).symm
    rcases receive_calls net sock round { k with client := c } with hcalls | ⟨path, hcalls⟩
    · simp [hk', hcalls, hsel]
    · simp [hk', hcalls, hsel, ConnCall.isHandleExpiry]
  · next hsel =>
    cases h
    simp [Connection.log, hsel, hsock, hd, ConnCall.isHandleExpiry]

/-! ## Due timers -/

/-- A timer due at the wait of a round is handled in that round or in the
next. -/
def TimersHandled (ls : List Lap) : Prop :=
  ∀ a b, [a, b] <:+: ls → a.due = true → a.handled = true ∨ b.handled = true

/-- **Due timers are handled** exactly if the wait that finds one due, or the
next, meets no datagram. -/
theorem timersHandled_iff (net : Nat → Except RubyError RString) (es : List ConnEvent) (k : Connection) :
    TimersHandled (laps net es k) ↔ ∀ a b, [a, b] <:+: laps net es k → a.due = true →
      a.round.quiet = true ∨ b.waits = true ∧ b.round.quiet = true := by
  refine forall₂_congr fun a b => forall₂_congr fun hab hdue => ?_
  obtain ⟨ra, ha⟩ := laps_round (hab.subset List.mem_cons_self)
  obtain ⟨rb, hb⟩ := laps_round (hab.subset (List.mem_cons_of_mem _ List.mem_cons_self))
  rw [Lap.handled_iff ha, Lap.handled_iff hb]
  have hwaits : a.waits = true := (Bool.and_eq_true_iff.1 hdue).1
  simp only [hwaits, true_and]

/-! ## A steady flow of datagrams -/

/-- A round that everything is sent in and that finds a datagram, whenever its
timer is. -/
structure TimedRound.Busy (round : TimedRound) : Prop where
  dry : drainsDry round.writes = true
  timeout : ∀ wait, round.timeout = some wait → 0 ≤ wait
  arrival : ∃ arrival, round.arrival = some arrival ∧ arrival ≤ 0

theorem pumpTimeout_nonneg {expiry : Option UInt64} {nowNs : Nat} {timeout : Option Rat}
    (h : ∀ wait, timeout = some wait → 0 ≤ wait) {wait : Rat} (hw : pumpTimeout expiry nowNs timeout = some wait) :
    0 ≤ wait := by
  cases expiry with
  | none => exact h wait hw
  | some t =>
    cases timeout with
    | none =>
      cases hw
      exact le_max_right _ _
    | some callerTimeout =>
      cases hw
      exact le_min (h callerTimeout rfl) (le_max_right _ _)

theorem TimedRound.Busy.select {round : TimedRound} (h : round.Busy) :
    ioSelect round.arrival round.waitFor = some (.ok true) := by
  obtain ⟨arrival, harrival, hnow⟩ := h.arrival
  unfold ioSelect
  cases hw : round.waitFor with
  | none => rw [harrival]; rfl
  | some wait =>
    have hnonneg : 0 ≤ wait := pumpTimeout_nonneg h.timeout hw
    simp [harrival, not_lt.2 hnonneg, le_trans hnow hnonneg]

/-- A busy round comes to an end, and handles no timer. -/
theorem TimedRound.Busy.pumpOnce {round : TimedRound} (h : round.Busy) (net : Nat → Except RubyError RString)
    {k : Connection} (hbound : k.client.sock.isSome = true) :
    ∃ r k', k.pumpOnce net round = some (r, k') ∧ k'.client.sock.isSome = true ∧
      (⟨k, round, k'⟩ : Lap).waits = true ∧ (⟨k, round, k'⟩ : Lap).handled = false := by
  obtain ⟨sock, hsock⟩ := Option.isSome_iff_exists.1 hbound
  obtain ⟨c, hd⟩ := (drainPackets_dry round.writes k.client).2 h.dry
  have hp : k.pumpOnce net round = some ({ k with client := c : Connection }.receive net sock round) := by
    simp only [Connection.pumpOnce, hsock, hd, h.select]
  generalize hres : { k with client := c : Connection }.receive net sock round = res at hp
  obtain ⟨r, k'⟩ := res
  obtain ⟨-, wakeup, hclient⟩ := pumpOnce_cases hp
  refine ⟨r, k', hp, by rw [pumpOnce_sock hclient]; exact hbound, by simp [Lap.waits, hbound, h.dry], ?_⟩
  have hquiet : round.quiet ≠ true := fun hq => by
    rw [← ioSelect_quiet, h.select] at hq
    cases hq
  exact Bool.eq_false_iff.2 fun hhandled => hquiet ((Lap.handled_iff (l := ⟨k, round, k'⟩) hp).1 hhandled).2

/-- **A steady flow puts the timer off**: in as many busy rounds as there are,
each of them ends and none handles the timer. -/
theorem busy_never_handled {rounds : List TimedRound} (hbusy : ∀ round ∈ rounds, round.Busy)
    (net : Nat → Except RubyError RString) {k : Connection} (hbound : k.client.sock.isSome = true) :
    (laps net (rounds.map .pumpOnce) k).map Lap.round = rounds ∧
      ∀ l ∈ laps net (rounds.map .pumpOnce) k, l.waits = true ∧ l.handled = false := by
  induction rounds generalizing k with
  | nil => exact ⟨rfl, fun _ h => (by cases h)⟩
  | cons round rounds ih =>
    obtain ⟨r, k', hp, hbound', hlap⟩ := (hbusy round List.mem_cons_self).pumpOnce net hbound
    obtain ⟨hrounds, hall⟩ := ih (fun round hm => hbusy round (List.mem_cons_of_mem _ hm)) hbound'
    have hlaps : laps net ((round :: rounds).map .pumpOnce) k =
        ⟨k, round, k'⟩ :: laps net (rounds.map .pumpOnce) k' := by
      simp only [List.map_cons, laps, connStep, hp, Option.map_some]
    rw [hlaps]
    refine ⟨by rw [List.map_cons, hrounds], fun l hl => ?_⟩
    rcases List.mem_cons.1 hl with rfl | hl
    · exact hlap
    · exact hall l hl

/-- A round whose timer has been due for 1 ns, with a datagram to read. -/
def lateRound : TimedRound := { writes := [(⟨.ok [], -1⟩, none)], expiry := 1, nowNs := 2, arrival := some 0 }

/-- So a due timer can be passed over in two rounds running. -/
theorem timers_not_handled : ¬ ∀ (net : Nat → Except RubyError RString) (es : List ConnEvent) (k : Connection),
    TimersHandled (laps net es k) := by
  intro hall
  let net : Nat → Except RubyError RString := fun _ => .ok loopbackConnection.path.remoteAddr
  have hbusy : ∀ round ∈ [lateRound, lateRound], round.Busy := by
    intro round hm
    obtain rfl : round = lateRound := by simpa using hm
    exact ⟨rfl, fun _ h => (by cases h), 0, rfl, le_rfl⟩
  obtain ⟨hrounds, hlate⟩ := busy_never_handled hbusy net
    (k := { loopbackConnection with client := { sock := some 0 } }) rfl
  obtain ⟨a, ls, heq, ha, hls⟩ := List.map_eq_cons_iff.1 hrounds
  obtain ⟨b, ls, rfl, -, hls⟩ := List.map_eq_cons_iff.1 hls
  obtain rfl := List.map_eq_nil_iff.1 hls
  have hhandled := hall net _ _ a b (by rw [heq])
  rw [heq] at hlate
  obtain ⟨hwaits, hpassed⟩ := hlate a (by simp)
  have hdue : a.due = true := by
    rw [Lap.due, hwaits, ha]
    decide
  rcases hhandled hdue with h | h
  · rw [hpassed] at h
    cases h
  · rw [(hlate b (by simp)).2] at h
    cases h

end QuicRuby
