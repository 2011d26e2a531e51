/-
`accept_stream` on time. Its loop reads the clock before each round and gives
`pump_once` what is left as its timeout, which bounds the wait of the round
whatever ngtcp2's timer says. So it answers nil only when the time is up, and
then not later than a round takes beyond its wait.
-/
import QuicRuby.ConnFacts
import QuicRuby.Lib.Deadline

namespace QuicRuby

open Loops

/-! ## accept_stream, with the clock -/

/-- `pump_once(timeout: remaining)`. -/
def TimedRound.within (round : TimedRound) (remaining : Rat) : TimedRound := { round with timeout := some remaining }

/-- How long the `IO.select` of a round takes: until a datagram is there, or
for as long as it is told to wait. -/
def TimedRound.waited (round : TimedRound) : Option Rat :=
  match round.waitFor with
  | none => round.arrival.map (max 0)
  | some wait => some ((round.arrival.map fun arrival => min wait (max 0 arrival)).getD wait)

namespace Connection

/-- `pump_once`, then `@accept_queue.shift`. -/
def pumpAndShift (net : Nat → Except RubyError RString) (round : TimedRound) (k : Connection) :
    Option (Except RubyError (Option Nat) × Connection) :=
  match k.pumpOnce net round with
  | none => none
  | some (.error e, k) => some (.error e, k)
  | some (.ok (), k) =>
    let (stream, c) := shiftAcceptQueue k.client
    some (.ok stream, { k with client := c })

/-- The loop of `accept_stream(timeout:)`: each turn has what the clock reads
and the round it makes. Also returns the turns it left over. -/
def acceptLoop (net : Nat → Except RubyError RString) (deadline : Rat) :
    List (Rat × TimedRound) → Connection →
      Option (Except RubyError (Option Nat) × Connection × List (Rat × TimedRound))
  | [], _ => none
  | (now, round) :: turns, k =>
    let remaining := deadline - now
    if remaining ≤ 0 then some (.ok none, k, (now, round) :: turns)
    else
      match k.pumpAndShift net (round.within remaining) with
      | none => none
      | some (.error e, k) => some (.error e, k, turns)
      | some (.ok (some ref), k) => some (.ok (some ref), k, turns)
      | some (.ok none, k) => acceptLoop net deadline turns k

/-- `accept_stream(timeout: timeout)`, with `start` the clock when the deadline
is set. -/
def acceptStream (net : Nat → Except RubyError RString) (timeout start : Rat) (turns : List (Rat × TimedRound))
    (k : Connection) : Option (Except RubyError (Option Nat) × Connection × List (Rat × TimedRound)) :=
  match shiftAcceptQueue k.client with
  | (some ref, c) => some (.ok (some ref), { k with client := c }, turns)
  | (none, c) =>
    if timeout = 0 then some (.ok none, { k with client := c }, turns)
    else acceptLoop net (start + timeout) turns { k with client := c }

theorem acceptLoop_eq (net : Nat → Except RubyError RString) (deadline : Rat) (turns : List (Rat × TimedRound))
    (k : Connection) :
    acceptLoop net deadline turns k =
      deadlineLoop (fun remaining round k => k.pumpAndShift net (round.within remaining)) deadline turns k := by
  induction turns generalizing k with
  | nil => rfl
  | cons turn turns ih =>
    obtain ⟨now, round⟩ := turn
    rw [acceptLoop, deadlineLoop]
    simp only [ih]
    split
    · rfl
    · rcases k.pumpAndShift net (round.within (deadline - now)) with _ | ⟨_ | _ | _, k₁⟩ <;> rfl

end Connection

/-- For the client it is the loop of `QuicRuby.acceptStream`, with the same
readings of the clock. -/
theorem acceptLoop_client {net : Nat → Except RubyError RString} {deadline : Rat}
    {turns rest : List (Rat × TimedRound)} {k k' : Connection} {r : Except RubyError (Option Nat)}
    (h : Connection.acceptLoop net deadline turns k = some (r, k', rest)) :
    ∃ turns', turns'.map Prod.fst = turns.map Prod.fst ∧
      acceptLoop (some deadline) turns' k.client = some (r, k'.client) := by
  -- What the turns left over meet does not matter.
  have hrest : ∀ turns : List (Rat × TimedRound),
      (turns.map fun turn => (turn.1, PumpRound.mk [] (.timeout none))).map Prod.fst = turns.map Prod.fst :=
    fun turns => by simp [Function.comp_def]
  induction turns generalizing k with
  | nil => cases h
  | cons turn turns ih =>
    obtain ⟨now, round⟩ := turn
    rw [Connection.acceptLoop] at h
    split at h
    · next hd =>
      cases h
      refine ⟨(now, ⟨[], .timeout none⟩) :: turns.map fun turn => (turn.1, ⟨[], .timeout none⟩), ?_, ?_⟩
      · rw [List.map_cons, List.map_cons, hrest]
      · rw [acceptLoop, if_pos (by simpa only [Option.any_some, decide_eq_true_eq] using hd)]
    next hd =>
    have hd' : ¬ (some deadline).any (fun d => decide (d - now ≤ 0)) = true := by
      simpa only [Option.any_some, decide_eq_true_eq] using hd
    unfold Connection.pumpAndShift at h
    cases hp : k.pumpOnce net (round.within (deadline - now)) with
    | none => simp only [hp] at h; cases h
    | some res =>
      obtain ⟨r₁, k₁⟩ := res
      obtain ⟨wakeup, hp'⟩ := pumpOnce_client hp
      rw [show (round.within (deadline - now)).writes = round.writes from rfl] at hp'
      rcases r₁ with e | _
      · simp only [hp] at h
        cases h
        exact ⟨(now, ⟨round.writes, wakeup⟩) :: rest.map fun turn => (turn.1, ⟨[], .timeout none⟩),
          by rw [List.map_cons, List.map_cons, hrest], by simp only [acceptLoop, if_neg hd', hp']⟩
      · simp only [hp] at h
        rcases hq : shiftAcceptQueue k₁.client with ⟨_ | ref, c⟩
        · simp only [hq] at h
          obtain ⟨turns', hfst, hloop⟩ := ih h
          exact ⟨(now, ⟨round.writes, wakeup⟩) :: turns', by rw [List.map_cons, List.map_cons, hfst],
            by simpa only [acceptLoop, if_neg hd', hp', hq] using hloop⟩
        · simp only [hq] at h
          cases h
          exact ⟨(now, ⟨round.writes, wakeup⟩) :: rest.map fun turn => (turn.1, ⟨[], .timeout none⟩),
            by rw [List.map_cons, List.map_cons, hrest], by simp only [acceptLoop, if_neg hd', hp', hq]⟩

theorem acceptStream_client {net : Nat → Except RubyError RString} {timeout start : Rat}
    {turns rest : List (Rat × TimedRound)} {k k' : Connection} {r : Except RubyError (Option Nat)}
    (h : k.acceptStream net timeout start turns = some (r, k', rest)) :
    ∃ turns', turns'.map Prod.fst = turns.map Prod.fst ∧
      acceptStream (some timeout) start turns' k.client = some (r, k'.client) := by
  unfold Connection.acceptStream at h
  rcases hq : shiftAcceptQueue k.client with ⟨_ | ref, c⟩
  · simp only [hq] at h
    split at h
    · next h0 =>
      cases h
      exact ⟨turns.map fun turn => (turn.1, ⟨[], .timeout none⟩), by simp [Function.comp_def],
        by simp [acceptStream, hq, h0]⟩
    · next h0 =>
      obtain ⟨turns', hfst, hloop⟩ := acceptLoop_client h
      exact ⟨turns', hfst, by simpa [acceptStream, hq, h0] using hloop⟩
  · simp only [hq] at h
    cases h
    exact ⟨turns.map fun turn => (turn.1, ⟨[], .timeout none⟩), by simp [Function.comp_def],
      by simp [acceptStream, hq]⟩

/-! ## The wait of a turn -/

/-- The wait is within the time that is left. -/
theorem waitFor_within (round : TimedRound) (remaining : Rat) :
    ∃ wait, (round.within remaining).waitFor = some wait ∧ wait ≤ remaining := by
  simp only [TimedRound.waitFor, TimedRound.within, pumpTimeout]
  split
  · exact ⟨remaining, rfl, le_rfl⟩
  · exact ⟨_, rfl, min_le_left _ _⟩

/-- How long a turn waits with so much time left. -/
def waitedWithin (remaining : Rat) (round : TimedRound) : Rat := ((round.within remaining).waited).getD 0

theorem waitedWithin_le (remaining : Rat) (round : TimedRound) :
    waitedWithin remaining round ≤ remaining := by
  obtain ⟨wait, hw, hle⟩ := waitFor_within round remaining
  simp only [waitedWithin, TimedRound.waited, hw, Option.getD_some]
  cases (round.within remaining).arrival with
  | none => exact hle
  | some arrival => exact (min_le_left _ _).trans hle

/-! ## On time -/

/-- The clock as the turns read it: the first is no earlier than the start and
at most `ε` later; from one to the next it moves on by what the round waits,
by `ε` more at most and by `τ` at least. -/
structure Clock (start deadline ε τ : Rat) (turns : List (Rat × TimedRound)) : Prop where
  first : ∀ turn ∈ turns.head?, start ≤ turn.1 ∧ turn.1 ≤ start + ε
  paced : Paced waitedWithin deadline ε τ turns

section
variable {net : Nat → Except RubyError RString}

/-- A round that brings no stream leaves the queue empty. -/
theorem pumpAndShift_none {round : TimedRound} {k k' : Connection}
    (h : k.pumpAndShift net round = some (.ok none, k')) :
    k.pumpOnce net round = some (.ok (), k') ∧ k'.client.acceptQueue = [] := by
  unfold Connection.pumpAndShift at h
  split at h
  · cases h
  · cases h
  · next k₁ hp =>
    simp only [Option.some.injEq, Prod.mk.injEq, Except.ok.injEq] at h
    obtain ⟨hnone, rfl⟩ := h
    have hempty : k₁.client.acceptQueue = [] := by
      unfold shiftAcceptQueue at hnone
      split at hnone
      · assumption
      · cases hnone
    have hsame : (shiftAcceptQueue k₁.client).2 = k₁.client := by simp only [shiftAcceptQueue, hempty]
    rw [hsame]
    exact ⟨hp, hempty⟩

/-- Rounds that complete, each within the time that is left, and leave the
queue empty. -/
inductive Unanswered (net : Nat → Except RubyError RString) (deadline : Rat) :
    Connection → List (Rat × TimedRound) → Connection → Prop
  | nil {k} : Unanswered net deadline k [] k
  | cons {k now round k₁ turns k'} : now < deadline →
      k.pumpOnce net (round.within (deadline - now)) = some (.ok (), k₁) → k₁.client.acceptQueue = [] →
      Unanswered net deadline k₁ turns k' → Unanswered net deadline k ((now, round) :: turns) k'

theorem Fruitless.unanswered {deadline : Rat} {turns : List (Rat × TimedRound)} {k k' : Connection}
    (h : Fruitless (fun remaining round k => k.pumpAndShift net (round.within remaining)) deadline k turns k') :
    Unanswered net deadline k turns k' := by
  induction h with
  | nil => exact .nil
  | cons hlt hb hf ih =>
    obtain ⟨hp, hempty⟩ := pumpAndShift_none hb
    exact .cons (by linarith) hp hempty ih

/-- **nil on time.** With a timeout that is not 0, `accept_stream` answers nil
after rounds that each left the queue empty, at the first reading of the clock
that is past the deadline; that reading is at most `ε` past it (or past the
start, for a deadline in the past), and all rounds but the last together took
less than the timeout. With enough turns to use up the time it always comes
back, if its rounds do. -/
theorem accept_on_time {timeout start ε τ : Rat} {turns : List (Rat × TimedRound)} {k : Connection}
    (hclock : Clock start (start + timeout) ε τ turns) (h0 : timeout ≠ 0) :
    (∀ k' rest, k.acceptStream net timeout start turns = some (.ok none, k', rest) →
      k.client.acceptQueue = [] ∧ ∃ pre now round more, turns = pre ++ (now, round) :: more ∧
        Unanswered net (start + timeout) k pre k' ∧ start + timeout ≤ now ∧ now ≤ max (start + timeout) start + ε ∧
        (pre ≠ [] → (pre.length - 1 : Nat) * τ < timeout)) ∧
    (turns ≠ [] → timeout ≤ (turns.length - 1 : Nat) * τ →
      (∀ turn ∈ turns, ∀ remaining (k : Connection), 0 < remaining →
        (k.pumpOnce net (turn.2.within remaining)).isSome = true) →
      (k.acceptStream net timeout start turns).isSome = true) := by
  have hsame : k.client.acceptQueue = [] → k.acceptStream net timeout start turns =
      Connection.acceptLoop net (start + timeout) turns k := by
    intro hempty
    simp only [Connection.acceptStream, shiftAcceptQueue, hempty, if_neg h0]
  constructor
  · intro k' rest h
    have hempty : k.client.acceptQueue = [] := by
      cases hq : k.client.acceptQueue with
      | nil => rfl
      | cons ref queue =>
        simp only [Connection.acceptStream, shiftAcceptQueue, hq] at h
        cases h
    rw [hsame hempty, Connection.acceptLoop_eq, deadlineLoop_nil_iff] at h
    obtain ⟨pre, now, round, more, rfl, rfl, hpast, hf⟩ := h
    refine ⟨hempty, pre, now, round, more, rfl, Fruitless.unanswered hf, hpast, ?_, fun hne => ?_⟩
    · refine hf.on_time (fun left round _ => waitedWithin_le left round) hclock.paced (fun turn hm => ?_)
        (by have := le_max_left (start + timeout) start; linarith)
      have hfirst := (hclock.first turn hm).2
      have := le_max_right (start + timeout) start
      linarith
    · cases pre with
      | nil => exact absurd rfl hne
      | cons turn pre =>
        have hcount := hf.count hclock.paced
        have hfirst := (hclock.first turn rfl).1
        simp only [List.length_cons, Nat.add_sub_cancel]
        linarith
  · intro hne henough hrounds
    cases hq : k.client.acceptQueue with
    | cons ref queue =>
      simp only [Connection.acceptStream, shiftAcceptQueue, hq]
      rfl
    | nil =>
      rw [hsame hq, Connection.acceptLoop_eq]
      cases turns with
      | nil => exact absurd rfl hne
      | cons turn turns =>
        have hfirst := (hclock.first turn rfl).1
        refine deadlineLoop_returns (fun turn' hm left k hleft => ?_) hclock.paced ?_
        · obtain ⟨⟨r, k₁⟩, hp⟩ := Option.isSome_iff_exists.1 (hrounds turn' hm left k hleft)
          simp only [Connection.pumpAndShift, hp]
          rcases r with e | _ <;> rfl
        · simp only [List.length_cons, Nat.add_sub_cancel] at henough
          linarith

end

/-- A connection with a socket. -/
def boundConnection : Connection := { loopbackConnection with client := { sock := some 3 } }

/-- A round in which nothing comes, and the clock again two seconds later. -/
def quietTurns : List (Rat × TimedRound) :=
  [(10, { writes := [(⟨.ok [], -1⟩, none)], expiry := 0xFFFFFFFFFFFFFFFF, nowNs := 0, arrival := none }),
   (12, { writes := [(⟨.ok [], -1⟩, none)], expiry := 0xFFFFFFFFFFFFFFFF, nowNs := 0, arrival := none })]

theorem quietTurns_clock : Clock 10 (10 + 2) (1 / 10) 2 quietTurns := by
  refine ⟨fun turn hm => ?_, ?_, ?_, trivial⟩
  · cases hm
    norm_num
  · norm_num
  · have hw : waitedWithin (10 + 2 - 10)
        { writes := [(⟨.ok [], -1⟩, none)], expiry := 0xFFFFFFFFFFFFFFFF, nowNs := 0, arrival := none } =
        10 + 2 - 10 := rfl
    rw [hw]
    norm_num

theorem accept_on_time_quietTurns :
    ∃ k' rest, boundConnection.acceptStream (fun _ => .ok anySockaddr) 2 10 quietTurns = some (.ok none, k', rest) ∧
      ∃ pre now round more, quietTurns = pre ++ (now, round) :: more ∧ 10 + 2 ≤ now ∧
        now ≤ max (10 + 2) 10 + 1 / 10 := by
  have hnil : ((boundConnection.acceptStream (fun _ => .ok anySockaddr) 2 10 quietTurns).any fun res =>
      res.1.toOption = some none) = true := by decide +kernel
  obtain ⟨⟨r, k', rest⟩, hr, hopt⟩ := (Option.any_eq_true _ _).1 hnil
  have hok : r = .ok none := by
    rcases r with e | stream
    · cases of_decide_eq_true hopt
    · rw [Option.some.inj (of_decide_eq_true hopt)]
  subst hok
  obtain ⟨-, pre, now, round, more, hturns, -, hpast, hlate, -⟩ :=
    (accept_on_time quietTurns_clock (by norm_num)).1 k' rest hr
  exact ⟨k', rest, hr, pre, now, round, more, hturns, hpast, hlate⟩

end QuicRuby
