/-
The blocking operations (lib/quic/connection.rb, lib/quic/stream.rb, and
the loop of `quic_stream_write_m`): `pump_once` sends what there is to send
and waits for a datagram or a timer, and the blocking calls repeat it.

A loop runs against a script of what its rounds meet. `none` means that the
script ran out and the loop is still waiting: a call that never returns is
one that gives `none` on every script.
-/
import QuicRuby.SystemFacts
import QuicRuby.Lib.Loop

namespace QuicRuby

open Runs Loops

/-- How the wait of a round ends: a datagram, with the callbacks `read_pkt`
makes and what it returns; `recvfrom` raising; or the timer. -/
inductive Wakeup
  | datagram (callbacks : List Callback) (rv : Option Ngtcp2Error)
  | recvfromRaises (e : RubyError)
  | timeout (rv : Option Ngtcp2Error)

/-- What a round meets: ngtcp2's answers to its `write_pkt` calls, each with
what `send` raises for the packet, if anything, and the wakeup. -/
structure PumpRound where
  writes : List (WritevAnswer × Option RubyError)
  wakeup : Wakeup

/-- The callbacks of a round, in order. -/
def PumpRound.callbacks (round : PumpRound) : List Callback :=
  match round.wakeup with
  | .datagram callbacks _ => callbacks
  | _ => []

def notBound : RubyError := .mkText .notBound "Quic::Connection::Client#bind(sock) has not been called"

/-- `while (pkt = write_pkt); @sock.send(pkt, 0); end`. -/
def drainPackets : List (WritevAnswer × Option RubyError) → Client → Option (Except RubyError Unit × Client)
  | [], _ => none
  | (answer, sendRaises) :: rest, c =>
    match quicClientWritePkt (fun _ => answer) none c with
    | (.error e, c) => some (.error e, c)
    | (.ok none, c) => some (.ok (), c)
    | (.ok (some _), c) =>
      match sendRaises with
      | some e => some (.error e, c)
      | none => drainPackets rest c

/-- What a call that returns `rv` raises. -/
def raiseUnlessZero : Option Ngtcp2Error → Except RubyError Unit
  | none => .ok ()
  | some rv => .error (quicRaiseNgtcp2Error rv)

/-- `Client#read_pkt`, of a datagram that makes these callbacks. -/
def quicClientReadPkt (callbacks : List Callback) (rv : Option Ngtcp2Error) (c : Client) :
    Except RubyError Unit × Client :=
  (raiseUnlessZero rv, callbacks.foldl runCallback c)

/-- `Client#pump_once`. -/
def pumpOnce (round : PumpRound) (c : Client) : Option (Except RubyError Unit × Client) :=
  if c.sock.isNone then some (.error notBound, c)
  else
    match drainPackets round.writes c with
    | none => none
    | some (.error e, c) => some (.error e, c)
    | some (.ok (), c) =>
      match round.wakeup with
      | .datagram callbacks rv => some (quicClientReadPkt callbacks rv c)
      | .recvfromRaises e => some (.error e, c)
      | .timeout rv => some (raiseUnlessZero rv, c)

/-- `Client#pump_until`. Also returns the rounds it left over. -/
def pumpUntil (pred : Client → Bool) :
    List PumpRound → Client → Option (Except RubyError Unit × Client × List PumpRound)
  | rounds, c =>
    if pred c then some (.ok (), c, rounds)
    else
      match rounds with
      | [] => none
      | round :: rounds =>
        match pumpOnce round c with
        | none => none
        | some (.error e, c) => some (.error e, c, rounds)
        | some (.ok (), c) => pumpUntil pred rounds c

/-- The loop of `Stream#write`: each turn looks at the window and pumps
unless it holds the payload. -/
def streamWrite (ref : Nat) (data : RString) (fin : Bool) :
    List (UInt64 × UInt64) → List PumpRound → Client → Option (Except RubyError Nat × Client)
  | [], _, _ => none
  | (streamLeft, connLeft) :: windows, rounds, c =>
    match c.objs[ref]? with
    | none => none
    | some s =>
      match quicStreamWriteM s data fin streamLeft connLeft, rounds with
      | some (r, s'), _ => some (r, c.modify ref fun _ => s')
      | none, [] => none
      | none, round :: rounds =>
        match pumpOnce round c with
        | none => none
        | some (.error e, c) => some (.error e, c)
        | some (.ok (), c) => streamWrite ref data fin windows rounds c

/-- `@accept_queue.shift`. -/
def shiftAcceptQueue (c : Client) : Option Nat × Client :=
  match c.acceptQueue with
  | [] => (none, c)
  | ref :: rest => (some ref, { c with acceptQueue := rest })

/-- The loop of `Client#accept_stream`. A turn reads the monotonic clock if
there is a deadline, and makes a round unless the deadline has passed. -/
def acceptLoop (deadline : Option Rat) : List (Rat × PumpRound) → Client →
    Option (Except RubyError (Option Nat) × Client)
  | [], _ => none
  | (now, round) :: turns, c =>
    if deadline.any (fun deadline => deadline - now ≤ 0) then some (.ok none, c)
    else
      match pumpOnce round c with
      | none => none
      | some (.error e, c) => some (.error e, c)
      | some (.ok (), c) =>
        match shiftAcceptQueue c with
        | (some ref, c) => some (.ok (some ref), c)
        | (none, c) => acceptLoop deadline turns c

/-- `Client#accept_stream`: `start` is the clock when the deadline is set.
`none` in a reply is nil. -/
def acceptStream (timeout : Option Rat) (start : Rat) (turns : List (Rat × PumpRound)) (c : Client) :
    Option (Except RubyError (Option Nat) × Client) :=
  match shiftAcceptQueue c with
  | (some ref, c) => some (.ok (some ref), c)
  | (none, c) =>
    if timeout = some 0 then some (.ok none, c) else acceptLoop (timeout.map fun timeout => start + timeout) turns c

/-- Rounds that all complete, one after the other. -/
def pumpAll : List PumpRound → Client → Option Client
  | [], c => some c
  | round :: rounds, c =>
    match pumpOnce round c with
    | some (.ok (), c) => pumpAll rounds c
    | _ => none

/-- `pump_until` is a loop over the rounds. -/
theorem pumpUntil_eq (pred : Client → Bool) (rounds : List PumpRound) (c : Client) :
    pumpUntil pred rounds c = loopUntil pred pumpOnce rounds c := by
  induction rounds generalizing c with
  | nil => unfold pumpUntil loopUntil; rfl
  | cons round rounds ih =>
    unfold pumpUntil loopUntil
    cases hp : pumpOnce round c with
    | none => simp only [hp]
    | some res =>
      obtain ⟨r, c₁⟩ := res
      cases r with
      | error e => simp only [hp]
      | ok u => simp only [hp, ih]

theorem pumpUntil_ready {pred : Client → Bool} {c : Client} (h : pred c = true) (rounds : List PumpRound) :
    pumpUntil pred rounds c = some (.ok (), c, rounds) := by
  unfold pumpUntil
  rw [if_pos h]

theorem pumpUntil_waiting {pred : Client → Bool} {c : Client} (h : pred c = false) :
    pumpUntil pred [] c = none := by
  unfold pumpUntil
  simp [h]

theorem pumpUntil_round {pred : Client → Bool} {c c' : Client} {round : PumpRound} (h : pred c = false)
    (hp : pumpOnce round c = some (.ok (), c')) (rounds : List PumpRound) :
    pumpUntil pred (round :: rounds) c = pumpUntil pred rounds c' := by
  rw [pumpUntil]
  simp [h, hp]

/-! ## Stream#read -/

/-- A String returned was taken off a buffer that had some bytes. -/
theorem readNonblock_shrinks {s s' : QuicStream} {bytes : List UInt8}
    (h : quicStreamReadNonblockM s 4096 = (.ok bytes, s')) : s'.recvBuffer.length < s.recvBuffer.length := by
  rw [quicStreamReadNonblockM_eq s (by decide) (by decide)] at h
  split at h
  · cases h
  · next hne =>
    cases h
    have := List.length_pos_iff.2 hne
    simp only [List.length_drop]
    omega

/-- `until eof?; out << read_nonblock(4096); end`. -/
def readUntilEof (s : QuicStream) (out : List UInt8) : Except RubyError (List UInt8) × QuicStream :=
  if quicStreamEofP s then (.ok out, s)
  else
    match _h : quicStreamReadNonblockM s 4096 with
    | (.error e, s') => (.error e, s')
    | (.ok bytes, s') => readUntilEof s' (out ++ bytes)
termination_by s.recvBuffer.length
decreasing_by exact readNonblock_shrinks _h

/-- The final loop, which ends at `WaitReadable` or `EOFError`. -/
def readRest (s : QuicStream) (out : List UInt8) : Except RubyError (List UInt8) × QuicStream :=
  match _h : quicStreamReadNonblockM s 4096 with
  | (.error e, s') => if e.cls = .waitReadable ∨ e.cls = .eofError then (.ok out, s') else (.error e, s')
  | (.ok bytes, s') => readRest s' (out ++ bytes)
termination_by s.recvBuffer.length
decreasing_by exact readNonblock_shrinks _h

/-- `read(nil)`, after the pumping. -/
def readAll (s : QuicStream) : Except RubyError (List UInt8) × QuicStream :=
  match readUntilEof s [] with
  | (.error e, s) => (.error e, s)
  | (.ok out, s) => readRest s out

/-- `read(length)`, after the pumping: nil at the end of the stream. -/
def readSome (s : QuicStream) (length : Int) : Except RubyError (Option (List UInt8)) × QuicStream :=
  match quicStreamReadNonblockM s length with
  | (.ok bytes, s) => (.ok (some bytes), s)
  | (.error e, s) => if e.cls = .eofError then (.ok none, s) else (.error e, s)

/-- `@fin_received`, which the predicate of `read(length)` reads. No code sets
this instance variable (`fin_received` is a field of the C struct), so it is
nil. -/
def QuicStream.ivarFinReceived (_ : QuicStream) : Bool := false

/-- What `read` waits for. -/
def readReady (ref : Nat) (length : Option Int) (c : Client) : Bool :=
  match c.objs[ref]?, length with
  | none, _ => false
  | some s, none => quicStreamEofP s
  | some s, some _ => 0 < s.recvBuffer.length || s.ivarFinReceived

/-- `Stream#read`. Also returns the rounds it left over. -/
def streamRead (ref : Nat) (length : Option Int) (rounds : List PumpRound) (c : Client) :
    Option (Except RubyError (Option (List UInt8)) × Client × List PumpRound) :=
  match pumpUntil (readReady ref length) rounds c with
  | none => none
  | some (.error e, c, rest) => some (.error e, c, rest)
  | some (.ok (), c, rest) =>
    c.objs[ref]?.map fun s =>
      let (r, s') := match length with
        | none => ((readAll s).1.map some, (readAll s).2)
        | some n => readSome s n
      (r, c.modify ref fun _ => s', rest)

/-! ## Rounds are runs -/

/-- What a round does to the client: `write_pkt` calls and callbacks. -/
def PumpEvents : ClientContract := fun _ _ e => (∃ answer, e = .writePkt none answer) ∨ ∃ cb, e = .callback cb

section
/- A contract that `write_pkt` meets, and the callbacks that are still to come
if they come in order; `J` is what is known of those. -/
variable {K : ClientContract} {J : ClientTrace → List Callback → Prop}
  (hwrite : ∀ tr c answer r cbs, J tr cbs →
    K tr c (.writePkt none answer) ∧ J (tr ++ [(.writePkt none answer, r)]) cbs)
  (hcb : ∀ tr c cb cbs, J tr (cb :: cbs) → K tr c (.callback cb) ∧ J (tr ++ [(.callback cb, .ok .nil)]) cbs)
include hwrite

theorem drainPackets_run {writes : List (WritevAnswer × Option RubyError)} {c : Client} {r c'}
    (h : drainPackets writes c = some (r, c')) {tr : ClientTrace} {cbs : List Callback} (hJ : J tr cbs) :
    ∃ tr', Steps step (K.and PumpEvents) tr c tr' c' ∧ J tr' cbs := by
  induction writes generalizing c tr with
  | nil => cases h
  | cons w rest ih =>
    obtain ⟨answer, sendRaises⟩ := w
    have hst : step c (.writePkt none answer) = some ((quicClientWritePkt (fun _ => answer) none c).1.map .ofPacket,
        (quicClientWritePkt (fun _ => answer) none c).2) := rfl
    obtain ⟨hk, hJ'⟩ := hwrite tr c answer ((quicClientWritePkt (fun _ => answer) none c).1.map .ofPacket) cbs hJ
    have hone := Steps.one (K := K.and PumpEvents) ⟨hk, .inl ⟨answer, rfl⟩⟩ hst
    simp only [drainPackets] at h
    split at h
    · next hq => cases h; rw [hq] at hone hJ'; exact ⟨_, hone, hJ'⟩
    · next hq => cases h; rw [hq] at hone hJ'; exact ⟨_, hone, hJ'⟩
    · next hq =>
      rw [hq] at hone hJ'
      split at h
      · cases h; exact ⟨_, hone, hJ'⟩
      · obtain ⟨tr', hrest, hJ''⟩ := ih h hJ'
        exact ⟨tr', hone.trans hrest, hJ''⟩

include hcb

omit hwrite in
theorem callbacks_run {callbacks cbs : List Callback} (c : Client) {tr : ClientTrace}
    (hJ : J tr (callbacks ++ cbs)) :
    ∃ tr', Steps step (K.and PumpEvents) tr c tr' (callbacks.foldl runCallback c) ∧ J tr' cbs := by
  induction callbacks generalizing c tr with
  | nil => exact ⟨tr, .refl, hJ⟩
  | cons cb rest ih =>
    obtain ⟨hk, hJ'⟩ := hcb tr c cb (rest ++ cbs) hJ
    have hone : Steps step (K.and PumpEvents) tr c (tr ++ [(.callback cb, .ok .nil)]) (runCallback c cb) :=
      .one ⟨hk, .inr ⟨cb, rfl⟩⟩ rfl
    obtain ⟨tr', hrest, hJ''⟩ := ih (runCallback c cb) hJ'
    exact ⟨tr', hone.trans hrest, hJ''⟩

/-- **A round of `pump_once` is a run of the machine**, whose callbacks are
the first of those to come. -/
theorem pumpOnce_run {round : PumpRound} {c : Client} {r c'} (h : pumpOnce round c = some (r, c'))
    (tr : ClientTrace) (cbs : List Callback) (hJ : J tr (round.callbacks ++ cbs)) :
    ∃ tr', Steps step (K.and PumpEvents) tr c tr' c' ∧ (r = .ok () → J tr' cbs) := by
  unfold pumpOnce at h
  split at h
  · cases h; exact ⟨tr, .refl, fun hr => (by cases hr)⟩
  split at h
  · cases h
  · next hd =>
    cases h
    obtain ⟨tr₁, h₁, -⟩ := drainPackets_run hwrite hd hJ
    exact ⟨tr₁, h₁, fun hr => (by cases hr)⟩
  · next c₁ hd =>
    obtain ⟨tr₁, h₁, hJ₁⟩ := drainPackets_run hwrite hd hJ
    unfold PumpRound.callbacks at hJ₁
    split at h
    · next callbacks rv hw =>
      cases h
      simp only [hw] at hJ₁
      obtain ⟨tr₂, h₂, hJ₂⟩ := callbacks_run hcb c₁ hJ₁
      exact ⟨tr₂, h₁.trans h₂, fun _ => hJ₂⟩
    · cases h; exact ⟨tr₁, h₁, fun hr => (by cases hr)⟩
    · next rv hw =>
      cases h
      simp only [hw] at hJ₁
      exact ⟨tr₁, h₁, fun _ => hJ₁⟩

end

theorem pumpOnce_steps {round : PumpRound} {c : Client} {r c'} (h : pumpOnce round c = some (r, c'))
    (tr : ClientTrace) :
    ∃ tr', Steps step PumpEvents tr c tr' c' := by
  obtain ⟨tr', hrun, -⟩ := pumpOnce_run (K := .any) (J := fun _ _ => True)
    (fun _ _ _ _ _ _ => ⟨trivial, trivial⟩) (fun _ _ _ _ _ => ⟨trivial, trivial⟩) h tr [] trivial
  exact ⟨tr', hrun.mono fun _ _ _ hk => hk.2⟩

/-- **The round rule.** What `write_pkt` and the callbacks of a round keep, the
round keeps. -/
theorem pumpOnce_keeps {I : Client → Prop} {round : PumpRound}
    (hwrite : ∀ answer c, I c → I (quicClientWritePkt (fun _ => answer) none c).2)
    (hcb : ∀ cb ∈ round.callbacks, ∀ c, I c → I (runCallback c cb)) {c : Client} {r c'}
    (hp : pumpOnce round c = some (r, c')) (h : I c) : I c' := by
  obtain ⟨tr', hrun, -⟩ := pumpOnce_run (K := fun _ _ e => ∀ cb, e = .callback cb → cb ∈ round.callbacks)
    (J := fun _ cbs => ∀ cb ∈ cbs, cb ∈ round.callbacks)
    (fun _ _ _ _ _ hJ => ⟨fun _ he => (by cases he), hJ⟩)
    (fun _ _ cb cbs hJ => ⟨fun _ he => by cases he; exact hJ cb List.mem_cons_self,
      fun cb' hm => hJ cb' (List.mem_cons_of_mem _ hm)⟩) hp [] [] (fun cb hm => by simpa using hm)
  refine hrun.invariant (I := fun _ c => I c) h ?_
  rintro tr c e r c' hI ⟨hround, hpump⟩ hst
  rcases hpump with ⟨answer, rfl⟩ | ⟨cb, rfl⟩
  · have hc' : c' = (quicClientWritePkt (fun _ => answer) none c).2 := by cases hst; rfl
    rw [hc']
    exact hwrite answer c hI
  · cases hst
    exact hcb cb (hround cb rfl) c hI

/-- A blocking `write` that comes back is a run of the machine. -/
theorem streamWrite_steps {ref : Nat} {data : RString} {fin : Bool} {windows : List (UInt64 × UInt64)}
    {rounds : List PumpRound} {c : Client} {r c'} (h : streamWrite ref data fin windows rounds c = some (r, c'))
    (tr : ClientTrace) : ∃ tr', Steps step .any tr c tr' c' := by
  induction windows generalizing rounds c tr with
  | nil => cases h
  | cons w windows ih =>
    obtain ⟨streamLeft, connLeft⟩ := w
    simp only [streamWrite] at h
    split at h
    · cases h
    next s hs =>
    split at h
    · next r' s' hw =>
      cases h
      have hst : step c (.write ref data fin streamLeft connLeft) =
          some (r.map .int, c.modify ref fun _ => s') := by
        simp only [step, hs, Option.bind_some, hw, Option.map_some]
      exact ⟨_, .one trivial hst⟩
    · cases h
    · split at h
      · cases h
      · next hp =>
        cases h
        obtain ⟨tr₁, h₁⟩ := pumpOnce_steps hp tr
        exact ⟨tr₁, h₁.mono fun _ _ _ _ => trivial⟩
      · next c₁ hp =>
        obtain ⟨tr₁, h₁⟩ := pumpOnce_steps hp tr
        obtain ⟨tr₂, h₂⟩ := ih h tr₁
        exact ⟨tr₂, (h₁.mono fun _ _ _ _ => trivial).trans h₂⟩

end QuicRuby
