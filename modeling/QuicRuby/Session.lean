/-
Programs that block. A session is a run of the calls as a Ruby program makes
them: the blocking `run`, `write`, `read`, `accept_stream` and `pump_once`,
each with the rounds it meets, among calls that do not block. Every such call
is a run of the client's machine, of `write_pkt` calls and callbacks with what
the call does itself at the end, and so a session unfolds into a run of that
machine in which the program gets the same bytes and streams. What is proved
of the client's runs thus holds of programs that block.
-/
import QuicRuby.Accept
import QuicRuby.BoundedRead
import QuicRuby.Echo
import QuicRuby.Lib.Unfold

namespace QuicRuby

open Runs Loops

/-! ## Client#run -/

/-- `pump_until { handshake_completed? }`: `completed` is what ngtcp2 answers
before each round. -/
def untilCompleted : List Bool → List PumpRound → Client → Option (Except RubyError Unit × Client)
  | [], _, _ => none
  | true :: _, _, c => some (.ok (), c)
  | false :: _, [], _ => none
  | false :: completed, round :: rounds, c =>
    match pumpOnce round c with
    | none => none
    | some (.error e, c) => some (.error e, c)
    | some (.ok (), c) => untilCompleted completed rounds c

/-- `Client#run`. -/
def clientRun (completed : List Bool) (rounds : List PumpRound) (c : Client) : Option (Except RubyError Unit × Client) :=
  if c.sock.isNone then some (.error notBound, c) else untilCompleted completed rounds c

/-! ## The program's machine -/

/-- A call of a program, with what its rounds meet; `event` is one that does
not block, or a callback. -/
inductive Call
  | event (e : Event)
  | pumpOnce (round : PumpRound)
  | run (completed : List Bool) (rounds : List PumpRound)
  | write (ref : Nat) (data : RString) (fin : Bool) (windows : List (UInt64 × UInt64)) (rounds : List PumpRound)
  | read (ref : Nat) (length : Option Int) (rounds : List PumpRound)
  | acceptStream (timeout : Option Rat) (start : Rat) (turns : List (Rat × PumpRound))

def RValue.ofRead : Option (List UInt8) → RValue
  | some bytes => .str bytes
  | none => .nil

def RValue.ofAccept : Option Nat → RValue
  | some ref => .stream ref
  | none => .nil

def callStep (c : Client) : Call → Option (Reply × Client)
  | .event e => step c e
  | .pumpOnce round => (pumpOnce round c).map fun (r, c') => (r.map .ofUnit, c')
  | .run completed rounds => (clientRun completed rounds c).map fun (r, c') => (r.map .ofUnit, c')
  | .write ref data fin windows rounds =>
    (streamWrite ref data fin windows rounds c).map fun (r, c') => (r.map .int, c')
  | .read ref length rounds => (streamRead ref length rounds c).map fun (r, c', _) => (r.map .ofRead, c')
  | .acceptStream timeout start turns =>
    (QuicRuby.acceptStream timeout start turns c).map fun (r, c') => (r.map .ofAccept, c')

abbrev SessionTrace := Trace Call Reply

/-! ## What a call does to the client -/

/-- The `write_pkt` calls of a round. -/
def drainTrace : List (WritevAnswer × Option RubyError) → Client → ClientTrace
  | [], _ => []
  | (answer, sendRaises) :: rest, c =>
    let res := quicClientWritePkt (fun _ => answer) none c
    (.writePkt none answer, res.1.map .ofPacket) ::
      match res.1, sendRaises with
      | .ok (some _), none => drainTrace rest res.2
      | _, _ => []

def callbackTrace (callbacks : List Callback) : ClientTrace := callbacks.map fun cb => (.callback cb, .ok .nil)

/-- A round. -/
def pumpTrace (round : PumpRound) (c : Client) : ClientTrace :=
  if c.sock.isNone then []
  else
    drainTrace round.writes c ++
      match drainPackets round.writes c with
      | some (.ok (), _) => callbackTrace round.callbacks
      | _ => []

/-- A round, and what comes after it if it completes. -/
def afterRound (round : PumpRound) (c : Client) (rest : Client → ClientTrace) : ClientTrace :=
  pumpTrace round c ++
    match pumpOnce round c with
    | some (.ok (), c') => rest c'
    | _ => []

def untilTrace (pred : Client → Bool) : List PumpRound → Client → ClientTrace
  | [], _ => []
  | round :: rounds, c => if pred c then [] else afterRound round c fun c => untilTrace pred rounds c

def completedTrace : List Bool → List PumpRound → Client → ClientTrace
  | false :: completed, round :: rounds, c => afterRound round c fun c => completedTrace completed rounds c
  | _, _, _ => []

def writeTrace (ref : Nat) (data : RString) (fin : Bool) :
    List (UInt64 × UInt64) → List PumpRound → Client → ClientTrace
  | [], _, _ => []
  | (streamLeft, connLeft) :: windows, rounds, c =>
    match c.objs[ref]? with
    | none => []
    | some s =>
      match quicStreamWriteM s data fin streamLeft connLeft, rounds with
      | some (r, _), _ => [(.write ref data fin streamLeft connLeft, r.map .int)]
      | none, [] => []
      | none, round :: rounds => afterRound round c fun c => writeTrace ref data fin windows rounds c

/-- `read` ends with one `read_nonblock`: `read(nil)` finds the buffer empty. -/
def readTrace (ref : Nat) (length : Option Int) (rounds : List PumpRound) (c : Client) : ClientTrace :=
  untilTrace (readReady ref length) rounds c ++
    match pumpUntil (readReady ref length) rounds c with
    | some (.ok (), c', _) =>
      match c'.objs[ref]? with
      | some s =>
        [(.readNonblock ref (length.getD 4096), (quicStreamReadNonblockM s (length.getD 4096)).1.map .str)]
      | none => []
    | _ => []

/-- What `@accept_queue.shift` finds. -/
def shiftTrace (c : Client) : ClientTrace :=
  match c.acceptQueue with
  | [] => []
  | ref :: _ => [(.acceptStreamNonblock, .ok (.stream ref))]

def acceptLoopTrace (deadline : Option Rat) : List (Rat × PumpRound) → Client → ClientTrace
  | [], _ => []
  | (now, round) :: turns, c =>
    if deadline.any (fun deadline => deadline - now ≤ 0) then []
    else
      afterRound round c fun c =>
        match (shiftAcceptQueue c).1 with
        | some _ => shiftTrace c
        | none => acceptLoopTrace deadline turns c

def acceptTrace (timeout : Option Rat) (start : Rat) (turns : List (Rat × PumpRound)) (c : Client) : ClientTrace :=
  match c.acceptQueue with
  | _ :: _ => shiftTrace c
  | [] => if timeout = some 0 then [] else acceptLoopTrace (timeout.map fun timeout => start + timeout) turns c

/-- The events of a call. -/
def callTrace (c : Client) : Call → ClientTrace
  | .event e =>
    match step c e with
    | some (r, _) => [(e, r)]
    | none => []
  | .pumpOnce round => pumpTrace round c
  | .run completed rounds => if c.sock.isNone then [] else completedTrace completed rounds c
  | .write ref data fin windows rounds => writeTrace ref data fin windows rounds c
  | .read ref length rounds => readTrace ref length rounds c
  | .acceptStream timeout start turns => acceptTrace timeout start turns c

/-! ## Each call is a run -/

/-- From one client to another by these events. -/
def Does (c : Client) (tr' : ClientTrace) (c' : Client) : Prop := ∀ tr, Steps step .any tr c (tr ++ tr') c'

theorem Does.nil (c : Client) : Does c [] c := fun tr => by
  rw [List.append_nil]
  exact .refl

theorem Does.one {c : Client} {e : Event} {r c'} (h : step c e = some (r, c')) : Does c [(e, r)] c' :=
  fun _ => .one trivial h

theorem Does.append {c c' c'' : Client} {tr₁ tr₂ : ClientTrace} (h₁ : Does c tr₁ c') (h₂ : Does c' tr₂ c'') :
    Does c (tr₁ ++ tr₂) c'' := fun tr => by
  rw [← List.append_assoc]
  exact (h₁ tr).trans (h₂ _)

theorem drainPackets_does {writes : List (WritevAnswer × Option RubyError)} {c : Client} {r c'}
    (h : drainPackets writes c = some (r, c')) : Does c (drainTrace writes c) c' := by
  induction writes generalizing c with
  | nil => cases h
  | cons w rest ih =>
    obtain ⟨answer, sendRaises⟩ := w
    have hone : Does c [(.writePkt none answer, (quicClientWritePkt (fun _ => answer) none c).1.map .ofPacket)]
        (quicClientWritePkt (fun _ => answer) none c).2 := .one rfl
    simp only [drainPackets] at h
    simp only [drainTrace]
    split at h
    · next hq => cases h; rw [hq] at hone ⊢; exact hone
    · next hq => cases h; rw [hq] at hone ⊢; exact hone
    · next hq =>
      rw [hq] at hone ⊢
      split at h
      · cases h; exact hone
      · exact hone.append (ih h)

theorem callbacks_does (callbacks : List Callback) (c : Client) :
    Does c (callbackTrace callbacks) (callbacks.foldl runCallback c) := by
  induction callbacks generalizing c with
  | nil => exact .nil c
  | cons cb rest ih => exact (Does.one (e := .callback cb) rfl).append (ih _)

theorem pumpOnce_does {round : PumpRound} {c : Client} {r c'} (h : pumpOnce round c = some (r, c')) :
    Does c (pumpTrace round c) c' := by
  unfold pumpOnce at h
  unfold pumpTrace
  split at h
  · next hsock => cases h; rw [if_pos hsock]; exact .nil c
  next hsock =>
  rw [if_neg hsock]
  split at h
  · cases h
  · next hd => cases h; rw [hd]; exact (drainPackets_does hd).append (.nil _)
  · next c₁ hd =>
    rw [hd]
    refine (drainPackets_does hd).append ?_
    unfold PumpRound.callbacks
    split at h
    · next hw => cases h; rw [hw]; exact callbacks_does _ _
    · next hw => cases h; rw [hw]; exact .nil _
    · next hw => cases h; rw [hw]; exact .nil _

/-- A round that raises ends the call. -/
theorem afterRound_raises {round : PumpRound} {c c' : Client} {e : RubyError} {rest : Client → ClientTrace}
    (h : pumpOnce round c = some (.error e, c')) : Does c (afterRound round c rest) c' := by
  rw [afterRound, h]
  exact (pumpOnce_does h).append (.nil _)

theorem afterRound_does {round : PumpRound} {c c₁ c' : Client} {rest : Client → ClientTrace}
    (h : pumpOnce round c = some (.ok (), c₁)) (hrest : Does c₁ (rest c₁) c') : Does c (afterRound round c rest) c' := by
  rw [afterRound, h]
  exact (pumpOnce_does h).append hrest

theorem pumpUntil_does {pred : Client → Bool} {rounds : List PumpRound} {c : Client} {r c' rest}
    (h : pumpUntil pred rounds c = some (r, c', rest)) : Does c (untilTrace pred rounds c) c' := by
  induction rounds generalizing c with
  | nil =>
    unfold pumpUntil at h
    split at h <;> cases h
    exact .nil _
  | cons round rounds ih =>
    unfold pumpUntil at h
    unfold untilTrace
    split at h
    · next hp => cases h; rw [if_pos hp]; exact .nil _
    next hp =>
    rw [if_neg hp]
    dsimp only at h
    split at h
    · cases h
    · next hr => cases h; exact afterRound_raises hr
    · next hr => exact afterRound_does hr (ih h)

theorem untilCompleted_does {completed : List Bool} {rounds : List PumpRound} {c : Client} {r c'}
    (h : untilCompleted completed rounds c = some (r, c')) : Does c (completedTrace completed rounds c) c' := by
  induction completed generalizing rounds c with
  | nil => cases h
  | cons b completed ih =>
    cases b with
    | true => cases h; exact .nil _
    | false =>
      cases rounds with
      | nil => cases h
      | cons round rounds =>
        simp only [untilCompleted] at h
        simp only [completedTrace]
        split at h
        · cases h
        · next hr => cases h; exact afterRound_raises hr
        · next hr => exact afterRound_does hr (ih h)

theorem streamWrite_does {ref : Nat} {data : RString} {fin : Bool} {windows : List (UInt64 × UInt64)}
    {rounds : List PumpRound} {c : Client} {r c'} (h : streamWrite ref data fin windows rounds c = some (r, c')) :
    Does c (writeTrace ref data fin windows rounds c) c' := by
  induction windows generalizing rounds c with
  | nil => cases h
  | cons w windows ih =>
    obtain ⟨streamLeft, connLeft⟩ := w
    simp only [streamWrite] at h
    simp only [writeTrace]
    cases hs : c.objs[ref]? with
    | none => simp only [hs] at h; cases h
    | some s =>
    simp only [hs] at h ⊢
    rcases hw : quicStreamWriteM s data fin streamLeft connLeft with _ | ⟨r', s'⟩
    · cases rounds with
      | nil => simp only [hw] at h; cases h
      | cons round rounds =>
        simp only [hw] at h ⊢
        split at h
        · cases h
        · next hr => cases h; exact afterRound_raises hr
        · next hr => exact afterRound_does hr (ih h)
    · simp only [hw] at h ⊢
      cases h
      exact .one (by simp only [step, hs, Option.bind_some, hw, Option.map_some])

/-- What `read` makes of its last `read_nonblock`. -/
def readReply (length : Option Int) : Except RubyError (List UInt8) → Except RubyError (Option (List UInt8))
  | .ok bytes => .ok (some bytes)
  | .error e =>
    match length with
    | none => .ok (some [])
    | some _ => if e.cls = .eofError then .ok none else .error e

theorem readNonblock_eof {s : QuicStream} (h : quicStreamEofP s = true) :
    quicStreamReadNonblockM s 4096 = (.error (.mkText .eofError "end of file reached"), s) := by
  have hempty : s.recvBuffer = [] ∧ s.finReceived = true := by simpa [quicStreamEofP] using h
  rw [quicStreamReadNonblockM_eq s (by decide) (by decide)]
  simp [hempty]

theorem readAll_ready {s : QuicStream} (h : quicStreamEofP s = true) :
    ((readAll s).1.map some, (readAll s).2) =
      (readReply none (quicStreamReadNonblockM s 4096).1, (quicStreamReadNonblockM s 4096).2) := by
  rw [readAll_eof h, readNonblock_eof h]
  rfl

theorem readSome_eq (s : QuicStream) (n : Int) :
    readSome s n = (readReply (some n) (quicStreamReadNonblockM s n).1, (quicStreamReadNonblockM s n).2) := by
  unfold readSome
  split
  · next hq => rw [hq]; rfl
  · next hq =>
    simp only [hq, readReply]
    split <;> rfl

theorem streamRead_cases {ref : Nat} {length : Option Int} {rounds : List PumpRound} {c : Client} {r c' rest}
    (h : streamRead ref length rounds c = some (r, c', rest)) :
    (∃ e, r = .error e ∧ pumpUntil (readReady ref length) rounds c = some (.error e, c', rest)) ∨
    ∃ c₁ s, pumpUntil (readReady ref length) rounds c = some (.ok (), c₁, rest) ∧ c₁.objs[ref]? = some s ∧
      readReady ref length c₁ = true ∧
      r = readReply length (quicStreamReadNonblockM s (length.getD 4096)).1 ∧
      c' = c₁.modify ref fun _ => (quicStreamReadNonblockM s (length.getD 4096)).2 := by
  unfold streamRead at h
  split at h
  · cases h
  · next e c₁ rest₁ hp => cases h; exact .inl ⟨e, rfl, hp⟩
  · next c₁ rest₁ hp =>
    obtain ⟨s, hs, heq⟩ := Option.map_eq_some_iff.1 h
    have hloop := hp
    rw [pumpUntil_eq, loopUntil_ok_iff] at hloop
    obtain ⟨-, -, -, hready⟩ := hloop
    cases length with
    | none =>
      have heof : quicStreamEofP s = true := by simpa [readReady, hs] using hready
      obtain ⟨hreply, hobj⟩ := Prod.mk.inj (readAll_ready heof)
      simp only [hreply, hobj] at heq
      cases heq
      exact .inr ⟨c₁, s, hp, hs, hready, rfl, rfl⟩
    | some n =>
      simp only [readSome_eq] at heq
      cases heq
      exact .inr ⟨c₁, s, hp, hs, hready, rfl, rfl⟩

theorem step_readNonblock {c : Client} {ref : Nat} {s : QuicStream} (hs : c.objs[ref]? = some s) (length : Int) :
    step c (.readNonblock ref length) = some ((quicStreamReadNonblockM s length).1.map .str,
      c.modify ref fun _ => (quicStreamReadNonblockM s length).2) := by
  have hobjs : (c.modify ref fun s => (quicStreamReadNonblockM s length).2) =
      c.modify ref fun _ => (quicStreamReadNonblockM s length).2 := by
    have hcongr := modify_congr (f := fun s => (quicStreamReadNonblockM s length).2)
      (g := fun _ => (quicStreamReadNonblockM s length).2) fun s' hs' => by rw [Option.some.inj (hs'.symm.trans hs)]
    simp only [Client.modify, hcongr]
  simp only [step, Client.call, hs, Option.map_some, quiet, Client.log, List.append_nil, hobjs]

theorem streamRead_does {ref : Nat} {length : Option Int} {rounds : List PumpRound} {c : Client} {r c' rest}
    (h : streamRead ref length rounds c = some (r, c', rest)) : Does c (readTrace ref length rounds c) c' := by
  unfold readTrace
  obtain ⟨e, -, hp⟩ | ⟨c₁, s, hp, hs, -, -, rfl⟩ := streamRead_cases h
  · rw [hp]
    exact (pumpUntil_does hp).append (.nil _)
  · rw [hp]
    simp only [hs]
    exact (pumpUntil_does hp).append (.one (step_readNonblock hs _))

theorem shiftAcceptQueue_does {c c' : Client} {r : Option Nat} (h : shiftAcceptQueue c = (r, c')) :
    Does c (shiftTrace c) c' := by
  cases hq : c.acceptQueue with
  | nil =>
    simp only [shiftAcceptQueue, shiftTrace, hq] at h ⊢
    cases h
    exact .nil _
  | cons ref rest =>
    simp only [shiftAcceptQueue, shiftTrace, hq] at h ⊢
    cases h
    exact .one (by simp only [step, acceptStreamNonblock, hq]; rfl)

/-- An empty queue is left as it was. -/
theorem shiftAcceptQueue_none {c c' : Client} (h : shiftAcceptQueue c = (none, c')) : c' = c := by
  unfold shiftAcceptQueue at h
  split at h <;> cases h
  rfl

theorem acceptLoop_does {deadline : Option Rat} {turns : List (Rat × PumpRound)} {c : Client} {r c'}
    (h : acceptLoop deadline turns c = some (r, c')) : Does c (acceptLoopTrace deadline turns c) c' := by
  induction turns generalizing c with
  | nil => cases h
  | cons turn turns ih =>
    obtain ⟨now, round⟩ := turn
    simp only [acceptLoop] at h
    simp only [acceptLoopTrace]
    split at h
    · next hd => cases h; rw [if_pos hd]; exact .nil _
    next hd =>
    rw [if_neg hd]
    split at h
    · cases h
    · next hr => cases h; exact afterRound_raises hr
    · next c₁ hr =>
      refine afterRound_does hr ?_
      split at h
      · next hq => cases h; rw [hq]; exact shiftAcceptQueue_does hq
      · next c₂ hq =>
        have hsame : c₂ = c₁ := shiftAcceptQueue_none hq
        rw [hq]
        exact ih (hsame ▸ h)

theorem acceptStream_does {timeout : Option Rat} {start : Rat} {turns : List (Rat × PumpRound)} {c : Client} {r c'}
    (h : QuicRuby.acceptStream timeout start turns c = some (r, c')) :
    Does c (acceptTrace timeout start turns c) c' := by
  unfold QuicRuby.acceptStream at h
  unfold acceptTrace
  cases hq : c.acceptQueue with
  | cons ref queue =>
    simp only [shiftAcceptQueue, hq] at h ⊢
    cases h
    exact shiftAcceptQueue_does (r := some ref) (by simp only [shiftAcceptQueue, hq])
  | nil =>
    simp only [shiftAcceptQueue, hq] at h ⊢
    split at h
    · next ht => cases h; rw [if_pos ht]; exact .nil _
    · next ht => rw [if_neg ht]; exact acceptLoop_does h

/-- **Each call is a run of the client's machine.** -/
theorem callStep_layers : Layers callStep callTrace step := by
  intro c call r c' h
  suffices hdoes : Does c (callTrace c call) c' from hdoes
  cases call with
  | event e =>
    have hs : step c e = some (r, c') := h
    simp only [callTrace, hs]
    exact .one hs
  | pumpOnce round =>
    obtain ⟨⟨r', c₁⟩, hp, heq⟩ := Option.map_eq_some_iff.1 h
    cases heq
    exact pumpOnce_does hp
  | run completed rounds =>
    obtain ⟨⟨r', c₁⟩, hp, heq⟩ := Option.map_eq_some_iff.1 h
    cases heq
    simp only [callTrace]
    unfold clientRun at hp
    split at hp
    · next hsock => cases hp; rw [if_pos hsock]; exact .nil _
    · next hsock => rw [if_neg hsock]; exact untilCompleted_does hp
  | write ref data fin windows rounds =>
    obtain ⟨⟨r', c₁⟩, hp, heq⟩ := Option.map_eq_some_iff.1 h
    cases heq
    exact streamWrite_does hp
  | read ref length rounds =>
    obtain ⟨⟨r', c₁, rest⟩, hp, heq⟩ := Option.map_eq_some_iff.1 h
    cases heq
    exact streamRead_does hp
  | acceptStream timeout start turns =>
    obtain ⟨⟨r', c₁⟩, hp, heq⟩ := Option.map_eq_some_iff.1 h
    cases heq
    exact acceptStream_does hp

/-! ## What a call does itself -/

/-- What a round consists of. -/
def Event.isPump : Event → Bool
  | .writePkt none _ | .callback _ => true
  | _ => false

/-- The events that are no round's. -/
def ownEvents (tr : ClientTrace) : ClientTrace := tr.filter fun x => !x.1.isPump

@[simp] theorem ownEvents_append (tr tr' : ClientTrace) : ownEvents (tr ++ tr') = ownEvents tr ++ ownEvents tr' :=
  List.filter_append ..

theorem drainTrace_own (writes : List (WritevAnswer × Option RubyError)) (c : Client) :
    ownEvents (drainTrace writes c) = [] := by
  induction writes generalizing c with
  | nil => rfl
  | cons w rest ih =>
    obtain ⟨answer, sendRaises⟩ := w
    simp only [drainTrace]
    rw [ownEvents, List.filter_cons_of_neg (by simp [Event.isPump])]
    split
    · exact ih _
    · rfl

theorem callbackTrace_own (callbacks : List Callback) : ownEvents (callbackTrace callbacks) = [] := by
  simp [ownEvents, callbackTrace, Event.isPump]

theorem pumpTrace_own (round : PumpRound) (c : Client) : ownEvents (pumpTrace round c) = [] := by
  unfold pumpTrace
  split
  · rfl
  rw [ownEvents_append, drainTrace_own, List.nil_append]
  split
  · exact callbackTrace_own _
  · rfl

theorem afterRound_own (round : PumpRound) (c : Client) (rest : Client → ClientTrace) :
    ownEvents (afterRound round c rest) =
      match pumpOnce round c with
      | some (.ok (), c') => ownEvents (rest c')
      | _ => [] := by
  rw [afterRound, ownEvents_append, pumpTrace_own, List.nil_append]
  split <;> rfl

theorem untilTrace_own (pred : Client → Bool) (rounds : List PumpRound) (c : Client) :
    ownEvents (untilTrace pred rounds c) = [] := by
  induction rounds generalizing c with
  | nil => rfl
  | cons round rounds ih =>
    rw [untilTrace]
    split
    · rfl
    rw [afterRound_own]
    split
    · exact ih _
    · rfl

theorem completedTrace_own (completed : List Bool) (rounds : List PumpRound) (c : Client) :
    ownEvents (completedTrace completed rounds c) = [] := by
  induction completed generalizing rounds c with
  | nil => rfl
  | cons b completed ih =>
    cases b with
    | true => rfl
    | false =>
      cases rounds with
      | nil => rfl
      | cons round rounds =>
        rw [completedTrace, afterRound_own]
        split
        · exact ih _ _
        · rfl

theorem writeTrace_own {ref : Nat} {data : RString} {fin : Bool} {windows : List (UInt64 × UInt64)}
    {rounds : List PumpRound} {c : Client} {r c'} (h : streamWrite ref data fin windows rounds c = some (r, c')) :
    (∃ streamLeft connLeft, ownEvents (writeTrace ref data fin windows rounds c) =
      [(.write ref data fin streamLeft connLeft, r.map .int)]) ∨
    ownEvents (writeTrace ref data fin windows rounds c) = [] ∧ ∃ e, r = .error e := by
  induction windows generalizing rounds c with
  | nil => cases h
  | cons w windows ih =>
    obtain ⟨streamLeft, connLeft⟩ := w
    simp only [streamWrite] at h
    simp only [writeTrace]
    cases hs : c.objs[ref]? with
    | none => simp only [hs] at h; cases h
    | some s =>
    simp only [hs] at h ⊢
    rcases hw : quicStreamWriteM s data fin streamLeft connLeft with _ | ⟨r', s'⟩
    · cases rounds with
      | nil => simp only [hw] at h; cases h
      | cons round rounds =>
        simp only [hw, afterRound_own] at h ⊢
        split at h
        · cases h
        · next e c₁ hr => cases h; exact .inr ⟨by rw [hr], e, rfl⟩
        · next hr => simp only [hr]; exact ih h
    · simp only [hw] at h ⊢
      cases h
      exact .inl ⟨streamLeft, connLeft, rfl⟩

theorem readTrace_own {ref : Nat} {length : Option Int} {rounds : List PumpRound} {c : Client} {r c' rest}
    (h : streamRead ref length rounds c = some (r, c', rest)) :
    (∃ res, ownEvents (readTrace ref length rounds c) = [(.readNonblock ref (length.getD 4096), res.map .str)] ∧
        r = readReply length res) ∨
      ownEvents (readTrace ref length rounds c) = [] ∧ ∃ e, r = .error e := by
  rw [readTrace, ownEvents_append, untilTrace_own, List.nil_append]
  obtain ⟨e, he, hp⟩ | ⟨c₁, s, hp, hs, -, hr, -⟩ := streamRead_cases h
  · rw [hp]
    exact .inr ⟨rfl, e, he⟩
  · rw [hp]
    simp only [hs]
    exact .inl ⟨_, rfl, hr⟩

theorem shiftTrace_own {c c' : Client} {r : Option Nat} (h : shiftAcceptQueue c = (r, c')) :
    ownEvents (shiftTrace c) = r.toList.map fun ref => (.acceptStreamNonblock, .ok (.stream ref)) := by
  cases hq : c.acceptQueue with
  | nil => simp only [shiftAcceptQueue, shiftTrace, hq] at h ⊢; cases h; rfl
  | cons ref rest => simp only [shiftAcceptQueue, shiftTrace, hq] at h ⊢; cases h; rfl

theorem acceptLoopTrace_own {deadline : Option Rat} {turns : List (Rat × PumpRound)} {c : Client} {r c'}
    (h : acceptLoop deadline turns c = some (r, c')) :
    ownEvents (acceptLoopTrace deadline turns c) =
      (acceptedIn r).map fun ref => (.acceptStreamNonblock, .ok (.stream ref)) := by
  induction turns generalizing c with
  | nil => cases h
  | cons turn turns ih =>
    obtain ⟨now, round⟩ := turn
    simp only [acceptLoop] at h
    simp only [acceptLoopTrace]
    split at h
    · next hd => cases h; rw [if_pos hd]; rfl
    next hd =>
    rw [if_neg hd, afterRound_own]
    split at h
    · cases h
    · next hr => cases h; rw [hr]; rfl
    · next c₁ hr =>
      simp only [hr]
      split at h
      · next ref c₂ hq =>
        cases h
        rw [hq]
        exact shiftTrace_own hq
      · next c₂ hq =>
        have hsame : c₂ = c₁ := shiftAcceptQueue_none hq
        rw [hq]
        exact ih (hsame ▸ h)

theorem acceptTrace_own {timeout : Option Rat} {start : Rat} {turns : List (Rat × PumpRound)} {c : Client} {r c'}
    (h : QuicRuby.acceptStream timeout start turns c = some (r, c')) :
    ownEvents (acceptTrace timeout start turns c) =
      (acceptedIn r).map fun ref => (.acceptStreamNonblock, .ok (.stream ref)) := by
  unfold QuicRuby.acceptStream at h
  unfold acceptTrace
  cases hq : c.acceptQueue with
  | cons ref queue =>
    simp only [shiftAcceptQueue, hq] at h ⊢
    cases h
    have hshift : shiftAcceptQueue c = (some ref, { c with acceptQueue := queue }) := by
      simp only [shiftAcceptQueue, hq]
    exact shiftTrace_own hshift
  | nil =>
    simp only [shiftAcceptQueue, hq] at h ⊢
    split at h
    · next ht => cases h; rw [if_pos ht]; rfl
    · next ht => rw [if_neg ht]; exact acceptLoopTrace_own h

/-- The events a call makes besides its rounds, and what it makes of their
replies. -/
inductive Own : Call → Reply → ClientTrace → Prop
  | event (e r) : Own (.event e) r (ownEvents [(e, r)])
  | pumpOnce (round r) : Own (.pumpOnce round) r []
  | run (completed rounds r) : Own (.run completed rounds) r []
  | write (ref data fin windows rounds streamLeft connLeft r) :
      Own (.write ref data fin windows rounds) r [(.write ref data fin streamLeft connLeft, r)]
  | read (ref length rounds) (res : Except RubyError (List UInt8)) :
      Own (.read ref length rounds) ((readReply length res).map .ofRead)
        [(.readNonblock ref (length.getD 4096), res.map .str)]
  | acceptStream (timeout start turns ref) :
      Own (.acceptStream timeout start turns) (.ok (.stream ref)) [(.acceptStreamNonblock, .ok (.stream ref))]
  | acceptNil (timeout start turns) : Own (.acceptStream timeout start turns) (.ok .nil) []
  | raises (call e) : (∀ e', call ≠ .event e') → Own call (.error e) []

theorem callTrace_own {c c' : Client} {call : Call} {r : Reply} (h : callStep c call = some (r, c')) :
    Own call r (ownEvents (callTrace c call)) := by
  cases call with
  | event e =>
    have hs : step c e = some (r, c') := h
    simp only [callTrace, hs]
    exact .event e r
  | pumpOnce round =>
    rw [callTrace, pumpTrace_own]
    exact .pumpOnce round r
  | run completed rounds =>
    have hown : ownEvents (callTrace c (.run completed rounds)) = [] := by
      rw [callTrace]
      split
      · rfl
      · exact completedTrace_own ..
    rw [hown]
    exact .run completed rounds r
  | write ref data fin windows rounds =>
    obtain ⟨⟨res, c₁⟩, hp, heq⟩ := Option.map_eq_some_iff.1 h
    cases heq
    obtain ⟨_, _, hown⟩ | ⟨hown, e, rfl⟩ := writeTrace_own hp
    · rw [callTrace, hown]
      exact .write ..
    · rw [callTrace, hown]
      exact .raises _ e nofun
  | read ref length rounds =>
    obtain ⟨⟨res, c₁, rest⟩, hp, heq⟩ := Option.map_eq_some_iff.1 h
    cases heq
    obtain ⟨last, hown, rfl⟩ | ⟨hown, e, rfl⟩ := readTrace_own hp
    · rw [callTrace, hown]
      exact .read ..
    · rw [callTrace, hown]
      exact .raises _ e nofun
  | acceptStream timeout start turns =>
    obtain ⟨⟨res, c₁⟩, hp, heq⟩ := Option.map_eq_some_iff.1 h
    cases heq
    rw [callTrace, acceptTrace_own hp]
    rcases res with e | _ | ref
    · exact .raises _ e nofun
    · exact .acceptNil ..
    · exact .acceptStream ..

/-- What rounds do not show, a trace shows in its other events. -/
theorem flatMap_ownEvents {α : Type} {f : Event × Reply → List α} (hf : ∀ x, x.1.isPump = true → f x = [])
    (tr : ClientTrace) : (ownEvents tr).flatMap f = tr.flatMap f := by
  induction tr with
  | nil => rfl
  | cons x tr ih =>
    cases hx : x.1.isPump with
    | true => rw [ownEvents, List.filter_cons_of_neg (by simp [hx]), List.flatMap_cons, hf x hx]; exact ih
    | false => rw [ownEvents, List.filter_cons_of_pos (by simp [hx]), List.flatMap_cons, List.flatMap_cons]; rw [← ih]; rfl

/-! ## What the program gets -/

/-- The bytes a call returned from the object `ref`. -/
def gotBy (ref : Nat) : Call × Reply → List UInt8
  | (.event e, r) => returnedBy ref (e, r)
  | (.read r _ _, .ok (.str bytes)) => if r = ref then bytes else []
  | _ => []

/-- All the program has read from the object, by any call. -/
def got (tr : SessionTrace) (ref : Nat) : List UInt8 := tr.flatMap (gotBy ref)

/-- The bytes a call got accepted on the object `ref`. -/
def putBy (ref : Nat) : Call × Reply → List UInt8
  | (.event e, r) => acceptedBy ref (e, r)
  | (.write r data _ _ _, .ok (.int n)) => if r = ref then data.bytes.take n else []
  | _ => []

/-- All the program has written to the object, by any call. -/
def put (tr : SessionTrace) (ref : Nat) : List UInt8 := tr.flatMap (putBy ref)

def takenBy : Call × Reply → List Nat
  | (.event e, r) => acceptedStreamBy (e, r)
  | (.acceptStream _ _ _, .ok (.stream ref)) => [ref]
  | _ => []

/-- The stream objects the program has accepted, by either call. -/
def taken (tr : SessionTrace) : List Nat := tr.flatMap takenBy

section
variable {e : Event} {r : Reply} (h : e.isPump = true)
include h

theorem isPump_cases : (∃ answer, e = .writePkt none answer) ∨ ∃ cb, e = .callback cb := by
  unfold Event.isPump at h
  split at h
  · exact .inl ⟨_, rfl⟩
  · exact .inr ⟨_, rfl⟩
  · cases h

theorem returnedBy_pump (ref : Nat) : returnedBy ref (e, r) = [] := by
  obtain ⟨answer, rfl⟩ | ⟨cb, rfl⟩ := isPump_cases h <;> rfl

theorem acceptedBy_pump (ref : Nat) : acceptedBy ref (e, r) = [] := by
  obtain ⟨answer, rfl⟩ | ⟨cb, rfl⟩ := isPump_cases h <;> rfl

theorem acceptedStreamBy_pump : acceptedStreamBy (e, r) = [] := by
  obtain ⟨answer, rfl⟩ | ⟨cb, rfl⟩ := isPump_cases h <;> rfl

end

theorem Own.got {call : Call} {r : Reply} {own : ClientTrace} (h : Own call r own) (ref : Nat) :
    own.flatMap (returnedBy ref) = gotBy ref (call, r) := by
  cases h with
  | event e r =>
    rw [flatMap_ownEvents fun x hx => returnedBy_pump hx ref, List.flatMap_singleton]
    rfl
  | read r' length rounds res =>
    rw [List.flatMap_singleton]
    cases res with
    | ok bytes => rfl
    | error e =>
      cases length with
      | none => simp [returnedBy, gotBy, readReply, Except.map, RValue.ofRead]
      | some n => by_cases he : e.cls = .eofError <;> simp [returnedBy, gotBy, readReply, Except.map, RValue.ofRead, he]
  | raises call e hne =>
    cases call with
    | event e' => exact absurd rfl (hne e')
    | _ => rfl
  | _ => rfl

theorem Own.put {call : Call} {r : Reply} {own : ClientTrace} (h : Own call r own) (ref : Nat) :
    own.flatMap (acceptedBy ref) = putBy ref (call, r) := by
  cases h with
  | event e r =>
    rw [flatMap_ownEvents fun x hx => acceptedBy_pump hx ref, List.flatMap_singleton]
    rfl
  | write r' data fin windows rounds streamLeft connLeft r =>
    rw [List.flatMap_singleton]
    rcases r with e | _ | n | bytes | s <;> rfl
  | read r' length rounds res => rfl
  | raises call e hne =>
    cases call with
    | event e' => exact absurd rfl (hne e')
    | _ => rfl
  | _ => rfl

theorem Own.taken {call : Call} {r : Reply} {own : ClientTrace} (h : Own call r own) :
    own.flatMap acceptedStreamBy = takenBy (call, r) := by
  cases h with
  | event e r =>
    rw [flatMap_ownEvents fun x hx => acceptedStreamBy_pump hx, List.flatMap_singleton]
    rfl
  | raises call e hne =>
    cases call with
    | event e' => exact absurd rfl (hne e')
    | _ => rfl
  | _ => rfl

/-! ## Sessions -/

/-- The run of the client's machine under a session. -/
def events (tr : SessionTrace) : ClientTrace := unfolded callStep callTrace {} tr

/-- A session from the state `_open` leaves. -/
abbrev Session : SessionTrace → Client → Prop := Steps callStep .any [] {}

section
variable {tr : SessionTrace} {c : Client} (h : Session tr c)
include h

theorem Session.got_eq (ref : Nat) : got tr ref = returned (events tr) ref := by
  refine (h.flatMap_unfolded fun c call r c' hs => ?_).symm
  rw [← flatMap_ownEvents fun x hx => returnedBy_pump hx ref]
  exact (callTrace_own hs).got ref

theorem Session.put_eq (ref : Nat) : put tr ref = accepted (events tr) ref := by
  refine (h.flatMap_unfolded fun c call r c' hs => ?_).symm
  rw [← flatMap_ownEvents fun x hx => acceptedBy_pump hx ref]
  exact (callTrace_own hs).put ref

theorem Session.taken_eq : taken tr = acceptedStreams (events tr) := by
  refine (h.flatMap_unfolded fun c call r c' hs => ?_).symm
  rw [← flatMap_ownEvents fun x hx => acceptedStreamBy_pump hx]
  exact (callTrace_own hs).taken

end

theorem Session.reach {tr : SessionTrace} {c : Client} (h : Session tr c) : Reach .any (events tr) c :=
  h.unfolded callStep_layers

/-- A session goes through the client of each earlier one, and so do the
events. -/
theorem Session.upto {K : ClientContract} {tr tr₁ : SessionTrace} {c c₁ : Client} (h : Reach K (events tr) c)
    (h₁ : Session tr₁ c₁) (hp : tr₁ <+: tr) :
    Reach K (events tr₁) c₁ ∧ Steps step K (events tr₁) c₁ (events tr) c := by
  have hevents : events tr₁ <+: events tr := by
    obtain ⟨rest, rfl⟩ := hp
    rw [events, events, h₁.unfolded_append]
    exact List.prefix_append _ _
  obtain ⟨c₂, hfirst, hrest⟩ := Steps.split h List.nil_prefix hevents
  obtain rfl := hfirst.det (h₁.unfolded callStep_layers)
  exact ⟨hfirst, hrest⟩

/-- **A program that blocks is a run of the client's machine.** The rounds its
calls make and what they do themselves, one after the other, lead to the same
client; and what the program read, wrote and accepted, by blocking calls or
not, is what was read, written and accepted in that run. -/
theorem session_unfolds {tr : SessionTrace} {c : Client} (h : Session tr c) :
    Reach .any (events tr) c ∧ (∀ ref, got tr ref = returned (events tr) ref) ∧
      (∀ ref, put tr ref = accepted (events tr) ref) ∧ taken tr = acceptedStreams (events tr) :=
  ⟨h.reach, fun ref => h.got_eq ref, fun ref => h.put_eq ref, h.taken_eq⟩

/-- The demo program with a bounded read in front: a bound client completes
its handshake, opens a stream, waits for a window, writes two bytes and FIN,
and reads what the server echoes. -/
def demoSession : SessionTrace × Client :=
  run callStep .any
    [.event (.bind 3),
     .run [false, true] [⟨[(⟨.ok [64], -1⟩, none), (⟨.ok [], -1⟩, none)], .datagram [] none⟩],
     .event (.openBidiStream (.ok 0)),
     .write 0 ⟨[111, 107], by decide⟩ true [(0, 0), (100, 100)] [⟨[(⟨.ok [], -1⟩, none)], .timeout none⟩],
     .read 0 (some 16)
       [⟨[(⟨.ok [65, 1], 2⟩, none), (⟨.ok [], -1⟩, none)],
         .datagram [.recvStreamData false 0 0 [111, 107]] none⟩],
     .read 0 none [⟨[(⟨.ok [], -1⟩, none)], .datagram [.recvStreamData true 0 2 []] none⟩]] [] {}

theorem demoSession_session : Session demoSession.1 demoSession.2 := Steps.of_run (by decide +kernel)

theorem session_unfolds_demoSession :
    Reach .any (events demoSession.1) demoSession.2 ∧ returned (events demoSession.1) 0 = [111, 107] := by
  obtain ⟨hreach, hgot, -, -⟩ := session_unfolds demoSession_session
  exact ⟨hreach, (hgot 0).symm.trans (by decide +kernel)⟩

/-! ## Reading an echo to the end -/

/-- A `read(nil)` on the object that came back with a String. -/
def readsToEnd (ref : Nat) : Call × Reply → Bool
  | (.read r none _, .ok (.str _)) => r = ref
  | _ => false

/-- What `read(nil)` returns is empty, and then `eof?` holds. -/
theorem read_to_end {ref : Nat} {rounds : List PumpRound} {c c' : Client} {bytes : List UInt8}
    (h : callStep c (.read ref none rounds) = some (.ok (.str bytes), c')) :
    bytes = [] ∧ ∃ s, c'.objs[ref]? = some s ∧ quicStreamEofP s = true := by
  obtain ⟨⟨res, c₁, rest⟩, hp, heq⟩ := Option.map_eq_some_iff.1 h
  obtain ⟨hres, rfl⟩ := Prod.mk.inj heq
  obtain ⟨e, rfl, -⟩ | ⟨c₁, s, -, hs, hready, rfl, rfl⟩ := streamRead_cases hp
  · cases hres
  · have heof : quicStreamEofP s = true := by simpa [readReady, hs] using hready
    simp only [Option.getD_none, readNonblock_eof heof] at hres ⊢
    cases hres
    exact ⟨rfl, s, by rw [Client.modify_same hs]; exact hs, heof⟩

/-- **A blocking program against an echo.** What it has read from a stream by
any calls, followed by what is buffered, is a first part of what it wrote by
any calls. `read(nil)` returns only once all of that had been read by other
calls before, and what it returns is empty. -/
theorem blocking_echo {tr : SessionTrace} {c : Client} (h : Session tr c) (hecho : Reach EchoContract (events tr) c)
    {ref : Nat} {s : QuicStream} (hs : c.objs[ref]? = some s) (hlt : (put tr ref).length < 2 ^ 64) :
    got tr ref ++ s.recvBuffer <+: put tr ref ∧
    ∀ tr₁ call r, readsToEnd ref (call, r) = true → tr₁ ++ [(call, r)] <+: tr →
      r = .ok (.str []) ∧ got tr₁ ref = put tr ref := by
  have hput := h.put_eq ref
  refine ⟨?_, fun tr₁ call r hread hp => ?_⟩
  · rw [h.got_eq, hput]
    exact hecho.read_part hs (by rwa [← hput])
  · obtain ⟨rounds, bytes, rfl, rfl⟩ : ∃ rounds bytes, call = .read ref none rounds ∧ r = .ok (.str bytes) := by
      unfold readsToEnd at hread
      split at hread
      · next heq => cases heq; obtain rfl := of_decide_eq_true hread; exact ⟨_, _, rfl, rfl⟩
      · cases hread
    obtain ⟨c₂, h₂, hrest⟩ := Steps.split h (List.nil_prefix) hp
    obtain ⟨c₁, h₁, -, hstep⟩ := h₂.last (by simp)
    obtain ⟨rfl, s₂, hs₂, heof⟩ := read_to_end hstep
    obtain ⟨hreach₂, hrest₂⟩ := Session.upto hecho h₂ hp
    have hlt₂ : (accepted (events (tr₁ ++ [(.read ref none rounds, .ok (.str []))])) ref).length < 2 ^ 64 := by
      refine Nat.lt_of_le_of_lt ?_ (hput ▸ hlt)
      obtain ⟨later, hlater⟩ := hrest₂.grows
      rw [← hlater, accepted, accepted, List.flatMap_append, List.length_append]
      exact Nat.le_add_right _ _
    obtain ⟨-, hwhole⟩ := hreach₂.read_whole hs₂ hlt₂ heof
    obtain ⟨-, hacc⟩ := hreach₂.read_final hs₂ hlt₂ heof hrest₂
    refine ⟨rfl, ?_⟩
    rw [hput, hacc, ← hwhole, ← Session.got_eq h₂, got, got, List.flatMap_append]
    simp [gotBy]

theorem take_concat_getD {α : Type} {l : List α} {n : Nat} (h : l.length = n + 1) (d : α) :
    l.take n ++ [l.getD n d] <+: l := by
  have hlt : n < l.length := by omega
  have hget : l.getD n d = l[n] := by simp [hlt]
  rw [hget, List.take_append_getElem, ← h, List.take_length]

theorem blocking_echo_demoSession : got (demoSession.1.take 5) 0 = put demoSession.1 0 := by
  have hecho : Reach EchoContract (events demoSession.1) demoSession.2 :=
    Steps.of_keeps demoSession_session.reach (by decide +kernel)
  have hs : demoSession.2.objs[0]? = some (demoSession.2.objs.getD 0 (quicStreamNew 0)) := by decide +kernel
  obtain ⟨-, hread⟩ := blocking_echo demoSession_session hecho hs (by decide +kernel)
  have hlast : readsToEnd 0 (demoSession.1.getD 5 (.run [] [], .ok .nil)) = true := by decide +kernel
  have hp := take_concat_getD (show demoSession.1.length = 5 + 1 by decide +kernel) (.run [] [], .ok .nil)
  generalize demoSession.1.getD 5 (.run [] [], .ok .nil) = last at hlast hp
  exact (hread (demoSession.1.take 5) last.1 last.2 hlast hp).2

end QuicRuby
