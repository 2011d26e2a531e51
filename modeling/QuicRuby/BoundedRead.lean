/-
`Stream#read(length)` against what it is for. It should wait until a byte
is buffered or FIN has been delivered; its predicate reads `@fin_received`,
which nothing sets, so it waits for a byte alone. At the end of a stream it
never comes back with nil.
-/
import QuicRuby.ReadToEnd

namespace QuicRuby

open Runs Loops

/-- A byte is buffered, or FIN has been delivered. -/
def dataOrEnd (ref : Nat) (c : Client) : Bool :=
  match c.objs[ref]? with
  | none => false
  | some s => 0 < s.recvBuffer.length || s.finReceived

/-- What `read(length)` is for: to pump while there is neither a byte nor FIN,
and then return the first bytes of the buffer, or nil if it is empty. -/
def boundedRead (ref : Nat) (length : Int) (rounds : List PumpRound) (c : Client) :
    Option (Except RubyError (Option (List UInt8)) × Client × List PumpRound) :=
  match loopUntil (dataOrEnd ref) pumpOnce rounds c with
  | none => none
  | some (.error e, c, rest) => some (.error e, c, rest)
  | some (.ok (), c, rest) =>
    c.objs[ref]?.map fun s =>
      (.ok (if s.recvBuffer = [] then none else some (s.recvBuffer.take length.toNat)),
        c.modify ref fun _ => { s with recvBuffer := s.recvBuffer.drop length.toNat }, rest)

theorem dataOrEnd_eq_true {ref : Nat} {c : Client} :
    dataOrEnd ref c = true ↔ ∃ s, c.objs[ref]? = some s ∧ (s.recvBuffer ≠ [] ∨ s.finReceived = true) := by
  unfold dataOrEnd
  cases c.objs[ref]? with
  | none => simp
  | some s => simp [List.length_pos_iff]

/-- The predicate of `read(length)` holds when a byte is buffered. -/
theorem readReady_length {ref : Nat} {length : Int} {c : Client} :
    readReady ref (some length) c = true ↔ ∃ s, c.objs[ref]? = some s ∧ s.recvBuffer ≠ [] := by
  unfold readReady
  cases c.objs[ref]? with
  | none => simp
  | some s => simp [QuicStream.ivarFinReceived, List.length_pos_iff]

/-- With a byte buffered, `read(length)` returns what length and buffer allow,
if a `long` holds the length. -/
theorem readSome_data {s : QuicStream} {length : Int} (h0 : 0 ≤ length) (hne : s.recvBuffer ≠ []) :
    readSome s length =
      if length < 2 ^ 63 then
        (.ok (some (s.recvBuffer.take length.toNat)), { s with recvBuffer := s.recvBuffer.drop length.toNat })
      else (.error (.mkText .rangeError "bignum too big to convert into 'long'"), s) := by
  by_cases hlt : length < 2 ^ 63
  · simp only [readSome, quicStreamReadNonblockM_eq s h0 hlt, if_neg hne, if_pos hlt]
  · have hlong : num2long length = .error (.mkText .rangeError "bignum too big to convert into 'long'") := by
      unfold num2long
      rw [if_neg (by omega)]
    simp only [readSome, quicStreamReadNonblockM, hlong, if_neg hlt, RubyError.mkText]
    rfl

/-- What `read(length)` does once its loop has ended. -/
theorem streamRead_length {ref : Nat} {length : Int} (rounds : List PumpRound) (c : Client) :
    streamRead ref (some length) rounds c =
      match loopUntil (readReady ref (some length)) pumpOnce rounds c with
      | none => none
      | some (.error e, c, rest) => some (.error e, c, rest)
      | some (.ok (), c, rest) =>
        c.objs[ref]?.map fun s => ((readSome s length).1, c.modify ref fun _ => (readSome s length).2, rest) := by
  rcases hloop : loopUntil (readReady ref (some length)) pumpOnce rounds c with _ | ⟨_ | _, c', rest⟩ <;>
    simp only [streamRead, pumpUntil_eq, hloop]

/-- `read(length)` never returns nil. -/
theorem read_length_not_nil {ref : Nat} {length : Int} (h0 : 0 ≤ length) {rounds : List PumpRound}
    {c c' : Client} {rest : List PumpRound} : streamRead ref (some length) rounds c ≠ some (.ok none, c', rest) := by
  rw [streamRead_length]
  split
  · simp
  · simp
  · next c₁ rest₁ hloop =>
    obtain ⟨-, -, -, hready⟩ := loopUntil_ok_iff.1 hloop
    obtain ⟨s, hs, hne⟩ := readReady_length.1 hready
    rw [hs, Option.map_some, readSome_data h0 hne]
    split <;> simp

theorem dataOrEnd_of_ready (ref : Nat) (length : Int) (c : Client)
    (h : readReady ref (some length) c = true) : dataOrEnd ref c = true := by
  obtain ⟨s, hs, hne⟩ := readReady_length.1 h
  exact dataOrEnd_eq_true.2 ⟨s, hs, .inl hne⟩

/-- Where the wait should end, `read(length)` is as it should be if there is a
byte to return and the length fits. -/
theorem boundedRead_ends {ref : Nat} {length : Int} (h0 : 0 ≤ length) {rounds rest : List PumpRound}
    {c c' : Client} {s' : QuicStream} (hloop : loopUntil (dataOrEnd ref) pumpOnce rounds c = some (.ok (), c', rest))
    (hs' : c'.objs[ref]? = some s') :
    streamRead ref (some length) rounds c = boundedRead ref length rounds c ↔
      s'.recvBuffer ≠ [] ∧ length < 2 ^ 63 := by
  have hspec : boundedRead ref length rounds c =
      some (.ok (if s'.recvBuffer = [] then none else some (s'.recvBuffer.take length.toNat)),
        c'.modify ref fun _ => { s' with recvBuffer := s'.recvBuffer.drop length.toNat }, rest) := by
    rw [boundedRead, hloop]
    simp only [hs', Option.map_some]
  rw [hspec]
  by_cases hempty : s'.recvBuffer = []
  · refine ⟨fun hread => ?_, fun hcond => absurd hempty hcond.1⟩
    rw [if_pos hempty] at hread
    exact absurd hread (read_length_not_nil h0)
  · have hready : readReady ref (some length) c' = true := readReady_length.2 ⟨s', hs', hempty⟩
    have hweaker : loopUntil (readReady ref (some length)) pumpOnce rounds c = _ :=
      loopUntil_weaker (dataOrEnd_of_ready ref length) rounds c
    rw [hloop] at hweaker
    rw [streamRead_length, hweaker]
    simp only [loopUntil_ready hready, hs', Option.map_some, readSome_data h0 hempty, if_neg hempty]
    by_cases hlt : length < 2 ^ 63
    · simp only [if_pos hlt, true_iff]
      exact ⟨hempty, hlt⟩
    · simp only [if_neg hlt]
      exact ⟨fun hread => (by cases hread), fun hcond => absurd hcond.2 hlt⟩

/-- A wait that does not end is the same for both. -/
theorem boundedRead_waits {ref : Nat} {length : Int} {rounds : List PumpRound} {c : Client}
    (hloop : ∀ c' rest, loopUntil (dataOrEnd ref) pumpOnce rounds c ≠ some (.ok (), c', rest)) :
    streamRead ref (some length) rounds c = boundedRead ref length rounds c := by
  have hweaker : loopUntil (readReady ref (some length)) pumpOnce rounds c = _ :=
    loopUntil_weaker (dataOrEnd_of_ready ref length) rounds c
  rw [streamRead_length, boundedRead, hweaker]
  cases hres : loopUntil (dataOrEnd ref) pumpOnce rounds c with
  | none => rfl
  | some res =>
    obtain ⟨r, c', rest⟩ := res
    cases r with
    | error e => rfl
    | ok u => exact absurd hres (hloop c' rest)

/-- **A bounded read does what it is for unless FIN ends the wait.** The call
is as it should be exactly if, where the wait should end, the buffer has a
byte and a `long` holds the length. -/
theorem boundedRead_iff {ref : Nat} {length : Int} (h1 : 1 ≤ length) (rounds : List PumpRound) (c : Client) :
    streamRead ref (some length) rounds c = boundedRead ref length rounds c ↔
      ∀ pre rest c' s', rounds = pre ++ rest → Turns (dataOrEnd ref) pumpOnce c pre c' →
        dataOrEnd ref c' = true → c'.objs[ref]? = some s' → s'.recvBuffer ≠ [] ∧ length < 2 ^ 63 := by
  have h0 : 0 ≤ length := by omega
  constructor
  · intro hread pre rest c' s' hr ht hd hs'
    exact (boundedRead_ends h0 (loopUntil_ok_iff.2 ⟨pre, hr, ht, hd⟩) hs').1 hread
  · intro hcond
    by_cases hends : ∃ c' rest, loopUntil (dataOrEnd ref) pumpOnce rounds c = some (.ok (), c', rest)
    · obtain ⟨c', rest, hloop⟩ := hends
      obtain ⟨pre, hr, ht, hd⟩ := loopUntil_ok_iff.1 hloop
      obtain ⟨s', hs', -⟩ := dataOrEnd_eq_true.1 hd
      exact (boundedRead_ends h0 hloop hs').2 (hcond pre rest c' s' hr ht hd hs')
    · exact boundedRead_waits fun c' rest hloop => hends ⟨c', rest, hloop⟩

/-- Two bytes and FIN for a client that reads one. -/
theorem boundedRead_iff_echo : streamRead 0 (some 1) [echoRound [104, 105]] echoClient =
    boundedRead 0 1 [echoRound [104, 105]] echoClient := by
  refine (boundedRead_iff (by decide) [echoRound [104, 105]] echoClient).2 fun pre rest c' s' hr ht hd hs' => ?_
  -- The wait ends after the one round, with both bytes buffered.
  have hloop := loopUntil_ok_iff.2 ⟨pre, hr, ht, hd⟩
  cases hloop
  cases hs'
  exact ⟨by decide, by decide⟩

/-- A bound client whose one stream was ended without a byte. -/
def endedRun : ClientTrace × Client :=
  run step RecvContract
    [.bind 5, .openBidiStream (.ok 0), .callback (.recvStreamData true 0 0 [])] [] {}

/-- There `eof?` is true, and `read(1)` does not return. -/
theorem endedRun_read_waits : ¬ ∀ tr c, Reach RecvContract tr c → ∀ (ref : Nat) s (length : Int) rounds,
    c.objs[ref]? = some s → 1 ≤ length →
    streamRead ref (some length) rounds c = boundedRead ref length rounds c := by
  intro h
  have hread := h endedRun.1 endedRun.2 (Steps.of_run (by decide)) 0 _ 1 [] rfl (by decide)
  have hwait : streamRead 0 (some 1) [] endedRun.2 = none := rfl
  rw [hwait] at hread
  cases hread

end QuicRuby
