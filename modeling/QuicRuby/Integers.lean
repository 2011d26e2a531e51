/-
The Integers that end up in ngtcp2: error codes of `close` and `reset`, and
the transport parameters other than the idle timeout. `NUM2ULL` is the only
check on the way. It takes a negative Integer for another number, and what
it keeps need not fit a QUIC variable-length integer.
-/
import QuicRuby.Connection

namespace QuicRuby

/-! ## NUM2ULL -/

/-- `NUM2ULL` raises. -/
def OutOfRange (v : Int) : Prop := v < -2 ^ 63 ∨ 2 ^ 64 ≤ v

/-- A QUIC variable-length integer holds it. -/
def FitsVarint (v : Int) : Prop := 0 ≤ v ∧ v < 2 ^ 62

/-- What is passed is the Integer given, and can be encoded. -/
def Faithful (v : Int) (u : UInt64) : Prop := u.toNat = v ∧ u.toNat < 2 ^ 62

instance : DecidablePred OutOfRange := fun v => inferInstanceAs (Decidable (v < -2 ^ 63 ∨ 2 ^ 64 ≤ v))

instance : DecidablePred FitsVarint := fun v => inferInstanceAs (Decidable (0 ≤ v ∧ v < 2 ^ 62))

theorem num2ull_cases (v : Int) :
    (OutOfRange v ∧ ∃ e, num2ull v = .error e) ∨ (¬ OutOfRange v ∧ num2ull v = .ok (UInt64.ofInt v)) := by
  unfold num2ull OutOfRange
  split
  · next h => exact .inr ⟨by omega, rfl⟩
  · next h => exact .inl ⟨by omega, _, rfl⟩

theorem num2ull_in_range {v : Int} {u : UInt64} (h : num2ull v = .ok u) : ¬ OutOfRange v := by
  rcases num2ull_cases v with ⟨-, e, he⟩ | ⟨hrange, -⟩
  · rw [he] at h
    cases h
  · exact hrange

/-- Of what `NUM2ULL` takes, exactly the encodable Integers are kept. -/
theorem num2ull_faithful {v : Int} {u : UInt64} (h : num2ull v = .ok u) : Faithful v u ↔ FitsVarint v := by
  rcases num2ull_cases v with ⟨-, e, he⟩ | ⟨hrange, hok⟩
  · rw [he] at h
    cases h
  rw [hok] at h
  cases h
  have hmod : ((UInt64.ofInt v).toNat : Int) = v % 2 ^ 64 := by
    rw [UInt64.ofInt, UInt64.toNat_ofNat']
    omega
  unfold Faithful FitsVarint
  unfold OutOfRange at hrange
  omega

/-! ## The transport parameters -/

namespace TransportParams

variable {α : Type}

/-- The windows, stream counts and connection id limit: all but the idle
timeout. -/
def counts (tp : TransportParams α) : List α :=
  [tp.initialMaxStreamDataBidiLocal, tp.initialMaxStreamDataBidiRemote, tp.initialMaxStreamDataUni,
    tp.initialMaxData, tp.initialMaxStreamsBidi, tp.initialMaxStreamsUni, tp.activeConnectionIdLimit]

end TransportParams

/-- They raise only for a field out of range. -/
theorem quicFillTransportParams_error {tp : TransportParams Int} {e : RubyError}
    (h : quicFillTransportParams tp = .error e) : ∃ v ∈ tp.maxIdleTimeout :: tp.counts, OutOfRange v := by
  by_contra hno
  have hok : ∀ v ∈ tp.maxIdleTimeout :: tp.counts, num2ull v = .ok (UInt64.ofInt v) := fun v hv =>
    ((num2ull_cases v).resolve_left fun hrange => hno ⟨v, hv, hrange.1⟩).2
  simp only [TransportParams.counts, List.forall_mem_cons] at hok
  obtain ⟨h₇, h₁, h₂, h₃, h₄, h₅, h₆, h₈, -⟩ := hok
  unfold quicFillTransportParams quicGetUint64Field at h
  rw [h₁, h₂, h₃, h₄, h₅, h₆, h₇, h₈] at h
  cases h

theorem quicFillTransportParams_in_range {tp : TransportParams Int} {p : TransportParams UInt64}
    (h : quicFillTransportParams tp = .ok p) : ∀ v ∈ tp.maxIdleTimeout :: tp.counts, ¬ OutOfRange v := by
  have hfields := quicFillTransportParams_ok h
  simp only [TransportParams.counts, List.forall_mem_cons, List.not_mem_nil, false_implies, implies_true, and_true]
  exact ⟨num2ull_in_range hfields.idleTimeout, num2ull_in_range hfields.bidiLocal,
    num2ull_in_range hfields.bidiRemote, num2ull_in_range hfields.uni, num2ull_in_range hfields.maxData,
    num2ull_in_range hfields.streamsBidi, num2ull_in_range hfields.streamsUni,
    num2ull_in_range hfields.connectionIdLimit⟩

theorem quicFillTransportParams_counts {tp : TransportParams Int} {p : TransportParams UInt64}
    (h : quicFillTransportParams tp = .ok p) : List.Forall₂ (fun v u => num2ull v = .ok u) tp.counts p.counts := by
  have hfields := quicFillTransportParams_ok h
  simp only [TransportParams.counts, List.forall₂_cons, List.Forall₂.nil, and_true]
  exact ⟨hfields.bidiLocal, hfields.bidiRemote, hfields.uni, hfields.maxData, hfields.streamsBidi,
    hfields.streamsUni, hfields.connectionIdLimit⟩

/-! ## The operations -/

/-- An operation given Integers for ngtcp2. -/
inductive IntegerCall
  | close (k : Connection) (errorCode : Int) (reason : Option RString) (answer : Except Ngtcp2Error (List UInt8))
      (sendRaises : Option RubyError)
  | reset (s : QuicStream) (errorCode : Int) (rv : Option Ngtcp2Error)
  | fillTransportParams (tp : TransportParams Int)

namespace IntegerCall

/-- The Integers given that reach ngtcp2, each with the number that is passed. -/
def passed : IntegerCall → List (Int × UInt64)
  | .close k errorCode reason answer sendRaises =>
    let k' := (quicClientCloseM { errorCode := some errorCode, reason } answer sendRaises k).2
    (k'.calls.drop k.calls.length).filterMap fun
      | .writeConnectionClose code _ _ => some (errorCode, code)
      | _ => none
  | .reset s errorCode rv =>
    (quicStreamResetM s (some errorCode) rv).2.2.filterMap fun
      | .shutdownStreamWrite _ code _ => some (errorCode, code)
      | _ => none
  | .fillTransportParams tp =>
    match quicFillTransportParams tp with
    | .error _ => []
    | .ok p => tp.counts.zip p.counts

/-- It raises or does nothing, or its Integers are encodable. -/
def Safe : IntegerCall → Prop
  | .close k errorCode _ _ _ =>
    OutOfRange errorCode ∨ k.period ≠ .normal ∨ k.client.sock = none ∨ FitsVarint errorCode
  | .reset s errorCode _ => OutOfRange errorCode ∨ s.reset = true ∨ s.hasClient = false ∨ FitsVarint errorCode
  | .fillTransportParams tp =>
    (∃ v ∈ tp.maxIdleTimeout :: tp.counts, OutOfRange v) ∨ ∀ v ∈ tp.counts, FitsVarint v

end IntegerCall

/-- Field by field, the parameters are as good as their Integers. -/
theorem counts_faithful {vs : List Int} {us : List UInt64}
    (h : List.Forall₂ (fun v u => num2ull v = .ok u) vs us) :
    (∀ q ∈ vs.zip us, Faithful q.1 q.2) ↔ ∀ v ∈ vs, FitsVarint v := by
  induction h with
  | nil => simp
  | cons hv _ ih => rw [List.zip_cons_cons, List.forall_mem_cons, List.forall_mem_cons, num2ull_faithful hv, ih]

theorem fillTransportParams_faithful (tp : TransportParams Int) :
    (∀ q ∈ (IntegerCall.fillTransportParams tp).passed, Faithful q.1 q.2) ↔
      (IntegerCall.fillTransportParams tp).Safe := by
  simp only [IntegerCall.passed, IntegerCall.Safe]
  cases hfill : quicFillTransportParams tp with
  | error e => exact iff_of_true (by simp) (.inl (quicFillTransportParams_error hfill))
  | ok p =>
    have hrange := quicFillTransportParams_in_range hfill
    rw [counts_faithful (quicFillTransportParams_counts hfill)]
    exact ⟨.inr, fun h => h.resolve_left fun ⟨v, hv, hout⟩ => hrange v hv hout⟩

theorem reset_faithful (s : QuicStream) (errorCode : Int) (rv : Option Ngtcp2Error) :
    (∀ q ∈ (IntegerCall.reset s errorCode rv).passed, Faithful q.1 q.2) ↔
      (IntegerCall.reset s errorCode rv).Safe := by
  simp only [IntegerCall.passed, IntegerCall.Safe, quicStreamResetM, resetErrorCode]
  rcases num2ull_cases errorCode with ⟨hout, e, he⟩ | ⟨hrange, hok⟩
  · simp [he, hout]
  · rw [← num2ull_faithful hok]
    simp only [hok, hrange, false_or]
    by_cases hreset : s.reset = true
    · simp [hreset]
    by_cases hclient : s.hasClient = false
    · simp [hreset, hclient]
    · cases rv <;> simp [hreset, hclient]

theorem close_faithful (k : Connection) (errorCode : Int) (reason : Option RString)
    (answer : Except Ngtcp2Error (List UInt8)) (sendRaises : Option RubyError) :
    (∀ q ∈ (IntegerCall.close k errorCode reason answer sendRaises).passed, Faithful q.1 q.2) ↔
      (IntegerCall.close k errorCode reason answer sendRaises).Safe := by
  simp only [IntegerCall.passed, IntegerCall.Safe, quicClientCloseM, resetErrorCode]
  rcases num2ull_cases errorCode with ⟨hout, e, he⟩ | ⟨hrange, hok⟩
  · simp [he, hout]
  · rw [← num2ull_faithful hok]
    simp only [hok, hrange, false_or]
    by_cases hperiod : k.period = .normal
    · cases hsock : k.client.sock with
      | none => simp [hperiod]
      | some sock =>
        -- ngtcp2 is called, and whatever it answers the call is on record.
        cases answer with
        | error rv => by_cases hinv : rv = .invalidState <;> simp [hperiod, hinv, Connection.log]
        | ok packet =>
          by_cases hnil : packet.length = 0
          · simp [hperiod, hnil, Connection.log]
          · cases sendRaises <;> simp [hperiod, hnil, Connection.log]
    · simp [hperiod]

/-- **Integers reach ngtcp2 faithful and encodable** exactly if the operation
is safe: what `NUM2ULL` takes and nothing else stops has to be encodable. -/
theorem passed_faithful_iff (call : IntegerCall) :
    (∀ q ∈ call.passed, Faithful q.1 q.2) ↔ call.Safe := by
  cases call with
  | close k errorCode reason answer sendRaises => exact close_faithful k errorCode reason answer sendRaises
  | reset s errorCode rv => exact reset_faithful s errorCode rv
  | fillTransportParams tp => exact fillTransportParams_faithful tp

/-- The default parameters are. -/
example : (IntegerCall.fillTransportParams .default).Safe := .inr (by decide)

/-- `reset(-1)` passes 2^64 - 1. -/
theorem reset_minus_one_not_faithful : ¬ ∀ (call : IntegerCall), ∀ q ∈ call.passed, Faithful q.1 q.2 := by
  intro hall
  have hpassed : (-1, 18446744073709551615) ∈
      (IntegerCall.reset { streamId := 0, hasClient := true } (-1) none).passed := by decide
  have hfaithful := hall _ _ hpassed
  exact absurd hfaithful.1 (by decide)

end QuicRuby
