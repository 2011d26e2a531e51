/-
Quic::TransportParams (transport_params.rb) and what the extension makes of
it for ngtcp2 (`quic_fill_transport_params`): each Integer field through
`NUM2ULL`, in the order of the source.
-/
import QuicRuby.Ruby

namespace QuicRuby

/-- The transport parameters: Integers in Ruby's `Data`, `uint64_t` in
`ngtcp2_transport_params`. -/
structure TransportParams (α : Type) where
  initialMaxStreamDataBidiLocal : α
  initialMaxStreamDataBidiRemote : α
  initialMaxStreamDataUni : α
  initialMaxData : α
  initialMaxStreamsBidi : α
  initialMaxStreamsUni : α
  maxIdleTimeout : α
  activeConnectionIdLimit : α
deriving DecidableEq, Repr

namespace TransportParams

/-- `TransportParams.default`. -/
def default : TransportParams Int :=
  { initialMaxStreamDataBidiLocal := 262144
    initialMaxStreamDataBidiRemote := 262144
    initialMaxStreamDataUni := 262144
    initialMaxData := 1048576
    initialMaxStreamsBidi := 100
    initialMaxStreamsUni := 100
    maxIdleTimeout := 30000000000
    activeConnectionIdLimit := 7 }

variable {α β : Type}

/-- The window announced for a stream, by its two low id bits: who opened it
and whether it is unidirectional. The peer sends nothing on a client's
unidirectional stream. -/
def streamWindow [Zero α] (tp : TransportParams α) (streamId : Int) : α :=
  if streamId % 4 = 0 then tp.initialMaxStreamDataBidiLocal
  else if streamId % 4 = 1 then tp.initialMaxStreamDataBidiRemote
  else if streamId % 4 = 3 then tp.initialMaxStreamDataUni
  else 0

/-- Every window announced is positive. -/
def PositiveWindows (tp : TransportParams Int) : Prop :=
  0 < tp.initialMaxStreamDataBidiLocal ∧ 0 < tp.initialMaxStreamDataBidiRemote ∧
    0 < tp.initialMaxStreamDataUni ∧ 0 < tp.initialMaxData

instance : DecidablePred PositiveWindows := fun tp =>
  inferInstanceAs (Decidable (0 < tp.initialMaxStreamDataBidiLocal ∧ 0 < tp.initialMaxStreamDataBidiRemote ∧
    0 < tp.initialMaxStreamDataUni ∧ 0 < tp.initialMaxData))

/-- Two parameter sets agree field by field. -/
structure Agree (R : α → β → Prop) (tp : TransportParams α) (p : TransportParams β) : Prop where
  bidiLocal : R tp.initialMaxStreamDataBidiLocal p.initialMaxStreamDataBidiLocal
  bidiRemote : R tp.initialMaxStreamDataBidiRemote p.initialMaxStreamDataBidiRemote
  uni : R tp.initialMaxStreamDataUni p.initialMaxStreamDataUni
  maxData : R tp.initialMaxData p.initialMaxData
  streamsBidi : R tp.initialMaxStreamsBidi p.initialMaxStreamsBidi
  streamsUni : R tp.initialMaxStreamsUni p.initialMaxStreamsUni
  idleTimeout : R tp.maxIdleTimeout p.maxIdleTimeout
  connectionIdLimit : R tp.activeConnectionIdLimit p.activeConnectionIdLimit

end TransportParams

/-- `quic_get_uint64_field`, of the field's value. -/
def quicGetUint64Field (v : Int) : Except RubyError UInt64 := num2ull v

/-- `quic_fill_transport_params`. -/
def quicFillTransportParams (tp : TransportParams Int) : Except RubyError (TransportParams UInt64) := do
  let bidiLocal ← quicGetUint64Field tp.initialMaxStreamDataBidiLocal
  let bidiRemote ← quicGetUint64Field tp.initialMaxStreamDataBidiRemote
  let uni ← quicGetUint64Field tp.initialMaxStreamDataUni
  let maxData ← quicGetUint64Field tp.initialMaxData
  let streamsBidi ← quicGetUint64Field tp.initialMaxStreamsBidi
  let streamsUni ← quicGetUint64Field tp.initialMaxStreamsUni
  let idleTimeout ← quicGetUint64Field tp.maxIdleTimeout
  let connectionIdLimit ← quicGetUint64Field tp.activeConnectionIdLimit
  return {
    initialMaxStreamDataBidiLocal := bidiLocal
    initialMaxStreamDataBidiRemote := bidiRemote
    initialMaxStreamDataUni := uni
    initialMaxData := maxData
    initialMaxStreamsBidi := streamsBidi
    initialMaxStreamsUni := streamsUni
    maxIdleTimeout := idleTimeout
    activeConnectionIdLimit := connectionIdLimit }

theorem bind_eq_ok {ε α β : Type} {x : Except ε α} {f : α → Except ε β} {b : β} (h : x >>= f = .ok b) :
    ∃ a, x = .ok a ∧ f a = .ok b := by
  cases x with
  | error e => cases h
  | ok a => exact ⟨a, rfl, h⟩

/-- Each field is converted. -/
theorem quicFillTransportParams_ok {tp : TransportParams Int} {p : TransportParams UInt64}
    (h : quicFillTransportParams tp = .ok p) : TransportParams.Agree (fun v u => num2ull v = .ok u) tp p := by
  unfold quicFillTransportParams quicGetUint64Field at h
  obtain ⟨_, h₁, h⟩ := bind_eq_ok h
  obtain ⟨_, h₂, h⟩ := bind_eq_ok h
  obtain ⟨_, h₃, h⟩ := bind_eq_ok h
  obtain ⟨_, h₄, h⟩ := bind_eq_ok h
  obtain ⟨_, h₅, h⟩ := bind_eq_ok h
  obtain ⟨_, h₆, h⟩ := bind_eq_ok h
  obtain ⟨_, h₇, h⟩ := bind_eq_ok h
  obtain ⟨_, h₈, h⟩ := bind_eq_ok h
  cases h
  exact ⟨h₁, h₂, h₃, h₄, h₅, h₆, h₇, h₈⟩

/-- A positive Integer that `NUM2ULL` takes is kept. -/
theorem num2ull_of_pos {v : Int} {u : UInt64} (h : num2ull v = .ok u) (hpos : 0 < v) : u.toNat = v.toNat := by
  unfold num2ull at h
  split at h
  · next hrange =>
    cases h
    rw [UInt64.ofInt, UInt64.toNat_ofNat', Int.emod_eq_of_lt (by omega) hrange.2]
    omega
  · cases h

/-- The window ngtcp2 announces for a stream is the one asked for. -/
theorem streamWindow_toNat {tp : TransportParams Int} {p : TransportParams UInt64}
    (h : quicFillTransportParams tp = .ok p) (hpos : tp.PositiveWindows) (streamId : Int) :
    (p.streamWindow streamId).toNat = (tp.streamWindow streamId).toNat := by
  have hfields := quicFillTransportParams_ok h
  unfold TransportParams.streamWindow
  split
  · exact num2ull_of_pos hfields.bidiLocal hpos.1
  split
  · exact num2ull_of_pos hfields.bidiRemote hpos.2.1
  split
  · exact num2ull_of_pos hfields.uni hpos.2.2.1
  · rfl

theorem initialMaxData_toNat {tp : TransportParams Int} {p : TransportParams UInt64}
    (h : quicFillTransportParams tp = .ok p) (hpos : tp.PositiveWindows) :
    p.initialMaxData.toNat = tp.initialMaxData.toNat :=
  num2ull_of_pos (quicFillTransportParams_ok h).maxData hpos.2.2.2

end QuicRuby
