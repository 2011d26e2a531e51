/-
The loop of the blocking `write`: a turn looks at the window before it
looks at the stream, and pumps while the window does not hold the whole
payload. Nothing of the payload is queued until it does.
-/
import QuicRuby.Pump

namespace QuicRuby

open Runs Loops

/-- A turn of `write` enqueues if the window holds the payload, and pumps if
not. -/
theorem quicStreamWriteM_turn {s : QuicStream} (hc : s.hasClient = true) (data : RString) (fin : Bool)
    (streamLeft connLeft : UInt64) :
    quicStreamWriteM s data fin streamLeft connLeft =
      if data.len ≤ (quicStreamWindowLeft streamLeft connLeft).toNat then some (quicStreamEnqueue s data fin)
      else none := by
  simp only [quicStreamWriteM, hc, Bool.not_true, Bool.false_eq_true, if_false, UInt64.lt_iff_toNat_lt,
    data.toUInt64_len]
  by_cases hle : data.len ≤ (quicStreamWindowLeft streamLeft connLeft).toNat
  · rw [if_pos hle, if_neg (by omega)]
  · rw [if_neg hle, if_pos (by omega)]

/-- `write_nonblock` with an empty window raises WaitWritable, whatever the
stream's state. -/
theorem quicStreamWriteNonblockM_full {s : QuicStream} (hc : s.hasClient = true) {data : RString}
    (hdata : data.len ≠ 0) (fin : Bool) {streamLeft connLeft : UInt64}
    (hwindow : ¬ 0 < (quicStreamWindowLeft streamLeft connLeft).toNat) :
    quicStreamWriteNonblockM s data fin streamLeft connLeft =
      (.error (.mkText .waitWritable "stream send window is full"), s) := by
  have hzero : quicStreamWindowLeft streamLeft connLeft = 0 := UInt64.toNat_inj.1 (by simpa using hwindow)
  simp [quicStreamWriteNonblockM, hc, hdata, hzero]

/-- The object at `ref` is there and has its client. -/
def Attached (c : Client) (ref : Nat) : Prop := ∃ s, c.objs[ref]? = some s ∧ s.hasClient = true

theorem Attached.step {c : Client} {ref : Nat} {e : Event} {r : Reply} {c' : Client} (h : Attached c ref)
    (hst : step c e = some (r, c')) : Attached c' ref := by
  obtain ⟨s, hs, hc⟩ := h
  refine ⟨_, (step_after hst).get hs, ?_⟩
  split
  · rw [(update_fixed e s).2.1, hc]
  · exact hc

theorem Attached.pumpOnce {c : Client} {ref : Nat} {round : PumpRound} {r : Except RubyError Unit}
    {c' : Client} (h : Attached c ref) (hp : pumpOnce round c = some (r, c')) : Attached c' ref := by
  obtain ⟨tr, hrun⟩ := pumpOnce_steps hp []
  exact hrun.invariant (I := fun _ c => Attached c ref) h fun _ _ _ _ _ hI _ hst => hI.step hst

theorem Reach.attached {K : ClientContract} {tr c} (h : Reach K tr c) {ref : Nat} {s : QuicStream}
    (hs : c.objs[ref]? = some s) : Attached c ref := ⟨s, hs, h.hasClient hs⟩

/-- The loop waits through these turns: each window is too small for the
payload, and the round after it completes. -/
inductive WriteWaits (data : RString) : List (UInt64 × UInt64) → List PumpRound → Client → Client → Prop
  | nil {c} : WriteWaits data [] [] c c
  | cons {w windows round rounds c c₁ c'} : (quicStreamWindowLeft w.1 w.2).toNat < data.len →
      pumpOnce round c = some (.ok (), c₁) → WriteWaits data windows rounds c₁ c' →
      WriteWaits data (w :: windows) (round :: rounds) c c'

theorem WriteWaits.attached {data : RString} {windows : List (UInt64 × UInt64)} {rounds : List PumpRound}
    {c c' : Client} (h : WriteWaits data windows rounds c c') {ref : Nat} (hatt : Attached c ref) :
    Attached c' ref := by
  induction h with
  | nil => exact hatt
  | cons _ hp _ ih => exact ih (hatt.pumpOnce hp)

section
variable {ref : Nat} {data : RString} {fin : Bool} {c c' : Client}

/-- Waiting uses up its windows and rounds and nothing else. -/
theorem streamWrite_waits {windows : List (UInt64 × UInt64)} {rounds : List PumpRound}
    (h : WriteWaits data windows rounds c c') (hatt : Attached c ref) (moreWindows : List (UInt64 × UInt64))
    (moreRounds : List PumpRound) :
    streamWrite ref data fin (windows ++ moreWindows) (rounds ++ moreRounds) c =
      streamWrite ref data fin moreWindows moreRounds c' := by
  induction h with
  | nil => rfl
  | cons hw hp _ ih =>
    obtain ⟨s, hs, hc⟩ := hatt
    rw [List.cons_append, List.cons_append, streamWrite]
    simp only [hs, quicStreamWriteM_turn hc, if_neg (Nat.not_le.2 hw), hp]
    exact ih (Attached.pumpOnce ⟨s, hs, hc⟩ hp)

/-- A turn whose window holds the payload ends the loop. -/
theorem streamWrite_holds {s : QuicStream} (hs : c.objs[ref]? = some s) (hc : s.hasClient = true)
    {w : UInt64 × UInt64} (hw : data.len ≤ (quicStreamWindowLeft w.1 w.2).toNat)
    (windows : List (UInt64 × UInt64)) (rounds : List PumpRound) :
    streamWrite ref data fin (w :: windows) rounds c =
      some ((quicStreamEnqueue s data fin).1, c.modify ref fun _ => (quicStreamEnqueue s data fin).2) := by
  rw [streamWrite]
  simp only [hs, quicStreamWriteM_turn hc, if_pos hw]

/-- A turn whose window does not hold it makes a round. -/
theorem streamWrite_pumps (hatt : Attached c ref) {w : UInt64 × UInt64}
    (hw : (quicStreamWindowLeft w.1 w.2).toNat < data.len) (windows : List (UInt64 × UInt64)) :
    streamWrite ref data fin (w :: windows) [] c = none := by
  obtain ⟨s, hs, hc⟩ := hatt
  rw [streamWrite]
  simp only [hs, quicStreamWriteM_turn hc, if_neg (Nat.not_le.2 hw)]

end

/-- With windows that never hold the payload, `write` does not return: it
waits on, or raises what a round raises. -/
theorem streamWrite_never {ref : Nat} {data : RString} {fin : Bool} {windows : List (UInt64 × UInt64)}
    (hw : ∀ w ∈ windows, (quicStreamWindowLeft w.1 w.2).toNat < data.len) {rounds : List PumpRound}
    {c : Client} (hatt : Attached c ref) {r : Except RubyError Nat} {c' : Client}
    (h : streamWrite ref data fin windows rounds c = some (r, c')) :
    ∃ e pre round rest c₁, r = .error e ∧ rounds = pre ++ round :: rest ∧ pumpAll pre c = some c₁ ∧
      pumpOnce round c₁ = some (.error e, c') := by
  induction windows generalizing rounds c with
  | nil => cases h
  | cons w windows ih =>
    have hsmall := hw w List.mem_cons_self
    cases rounds with
    | nil => rw [streamWrite_pumps hatt hsmall] at h; cases h
    | cons round rounds =>
      obtain ⟨s, hs, hc⟩ := hatt
      rw [streamWrite] at h
      simp only [hs, quicStreamWriteM_turn hc, if_neg (Nat.not_le.2 hsmall)] at h
      split at h
      · cases h
      · next e c₁ hp =>
        cases h
        exact ⟨e, [], round, rounds, c, rfl, rfl, rfl, hp⟩
      · next c₁ hp =>
        obtain ⟨e, pre, round', rest, c₂, rfl, rfl, hall, hp'⟩ :=
          ih (fun w hm => hw w (List.mem_cons_of_mem _ hm)) (Attached.pumpOnce ⟨s, hs, hc⟩ hp) h
        refine ⟨e, round :: pre, round', rest, c₂, rfl, rfl, ?_, hp'⟩
        rw [pumpAll, hp]
        exact hall

end QuicRuby
