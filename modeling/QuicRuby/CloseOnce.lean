/-
`Client#close` over whole runs. ngtcp2 enters the closing period when it
writes the CONNECTION_CLOSE, which is before the socket's `send`: until it
has written one, a close may be tried again (`Connection.Sends`); after that
every close does nothing (`Connection.Shut`), sent or not.
-/
import QuicRuby.ConnFacts

namespace QuicRuby

open Runs

/-! ## One close -/

/-- The error code is one `NUM2ULL` takes. -/
def CloseArgs.InRange (args : CloseArgs) : Prop := ∃ code, resetErrorCode args.errorCode = .ok code

/-- ngtcp2 is asked for a CONNECTION_CLOSE and writes one. -/
structure CloseWrites (k : Connection) (args : CloseArgs) (answer : Except Ngtcp2Error (List UInt8)) : Prop where
  inRange : args.InRange
  normal : k.period = .normal
  bound : k.client.sock.isSome = true
  packet : ∃ packet, answer = .ok packet ∧ packet ≠ []

/-- A close on a working socket hands over the packet ngtcp2 writes; it
returns nil without one only if ngtcp2 writes none, or cannot yet. -/
structure Connection.Sends (k : Connection) : Prop where
  sends : ∀ args sock packet, CloseArgs.InRange args → k.client.sock = some sock → packet ≠ [] →
    (quicClientCloseM args (.ok packet) none k).1 = .ok () ∧
      (quicClientCloseM args (.ok packet) none k).2.closeDatagrams = k.closeDatagrams ++ [(sock, packet)]
  returns : ∀ args answer, (quicClientCloseM args answer none k).1 = .ok () →
    answer = .error .invalidState ∨ answer = .ok [] ∨ CloseWrites k args answer

/-- A close does nothing and returns nil. -/
def Connection.Shut (k : Connection) : Prop :=
  ∀ args answer sendRaises, CloseArgs.InRange args → quicClientCloseM args answer sendRaises k = (.ok (), k)

variable {k k' : Connection}

theorem shut_of_period (h : k.period ≠ .normal) : k.Shut := by
  rintro args answer sendRaises ⟨code, hcode⟩
  simp only [quicClientCloseM, hcode, if_pos h]

theorem sends_of_period (h : k.period = .normal) : k.Sends := by
  constructor
  · rintro args sock packet ⟨code, hcode⟩ hsock hne
    have hlen : packet.length ≠ 0 := fun h0 => hne (List.length_eq_zero_iff.1 h0)
    simp [quicClientCloseM, hcode, h, hsock, hlen, Connection.log]
  · intro args answer hr
    simp only [quicClientCloseM] at hr
    split at hr
    · cases hr
    next code hcode =>
    rw [if_neg (not_not.2 h)] at hr
    split at hr
    · cases hr
    next sock hsock =>
    split at hr
    · next rv =>
      split at hr
      · next hinv => exact .inl (by rw [hinv])
      · cases hr
    · next packet =>
      by_cases hnil : packet = []
      · exact .inr (.inl (by rw [hnil]))
      · exact .inr (.inr ⟨⟨code, hcode⟩, h, by rw [hsock]; rfl, packet, rfl, hnil⟩)

/-- A CONNECTION_CLOSE written ends the normal period, whatever the socket
does. -/
theorem close_writes {args : CloseArgs} {answer : Except Ngtcp2Error (List UInt8)} (h : CloseWrites k args answer)
    (sendRaises : Option RubyError) : (quicClientCloseM args answer sendRaises k).2.period = .closing := by
  obtain ⟨⟨code, hcode⟩, hperiod, hbound, packet, rfl, hne⟩ := h
  obtain ⟨sock, hsock⟩ := Option.isSome_iff_exists.1 hbound
  have hlen : packet.length ≠ 0 := fun h0 => hne (List.length_eq_zero_iff.1 h0)
  simp only [quicClientCloseM, hcode, hperiod, ne_eq, not_true_eq_false, if_false, hsock, if_neg hlen]
  cases sendRaises <;> rfl

/-- Any other close leaves the period as it is. -/
theorem close_not_writes {args : CloseArgs} {answer : Except Ngtcp2Error (List UInt8)}
    (h : ¬ CloseWrites k args answer) (sendRaises : Option RubyError) :
    (quicClientCloseM args answer sendRaises k).2.period = k.period := by
  simp only [quicClientCloseM]
  split
  · rfl
  next code hcode =>
  split
  · rfl
  next hperiod =>
  split
  · rfl
  next sock hsock =>
  split
  · split <;> rfl
  · next packet =>
    have hlen : packet.length = 0 := by
      by_contra hne
      exact h ⟨⟨code, hcode⟩, not_not.1 hperiod, by rw [hsock]; rfl, packet, rfl,
        fun hnil => hne (by rw [hnil]; rfl)⟩
    rw [if_pos hlen]
    rfl

/-- A close that raises in the normal period, with a code in range. -/
theorem close_normal {args : CloseArgs} (hrange : args.InRange) {answer : Except Ngtcp2Error (List UInt8)}
    {sendRaises : Option RubyError} {e : RubyError} (h : (quicClientCloseM args answer sendRaises k).1 = .error e) :
    k.period = .normal := by
  by_contra hperiod
  rw [shut_of_period hperiod args answer sendRaises hrange] at h
  cases h

/-! ## Runs -/

variable {net : Nat → Except RubyError RString}

/-- No transition to draining, and no CONNECTION_CLOSE written. -/
def Undisturbed : ConnContract := fun _ k e =>
  e ≠ .enterDraining ∧ ∀ args answer sendRaises, e = .close args answer sendRaises → ¬ CloseWrites k args answer

/-- A datagram handed over leaves the normal period. -/
theorem CloseMove.datagrams {r : Except RubyError Unit} (h : CloseMove k r k') :
    k'.closeDatagrams = k.closeDatagrams ∨
      (k.period = .normal ∧ k'.period = .closing ∧ ∃ datagram, k'.closeDatagrams = k.closeDatagrams ++ [datagram]) := by
  cases h with
  | idle | unwritten | unsent => exact .inl rfl
  | sent sock _ _ packet hperiod => exact .inr ⟨hperiod, rfl, (sock, packet), rfl⟩

theorem RoundMove.closed {round : TimedRound} (h : RoundMove net round k k') :
    k'.period = k.period ∧ k'.closeDatagrams = k.closeDatagrams := by
  cases h <;> exact ⟨rfl, rfl⟩

/-- What one event does to the period and the datagrams of `close`. -/
theorem connStep_closed {e : ConnEvent} {r : Reply} (h : connStep net k e = some (r, k')) :
    (k'.period = k.period ∧ k'.closeDatagrams = k.closeDatagrams) ∨
      (e = .enterDraining ∧ k'.period = .draining ∧ k'.closeDatagrams = k.closeDatagrams) ∨
      ∃ args answer sendRaises, e = .close args answer sendRaises ∧ CloseWrites k args answer ∧
        k'.period = .closing ∧ k'.closeDatagrams.length ≤ k.closeDatagrams.length + 1 := by
  cases connStep_move h with
  | client => exact .inl ⟨rfl, rfl⟩
  | pumpOnce hp => exact .inl (pumpOnce_cases hp).1.closed
  | enterDraining => exact .inr (.inl ⟨rfl, rfl, rfl⟩)
  | close args answer sendRaises =>
    have hdatagrams := (close_cases args answer sendRaises k).datagrams
    by_cases hw : CloseWrites k args answer
    · refine .inr (.inr ⟨args, answer, sendRaises, rfl, hw, close_writes hw sendRaises, ?_⟩)
      rcases hdatagrams with hsame | ⟨-, -, datagram, hnew⟩
      · rw [hsame]
        exact Nat.le_succ _
      · rw [hnew, List.length_append, List.length_singleton]
    · have hkeeps := close_not_writes hw sendRaises
      refine .inl ⟨hkeeps, ?_⟩
      rcases hdatagrams with hsame | ⟨hnormal, hclosing, -⟩
      · exact hsame
      · rw [hclosing, hnormal] at hkeeps
        cases hkeeps

/-- In the normal period nothing was handed over, and after it one datagram
at most. -/
def CloseBound (k : Connection) : Prop :=
  k.closeDatagrams.length ≤ 1 ∧ (k.period = .normal → k.closeDatagrams = [])

theorem CloseBound.step {e : ConnEvent} {r : Reply} (h : CloseBound k) (hst : connStep net k e = some (r, k')) :
    CloseBound k' := by
  rcases connStep_closed hst with ⟨hperiod, hsent⟩ | ⟨-, hperiod, hsent⟩ | ⟨_, _, _, -, hw, hperiod, hlen⟩
  · rwa [CloseBound, hperiod, hsent]
  · refine ⟨by rw [hsent]; exact h.1, fun hnormal => ?_⟩
    rw [hperiod] at hnormal
    cases hnormal
  · rw [h.2 hw.normal] at hlen
    refine ⟨hlen, fun hnormal => ?_⟩
    rw [hperiod] at hnormal
    cases hnormal

/-- The normal period does not come back. -/
theorem shut_run {K : ConnContract} {tr tr' : ConnTrace} (h : Steps (connStep net) K tr k tr' k')
    (hperiod : k.period ≠ .normal) : k'.Shut := by
  refine shut_of_period (h.invariant (I := fun _ k => k.period ≠ .normal) hperiod ?_)
  intro tr k e r k' hI _ hst
  rcases connStep_closed hst with ⟨hkeeps, -⟩ | ⟨-, hdraining, -⟩ | ⟨_, _, _, -, hw, -⟩
  · rwa [hkeeps]
  · rw [hdraining]
    simp
  · exact absurd hw.normal hI

/-- Undisturbed, it lasts. -/
theorem sends_run {tr tr' : ConnTrace} (h : Steps (connStep net) Undisturbed tr k tr' k')
    (hperiod : k.period = .normal) : k'.Sends := by
  refine sends_of_period (h.invariant (I := fun _ k => k.period = .normal) hperiod ?_)
  intro tr k e r k' hI hK hst
  rcases connStep_closed hst with ⟨hkeeps, -⟩ | ⟨hdraining, -⟩ | ⟨_, _, _, he, hw, -⟩
  · rwa [hkeeps]
  · exact absurd hdraining hK.1
  · exact absurd hw (hK.2 _ _ _ he)

/-- **A close is sent at most once, and may be tried again until ngtcp2 has
written it.** -/
structure CloseOnce (net : Nat → Except RubyError RString) (k : Connection) : Prop where
  once : k.closeDatagrams.length ≤ 1
  /-- A close that raised, with a code in range and no packet written. -/
  retry : ∀ args answer sendRaises e, CloseArgs.InRange args → ¬ CloseWrites k args answer →
    (quicClientCloseM args answer sendRaises k).1 = .error e →
    ∀ tr k', Steps (connStep net) Undisturbed [] (quicClientCloseM args answer sendRaises k).2 tr k' → k'.Sends
  /-- A close that had the packet written, whether or not the socket took it. -/
  written : ∀ args answer sendRaises, CloseWrites k args answer →
    ∀ tr k', Steps (connStep net) .any [] (quicClientCloseM args answer sendRaises k).2 tr k' → k'.Shut

theorem close_once {o : Opening} {k₀ : Connection} (h₀ : o.connection = some (.ok k₀)) {K : ConnContract}
    {tr : ConnTrace} (h : Steps (connStep net) K [] k₀ tr k) : CloseOnce net k := by
  constructor
  · have hbound : CloseBound k := by
      refine h.invariant (I := fun _ k => CloseBound k) ?_ fun _ _ _ _ _ hI _ hst => hI.step hst
      obtain ⟨⟨settings, params, hk₀⟩, -⟩ := Opening.connection_ok h₀
      rw [hk₀]
      exact ⟨Nat.zero_le 1, fun _ => rfl⟩
    exact hbound.1
  · intro args answer sendRaises e hrange hw he tr k' hrun
    exact sends_run hrun ((close_not_writes hw sendRaises).trans (close_normal hrange he))
  · intro args answer sendRaises hw tr k' hrun
    exact shut_run hrun (by rw [close_writes hw sendRaises]; simp)

/-! ## Closing before a socket is bound, and after -/

/-- A close that raises NotBound, then one on a bound socket. -/
theorem close_once_loopback : ∃ tr k, Steps (connStep fun _ => .ok loopbackConnection.path.remoteAddr) .any []
      loopbackConnection tr k ∧ k.closeDatagrams = [(0, [64])] ∧
      CloseOnce (fun _ => .ok loopbackConnection.path.remoteAddr) k := by
  let net : Nat → Except RubyError RString := fun _ => .ok loopbackConnection.path.remoteAddr
  let k₁ : Connection := { loopbackConnection with client := { sock := some 0 } }
  have hunbound : connStep net loopbackConnection (.close {} (.ok [64]) none) =
      some (.error notBound, loopbackConnection) := rfl
  have hbind : connStep net loopbackConnection (.client (.bind 0)) = some (.ok .nil, k₁) := rfl
  have hclose : connStep net k₁ (.close {} (.ok [64]) none) = some (.ok .nil,
      { k₁ with
        period := .closing
        calls := [.writeConnectionClose 0 [] (.ok [64])]
        closeDatagrams := [(0, [64])] }) := rfl
  have hfirst : Steps (connStep net) .any [] loopbackConnection _ _ := .one trivial hunbound
  have hrun := (hfirst.tail trivial hbind).tail trivial hclose
  exact ⟨_, _, hrun, rfl, close_once loopbackOpening_connection hrun⟩

/-- What `send` raises when the peer's port is closed. -/
def connectionRefused : RubyError := .mkText .systemCallError "Connection refused - send(2)"

/-- After a close whose socket refused the packet, a close on a working socket
returns nil and hands nothing over. -/
theorem refused_close_not_sent : ∃ tr k, Steps (connStep fun _ => .ok loopbackConnection.path.remoteAddr) .any []
      loopbackConnection tr k ∧
    tr = [(.client (.bind 0), .ok .nil), (.close {} (.ok [64]) (some connectionRefused), .error connectionRefused),
      (.close {} (.ok [64]) none, .ok .nil)] ∧ k.closeDatagrams = [] := by
  let net : Nat → Except RubyError RString := fun _ => .ok loopbackConnection.path.remoteAddr
  let k₁ : Connection := { loopbackConnection with client := { sock := some 0 } }
  let k₂ : Connection := { k₁ with period := .closing, calls := [.writeConnectionClose 0 [] (.ok [64])] }
  have hbind : connStep net loopbackConnection (.client (.bind 0)) = some (.ok .nil, k₁) := rfl
  have hrefused : connStep net k₁ (.close {} (.ok [64]) (some connectionRefused)) =
      some (.error connectionRefused, k₂) := rfl
  have hagain : connStep net k₂ (.close {} (.ok [64]) none) = some (.ok .nil, k₂) := rfl
  have hfirst : Steps (connStep net) .any [] loopbackConnection _ _ := .one trivial hbind
  have hrun := (hfirst.tail trivial hrefused).tail trivial hagain
  exact ⟨_, _, hrun, rfl, rfl⟩

end QuicRuby
