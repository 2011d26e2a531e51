/-
What one event does to a connection: to the client (a run of the machine of
`QuicRuby.System`), to the socket bound, and to the rest (`RoundMove`,
`CloseMove`); and how a connection starts (`Opening`).
-/
import QuicRuby.Connection

namespace QuicRuby

open Runs

/-! ## The socket -/

theorem writePkt_sock (buffer : Option Encoding) (answer : WritevAnswer) (c : Client) :
    (quicClientWritePkt (fun _ => answer) buffer c).2.sock = c.sock := by
  by_cases hb : buffer = some .other
  · subst hb
    rfl
  · simp only [quicClientWritePkt, if_neg hb]
    split
    · rfl
    · split <;> split <;> rfl

theorem runCallback_sock (cb : Callback) (c : Client) : (runCallback c cb).sock = c.sock := by
  cases cb with
  | streamOpen id => simp only [runCallback, quicStreamOpenCb]; split <;> rfl
  | recvStreamData => simp only [runCallback, quicRecvStreamDataCb]; split <;> (try split) <;> rfl
  | ackedStreamDataOffset => simp only [runCallback, quicAckedStreamDataOffsetCb]; split <;> rfl
  | streamClose => simp only [runCallback, quicStreamCloseCb]; split <;> rfl
  | streamReset => simp only [runCallback, quicStreamResetCb]; split <;> rfl

/-- A round keeps the socket. -/
theorem pumpOnce_sock {round : PumpRound} {c : Client} {r c'} (h : pumpOnce round c = some (r, c')) :
    c'.sock = c.sock :=
  pumpOnce_keeps (I := fun c' => c'.sock = c.sock) (fun answer c' hc' => (writePkt_sock none answer c').trans hc')
    (fun cb _ c' hc' => (runCallback_sock cb c').trans hc') h rfl

/-- Only `bind` changes the socket. -/
theorem step_sock {c : Client} {e : Event} {r : Reply} {c' : Client} (h : step c e = some (r, c')) :
    c'.sock = c.sock ∨ ∃ sock, e = .bind sock ∧ c'.sock = some sock := by
  cases e with
  | openBidiStream answer | openUniStream answer =>
    cases h
    left
    cases answer <;> rfl
  | write =>
    simp only [step, Option.bind_eq_some_iff, Option.map_eq_some_iff, Prod.mk.injEq] at h
    obtain ⟨_, -, _, -, -, rfl⟩ := h
    exact .inl rfl
  | writeNonblock | closeWrite | readNonblock | closeRead | close | reset =>
    simp only [step, Client.call, Option.map_eq_some_iff, Prod.mk.injEq] at h
    obtain ⟨_, -, -, rfl⟩ := h
    exact .inl rfl
  | writePkt buffer answer =>
    cases h
    exact .inl (writePkt_sock buffer answer c)
  | acceptStreamNonblock =>
    cases h
    left
    show (QuicRuby.acceptStreamNonblock c).2.sock = c.sock
    unfold QuicRuby.acceptStreamNonblock
    split <;> rfl
  | bind sock =>
    cases h
    exact .inr ⟨sock, rfl, rfl⟩
  | callback cb =>
    cases h
    exact .inl (runCallback_sock cb c)
  | maxStreamData | maxData =>
    cases h
    exact .inl rfl

/-! ## A round -/

variable {net : Nat → Except RubyError RString}

/-- The address `pump_local_sockaddr` gives. -/
def Connection.pumpLocalAddr (k : Connection) : RString := k.pumpLocalSockaddr.getD anySockaddr

theorem pumpLocal_eq (k : Connection) :
    k.pumpLocal = (k.pumpLocalAddr, { k with pumpLocalSockaddr := some k.pumpLocalAddr }) := by
  obtain ⟨path, settings, params, c, period, memo, remote, calls, sent⟩ := k
  cases memo <;> rfl

/-- `pump_remote_sockaddr` gives the socket's address, or the one it gave
before. -/
theorem pumpRemote_cases (net : Nat → Except RubyError RString) (sock : Nat) (k : Connection) :
    (∃ e, k.pumpRemote net sock = (.error e, k)) ∨
      ∃ addr, (k.pumpRemoteSockaddr = some addr ∨ net sock = .ok addr) ∧
        k.pumpRemote net sock = (.ok addr, { k with pumpRemoteSockaddr := some addr }) := by
  obtain ⟨path, settings, params, c, period, memo, remote, calls, sent⟩ := k
  cases remote with
  | some addr => exact .inr ⟨addr, .inl rfl, rfl⟩
  | none =>
    cases hnet : net sock with
    | error e => exact .inl ⟨e, by simp only [Connection.pumpRemote, hnet]⟩
    | ok addr => exact .inr ⟨addr, .inr rfl, by simp only [Connection.pumpRemote, hnet]⟩

/-- How a round leaves the connection, the client apart. -/
inductive RoundMove (net : Nat → Except RubyError RString) (round : TimedRound) (k : Connection) :
    Connection → Prop
  /-- It raised, before there was a datagram. -/
  | raised (c : Client) : RoundMove net round k { k with client := c }
  | timedOut (c : Client) :
      RoundMove net round k { k with client := c, calls := k.calls ++ [.handleExpiry round.expiryRv] }
  /-- The socket did not tell its remote address. -/
  | unresolved (c : Client) :
      RoundMove net round k { k with client := c, pumpLocalSockaddr := some k.pumpLocalAddr }
  | received (c : Client) {sock : Nat} {remoteAddr : RString} (hsock : k.client.sock = some sock)
      (hremote : k.pumpRemoteSockaddr = some remoteAddr ∨ net sock = .ok remoteAddr) :
      RoundMove net round k
        { k with
          client := c
          pumpLocalSockaddr := some k.pumpLocalAddr
          pumpRemoteSockaddr := some remoteAddr
          calls := k.calls ++ [.readPkt ⟨k.pumpLocalAddr, remoteAddr⟩ round.readRv] }

/-- What a datagram does: to the client what `read_pkt` or the exception does,
and to the rest one of the moves. -/
theorem receive_cases {round : TimedRound} {k₀ : Connection} {c : Client} {sock : Nat}
    (hsock : k₀.client.sock = some sock) {r k'}
    (h : { k₀ with client := c : Connection }.receive net sock round = (r, k')) :
    RoundMove net round k₀ k' ∧
      ((∃ e, r = .error e ∧ k'.client = c) ∨ (r, k'.client) = quicClientReadPkt round.callbacks round.readRv c) := by
  simp only [Connection.receive] at h
  split at h
  · next e _ =>
    cases h
    exact ⟨.raised c, .inl ⟨e, rfl, rfl⟩⟩
  rw [pumpLocal_eq] at h
  rcases pumpRemote_cases net sock
    { k₀ with client := c, pumpLocalSockaddr := some k₀.pumpLocalAddr } with ⟨e, he⟩ | ⟨addr, haddr, he⟩
  · simp only [Connection.pumpLocalAddr] at h he
    rw [he] at h
    cases h
    exact ⟨.unresolved c, .inl ⟨e, rfl, rfl⟩⟩
  · simp only [Connection.pumpLocalAddr] at h he
    rw [he] at h
    cases h
    exact ⟨.received (round.callbacks.foldl runCallback c) hsock haddr, .inr rfl⟩

/-- **A round by its ends.** -/
theorem pumpOnce_cases {round : TimedRound} {k : Connection} {r k'} (h : k.pumpOnce net round = some (r, k')) :
    RoundMove net round k k' ∧ ∃ wakeup, pumpOnce ⟨round.writes, wakeup⟩ k.client = some (r, k'.client) := by
  simp only [Connection.pumpOnce] at h
  split at h
  · next hsock =>
    cases h
    exact ⟨.raised k.client, .timeout none, by simp [pumpOnce, hsock]⟩
  next sock hsock =>
  have hbound : k.client.sock.isNone = false := by rw [hsock]; rfl
  split at h
  · cases h
  · next e c hd =>
    cases h
    exact ⟨.raised c, .timeout none, by simp [pumpOnce, hbound, hd]⟩
  next c hd =>
  split at h
  · cases h
  · next e _ =>
    cases h
    exact ⟨.raised c, .recvfromRaises e, by simp [pumpOnce, hbound, hd]⟩
  · obtain ⟨hmove, ⟨e, rfl, hc⟩ | hread⟩ := receive_cases hsock (Option.some.inj h)
    · exact ⟨hmove, .recvfromRaises e, by simp [pumpOnce, hbound, hd, hc]⟩
    · exact ⟨hmove, .datagram round.callbacks round.readRv, by simp [pumpOnce, hbound, hd, hread]⟩
  · cases h
    exact ⟨.timedOut c, .timeout round.expiryRv, by simp [pumpOnce, hbound, hd, Connection.log]⟩

/-- A round does to the client what a round without time and addresses does. -/
theorem pumpOnce_client {round : TimedRound} {k : Connection} {r k'} (h : k.pumpOnce net round = some (r, k')) :
    ∃ wakeup, pumpOnce ⟨round.writes, wakeup⟩ k.client = some (r, k'.client) :=
  (pumpOnce_cases h).2

/-! ## close -/

/-- How a close leaves the connection. -/
inductive CloseMove (k : Connection) : Except RubyError Unit → Connection → Prop
  /-- Nothing was done: a code out of range, a connection closed before, or no
  socket. -/
  | idle {r} : CloseMove k r k
  /-- ngtcp2 wrote no packet. -/
  | unwritten {r} (code : UInt64) (reason : List UInt8) (answer : Except Ngtcp2Error (List UInt8)) :
      CloseMove k r (k.log (.writeConnectionClose code reason answer))
  /-- The socket's `send` raised. -/
  | unsent (e : RubyError) (code : UInt64) (reason : List UInt8) (packet : List UInt8)
      (hperiod : k.period = .normal) :
      CloseMove k (.error e) { k.log (.writeConnectionClose code reason (.ok packet)) with period := .closing }
  | sent (sock : Nat) (code : UInt64) (reason : List UInt8) (packet : List UInt8) (hperiod : k.period = .normal) :
      CloseMove k (.ok ())
        { k.log (.writeConnectionClose code reason (.ok packet)) with
          period := .closing
          closeDatagrams := k.closeDatagrams ++ [(sock, packet)] }

theorem CloseMove.client {k : Connection} {r k'} (h : CloseMove k r k') : k'.client = k.client := by
  cases h <;> rfl

theorem close_cases (args : CloseArgs) (answer : Except Ngtcp2Error (List UInt8)) (sendRaises : Option RubyError)
    (k : Connection) :
    CloseMove k (quicClientCloseM args answer sendRaises k).1 (quicClientCloseM args answer sendRaises k).2 := by
  simp only [quicClientCloseM]
  split
  · exact .idle
  next code _ =>
  split
  · exact .idle
  next hperiod =>
  split
  · exact .idle
  next sock _ =>
  split
  · split <;> exact .unwritten _ _ _
  · split
    · exact .unwritten _ _ _
    · cases sendRaises with
      | some e => exact .unsent e _ _ _ (not_not.1 hperiod)
      | none => exact .sent sock _ _ _ (not_not.1 hperiod)

/-! ## Steps and runs -/

/-- What an event does to a connection, by its method. -/
inductive ConnMove (net : Nat → Except RubyError RString) (k : Connection) : ConnEvent → Connection → Prop
  | client {e : Event} {r : Reply} {c : Client} (hst : step k.client e = some (r, c)) :
      ConnMove net k (.client e) { k with client := c }
  | pumpOnce {round : TimedRound} {r : Except RubyError Unit} {k' : Connection}
      (hp : k.pumpOnce net round = some (r, k')) : ConnMove net k (.pumpOnce round) k'
  | close (args : CloseArgs) (answer : Except Ngtcp2Error (List UInt8)) (sendRaises : Option RubyError) :
      ConnMove net k (.close args answer sendRaises) (quicClientCloseM args answer sendRaises k).2
  | enterDraining : ConnMove net k .enterDraining { k with period := .draining }

theorem connStep_move {k : Connection} {e : ConnEvent} {r : Reply} {k' : Connection}
    (h : connStep net k e = some (r, k')) : ConnMove net k e k' := by
  cases e with
  | client e =>
    simp only [connStep, Option.map_eq_some_iff] at h
    obtain ⟨res, hst, hk⟩ := h
    cases hk
    exact .client hst
  | pumpOnce round =>
    simp only [connStep, Option.map_eq_some_iff] at h
    obtain ⟨res, hp, hk⟩ := h
    cases hk
    exact .pumpOnce hp
  | close args answer sendRaises =>
    cases h
    exact .close args answer sendRaises
  | enterDraining =>
    cases h
    exact .enterDraining

/-- **The client of a connection makes runs of its own.** -/
theorem ConnMove.client_run {k : Connection} {e : ConnEvent} {k' : Connection} (h : ConnMove net k e k')
    (tr : ClientTrace) : ∃ tr', Steps step .any tr k.client tr' k'.client := by
  cases h with
  | client hst => exact ⟨_, .one trivial hst⟩
  | pumpOnce hp =>
    obtain ⟨wakeup, hp'⟩ := pumpOnce_client hp
    obtain ⟨tr', hrun⟩ := pumpOnce_steps hp' tr
    exact ⟨tr', hrun.mono fun _ _ _ _ => trivial⟩
  | close args answer sendRaises =>
    rw [(close_cases args answer sendRaises k).client]
    exact ⟨tr, .refl⟩
  | enterDraining => exact ⟨tr, .refl⟩

theorem connRun_client {K : ConnContract} {tr : ConnTrace} {k : Connection} {tr' k'}
    (h : Steps (connStep net) K tr k tr' k') (trc : ClientTrace) :
    ∃ trc', Steps step .any trc k.client trc' k'.client := by
  induction h with
  | refl => exact ⟨trc, .refl⟩
  | tail _ _ hst ih =>
    obtain ⟨tr₁, h₁⟩ := ih
    obtain ⟨tr₂, h₂⟩ := (connStep_move hst).client_run tr₁
    exact ⟨tr₂, h₁.trans h₂⟩

/-- Only `bind` changes the socket of a connection. -/
theorem ConnMove.sock {k : Connection} {e : ConnEvent} {k' : Connection} (h : ConnMove net k e k') :
    k'.client.sock = k.client.sock ∨ ∃ sock, e = .client (.bind sock) ∧ k'.client.sock = some sock := by
  cases h with
  | client hst => exact (step_sock hst).imp id fun ⟨sock, he, hs⟩ => ⟨sock, by rw [he], hs⟩
  | pumpOnce hp =>
    obtain ⟨wakeup, hp'⟩ := pumpOnce_client hp
    exact .inl (pumpOnce_sock hp')
  | close args answer sendRaises =>
    left
    rw [(close_cases args answer sendRaises k).client]
  | enterDraining => exact .inl rfl

/-! ## Creating a client -/

/-- How a client is created. -/
inductive Opening
  | new (env : OpenEnv) (resolve : AddressFamily → Except RubyError RString) (host : RString)
      (addressFamily : AddressFamily) (transportParams : Option (TransportParams Int)) (settings : Option Settings)
  | openWith (env : OpenEnv) (args : OpenArgs)

def Opening.connection : Opening → Option (Except RubyError Connection)
  | .new env resolve host addressFamily transportParams settings =>
    clientNew env resolve host addressFamily transportParams settings
  | .openWith env args => quicClientOpen env (some args)

/-- The local address given is `0.0.0.0:0`; `Client.new` gives no other. -/
def Opening.LocalAny : Opening → Prop
  | .new .. => True
  | .openWith _ args => args.localSockaddr.map Prod.snd = some anySockaddr

theorem openConn_ok {env : OpenEnv} {path : Path} {tp : TransportParams Int} {st : Settings} {alpnSet : Bool}
    {k : Connection} (h : openConn env path tp st alpnSet = .ok k) :
    ∃ settings params, k = { path := path, settings := settings, params := params } := by
  unfold openConn at h
  obtain ⟨_, -, h⟩ := bind_eq_ok h
  obtain ⟨_, -, h⟩ := bind_eq_ok h
  obtain ⟨_, -, h⟩ := bind_eq_ok h
  obtain ⟨settings, -, h⟩ := bind_eq_ok h
  obtain ⟨params, -, h⟩ := bind_eq_ok h
  split at h
  · cases h
  · cases h
    exact ⟨settings, params, rfl⟩

/-- A connection starts with the two addresses given and nothing else. -/
theorem quicClientOpen_ok {env : OpenEnv} {args : OpenArgs} {k : Connection}
    (h : quicClientOpen env (some args) = some (.ok k)) :
    (∃ settings params, k = { path := k.path, settings := settings, params := params }) ∧
      args.localSockaddr.map Prod.snd = some k.path.localAddr := by
  simp only [quicClientOpen] at h
  split at h
  · next hlocal _ _ _ _ =>
    rw [hlocal]
    split at h
    · cases h
    · cases h
    · cases h
    · obtain ⟨settings, params, rfl⟩ := openConn_ok (Option.some.inj h)
      exact ⟨⟨settings, params, rfl⟩, rfl⟩
    · obtain ⟨settings, params, rfl⟩ := openConn_ok (Option.some.inj h)
      exact ⟨⟨settings, params, rfl⟩, rfl⟩
  · cases h

/-- The same for both ways of creating one: the local address is the one
given, `0.0.0.0:0` for `Client.new`. -/
theorem Opening.connection_ok {o : Opening} {k : Connection} (h : o.connection = some (.ok k)) :
    (∃ settings params, k = { path := k.path, settings := settings, params := params }) ∧
      (o.LocalAny ↔ k.path.localAddr = anySockaddr) := by
  cases o with
  | new env resolve host addressFamily transportParams settings =>
    simp only [Opening.connection, clientNew] at h
    split at h
    · cases h
    split at h
    · cases h
    obtain ⟨hfresh, hlocal⟩ := quicClientOpen_ok h
    exact ⟨hfresh, iff_of_true trivial (Option.some.inj hlocal).symm⟩
  | openWith env args =>
    obtain ⟨hfresh, hlocal⟩ := quicClientOpen_ok h
    exact ⟨hfresh, by simp only [Opening.LocalAny, hlocal, Option.some.injEq]⟩

/-! ## A client opened for 127.0.0.1:40000 -/

/-- A client opened as a program that binds its socket first opens one: to
127.0.0.1:4433, with the address the socket has. -/
def loopbackOpening : Opening :=
  .openWith {}
    { localSockaddr := some (.binary, ⟨[2, 0, 156, 64, 127, 0, 0, 1, 0, 0, 0, 0, 0, 0, 0, 0], by decide⟩)
      remoteSockaddr := some (.binary, ⟨[2, 0, 17, 81, 127, 0, 0, 1, 0, 0, 0, 0, 0, 0, 0, 0], by decide⟩)
      serverName := some ⟨[108, 111, 99, 97, 108, 104, 111, 115, 116], by decide⟩
      transportParams := some .default
      settings := some .default }

def loopbackConnection : Connection :=
  { path :=
      { localAddr := ⟨[2, 0, 156, 64, 127, 0, 0, 1, 0, 0, 0, 0, 0, 0, 0, 0], by decide⟩
        remoteAddr := ⟨[2, 0, 17, 81, 127, 0, 0, 1, 0, 0, 0, 0, 0, 0, 0, 0], by decide⟩ }
    settings :=
      { initialTs := 0
        ccAlgo := .cubic
        initialRtt := 333000000
        maxWindow := 0
        maxStreamWindow := 0
        handshakeTimeout := 10000000000
        noPmtud := false }
    params :=
      { initialMaxStreamDataBidiLocal := 262144
        initialMaxStreamDataBidiRemote := 262144
        initialMaxStreamDataUni := 262144
        initialMaxData := 1048576
        initialMaxStreamsBidi := 100
        initialMaxStreamsUni := 100
        maxIdleTimeout := 30000000000
        activeConnectionIdLimit := 7 } }

theorem loopbackOpening_connection : loopbackOpening.connection = some (.ok loopbackConnection) := rfl

end QuicRuby
