/-
The connection around the streams: how a client is created (`Client.new`,
`Client._open`), `pump_once` with its clock and its socket, and
`Client#close`.

Times are in seconds, as exact rationals; the program uses floats for them
(the difference to the clock in nanoseconds, divided by 10^9). `QuicRuby.Pump`
has the same `pump_once` without time and addresses; `pumpOnce_client` says
that this one does the same to the client.
-/
import Mathlib.Algebra.Order.Ring.Unbundled.Rat
import QuicRuby.Pump
import QuicRuby.Settings

namespace QuicRuby

open Runs

/-! ## The connection -/

/-- `ngtcp2_path`: two socket addresses, byte for byte. -/
structure Path where
  localAddr : RString
  remoteAddr : RString
deriving DecidableEq, Repr

/-- Where an `ngtcp2_conn` is in its life. -/
inductive Period
  | normal
  | closing
  | draining
deriving DecidableEq, Repr

/-- The calls made on the `ngtcp2_conn` that are about no stream. The answer
to `writeConnectionClose` is the packet written. -/
inductive ConnCall
  | readPkt (path : Path) (rv : Option Ngtcp2Error)
  | handleExpiry (rv : Option Ngtcp2Error)
  | writeConnectionClose (errorCode : UInt64) (reason : List UInt8)
      (answer : Except Ngtcp2Error (List UInt8))

/-- A client with its `ngtcp2_conn`: what `ngtcp2_conn_client_new` was given,
the period it is in, the two memoised socket addresses, the calls made, and
the CONNECTION_CLOSE datagrams a socket took. -/
structure Connection where
  path : Path
  settings : Ngtcp2Settings
  params : TransportParams UInt64
  client : Client := {}
  period : Period := .normal
  pumpLocalSockaddr : Option RString := none
  pumpRemoteSockaddr : Option RString := none
  calls : List ConnCall := []
  closeDatagrams : List (Nat × List UInt8) := []

/-! ## Client._open -/

/-- The keywords of `_open`; `none` is nil or not given. -/
structure OpenArgs where
  localSockaddr : Option (Encoding × RString)
  remoteSockaddr : Option (Encoding × RString)
  serverName : Option RString
  transportParams : Option (TransportParams Int)
  settings : Option Settings

/-- What the libraries answer during `_open`: whether each call succeeds, the
stack under the ALPN buffer, the clock, and what `ngtcp2_conn_client_new`
returns. -/
structure OpenEnv where
  cryptoInit : Bool := true
  sslCtx : Bool := true
  clientContext : Bool := true
  ssl : Bool := true
  setAlpnProtos : Bool := true
  scid : Bool := true
  dcid : Bool := true
  stack : Nat → UInt8 := fun _ => 0
  now : UInt64 := 0
  clientNew : Option Ngtcp2Error := none

/-- `quic_require_binary`. -/
def quicRequireBinary (encoding : Encoding) (name : String) : Except RubyError Unit :=
  match encoding with
  | .binary => .ok ()
  | .other => .error (.mkText .argumentError s!"{name} must be ASCII-8BIT (binary) encoding")

/-- `rb_raise(rb_eRuntimeError, ...)` unless the call succeeds. -/
def raiseUnless (succeeds : Bool) (text : String) : Except RubyError Unit :=
  if succeeds then .ok () else .error (.mkText .runtimeError text)

/-- The part of `quic_client_open` up to the ALPN block. -/
def openSsl (env : OpenEnv) (localEnc remoteEnc : Encoding) : Except RubyError Unit := do
  quicRequireBinary localEnc "local_sockaddr"
  quicRequireBinary remoteEnc "remote_sockaddr"
  raiseUnless env.cryptoInit "ngtcp2_crypto_quictls_init failed"
  raiseUnless env.sslCtx "SSL_CTX_new failed"
  raiseUnless env.clientContext "ngtcp2_crypto_quictls_configure_client_context failed"
  raiseUnless env.ssl "SSL_new failed"

/-- The part after it. -/
def openConn (env : OpenEnv) (path : Path) (tp : TransportParams Int) (st : Settings) (alpnSet : Bool) :
    Except RubyError Connection := do
  raiseUnless (!alpnSet || env.setAlpnProtos) "SSL_set_alpn_protos failed"
  raiseUnless env.scid "RAND_bytes(scid) failed"
  raiseUnless env.dcid "RAND_bytes(dcid) failed"
  let settings ← quicFillSettings env.now st
  let params ← quicFillTransportParams tp
  match env.clientNew with
  | some rv => .error (quicRaiseNgtcp2Error rv)
  | none => .ok { path := path, settings := settings, params := params }

/-- `quic_client_open`. `none`: the ALPN block has overrun the stack. -/
def quicClientOpen (env : OpenEnv) : Option OpenArgs → Option (Except RubyError Connection)
  | none =>
    some (.error (.mkText .argumentError
      "missing keywords: local_sockaddr, remote_sockaddr, server_name, transport_params, settings"))
  | some opts =>
    match opts.localSockaddr, opts.remoteSockaddr, opts.serverName, opts.transportParams, opts.settings with
    | some (localEnc, localAddr), some (remoteEnc, remoteAddr), some _, some tp, some st =>
      match openSsl env localEnc remoteEnc, quicSetAlpn env.stack st.alpn with
      | .error e, _ => some (.error e)
      | .ok (), .error e => some (.error e)
      | .ok (), .ok .overrun => none
      | .ok (), .ok .unset => some (openConn env ⟨localAddr, remoteAddr⟩ tp st false)
      | .ok (), .ok (.setProtos _ _) => some (openConn env ⟨localAddr, remoteAddr⟩ tp st true)
    | _, _, _, _, _ =>
      some (.error (.mkText .argumentError
        "all keywords required: local_sockaddr, remote_sockaddr, server_name, transport_params, settings"))

/-! ## Client.new -/

/-- The `address_family:` given: nil, `:inet`, `:inet6`, or something else,
with what it inspects as. -/
inductive AddressFamily
  | unspecified
  | inet
  | inet6
  | other (inspect : String)
deriving DecidableEq, Repr

/-- `Addrinfo.udp("0.0.0.0", 0).to_sockaddr`, as Linux lays it out. -/
def anySockaddr : RString := ⟨[2, 0, 0, 0, 0, 0, 0, 0, 0, 0, 0, 0, 0, 0, 0, 0], by decide⟩

/-- `Client.new`. `resolve` is the resolver: the sockaddr of the first address
of the family, or what it raises. -/
def clientNew (env : OpenEnv) (resolve : AddressFamily → Except RubyError RString) (host : RString)
    (addressFamily : AddressFamily) (transportParams : Option (TransportParams Int)) (settings : Option Settings) :
    Option (Except RubyError Connection) :=
  match addressFamily with
  | .other inspect => some (.error (.mkText .argumentError s!"unknown address_family: {inspect}"))
  | family =>
    match resolve family with
    | .error e => some (.error e)
    | .ok remoteSockaddr =>
      quicClientOpen env (some
        { localSockaddr := some (.binary, anySockaddr)
          remoteSockaddr := some (.binary, remoteSockaddr)
          serverName := some host
          transportParams := some (transportParams.getD .default)
          settings := some (settings.getD .default) })

/-! ## pump_once -/

/-- `quic_client_expiry`: nil for `UINT64_MAX`. -/
def quicClientExpiry (t : UInt64) : Option UInt64 := if t = 0xFFFFFFFFFFFFFFFF then none else some t

/-- `pump_timeout`, with the clock in nanoseconds. -/
def pumpTimeout (expiry : Option UInt64) (nowNs : Nat) (callerTimeout : Option Rat) : Option Rat :=
  match expiry with
  | none => callerTimeout
  | some ngtcp2ExpiryNs =>
    let expirySecs := max (((ngtcp2ExpiryNs.toNat : Rat) - nowNs) / 1000000000) 0
    match callerTimeout with
    | none => some expirySecs
    | some timeout => some (min timeout expirySecs)

/-- `IO.select([@sock], nil, nil, wait)`: whether the socket is ready, which it
is `arrival` seconds from now, if ever. `none`: it waits for ever. -/
def ioSelect (arrival wait : Option Rat) : Option (Except RubyError Bool) :=
  match wait with
  | none => arrival.map fun _ => .ok true
  | some wait =>
    if wait < 0 then some (.error (.mkText .argumentError "time interval must not be negative"))
    else some (.ok (arrival.any (· ≤ wait)))

/-- What a round meets: the `timeout:` given, ngtcp2's answers to its
`write_pkt` calls, ngtcp2's expiry and the clock at its wait, when a datagram
can be read, what `recvfrom` raises, if anything, and what `read_pkt` and
`handle_expiry` do. -/
structure TimedRound where
  timeout : Option Rat := none
  writes : List (WritevAnswer × Option RubyError)
  expiry : UInt64
  nowNs : Nat
  arrival : Option Rat
  recvfromRaises : Option RubyError := none
  callbacks : List Callback := []
  readRv : Option Ngtcp2Error := none
  expiryRv : Option Ngtcp2Error := none

/-- `wait_for`. -/
def TimedRound.waitFor (round : TimedRound) : Option Rat :=
  pumpTimeout (quicClientExpiry round.expiry) round.nowNs round.timeout

namespace Connection

def log (k : Connection) (call : ConnCall) : Connection := { k with calls := k.calls ++ [call] }

/-- `pump_local_sockaddr`. -/
def pumpLocal (k : Connection) : RString × Connection :=
  match k.pumpLocalSockaddr with
  | some sockaddr => (sockaddr, k)
  | none => (anySockaddr, { k with pumpLocalSockaddr := some anySockaddr })

/-- `pump_remote_sockaddr`; `net` is `remote_address.to_sockaddr` of a socket. -/
def pumpRemote (net : Nat → Except RubyError RString) (sock : Nat) (k : Connection) :
    Except RubyError RString × Connection :=
  match k.pumpRemoteSockaddr with
  | some sockaddr => (.ok sockaddr, k)
  | none =>
    match net sock with
    | .error e => (.error e, k)
    | .ok sockaddr => (.ok sockaddr, { k with pumpRemoteSockaddr := some sockaddr })

/-- `read_pkt`, of a datagram that makes these callbacks. -/
def readPkt (path : Path) (callbacks : List Callback) (rv : Option Ngtcp2Error) (k : Connection) :
    Except RubyError Unit × Connection :=
  let (r, c) := quicClientReadPkt callbacks rv k.client
  (r, { k.log (.readPkt path rv) with client := c })

/-- `handle_expiry`. -/
def handleExpiry (rv : Option Ngtcp2Error) (k : Connection) : Except RubyError Unit × Connection :=
  (raiseUnlessZero rv, k.log (.handleExpiry rv))

/-- What `pump_once` does with a datagram: the two addresses, then `read_pkt`. -/
def receive (net : Nat → Except RubyError RString) (sock : Nat) (round : TimedRound) (k : Connection) :
    Except RubyError Unit × Connection :=
  match round.recvfromRaises with
  | some e => (.error e, k)
  | none =>
    match k.pumpLocal.2.pumpRemote net sock with
    | (.error e, k') => (.error e, k')
    | (.ok remoteAddr, k') => k'.readPkt ⟨k.pumpLocal.1, remoteAddr⟩ round.callbacks round.readRv

/-- `pump_once`. `none`: the round never ends. -/
def pumpOnce (net : Nat → Except RubyError RString) (round : TimedRound) (k : Connection) :
    Option (Except RubyError Unit × Connection) :=
  match k.client.sock with
  | none => some (.error notBound, k)
  | some sock =>
    match drainPackets round.writes k.client with
    | none => none
    | some (.error e, c) => some (.error e, { k with client := c })
    | some (.ok (), c) =>
      match ioSelect round.arrival round.waitFor with
      | none => none
      | some (.error e) => some (.error e, { k with client := c })
      | some (.ok true) => some ({ k with client := c }.receive net sock round)
      | some (.ok false) => some ({ k with client := c }.handleExpiry round.expiryRv)

end Connection

/-! ## Client#close -/

/-- The keywords of `close`; `none` is nil or not given. -/
structure CloseArgs where
  errorCode : Option Int := none
  reason : Option RString := none

/-- `quic_client_close_m`: `answer` is what `ngtcp2_conn_write_connection_close`
gives, and it moves the connection to the closing period when that is a
packet. `sendRaises` is what the socket's `send` raises, if anything. -/
def quicClientCloseM (args : CloseArgs) (answer : Except Ngtcp2Error (List UInt8)) (sendRaises : Option RubyError)
    (k : Connection) : Except RubyError Unit × Connection :=
  match resetErrorCode args.errorCode with
  | .error e => (.error e, k)
  | .ok errorCode =>
    if k.period ≠ .normal then (.ok (), k)
    else
      match k.client.sock with
      | none => (.error notBound, k)
      | some sock =>
        let reason := (args.reason.map RString.bytes).getD []
        let k := k.log (.writeConnectionClose errorCode reason answer)
        match answer with
        | .error rv => if rv = .invalidState then (.ok (), k) else (.error (quicRaiseNgtcp2Error rv), k)
        | .ok packet =>
          if packet.length = 0 then (.ok (), k)
          else
            let k := { k with period := .closing }
            match sendRaises with
            | some e => (.error e, k)
            | none => (.ok (), { k with closeDatagrams := k.closeDatagrams ++ [(sock, packet)] })

/-! ## The machine -/

/-- A call of the program on the client, its streams or the connection, or
the connection entering the draining period. -/
inductive ConnEvent
  | client (e : Event)
  | pumpOnce (round : TimedRound)
  | close (args : CloseArgs) (answer : Except Ngtcp2Error (List UInt8)) (sendRaises : Option RubyError)
  | enterDraining

def connStep (net : Nat → Except RubyError RString) (k : Connection) : ConnEvent → Option (Reply × Connection)
  | .client e => (step k.client e).map fun res => (res.1, { k with client := res.2 })
  | .pumpOnce round => (k.pumpOnce net round).map fun res => (res.1.map .ofUnit, res.2)
  | .close args answer sendRaises =>
    some ((quicClientCloseM args answer sendRaises k).1.map .ofUnit, (quicClientCloseM args answer sendRaises k).2)
  | .enterDraining => some (.ok .nil, { k with period := .draining })

abbrev ConnTrace := Trace ConnEvent Reply
abbrev ConnContract := Contract Connection ConnEvent Reply

end QuicRuby
