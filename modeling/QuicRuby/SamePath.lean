/-
The address pair a datagram is read under against the one the connection was
created with. `pump_once` rebuilds the pair as `0.0.0.0:0` and the remote
address of the socket (`OnPath`), so it is the connection's own exactly if
the connection was created with `0.0.0.0:0`.
-/
import QuicRuby.ConnFacts

namespace QuicRuby

open Runs

/-! ## Reading -/

/-- Every socket bound is connected to this address. -/
def ConnectedTo (net : Nat → Except RubyError RString) (remoteAddr : RString) : ConnContract :=
  fun _ _ e => ∀ sock, e = .client (.bind sock) → net sock = .ok remoteAddr

/-- Every datagram is read under the path of the connection. -/
def SamePath (k : Connection) : Prop :=
  ∀ net tr k', Steps (connStep net) (ConnectedTo net k.path.remoteAddr) [] k tr k' →
    ∀ path rv, .readPkt path rv ∈ k'.calls → path = k.path

/-- What is known all along: the memos, the socket, and the pair every
datagram was read under. -/
structure OnPath (net : Nat → Except RubyError RString) (remoteAddr : RString) (k : Connection) : Prop where
  localMemo : k.pumpLocalAddr = anySockaddr
  remoteMemo : ∀ addr, k.pumpRemoteSockaddr = some addr → addr = remoteAddr
  socket : ∀ sock, k.client.sock = some sock → net sock = .ok remoteAddr
  reads : ∀ path rv, .readPkt path rv ∈ k.calls → path = ⟨anySockaddr, remoteAddr⟩

variable {net : Nat → Except RubyError RString} {remoteAddr : RString} {k k' : Connection}

/-- Calls that read no datagram change nothing about those read. -/
theorem readPkt_mem_append {calls : List ConnCall} {call : ConnCall} (hcall : ∀ path rv, call ≠ .readPkt path rv)
    {path : Path} {rv : Option Ngtcp2Error} (h : .readPkt path rv ∈ calls ++ [call]) :
    .readPkt path rv ∈ calls := by
  rcases List.mem_append.1 h with h | h
  · exact h
  · exact absurd (List.mem_singleton.1 h).symm (hcall path rv)

theorem OnPath.round {round : TimedRound} (h : OnPath net remoteAddr k) (hm : RoundMove net round k k')
    (hsock : k'.client.sock = k.client.sock) : OnPath net remoteAddr k' := by
  have hs : ∀ sock, k'.client.sock = some sock → net sock = .ok remoteAddr := fun sock hk' =>
    h.socket sock (hsock ▸ hk')
  cases hm with
  | raised c => exact ⟨h.localMemo, h.remoteMemo, hs, h.reads⟩
  | timedOut c =>
    exact ⟨h.localMemo, h.remoteMemo, hs, fun path rv hmem =>
      h.reads path rv (readPkt_mem_append (fun _ _ => by simp) hmem)⟩
  | unresolved c => exact ⟨h.localMemo, h.remoteMemo, hs, h.reads⟩
  | @received c sock addr hbound hremote =>
    have haddr : addr = remoteAddr := by
      rcases hremote with hmemo | hnet
      · exact h.remoteMemo addr hmemo
      · rw [h.socket sock hbound] at hnet
        exact (Except.ok.inj hnet).symm
    subst haddr
    refine ⟨h.localMemo, fun addr' he => (Option.some.inj he).symm, hs, fun path rv hmem => ?_⟩
    rcases List.mem_append.1 hmem with hmem | hmem
    · exact h.reads path rv hmem
    · cases List.mem_singleton.1 hmem
      rw [h.localMemo]

theorem OnPath.close {r : Except RubyError Unit} (h : OnPath net remoteAddr k) (hm : CloseMove k r k') :
    OnPath net remoteAddr k' := by
  have hcalls : ∀ code reason answer path rv,
      .readPkt path rv ∈ k.calls ++ [.writeConnectionClose code reason answer] → path = ⟨anySockaddr, remoteAddr⟩ :=
    fun _ _ _ path rv hmem => h.reads path rv (readPkt_mem_append (fun _ _ => by simp) hmem)
  cases hm with
  | idle => exact h
  | unwritten | unsent | sent => exact ⟨h.localMemo, h.remoteMemo, h.socket, hcalls _ _ _⟩

theorem OnPath.step {tr : ConnTrace} {e : ConnEvent} {r : Reply} (h : OnPath net remoteAddr k)
    (hK : ConnectedTo net remoteAddr tr k e) (hst : connStep net k e = some (r, k')) : OnPath net remoteAddr k' := by
  have hmove := connStep_move hst
  have hsocket := hmove.sock
  cases hmove with
  | client =>
    refine ⟨h.localMemo, h.remoteMemo, fun sock hs => ?_, h.reads⟩
    rcases hsocket with hsame | ⟨sock', he, hbound⟩
    · exact h.socket sock (hsame ▸ hs)
    · rw [hbound] at hs
      cases hs
      exact hK sock he
  | pumpOnce hp =>
    obtain ⟨hround, wakeup, hp'⟩ := pumpOnce_cases hp
    exact h.round hround (pumpOnce_sock hp')
  | close args answer sendRaises => exact h.close (close_cases args answer sendRaises k)
  | enterDraining => exact ⟨h.localMemo, h.remoteMemo, h.socket, h.reads⟩

/-- Every datagram is read under `0.0.0.0:0` and the remote address. -/
theorem readPkt_path (path : Path) (settings : Ngtcp2Settings) (params : TransportParams UInt64) {tr : ConnTrace}
    (h : Steps (connStep net) (ConnectedTo net path.remoteAddr) []
      { path := path, settings := settings, params := params } tr k') :
    ∀ path' rv, .readPkt path' rv ∈ k'.calls → path' = ⟨anySockaddr, path.remoteAddr⟩ := by
  have hrun : OnPath net path.remoteAddr k' := by
    refine h.invariant (I := fun _ k => OnPath net path.remoteAddr k) ?_ fun _ _ _ _ _ hI hK hst => hI.step hK hst
    exact ⟨rfl, fun _ he => (by cases he), fun _ he => (by cases he), fun _ _ hm => (by cases hm)⟩
  exact hrun.reads

/-- A round with nothing to send, no timer and a datagram. -/
def datagramRound : TimedRound :=
  { writes := [(⟨.ok [], -1⟩, none)], expiry := 0xFFFFFFFFFFFFFFFF, nowNs := 0, arrival := some 0 }

/-- So there is a datagram to be read under that pair. -/
theorem exists_readPkt (path : Path) (settings : Ngtcp2Settings) (params : TransportParams UInt64) :
    ∃ net tr k', Steps (connStep net) (ConnectedTo net path.remoteAddr) []
        { path := path, settings := settings, params := params } tr k' ∧
      .readPkt ⟨anySockaddr, path.remoteAddr⟩ none ∈ k'.calls := by
  let net : Nat → Except RubyError RString := fun _ => .ok path.remoteAddr
  let k₀ : Connection := { path := path, settings := settings, params := params }
  have hK : ∀ tr k e, ConnectedTo net path.remoteAddr tr k e := fun _ _ _ _ _ => rfl
  have hbind : connStep net k₀ (.client (.bind 0)) = some (.ok .nil, { k₀ with client := { sock := some 0 } }) := rfl
  obtain ⟨c, hread⟩ : ∃ c, connStep net { k₀ with client := { sock := some 0 } } (.pumpOnce datagramRound) =
      some (.ok .nil, { k₀ with
        client := c
        pumpLocalSockaddr := some anySockaddr
        pumpRemoteSockaddr := some path.remoteAddr
        calls := [.readPkt ⟨anySockaddr, path.remoteAddr⟩ none] }) := ⟨_, rfl⟩
  exact ⟨net, _, _, .tail (.one (hK _ _ _) hbind) (hK _ _ _) hread, List.mem_singleton.2 rfl⟩

/-- **The path of the datagrams is the connection's** exactly if the client
was created for `0.0.0.0:0`. -/
theorem samePath_iff (o : Opening) {k : Connection} (h : o.connection = some (.ok k)) :
    SamePath k ↔ o.LocalAny := by
  obtain ⟨⟨settings, params, hk⟩, hlocal⟩ := Opening.connection_ok h
  rw [hlocal]
  constructor
  · intro hsame
    obtain ⟨net, tr, k', hrun, hread⟩ := exists_readPkt k.path settings params
    rw [← hk] at hrun
    exact (congrArg Path.localAddr (hsame net tr k' hrun _ none hread)).symm
  · intro hany net tr k' hrun path rv hmem
    rw [hk] at hrun
    rw [readPkt_path k.path settings params hrun path rv hmem, ← hany]

/-- Its datagrams are read under the path it was created with only if
127.0.0.1:40000 is `0.0.0.0:0`. -/
theorem samePath_iff_loopback : SamePath loopbackConnection ↔ loopbackOpening.LocalAny :=
  samePath_iff loopbackOpening loopbackOpening_connection

/-- So the two pairs need not agree. -/
theorem loopback_not_samePath : ¬ ∀ (o : Opening) (k : Connection), o.connection = some (.ok k) → SamePath k := by
  intro hall
  obtain ⟨net, tr, k', hrun, hread⟩ := exists_readPkt loopbackConnection.path loopbackConnection.settings
    loopbackConnection.params
  have hpath := hall loopbackOpening loopbackConnection loopbackOpening_connection net tr k' hrun _ none hread
  have hlocal : anySockaddr.bytes = loopbackConnection.path.localAddr.bytes :=
    congrArg (fun path => path.localAddr.bytes) hpath
  exact absurd hlocal (by decide)

end QuicRuby
