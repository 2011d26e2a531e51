/-
A blocking `write` against a peer that keeps a receive window: its limit is
what it has consumed plus the window, and it consumes in each round all
that was framed. What is left for the writer is then at most the window,
and all of it after any round; none of the payload is framed while `write`
waits. So a payload that fits into the window is accepted after one round
at most, and a larger one never is.
-/
import QuicRuby.WriteLoop
import QuicRuby.Admission

namespace QuicRuby

open Runs Loops

/-! ## Receive windows -/

/-- A peer with a receive window of `W` bytes, by rounds: what is left for the
sender is the limit, `consumed + W`, less what is framed, and a round ends
with all framed bytes consumed. -/
def KeepsWindow (W : Nat) (framed left : Nat → Nat) : Prop :=
  ∃ consumed : Nat → Nat, ∀ k, consumed k ≤ framed k ∧ left k + framed k = consumed k + W ∧
    consumed (k + 1) = framed (k + 1)

section
variable {W : Nat} {framed left : Nat → Nat}

theorem KeepsWindow.le (h : KeepsWindow W framed left) (k : Nat) : left k ≤ W := by
  obtain ⟨consumed, h⟩ := h
  obtain ⟨hle, hleft, -⟩ := h k
  omega

/-- After a round the whole window is left. -/
theorem KeepsWindow.full (h : KeepsWindow W framed left) (k : Nat) : left (k + 1) = W := by
  obtain ⟨consumed, h⟩ := h
  obtain ⟨-, -, hall⟩ := h k
  obtain ⟨-, hleft, -⟩ := h (k + 1)
  omega

end

/-! ## A stream that stays open -/

/-- The callback ends the stream's send side. -/
def Callback.endsSend (id : Int) : Callback → Bool
  | .streamClose _ i _ | .streamReset i _ _ => i = id
  | _ => false

/-- The stream of this id is at `ref` and open for sending. -/
structure StaysOpen (ref : Nat) (id : Int) (c : Client) : Prop where
  entries : Entries c
  object : ∃ s, c.objs[ref]? = some s ∧ s.streamId = id ∧ s.sendOpen = true ∧ s.hasClient = true

theorem update_writePkt_sendOpen (buffer : Option Encoding) (answer : WritevAnswer) (s : QuicStream) :
    ((Event.writePkt buffer answer).update s).sendOpen = s.sendOpen := by
  unfold Event.update
  dsimp only
  split
  · exact accountWritev_sendOpen _ _ _ _
  · rfl

theorem Callback.update_sendOpen {cb : Callback} {s : QuicStream} (h : cb.endsSend cb.streamId = false) :
    (cb.update s).sendOpen = s.sendOpen := by
  cases cb with
  | streamOpen => rfl
  | recvStreamData fin id offset data =>
    rw [Callback.update, recvStreamData_eq]
    rfl
  | ackedStreamDataOffset => rfl
  | streamClose set id code => simp [Callback.endsSend, Callback.streamId] at h
  | streamReset id size code => simp [Callback.endsSend, Callback.streamId] at h

theorem StaysOpen.after {ref : Nat} {id : Int} {c : Client} {e : Event} {c' : Client} (h : StaysOpen ref id c)
    (hafter : After c e c') (hopen : ∀ s, e.target c = some ref → s.streamId = id → c.objs[ref]? = some s →
      (e.update s).sendOpen = s.sendOpen) : StaysOpen ref id c' := by
  obtain ⟨s, hs, hid, ho, hc⟩ := h.object
  refine ⟨h.entries.after hafter, _, hafter.get hs, ?_, ?_, ?_⟩
  · rw [target_streamId, hid]
  · split
    · next ht => rw [hopen s ht hid hs, ho]
    · exact ho
  · split
    · rw [(update_fixed e s).2.1, hc]
    · exact hc

/-- Rounds that do not end the stream's send side keep it open. -/
theorem StaysOpen.pumpOnce {ref : Nat} {id : Int} {c : Client} {round : PumpRound} {r : Except RubyError Unit}
    {c' : Client} (h : StaysOpen ref id c) (hround : ∀ cb ∈ round.callbacks, cb.endsSend id = false)
    (hp : pumpOnce round c = some (r, c')) : StaysOpen ref id c' := by
  refine pumpOnce_keeps (fun answer c hI => ?_) (fun cb hm c hI => ?_) hp h
  · exact hI.after (quicClientWritePkt_after c none answer) fun s _ _ _ => update_writePkt_sendOpen none answer s
  · refine hI.after (runCallback_after c cb) fun s ht hid hs => ?_
    obtain ⟨s₁, hs₁, hid₁⟩ := hI.entries _ _ ht
    have hsame : s₁ = s := by simpa [hs] using hs₁.symm
    have hcb : cb.streamId = id := by rw [← hid₁, hsame, hid]
    exact Callback.update_sendOpen (by rw [hcb]; exact hround cb hm)

/-! ## Waiting for the window -/

/-- The rounds complete, one after the other, and none ends the send side of
the stream. -/
structure Serves (c : Client) (id : Int) (rounds : Nat → PumpRound) (states : Nat → Client) : Prop where
  start : states 0 = c
  round : ∀ k, pumpOnce (rounds k) (states k) = some (.ok (), states (k + 1))
  stays : ∀ k, ∀ cb ∈ (rounds k).callbacks, cb.endsSend id = false

/-- The first `n` of a sequence. -/
def first {α : Type} (n : Nat) (f : Nat → α) : List α := (List.range n).map f

/-- What is left of both windows after each round is what the peer keeps: `W`
bytes for the stream and `W'` for the connection. -/
structure PeerWindows (W W' : Nat) (id : Int) (states : Nat → Client) (windows : Nat → UInt64 × UInt64) : Prop where
  stream : KeepsWindow W (fun k => (framed (states k).calls id).length) fun k => (windows k).1.toNat
  conn : KeepsWindow W' (fun k => connFramed (states k).calls) fun k => (windows k).2.toNat

/-- `write` returns after some number of rounds, with all of `data` queued. -/
def WriteFinishes (ref : Nat) (data : RString) (fin : Bool) (rounds : Nat → PumpRound) (states : Nat → Client)
    (windows : Nat → UInt64 × UInt64) : Prop :=
  ∃ k c' s, streamWrite ref data fin (first (k + 1) windows) (first k rounds) (states 0) = some (.ok data.len, c') ∧
    (states k).objs[ref]? = some s ∧ c'.objs[ref]? = some (s.enqueued data fin)

section
variable {W W' : Nat} {id : Int} {ref : Nat} {rounds : Nat → PumpRound} {states : Nat → Client}
  {windows : Nat → UInt64 × UInt64}

theorem PeerWindows.le (h : PeerWindows W W' id states windows) (k : Nat) :
    (quicStreamWindowLeft (windows k).1 (windows k).2).toNat ≤ min W W' := by
  have hstream := h.stream.le k
  have hconn := h.conn.le k
  rw [windowLeft_toNat]
  omega

theorem PeerWindows.full (h : PeerWindows W W' id states windows) (k : Nat) :
    (quicStreamWindowLeft (windows (k + 1)).1 (windows (k + 1)).2).toNat = min W W' := by
  have hstream := h.stream.full k
  have hconn := h.conn.full k
  rw [windowLeft_toNat, hstream, hconn]

/-- A payload that no window holds is never accepted. -/
theorem write_not_finishes {data : RString} {fin : Bool} (hatt : Attached (states 0) ref)
    (hpeer : PeerWindows W W' id states windows) (hlarge : min W W' < data.len) :
    ¬ WriteFinishes ref data fin rounds states windows := by
  rintro ⟨k, c', s, hwrite, -, -⟩
  have hsmall : ∀ w ∈ first (k + 1) windows, (quicStreamWindowLeft w.1 w.2).toNat < data.len := by
    intro w hm
    obtain ⟨i, -, rfl⟩ := List.mem_map.1 hm
    exact Nat.lt_of_le_of_lt (hpeer.le i) hlarge
  obtain ⟨e, -, -, -, -, he, -⟩ := streamWrite_never hsmall hatt hwrite
  cases he

/-- A payload that the window holds is accepted at once or after a round. -/
theorem write_finishes {data : RString} {fin : Bool} (hopen : StaysOpen ref id (states 0))
    (hserves : Serves (states 0) id rounds states) (hpeer : PeerWindows W W' id states windows)
    (hsmall : data.len ≤ min W W') : WriteFinishes ref data fin rounds states windows := by
  by_cases hnow : data.len ≤ (quicStreamWindowLeft (windows 0).1 (windows 0).2).toNat
  · obtain ⟨s, hs, -, ho, hc⟩ := hopen.object
    refine ⟨0, (states 0).modify ref fun _ => s.enqueued data fin, s, ?_, hs, by simp [Client.modify, hs]⟩
    have hturn : streamWrite ref data fin [windows 0] [] (states 0) = _ := streamWrite_holds hs hc hnow [] []
    rwa [quicStreamEnqueue_open ho] at hturn
  · obtain ⟨s, hs, -, ho, hc⟩ := (hopen.pumpOnce (hserves.stays 0) (hserves.round 0)).object
    have hwaits : WriteWaits data [windows 0] [rounds 0] (states 0) (states 1) :=
      .cons (by omega) (hserves.round 0) .nil
    have hfull : data.len ≤ (quicStreamWindowLeft (windows 1).1 (windows 1).2).toNat := by
      rw [hpeer.full 0]
      exact hsmall
    refine ⟨1, (states 1).modify ref fun _ => s.enqueued data fin, s, ?_, hs, by simp [Client.modify, hs]⟩
    have hatt : Attached (states 0) ref := by
      obtain ⟨s₀, hs₀, -, -, hc₀⟩ := hopen.object
      exact ⟨s₀, hs₀, hc₀⟩
    have hwaited : streamWrite ref data fin ([windows 0] ++ [windows 1]) ([rounds 0] ++ []) (states 0) = _ :=
      streamWrite_waits hwaits hatt [windows 1] []
    rw [streamWrite_holds hs hc hfull, quicStreamEnqueue_open ho] at hwaited
    exact hwaited

end

/-- **A blocking write finishes for payloads the peer's window holds, and for
no others.** -/
theorem write_finishes_iff {K : ClientContract} {tr c} (h : Reach K tr c) {ref : Nat} {s : QuicStream}
    (hs : c.objs[ref]? = some s) (hopen : s.sendOpen = true) {W W' : Nat} {rounds : Nat → PumpRound}
    {states : Nat → Client} {windows : Nat → UInt64 × UInt64} (hserves : Serves c s.streamId rounds states)
    (hpeer : PeerWindows W W' s.streamId states windows) (data : RString) (fin : Bool) :
    WriteFinishes ref data fin rounds states windows ↔ data.len ≤ min W W' := by
  obtain rfl := hserves.start
  constructor
  · intro hfinishes
    by_contra hlarge
    exact write_not_finishes (h.attached hs) hpeer (by omega) hfinishes
  · exact write_finishes ⟨h.entries, s, hs, rfl, hopen, h.hasClient hs⟩ hserves hpeer

/-- A bound client with one stream and nothing to send. -/
def idleRun : ClientTrace × Client := run step FreshIds [.bind 5, .openBidiStream (.ok 0)] [] {}

theorem idleRun_reach : Reach FreshIds idleRun.1 idleRun.2 := Steps.of_run (by decide)

/-- A round in which nothing is sent and nothing comes in. -/
def idleRound : PumpRound := { writes := [(⟨.ok [], -1⟩, none)], wakeup := .timeout none }

/-- The client after `k` such rounds. -/
def idleStates (k : Nat) : Client := idleRun.2.log (List.replicate k (.writevStream .connOnly ⟨.ok [], -1⟩))

theorem idle_serves : Serves idleRun.2 0 (fun _ => idleRound) idleStates where
  start := rfl
  round k := by
    rw [idleStates, idleStates, List.replicate_succ']
    rfl
  stays k cb hm := by cases hm

theorem idle_peer {W W' : UInt64} : PeerWindows W.toNat W'.toNat 0 idleStates fun _ => (W, W') := by
  have hframed : ∀ k, framed (idleStates k).calls 0 = [] := by
    intro k
    refine List.flatMap_eq_nil_iff.2 fun call hm => ?_
    rcases List.mem_append.1 hm with hm | hm
    · obtain rfl := List.mem_singleton.1 hm
      rfl
    · obtain rfl := List.eq_of_mem_replicate hm
      rfl
  have hconn : ∀ k, connFramed (idleStates k).calls = 0 := by
    intro k
    refine List.sum_eq_zero_iff.2 fun n hn => ?_
    obtain ⟨call, hm, rfl⟩ := List.mem_map.1 hn
    rcases List.mem_append.1 hm with hm | hm
    · obtain rfl := List.mem_singleton.1 hm
      rfl
    · obtain rfl := List.eq_of_mem_replicate hm
      rfl
  exact ⟨⟨fun _ => 0, fun k => by simp [hframed]⟩, ⟨fun _ => 0, fun k => by simp [hconn]⟩⟩

theorem write_finishes_iff_idleRun :
    WriteFinishes 0 (.ofByte 1) true (fun _ => idleRound) idleStates fun _ => (4, 4) :=
  have hs : idleRun.2.objs[0]? = some (idleRun.2.objs.getD 0 (quicStreamNew 0)) := rfl
  (write_finishes_iff idleRun_reach hs rfl idle_serves (@idle_peer 4 4) (.ofByte 1) true).2 (by decide)

/-- Two bytes for a peer with a window of one. -/
theorem idleRun_never_finishes : ¬ ∀ tr c, Reach FreshIds tr c → ∀ (ref : Nat) s W W' rounds states windows,
    c.objs[ref]? = some s → s.sendOpen = true → 1 ≤ W → 1 ≤ W' → Serves c s.streamId rounds states →
    PeerWindows W W' s.streamId states windows →
    ∀ data fin, WriteFinishes ref data fin rounds states windows := by
  intro h
  have hs : idleRun.2.objs[0]? = some (idleRun.2.objs.getD 0 (quicStreamNew 0)) := rfl
  have hpeer : PeerWindows 1 1 0 idleStates fun _ => (1, 1) := @idle_peer 1 1
  have hlarge : min 1 1 < RString.len ⟨[1, 2], by decide⟩ := by decide
  exact write_not_finishes (idleRun_reach.attached hs) hpeer hlarge
    (h _ _ idleRun_reach 0 _ 1 1 _ _ _ hs rfl (by decide) (by decide) idle_serves hpeer _ false)

end QuicRuby
