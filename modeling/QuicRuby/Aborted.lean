/-
Readers of a stream that was aborted. `stream_reset` and `stream_close` set
flags that no reader looks at. With the buffer drained it is FIN alone that
tells them: without it `read_nonblock` says to wait, and the blocking `read`
waits, on a stream nothing can arrive for any more.
-/
import QuicRuby.BoundedRead
import QuicRuby.ReadExact
import QuicRuby.Registry

namespace QuicRuby

open Runs Loops

/-- The callback aborts the stream: the peer's reset, or its close. -/
def Callback.aborts (id : Int) : Callback → Bool
  | .streamReset i _ _ | .streamClose _ i _ => i = id
  | _ => false

/-- The callback brings the stream a byte or FIN. -/
def Callback.delivers (id : Int) : Callback → Bool
  | .recvStreamData fin i _ data => i = id && (fin || !data.isEmpty)
  | _ => false

/-- What a reader sees of a stream. -/
def SameRecv (s s' : QuicStream) : Prop := s'.recvBuffer = s.recvBuffer ∧ s'.finReceived = s.finReceived

/-- A callback that brings nothing leaves the receiving half. -/
theorem Callback.update_sameRecv {cb : Callback} (s : QuicStream) (h : cb.delivers cb.streamId = false) :
    SameRecv s (cb.update s) := by
  cases cb with
  | recvStreamData fin id offset data =>
    simp only [Callback.delivers, Callback.streamId, decide_true, Bool.true_and, Bool.or_eq_false_iff,
      Bool.not_eq_false', List.isEmpty_iff] at h
    obtain ⟨rfl, rfl⟩ := h
    simp [SameRecv, Callback.update]
  | _ => exact update_recv (e := .callback _) s (by simp) (by simp)

/-! ## Nothing arrives -/

/-- The object at `ref` has this id, nothing buffered and no FIN. -/
structure Starved (ref : Nat) (id : Int) (c : Client) : Prop where
  entries : Entries c
  object : ∃ s, c.objs[ref]? = some s ∧ s.streamId = id ∧ s.recvBuffer = [] ∧ s.finReceived = false

section
variable {ref : Nat} {id : Int} {c c' : Client} {e : Event}

theorem Starved.waits (h : Starved ref id c) (length : Option Int) : readReady ref length c = false := by
  obtain ⟨s, hs, -, hempty, hfin⟩ := h.object
  cases length <;> simp [readReady, hs, quicStreamEofP, hempty, hfin, QuicStream.ivarFinReceived]

theorem Starved.after (h : Starved ref id c) (hafter : After c e c')
    (hsame : e.target c = some ref → ∀ s, s.streamId = id → c.objs[ref]? = some s → SameRecv s (e.update s)) :
    Starved ref id c' := by
  obtain ⟨s, hs, hid, hempty, hfin⟩ := h.object
  refine ⟨h.entries.after hafter, _, hafter.get hs, by rw [target_streamId, hid], ?_⟩
  split
  · next ht =>
    obtain ⟨hbuf, hf⟩ := hsame ht s hid hs
    exact ⟨hbuf.trans hempty, hf.trans hfin⟩
  · exact ⟨hempty, hfin⟩

theorem Starved.writePkt (h : Starved ref id c) (answer : WritevAnswer) :
    Starved ref id (quicClientWritePkt (fun _ => answer) none c).2 :=
  h.after (quicClientWritePkt_after c none answer) fun _ s _ _ => update_recv s (by simp) (by simp)

/-- No entry of the registry leads to the object. -/
def Gone (ref : Nat) (c : Client) : Prop := ∀ id, c.streams.aref id ≠ some ref

/-- An object that is not registered is not registered again. -/
theorem Gone.after (h : Gone ref c) (hafter : After c e c') (hs : ref < c.objs.length) : Gone ref c' := by
  intro id haref
  rw [hafter.streams] at haref
  rcases streamsAfter_aref haref with hold | ⟨-, rfl⟩
  · exact h id hold
  · exact Nat.lt_irrefl _ hs

end

/-- The blocking `read` of a starved stream never returns: not while the rounds
bring the stream nothing, and not at all once the stream has left the
registry. -/
theorem Starved.read_never {ref : Nat} {id : Int} {c : Client} (h : Starved ref id c) {length : Option Int}
    {rounds : List PumpRound}
    (hnothing : Gone ref c ∨ ∀ round ∈ rounds, ∀ cb ∈ round.callbacks, cb.delivers id = false) {r c' rest}
    (hr : streamRead ref length rounds c = some (r, c', rest)) : ∃ e, r = .error e := by
  rcases hnothing with hgone | hrounds
  · refine streamRead_never (I := fun c => Starved ref id c ∧ Gone ref c) (fun c hI => hI.1.waits length)
      ⟨h, hgone⟩ (fun round _ c c' hI hp => ?_) hr
    have hlt : ∀ {c}, Starved ref id c → ref < c.objs.length := fun hI => by
      obtain ⟨s, hs, -⟩ := hI.object
      exact (List.getElem?_eq_some_iff.1 hs).1
    refine pumpOnce_keeps (I := fun c => Starved ref id c ∧ Gone ref c) (fun answer c hI => ?_)
      (fun cb _ c hI => ?_) hp hI
    · exact ⟨hI.1.writePkt answer, hI.2.after (quicClientWritePkt_after c none answer) (hlt hI.1)⟩
    · have hafter := runCallback_after c cb
      exact ⟨hI.1.after hafter fun ht => absurd ht (hI.2 cb.streamId), hI.2.after hafter (hlt hI.1)⟩
  · refine streamRead_never (I := Starved ref id) (fun c hI => hI.waits length) h
      (fun round hm c c' hI hp => ?_) hr
    refine pumpOnce_keeps (fun answer c hI => hI.writePkt answer) (fun cb hcb c hI => ?_) hp hI
    refine hI.after (runCallback_after c cb) fun ht s hid hs => ?_
    -- The callback is about the stream, so it is one that brings nothing.
    obtain ⟨s₁, hs₁, hid₁⟩ := hI.entries _ _ ht
    have hcb_id : cb.streamId = id := by
      rw [← hid₁, Option.some.inj (hs₁.symm.trans hs), hid]
    exact Callback.update_sameRecv s (by rw [hcb_id]; exact hrounds round hm cb hcb)

/-- A drained stream tells `read_nonblock` whether FIN was delivered. -/
theorem readNonblock_drained {c c' : Client} {ref : Nat} {s : QuicStream} (hs : c.objs[ref]? = some s)
    (hempty : s.recvBuffer = []) {length : Int} (h0 : 0 ≤ length) (hlt : length < 2 ^ 63) {r : Reply}
    (h : step c (.readNonblock ref length) = some (r, c')) :
    c' = c ∧ ∃ e, r = .error e ∧ e.cls = if s.finReceived then .eofError else .waitReadable := by
  have hraise : ∃ e, r = .error e ∧ e.cls = if s.finReceived then .eofError else .waitReadable := by
    simp only [step, Client.call, quiet, hs, Option.map_some, Option.some.injEq, Prod.mk.injEq,
      quicStreamReadNonblockM_eq s h0 hlt, hempty, if_true] at h
    obtain ⟨rfl, -⟩ := h
    exact ⟨_, rfl, by cases s.finReceived <;> rfl⟩
  obtain ⟨e, rfl, hcls⟩ := hraise
  exact ⟨readNonblock_error_unchanged h, e, rfl, hcls⟩

/-- **Readers go by FIN alone.** A reset by the peer and a close leave the
buffer and `fin_received` as they are. Once the buffer is drained,
`read_nonblock` raises EOFError if FIN was delivered and WaitReadable if not,
and changes nothing. With FIN, `read` with no length returns an empty String
at once. Without FIN, `read` with or without a length never returns while its
rounds bring the stream nothing, and after the close on no rounds at all. -/
theorem aborted_read {tr c} (h : Reach NeverReused tr c) {ref : Nat} {s : QuicStream}
    (hs : c.objs[ref]? = some s) :
    (∀ cb s', cb.aborts s.streamId = true → (runCallback c cb).objs[ref]? = some s' → SameRecv s s') ∧
    (s.recvBuffer = [] →
      (∀ length r c', 0 ≤ length → length < 2 ^ 63 → step c (.readNonblock ref length) = some (r, c') →
        c' = c ∧ ∃ e, r = .error e ∧ e.cls = if s.finReceived then .eofError else .waitReadable) ∧
      (s.finReceived = true → ∀ rounds, streamRead ref none rounds c = some (.ok (some []), c, rounds)) ∧
      (s.finReceived = false → ∀ length rounds,
        (s.closed = true ∨ ∀ round ∈ rounds, ∀ cb ∈ round.callbacks, cb.delivers s.streamId = false) →
        ∀ r c' rest, streamRead ref length rounds c = some (r, c', rest) → ∃ e, r = .error e)) := by
  refine ⟨fun cb s' hab hs' => ?_, fun hempty => ⟨?_, ?_, ?_⟩⟩
  · have hdata : cb.delivers cb.streamId = false := by
      cases cb with
      | recvStreamData => cases hab
      | _ => rfl
    obtain rfl := Option.some.inj (hs'.symm.trans ((runCallback_after c cb).get hs))
    split
    · exact Callback.update_sameRecv s hdata
    · exact ⟨rfl, rfl⟩
  · exact fun length r c' h0 hlt hst => readNonblock_drained hs hempty h0 hlt hst
  · intro hfin rounds
    have heof : quicStreamEofP s = true := by simp [quicStreamEofP, hempty, hfin]
    have hready : readReady ref none c = true := by simp only [readReady, hs, heof]
    rw [streamRead, pumpUntil_ready hready]
    simp only [hs, Option.map_some, readAll_eof heof, Client.modify_same hs]
    rfl
  · intro hfin length rounds hnothing r c' rest hr
    have hstarved : Starved ref s.streamId c := ⟨h.entries, s, hs, rfl, hempty, hfin⟩
    exact hstarved.read_never (hnothing.imp_left fun hclosed => h.registry.no_entry hs hclosed) hr

/-- A stream the peer has reset and one that is closed, nothing delivered. -/
def starvedRun : ClientTrace × Client :=
  run step NeverReused
    [.bind 5, .openBidiStream (.ok 0), .openBidiStream (.ok 4), .callback (.streamReset 0 0 7),
     .callback (.streamClose true 4 7)] [] {}

theorem starvedRun_reach : Reach NeverReused starvedRun.1 starvedRun.2 := Steps.of_run (by decide)

theorem aborted_read_starvedRun : ∃ r c', step starvedRun.2 (.readNonblock 1 10) = some (r, c') ∧
    c' = starvedRun.2 ∧ ∃ e, r = .error e ∧ e.cls = .waitReadable :=
  have hs : starvedRun.2.objs[1]? = some (starvedRun.2.objs.getD 1 (quicStreamNew 4)) := rfl
  ⟨_, _, rfl, ((aborted_read starvedRun_reach hs).2 rfl).1 10 _ _ (by decide) (by decide) rfl⟩

/-- The event delivers the peer's reset of the stream. -/
def peerResetBy (id : Int) : Event × Reply → Bool
  | (.callback (.streamReset i _ _), _) => i = id
  | _ => false

/-- After the peer's reset a drained stream says to wait. -/
theorem starvedRun_wait_readable : ¬ ∀ tr c, Reach NeverReused tr c → ∀ (ref : Nat) s, c.objs[ref]? = some s →
    tr.any (peerResetBy s.streamId) = true ∨ closed tr s.streamId = true → s.recvBuffer = [] →
    ∀ (length : Int) r c', 0 ≤ length → length < 2 ^ 63 → step c (.readNonblock ref length) = some (r, c') →
      ∃ e, r = .error e ∧ e.cls ≠ .waitReadable := by
  intro h
  obtain ⟨e, he, hcls⟩ := h _ _ starvedRun_reach 0 _ rfl (.inl rfl) rfl 10 _ _ (by decide) (by decide) rfl
  cases he
  exact hcls rfl

end QuicRuby
