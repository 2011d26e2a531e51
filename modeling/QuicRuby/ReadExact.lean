/-
Bytes come in exactly as they were delivered: what the program has read
from a stream, followed by what is still buffered, is what ngtcp2 delivered
for its id.
-/
import QuicRuby.Receive

namespace QuicRuby

open Runs

/-- Data for the id comes only while its stream is open. -/
def DataOpen (K : ClientContract) (id : Int) : Prop :=
  ∀ tr c fin offset data, K tr c (.callback (.recvStreamData fin id offset data)) →
    opened tr id = true ∧ closed tr id = false

theorem RecvContract.dataOpen (id : Int) : DataOpen RecvContract id := by
  intro tr c fin offset data hk
  simpa [keepsRecvPromise] using hk.2

/-- The buffer holds what was delivered and not read, and `fin_received` says
whether FIN was delivered. -/
structure Buffered (tr : ClientTrace) (ref : Nat) (s : QuicStream) : Prop where
  exact : returned tr ref ++ s.recvBuffer = delivered tr s.streamId
  fin : s.finReceived = finDelivered tr s.streamId

section
variable {K : ClientContract} (hK : ∀ tr c e, K tr c e → FreshIds tr c e)
include hK

/-- Data is delivered to the registered object of its id. -/
theorem DataOpen.registered {tr c} (hrun : Reach K tr c) {ref : Nat} {s : QuicStream}
    (hs : c.objs[ref]? = some s) (hopen : DataOpen K s.streamId) {fin : Bool} {offset : UInt64}
    {data : List UInt8} (hk : K tr c (.callback (.recvStreamData fin s.streamId offset data))) :
    c.streams.aref s.streamId = some ref := by
  obtain ⟨hopened, hclosed⟩ := hopen _ _ _ _ _ hk
  have hsome := (hrun.live hK).entry _ hopened hclosed
  obtain ⟨ref', href⟩ := Option.isSome_iff_exists.1 hsome
  have hreg := hrun.registered hK
  obtain ⟨s', hs', hid⟩ := hreg.streams _ _ href
  rw [href, hreg.ids ref' ref s' s hs' hs hid]

/-- Nothing is delivered for an id no object has. -/
theorem DataOpen.delivered_noStream {tr c} (h : Reach K tr c) {id : Int} (hopen : DataOpen K id)
    (hno : c.NoStream id) :
    delivered tr id = [] ∧ finDelivered tr id = false := by
  induction h with
  | refl => exact ⟨rfl, rfl⟩
  | @tail tr c e r c' h hk hs ih =>
    have hno := (step_after hs).noStream hno
    obtain ⟨hd, hf⟩ := ih hno
    rw [delivered_snoc, finDelivered_snoc, hd, hf]
    cases e with
    | callback cb =>
      cases cb with
      | recvStreamData fin i offset data =>
        have hne : i ≠ id := by
          intro hi
          subst hi
          exact (Reach.live hK h).object _ (hopen _ _ _ _ _ hk).1 hno
        simp [deliveredBy, finDeliveredBy, hne]
      | _ => exact ⟨rfl, rfl⟩
    | _ => exact ⟨rfl, rfl⟩

theorem DataOpen.buffered {tr c} (h : Reach K tr c) {ref : Nat} {s : QuicStream}
    (hs : c.objs[ref]? = some s) (hopen : DataOpen K s.streamId) : Buffered tr ref s := by
  refine Reach.each (I := fun tr _ ref s => DataOpen K s.streamId → Buffered tr ref s) ?_ ?_ h hs hopen
  · intro tr c e r c' id hrun hk hst ho (hopen : DataOpen K id)
    have hno : c.NoStream id := hK _ _ _ hk id ho
    obtain ⟨hd, hf⟩ := hopen.delivered_noStream hK hrun hno
    have htarget : e.target c ≠ some c.objs.length := by rw [opens_target ho]; simp
    have hret : returned tr c.objs.length = [] :=
      Reach.noObject hK (fun _ _ r ht => returnedBy_of_not_target ht r) hrun (Nat.le_refl _)
    have hreg : ∀ fin offset data, e = .callback (.recvStreamData fin id offset data) →
        c.streams.aref id = some c.objs.length := by
      rintro fin offset data rfl
      cases ho
    obtain ⟨hd', hf'⟩ := deliveredBy_of_not_target htarget hreg r
    constructor
    · rw [returned_snoc, hret, returnedBy_of_not_target htarget, delivered_snoc]
      show [] = delivered tr id ++ deliveredBy id (e, r)
      rw [hd, hd', List.nil_append]
    · rw [finDelivered_snoc]
      show false = (finDelivered tr id || finDeliveredBy id (e, r))
      rw [hf, hf', Bool.false_or]
  · intro tr c e r c' ref s hrun hk hst hget ih hopen
    have hid := target_streamId c e ref s
    rw [hid] at hopen
    have hb := ih hopen
    have hreg : ∀ fin offset data, e = .callback (.recvStreamData fin s.streamId offset data) →
        c.streams.aref s.streamId = some ref := by
      rintro fin offset data rfl
      exact hopen.registered hK hrun hget hk
    obtain ⟨hbuf, hfin⟩ := step_recv hst hget hreg (hrun.registered hK).streams rfl
    constructor
    · rw [hid, returned_snoc, delivered_snoc, List.append_assoc, hbuf, ← List.append_assoc, hb.exact]
    · rw [hid, hfin, hb.fin, finDelivered_snoc]

end

theorem Reach.buffered {tr c} (h : Reach RecvContract tr c) {ref : Nat} {s : QuicStream}
    (hs : c.objs[ref]? = some s) : Buffered tr ref s :=
  (RecvContract.dataOpen _).buffered RecvContract.fresh h hs

theorem Buffered.empty_iff {tr : ClientTrace} {ref : Nat} {s : QuicStream} (h : Buffered tr ref s) :
    s.recvBuffer = [] ↔ returned tr ref = delivered tr s.streamId := by
  rw [← h.exact]
  constructor
  · intro he
    rw [he, List.append_nil]
  · intro he
    exact List.append_right_eq_self.1 he.symm

theorem Buffered.eof_iff {tr : ClientTrace} {ref : Nat} {s : QuicStream} (h : Buffered tr ref s) :
    quicStreamEofP s = true ↔
      returned tr ref = delivered tr s.streamId ∧ finDelivered tr s.streamId = true := by
  rw [← h.empty_iff, ← h.fin]
  simp [quicStreamEofP]

/-- What a call of `read_nonblock` replies: the bytes that length and buffer
allow, or EOF when all is read and FIN was delivered, or to wait. -/
theorem readNonblock_reply {c c' : Client} {ref : Nat} {length : Int} {r : Reply} {s : QuicStream}
    (hs : c.objs[ref]? = some s) (h0 : 0 ≤ length) (hlt : length < 2 ^ 63)
    (h : step c (.readNonblock ref length) = some (r, c')) :
    (s.recvBuffer ≠ [] ∧ r = .ok (.str (s.recvBuffer.take length.toNat))) ∨
      (s.recvBuffer = [] ∧ ∃ err, r = .error err ∧ (err.cls = .eofError ↔ s.finReceived = true)) := by
  simp only [step, Client.call, quiet, hs, Option.map_some, Option.some.injEq, Prod.mk.injEq,
    quicStreamReadNonblockM_eq s h0 hlt] at h
  obtain ⟨rfl, -⟩ := h
  by_cases hempty : s.recvBuffer = []
  · refine .inr ⟨hempty, ?_⟩
    cases hf : s.finReceived <;> simp [hempty, Except.map, RubyError.mkText]
  · refine .inl ⟨hempty, ?_⟩
    simp [hempty, Except.map]

/-- A call of `read_nonblock` that raises changes nothing. -/
theorem readNonblock_error_unchanged {c c' : Client} {ref : Nat} {length : Int} {err : RubyError}
    (h : step c (.readNonblock ref length) = some (.error err, c')) : c' = c := by
  simp only [step, Client.call, quiet, Option.map_eq_some_iff, Prod.mk.injEq] at h
  obtain ⟨s, hs, hr, rfl⟩ := h
  obtain ⟨e, he⟩ | ⟨bytes, buffer, he, -⟩ := quicStreamReadNonblockM_cases s length
  · have hsame : c.modify ref (fun s => (quicStreamReadNonblockM s length).2) = c :=
      Client.modify_id fun s' hs' => by rw [← Option.some.inj (hs.symm.trans hs'), he]
    simp [Client.log, hsame]
  · rw [he] at hr
    cases hr

/-- **Exact reading.** In every state reached, what was read followed by what
is buffered is what was delivered; `eof?` holds, and `read_nonblock` raises
EOFError, exactly when all of it was read and FIN was delivered; a String
returned has as many bytes as length and buffer allow. -/
theorem read_exact {tr c} (h : Reach RecvContract tr c) {ref : Nat} {s : QuicStream}
    (hs : c.objs[ref]? = some s) :
    returned tr ref ++ s.recvBuffer = delivered tr s.streamId ∧
    (quicStreamEofP s = true ↔ returned tr ref = delivered tr s.streamId ∧ finDelivered tr s.streamId = true) ∧
    ∀ (length : Int) r c', 0 ≤ length → length < 2 ^ 63 → step c (.readNonblock ref length) = some (r, c') →
      (∀ v, r = .ok v → ∃ bytes, v = .str bytes ∧ bytes.length = min length.toNat s.recvBuffer.length) ∧
      ((∃ err, r = .error err ∧ err.cls = .eofError) ↔
        returned tr ref = delivered tr s.streamId ∧ finDelivered tr s.streamId = true) ∧
      (∀ err, r = .error err → c' = c) := by
  have hb := h.buffered hs
  refine ⟨hb.exact, hb.eof_iff, ?_⟩
  intro length r c' h0 hlt hst
  rw [← hb.empty_iff, ← hb.fin]
  refine ⟨?_, ?_, ?_⟩
  · rintro v rfl
    rcases readNonblock_reply hs h0 hlt hst with ⟨-, hr⟩ | ⟨-, err, hr, -⟩
    · cases hr
      exact ⟨_, rfl, List.length_take⟩
    · cases hr
  · rcases readNonblock_reply hs h0 hlt hst with ⟨hne, rfl⟩ | ⟨hempty, err, rfl, hiff⟩
    · simp [hne]
    · simp [hempty, hiff]
  · rintro err rfl
    exact readNonblock_error_unchanged hst

/-- Two segments, the second with FIN, read in three calls. -/
def readRun : ClientTrace × Client :=
  run step RecvContract
    [.callback (.streamOpen 1),
     .callback (.recvStreamData false 1 0 [1, 2]),
     .readNonblock 0 1,
     .callback (.recvStreamData true 1 2 [3]),
     .readNonblock 0 10] [] {}

theorem readRun_reach : Reach RecvContract readRun.1 readRun.2 := Steps.of_run (by decide)

theorem readRun_get : readRun.2.objs[0]? = some (readRun.2.objs.getD 0 (quicStreamNew 1)) := rfl

theorem read_exact_readRun : quicStreamEofP (readRun.2.objs.getD 0 (quicStreamNew 1)) = true ∧
    returned readRun.1 0 ++ (readRun.2.objs.getD 0 (quicStreamNew 1)).recvBuffer = delivered readRun.1 1 :=
  ⟨(read_exact readRun_reach readRun_get).2.1.2 (by decide), (read_exact readRun_reach readRun_get).1⟩

/-- A length no `long` holds raises RangeError, at the end of a stream too. -/
theorem read_eof_not_reported : ¬ ∀ tr c (ref : Nat) s, Reach RecvContract tr c → c.objs[ref]? = some s →
    ∀ (length : Int) r c', 0 ≤ length → step c (.readNonblock ref length) = some (r, c') →
      ((∃ err, r = .error err ∧ err.cls = .eofError) ↔
        returned tr ref = delivered tr s.streamId ∧ finDelivered tr s.streamId = true) := by
  intro h
  obtain ⟨err, herr, hcls⟩ :=
    (h readRun.1 readRun.2 0 _ readRun_reach rfl (2 ^ 63) _ _ (by decide) rfl).2 (by decide)
  cases herr
  cases hcls

end QuicRuby
