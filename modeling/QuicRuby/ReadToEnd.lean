/-
`Stream#read` with no length pumps until `eof?` holds, and `eof?` wants the
receive buffer empty; nothing takes bytes out of it while the loop pumps.
So the call comes back at the end of a stream without a single byte, and
with any byte buffered or delivered it never returns a String.
-/
import QuicRuby.Pump
import QuicRuby.Receive

namespace QuicRuby

open Runs Loops

/-! ## What the callbacks of a round deliver -/

/-- The bytes a callback delivers for a stream id, and whether FIN with them. -/
def Callback.segment (id : Int) : Callback → Option (List UInt8 × Bool)
  | .recvStreamData fin i _ data => if i = id then some (data, fin) else none
  | _ => none

/-- The segments delivered for a stream id, in order. -/
def segments (id : Int) (callbacks : List Callback) : List (List UInt8 × Bool) :=
  callbacks.filterMap (·.segment id)

/-- No data for the id comes after its `stream_close`. -/
def dataWhileOpen (id : Int) : List Callback → Bool
  | [] => true
  | .streamClose _ i _ :: rest => (i ≠ id || (segments id rest).isEmpty) && dataWhileOpen id rest
  | _ :: rest => dataWhileOpen id rest

/-- All callbacks of the rounds. -/
def callbacksOf (rounds : List PumpRound) : List Callback := rounds.flatMap (·.callbacks)

/-- The bytes of some segments. -/
def content (segs : List (List UInt8 × Bool)) : List UInt8 := segs.flatMap Prod.fst

/-- One of the segments carries FIN. -/
def withFin (segs : List (List UInt8 × Bool)) : Bool := segs.any Prod.snd

@[simp] theorem segments_append (id : Int) (cbs cbs' : List Callback) :
    segments id (cbs ++ cbs') = segments id cbs ++ segments id cbs' := by simp [segments]

@[simp] theorem content_append (segs segs' : List (List UInt8 × Bool)) :
    content (segs ++ segs') = content segs ++ content segs' := by simp [content]

@[simp] theorem withFin_append (segs segs' : List (List UInt8 × Bool)) :
    withFin (segs ++ segs') = (withFin segs || withFin segs') := by simp [withFin]

theorem dataWhileOpen_tail {id : Int} {cb : Callback} {rest : List Callback}
    (h : dataWhileOpen id (cb :: rest) = true) :
    dataWhileOpen id rest = true := by
  cases cb with
  | streamClose set i code =>
    rw [dataWhileOpen, Bool.and_eq_true] at h
    exact h.2
  | _ => exact h

theorem segments_of_closed {id : Int} {set : Bool} {code : UInt64} {rest : List Callback}
    (h : dataWhileOpen id (.streamClose set id code :: rest) = true) : segments id rest = [] := by
  simp only [dataWhileOpen, ne_eq, not_true, decide_false, Bool.false_or, Bool.and_eq_true, List.isEmpty_iff] at h
  exact h.1

theorem content_segment (id : Int) (cb : Callback) (r : Reply) :
    content (segments id [cb]) = deliveredBy id (.callback cb, r) ∧
      withFin (segments id [cb]) = finDeliveredBy id (.callback cb, r) := by
  cases cb with
  | recvStreamData fin i offset data =>
    by_cases hi : i = id <;> simp [segments, Callback.segment, content, withFin, deliveredBy, finDeliveredBy, hi]
  | _ => exact ⟨rfl, rfl⟩

/-! ## The buffer while the loop pumps -/

/-- The object `s` is at `ref`, and registered while data for its id is to
come: `rest` are the callbacks ahead. -/
structure Flow (c : Client) (ref : Nat) (s : QuicStream) (rest : List Callback) : Prop where
  entries : Entries c
  get : c.objs[ref]? = some s
  entry : segments s.streamId rest ≠ [] → c.streams.aref s.streamId = some ref
  whileOpen : dataWhileOpen s.streamId rest = true

/-- `s'` is `s` after some segments came in. -/
structure Received (s s' : QuicStream) (segs : List (List UInt8 × Bool)) : Prop where
  streamId : s'.streamId = s.streamId
  buffer : s'.recvBuffer = s.recvBuffer ++ content segs
  fin : s'.finReceived = (s.finReceived || withFin segs)

theorem Received.trans {s s' s'' : QuicStream} {segs segs' : List (List UInt8 × Bool)} (h : Received s s' segs)
    (h' : Received s' s'' segs') : Received s s'' (segs ++ segs') where
  streamId := by rw [h'.streamId, h.streamId]
  buffer := by rw [h'.buffer, h.buffer, content_append, List.append_assoc]
  fin := by rw [h'.fin, h.fin, withFin_append, Bool.or_assoc]

theorem Received.refl (s : QuicStream) : Received s s [] := ⟨rfl, by simp [content], by simp [withFin]⟩

section
variable {c c' : Client} {ref : Nat} {s : QuicStream} {rest : List Callback}

/-- A `write_pkt` brings nothing in. -/
theorem Flow.writePkt (h : Flow c ref s rest) {answer : WritevAnswer}
    {r : Except RubyError (Option (List UInt8))} (hw : quicClientWritePkt (fun _ => answer) none c = (r, c')) :
    ∃ s', Flow c' ref s' rest ∧ Received s s' [] := by
  have hafter := writePkt_after hw
  have hstreams : c'.streams = c.streams := hafter.streams
  have hid := target_streamId c (.writePkt none answer) ref s
  have hsame : (if (Event.writePkt none answer).target c = some ref then (Event.writePkt none answer).update s
      else s).recvBuffer = s.recvBuffer ∧
      (if (Event.writePkt none answer).target c = some ref then (Event.writePkt none answer).update s
        else s).finReceived = s.finReceived := by
    split
    · exact update_recv s (by simp) (by simp)
    · exact ⟨rfl, rfl⟩
  refine ⟨_, ⟨h.entries.after hafter, hafter.get h.get, ?_, ?_⟩, hid, ?_, ?_⟩
  · rw [hid, hstreams]
    exact h.entry
  · rw [hid]
    exact h.whileOpen
  · rw [hsame.1]
    simp [content]
  · rw [hsame.2]
    simp [withFin]

/-- A callback brings in its segment. -/
theorem Flow.callback {cb : Callback} (h : Flow c ref s (cb :: rest)) :
    ∃ s', Flow (runCallback c cb) ref s' rest ∧ Received s s' (segments s.streamId [cb]) := by
  have hafter := runCallback_after c cb
  have hsplit : segments s.streamId (cb :: rest) = segments s.streamId [cb] ++ segments s.streamId rest :=
    segments_append _ [cb] rest
  have hopen : ∀ fin offset data, Event.callback cb = .callback (.recvStreamData fin s.streamId offset data) →
      c.streams.aref s.streamId = some ref := by
    intro fin offset data he
    cases he
    refine h.entry ?_
    rw [hsplit]
    simp [segments, Callback.segment]
  have hid := target_streamId c (.callback cb) ref s
  have hst : step c (.callback cb) = some (.ok .nil, runCallback c cb) := rfl
  obtain ⟨hbuf, hfin⟩ := step_recv hst h.get hopen
    h.entries rfl
  obtain ⟨hc, hf⟩ := content_segment s.streamId cb (.ok .nil)
  refine ⟨_, ⟨h.entries.after hafter, hafter.get h.get, ?_, ?_⟩, hid, ?_, ?_⟩
  · rw [hid]
    intro hne
    have hreg := h.entry (by rw [hsplit]; exact List.append_ne_nil_of_right_ne_nil _ hne)
    rw [hafter.streams, Event.streamsAfter]
    split
    · next id ho =>
      -- A stream opened now is another one.
      have hother : s.streamId ≠ id := by
        intro he
        subst he
        cases cb with
        | streamOpen i =>
          simp only [Event.opens] at ho
          split at ho
          · cases ho
          · next hnone => cases ho; simp [hreg] at hnone
        | _ => cases ho
      rw [OrderedHash.aref_aset, if_neg hother, hreg]
    · next id _ hcl =>
      have hother : s.streamId ≠ id := by
        intro he
        subst he
        cases cb with
        | streamClose set i code =>
          simp only [Event.closes] at hcl
          split at hcl
          · cases hcl
            exact hne (segments_of_closed h.whileOpen)
          · cases hcl
        | _ => cases hcl
      rw [OrderedHash.aref_delete, if_neg hother, hreg]
    · exact hreg
  · rw [hid]
    exact dataWhileOpen_tail h.whileOpen
  · rw [hc]
    simpa [returnedBy] using hbuf
  · rw [hf, hfin]

theorem Flow.callbacks {cbs : List Callback} (h : Flow c ref s (cbs ++ rest)) :
    ∃ s', Flow (cbs.foldl runCallback c) ref s' rest ∧ Received s s' (segments s.streamId cbs) := by
  induction cbs generalizing c s with
  | nil => exact ⟨s, h, .refl s⟩
  | cons cb cbs ih =>
    obtain ⟨s₁, hflow, hrecv⟩ := h.callback
    obtain ⟨s₂, hflow', hrecv'⟩ := ih hflow
    refine ⟨s₂, hflow', ?_⟩
    rw [hrecv.streamId] at hrecv'
    have htrans := hrecv.trans hrecv'
    rwa [← segments_append] at htrans

theorem Flow.drainPackets {writes : List (WritevAnswer × Option RubyError)} {r : Except RubyError Unit}
    (h : Flow c ref s rest) (hd : drainPackets writes c = some (r, c')) :
    ∃ s', Flow c' ref s' rest ∧ Received s s' [] := by
  induction writes generalizing c s with
  | nil => cases hd
  | cons w ws ih =>
    obtain ⟨answer, sendRaises⟩ := w
    simp only [QuicRuby.drainPackets] at hd
    split at hd
    · next hq => cases hd; exact h.writePkt hq
    · next hq => cases hd; exact h.writePkt hq
    · next hq =>
      obtain ⟨s₁, hflow, hrecv⟩ := h.writePkt hq
      split at hd
      · cases hd; exact ⟨s₁, hflow, hrecv⟩
      · obtain ⟨s₂, hflow', hrecv'⟩ := ih hflow hd
        exact ⟨s₂, hflow', hrecv.trans hrecv'⟩

/-- **A round brings in what its callbacks deliver**, and nothing out. -/
theorem Flow.pumpOnce {round : PumpRound} (h : Flow c ref s (round.callbacks ++ rest))
    (hp : pumpOnce round c = some (.ok (), c')) :
    ∃ s', Flow c' ref s' rest ∧ Received s s' (segments s.streamId round.callbacks) := by
  unfold QuicRuby.pumpOnce at hp
  split at hp
  · cases hp
  split at hp
  · cases hp
  · cases hp
  next c₁ hd =>
  obtain ⟨s₁, hflow, hrecv⟩ := h.drainPackets hd
  unfold PumpRound.callbacks at hflow ⊢
  split at hp
  · next cbs rv hw =>
    simp only [quicClientReadPkt, Option.some.injEq, Prod.mk.injEq] at hp
    obtain ⟨-, rfl⟩ := hp
    simp only [hw] at hflow ⊢
    obtain ⟨s₂, hflow', hrecv'⟩ := hflow.callbacks
    refine ⟨s₂, hflow', ?_⟩
    rw [hrecv.streamId] at hrecv'
    exact hrecv.trans hrecv'
  · cases hp
  · next rv hw =>
    simp only [Option.some.injEq, Prod.mk.injEq] at hp
    obtain ⟨-, rfl⟩ := hp
    simp only [hw, List.nil_append] at hflow ⊢
    exact ⟨s₁, hflow, hrecv⟩

/-- Through rounds without FIN, `read` keeps pumping. -/
theorem Flow.pumpUntil {earlier : List PumpRound} (h : Flow c ref s (callbacksOf earlier ++ rest))
    (hnew : s.finReceived = false) (hno : withFin (segments s.streamId (callbacksOf earlier)) = false)
    (hall : pumpAll earlier c = some c') :
    ∃ s', Flow c' ref s' rest ∧ Received s s' (segments s.streamId (callbacksOf earlier)) ∧
      ∀ more, pumpUntil (readReady ref none) (earlier ++ more) c = QuicRuby.pumpUntil (readReady ref none) more c' := by
  induction earlier generalizing c s with
  | nil =>
    cases hall
    exact ⟨s, h, .refl s, fun more => rfl⟩
  | cons round rounds ih =>
    simp only [callbacksOf, List.flatMap_cons, List.append_assoc] at h
    simp only [callbacksOf, List.flatMap_cons, segments_append, withFin_append, Bool.or_eq_false_iff] at hno
    simp only [pumpAll] at hall
    split at hall
    · next c₁ hp =>
      obtain ⟨s₁, hflow, hrecv⟩ := h.pumpOnce hp
      have hnew₁ : s₁.finReceived = false := by rw [hrecv.fin, hnew, hno.1, Bool.or_false]
      obtain ⟨s₂, hflow', hrecv', hmore⟩ := ih hflow hnew₁ (by rw [hrecv.streamId]; exact hno.2) hall
      have hwait : readReady ref none c = false := by simp [readReady, h.get, quicStreamEofP, hnew]
      refine ⟨s₂, hflow', ?_, fun more => ?_⟩
      · rw [hrecv.streamId] at hrecv'
        have htrans := hrecv.trans hrecv'
        rwa [← segments_append] at htrans
      · rw [List.cons_append, pumpUntil_round hwait hp, hmore]
    · cases hall

end

/-! ## Reading to the end -/

/-- At the end of the stream nothing is left to read. -/
theorem readAll_eof {s : QuicStream} (h : quicStreamEofP s = true) : readAll s = (.ok [], s) := by
  have hempty : s.recvBuffer = [] ∧ s.finReceived = true := by simpa [quicStreamEofP] using h
  have hread : quicStreamReadNonblockM s 4096 = (.error (.mkText .eofError "end of file reached"), s) := by
    rw [quicStreamReadNonblockM_eq s (by decide) (by decide)]
    simp [hempty]
  have hrest : readRest s [] = (.ok [], s) := by
    rw [readRest]
    split
    · next e s' he => rw [hread] at he; cases he; rfl
    · next he => rw [hread] at he; cases he
  unfold readAll
  rw [readUntilEof, if_pos h]
  exact hrest

/-- The rounds complete and deliver a stream's segments up to FIN, which
comes in the last round. -/
structure Delivery (c : Client) (ref : Nat) (s : QuicStream) (rounds : List PumpRound) : Prop where
  bound : c.sock.isSome = true
  flow : Flow c ref s (callbacksOf rounds)
  complete : (pumpAll rounds c).isSome = true
  finNew : s.finReceived = false
  finLast : ∃ earlier last, rounds = earlier ++ [last] ∧
    withFin (segments s.streamId (callbacksOf earlier)) = false ∧
    withFin (segments s.streamId last.callbacks) = true

/-- `read` stops pumping right after these rounds, returns what was buffered
and then delivered, and leaves `eof?` true. -/
def ReadsToEnd (c : Client) (ref : Nat) (s : QuicStream) (rounds : List PumpRound) : Prop :=
  ∀ more, ∃ c' s',
    streamRead ref none (rounds ++ more) c =
      some (.ok (some (s.recvBuffer ++ content (segments s.streamId (callbacksOf rounds)))), c', more) ∧
    c'.objs[ref]? = some s' ∧ quicStreamEofP s' = true

theorem pumpAll_snoc {earlier : List PumpRound} {last : PumpRound} {c c' : Client}
    (h : pumpAll (earlier ++ [last]) c = some c') :
    ∃ c₁, pumpAll earlier c = some c₁ ∧ pumpOnce last c₁ = some (.ok (), c') := by
  induction earlier generalizing c with
  | nil =>
    simp only [List.nil_append, pumpAll] at h
    split at h
    · next hp => cases h; exact ⟨c, rfl, hp⟩
    · cases h
  | cons round rounds ih =>
    simp only [List.cons_append, pumpAll] at h ⊢
    split at h
    · next hp => exact ih h
    · cases h

/-- After the rounds all has come in, and the loop looks at `eof?` once more. -/
theorem Delivery.pump {c : Client} {ref : Nat} {s : QuicStream} {rounds : List PumpRound}
    (h : Delivery c ref s rounds) :
    ∃ c' s', c'.objs[ref]? = some s' ∧ s'.finReceived = true ∧
      s'.recvBuffer = s.recvBuffer ++ content (segments s.streamId (callbacksOf rounds)) ∧
      ∀ more, pumpUntil (readReady ref none) (rounds ++ more) c = pumpUntil (readReady ref none) more c' := by
  obtain ⟨earlier, last, rfl, hno, hfin⟩ := h.finLast
  obtain ⟨c', hall⟩ := Option.isSome_iff_exists.1 h.complete
  obtain ⟨c₁, hearlier, hlast⟩ := pumpAll_snoc hall
  have hflow := h.flow
  have hcbs : callbacksOf (earlier ++ [last]) = callbacksOf earlier ++ (last.callbacks ++ []) := by
    simp [callbacksOf]
  rw [hcbs] at hflow
  obtain ⟨s₁, hflow₁, hrecv₁, hmore₁⟩ := hflow.pumpUntil h.finNew hno hearlier
  obtain ⟨s₂, hflow₂, hrecv₂⟩ := hflow₁.pumpOnce hlast
  have hnew₁ : s₁.finReceived = false := by rw [hrecv₁.fin, h.finNew, hno, Bool.or_false]
  have hwait : readReady ref none c₁ = false := by simp [readReady, hflow₁.get, quicStreamEofP, hnew₁]
  rw [hrecv₁.streamId] at hrecv₂
  refine ⟨c', s₂, hflow₂.get, ?_, ?_, fun more => ?_⟩
  · rw [hrecv₂.fin, hfin, Bool.or_true]
  · rw [hrecv₂.buffer, hrecv₁.buffer, hcbs, List.append_nil, segments_append, content_append, List.append_assoc]
  · rw [List.append_assoc, hmore₁, List.singleton_append, pumpUntil_round hwait hlast]

theorem content_eq_nil {segs : List (List UInt8 × Bool)} : content segs = [] ↔ ∀ seg ∈ segs, seg.1 = [] :=
  List.flatMap_eq_nil_iff

/-- **Reading to the end works for empty streams only.** -/
theorem readsToEnd_iff {c : Client} {ref : Nat} {s : QuicStream} {rounds : List PumpRound}
    (h : Delivery c ref s rounds) :
    ReadsToEnd c ref s rounds ↔
      s.recvBuffer = [] ∧ ∀ seg ∈ segments s.streamId (callbacksOf rounds), seg.1 = [] := by
  obtain ⟨c', s', hget, hfin, hbuf, hpump⟩ := h.pump
  rw [← content_eq_nil, ← List.append_eq_nil_iff, ← hbuf]
  have heof : quicStreamEofP s' = true ↔ s'.recvBuffer = [] := by simp [quicStreamEofP, hfin]
  constructor
  · intro hreads
    obtain ⟨c'', s'', hread, -, -⟩ := hreads []
    by_contra hne
    have hwait : readReady ref none c' = false := by
      simp only [readReady, hget]
      exact Bool.eq_false_iff.2 fun he => hne (heof.1 he)
    rw [streamRead, hpump, pumpUntil_waiting hwait] at hread
    cases hread
  · intro hempty more
    have hready : readReady ref none c' = true := by
      simp only [readReady, hget]
      exact heof.2 hempty
    refine ⟨c'.modify ref fun _ => s', s', ?_, ?_, heof.2 hempty⟩
    · rw [streamRead, hpump, pumpUntil_ready hready, ← hbuf, hempty]
      simp [hget, readAll_eof (heof.2 hempty), Except.map]
    · simp [Client.modify, hget]

/-- A bound client with one stream, and a round whose datagram carries `data`
and FIN for it. -/
def echoClient : Client := (({} : Client).newStream 0).bind 5

def echoRound (data : List UInt8) : PumpRound :=
  { writes := [(⟨.ok [], -1⟩, none)], wakeup := .datagram [.recvStreamData true 0 0 data] none }

theorem echo_delivery (data : List UInt8) : Delivery echoClient 0 (quicStreamNew 0) [echoRound data] := by
  refine ⟨rfl, ⟨?_, rfl, fun _ => rfl, rfl⟩, rfl, rfl, [], echoRound data, rfl, rfl, rfl⟩
  intro id ref hid
  have hid : ((OrderedHash.empty : OrderedHash Int Nat).aset 0 0).aref id = some ref := hid
  rw [OrderedHash.aref_aset] at hid
  split at hid
  · next h0 => cases hid; exact ⟨quicStreamNew 0, rfl, h0.symm⟩
  · cases hid

theorem readsToEnd_echo_empty : ReadsToEnd echoClient 0 (quicStreamNew 0) [echoRound []] :=
  (readsToEnd_iff (echo_delivery [])).2 ⟨rfl, by decide⟩

/-- An echo of two bytes, delivered with FIN, is not returned. -/
theorem echo_not_read : ¬ ∀ c (ref : Nat) s rounds, Delivery c ref s rounds → ReadsToEnd c ref s rounds := by
  intro h
  obtain ⟨c', s', hread, -, -⟩ := h _ _ _ _ (echo_delivery [104, 105]) []
  have hwait : streamRead 0 none ([echoRound [104, 105]] ++ []) echoClient = none := rfl
  rw [hwait] at hread
  cases hread

/-! ## It never comes back -/

/-- A `read` whose wait no round ends never returns: it pumps on, or raises what
a round raises. -/
theorem streamRead_never {ref : Nat} {length : Option Int} {I : Client → Prop}
    (hwait : ∀ c, I c → readReady ref length c = false) {rounds : List PumpRound} {c : Client} (h : I c)
    (hkeep : ∀ round ∈ rounds, ∀ c c', I c → pumpOnce round c = some (.ok (), c') → I c') {r c' rest}
    (hr : streamRead ref length rounds c = some (r, c', rest)) : ∃ e, r = .error e := by
  unfold streamRead at hr
  rw [pumpUntil_eq] at hr
  split at hr
  · cases hr
  · next e c₁ rest₁ _ => cases hr; exact ⟨e, rfl⟩
  · next c₁ rest₁ hloop =>
    obtain ⟨e, he⟩ := loopUntil_never hwait h hkeep hloop
    cases he

/-- The object at `ref` has bytes buffered. -/
def Holding (ref : Nat) (c : Client) : Prop := ∃ s, c.objs[ref]? = some s ∧ s.recvBuffer ≠ []

theorem Holding.after {ref : Nat} {c : Client} {e : Event} {c' : Client} (h : Holding ref c)
    (he : PumpEvents [] c e) (hafter : After c e c') : Holding ref c' := by
  obtain ⟨s, hget, hne⟩ := h
  refine ⟨_, hafter.get hget, ?_⟩
  split
  · rcases he with ⟨answer, rfl⟩ | ⟨cb, rfl⟩
    · rwa [(update_recv s (by simp) (by simp)).1]
    · cases cb with
      | recvStreamData fin id offset data => simp [Event.update, Callback.update, hne]
      | _ => rwa [(update_recv s (by simp) (by simp)).1]
  · exact hne

/-- With a byte buffered, `read` with no length never returns. -/
theorem read_never_returns {ref : Nat} {c : Client} (h : Holding ref c) {rounds : List PumpRound} {r c' rest}
    (hr : streamRead ref none rounds c = some (r, c', rest)) : ∃ e, r = .error e := by
  refine streamRead_never (I := Holding ref) (fun c hI => ?_) h (fun round _ c c' hI hp => ?_) hr
  · obtain ⟨s, hget, hne⟩ := hI
    simp [readReady, hget, quicStreamEofP, hne]
  · exact pumpOnce_keeps (fun answer c hI => hI.after (.inl ⟨answer, rfl⟩) (quicClientWritePkt_after c none answer))
      (fun cb _ c hI => hI.after (.inr ⟨cb, rfl⟩) (runCallback_after c cb)) hp hI

end QuicRuby
