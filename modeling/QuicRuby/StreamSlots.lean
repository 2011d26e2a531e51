/-
How many more streams the server may open. The transport parameters
announce a limit for each kind, ngtcp2 counts every stream the server opens
against it, and only `ngtcp2_conn_extend_max_streams_bidi` and `_uni` raise
it. The client calls neither: `stream_close` takes the stream out of
`@streams` and gives no slot back, so the initial limit is all the server
ever gets.
-/
import QuicRuby.PeerCredit

namespace QuicRuby

open Runs

/-! ## Slots -/

/-- The two kinds of stream a peer opens. -/
inductive StreamKind
  | bidi
  | uni
deriving DecidableEq, Repr

/-- The kind of a server's stream, by the two low bits of its id. -/
def serverKind (streamId : Int) : Option StreamKind :=
  if streamId % 4 = 1 then some .bidi else if streamId % 4 = 3 then some .uni else none

/-- The limit announced for a kind. -/
def TransportParams.maxStreams {α : Type} (p : TransportParams α) : StreamKind → α
  | .bidi => p.initialMaxStreamsBidi
  | .uni => p.initialMaxStreamsUni

/-- How far a call extends the server's limit. -/
def Ngtcp2Call.extendsStreams : StreamKind → Ngtcp2Call → Nat
  | .bidi, .extendMaxStreamsBidi n => n.toNat
  | .uni, .extendMaxStreamsUni n => n.toNat
  | _, _ => 0

def streamsExtended (kind : StreamKind) (calls : List Ngtcp2Call) : Nat :=
  (calls.map (·.extendsStreams kind)).sum

/-- The event is the server opening a stream of the kind. -/
def serverOpensBy (kind : StreamKind) : Event × Reply → Nat
  | (.callback (.streamOpen id), _) => if serverKind id = some kind then 1 else 0
  | _ => 0

/-- The event closes a stream of the kind that the server opened. -/
def serverClosesBy (kind : StreamKind) : Event × Reply → Nat
  | (.callback (.streamClose _ id _), _) => if serverKind id = some kind then 1 else 0
  | _ => 0

/-- How many streams of the kind the server has opened. -/
def serverOpens (kind : StreamKind) (tr : ClientTrace) : Nat := (tr.map (serverOpensBy kind)).sum

/-- How many of them have been closed. -/
def serverCloses (kind : StreamKind) (tr : ClientTrace) : Nat := (tr.map (serverClosesBy kind)).sum

/-- How many of them are in `@streams`. -/
def registeredStreams (kind : StreamKind) (c : Client) : Nat :=
  c.streams.countKeys fun id => serverKind id = some kind

/-- How many more streams of the kind the server may open. -/
def slotsLeft (p : TransportParams UInt64) (kind : StreamKind) (tr : ClientTrace) (c : Client) : Nat :=
  (p.maxStreams kind).toNat + streamsExtended kind c.calls - serverOpens kind tr

/-- ngtcp2 uses an id once, gives the client ids of its own, lets the server
open a stream only into a free slot, and closes what is open. -/
def keepsSlots (p : TransportParams UInt64) (tr : ClientTrace) (c : Client) : Event → Bool
  | .openBidiStream (.ok id) | .openUniStream (.ok id) => serverKind id = none && !opened tr id
  | .callback (.streamOpen id) =>
    !opened tr id && (serverKind id).any fun kind => 0 < slotsLeft p kind tr c
  | .callback (.streamClose _ id _) => opened tr id && !closed tr id
  | _ => true

def SlotContract (p : TransportParams UInt64) : ClientContract := fun tr c e => keepsSlots p tr c e = true

instance (p : TransportParams UInt64) : ∀ tr c e, Decidable (SlotContract p tr c e) := fun tr c e =>
  inferInstanceAs (Decidable (keepsSlots p tr c e = true))

section
variable (kind : StreamKind) (tr : ClientTrace) (x : Event × Reply)

@[simp] theorem serverOpens_snoc :
    serverOpens kind (tr ++ [x]) = serverOpens kind tr + serverOpensBy kind x := by simp [serverOpens]

@[simp] theorem serverCloses_snoc :
    serverCloses kind (tr ++ [x]) = serverCloses kind tr + serverClosesBy kind x := by simp [serverCloses]

end

/-! ## Nothing is extended -/

theorem newCalls_not_extendStreams {c : Client} {e : Event} {call : Ngtcp2Call} (h : call ∈ e.newCalls c)
    (kind : StreamKind) : call.extendsStreams kind = 0 := by
  cases newCalls_makes h <;> cases kind <;> rfl

/-- No call of a run gives the server another stream. -/
theorem Reach.streams_not_extended {K : ClientContract} {tr c} (h : Reach K tr c) (kind : StreamKind) :
    streamsExtended kind c.calls = 0 := by
  refine h.invariant (I := fun _ c => streamsExtended kind c.calls = 0) rfl ?_
  intro tr c e r c' ih _ hs
  have hnew : streamsExtended kind (e.newCalls c) = 0 := by
    refine List.sum_eq_zero fun n hn => ?_
    obtain ⟨call, hm, rfl⟩ := List.mem_map.1 hn
    exact newCalls_not_extendStreams hm kind
  rw [(step_after hs).calls, streamsExtended, List.map_append, List.sum_append]
  exact Nat.add_eq_zero_iff.2 ⟨ih, hnew⟩

/-! ## The count -/

/-- A stream is in `@streams` from its opening to its closing, so the
server's are the ones there and the ones closed. -/
structure SlotsKept (tr : ClientTrace) (c : Client) : Prop where
  closed_opened : ∀ id, closed tr id = true → opened tr id = true
  entry : ∀ id, (c.streams.aref id).isSome = (opened tr id && !closed tr id)
  count : ∀ kind, serverOpens kind tr = registeredStreams kind c + serverCloses kind tr

theorem SlotsKept.initial : SlotsKept [] {} :=
  ⟨fun _ h => absurd h Bool.false_ne_true, fun _ => rfl, fun _ => rfl⟩

section
variable {tr : ClientTrace} {c c' : Client} {e : Event} {r : Reply}

/-- A step that opens and closes nothing. -/
theorem SlotsKept.same (h : SlotsKept tr c) (hstreams : c'.streams = c.streams)
    (hopened : ∀ id, openedBy id (e, r) = false) (hclosed : ∀ id, closedBy id (e, r) = false)
    (hopens : ∀ kind, serverOpensBy kind (e, r) = 0) (hcloses : ∀ kind, serverClosesBy kind (e, r) = 0) :
    SlotsKept (tr ++ [(e, r)]) c' where
  closed_opened id := by simpa [hopened, hclosed] using h.closed_opened id
  entry id := by simpa [hopened, hclosed, hstreams] using h.entry id
  count kind := by simpa [hopens, hcloses, registeredStreams, hstreams] using h.count kind

/-- A step that opens the stream `id`. -/
theorem SlotsKept.open (h : SlotsKept tr c) {id : Int} (hnew : opened tr id = false) {ref : Nat}
    (hstreams : c'.streams = c.streams.aset id ref) (hopened : ∀ i, openedBy i (e, r) = decide (id = i))
    (hclosed : ∀ i, closedBy i (e, r) = false)
    (hopens : ∀ kind, serverOpensBy kind (e, r) = if serverKind id = some kind then 1 else 0)
    (hcloses : ∀ kind, serverClosesBy kind (e, r) = 0) : SlotsKept (tr ++ [(e, r)]) c' := by
  have hlive : closed tr id = false := by
    cases hc : closed tr id with
    | false => rfl
    | true => rw [h.closed_opened id hc] at hnew; cases hnew
  have hnone : c.streams.aref id = none := by simpa [hnew] using h.entry id
  refine ⟨fun i => ?_, fun i => ?_, fun kind => ?_⟩
  · rw [opened_snoc, closed_snoc, hclosed, Bool.or_false]
    intro hc
    rw [h.closed_opened i hc, Bool.true_or]
  · rw [hstreams, OrderedHash.aref_aset, opened_snoc, closed_snoc, hopened, hclosed, Bool.or_false]
    by_cases hi : i = id
    · simp [hi, hlive]
    · have hi' : ¬ id = i := fun he => hi he.symm
      simpa [hi, hi'] using h.entry i
  · rw [serverOpens_snoc, serverCloses_snoc, hopens, hcloses, registeredStreams, hstreams,
      OrderedHash.countKeys_aset hnone, h.count kind, registeredStreams]
    simp only [decide_eq_true_eq]
    omega

/-- A step that closes the stream `id`. -/
theorem SlotsKept.close (h : SlotsKept tr c) {id : Int} (hlive : (c.streams.aref id).isSome = true)
    (hstreams : c'.streams = c.streams.delete id) (hopened : ∀ i, openedBy i (e, r) = false)
    (hclosed : ∀ i, closedBy i (e, r) = decide (id = i)) (hopens : ∀ kind, serverOpensBy kind (e, r) = 0)
    (hcloses : ∀ kind, serverClosesBy kind (e, r) = if serverKind id = some kind then 1 else 0) :
    SlotsKept (tr ++ [(e, r)]) c' := by
  obtain ⟨ref, href⟩ := Option.isSome_iff_exists.1 hlive
  have hentry := h.entry id
  rw [hlive, eq_comm, Bool.and_eq_true, Bool.not_eq_true'] at hentry
  refine ⟨fun i => ?_, fun i => ?_, fun kind => ?_⟩
  · rw [opened_snoc, closed_snoc, hclosed, hopened, Bool.or_false, Bool.or_eq_true, decide_eq_true_eq]
    rintro (hc | rfl)
    · exact h.closed_opened i hc
    · exact hentry.1
  · rw [hstreams, OrderedHash.aref_delete, opened_snoc, closed_snoc, hopened, hclosed, Bool.or_false]
    by_cases hi : i = id
    · simp [hi]
    · have hi' : ¬ id = i := fun he => hi he.symm
      simpa [hi, hi'] using h.entry i
  · have hcount := OrderedHash.countKeys_delete href fun i => serverKind i = some kind
    rw [serverOpens_snoc, serverCloses_snoc, hopens, hcloses, registeredStreams, hstreams, h.count kind,
      registeredStreams, hcount]
    simp only [decide_eq_true_eq]
    omega

theorem SlotsKept.step (p : TransportParams UInt64) (h : SlotsKept tr c) (hk : SlotContract p tr c e)
    (hs : step c e = some (r, c')) : SlotsKept (tr ++ [(e, r)]) c' := by
  have hstreams := (step_after hs).streams
  cases e with
  | openBidiStream answer | openUniStream answer =>
    cases answer with
    | error rv => exact h.same hstreams (fun _ => rfl) (fun _ => rfl) (fun _ => rfl) (fun _ => rfl)
    | ok id =>
      simp only [SlotContract, keepsSlots, Bool.and_eq_true, decide_eq_true_eq, Bool.not_eq_true'] at hk
      exact h.open hk.2 hstreams (fun _ => rfl) (fun _ => rfl) (fun _ => by simp [serverOpensBy, hk.1])
        (fun _ => rfl)
  | callback cb =>
    cases cb with
    | streamOpen id =>
      simp only [SlotContract, keepsSlots, Bool.and_eq_true, Bool.not_eq_true'] at hk
      have hnone : (c.streams.aref id).isSome = false := by rw [h.entry id, hk.1, Bool.false_and]
      simp only [Event.streamsAfter, Event.opens, hnone, Bool.false_eq_true, if_false] at hstreams
      exact h.open hk.1 hstreams (fun _ => rfl) (fun _ => rfl) (fun _ => rfl) (fun _ => rfl)
    | streamClose set id code =>
      simp only [SlotContract, keepsSlots] at hk
      have hlive : (c.streams.aref id).isSome = true := by rw [h.entry id, hk]
      simp only [Event.streamsAfter, Event.opens, Event.closes, hlive, if_true] at hstreams
      exact h.close hlive hstreams (fun _ => rfl) (fun _ => rfl) (fun _ => rfl) (fun _ => rfl)
    | _ => exact h.same hstreams (fun _ => rfl) (fun _ => rfl) (fun _ => rfl) (fun _ => rfl)
  | _ => exact h.same hstreams (fun _ => rfl) (fun _ => rfl) (fun _ => rfl) (fun _ => rfl)

end

theorem Reach.slotsKept {p : TransportParams UInt64} {tr c} (h : Reach (SlotContract p) tr c) : SlotsKept tr c :=
  h.invariant .initial fun _ _ _ _ _ hI hk hs => hI.step p hk hs

/-- The server opens no more streams than the limit announced. -/
theorem Reach.serverOpens_le {p : TransportParams UInt64} {tr c} (h : Reach (SlotContract p) tr c)
    (kind : StreamKind) : serverOpens kind tr ≤ (p.maxStreams kind).toNat := by
  induction h with
  | refl => exact Nat.zero_le _
  | @tail tr c e r c' h hk _ ih =>
    rw [serverOpens_snoc]
    have hnot := Reach.streams_not_extended h kind
    cases e with
    | callback cb =>
      cases cb with
      | streamOpen id =>
        simp only [SlotContract, keepsSlots, Bool.and_eq_true] at hk
        simp only [serverOpensBy]
        split
        · next hkind =>
          rw [hkind, Option.any_some, decide_eq_true_eq, slotsLeft, hnot] at hk
          omega
        · exact ih
      | _ => exact ih
    | _ => exact ih

/-- **Slots are not given back.** No extension is ever requested. In every
state reached the slots left, the streams in `@streams` and the streams
closed make up the initial limit, for each kind; so the slots left are what
the registry leaves of the limit exactly while no stream has been closed,
and the server opens at most the initial limit of streams in all. -/
theorem slots_exact {p : TransportParams UInt64} {tr c} (h : Reach (SlotContract p) tr c) (kind : StreamKind) :
    streamsExtended kind c.calls = 0 ∧
      slotsLeft p kind tr c + registeredStreams kind c + serverCloses kind tr = (p.maxStreams kind).toNat ∧
      ((p.maxStreams kind).toNat - registeredStreams kind c ≤ slotsLeft p kind tr c ↔
        serverCloses kind tr = 0) ∧
      serverOpens kind tr ≤ (p.maxStreams kind).toNat := by
  have hnot := h.streams_not_extended kind
  have hcount := h.slotsKept.count kind
  have hle := h.serverOpens_le kind
  have hleft : slotsLeft p kind tr c = (p.maxStreams kind).toNat - serverOpens kind tr := by
    rw [slotsLeft, hnot, Nat.add_zero]
  exact ⟨hnot, by omega, by omega, hle⟩

/-- Windows for a byte or two, and one stream of each kind. -/
def oneStreamParams : TransportParams UInt64 :=
  { initialMaxStreamDataBidiLocal := 2
    initialMaxStreamDataBidiRemote := 2
    initialMaxStreamDataUni := 2
    initialMaxData := 2
    initialMaxStreamsBidi := 1
    initialMaxStreamsUni := 1
    maxIdleTimeout := 30000000000
    activeConnectionIdLimit := 7 }

/-- The server opens a stream; it is accepted, read to the end and closed. -/
def servedRun : ClientTrace × Client :=
  run step (SlotContract oneStreamParams)
    [.callback (.streamOpen 1), .callback (.recvStreamData true 1 0 [7]), .acceptStreamNonblock,
     .readNonblock 0 16, .closeWrite 0, .readNonblock 0 16, .callback (.streamClose false 1 0)] [] {}

theorem servedRun_reach : Reach (SlotContract oneStreamParams) servedRun.1 servedRun.2 := Steps.of_run (by decide)

theorem slots_exact_servedRun : slotsLeft oneStreamParams .uni servedRun.1 servedRun.2 +
    registeredStreams .uni servedRun.2 + serverCloses .uni servedRun.1 = 1 :=
  (slots_exact servedRun_reach .uni).2.1

/-- After it no stream is registered, and the server may open none. -/
theorem servedRun_no_slot : ¬ ∀ (p : TransportParams UInt64) (tr : ClientTrace) (c : Client) (kind : StreamKind),
    Reach (SlotContract p) tr c →
      (p.maxStreams kind).toNat - registeredStreams kind c ≤ slotsLeft p kind tr c := by
  intro h
  have hle := h oneStreamParams servedRun.1 servedRun.2 .bidi (Steps.of_run (by decide))
  revert hle
  decide

end QuicRuby
