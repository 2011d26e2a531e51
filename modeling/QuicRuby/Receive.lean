/-
The receiving side: what ngtcp2 delivered for a stream id (`delivered`,
`finDelivered`, from the callbacks) and what the program has read from the
stream object (`returned`, from the replies).

ngtcp2 delivers in offset order without overlap, so a stream's content is
what its callbacks carry, in their order; the client does not look at the
offsets.
-/
import QuicRuby.SystemFacts

namespace QuicRuby

open Runs

/-! ## What was delivered and read -/

/-- The bytes an event returned from the object `ref`. -/
def returnedBy (ref : Nat) : Event × Reply → List UInt8
  | (.readNonblock r _, .ok (.str bytes)) => if r = ref then bytes else []
  | _ => []

/-- All Strings `read_nonblock` returned, one after the other. -/
def returned (tr : ClientTrace) (ref : Nat) : List UInt8 := tr.flatMap (returnedBy ref)

/-- The bytes an event delivers for a stream id. -/
def deliveredBy (id : Int) : Event × Reply → List UInt8
  | (.callback (.recvStreamData _ i _ data), _) => if i = id then data else []
  | _ => []

def delivered (tr : ClientTrace) (id : Int) : List UInt8 := tr.flatMap (deliveredBy id)

/-- The event delivers the stream's FIN. -/
def finDeliveredBy (id : Int) : Event × Reply → Bool
  | (.callback (.recvStreamData fin i _ _), _) => i = id && fin
  | _ => false

def finDelivered (tr : ClientTrace) (id : Int) : Bool := tr.any (finDeliveredBy id)

/-- The event opens the stream. -/
def openedBy (id : Int) : Event × Reply → Bool
  | (.openBidiStream (.ok i), _) | (.openUniStream (.ok i), _) | (.callback (.streamOpen i), _) => i = id
  | _ => false

def opened (tr : ClientTrace) (id : Int) : Bool := tr.any (openedBy id)

/-- The event closes the stream. -/
def closedBy (id : Int) : Event × Reply → Bool
  | (.callback (.streamClose _ i _), _) => i = id
  | _ => false

def closed (tr : ClientTrace) (id : Int) : Bool := tr.any (closedBy id)

section
variable (tr : ClientTrace) (x : Event × Reply) (ref : Nat) (id : Int)

@[simp] theorem returned_snoc :
    returned (tr ++ [x]) ref = returned tr ref ++ returnedBy ref x := by simp [returned]

@[simp] theorem delivered_snoc :
    delivered (tr ++ [x]) id = delivered tr id ++ deliveredBy id x := by simp [delivered]

@[simp] theorem finDelivered_snoc :
    finDelivered (tr ++ [x]) id = (finDelivered tr id || finDeliveredBy id x) := by
  simp [finDelivered]

@[simp] theorem opened_snoc : opened (tr ++ [x]) id = (opened tr id || openedBy id x) := by simp [opened]

@[simp] theorem closed_snoc : closed (tr ++ [x]) id = (closed tr id || closedBy id x) := by simp [closed]

end

/-! ## What ngtcp2 promises -/

/-- Data comes for a stream that was opened and not closed. -/
def keepsRecvPromise (tr : ClientTrace) : Event → Bool
  | .callback (.recvStreamData _ id _ _) => opened tr id && !closed tr id
  | _ => true

def RecvContract : ClientContract := fun tr c e => FreshIds tr c e ∧ keepsRecvPromise tr e = true

instance : ∀ tr c e, Decidable (RecvContract tr c e) := fun tr c e =>
  inferInstanceAs (Decidable (FreshIds tr c e ∧ keepsRecvPromise tr e = true))

theorem RecvContract.fresh (tr : ClientTrace) (c : Client) (e : Event) (h : RecvContract tr c e) :
    FreshIds tr c e := h.1

/-- An opened stream has an object, registered until it is closed. -/
structure Live (tr : ClientTrace) (c : Client) : Prop where
  object : ∀ id, opened tr id = true → ¬ c.NoStream id
  entry : ∀ id, opened tr id = true → closed tr id = false → (c.streams.aref id).isSome = true

/-- An event that opens an id makes its object, or the registry has it. -/
theorem opens_of_openedBy {c : Client} {e : Event} {r : Reply} {id : Int} (h : openedBy id (e, r) = true) :
    e.opens c = some id ∨ (c.streams.aref id).isSome = true := by
  cases e with
  | openBidiStream answer | openUniStream answer =>
    cases answer with
    | error rv => cases h
    | ok i =>
      have hi : i = id := by simpa [openedBy] using h
      exact .inl (by rw [← hi]; rfl)
  | callback cb =>
    cases cb with
    | streamOpen i =>
      have hi : i = id := by simpa [openedBy] using h
      subst hi
      by_cases hreg : (c.streams.aref i).isSome = true
      · exact .inr hreg
      · exact .inl (by simp [Event.opens, hreg])
    | _ => cases h
  | _ => cases h

theorem Live.after {tr : ClientTrace} {c : Client} {e : Event} {r : Reply} {c' : Client} (hreg : Registered c)
    (h : Live tr c) (hs : step c e = some (r, c')) : Live (tr ++ [(e, r)]) c' := by
  have hafter := step_after hs
  have hopens : ∀ id, e.opens c = some id → (c'.streams.aref id).isSome = true ∧ ¬ c'.NoStream id := by
    intro id ho
    have hmem : quicStreamNew id ∈ c'.objs := by
      rw [hafter.objs, Event.objsAfter, ho]
      simp
    refine ⟨?_, fun hno => hno _ hmem rfl⟩
    rw [hafter.streams, Event.streamsAfter, ho]
    simp
  constructor
  · intro id hopen hno
    rw [opened_snoc, Bool.or_eq_true] at hopen
    have hno₀ := hafter.noStream hno
    rcases hopen with hopen | hopen
    · exact h.object id hopen hno₀
    · rcases opens_of_openedBy (c := c) hopen with ho | hsome
      · exact (hopens id ho).2 hno
      · obtain ⟨ref, href⟩ := Option.isSome_iff_exists.1 hsome
        obtain ⟨s, hget, hid⟩ := hreg.streams id ref href
        exact hno₀ s (List.mem_of_getElem? hget) hid
  · intro id hopen hclosed
    rw [closed_snoc, Bool.or_eq_false_iff] at hclosed
    -- Registered before, and not closed by this event.
    have kept : (c.streams.aref id).isSome = true → (c'.streams.aref id).isSome = true := by
      intro hsome
      rw [hafter.streams, Event.streamsAfter]
      split
      · next id' _ ho =>
        rw [OrderedHash.aref_aset]
        split
        · rfl
        · exact hsome
      · next id' _ hc =>
        have hne : id ≠ id' := by
          intro he
          subst he
          cases e with
          | callback cb =>
            cases cb with
            | streamClose set i code =>
              simp only [Event.closes] at hc
              split at hc
              · cases hc
                simp [closedBy] at hclosed
              · cases hc
            | _ => cases hc
          | _ => cases hc
        rw [OrderedHash.aref_delete, if_neg hne]
        exact hsome
      · exact hsome
    rw [opened_snoc, Bool.or_eq_true] at hopen
    rcases hopen with hopen | hopen
    · exact kept (h.entry id hopen hclosed.1)
    · rcases opens_of_openedBy (c := c) hopen with ho | hsome
      · exact (hopens id ho).1
      · exact kept hsome

theorem Reach.live {K : ClientContract} (hK : ∀ tr c e, K tr c e → FreshIds tr c e) {tr c} (h : Reach K tr c) :
    Live tr c := by
  refine (h.invariant (I := fun tr c => Registered c ∧ Live tr c) ⟨.initial, ?_⟩ ?_).2
  · exact ⟨fun _ hopen => (by cases hopen), fun _ hopen => (by cases hopen)⟩
  · intro tr c e r c' ⟨hreg, hlive⟩ hk hs
    exact ⟨hreg.after (hK _ _ _ hk) (step_after hs), hlive.after hreg hs⟩

/-! ## The receiving half of an object -/

/-- Reading and deliveries apart, an event leaves the receiving half alone. -/
theorem update_recv {e : Event} (s : QuicStream) (hread : ∀ ref length, e ≠ .readNonblock ref length)
    (hdata : ∀ fin id offset data, e ≠ .callback (.recvStreamData fin id offset data)) :
    (e.update s).recvBuffer = s.recvBuffer ∧ (e.update s).finReceived = s.finReceived := by
  have hupdate := update_cases e s
  generalize e.update s = s' at hupdate ⊢
  cases hupdate with
  | read ref length bytes buffer => exact absurd rfl (hread ref length)
  | account buffer answer n =>
    obtain ⟨_, _, hacc⟩ := accountWritev_eq s (s.sendOffer.getD .connOnly) n answer.pdatalen
    rw [hacc]
    exact ⟨rfl, rfl⟩
  | callback cb =>
    cases cb with
    | recvStreamData fin id offset data => exact absurd rfl (hdata fin id offset data)
    | streamClose set id code =>
      obtain ⟨_, _, hclose⟩ := streamClose_eq s set code
      rw [Callback.update, hclose]
      exact ⟨rfl, rfl⟩
    | _ => exact ⟨rfl, rfl⟩
  | same | enqueue | reset => exact ⟨rfl, rfl⟩

@[simp] theorem recvStreamData_recvBuffer (s : QuicStream) (fin : Bool) (id : Int) (data : List UInt8) :
    (s.recvStreamData fin id data).recvBuffer = s.recvBuffer ++ data := by
  rw [recvStreamData_eq]

@[simp] theorem recvStreamData_finReceived (s : QuicStream) (fin : Bool) (id : Int) (data : List UInt8) :
    (s.recvStreamData fin id data).finReceived = (s.finReceived || fin) := by
  rw [recvStreamData_eq]

theorem returnedBy_of_not_target {c : Client} {e : Event} {ref : Nat} (h : e.target c ≠ some ref) (r : Reply) :
    returnedBy ref (e, r) = [] := by
  cases e with
  | readNonblock r' length =>
    have hne : r' ≠ ref := fun he => h (by rw [he]; rfl)
    rcases r with err | v
    · rfl
    · cases v with
      | str bytes => simp only [returnedBy, hne, if_false]
      | _ => rfl
  | _ => rfl

theorem deliveredBy_of_not_target {c : Client} {e : Event} {ref : Nat} {id : Int} (h : e.target c ≠ some ref)
    (hopen : ∀ fin offset data, e = .callback (.recvStreamData fin id offset data) →
      c.streams.aref id = some ref) (r : Reply) :
    deliveredBy id (e, r) = [] ∧ finDeliveredBy id (e, r) = false := by
  cases e with
  | callback cb =>
    cases cb with
    | recvStreamData fin i offset data =>
      have hne : i ≠ id := by
        intro hi
        subst hi
        exact h (hopen fin offset data rfl)
      simp [deliveredBy, finDeliveredBy, hne]
    | _ => exact ⟨rfl, rfl⟩
  | _ => exact ⟨rfl, rfl⟩

/-- **The receiving half, step by step.** What an event returns comes off
the front of the buffer, what it delivers goes to the end. -/
theorem step_recv {c : Client} {e : Event} {r : Reply} {c' : Client} (h : step c e = some (r, c')) {ref : Nat}
    {s : QuicStream} (hs : c.objs[ref]? = some s)
    (hopen : ∀ fin offset data, e = .callback (.recvStreamData fin s.streamId offset data) →
      c.streams.aref s.streamId = some ref)
    (hent : Entries c) {s' : QuicStream} (hs' : s' = if e.target c = some ref then e.update s else s) :
    returnedBy ref (e, r) ++ s'.recvBuffer = s.recvBuffer ++ deliveredBy s.streamId (e, r) ∧
      s'.finReceived = (s.finReceived || finDeliveredBy s.streamId (e, r)) := by
  subst hs'
  by_cases ht : e.target c = some ref
  case neg =>
    obtain ⟨hd, hf⟩ := deliveredBy_of_not_target ht hopen r
    rw [if_neg ht, returnedBy_of_not_target ht, hd, hf]
    simp
  rw [if_pos ht]
  by_cases hread : ∃ ref length, e = .readNonblock ref length
  · obtain ⟨ref', length, rfl⟩ := hread
    cases ht
    simp only [step, Client.call, quiet, hs, Option.map_some, Option.some.injEq, Prod.mk.injEq] at h
    obtain ⟨rfl, -⟩ := h
    simp only [Event.update, deliveredBy, finDeliveredBy]
    obtain ⟨err, he⟩ | ⟨bytes, buffer, he, hb⟩ := quicStreamReadNonblockM_cases s length
    · rw [he]
      simp [returnedBy, Except.map]
    · rw [he]
      simp [returnedBy, Except.map, hb]
  by_cases hdata : ∃ fin id offset data, e = .callback (.recvStreamData fin id offset data)
  · obtain ⟨fin, id, offset, data, rfl⟩ := hdata
    obtain ⟨s₁, hs₁, hid⟩ := hent id ref ht
    obtain rfl : s₁ = s := by simpa [hs] using hs₁.symm
    simp [Event.update, Callback.update, returnedBy, deliveredBy, finDeliveredBy, hid]
  · obtain ⟨hb, hf⟩ := update_recv s (fun ref length he => hread ⟨ref, length, he⟩)
      (fun fin id offset data he => hdata ⟨fin, id, offset, data, he⟩)
    rw [hb, hf]
    cases e with
    | readNonblock ref length => exact absurd ⟨ref, length, rfl⟩ hread
    | callback cb =>
      cases cb with
      | recvStreamData fin id offset data => exact absurd ⟨fin, id, offset, data, rfl⟩ hdata
      | _ => simp [returnedBy, deliveredBy, finDeliveredBy]
    | _ => simp [returnedBy, deliveredBy, finDeliveredBy]

end QuicRuby
