/-
A multiplexer of reliable byte streams, abstractly: what carrying many
streams over one connection has to look like from outside.

A `Channel` is one stream. Its outgoing side is a send buffer, behind whose
content the writer may queue the end; its incoming side is an inbox the
reader takes from. A `Mux` is one channel for each id opened, and the ids a
reader has yet to be told of. Nothing here has chunks, offsets or a
registry, and nothing says which channel is served next.
-/
import QuicRuby.Lib.SendBuffer
import QuicRuby.Lib.Simulation
import Mathlib.Algebra.GroupWithZero.Nat
import Mathlib.Algebra.Order.BigOperators.Group.Finset
import Mathlib.Logic.Function.Basic

open Runs

/-! ## A channel -/

/-- One stream. `shut`: nothing more may be written. `live`: the network
still knows it. The end is sent only behind everything written. -/
structure Channel (α : Type) where
  out : SendBuffer α
  finQueued : Bool
  finSent : Bool
  inbox : List α
  ended : Bool
  announced : Bool
  shut : Bool
  live : Bool
  finSent_last : finSent = true → finQueued = true ∧ out.sent = out.accepted.length

namespace Channel

variable {α : Type}

/-- What happens on a channel: the writer, the network and the reader. -/
inductive Op (α : Type)
  | write (data : List α) (fin : Bool)
  | frame (data : List α) (fin : Bool)
  | ack (n : Nat)
  | deliver (data : List α) (fin : Bool)
  | take (data : List α)
  | shut
  | close
deriving DecidableEq

def new : Channel α where
  out := .empty
  finQueued := false
  finSent := false
  inbox := []
  ended := false
  announced := false
  shut := false
  live := true
  finSent_last := fun h => (by cases h)

section
variable (ch : Channel α)

def write (data : List α) (fin : Bool) (h : ch.finQueued = false) : Channel α :=
  { ch with
    out := ch.out.accept data
    finQueued := fin
    finSent_last := fun hs => (by rw [(ch.finSent_last hs).1] at h; cases h) }

/-- Framing all that is left sends all that was written. -/
theorem sent_all {k : Nat} (hk : k ≤ ch.out.unsent.length) (h : k = ch.out.unsent.length) :
    (ch.out.frame k hk).sent = (ch.out.frame k hk).accepted.length := by
  have hle := ch.out.sent_le
  rw [SendBuffer.unsent_length] at h
  simp only [SendBuffer.frame]
  omega

/-- The next `k` go out, with the end if they are all there is. -/
def frame (k : Nat) (fin : Bool) (hk : k ≤ ch.out.unsent.length)
    (hfin : fin = true → ch.finQueued = true ∧ k = ch.out.unsent.length) : Channel α :=
  { ch with
    out := ch.out.frame k hk
    finSent := fin
    finSent_last := fun hs => ⟨(hfin hs).1, ch.sent_all hk (hfin hs).2⟩ }

def ack (n : Nat) (h : ch.out.acked + n ≤ ch.out.sent) : Channel α := { ch with out := ch.out.ack n h }

def deliver (data : List α) (fin : Bool) : Channel α :=
  { ch with inbox := ch.inbox ++ data, ended := ch.ended || fin, announced := true }

end

/-- What may happen next on a channel. -/
inductive Step (ch : Channel α) : Op α → Channel α → Prop
  | write (data : List α) (fin : Bool) (hopen : ch.shut = false) (h : ch.finQueued = false) :
      Step ch (.write data fin) (ch.write data fin h)
  | frame (k : Nat) (fin : Bool) (hlive : ch.live = true) (hk : k ≤ ch.out.unsent.length)
      (hopen : ch.finSent = false) (hfin : fin = true → ch.finQueued = true ∧ k = ch.out.unsent.length) :
      Step ch (.frame (ch.out.unsent.take k) fin) (ch.frame k fin hk hfin)
  | ack (n : Nat) (hlive : ch.live = true) (h : ch.out.acked + n ≤ ch.out.sent) : Step ch (.ack n) (ch.ack n h)
  | deliver (data : List α) (fin : Bool) (hlive : ch.live = true) :
      Step ch (.deliver data fin) (ch.deliver data fin)
  | take (data rest : List α) (h : data ++ rest = ch.inbox) : Step ch (.take data) { ch with inbox := rest }
  | shut : Step ch .shut { ch with shut := true }
  | close (hlive : ch.live = true) : Step ch .close { ch with shut := true, live := false }

/-- A run of one channel, by itself. -/
abbrev Run : Channel α → List (Op α) → Channel α → Prop := Acts Step

/-! ### What went through it -/

def Op.written : Op α → List α
  | .write data _ => data
  | _ => []

def Op.framed : Op α → List α
  | .frame data _ => data
  | _ => []

def Op.acked : Op α → Nat
  | .ack n => n
  | _ => 0

def Op.delivered : Op α → List α
  | .deliver data _ => data
  | _ => []

def Op.taken : Op α → List α
  | .take data => data
  | _ => []

/-- The network's own doing, for which the channel has to be live. -/
def Op.ofNetwork : Op α → Bool
  | .frame _ _ | .ack _ | .deliver _ _ | .close => true
  | _ => false

/-- The end goes out with the operation. -/
def Op.sendsFin : Op α → Bool
  | .frame _ fin => fin
  | _ => false

/-- What came in and what went out is all accounted for. -/
structure Accounts (ops : List (Op α)) (ch : Channel α) : Prop where
  written : ch.out.accepted = ops.flatMap Op.written
  framed : ch.out.framed = ops.flatMap Op.framed
  acked : ch.out.acked = (ops.map Op.acked).sum
  taken : ops.flatMap Op.taken ++ ch.inbox = ops.flatMap Op.delivered
  finSent : ch.finSent = ops.any Op.sendsFin

theorem Accounts.step {ops : List (Op α)} {ch ch' : Channel α} {op : Op α} (h : Accounts ops ch)
    (hs : ch.Step op ch') : Accounts (ops ++ [op]) ch' := by
  obtain ⟨hw, hf, ha, ht, hfin⟩ := h
  cases hs with
  | write data fin hopen hq =>
    exact ⟨by simp [Channel.write, SendBuffer.accept, hw, Op.written], by simp [Channel.write, hf, Op.framed],
      by simp [Channel.write, SendBuffer.accept, ha, Op.acked], by simp [Channel.write, ← ht, Op.taken, Op.delivered],
      by simp [Channel.write, hfin, Op.sendsFin]⟩
  | frame k fin hlive hk hopen hf' =>
    refine ⟨by simp [Channel.frame, SendBuffer.frame, hw, Op.written], ?_,
      by simp [Channel.frame, SendBuffer.frame, ha, Op.acked], by simp [Channel.frame, ← ht, Op.taken, Op.delivered],
      ?_⟩
    · simp only [Channel.frame, SendBuffer.framed_frame, hf, List.flatMap_append]
      simp [Op.framed]
    · rw [List.any_append, ← hfin, hopen]
      simp [Channel.frame, Op.sendsFin]
  | ack n hlive hn =>
    exact ⟨by simp [Channel.ack, SendBuffer.ack, hw, Op.written], by simp [Channel.ack, hf, Op.framed],
      by simp [Channel.ack, SendBuffer.ack, ha, Op.acked], by simp [Channel.ack, ← ht, Op.taken, Op.delivered],
      by simp [Channel.ack, hfin, Op.sendsFin]⟩
  | deliver data fin hlive =>
    refine ⟨by simp [Channel.deliver, hw, Op.written], by simp [Channel.deliver, hf, Op.framed],
      by simp [Channel.deliver, ha, Op.acked], ?_, by simp [Channel.deliver, hfin, Op.sendsFin]⟩
    simp [Channel.deliver, ← ht, Op.taken, Op.delivered]
  | take data rest hr =>
    refine ⟨by simp [hw, Op.written], by simp [hf, Op.framed], by simp [ha, Op.acked], ?_, by simp [hfin, Op.sendsFin]⟩
    simp [← ht, ← hr, Op.taken, Op.delivered]
  | shut | close =>
    exact ⟨by simp [hw, Op.written], by simp [hf, Op.framed], by simp [ha, Op.acked],
      by simp [← ht, Op.taken, Op.delivered], by simp [hfin, Op.sendsFin]⟩

theorem Run.accounts {ops : List (Op α)} {ch : Channel α} (h : Run new ops ch) : Accounts ops ch :=
  h.invariant ⟨rfl, rfl, rfl, rfl, rfl⟩ fun _ _ _ _ hI hs => hI.step hs

/-- What is sent is a first part of what was written, what is acknowledged
of what is sent, and what was read of what came in; after the end nothing
is left to send. -/
theorem Run.reliable {ops : List (Op α)} {ch : Channel α} (h : Run new ops ch) :
    ops.flatMap Op.framed <+: ops.flatMap Op.written ∧
      (ops.map Op.acked).sum ≤ (ops.flatMap Op.framed).length ∧
      ops.flatMap Op.taken <+: ops.flatMap Op.delivered ∧
      (ops.any Op.sendsFin = true → ops.flatMap Op.framed = ops.flatMap Op.written) := by
  have hacc := h.accounts
  rw [← hacc.written, ← hacc.framed, ← hacc.acked, ← hacc.taken, ← hacc.finSent, SendBuffer.framed_length]
  refine ⟨List.take_prefix _ _, ch.out.acked_le, List.prefix_append _ _, fun hs => ?_⟩
  rw [SendBuffer.framed, (ch.finSent_last hs).2, List.take_length]

/-- What a channel that is over stays. -/
theorem Step.dead {ch ch' : Channel α} {op : Op α} (h : ch.Step op ch') (hdead : ch.live = false) :
    op.ofNetwork = false ∧ ch'.live = false := by
  cases h with
  | write | take | shut => exact ⟨rfl, hdead⟩
  | frame k fin hlive => rw [hdead] at hlive; cases hlive
  | ack n hlive => rw [hdead] at hlive; cases hlive
  | deliver data fin hlive => rw [hdead] at hlive; cases hlive
  | close hlive => rw [hdead] at hlive; cases hlive

theorem Run.dead {ops : List (Op α)} {ch ch' : Channel α} (h : Run ch ops ch') (hdead : ch.live = false) :
    ∀ op ∈ ops, op.ofNetwork = false := by
  refine (h.invariant (I := fun ops ch => ch.live = false ∧ ∀ op ∈ ops, op.ofNetwork = false)
    ⟨hdead, fun _ hm => (by cases hm)⟩ ?_).2
  rintro ops ch op ch' ⟨hdead, hall⟩ hs
  obtain ⟨hop, hdead'⟩ := hs.dead hdead
  refine ⟨hdead', fun op' hm => ?_⟩
  rcases List.mem_append.1 hm with hm | hm
  · exact hall op' hm
  · rw [List.mem_singleton.1 hm, hop]

/-- After a close the network is silent. -/
theorem Run.silent_after_close {pre post : List (Op α)} {ch ch' : Channel α}
    (h : Run ch (pre ++ [.close] ++ post) ch') : ∀ op ∈ post, op.ofNetwork = false := by
  obtain ⟨ch₁, h₁, h₂⟩ := h.split
  obtain ⟨ch₀, -, hclose⟩ := h₁.split
  refine Run.dead h₂ ?_
  generalize hx : [Op.close] = xs at hclose
  cases hclose with
  | refl => cases hx
  | @tail zs ch₂ x ch₃ h₃ hs =>
    obtain ⟨rfl, hy⟩ := List.append_inj' (show [] ++ [Op.close] = zs ++ [x] from hx) rfl
    obtain rfl := List.singleton_inj.1 hy
    cases hs
    rfl

end Channel

/-! ## Many channels -/

/-- A channel for each id opened, and the ids waiting to be accepted. -/
structure Mux (ι α : Type) where
  channel : ι → Option (Channel α)
  waiting : List ι

namespace Mux

variable {ι α : Type} [DecidableEq ι]

inductive Action (ι α : Type)
  | open (id : ι)
  | on (id : ι) (op : Channel.Op α)
  | accept (id : ι)
deriving DecidableEq

def empty : Mux ι α := ⟨fun _ => none, []⟩

/-- The id a delivery puts in the queue: a peer's, the first time. -/
def announces (peer : ι → Bool) (id : ι) (ch : Channel α) : Channel.Op α → List ι
  | .deliver _ _ => if peer id && !ch.announced then [id] else []
  | _ => []

/-- What may happen next: a new id is opened, a channel makes a step of its
own, or the first id in the queue is accepted. -/
inductive Step (peer : ι → Bool) (m : Mux ι α) : Action ι α → Mux ι α → Prop
  | open (id : ι) (h : m.channel id = none) :
      Step peer m (.open id) { m with channel := Function.update m.channel id (some .new) }
  | on (id : ι) (op : Channel.Op α) (ch ch' : Channel α) (h : m.channel id = some ch) (hs : ch.Step op ch') :
      Step peer m (.on id op)
        { channel := Function.update m.channel id (some ch')
          waiting := m.waiting ++ announces peer id ch op }
  | accept (id : ι) (rest : List ι) (h : m.waiting = id :: rest) :
      Step peer m (.accept id) { m with waiting := rest }

abbrev Run (peer : ι → Bool) : Mux ι α → List (Action ι α) → Mux ι α → Prop := Acts (Step peer)

/-- What a channel does, if anything, the multiplexer does on its id. -/
theorem Step.lift {peer : ι → Bool} {m : Mux ι α} {id : ι} {ch ch' : Channel α} {op : Option (Channel.Op α)}
    (h : m.channel id = some ch) (hs : Matches Channel.Step ch op ch') :
    Matches (Step peer) m (op.map (.on id))
      { channel := Function.update m.channel id (some ch')
        waiting := m.waiting ++ (op.map (announces peer id ch)).getD [] } := by
  cases hs with
  | stutter =>
    rw [← h, Function.update_eq_self, Option.map_none, Option.map_none, Option.getD_none, List.append_nil]
    exact .stutter
  | act hs => exact .act (.on id _ ch ch' h hs)

/-- What happens on one channel. -/
def opsBy (id : ι) : Action ι α → List (Channel.Op α)
  | .on i op => if i = id then [op] else []
  | _ => []

def ops (xs : List (Action ι α)) (id : ι) : List (Channel.Op α) := xs.flatMap (opsBy id)

@[simp] theorem ops_snoc (xs : List (Action ι α)) (x : Action ι α) (id : ι) :
    ops (xs ++ [x]) id = ops xs id ++ opsBy id x := by simp [ops]

/-- A channel after a run is one opened in it, by the operations on it. -/
theorem Run.channel {peer : ι → Bool} {xs : List (Action ι α)} {m : Mux ι α} (h : Run peer empty xs m) (id : ι) :
    (∀ ch, m.channel id = some ch → Channel.Run .new (ops xs id) ch) ∧
      (m.channel id = none → ops xs id = [] ∧ .open id ∉ xs) := by
  refine h.invariant (I := fun xs m => (∀ ch, m.channel id = some ch → Channel.Run .new (ops xs id) ch) ∧
    (m.channel id = none → ops xs id = [] ∧ .open id ∉ xs)) ⟨fun ch hch => (by cases hch), fun _ => ⟨rfl, by simp⟩⟩ ?_
  rintro xs m x m' ⟨hsome, hnone⟩ hs
  cases hs with
  | «open» i hi =>
    dsimp only
    by_cases hid : i = id
    · subst hid
      obtain ⟨hops, -⟩ := hnone hi
      refine ⟨fun ch hch => ?_, fun h0 => ?_⟩
      · rw [Function.update_self] at hch
        cases hch
        rw [ops_snoc, hops]
        exact .refl
      · rw [Function.update_self] at h0
        cases h0
    · have hne : id ≠ i := fun he => hid he.symm
      rw [Function.update_of_ne hne, ops_snoc]
      refine ⟨by simpa [opsBy] using hsome, fun h0 => ?_⟩
      simpa [opsBy, hne] using hnone h0
  | on i op ch₀ ch₁ hch hstep =>
    dsimp only
    by_cases hid : i = id
    · subst hid
      rw [Function.update_self, ops_snoc]
      refine ⟨fun ch hch' => ?_, fun h0 => (by cases h0)⟩
      cases hch'
      simpa [opsBy] using Acts.tail (hsome ch₀ hch) hstep
    · have hne : id ≠ i := fun he => hid he.symm
      rw [Function.update_of_ne hne, ops_snoc]
      refine ⟨by simpa [opsBy, hid] using hsome, fun h0 => ?_⟩
      simpa [opsBy, hid] using hnone h0
  | accept i rest hi =>
    rw [ops_snoc]
    exact ⟨by simpa [opsBy] using hsome, fun h0 => (by simpa [opsBy] using hnone h0)⟩

end Mux
