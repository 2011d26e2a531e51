/-
Which Strings the chunks of a stream are, call after call: what is queued
comes after those there, what is acknowledged goes before those left, and a
chunk that stays is the same String with the same bytes.
-/
import QuicRuby.ByValue
import QuicRuby.Lib.BlockLog

namespace QuicRuby

open Runs Ownership BlockLog

/-- The chunks with what they hold. -/
def StreamObject.cells (h : Heap) (o : StreamObject) : List (Nat × List UInt8) :=
  o.pendingChunks.map fun v => (v, (h.str v).bytes)

theorem StreamObject.flat_cells (h : Heap) (o : StreamObject) :
    flat (o.cells h) = (o.value h).pendingChunks.flatten := by
  simp only [cells, value, flat, List.flatMap_map, ← List.flatMap_def]

theorem StreamObject.mem_cells {h : Heap} {o : StreamObject} {v : Nat} {bytes : List UInt8}
    (hv : (v, bytes) ∈ o.cells h) : v ∈ o.pendingChunks ∧ (h.str v).bytes = bytes := by
  obtain ⟨u, hu, heq⟩ := List.mem_map.1 hv
  cases heq
  exact ⟨hu, rfl⟩

theorem StreamObject.cells_congr {h h' : Heap} {o o' : StreamObject} (hchunks : o'.pendingChunks = o.pendingChunks)
    (hsame : ∀ v ∈ o.pendingChunks, h'[v]? = h[v]?) : o'.cells h' = o.cells h := by
  rw [cells, hchunks]
  exact List.map_congr_left fun v hv => by rw [Heap.str_congr (hsame v hv)]

theorem StreamObject.cells_append {h : Heap} {o : StreamObject} (hall : All StringObject.Private h o.strings)
    (a : StringObject) : o.cells (h ++ [a]) = o.cells h :=
  cells_congr rfl fun _ hv => List.getElem?_append_left (hall.lt (List.mem_cons_of_mem _ hv))

/-! ## The methods -/

/-- A method keeps the chunks there are and queues `acc` after them. -/
def Method.Queues {α : Type} (m : Method α) (acc : Heap → Except RubyError α → List UInt8) : Prop :=
  ∀ (h : Heap) (o : StreamObject), o.strings.Nodup → All StringObject.Private h o.strings →
    ∃ new, (m h o).2.2.1.cells (m h o).2.1 = o.cells h ++ new ∧ flat new = acc h (m h o).1

/-- It queues nothing. -/
abbrev nothing {α : Type} : Heap → Except RubyError α → List UInt8 := fun _ _ => []

/-- It queues as much of `data` as it says. -/
def tookFrom (data : Nat) (h : Heap) : Except RubyError Nat → List UInt8
  | .ok n => (h.str data).bytes.take n
  | .error _ => []

namespace Strings

theorem enqueue_len {data : Nat} {fin : Bool} {h : Heap} {o : StreamObject} {n : Nat}
    (hr : (quicStreamEnqueue data fin h o).1 = .ok n) : n = (h.str data).len := by
  cases ho : o.struct.sendOpen with
  | false => rw [enqueue_refused ho] at hr; cases hr
  | true => rw [enqueue_open ho] at hr; cases hr; rfl

theorem enqueue_queues (data : Nat) (fin : Bool) : (quicStreamEnqueue data fin).Queues (tookFrom data) := by
  intro h o hn hall
  cases ho : o.struct.sendOpen with
  | false =>
    rw [enqueue_refused ho]
    exact ⟨[], (List.append_nil _).symm, rfl⟩
  | true =>
    rw [enqueue_open ho]
    by_cases hlen : 0 < (h.str data).len
    · simp only [hlen, if_true]
      refine ⟨[(h.length, (h.str data).bytes)], ?_, by simp [tookFrom, RString.len]⟩
      have hold := StreamObject.cells_append hall (StringObject.binary (h.str data))
      simp only [StreamObject.cells] at hold ⊢
      rw [List.map_append, hold, List.map_singleton, Heap.str_append_self]
      rfl
    · simp only [hlen, if_false]
      have hnil : (h.str data).bytes = [] := List.eq_nil_of_length_eq_zero (by simp only [RString.len] at hlen; omega)
      exact ⟨[], (List.append_nil _).symm, by simp [tookFrom, hnil]⟩

/-- A slice is a String of its own, and what is queued is a first part of the
data. -/
theorem enqueue_slice_queues {data : Nat} {h : Heap} {o : StreamObject} (hn : o.strings.Nodup)
    (hall : All StringObject.Private h o.strings) (take : Nat) (fin : Bool)
    {m : Except RubyError Nat × Heap × StreamObject × List Ngtcp2Call}
    (hm : m = quicStreamEnqueue h.length fin (h ++ [StringObject.binary ((h.str data).take take)]) o) :
    ∃ new, m.2.2.1.cells m.2.1 = o.cells h ++ new ∧ flat new = tookFrom data h m.1 := by
  subst hm
  obtain ⟨new, hcells, hnew⟩ := enqueue_queues h.length fin (h ++ [StringObject.binary ((h.str data).take take)]) o hn
    (hall.append _)
  rw [StreamObject.cells_append hall] at hcells
  refine ⟨new, hcells, hnew.trans ?_⟩
  cases hr : (quicStreamEnqueue h.length fin (h ++ [StringObject.binary ((h.str data).take take)]) o).1 with
  | error e => rfl
  | ok n =>
    have hlen := enqueue_len hr
    rw [Heap.str_append_self] at hlen
    have hle : n ≤ take := by rw [hlen]; simp [StringObject.binary, RString.take, RString.len]
    simp only [tookFrom, Heap.str_append_self, StringObject.binary, RString.take, List.take_take, Nat.min_eq_left hle]

theorem writeNonblock_queues (data : Nat) (fin : Bool) (streamLeft connLeft : UInt64) :
    (quicStreamWriteNonblockM data fin streamLeft connLeft).Queues (tookFrom data) := by
  intro h o hn hall
  unfold quicStreamWriteNonblockM
  by_cases hbare : (!o.struct.hasClient) = true
  · simp only [hbare, if_true]
    exact enqueue_queues data fin h o hn hall
  by_cases hzero : (h.str data).len = 0
  · simp only [hbare, hzero, if_true]
    exact enqueue_queues data fin h o hn hall
  by_cases hfull : quicStreamWindowLeft streamLeft connLeft = 0
  · simp only [hbare, hzero, hfull, if_true, if_false]
    exact ⟨[], (List.append_nil _).symm, rfl⟩
  simp only [hbare, hzero, hfull, if_false]
  generalize (if UInt64.ofNat (h.str data).len ≤ quicStreamWindowLeft streamLeft connLeft then (h.str data).len
    else (quicStreamWindowLeft streamLeft connLeft).toNat) = take
  by_cases hwhole : take = (h.str data).len
  · simp only [hwhole, if_true]
    exact enqueue_queues data fin h o hn hall
  · simp only [hwhole, if_false]
    exact enqueue_slice_queues hn hall take false rfl

/-- The empty String queues nothing. -/
theorem closeWrite_queues : quicStreamCloseWriteM.Queues nothing := by
  intro h o hn hall
  unfold quicStreamCloseWriteM
  by_cases hsent : o.struct.finSent = true
  · simp only [hsent, if_true]
    exact ⟨[], (List.append_nil _).symm, rfl⟩
  · simp only [hsent, if_false, Bool.false_eq_true]
    obtain ⟨new, hcells, hnew⟩ :=
      enqueue_queues h.length true (h ++ [StringObject.binary .empty]) o hn (hall.append _)
    rw [StreamObject.cells_append hall] at hcells
    refine ⟨new, hcells, hnew.trans ?_⟩
    cases (quicStreamEnqueue h.length true (h ++ [StringObject.binary .empty]) o).1 with
    | error e => rfl
    | ok n => simp [tookFrom, StringObject.binary, RString.empty]

theorem readNonblock_queues (length : Int) : (quicStreamReadNonblockM length).Queues nothing := by
  intro h o hn hall
  unfold quicStreamReadNonblockM
  cases num2long length with
  | error e => exact ⟨[], (List.append_nil _).symm, rfl⟩
  | ok n =>
    dsimp only
    by_cases hneg : n < 0
    · simp only [hneg, if_true]
      exact ⟨[], (List.append_nil _).symm, rfl⟩
    by_cases hempty : (h.str o.recvBuffer).len = 0
    · simp only [hneg, hempty, if_true, if_false]
      cases o.struct.finReceived <;> exact ⟨[], (List.append_nil _).symm, rfl⟩
    simp only [hneg, hempty, if_false]
    refine ⟨[], ?_, rfl⟩
    rw [List.append_nil]
    exact StreamObject.cells_congr rfl fun v hv =>
      (Heap.getElem?_put_ne (StreamObject.recvBuffer_ne hn hv) _).trans
        (List.getElem?_append_left (hall.lt (List.mem_cons_of_mem _ hv)))

theorem onStruct_queues {α : Type} (f : QuicStream → Except RubyError α × QuicStream × List Ngtcp2Call) :
    (onStruct f).Queues nothing := fun _ _ _ _ => ⟨[], (List.append_nil _).symm, rfl⟩

theorem close_queues (rv : Option Ngtcp2Error) : (quicStreamCloseM rv).Queues nothing := by
  intro h o hn hall
  obtain ⟨new, hcells, hnew⟩ := closeWrite_queues h o hn hall
  unfold quicStreamCloseM
  rcases hm : quicStreamCloseWriteM h o with ⟨r, h', o', calls⟩
  rw [hm] at hcells
  rcases r with e | _
  · exact ⟨new, hcells, hnew⟩
  · exact ⟨new, hcells, hnew⟩

theorem shiftAcked_suffix (h : Heap) (chunks : List Nat) (shifted ackedOffset : UInt64) :
    (shiftAcked h chunks shifted ackedOffset).1 <:+ chunks := by
  induction chunks generalizing shifted with
  | nil => exact List.suffix_rfl
  | cons head tail ih =>
    simp only [shiftAcked]
    split
    · exact (ih _).trans (List.suffix_cons _ _)
    · exact List.suffix_rfl

end Strings

/-! ## The client -/

namespace StringWorld

/-- In each stream, what the calls of `tr` got accepted is queued after the
chunks there were, and some may be gone from before them. -/
def Slid (w w' : StringWorld) (tr : ClientTrace) : Prop :=
  ∀ (ref : Nat) (o : StreamObject), w.objs[ref]? = some o → ∃ o' new, w'.objs[ref]? = some o' ∧
    Slides (o.cells w.heap) new (o'.cells w'.heap) ∧ flat new = accepted tr ref

section
variable {w w' w'' : StringWorld} {ref : Nat} {o o' : StreamObject} {h' : Heap} {tr tr' : ClientTrace}

theorem Slid.refl (w : StringWorld) : Slid w w [] :=
  fun _ o hs => ⟨o, [], hs, .refl _, rfl⟩

theorem Slid.trans (h₁ : Slid w w' tr) (h₂ : Slid w' w'' tr') : Slid w w'' (tr ++ tr') := by
  intro ref o hs
  obtain ⟨o₁, new₁, hs₁, hsl₁, hacc₁⟩ := h₁ ref o hs
  obtain ⟨o₂, new₂, hs₂, hsl₂, hacc₂⟩ := h₂ ref o₁ hs₁
  exact ⟨o₂, new₁ ++ new₂, hs₂, hsl₁.trans hsl₂, by rw [flat_append, hacc₁, hacc₂, accepted, accepted, accepted,
    List.flatMap_append]⟩

/-- The streams keep their Strings, and these what they hold. -/
theorem Slid.of_structs
    (hobjs : ∀ (ref : Nat) o, w.objs[ref]? = some o → ∃ s, w'.objs[ref]? = some { o with struct := s })
    (hsame : ∀ v ∈ w.internal, w'.heap[v]? = w.heap[v]?) (hacc : ∀ ref, accepted tr ref = []) : Slid w w' tr := by
  intro ref o hs
  obtain ⟨s, hs'⟩ := hobjs ref o hs
  refine ⟨_, [], hs', ?_, (hacc ref).symm⟩
  have hin : ∀ v ∈ o.pendingChunks, w'.heap[v]? = w.heap[v]? := fun v hv =>
    hsame v (mem_internal hs (List.mem_cons_of_mem _ hv))
  have hcells : StreamObject.cells w'.heap { o with struct := s } = o.cells w.heap := StreamObject.cells_congr rfl hin
  rw [hcells]
  exact .refl _

/-- A write to a String that is no stream's. -/
theorem slid_write {v : Nat} (hv : v ∉ w.internal) (f : StringObject → StringObject) :
    Slid w { w with heap := w.heap.modify v f } [] :=
  .of_structs (fun ref o hs => ⟨o.struct, hs⟩)
    (fun u hu => List.getElem?_modify_ne _ _ (by rintro rfl; exact hv hu)) fun _ => rfl

/-- One stream does something to its Strings. -/
theorem Sep.slid_stream (hsep : w.Sep) (hs : w.objs[ref]? = some o) (new : List (Nat × List UInt8))
    (heff : Effect StringObject.Private w.heap o.strings h' o'.strings)
    (hsl : Slides (o.cells w.heap) new (o'.cells h')) (hobjs : w'.objs = w.objs.modify ref fun _ => o')
    (hheap : w'.heap = h') (hacc : ∀ j, accepted tr j = if ref = j then flat new else []) : Slid w w' tr := by
  obtain ⟨-, -, hothers⟩ := Separate.effect hsep (strings_get hs) heff
  intro j x hx
  rw [hacc, hobjs, hheap, List.getElem?_modify, hx]
  by_cases hij : ref = j
  · subst hij
    obtain rfl := Option.some.inj (hs.symm.trans hx)
    exact ⟨o', new, by simp, hsl, by simp⟩
  · have hsame := hothers j x.strings (fun heq => hij heq.symm) (strings_get hx)
    have hcells := StreamObject.cells_congr (o := x) rfl fun v hv => hsame v (List.mem_cons_of_mem _ hv)
    exact ⟨x, [], by simp [hij], hcells ▸ .refl _, by simp [hij]⟩

/-- A method on a stream. -/
theorem Sep.slid_call (hsep : w.Sep) {α β : Type} {m : Method α} {out : Heap → α → β}
    {f : Heap → QuicStream → Except RubyError β × QuicStream × List Ngtcp2Call} (himpl : m.Implements out f)
    {acc : Heap → Except RubyError α → List UInt8} (hq : m.Queues acc) {p : α → StringValue} {r : StringReply}
    (h : w.call ref p m = some (r, w'))
    (hacc : ∀ r' : Except RubyError α, r = r'.map p → ∀ j, accepted tr j = if ref = j then acc w.heap r' else []) :
    Slid w w' tr := by
  obtain ⟨o, hs, heq⟩ := Option.map_eq_some_iff.1 h
  obtain ⟨hn, hall⟩ := hsep.object hs
  obtain ⟨heff, -⟩ := himpl w.heap o hn hall
  obtain ⟨new, hcells, hnew⟩ := hq w.heap o hn hall
  rcases hm : m w.heap o with ⟨r', h', o', calls⟩
  simp only [hm] at heq heff hcells hnew
  cases heq
  refine hsep.slid_stream hs new heff (hcells ▸ .push _ _) rfl rfl fun j => ?_
  rw [hacc r' rfl j, hnew]

theorem Sep.slid_newStream (hsep : w.Sep) (id : Int) (hacc : ∀ ref, accepted tr ref = []) :
    Slid w (w.newStream id) tr := by
  intro ref o hs
  have hlt := (List.getElem?_eq_some_iff.1 hs).1
  refine ⟨o, [], ?_, ?_, (hacc ref).symm⟩
  · simp only [StringWorld.newStream, List.getElem?_append_left hlt, hs]
  · have hcells := StreamObject.cells_append (hsep.object hs).2 (StringObject.binary .empty)
    exact hcells ▸ .refl _

/-- A function of the struct alone, on one stream. -/
theorem modify_struct (w : StringWorld) (ref : Nat) (g : QuicStream → QuicStream) (j : Nat) (o : StreamObject)
    (hs : w.objs[j]? = some o) :
    ∃ s, (w.modify ref fun o => { o with struct := g o.struct }).objs[j]? = some { o with struct := s } := by
  rw [StringWorld.modify, List.getElem?_modify, hs]
  by_cases hij : ref = j
  · exact ⟨g o.struct, by simp [hij]⟩
  · exact ⟨o.struct, by simp [hij]⟩

theorem accepted_callbacks (cbs : List Callback) (ref : Nat) :
    accepted (cbs.map fun cb => (.callback cb, .ok .nil)) ref = [] := by
  simp [accepted, acceptedBy]

theorem recv_cells {fin : Bool} {id : Int} {data : List UInt8} {h h' : Heap} {o o' : StreamObject}
    (hn : o.strings.Nodup) (hr : Strings.recvStreamData fin id data h o = some (h', o')) :
    o'.cells h' = o.cells h := by
  simp only [Strings.recvStreamData, Option.map_eq_some_iff, Prod.mk.injEq] at hr
  obtain ⟨h₁, hcat, rfl, rfl⟩ := hr
  refine StreamObject.cells_congr rfl fun v hv => ?_
  split at hcat
  · obtain ⟨s, -, rfl⟩ := bufCat_eq hcat
    exact Heap.getElem?_put_ne (StreamObject.recvBuffer_ne hn hv) s
  · cases hcat
    rfl

theorem Sep.slid_callback (hsep : w.Sep) {cb : Callback} (h : Strings.runCallback w cb = some w')
    (hacc : ∀ ref, accepted tr ref = []) : Slid w w' tr := by
  have hsame : Slid w w tr := Slid.of_structs (fun ref o hs => ⟨o.struct, hs⟩) (fun _ _ => rfl) hacc
  cases cb with
  | streamOpen id =>
    simp only [Strings.runCallback] at h
    cases hid : w.streams.aref id with
    | some ref => simp only [hid] at h; cases h; exact hsame
    | none => simp only [hid] at h; cases h; exact hsep.slid_newStream id hacc
  | recvStreamData fin id offset data =>
    simp only [Strings.runCallback] at h
    cases hid : w.streams.aref id with
    | none => simp only [hid] at h; cases h; exact hsame
    | some ref =>
      simp only [hid] at h
      cases hs : w.objs[ref]? with
      | none => simp only [hs] at h; cases h; exact hsame
      | some o =>
        simp only [hs, Option.map_eq_some_iff] at h
        obtain ⟨⟨h', o'⟩, hr, rfl⟩ := h
        have hheap : (if o.struct.toAccept id then { w with acceptQueue := w.acceptQueue ++ [ref] } else w).heap =
            w.heap := by split <;> rfl
        have hobjs : (if o.struct.toAccept id then { w with acceptQueue := w.acceptQueue ++ [ref] } else w).objs =
            w.objs := by split <;> rfl
        rw [hheap] at hr
        obtain ⟨hn, hall⟩ := hsep.object hs
        obtain ⟨heff, -⟩ := recv_effect hn hall hr
        refine hsep.slid_stream hs [] heff (recv_cells hn hr ▸ .refl _) ?_ rfl fun j => by simp [hacc]
        simp only [StringWorld.modify, hobjs]
  | ackedStreamDataOffset id offset datalen =>
    simp only [Strings.runCallback] at h
    cases hid : w.streams.aref id with
    | none => simp only [hid] at h; cases h; exact hsame
    | some ref =>
      simp only [hid] at h
      cases h
      cases hs : w.objs[ref]? with
      | none =>
        have hlen := List.getElem?_eq_none_iff.1 hs
        simp only [StringWorld.modify, List.modify_eq_self hlen]
        exact hsame
      | some o =>
        obtain ⟨hn, hall⟩ := hsep.object hs
        have hsuf := Strings.shiftAcked_suffix w.heap o.pendingChunks o.struct.pendingShifted
          (o.struct.ackedOffset + datalen)
        have heff : Effect StringObject.Private w.heap o.strings w.heap
            (Strings.ackedStreamDataOffset w.heap datalen o).strings := .drop hn hall (hsuf.sublist.cons_cons _)
        have hslides : Slides (o.cells w.heap) [] ((Strings.ackedStreamDataOffset w.heap datalen o).cells w.heap) :=
          .drop (hsuf.map _)
        exact hsep.slid_stream hs [] heff hslides
          (modify_eq_const hs (Strings.ackedStreamDataOffset w.heap datalen)) rfl fun j => by simp [hacc]
  | streamClose set id code =>
    simp only [Strings.runCallback] at h
    cases hid : w.streams.aref id with
    | none => simp only [hid] at h; cases h; exact hsame
    | some ref =>
      simp only [hid] at h
      cases h
      exact Slid.of_structs (w.modify_struct ref (·.streamClose set code)) (fun _ _ => rfl) hacc
  | streamReset id finalSize code =>
    simp only [Strings.runCallback] at h
    cases hid : w.streams.aref id with
    | none => simp only [hid] at h; cases h; exact hsame
    | some ref =>
      simp only [hid] at h
      cases h
      exact Slid.of_structs (w.modify_struct ref (·.streamReset code)) (fun _ _ => rfl) hacc

theorem Sep.slid_callbacks (hsep : w.Sep) {cbs : List Callback} (h : cbs.foldlM Strings.runCallback w = some w') :
    Slid w w' (cbs.map fun cb => (.callback cb, .ok .nil)) := by
  induction cbs generalizing w with
  | nil => cases h; exact .refl _
  | cons cb cbs ih =>
    rw [List.foldlM_cons] at h
    obtain ⟨w₁, hcb, hrest⟩ := Option.bind_eq_some_iff.1 h
    have hslid : Slid w w₁ [(.callback cb, .ok .nil)] := hsep.slid_callback hcb (accepted_callbacks [cb])
    exact hslid.trans (ih (hsep.callback hcb).1.sep hrest)

theorem writePktTo_objs {answer : WritevAnswer} {v : Nat} {r : Except RubyError (Option Nat)}
    (h : Strings.writePktTo answer v w = some (r, w')) (ref : Nat) (o : StreamObject) (hs : w.objs[ref]? = some o) :
    ∃ s, w'.objs[ref]? = some { o with struct := s } := by
  unfold Strings.writePktTo at h
  cases hres : answer.result with
  | error rv =>
    simp only [hres] at h
    cases hset : Heap.setLen (w.log [.writevStream (Strings.writevArgs w) answer]).heap v .empty <;>
      simp only [hset] at h <;> cases h <;> exact ⟨o.struct, hs⟩
  | ok packet =>
    simp only [hres] at h
    split at h
    case isFalse => cases h
    cases hpick : Strings.quicClientPickSendStream w with
    | none =>
      simp only [hpick] at h
      split at h <;> cases h <;> exact ⟨o.struct, hs⟩
    | some p =>
      simp only [hpick] at h
      have hkeeps := (w.log [.writevStream (Strings.writevArgs w) answer]).modify_struct p.1
        (·.accountWritev (Strings.writevArgs w) packet.length answer.pdatalen) ref o hs
      split at h <;> cases h <;> exact hkeeps

theorem Fine.slid_writePkt (hfine : w.Fine) {buffer : Option Nat} {answer : WritevAnswer}
    (hbuf : ∀ v ∈ buffer, v ∈ w.owned) {r : Except RubyError (Option Nat)}
    (h : Strings.quicClientWritePkt answer buffer w = some (r, w')) (hacc : ∀ ref, accepted tr ref = []) :
    Slid w w' tr := by
  unfold Strings.quicClientWritePkt at h
  rcases writeBuffer_cases (h := w.heap) fun v hv => hfine.unlocked v (hbuf v hv) with
    ⟨v, rfl, -, hb⟩ | ⟨rfl, hb⟩ | ⟨v, rfl, -, hb⟩
  · simp only [hb] at h
    cases h
    exact .of_structs (fun ref o hs => ⟨o.struct, hs⟩) (fun _ _ => rfl) hacc
  · simp only [hb] at h
    obtain ⟨hkept, -⟩ := hfine.sep.alloc (StringObject.binary .empty)
    have hnew : w.heap.length ∉ w.internal := fun hm => Nat.lt_irrefl _ (hfine.sep.good.lt hm)
    have hwrote := hkept.sep.wrote hnew List.getElem?_concat_length rfl h
    refine .of_structs (fun ref o hs => writePktTo_objs h ref o hs) (fun v hv => ?_) hacc
    have hlt : v < w.heap.length := hfine.sep.good.lt hv
    exact (hwrote.frame v (by omega)).trans (List.getElem?_append_left hlt)
  · simp only [hb] at h
    have hv := hbuf v rfl
    have hun := hfine.unlocked v hv
    obtain ⟨a, ha⟩ : ∃ a, w.heap[v]? = some a := ⟨_, List.getElem?_eq_getElem (hfine.sep.there v hv)⟩
    have hwrote := hfine.sep.wrote (hfine.sep.outside hv) ha (by simpa [Heap.locked, ha] using hun) h
    exact .of_structs (writePktTo_objs h)
      (fun u hu => hwrote.frame u (by rintro rfl; exact hfine.sep.outside hv hu)) hacc

theorem Fine.slid_readPkt (hfine : w.Fine) {packet : Nat} (hpacket : packet ∈ w.owned)
    {opts : Option (Option Nat × Option Nat)} {callbacks : List Callback} {rv : Option Ngtcp2Error}
    {r : Except RubyError Unit} (h : Strings.quicClientReadPkt packet opts callbacks rv w = some (r, w')) :
    Slid w w'
      (((StringEvent.readPkt packet opts callbacks rv).callbacks w).map fun cb => (.callback cb, .ok .nil)) := by
  rcases readPkt_cases (hfine.unlocked packet hpacket) h with ⟨e, -, rfl, hcbs⟩ | ⟨w₂, hfold, -, rfl, hcbs⟩
  · rw [hcbs]
    exact .refl _
  · rw [hcbs]
    obtain ⟨hsep₁, -⟩ := hfine.sep.write (hfine.sep.outside hpacket) fun o => { o with locked := true }
    obtain ⟨hkept₂, -⟩ := hsep₁.callbacks hfold
    have hpacket₂ : packet ∈ w₂.owned := by rw [hkept₂.owned]; exact hpacket
    -- Neither locking the packet nor unlocking it writes to a String of a stream.
    have hbefore := slid_write (hfine.sep.outside hpacket) fun o => { o with locked := true }
    have hafter : Slid w₂ { w₂ with heap := w₂.heap.unlocktmp packet } [] :=
      slid_write (hkept₂.sep.outside hpacket₂) _
    have hall := (hbefore.trans (hsep₁.slid_callbacks hfold)).trans hafter
    rwa [List.nil_append, List.append_nil] at hall

theorem slid_openStream (hsep : w.Sep) {call : Ngtcp2Call} {answer : Except Ngtcp2Error Int} {r : StringReply}
    (h : w.openStream call answer = (r, w')) (hacc : ∀ ref, accepted tr ref = []) : Slid w w' tr := by
  unfold StringWorld.openStream at h
  cases answer with
  | error rv => cases h; exact .of_structs (fun ref o hs => ⟨o.struct, hs⟩) (fun _ _ => rfl) hacc
  | ok id => cases h; exact (hsep.log [call]).1.sep.slid_newStream id hacc

/-- **One call, the chunks.** -/
theorem Fine.slid_perform (hfine : w.Fine) {e : StringEvent} {r : StringReply} (hnames : ∀ v ∈ names e, v ∈ w.owned)
    (h : w.perform e = some (r, w')) :
    Slid w w' ((e.callbacks w).map (fun cb => (.callback cb, .ok .nil)) ++
      (e.event w).toList.map fun e' => (e', r.map (·.value w'.heap))) := by
  have hsame : ∀ {w' : StringWorld} {tr : ClientTrace}, w'.objs = w.objs → w'.heap = w.heap →
      (∀ ref, accepted tr ref = []) → Slid w w' tr := fun hobjs hheap hacc =>
    .of_structs (fun ref o hs => ⟨o.struct, hobjs ▸ hs⟩) (fun _ _ => hheap ▸ rfl) hacc
  have hsep := hfine.sep
  cases e with
  | openBidiStream answer => exact slid_openStream hsep (Option.some.inj h) fun _ => rfl
  | openUniStream answer => exact slid_openStream hsep (Option.some.inj h) fun _ => rfl
  | write ref data fin streamLeft connLeft =>
    refine hsep.slid_call (Strings.enqueue_implements data fin) (Strings.enqueue_queues data fin) (write_call h).1 ?_
    rintro (_ | n) rfl j
    · simp [accepted, acceptedBy, StringEvent.callbacks, StringEvent.event, tookFrom, Except.map]
    · simp [accepted, acceptedBy, StringEvent.callbacks, StringEvent.event, tookFrom, Except.map, StringValue.value]
  | writeNonblock ref data fin streamLeft connLeft =>
    refine hsep.slid_call (Strings.writeNonblock_implements data fin streamLeft connLeft)
      (Strings.writeNonblock_queues data fin streamLeft connLeft) h ?_
    rintro (_ | n) rfl j
    · simp [accepted, acceptedBy, StringEvent.callbacks, StringEvent.event, tookFrom, Except.map]
    · simp [accepted, acceptedBy, StringEvent.callbacks, StringEvent.event, tookFrom, Except.map, StringValue.value]
  | closeWrite ref =>
    exact hsep.slid_call Strings.closeWrite_implements Strings.closeWrite_queues h fun _ _ _ => (ite_self _).symm
  | readNonblock ref length =>
    exact hsep.slid_call (Strings.readNonblock_implements length) (Strings.readNonblock_queues length) h
      fun _ _ _ => (ite_self _).symm
  | closeRead ref rv =>
    exact hsep.slid_call (Strings.closeRead_implements rv) (Strings.onStruct_queues _) h
      fun _ _ _ => (ite_self _).symm
  | close ref rv =>
    exact hsep.slid_call (Strings.close_implements rv) (Strings.close_queues rv) h fun _ _ _ => (ite_self _).symm
  | reset ref errorCode rv =>
    exact hsep.slid_call (Strings.reset_implements errorCode rv) (Strings.onStruct_queues _) h
      fun _ _ _ => (ite_self _).symm
  | writePkt buffer answer =>
    obtain ⟨⟨r', w₁⟩, hwrite, heq⟩ := Option.map_eq_some_iff.1 h
    cases heq
    exact hfine.slid_writePkt (fun v hv => hnames v (Option.mem_toList.2 hv)) hwrite fun _ => rfl
  | readPkt packet opts callbacks rv =>
    obtain ⟨⟨r', w₁⟩, hread, heq⟩ := Option.map_eq_some_iff.1 h
    cases heq
    have hslid := hfine.slid_readPkt (hnames packet List.mem_cons_self) hread
    simpa only [StringEvent.event, Option.toList_none, List.map_nil, List.append_nil] using hslid
  | acceptStreamNonblock =>
    unfold StringWorld.perform at h
    cases hq : w.acceptQueue with
    | nil => simp only [hq] at h; cases h; exact hsame rfl rfl fun _ => rfl
    | cons ref queue => simp only [hq] at h; cases h; exact hsame rfl rfl fun _ => rfl
  | bind sock => cases h; exact hsame rfl rfl fun _ => rfl
  | callback cb =>
    obtain ⟨w₁, hcb, heq⟩ := Option.map_eq_some_iff.1 h
    cases heq
    exact hsep.slid_callback hcb fun _ => rfl
  | newString str encoding =>
    cases h
    exact .of_structs (fun ref o hs => ⟨o.struct, hs⟩) (fun v hv => List.getElem?_append_left (hsep.good.lt hv))
      fun _ => rfl
  | setString v str encoding =>
    cases h
    have hv : v ∈ w.owned := hnames v (List.mem_singleton.2 rfl)
    exact slid_write (hsep.outside hv) _

theorem names_owned {e : StringEvent} {r : StringReply} (h : stringStep w e = some (r, w')) :
    ∀ v ∈ names e, v ∈ w.owned := by
  unfold stringStep at h
  split at h
  · next hnames => exact hnames
  · cases h

theorem Fine.slid (hfine : w.Fine) {e : StringEvent} {r : StringReply} (h : stringStep w e = some (r, w')) :
    Slid w w' (valueTrace w e) := by
  obtain ⟨w₁, hperform, -, rfl⟩ := hfine.perform h
  have hslid := hfine.slid_perform (names_owned h) hperform
  unfold valueTrace
  simp only [h]
  exact hslid

end

end StringWorld

end QuicRuby
