/-
The C structs behind the Ruby objects, over their whole life: clients created
with any outcome of `_open`, streams, garbage collections of whatever is no
longer reachable, and compactions that move the Ruby objects about.

A client's struct owns an SSL_CTX, an SSL and an `ngtcp2_conn`, as far as
`_open` got, and these point back: the `ngtcp2_conn` to the SSL and, as its
`user_data`, to the struct; the SSL to the SSL_CTX and, by its `app_data`, to
the struct. A cell freed twice or while something points to it is undefined,
so that a run that goes on has freed everything once and in a good order.
-/
import QuicRuby.Connection
import QuicRuby.Lib.Arena

namespace QuicRuby

open Runs Arena

/-! ## Objects and their memory -/

/-- The pointers in `quic_client_t`; `none` is NULL. `owner` is a VALUE. -/
structure QuicClientT where
  conn : Option Nat := none
  sslCtx : Option Nat := none
  ssl : Option Nat := none
  owner : Option Nat := none
deriving DecidableEq, Repr

/-- What a Ruby object wraps: a client's struct, or a stream's, with the
object's `@client`. -/
inductive Payload
  | client (c : QuicClientT)
  | stream (client : Option Nat)
deriving DecidableEq, Repr

/-- A Ruby object: its VALUE, which is its address, and its struct's address. -/
structure RubyObject where
  value : Nat
  ptr : Nat
  payload : Payload
deriving DecidableEq, Repr

namespace RubyObject

/-- The memory of an object, in the order allocated. The first thing an SSL or
an `ngtcp2_conn` points to is the struct. -/
def cells (o : RubyObject) : List (Cell Nat) :=
  match o.payload with
  | .client c =>
    ⟨o.ptr, []⟩ :: ((c.sslCtx.toList.map fun p => ⟨p, []⟩) ++
      (c.ssl.toList.map fun p => ⟨p, o.ptr :: c.sslCtx.toList⟩) ++
      c.conn.toList.map fun p => ⟨p, o.ptr :: c.ssl.toList⟩)
  | .stream _ => [⟨o.ptr, []⟩]

/-- The `ngtcp2_conn` of the object, if it is a client that has one. -/
def conn (o : RubyObject) : Option Nat :=
  match o.payload with
  | .client c => c.conn
  | .stream _ => none

def owner (o : RubyObject) : Option Nat :=
  match o.payload with
  | .client c => c.owner
  | .stream _ => none

/-- The object it keeps alive. -/
def refs (o : RubyObject) : Option Nat :=
  match o.payload with
  | .client _ => none
  | .stream client => client

end RubyObject

/-- `quic_client_free`. -/
def quicClientFree (ptr : Nat) (c : QuicClientT) (cells : List (Cell Nat)) : Option (List (Cell Nat)) := do
  let cells ← freeAll cells c.conn.toList
  let cells ← freeAll cells c.ssl.toList
  let cells ← freeAll cells c.sslCtx.toList
  free cells ptr

/-- `quic_stream_free`. -/
def quicStreamFree (ptr : Nat) (cells : List (Cell Nat)) : Option (List (Cell Nat)) := free cells ptr

/-- The `dfree` of the object's type. -/
def RubyObject.dfree (o : RubyObject) (cells : List (Cell Nat)) : Option (List (Cell Nat)) :=
  match o.payload with
  | .client c => quicClientFree o.ptr c cells
  | .stream _ => quicStreamFree o.ptr cells

/-- `quic_client_compact`; `location` is `rb_gc_location`. -/
def quicClientCompact (location : Nat → Nat) (c : QuicClientT) : QuicClientT :=
  { c with owner := c.owner.map location }

/-- The object where a compaction puts it. -/
def RubyObject.move (location : Nat → Nat) (o : RubyObject) : RubyObject :=
  { o with
    value := location o.value
    payload := match o.payload with
      | .client c => .client (quicClientCompact location c)
      | .stream client => .stream (client.map location) }

/-! ## The machine -/

structure World where
  objects : List RubyObject := []
  cells : List (Cell Nat) := []
  next : Nat := 0

/-- How far `_open` got with the struct. -/
inductive OpenStage
  | object
  | sslCtx
  | ssl
  | conn
deriving DecidableEq, Repr

/-- The struct it leaves, its memory from `ptr` on. -/
def OpenStage.client (stage : OpenStage) (value ptr : Nat) : QuicClientT :=
  match stage with
  | .object => { owner := some value }
  | .sslCtx => { owner := some value, sslCtx := some (ptr + 1) }
  | .ssl => { owner := some value, sslCtx := some (ptr + 1), ssl := some (ptr + 2) }
  | .conn => { owner := some value, sslCtx := some (ptr + 1), ssl := some (ptr + 2), conn := some (ptr + 3) }

/-- Where `_open` is when it raises: `none` before it makes an object. -/
def openRaisedAt (env : OpenEnv) : Option OpenArgs → Option OpenStage
  | none => none
  | some opts =>
    match opts.localSockaddr, opts.remoteSockaddr, opts.serverName, opts.transportParams, opts.settings with
    | some (localEnc, _), some (remoteEnc, _), some _, some _, some _ =>
      if localEnc = .other || remoteEnc = .other || !env.cryptoInit then none
      else if !env.sslCtx then some .object
      else if !env.clientContext || !env.ssl then some .sslCtx
      else some .ssl
    | _, _, _, _, _ => none

/-- Allocations, and the garbage collector: `sweep` frees objects, one after
the other, `compact` moves them. `allocate` is `Client.allocate`. A new stream
has its `@client`, or none after `Stream.allocate`. -/
inductive NativeEvent
  | allocate (value : Nat)
  | open (value : Nat) (env : OpenEnv) (args : Option OpenArgs)
  | newStream (value : Nat) (client : Option Nat)
  | sweep (values : List Nat)
  | compact (location : Nat → Nat)

namespace World

def values (w : World) : List Nat := w.objects.map RubyObject.value

def add (w : World) (value : Nat) (payload : Nat → Payload) : World :=
  { objects := w.objects ++ [⟨value, w.next, payload w.next⟩]
    cells := w.cells ++ RubyObject.cells ⟨value, w.next, payload w.next⟩
    next := w.next + 4 }

def find (w : World) (value : Nat) : Option RubyObject := w.objects.find? (·.value = value)

/-- One object is freed. -/
def collect (w : World) (value : Nat) : Option World := do
  let o ← w.find value
  let cells ← o.dfree w.cells
  return { w with objects := w.objects.filter (·.value ≠ value), cells := cells }

/-- The struct at an address. -/
def struct (w : World) (ptr : Nat) : Option RubyObject := w.objects.find? (·.ptr = ptr)

/-- What a stream callback of the `ngtcp2_conn` finds: the struct its
`user_data` points to, and the `owner` there. -/
def callbackOwner (w : World) (conn : Nat) : Option Nat := do
  let cell ← w.cells.find? (·.addr = conn)
  let userData ← cell.uses.head?
  let o ← w.struct userData
  o.owner

/-- `quic_client_get_conn`: from the SSL to the struct its `app_data` is in,
to the `ngtcp2_conn`. -/
def quicClientGetConn (w : World) (ssl : Nat) : Option Nat := do
  let cell ← w.cells.find? (·.addr = ssl)
  let connRef ← cell.uses.head?
  let o ← w.struct connRef
  o.conn

/-- `quic_client_conn`. -/
def quicClientConn (w : World) (client : Nat) : Option Nat := (w.find client).bind RubyObject.conn

end World

abbrev NativeReply := Except RubyError (Option Nat)

def nativeStep (w : World) : NativeEvent → Option (NativeReply × World)
  | .allocate value => some (.ok (some value), w.add value fun _ => .client {})
  | .open value env args =>
    match quicClientOpen env args with
    | none => none
    | some (.ok _) => some (.ok (some value), w.add value fun ptr => .client (OpenStage.conn.client value ptr))
    | some (.error e) =>
      some (.error e,
        match openRaisedAt env args with
        | none => w
        | some stage => w.add value fun ptr => .client (stage.client value ptr))
  | .newStream value client => some (.ok (some value), w.add value fun _ => .stream client)
  | .sweep values => (values.foldlM World.collect w).map fun w' => (.ok none, w')
  | .compact location =>
    some (.ok none, { w with objects := w.objects.map (·.move location) })

/-- What Ruby promises: a new object has an address of its own; only objects
nothing left over refers to are swept; a compaction keeps the addresses apart.
The client of a stream is one `_open` returned. -/
def GcContract : Contract World NativeEvent NativeReply := fun _ w e =>
  match e with
  | .allocate value | .open value _ _ => value ∉ w.values
  | .newStream value client => value ∉ w.values ∧ ∀ v ∈ client, (w.quicClientConn v).isSome = true
  | .sweep values =>
    values.Nodup ∧ (∀ v ∈ values, v ∈ w.values) ∧
      ∀ o ∈ w.objects, o.value ∉ values → ∀ v ∈ o.refs, v ∉ values
  | .compact location => (w.values.map location).Nodup

instance : ∀ tr w e, Decidable (GcContract tr w e) := fun _ w e =>
  match e with
  | .allocate value | .open value _ _ => inferInstanceAs (Decidable (value ∉ w.values))
  | .newStream value client =>
    inferInstanceAs (Decidable (value ∉ w.values ∧ ∀ v ∈ client, (w.quicClientConn v).isSome = true))
  | .sweep values =>
    inferInstanceAs (Decidable (values.Nodup ∧ (∀ v ∈ values, v ∈ w.values) ∧
      ∀ o ∈ w.objects, o.value ∉ values → ∀ v ∈ o.refs, v ∉ values))
  | .compact location => inferInstanceAs (Decidable (w.values.map location).Nodup)

/-! ## One object -/

theorem RubyObject.dfree_eq (o : RubyObject) (cells : List (Cell Nat)) :
    o.dfree cells = freeAll cells (o.cells.reverse.map Cell.addr) := by
  obtain ⟨value, ptr, payload⟩ := o
  cases payload with
  | client c =>
    obtain ⟨conn, sslCtx, ssl, owner⟩ := c
    cases conn <;> cases sslCtx <;> cases ssl <;>
      simp [RubyObject.dfree, quicClientFree, RubyObject.cells, freeAll, List.foldlM]
  | stream client => simp [RubyObject.dfree, quicStreamFree, RubyObject.cells, freeAll, List.foldlM]

/-- An object's memory is a block of its own, and a client with an
`ngtcp2_conn` knows where its object is. -/
structure RubyObject.WellMade (o : RubyObject) : Prop where
  layered : Layered o.cells
  inside : ∀ x ∈ o.cells, ∀ a ∈ x.uses, a ∈ o.cells.map Cell.addr
  owner : o.conn.isSome = true → o.owner = some o.value

theorem RubyObject.ptr_mem (o : RubyObject) : o.ptr ∈ o.cells.map Cell.addr := by
  obtain ⟨value, ptr, payload⟩ := o
  cases payload <;> simp [RubyObject.cells]

@[simp] theorem RubyObject.move_cells (location : Nat → Nat) (o : RubyObject) :
    (o.move location).cells = o.cells := by
  obtain ⟨value, ptr, payload⟩ := o
  cases payload <;> rfl

@[simp] theorem RubyObject.move_conn (location : Nat → Nat) (o : RubyObject) : (o.move location).conn = o.conn := by
  obtain ⟨value, ptr, payload⟩ := o
  cases payload <;> rfl

theorem RubyObject.WellMade.move {o : RubyObject} (h : o.WellMade) (location : Nat → Nat) :
    (o.move location).WellMade := by
  refine ⟨by simpa using h.layered, by simpa using h.inside, fun hc => ?_⟩
  rw [RubyObject.move_conn] at hc
  have howner := h.owner hc
  obtain ⟨value, ptr, payload⟩ := o
  cases payload with
  | client c =>
    have howner : c.owner = some value := howner
    simp [RubyObject.move, RubyObject.owner, quicClientCompact, howner]
  | stream client => cases hc

/-- What a new object wraps: its cells are among the next four. -/
def NewPayload (value : Nat) (payload : Nat → Payload) : Prop :=
  ∀ ptr, (RubyObject.mk value ptr (payload ptr)).WellMade ∧
    ((RubyObject.mk value ptr (payload ptr)).cells.map Cell.addr).Nodup ∧
    ∀ x ∈ (RubyObject.mk value ptr (payload ptr)).cells, ptr ≤ x.addr ∧ x.addr < ptr + 4

theorem newPayload_stage (stage : OpenStage) (value : Nat) :
    NewPayload value fun ptr => .client (stage.client value ptr) := by
  intro ptr
  refine ⟨⟨?_, ?_, ?_⟩, ?_, ?_⟩ <;> cases stage <;>
    simp [OpenStage.client, RubyObject.cells, RubyObject.conn, RubyObject.owner, Layered]

theorem newPayload_bare (value : Nat) : NewPayload value fun _ => .client {} := by
  intro ptr
  refine ⟨⟨?_, ?_, ?_⟩, ?_, ?_⟩ <;> simp [RubyObject.cells, RubyObject.conn, Layered]

theorem newPayload_stream (value : Nat) (client : Option Nat) : NewPayload value fun _ => .stream client := by
  intro ptr
  refine ⟨⟨?_, ?_, ?_⟩, ?_, ?_⟩ <;> simp [RubyObject.cells, RubyObject.conn, Layered]

theorem RubyObject.conn_cell (o : RubyObject) {conn : Nat} (h : conn ∈ o.conn) :
    ∃ x ∈ o.cells, x.addr = conn ∧ x.uses.head? = some o.ptr := by
  obtain ⟨value, ptr, payload⟩ := o
  cases payload with
  | client c =>
    have hc : c.conn = some conn := h
    exact ⟨⟨conn, ptr :: c.ssl.toList⟩, by simp [RubyObject.cells, hc], rfl, rfl⟩
  | stream client => cases h

theorem RubyObject.ssl_cell (o : RubyObject) {c : QuicClientT} (hc : o.payload = .client c) {ssl : Nat}
    (h : ssl ∈ c.ssl) : ∃ x ∈ o.cells, x.addr = ssl ∧ x.uses.head? = some o.ptr := by
  have hs : c.ssl = some ssl := h
  exact ⟨⟨ssl, o.ptr :: c.sslCtx.toList⟩, by simp [RubyObject.cells, hc, hs], rfl, rfl⟩

/-! ## The invariant -/

/-- All memory is some object's, each cell once, and no two objects have one
address. -/
structure World.Sound (w : World) : Prop where
  cells_eq : w.cells = w.objects.flatMap RubyObject.cells
  addrs : (w.cells.map Cell.addr).Nodup
  bound : ∀ x ∈ w.cells, x.addr < w.next
  values : w.values.Nodup
  made : ∀ o ∈ w.objects, o.WellMade

/-- The client of a stream is there, with its `ngtcp2_conn`. -/
def World.Linked (w : World) : Prop :=
  ∀ o ∈ w.objects, ∀ v ∈ o.refs, ∃ o' ∈ w.objects, o'.value = v ∧ o'.conn.isSome = true

theorem find?_unique {α β : Type} [DecidableEq β] {l : List α} {f : α → β} {x : α} (hx : x ∈ l)
    (h : ∀ y ∈ l, f y = f x → y = x) : l.find? (f · = f x) = some x := by
  cases hf : l.find? (f · = f x) with
  | none => simpa using List.find?_eq_none.1 hf x hx
  | some y => rw [h y (List.mem_of_find?_eq_some hf) (by simpa using List.find?_some hf)]

section
variable {w : World}

theorem World.Sound.find (h : w.Sound) {o : RubyObject} (ho : o ∈ w.objects) : w.find o.value = some o :=
  find?_unique ho fun _ ho' heq => List.inj_on_of_nodup_map h.values ho' ho heq

theorem World.Sound.cell (h : w.Sound) {x : Cell Nat} (hx : x ∈ w.cells) : w.cells.find? (·.addr = x.addr) = some x :=
  find?_unique hx fun _ hy heq => List.inj_on_of_nodup_map h.addrs hy hx heq

/-- The cells of two objects are apart. -/
theorem World.Sound.disjoint (h : w.Sound) {o o' : RubyObject} (ho : o ∈ w.objects) (ho' : o' ∈ w.objects)
    {a : Nat} (ha : a ∈ o.cells.map Cell.addr) (ha' : a ∈ o'.cells.map Cell.addr) : o = o' := by
  have hn := h.addrs
  rw [h.cells_eq, List.map_flatMap, List.nodup_flatMap] at hn
  by_contra hne
  have : Std.Symm (Function.onFun List.Disjoint fun o : RubyObject => o.cells.map Cell.addr) :=
    ⟨fun _ _ hd => hd.symm⟩
  exact hn.2.forall ho ho' hne ha ha'

theorem World.Sound.struct_eq (h : w.Sound) {o : RubyObject} (ho : o ∈ w.objects) : w.struct o.ptr = some o :=
  find?_unique ho fun o' ho' heq => h.disjoint ho' ho o'.ptr_mem (heq ▸ o.ptr_mem)

theorem World.Sound.add (h : w.Sound) {value : Nat} {payload : Nat → Payload} (hnew : NewPayload value payload)
    (hv : value ∉ w.values) : (w.add value payload).Sound := by
  obtain ⟨hmade, hnodup, hrange⟩ := hnew w.next
  constructor
  · simp [World.add, h.cells_eq]
  · rw [World.add, List.map_append, List.nodup_append]
    refine ⟨h.addrs, hnodup, fun a ha b hb heq => ?_⟩
    obtain ⟨x, hx, rfl⟩ := List.mem_map.1 ha
    obtain ⟨y, hy, rfl⟩ := List.mem_map.1 hb
    have hlt := h.bound x hx
    have hge := (hrange y hy).1
    omega
  · intro x hx
    simp only [World.add] at hx ⊢
    rcases List.mem_append.1 hx with hold | hnew
    · have := h.bound x hold
      omega
    · exact (hrange x hnew).2
  · rw [World.values, World.add, List.map_append, List.nodup_append]
    refine ⟨h.values, List.nodup_singleton _, fun a ha b hb heq => hv ?_⟩
    obtain rfl := List.mem_singleton.1 hb
    exact heq ▸ ha
  · intro o ho
    simp only [World.add] at ho
    rcases List.mem_append.1 ho with hold | hnew
    · exact h.made o hold
    · rw [List.mem_singleton.1 hnew]
      exact hmade

/-- **An object can be freed**, and leaves the others as they are. -/
theorem World.Sound.collect (h : w.Sound) {v : Nat} (hv : v ∈ w.values) :
    ∃ w', w.collect v = some w' ∧ w'.Sound ∧ w'.objects = w.objects.filter (·.value ≠ v) := by
  obtain ⟨o, ho, rfl⟩ := List.mem_map.1 hv
  obtain ⟨os₁, os₂, hsplit⟩ := List.append_of_mem ho
  have hcells : w.cells = os₁.flatMap RubyObject.cells ++ o.cells ++ os₂.flatMap RubyObject.cells := by
    rw [h.cells_eq, hsplit]
    simp
  have hvalues := h.values
  rw [World.values, hsplit, List.map_append, List.map_cons, List.nodup_append, List.nodup_cons] at hvalues
  have hfilter : w.objects.filter (·.value ≠ o.value) = os₁ ++ os₂ := by
    rw [hsplit, List.filter_append, List.filter_cons_of_neg (by simp)]
    congr 1
    · exact List.filter_eq_self.2 fun x hx => decide_eq_true fun heq =>
        hvalues.2.2 x.value (List.mem_map_of_mem hx) o.value (List.mem_cons_self) heq
    · exact List.filter_eq_self.2 fun x hx => decide_eq_true fun heq =>
        hvalues.2.1.1 (heq ▸ List.mem_map_of_mem hx)
  have hmem : ∀ x ∈ os₁ ++ os₂, x ∈ w.objects := by
    intro x hx
    rw [hsplit]
    rcases List.mem_append.1 hx with hx | hx <;> simp [hx]
  have hother : ∀ x ∈ os₁ ++ os₂, x ≠ o := by
    rintro x hx rfl
    rw [← hfilter] at hx
    simpa using (List.mem_filter.1 hx).2
  -- Others point into their own memory.
  have hout : Apart o.cells (os₁.flatMap RubyObject.cells ++ os₂.flatMap RubyObject.cells) := by
    intro x hx y hy hu
    rw [← List.flatMap_append] at hx
    obtain ⟨o', ho', hx⟩ := List.mem_flatMap.1 hx
    exact hother o' ho' (h.disjoint (hmem o' ho') ho ((h.made o' (hmem o' ho')).inside x hx _ hu)
      (List.mem_map_of_mem hy))
  have haddrs := h.addrs
  rw [hcells] at haddrs
  have hfree := freeAll_block haddrs (h.made o ho).layered hout
  refine ⟨{ w with objects := os₁ ++ os₂, cells := (os₁ ++ os₂).flatMap RubyObject.cells }, ?_, ?_, hfilter.symm⟩
  · have hdfree : o.dfree w.cells = some ((os₁ ++ os₂).flatMap RubyObject.cells) := by
      rw [RubyObject.dfree_eq, hcells, hfree, List.flatMap_append]
    rw [World.collect, h.find ho]
    simp only [Option.bind_eq_bind, Option.bind_some, hdfree, Option.pure_def, hfilter]
  · have hsub : ((os₁ ++ os₂).flatMap RubyObject.cells).Sublist w.cells := by
      rw [hcells, List.flatMap_append]
      simp
    refine ⟨rfl, h.addrs.sublist (hsub.map _), fun x hx => h.bound x (hsub.subset hx), ?_,
      fun x hx => h.made x (hmem x hx)⟩
    have hsub' : (os₁ ++ os₂).Sublist w.objects := by
      rw [hsplit]
      simp
    exact h.values.sublist (hsub'.map _)

/-- So can any objects, in any order. -/
theorem World.Sound.sweep (h : w.Sound) {vs : List Nat} (hn : vs.Nodup) (hvs : ∀ v ∈ vs, v ∈ w.values) :
    ∃ w', vs.foldlM World.collect w = some w' ∧ w'.Sound ∧ w'.objects = w.objects.filter (·.value ∉ vs) := by
  induction vs generalizing w with
  | nil => exact ⟨w, rfl, h, by simp⟩
  | cons v vs ih =>
    obtain ⟨hv, hn⟩ := List.nodup_cons.1 hn
    obtain ⟨w₁, hc, h₁, hobjs⟩ := h.collect (hvs v List.mem_cons_self)
    have hvs₁ : ∀ u ∈ vs, u ∈ w₁.values := by
      intro u hu
      obtain ⟨o, ho, rfl⟩ := List.mem_map.1 (hvs u (List.mem_cons_of_mem v hu))
      refine List.mem_map_of_mem ?_
      rw [hobjs, List.mem_filter]
      exact ⟨ho, decide_eq_true fun heq => hv (heq ▸ hu)⟩
    obtain ⟨w', hrest, h', hobjs'⟩ := ih h₁ hn hvs₁
    refine ⟨w', by rw [List.foldlM_cons, hc]; exact hrest, h', ?_⟩
    rw [hobjs', hobjs, List.filter_filter]
    refine List.filter_congr fun o _ => ?_
    simp only [List.mem_cons, not_or, Bool.decide_and, Bool.and_comm, decide_not]

theorem World.Sound.compact (h : w.Sound) {location : Nat → Nat} (hl : (w.values.map location).Nodup) :
    ({ w with objects := w.objects.map (·.move location) } : World).Sound := by
  refine ⟨?_, h.addrs, h.bound, ?_, ?_⟩
  · simp [h.cells_eq, List.flatMap_map]
  · have hvalues : (w.objects.map (·.move location)).map RubyObject.value = w.values.map location := by
      simp [World.values, RubyObject.move, Function.comp_def]
    rw [World.values, hvalues]
    exact hl
  · intro o ho
    obtain ⟨o', ho', rfl⟩ := List.mem_map.1 ho
    exact (h.made o' ho').move location

end

/-! ## Runs -/

/-- What `_open` raised says how far it got. -/
theorem openRaisedAt_cause {env : OpenEnv} {args : Option OpenArgs} {e : RubyError}
    (h : quicClientOpen env args = some (.error e)) :
    (openRaisedAt env args = some .object → e = .mkText .runtimeError "SSL_CTX_new failed") ∧
    (openRaisedAt env args = some .sslCtx →
      e = .mkText .runtimeError "ngtcp2_crypto_quictls_configure_client_context failed" ∨
        e = .mkText .runtimeError "SSL_new failed") ∧
    openRaisedAt env args ≠ some .conn := by
  cases args with
  | none => simp [openRaisedAt]
  | some opts =>
    obtain ⟨localSockaddr, remoteSockaddr, serverName, transportParams, settings⟩ := opts
    cases localSockaddr <;> cases remoteSockaddr <;> cases serverName <;> cases transportParams <;> cases settings
    case some.some.some.some.some laddr raddr _ tp st =>
      obtain ⟨lenc, laddr⟩ := laddr
      obtain ⟨renc, raddr⟩ := raddr
      simp only [quicClientOpen, openSsl] at h
      cases lenc <;> cases renc <;> cases hi : env.cryptoInit <;> cases hx : env.sslCtx <;>
        cases hc : env.clientContext <;> cases hl : env.ssl <;>
          simp_all [quicRequireBinary, raiseUnless, openRaisedAt, Except.bind, bind]
    all_goals simp [openRaisedAt]

theorem World.Linked.add {w : World} (h : w.Linked) {value : Nat} {payload : Nat → Payload}
    (hrefs : ∀ v ∈ (RubyObject.mk value w.next (payload w.next)).refs,
      ∃ o' ∈ w.objects, o'.value = v ∧ o'.conn.isSome = true) : (w.add value payload).Linked := by
  intro o ho v hv
  simp only [World.add] at ho ⊢
  rcases List.mem_append.1 ho with hold | hnew
  · obtain ⟨o', ho', hat⟩ := h o hold v hv
    exact ⟨o', List.mem_append_left _ ho', hat⟩
  · rw [List.mem_singleton.1 hnew] at hv
    obtain ⟨o', ho', hat⟩ := hrefs v hv
    exact ⟨o', List.mem_append_left _ ho', hat⟩

/-- What a reference leads to is kept by a compaction that moves both. -/
theorem World.Linked.compact {w : World} (h : w.Linked) (location : Nat → Nat) :
    ({ w with objects := w.objects.map (·.move location) } : World).Linked := by
  intro o ho v hv
  obtain ⟨o₁, ho₁, rfl⟩ := List.mem_map.1 ho
  have hrefs : (o₁.move location).refs = o₁.refs.map location := by
    obtain ⟨value, ptr, payload⟩ := o₁
    cases payload <;> rfl
  rw [hrefs] at hv
  obtain ⟨u, hu, rfl⟩ := Option.mem_map.1 hv
  obtain ⟨o', ho', rfl, hconn⟩ := h o₁ ho₁ u hu
  exact ⟨o'.move location, List.mem_map_of_mem ho', rfl, by rw [RubyObject.move_conn]; exact hconn⟩

theorem native_step {tr : Trace NativeEvent NativeReply} {w w' : World} {e : NativeEvent} {r : NativeReply}
    (hw : w.Sound ∧ w.Linked) (hc : GcContract tr w e) (hs : nativeStep w e = some (r, w')) :
    w'.Sound ∧ w'.Linked := by
  obtain ⟨hsound, hlinked⟩ := hw
  cases e with
  | allocate value =>
    cases hs
    exact ⟨hsound.add (newPayload_bare value) hc, hlinked.add fun v hv => by cases hv⟩
  | «open» value env args =>
    have hopened : ∀ stage : OpenStage, (w.add value fun ptr => .client (stage.client value ptr)).Sound ∧
        (w.add value fun ptr => .client (stage.client value ptr)).Linked := fun stage =>
      ⟨hsound.add (newPayload_stage stage value) hc, hlinked.add fun v hv => by cases hv⟩
    simp only [nativeStep] at hs
    split at hs
    · cases hs
    · cases hs
      exact hopened .conn
    · cases hs
      split
      · exact ⟨hsound, hlinked⟩
      · exact hopened _
  | newStream value client =>
    cases hs
    refine ⟨hsound.add (newPayload_stream value client) hc.1, hlinked.add fun v hv => ?_⟩
    obtain ⟨conn, hconn⟩ := Option.isSome_iff_exists.1 (hc.2 v hv)
    obtain ⟨o', hfind, hconn⟩ := Option.bind_eq_some_iff.1 hconn
    exact ⟨o', List.mem_of_find?_eq_some hfind, by simpa using List.find?_some hfind, by simp [hconn]⟩
  | sweep values =>
    obtain ⟨hn, hvalues, hleft⟩ := hc
    obtain ⟨w₁, hw₁, hsound₁, hobjs⟩ := hsound.sweep hn hvalues
    simp only [nativeStep, hw₁, Option.map_some] at hs
    cases hs
    refine ⟨hsound₁, fun o ho v hv => ?_⟩
    rw [hobjs] at ho ⊢
    obtain ⟨ho, hstays⟩ := List.mem_filter.1 ho
    obtain ⟨o', ho', rfl, hconn⟩ := hlinked o ho v hv
    refine ⟨o', List.mem_filter.2 ⟨ho', decide_eq_true ?_⟩, rfl, hconn⟩
    exact hleft o ho (of_decide_eq_true hstays) o'.value hv
  | compact location =>
    cases hs
    exact ⟨hsound.compact hc, hlinked.compact location⟩

/-- A cell of an object that has the struct as its first use leads to the
object. -/
theorem World.Sound.back {w : World} (h : w.Sound) {o : RubyObject} (ho : o ∈ w.objects) {x : Cell Nat}
    (hx : x ∈ o.cells) (huse : x.uses.head? = some o.ptr) :
    ((w.cells.find? (·.addr = x.addr)).bind fun cell => cell.uses.head?.bind w.struct) = some o := by
  have hmem : x ∈ w.cells := by
    rw [h.cells_eq]
    exact List.mem_flatMap.2 ⟨o, ho, hx⟩
  rw [h.cell hmem, Option.bind_some, huse, Option.bind_some, h.struct_eq ho]

/-- **The memory behind the objects, over any run.** Whatever the collector
may sweep is freed without a double free or a dangling pointer, leaving
exactly the memory of the objects that are left. A callback of a live client's
`ngtcp2_conn` finds the client's object where it is now, and its SSL's crypto
callbacks find that `ngtcp2_conn`. The client of a stream is there with an
`ngtcp2_conn`, whose callbacks find that client. -/
theorem native_safe {tr : Trace NativeEvent NativeReply} {w : World}
    (h : Steps nativeStep GcContract [] {} tr w) :
    w.cells = w.objects.flatMap RubyObject.cells ∧
    (∀ vs, GcContract tr w (.sweep vs) → ∃ w', nativeStep w (.sweep vs) = some (.ok none, w') ∧
      w'.objects = w.objects.filter (·.value ∉ vs) ∧
      w'.cells = (w.objects.filter (·.value ∉ vs)).flatMap RubyObject.cells) ∧
    (∀ o ∈ w.objects, ∀ conn ∈ o.conn, w.callbackOwner conn = some o.value) ∧
    (∀ o ∈ w.objects, ∀ c, o.payload = .client c → ∀ ssl ∈ c.ssl, w.quicClientGetConn ssl = c.conn) ∧
    ∀ o ∈ w.objects, ∀ v ∈ o.refs, ∃ conn, w.quicClientConn v = some conn ∧ w.callbackOwner conn = some v := by
  have hw : w.Sound ∧ w.Linked :=
    h.invariant (I := fun _ w => w.Sound ∧ w.Linked)
      ⟨⟨rfl, by simp, by simp, by simp [World.values], by simp⟩, by simp [World.Linked]⟩
      fun _ _ _ _ _ hw hc hs => native_step hw hc hs
  obtain ⟨hsound, hlinked⟩ := hw
  have howner : ∀ o ∈ w.objects, ∀ conn ∈ o.conn, w.callbackOwner conn = some o.value := by
    intro o ho conn hconn
    obtain ⟨x, hx, rfl, huse⟩ := o.conn_cell hconn
    have hback := hsound.back ho hx huse
    simp only [Option.bind_eq_some_iff] at hback
    obtain ⟨cell, hcell, ptr, hptr, hstruct⟩ := hback
    simp only [World.callbackOwner, hcell, hptr, hstruct, Option.bind_eq_bind, Option.bind_some]
    exact (hsound.made o ho).owner (by simp [Option.mem_def.1 hconn])
  refine ⟨hsound.cells_eq, fun vs ⟨hn, hvs, _⟩ => ?_, howner, fun o ho c hc ssl hssl => ?_, fun o ho v hv => ?_⟩
  · obtain ⟨w', hw', hsound', hobjs⟩ := hsound.sweep hn hvs
    exact ⟨w', by simp [nativeStep, hw'], hobjs, hobjs ▸ hsound'.cells_eq⟩
  · obtain ⟨x, hx, rfl, huse⟩ := o.ssl_cell hc hssl
    have hback := hsound.back ho hx huse
    simp only [Option.bind_eq_some_iff] at hback
    obtain ⟨cell, hcell, ptr, hptr, hstruct⟩ := hback
    simp only [World.quicClientGetConn, hcell, hptr, hstruct, Option.bind_eq_bind, Option.bind_some]
    rw [RubyObject.conn, hc]
  · obtain ⟨o', ho', rfl, hconn⟩ := hlinked o ho v hv
    obtain ⟨conn, hconn⟩ := Option.isSome_iff_exists.1 hconn
    refine ⟨conn, ?_, howner o' ho' conn hconn⟩
    rw [World.quicClientConn, hsound.find ho', Option.bind_some, hconn]

def localArgs : OpenArgs :=
  { localSockaddr := some (.binary, anySockaddr)
    remoteSockaddr := some (.binary, anySockaddr)
    serverName := some ⟨[104, 46, 116], by decide⟩
    transportParams := some .default
    settings := some .default }

/-- A client that fails to get an SSL, one that opens and its stream; the
objects are moved up by a hundred, the failed client is swept. -/
def gcRun : Trace NativeEvent NativeReply × World :=
  run nativeStep GcContract
    [.open 1 { ssl := false } (some localArgs), .open 2 {} (some localArgs), .newStream 3 (some 2),
     .compact (· + 100), .sweep [101]] [] {}

theorem native_safe_gcRun :
    gcRun.2.callbackOwner 7 = some 102 ∧
      ∃ w', nativeStep gcRun.2 (.sweep [102, 103]) = some (.ok none, w') ∧ w'.cells = [] := by
  obtain ⟨-, hsweep, howner, -, -⟩ := native_safe (Steps.of_run (by decide +kernel) :
    Steps nativeStep GcContract [] {} gcRun.1 gcRun.2)
  refine ⟨howner ⟨102, 4, .client (OpenStage.conn.client 102 4)⟩ (by decide +kernel) 7 rfl, ?_⟩
  obtain ⟨w', hw', -, hcells⟩ := hsweep [102, 103] (by decide +kernel)
  exact ⟨w', hw', hcells.trans (by decide +kernel)⟩

end QuicRuby
