/-
The ALPN block of `_open`: `Settings#alpn` is checked, its wire form
(RFC 7301) is written into a buffer on the stack, and OpenSSL is given it.
One loop checks the entries and counts the bytes, the other writes them.

The wire form is exact, and decodes to the list, as long as the count fits
a `size_t`. The count itself is not what the comment at the buffer says:
the number of entries is not limited.
-/
import QuicRuby.Ruby
import QuicRuby.Lib.LengthPrefix
import QuicRuby.Lib.WriteBuffer

namespace QuicRuby

open LengthPrefix

def alpnEntryError (len : Nat) : RubyError :=
  .mkText .argumentError s!"alpn entry must be 1-255 bytes (got {len})"

/-- The first loop: `total` so far, a `size_t`. -/
def alpnTotal : List RString → UInt64 → Except RubyError UInt64
  | [], total => .ok total
  | entry :: rest, total =>
    let len := entry.len
    if len < 1 ∨ 255 < len then .error (alpnEntryError len) else alpnTotal rest (total + (1 + UInt64.ofNat len))

/-- The second loop: `*p++ = (unsigned char)len`, then `memcpy`. -/
def writeEntries : List RString → WriteBuffer UInt8 → Option (WriteBuffer UInt8)
  | [], wire => some wire
  | entry :: rest, wire =>
    (wire.put (UInt8.ofNat entry.len)).bind fun wire =>
      (WriteBuffer.copy entry.bytes wire).bind fun wire => writeEntries rest wire

/-- What the block comes to: nothing is set for an empty array, the second
loop overruns the buffer, or OpenSSL is called with `wire` and
`(unsigned int)total`. -/
inductive AlpnCall
  | unset
  | overrun
  | setProtos (wire : WriteBuffer UInt8) (total : UInt64)

/-- The block. `stack` is what the buffer of `ALLOCA_N` holds before. -/
def quicSetAlpn (stack : Nat → UInt8) (alpn : RArray RString) : Except RubyError AlpnCall :=
  if alpn.entries.length = 0 then .ok .unset
  else
    match alpnTotal alpn.entries 0 with
    | .error e => .error e
    | .ok total =>
      match writeEntries alpn.entries { cells := (List.range total.toNat).map stack, cursor := 0 } with
      | some wire => .ok (.setProtos wire total)
      | none => .ok .overrun

/-! ## The two loops -/

/-- The entry passes the check. -/
def RString.alpnOk (entry : RString) : Prop := 1 ≤ entry.len ∧ entry.len ≤ 255

instance : DecidablePred RString.alpnOk := fun entry => inferInstanceAs (Decidable (1 ≤ entry.len ∧ entry.len ≤ 255))

/-- The bytes there are to write: a length byte for each entry, and the entry. -/
def alpnWire (entries : List RString) : List UInt8 := encode (entries.map (·.bytes))

theorem alpnWire_length (entries : List RString) :
    (alpnWire entries).length = entries.length + (entries.map RString.len).sum := by
  induction entries with
  | nil => rfl
  | cons entry rest ih =>
    simp only [alpnWire, List.map_cons, encode_cons, List.length_cons, List.length_append, List.sum_cons,
      RString.len] at ih ⊢
    omega

theorem alpnTotal_bad {entries : List RString} (h : ∃ entry ∈ entries, ¬ entry.alpnOk) (total : UInt64) :
    ∃ entry ∈ entries, ¬ entry.alpnOk ∧ alpnTotal entries total = .error (alpnEntryError entry.len) := by
  induction entries generalizing total with
  | nil => simp at h
  | cons entry rest ih =>
    by_cases hok : entry.alpnOk
    · have hrest : ∃ entry ∈ rest, ¬ entry.alpnOk := by
        obtain ⟨bad, hm, hbad⟩ := h
        rcases List.mem_cons.1 hm with rfl | hm
        · exact absurd hok hbad
        · exact ⟨bad, hm, hbad⟩
      obtain ⟨bad, hm, hbad, htotal⟩ := ih hrest (total + (1 + UInt64.ofNat entry.len))
      refine ⟨bad, List.mem_cons_of_mem _ hm, hbad, ?_⟩
      rw [alpnTotal, if_neg (by simp only [RString.alpnOk] at hok; omega), htotal]
    · refine ⟨entry, List.mem_cons_self .., hok, ?_⟩
      rw [alpnTotal, if_pos (by simp only [RString.alpnOk] at hok; omega)]

/-- The count is taken modulo 2^64. -/
theorem alpnTotal_ok {entries : List RString} (h : ∀ entry ∈ entries, entry.alpnOk) (total : UInt64) :
    alpnTotal entries total = .ok (total + UInt64.ofNat (alpnWire entries).length) := by
  induction entries generalizing total with
  | nil => simp [alpnTotal, alpnWire]
  | cons entry rest ih =>
    have hok := h entry (List.mem_cons_self ..)
    have hlen : (alpnWire (entry :: rest)).length = 1 + entry.len + (alpnWire rest).length := by
      simp only [alpnWire_length, List.length_cons, List.map_cons, List.sum_cons]
      omega
    rw [alpnTotal, if_neg (by simp only [RString.alpnOk] at hok; omega),
      ih (fun e he => h e (List.mem_cons_of_mem _ he)), hlen, UInt64.ofNat_add, UInt64.ofNat_add, UInt64.add_assoc]
    rfl

theorem alpnTotal_eq_ok {entries : List RString} {total : UInt64} (h : alpnTotal entries 0 = .ok total) :
    (∀ entry ∈ entries, entry.alpnOk) ∧ total.toNat = (alpnWire entries).length % 2 ^ 64 := by
  by_cases hall : ∀ entry ∈ entries, entry.alpnOk
  · rw [alpnTotal_ok hall, UInt64.zero_add] at h
    cases h
    exact ⟨hall, UInt64.toNat_ofNat'⟩
  · obtain ⟨entry, -, -, hbad⟩ := alpnTotal_bad (by simpa using hall) 0
    rw [hbad] at h
    cases h

/-- The second loop copies the wire form. -/
theorem writeEntries_eq (entries : List RString) (wire : WriteBuffer UInt8) :
    writeEntries entries wire = WriteBuffer.copy (alpnWire entries) wire := by
  induction entries generalizing wire with
  | nil => rfl
  | cons entry rest ih =>
    simp only [writeEntries, alpnWire, List.map_cons, encode_cons, WriteBuffer.copy, WriteBuffer.copy_append]
    congr 1
    funext w
    congr 1
    funext w'
    exact ih w'

/-- A buffer of the right size is filled exactly. -/
theorem writeEntries_exact (entries : List RString) {cells : List UInt8}
    (h : cells.length = (alpnWire entries).length) :
    writeEntries entries { cells := cells, cursor := 0 } =
      some { cells := alpnWire entries, cursor := (alpnWire entries).length } := by
  rw [writeEntries_eq, WriteBuffer.copy_fits (by simp [h])]
  simp [h]

theorem alpnOk_countable {entries : List RString} (h : ∀ entry ∈ entries, entry.alpnOk) :
    Countable (entries.map (·.bytes)) := by
  intro bytes hm
  obtain ⟨entry, he, rfl⟩ := List.mem_map.1 hm
  have := (h entry he).2
  simp only [RString.len] at this
  omega

theorem RString.bytes_injective : Function.Injective RString.bytes := by
  rintro ⟨bytes, hlt⟩ ⟨bytes', hlt'⟩ h
  cases h
  rfl

/-! ## The block -/

section
variable (stack : Nat → UInt8) {alpn : RArray RString}

theorem quicSetAlpn_bad (h : ∃ entry ∈ alpn.entries, ¬ entry.alpnOk) : ∃ entry ∈ alpn.entries, ¬ entry.alpnOk ∧
    quicSetAlpn stack alpn = .error (alpnEntryError entry.len) := by
  obtain ⟨entry, hm, hbad, htotal⟩ := alpnTotal_bad h 0
  refine ⟨entry, hm, hbad, ?_⟩
  have hne : alpn.entries.length ≠ 0 := Nat.pos_iff_ne_zero.1 (List.length_pos_of_mem hm)
  rw [quicSetAlpn, if_neg hne, htotal]

/-- The buffer holds the wire form modulo 2^64 bytes, and is filled or overrun. -/
theorem quicSetAlpn_ok (h : ∀ entry ∈ alpn.entries, entry.alpnOk) (hne : alpn.entries ≠ []) :
    quicSetAlpn stack alpn = .ok
      (if (alpnWire alpn.entries).length < 2 ^ 64 then
        .setProtos { cells := alpnWire alpn.entries, cursor := (alpnWire alpn.entries).length }
          (UInt64.ofNat (alpnWire alpn.entries).length)
      else .overrun) := by
  rw [quicSetAlpn, if_neg (fun h0 => hne (List.length_eq_zero_iff.1 h0)), alpnTotal_ok h, UInt64.zero_add]
  have hsize : ((List.range (UInt64.ofNat (alpnWire alpn.entries).length).toNat).map stack).length =
      (alpnWire alpn.entries).length % 2 ^ 64 := by
    rw [List.length_map, List.length_range, UInt64.toNat_ofNat']
  by_cases hlt : (alpnWire alpn.entries).length < 2 ^ 64
  · rw [Nat.mod_eq_of_lt hlt] at hsize
    simp only [writeEntries_exact _ hsize, hlt, if_true]
  · have hshort : ((List.range (UInt64.ofNat (alpnWire alpn.entries).length).toNat).map stack).length <
        0 + (alpnWire alpn.entries).length := by
      rw [hsize]
      omega
    have hover : WriteBuffer.copy (alpnWire alpn.entries)
        { cells := (List.range (UInt64.ofNat (alpnWire alpn.entries).length).toNat).map stack, cursor := 0 } =
          none :=
      WriteBuffer.copy_overruns (Nat.zero_le _) hshort
    simp only [writeEntries_eq, hover, hlt, if_false]

variable {stack}

/-- Setting protocols comes of a list that passed the check, written whole. -/
theorem quicSetAlpn_setProtos {wire : WriteBuffer UInt8} {total : UInt64}
    (h : quicSetAlpn stack alpn = .ok (.setProtos wire total)) :
    (∀ entry ∈ alpn.entries, entry.alpnOk) ∧ wire.cells = alpnWire alpn.entries := by
  by_cases hall : ∀ entry ∈ alpn.entries, entry.alpnOk
  · refine ⟨hall, ?_⟩
    by_cases hne : alpn.entries = []
    · simp [quicSetAlpn, hne] at h
    · rw [quicSetAlpn_ok stack hall hne, Except.ok.injEq] at h
      split at h
      · cases h
        rfl
      · cases h
  · obtain ⟨entry, -, -, hbad⟩ := quicSetAlpn_bad stack (show ∃ entry ∈ alpn.entries, ¬ entry.alpnOk by simpa using hall)
    rw [hbad] at h
    cases h

end

theorem RString.not_alpnOk (entry : RString) : ¬ entry.alpnOk ↔ entry.len < 1 ∨ 255 < entry.len := by
  simp only [RString.alpnOk]
  omega

/-- What the block raises is about an entry that is not 1 to 255 bytes long. -/
theorem quicSetAlpn_error {stack : Nat → UInt8} {alpn : RArray RString} {e : RubyError}
    (he : quicSetAlpn stack alpn = .error e) :
    ∃ entry ∈ alpn.entries, ¬ entry.alpnOk ∧ e = alpnEntryError entry.len := by
  by_cases hbad : ∃ entry ∈ alpn.entries, ¬ entry.alpnOk
  · obtain ⟨entry, hm, hnot, herr⟩ := quicSetAlpn_bad stack hbad
    rw [herr] at he
    cases he
    exact ⟨entry, hm, hnot, rfl⟩
  · by_cases hne : alpn.entries = []
    · simp [quicSetAlpn, hne] at he
    · rw [quicSetAlpn_ok stack (by simpa using hbad) hne] at he
      cases he

/-- Short of 2^64 bytes, the buffer is filled to its end with the wire form. -/
theorem quicSetAlpn_wire (stack : Nat → UInt8) {alpn : RArray RString} (hok : ∀ entry ∈ alpn.entries, entry.alpnOk)
    (hne : alpn.entries ≠ []) (hlt : (alpnWire alpn.entries).length < 2 ^ 64) :
    ∃ wire total, quicSetAlpn stack alpn = .ok (.setProtos wire total) ∧ wire.cells.length = total.toNat ∧
      wire.cursor = total.toNat ∧ decode wire.cells = some (alpn.entries.map (·.bytes)) := by
  have htotal : (UInt64.ofNat (alpnWire alpn.entries).length).toNat = (alpnWire alpn.entries).length := by
    rw [UInt64.toNat_ofNat', Nat.mod_eq_of_lt hlt]
  refine ⟨_, _, (quicSetAlpn_ok stack hok hne).trans (by rw [if_pos hlt]), htotal.symm, htotal.symm, ?_⟩
  exact decode_encode (alpnOk_countable hok)

/-- The wire form determines the array. -/
theorem quicSetAlpn_injective {stack stack' : Nat → UInt8} {alpn alpn' : RArray RString}
    {wire wire' : WriteBuffer UInt8} {total total' : UInt64}
    (h : quicSetAlpn stack alpn = .ok (.setProtos wire total))
    (h' : quicSetAlpn stack' alpn' = .ok (.setProtos wire' total')) (heq : wire.cells = wire'.cells) :
    alpn.entries = alpn'.entries := by
  obtain ⟨hok, hcells⟩ := quicSetAlpn_setProtos h
  obtain ⟨hok', hcells'⟩ := quicSetAlpn_setProtos h'
  rw [hcells, hcells'] at heq
  exact List.map_injective_iff.2 RString.bytes_injective
    (encode_injective (alpnOk_countable hok) (alpnOk_countable hok') heq)

/-- `h3` and `hq`. -/
def h3Protocols : RArray RString := ⟨[⟨[104, 51], by decide⟩, ⟨[104, 113], by decide⟩], by decide⟩

/-- As many entries of 255 bytes. -/
theorem exists_longEntries {n : Nat} (hn : n ≤ (2 ^ 63 - 1) / 8) : ∃ alpn : RArray RString,
    (∀ entry ∈ alpn.entries, entry.alpnOk) ∧ alpn.entries.length = n ∧
      (alpnWire alpn.entries).length = 256 * n := by
  obtain ⟨entry, hlen⟩ := exists_rstring (show 255 < 2 ^ 63 by omega)
  refine ⟨⟨List.replicate n entry, by rwa [List.length_replicate]⟩, ?_, List.length_replicate, ?_⟩
  · intro e hm
    obtain rfl := List.eq_of_mem_replicate hm
    simp [RString.alpnOk, hlen]
  · simp only [alpnWire_length, List.length_replicate, List.map_replicate, List.sum_replicate_nat, hlen]
    omega

/-- **The bound at the buffer.** For an array that passes the check, `total` is
at most 65536 and survives the cast to `unsigned int` exactly if the entries
and their bytes together are at most 65536, modulo 2^64. So they are with up
to 256 entries, and with more than 32768 they are not, until `total` wraps. -/
theorem alpnTotal_le_iff {alpn : RArray RString} {total : UInt64} (h : alpnTotal alpn.entries 0 = .ok total) :
    (total.toNat ≤ 65536 ∧ total.toUInt32.toNat = total.toNat ↔
      (alpn.entries.length + (alpn.entries.map RString.len).sum) % 2 ^ 64 ≤ 65536) ∧
    (alpn.entries.length ≤ 256 → total.toNat ≤ 65536) ∧
    (32768 < alpn.entries.length → alpn.entries.length < 2 ^ 56 → 65536 < total.toNat) := by
  obtain ⟨hok, htotal⟩ := alpnTotal_eq_ok h
  rw [alpnWire_length] at htotal
  have hmin : alpn.entries.length ≤ (alpn.entries.map RString.len).sum := by
    have hle := List.card_nsmul_le_sum (alpn.entries.map RString.len) 1 (by simpa using fun e he => (hok e he).1)
    simpa using hle
  have hmax : (alpn.entries.map RString.len).sum ≤ alpn.entries.length * 255 := by
    have hle := List.sum_le_card_nsmul (alpn.entries.map RString.len) 255 (by simpa using fun e he => (hok e he).2)
    simpa using hle
  refine ⟨?_, fun hfew => by omega, fun hmany hlt => by omega⟩
  rw [← htotal, and_iff_left_iff_imp]
  intro hle
  rw [UInt64.toNat_toUInt32]
  omega

theorem alpnTotal_le_iff_h3Protocols : (6 : UInt64).toNat ≤ 65536 ∧ (6 : UInt64).toUInt32.toNat = (6 : UInt64).toNat :=
  (alpnTotal_le_iff (show alpnTotal h3Protocols.entries 0 = .ok 6 from rfl)).1.2 (by decide)

/-- 257 entries of 255 bytes need 65792. -/
theorem alpnTotal_not_bounded : ¬ ∀ (alpn : RArray RString) total,
    alpnTotal alpn.entries 0 = .ok total → total.toNat ≤ 65536 := by
  intro h
  obtain ⟨alpn, hok, -, hlen⟩ := exists_longEntries (show 257 ≤ (2 ^ 63 - 1) / 8 by decide)
  have hle := h alpn _ (alpnTotal_ok hok 0)
  rw [hlen] at hle
  revert hle
  decide

end QuicRuby
