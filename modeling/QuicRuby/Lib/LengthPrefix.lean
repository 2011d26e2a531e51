/-
Lists of byte strings on the wire, each with its length in one byte before
it. `decode` reads a length byte, then that many bytes, until the end, and
fails if the bytes run out.

Decoding an encoding gives the list back if a length byte can count each
entry, so the wire form determines the list.
-/
import Mathlib.Data.List.Basic
import Mathlib.Data.UInt

namespace LengthPrefix

/-- One entry: its length, then its bytes. -/
def prefixed (entry : List UInt8) : List UInt8 := UInt8.ofNat entry.length :: entry

def encode (entries : List (List UInt8)) : List UInt8 := entries.flatMap prefixed

def decode : List UInt8 → Option (List (List UInt8))
  | [] => some []
  | len :: rest =>
    if len.toNat ≤ rest.length then (decode (rest.drop len.toNat)).map (rest.take len.toNat :: ·) else none
termination_by wire => wire.length
decreasing_by simp only [List.length_drop, List.length_cons]; omega

/-- Every entry is short enough for its length byte. -/
def Countable (entries : List (List UInt8)) : Prop := ∀ entry ∈ entries, entry.length < 256

@[simp] theorem encode_nil : encode [] = [] := rfl

@[simp] theorem encode_cons (entry : List UInt8) (entries : List (List UInt8)) :
    encode (entry :: entries) = UInt8.ofNat entry.length :: (entry ++ encode entries) := rfl

theorem decode_nil : decode [] = some [] := by rw [decode]

theorem decode_cons (len : UInt8) (rest : List UInt8) : decode (len :: rest) =
    if len.toNat ≤ rest.length then (decode (rest.drop len.toNat)).map (rest.take len.toNat :: ·) else none := by
  rw [decode]

/-- **Decoding an encoding.** -/
theorem decode_encode {entries : List (List UInt8)} (h : Countable entries) :
    decode (encode entries) = some entries := by
  induction entries with
  | nil => exact decode_nil
  | cons entry entries ih =>
    have hlen : (UInt8.ofNat entry.length).toNat = entry.length := by
      rw [UInt8.toNat_ofNat', Nat.mod_eq_of_lt (h entry (List.mem_cons_self ..))]
    have hrest := ih fun e he => h e (List.mem_cons_of_mem _ he)
    rw [encode_cons, decode_cons, hlen, if_pos (by simp), List.drop_left, List.take_left, hrest]
    rfl

/-- The wire form determines the list. -/
theorem encode_injective {entries entries' : List (List UInt8)} (h : Countable entries) (h' : Countable entries')
    (he : encode entries = encode entries') : entries = entries' := by
  have hd := decode_encode h
  rw [he, decode_encode h'] at hd
  exact (Option.some.inj hd).symm

end LengthPrefix
