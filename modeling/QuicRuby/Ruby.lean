/-
The Ruby side of the extension: Strings, Integer conversions, exceptions,
and how an ngtcp2 error becomes one (quic.c).
-/
import QuicRuby.Ngtcp2

namespace QuicRuby

/-- A Ruby String: its bytes, as many as `RSTRING_LEN`, a `long`, can count. -/
structure RString where
  bytes : List UInt8
  len_lt : bytes.length < 2 ^ 63
deriving DecidableEq, Repr

def RString.len (s : RString) : Nat := s.bytes.length

/-- A String of any length there can be. -/
theorem exists_rstring {n : Nat} (h : n < 2 ^ 63) : ∃ d : RString, d.len = n :=
  ⟨⟨List.replicate n 0, by rwa [List.length_replicate]⟩, List.length_replicate⟩

/-- The String of one byte. -/
def RString.ofByte (b : UInt8) : RString := ⟨[b], by simp⟩

/-- `rb_str_new(ptr, take)` for a prefix. -/
def RString.take (s : RString) (n : Nat) : RString :=
  ⟨s.bytes.take n, Nat.lt_of_le_of_lt (List.length_take_le' _ _) s.len_lt⟩

@[simp] theorem RString.bytes_take (s : RString) (n : Nat) : (s.take n).bytes = s.bytes.take n := rfl

/-- A Ruby Array: no more elements than `ARY_MAX_SIZE`, which is `LONG_MAX`
over the size of a `VALUE`. -/
structure RArray (α : Type) where
  entries : List α
  len_le : entries.length ≤ (2 ^ 63 - 1) / 8

inductive Encoding
  | binary
  | other
deriving DecidableEq, Repr

/-- The exception classes raised: Ruby's own, then `Quic::Error`'s. -/
inductive ErrorClass
  | argumentError
  | runtimeError
  | rangeError
  | typeError
  | eofError
  | systemCallError
  | proto
  | dropConn
  | retry
  | closed
  | cryptoError
  | handshakeTimeout
  | flowControl
  | unknown
  | waitReadable
  | waitWritable
  | streamClosed
  | streamReset
  | notBound
deriving DecidableEq, Repr

/-- A message is a text, or `ngtcp2_strerror`'s for a code. -/
inductive Message
  | text (s : String)
  | strerror (e : Ngtcp2Error)
deriving DecidableEq, Repr

/-- An exception, with `@code` for those made from an ngtcp2 error. -/
structure RubyError where
  cls : ErrorClass
  message : Message
  code : Option Ngtcp2Error := none
deriving DecidableEq, Repr

def RubyError.mkText (cls : ErrorClass) (s : String) : RubyError := { cls, message := .text s }

/-- The class `quic_raise_ngtcp2_error` picks. -/
def ngtcp2ErrorClass : Ngtcp2Error → ErrorClass
  | .proto => .proto
  | .dropConn => .dropConn
  | .retry => .retry
  | .closing | .draining => .closed
  | .idleClose => .closed
  | .crypto => .cryptoError
  | .handshakeTimeout => .handshakeTimeout
  | .streamDataBlocked => .flowControl
  | .streamShutWr => .streamClosed
  | .invalidState | .other _ => .unknown

/-- `quic_raise_ngtcp2_error`. -/
def quicRaiseNgtcp2Error (rv : Ngtcp2Error) : RubyError :=
  { cls := ngtcp2ErrorClass rv, message := .strerror rv, code := some rv }

/-- `NUM2LONG`. -/
def num2long (n : Int) : Except RubyError Int :=
  if -2 ^ 63 ≤ n ∧ n < 2 ^ 63 then .ok n
  else .error (.mkText .rangeError "bignum too big to convert into 'long'")

/-- `NUM2ULL`: a negative Integer down to `-2^63` is taken modulo `2^64`. -/
def num2ull (n : Int) : Except RubyError UInt64 :=
  if -2 ^ 63 ≤ n ∧ n < 2 ^ 64 then .ok (UInt64.ofInt n)
  else .error (.mkText .rangeError "bignum too big to convert into 'unsigned long long'")

/-- `FlowControl` comes from a blocked stream and nothing else. -/
theorem ngtcp2ErrorClass_flowControl {rv : Ngtcp2Error} :
    ngtcp2ErrorClass rv = .flowControl ↔ rv = .streamDataBlocked := by
  cases rv <;> simp [ngtcp2ErrorClass]

end QuicRuby
