/-
Quic::Settings (settings.rb) and what the extension makes of it for ngtcp2
(`quic_fill_settings`), in the order of the source. `alpn` is OpenSSL's, and
is seen to before.
-/
import QuicRuby.Alpn
import QuicRuby.TransportParams

namespace QuicRuby

/-- `Quic::Settings`: `cc_algo` is a Symbol, `no_pmtud` is what `RTEST` says. -/
structure Settings where
  ccAlgo : String
  initialRtt : Int
  maxWindow : Int
  maxStreamWindow : Int
  handshakeTimeout : Int
  noPmtud : Bool
  alpn : RArray RString

/-- `Settings.default`. -/
def Settings.default : Settings :=
  { ccAlgo := "cubic"
    initialRtt := 333000000
    maxWindow := 0
    maxStreamWindow := 0
    handshakeTimeout := 10000000000
    noPmtud := false
    alpn := ⟨[], by decide⟩ }

/-- `ngtcp2_cc_algo`. -/
inductive CcAlgo
  | reno
  | cubic
  | bbr
deriving DecidableEq, Repr

/-- The fields of `ngtcp2_settings` that are set. -/
structure Ngtcp2Settings where
  initialTs : UInt64
  ccAlgo : CcAlgo
  initialRtt : UInt64
  maxWindow : UInt64
  maxStreamWindow : UInt64
  handshakeTimeout : UInt64
  noPmtud : Bool
deriving DecidableEq, Repr

/-- `quic_cc_algo_from_sym`. -/
def quicCcAlgoFromSym (sym : String) : Except RubyError CcAlgo :=
  if sym = "reno" then .ok .reno
  else if sym = "cubic" then .ok .cubic
  else if sym = "bbr" then .ok .bbr
  else .error (.mkText .argumentError s!"unknown cc_algo: {sym} (expected :reno, :cubic, or :bbr)")

/-- `quic_fill_settings`; `now` is `quic_now()`. -/
def quicFillSettings (now : UInt64) (st : Settings) : Except RubyError Ngtcp2Settings := do
  let ccAlgo ← quicCcAlgoFromSym st.ccAlgo
  let initialRtt ← quicGetUint64Field st.initialRtt
  let maxWindow ← quicGetUint64Field st.maxWindow
  let maxStreamWindow ← quicGetUint64Field st.maxStreamWindow
  let handshakeTimeout ← quicGetUint64Field st.handshakeTimeout
  return {
    initialTs := now
    ccAlgo := ccAlgo
    initialRtt := initialRtt
    maxWindow := maxWindow
    maxStreamWindow := maxStreamWindow
    handshakeTimeout := handshakeTimeout
    noPmtud := st.noPmtud }

/-- The defaults are taken as they are. -/
theorem quicFillSettings_default (now : UInt64) : quicFillSettings now .default = .ok
    { initialTs := now
      ccAlgo := .cubic
      initialRtt := 333000000
      maxWindow := 0
      maxStreamWindow := 0
      handshakeTimeout := 10000000000
      noPmtud := false } := by
  rfl

end QuicRuby
