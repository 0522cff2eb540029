import Hysteria.Framework.Utf8

/-!
# Errors of the wire protocol and of the transport

`ProtocolError` (`hysteria-protocol`, `error.rs`) with its texts, and
`TransportError` (`hysteria-transport`, `error.rs`) with its own.
-/

namespace Hysteria.Impl

open Framework

inductive ProtocolError where
  | unexpectedEnd
  | varintTooLarge (value : UInt64)
  | invalidFrameType (value : UInt64)
  | invalidAddressLength (value : UInt64)
  | invalidMessageLength (value : UInt64)
  | invalidPaddingLength (value : UInt64)
  | tooManyFragments (value : Nat)
deriving DecidableEq

/-- `{value}`. -/
def decimal (n : Nat) : Str := Nat.toDigits 10 n

/-- `{value:#x}`. -/
def hexadecimal (n : Nat) : Str := "0x" ++ Nat.toDigits 16 n

def ProtocolError.display : ProtocolError → Str
  | .unexpectedEnd => "unexpected end of message"
  | .varintTooLarge value =>
    "value " ++ hexadecimal value.toNat ++ " does not fit in a QUIC varint"
  | .invalidFrameType value => "invalid frame type " ++ hexadecimal value.toNat
  | .invalidAddressLength value => "invalid address length " ++ decimal value.toNat
  | .invalidMessageLength value => "invalid message length " ++ decimal value.toNat
  | .invalidPaddingLength value => "invalid padding length " ++ decimal value.toNat
  | .tooManyFragments value =>
    "packet requires " ++ decimal value ++ " fragments; the protocol supports at most 255"

inductive TransportError where
  | configuration (message : Str)
  | endpoint (message : Str)
  | connect (message : Str)
  | http3Connection (message : Str)
  | http3Stream (message : Str)
  | invalidHeader (message : Str)
  | randomSource (message : Str)
  | authenticationFailed (status : UInt16)
  | io (message : Str)
  | protocol (message : Str)
  | udpDisabled
  | datagramTooLarge (size : Nat)
  | sessionClosed
  | trafficLimitReached
  | closed
deriving DecidableEq

def TransportError.display : TransportError → Str
  | .configuration message => "transport configuration error: " ++ message
  | .endpoint message => "endpoint error: " ++ message
  | .connect message => "QUIC connection error: " ++ message
  | .http3Connection message => "HTTP/3 connection error: " ++ message
  | .http3Stream message => "HTTP/3 stream error: " ++ message
  | .invalidHeader message => "invalid Hysteria header: " ++ message
  | .randomSource message => "operating-system random source failed: " ++ message
  | .authenticationFailed status => "authentication failed with HTTP status " ++ decimal status.toNat
  | .io message => "I/O error: " ++ message
  | .protocol message => "protocol error: " ++ message
  | .udpDisabled => "UDP relay is disabled"
  | .datagramTooLarge size => "UDP message is too large (" ++ decimal size ++ " bytes)"
  | .sessionClosed => "UDP session is closed"
  | .trafficLimitReached => "traffic logger requested disconnect"
  | .closed => "transport closed"

end Hysteria.Impl
