import Mathlib.Data.List.Basic

/-!
# Salamander

`hysteria-obfs`, `salamander.rs`: a packet is its salt, and the payload under a
key that the password and the salt give. BLAKE2b is any function.
-/

namespace Hysteria.Impl

def saltLength : Nat := 8
def keyLength : Nat := 32
def minPasswordLength : Nat := 4

inductive SalamanderError where
  | passwordTooShort
  | packetTooShort
deriving DecidableEq

structure Salamander where
  password : List UInt8
  long : minPasswordLength ≤ password.length

def Salamander.new (password : List UInt8) : Except SalamanderError Salamander :=
  if h : password.length < minPasswordLength then .error .passwordTooShort
  else .ok ⟨password, Nat.le_of_not_lt h⟩

variable (blake2b : List UInt8 → Vector UInt8 keyLength) (s : Salamander)

namespace Salamander

def packetKey (salt : List UInt8) : Vector UInt8 keyLength := blake2b (s.password ++ salt)

/-- `byte ^ key[index % KEY_LENGTH]` for every byte. -/
def applyKey (key : Vector UInt8 keyLength) (bytes : List UInt8) : List UInt8 :=
  bytes.mapIdx fun index byte => byte ^^^ key.get ⟨index % keyLength, Nat.mod_lt index (by decide)⟩

def obfuscate (payload : List UInt8) (salt : Vector UInt8 saltLength) : List UInt8 :=
  salt.toList ++ applyKey (s.packetKey blake2b salt.toList) payload

def deobfuscate (packet : List UInt8) : Except SalamanderError (List UInt8) :=
  if packet.length ≤ saltLength then .error .packetTooShort
  else .ok (applyKey (s.packetKey blake2b (packet.take saltLength)) (packet.drop saltLength))

end Salamander

end Hysteria.Impl
