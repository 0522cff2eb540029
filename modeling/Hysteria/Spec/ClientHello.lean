import Hysteria.Framework.Bytes

/-!
# TLS ClientHello messages

A message of the TLS handshake with its nested vectors, each after its length. The
values carry the bounds of their length fields, so every one can be written down.
-/

namespace Hysteria.Spec

open Framework

/-- A vector after its length in one byte. -/
def vec8 (bytes : List UInt8) : List UInt8 := UInt8.ofNat bytes.length :: bytes

/-- A vector after its length in two bytes. -/
def vec16 (bytes : List UInt8) : List UInt8 := beBytes 2 bytes.length ++ bytes

@[simp] theorem length_vec8 (bs : List UInt8) : (vec8 bs).length = bs.length + 1 := rfl

@[simp] theorem length_vec16 (bs : List UInt8) : (vec16 bs).length = bs.length + 2 := by
  rw [vec16, List.length_append, length_beBytes, Nat.add_comm]

structure Extension where
  kind : UInt16
  body : List UInt8
  length_lt : body.length < 2 ^ 16

def Extension.encode (e : Extension) : List UInt8 := beBytes 2 e.kind.toNat ++ vec16 e.body

@[simp] theorem Extension.length_encode (e : Extension) : e.encode.length = e.body.length + 4 := by
  rw [encode, List.length_append, length_beBytes, length_vec16]
  omega

/-- A name of a `server_name` extension; of kind 0, it is a host name. -/
structure NameEntry where
  kind : UInt8
  body : List UInt8
  length_lt : body.length < 2 ^ 16

def NameEntry.encode (entry : NameEntry) : List UInt8 := entry.kind :: vec16 entry.body

@[simp] theorem NameEntry.length_encode (ent : NameEntry) : ent.encode.length = ent.body.length + 3 := by
  rw [encode, List.length_cons, length_vec16]

structure NameList where
  entries : List NameEntry
  length_lt : (vec16 (entries.flatMap NameEntry.encode)).length < 2 ^ 16

def serverName (names : NameList) : Extension where
  kind := 0
  body := vec16 (names.entries.flatMap NameEntry.encode)
  length_lt := names.length_lt

structure ClientHello where
  version : List UInt8
  length_version : version.length = 2
  random : List UInt8
  length_random : random.length = 32
  sessionId : List UInt8
  sessionId_lt : sessionId.length < 2 ^ 8
  cipherSuites : List UInt8
  cipherSuites_lt : cipherSuites.length < 2 ^ 16
  compressionMethods : List UInt8
  compressionMethods_lt : compressionMethods.length < 2 ^ 8
  extensions : List Extension
  extensions_lt : (extensions.flatMap Extension.encode).length < 2 ^ 16

def ClientHello.body (hello : ClientHello) : List UInt8 :=
  hello.version ++ (hello.random ++ (vec8 hello.sessionId ++ (vec16 hello.cipherSuites ++
    (vec8 hello.compressionMethods ++ vec16 (hello.extensions.flatMap Extension.encode)))))

/-- The handshake message: its type, its length, its body. -/
def ClientHello.encode (hello : ClientHello) : List UInt8 := 1 :: (beBytes 3 hello.body.length ++ hello.body)

/-- One extension is `server_name`, and this is the first host name in it. -/
def ClientHello.Names (hello : ClientHello) (host : List UInt8) : Prop :=
  ∃ before names after, hello.extensions = before ++ serverName names :: after ∧ (∀ e ∈ before ++ after, e.kind ≠ 0) ∧
    ∃ others entry more, names.entries = others ++ entry :: more ∧ (∀ other ∈ others, other.kind ≠ 0) ∧
      entry.kind = 0 ∧ entry.body = host

/-! ## Any data

Where a name is by the lengths in the data. -/

/-- The number in two bytes. -/
def ShortAt (data : List UInt8) (offset n : Nat) : Prop :=
  ∃ high low, data[offset]? = some high ∧ data[offset + 1]? = some low ∧ n = high.toNat * 256 + low.toNat

/-- The first host name of a list of names up to `stop`, if it has one. -/
inductive ListedName (data : List UInt8) (stop : Nat) : Nat → Option (List UInt8) → Prop
  | nil {offset : Nat} : stop < offset + 3 → ListedName data stop offset none
  | host {offset length : Nat} {name : List UInt8} : offset + 3 + length ≤ stop → data[offset]? = some 0 →
    ShortAt data (offset + 1) length → slice data (offset + 3) (offset + 3 + length) = some name →
    ListedName data stop offset (some name)
  | other {offset length : Nat} {kind : UInt8} {name : Option (List UInt8)} : offset + 3 + length ≤ stop →
    data[offset]? = some kind → kind ≠ 0 → ShortAt data (offset + 1) length →
    ListedName data stop (offset + 3 + length) name → ListedName data stop offset name

/-- The list of names of the extension from `offset` on has this host name, or none. -/
def ServerNameAt (data : List UInt8) (offset length : Nat) (name : Option (List UInt8)) : Prop :=
  ∃ listLength, ShortAt data offset listLength ∧
    ListedName data (min (offset + 2 + listLength) (offset + length)) (offset + 2) name

/-- The host name of the first extension up to `stop` that has one. -/
inductive ExtensionName (data : List UInt8) (stop : Nat) : Nat → List UInt8 → Prop
  | found {offset length : Nat} {name : List UInt8} : offset + 4 + length ≤ stop → ShortAt data offset 0 →
    ShortAt data (offset + 2) length → 5 ≤ length → ServerNameAt data (offset + 4) length (some name) →
    ExtensionName data stop offset name
  | next {offset kind length : Nat} {name : List UInt8} : offset + 4 + length ≤ stop → ShortAt data offset kind →
    ShortAt data (offset + 2) length → (kind = 0 → 5 ≤ length → ServerNameAt data (offset + 4) length none) →
    ExtensionName data stop (offset + 4 + length) name → ExtensionName data stop offset name

/-- The host name after a session id, cipher suites and compression methods. -/
def HelloName (data name : List UInt8) : Prop :=
  data.head? = some 1 ∧ 42 ≤ data.length ∧ ∃ (session compression : UInt8) (ciphers extensions : Nat),
    data[38]? = some session ∧ ShortAt data (39 + session.toNat) ciphers ∧
    data[39 + session.toNat + 2 + ciphers]? = some compression ∧
    let offset := 39 + session.toNat + 2 + ciphers + 1 + compression.toNat
    ShortAt data offset extensions ∧ ExtensionName data (min (offset + 2 + extensions) data.length) (offset + 2) name

end Hysteria.Spec
