import Hysteria.Framework.Bytes
import Hysteria.Framework.Records
import Hysteria.Framework.Text

/-!
# The keys of Encrypted Client Hello

`hysteria`, `server_ech.rs`: the keys in the PEM block of their file, and
`validate_ech_config_list` of `tls.rs`. An error is its text. A position in a list is kept as what is left of the list,
and no length overflows `usize`.
-/

namespace Hysteria.Impl

open Framework

structure ServerEchKey where
  privateKey : List UInt8
  config : List UInt8
deriving DecidableEq

structure ServerEchMaterial where
  keys : List ServerEchKey
  configList : List UInt8
deriving DecidableEq

def readU16Prefixed (data : List UInt8) : Except Str (List UInt8 × List UInt8) :=
  match slice data 0 2 with
  | none => .error "invalid ECH keys: truncated length prefix"
  | some bytes =>
    let stop := 2 + beNat bytes
    match slice data 2 stop with
    | none => .error "invalid ECH keys: length prefix exceeds available data"
    | some payload => .ok (payload, data.drop stop)

def parseKeys (blob : List UInt8) : Except Str (List ServerEchKey) :=
  eachRecord "out of rounds" (readPair readU16Prefixed readU16Prefixed)
    (fun keys (privateKey, config) => .ok (keys ++ [{ privateKey, config }])) blob.length [] blob

/-- A round of the loop of `validate_ech_config_list`: the version and the contents that it passes over. -/
def passConfig (rest : List UInt8) : Except Str ((List UInt8 × List UInt8) × List UInt8) :=
  if rest.length < 4 then .error "malformed tls.ech config header"
  else
    let length := beNat ((rest.drop 2).take 2)
    if 4 + length > rest.length then .error "malformed tls.ech config length"
    else .ok ((rest.take 2, (rest.drop 4).take length), rest.drop (4 + length))

def validateEchConfigList (list : List UInt8) : Except Str Unit :=
  if list.length < 2 then .error "malformed tls.ech config list: truncated length"
  else
    let bodyLength := beNat (list.take 2)
    if bodyLength = 0 ∨ bodyLength ≠ list.length - 2 then .error "malformed tls.ech config list length"
    else eachRecord "out of rounds" passConfig (fun () _ => .ok ()) list.length () (list.drop 2)

/-- `load` after `pem_block`. -/
def loadBlob (blob : List UInt8) : Except Str ServerEchMaterial := do
  let keys ← parseKeys blob
  if keys = [] then .error "invalid ECH keys: no key entries" else
  if keys.any (·.privateKey = []) then .error "invalid ECH keys: empty private key" else
  let bodyLength := (keys.map (·.config.length)).sum
  if bodyLength > 0xffff then .error "invalid ECH keys: config list is too large" else
  let configList := beBytes 2 bodyLength ++ keys.flatMap (·.config)
  (validateEchConfigList configList).mapError ("invalid ECH keys: embedded config list: " ++ ·)
  return { keys, configList }

end Hysteria.Impl
