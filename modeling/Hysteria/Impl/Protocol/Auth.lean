import Mathlib.Data.List.AList
import Hysteria.Framework.Text

/-!
# The authentication exchange

`hysteria-protocol`, `auth.rs`: the values in the headers of the request and of
the response. `hysteria`, `auth.rs`: the authenticator that `build` makes for
`userpass`. A configuration is a list, in the order in which its map is iterated.
-/

namespace Hysteria.Impl

open Framework

def authHost : Str := "hysteria"
def authPath : Str := "/auth"
def authStatusOk : UInt16 := 233
def headerAuth : Str := "Hysteria-Auth"
def headerUdpEnabled : Str := "Hysteria-UDP"
def headerCcRx : Str := "Hysteria-CC-RX"
def headerPadding : Str := "Hysteria-Padding"

structure AuthRequest where
  auth : Str
  rx : UInt64
deriving DecidableEq

def AuthRequest.fromHeaderValues (auth rx : Option Str) : AuthRequest where
  auth := auth.getD []
  rx := (rx.bind fun value => parseU64 ((stripStart "+" value).getD value)).getD 0

def AuthRequest.headerValues (r : AuthRequest) : List (Str × Str) :=
  [(headerAuth, r.auth), (headerCcRx, showNat r.rx.toNat)]

structure AuthResponse where
  udpEnabled : Bool
  rx : UInt64
  rxAuto : Bool
deriving DecidableEq

def parseGoBool (value : Str) : Option Bool :=
  if value ∈ ["1", "t", "T", "true", "TRUE", "True"].map String.toList then some true
  else if value ∈ ["0", "f", "F", "false", "FALSE", "False"].map String.toList then some false
  else none

def AuthResponse.fromHeaderValues (udpEnabled rx : Option Str) : AuthResponse where
  udpEnabled := (udpEnabled.bind parseGoBool).getD false
  rx := if rx.getD [] = "auto" then 0 else (parseU64 (rx.getD [])).getD 0
  rxAuto := rx.getD [] = "auto"

def AuthResponse.headerValues (r : AuthResponse) : List (Str × Str) :=
  [(headerUdpEnabled, if r.udpEnabled then "true" else "false"),
    (headerCcRx, if r.rxAuto then "auto" else showNat r.rx.toNat)]

/-! ## Name and password -/

/-- The configured users, by their names in lower case. -/
def userpassUsers (userpass : List (Str × Str)) : AList fun _ : Str => Str :=
  userpass.foldl (fun users (username, password) => users.insert (toAsciiLowercase username) password) ∅

def userpassAuthenticate (userpass : List (Str × Str)) (auth : Str) : Option Str := do
  let (username, password) ← splitOnce ':' auth
  let username := toAsciiLowercase username
  if (userpassUsers userpass).lookup username = some password then some username else none

end Hysteria.Impl
