import Hysteria.Framework.Ip
import Hysteria.Framework.UndoLog

/-!
# Policy rules of the strict TUN mode

`hysteria`, `tun_linux_policy.rs`: the nine rules that send the traffic of the
host through the table of the TUN device (`strictRules`), the choice of a free
block of priorities (`selectPriority`), and the rules added one by one and
removed in the reverse order (`PolicyRules`).
-/

namespace Hysteria.Impl

open Framework

inductive AddressFamily where
  | inet
  | inet6
  | other (code : UInt8)
deriving DecidableEq

inductive RuleAction where
  | toTable
  | goto
  | nop
  | other (code : UInt8)
deriving DecidableEq

inductive IpProtocol where
  | icmp
  | other (code : UInt8)
deriving DecidableEq

/-- Attributes of a rule; priorities and tables are 32-bit numbers. -/
inductive RuleAttribute where
  | priority (priority : Nat)
  | destination (address : IpAddr)
  | table (table : Nat)
  | goto (priority : Nat)
  | ipProtocol (protocol : IpProtocol)
  | destinationPortRange (start stop : UInt16)
  | suppressPrefixLen (length : Nat)
  | other (kind : UInt16) (value : List UInt8)
deriving DecidableEq

/-- `RuleFlags::Invert`. -/
def RuleFlags.invert : UInt32 := 2

structure RuleMessage where
  family : AddressFamily
  dstLen : UInt8 := 0
  srcLen : UInt8 := 0
  tos : UInt8 := 0
  table : UInt8 := 0
  action : RuleAction
  flags : UInt32 := 0
  attributes : List RuleAttribute
deriving DecidableEq

def preferredPriority : Nat := 9000
def priorityBlockSize : Nat := 11
def prioritySearchEnd : Nat := 32000
def mainTable : UInt8 := 254

/-! ## Rules -/

def baseRule (family : AddressFamily) (priority : Nat) (action : RuleAction) : RuleMessage :=
  { family, action, attributes := [.priority priority] }

def tableRule (family : AddressFamily) (priority : Nat) (table : UInt8) (attributes : List RuleAttribute)
    (destinationPrefix : UInt8) : RuleMessage :=
  let rule := baseRule family priority .toTable
  { rule with
    table
    dstLen := destinationPrefix
    attributes := rule.attributes ++ attributes ++ [.table table.toNat] }

def gotoRule (family : AddressFamily) (priority destination : Nat) (protocol : IpProtocol) : RuleMessage :=
  let rule := baseRule family priority .goto
  { rule with attributes := rule.attributes ++ [.goto destination, .ipProtocol protocol] }

def dnsMainRule (family : AddressFamily) (priority : Nat) : RuleMessage :=
  let rule := tableRule family priority mainTable [] 0
  { rule with
    flags := RuleFlags.invert
    attributes := rule.attributes ++ [.destinationPortRange 53 53, .suppressPrefixLen 0] }

def nopRule (family : AddressFamily) (priority : Nat) : RuleMessage := baseRule family priority .nop

/-- `mask_ipv4`, for a prefix of at most 32 bits. -/
def maskIpv4 (address : BitVec 32) (prefixLength : UInt8) : BitVec 32 :=
  let mask := if prefixLength = 0 then 0 else BitVec.allOnes 32 <<< (32 - prefixLength.toNat)
  address &&& mask

def strictRules (table : UInt8) (priority : Nat) (ipv4Address : BitVec 32 × UInt8)
    (_ipv6Address : BitVec 128 × UInt8) : List RuleMessage :=
  let nopPriority := priority + priorityBlockSize - 1
  [tableRule .inet priority table [.destination (.v4 (maskIpv4 ipv4Address.1 ipv4Address.2))] ipv4Address.2,
    gotoRule .inet (priority + 1) nopPriority .icmp,
    dnsMainRule .inet (priority + 2),
    tableRule .inet (priority + 2) table [] 0,
    gotoRule .inet6 priority nopPriority (.other 58),
    dnsMainRule .inet6 (priority + 1),
    tableRule .inet6 (priority + 1) table [] 0,
    nopRule .inet nopPriority,
    nopRule .inet6 nopPriority]

/-! ## Priorities -/

def rulePriority (rule : RuleMessage) : Option Nat := rule.attributes.findSome? fun
    | .priority priority => some priority
    | _ => none

/-- The first block, from the preferred priority on, in which no rule has a priority. -/
def selectPriority (existing : List RuleMessage) : Option Nat :=
  let occupied := existing.filterMap rulePriority
  let blocks := (prioritySearchEnd - priorityBlockSize - preferredPriority) / priorityBlockSize + 1
  (List.range' preferredPriority blocks priorityBlockSize).find? fun start =>
    (List.range' start priorityBlockSize).all fun priority => !occupied.contains priority

/-! ## Installation -/

/-- What the kernel refuses, beside the rules it has already. -/
structure RuleFaults where
  /-- `list_rules`. -/
  list : Option Str
  /-- `add_rule`, when so many rules are installed. -/
  add : Nat → Option Str
  /-- The error for a rule that is there. -/
  present : Str

def listRules (faults : RuleFaults) (rules : List RuleMessage) : Except Str (List RuleMessage) :=
  match faults.list with
  | some error => .error error
  | none => .ok (rules.filter (·.family = .inet) ++ rules.filter (·.family = .inet6))

def addRule (faults : RuleFaults) (count : Nat) (rule : RuleMessage) (rules : List RuleMessage) :
    Except Str (RuleMessage × List RuleMessage) :=
  (tableAdd (faults.add count) faults.present rule rules).map fun rules => (rule, rules)

def deleteRule (rule : RuleMessage) (rules : List RuleMessage) : List RuleMessage := rules.erase rule

structure PolicyRules where
  rules : List RuleMessage
deriving DecidableEq

def PolicyRules.drop (policy : PolicyRules) (rules : List RuleMessage) : List RuleMessage :=
  policy.rules.foldr deleteRule rules

/-- The rules of the kernel, before and after. -/
def PolicyRules.install (faults : RuleFaults) (table : UInt8) (ipv4Address : BitVec 32 × UInt8)
    (ipv6Address : BitVec 128 × UInt8) (rules : List RuleMessage) : Except Str PolicyRules × List RuleMessage :=
  match listRules faults rules with
  | .error error => (.error error, rules)
  | .ok existing =>
    match selectPriority existing with
    | none => (.error "no free policy-rule priority block is available", rules)
    | some priority =>
      match UndoLog.runEach (addRule faults) (strictRules table priority ipv4Address ipv6Address) ⟨rules, []⟩ with
      -- `installed` goes out of scope
      | (.error error, installed) => (.error error, PolicyRules.drop ⟨installed.log⟩ installed.state)
      | (.ok (), installed) => (.ok ⟨installed.log⟩, installed.state)

end Hysteria.Impl
