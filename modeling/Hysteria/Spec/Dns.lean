import Hysteria.Impl.Resolver

/-!
# DNS messages

The names, questions and answer records of a response (`Response`), and what is
asked of a resolver: the last address of the type that it asked for, and the last
alias. A name is the list of its labels. `depth` bounds how many labels and pointers
are read for one name.
-/

namespace Hysteria.Spec

open Framework Impl

/-! ## Names -/

abbrev DnsName := List (List UInt8)

namespace DnsName

def ofText (text : Str) : DnsName := (text.splitOn '.').map utf8

def isUtf8 (name : DnsName) : Bool := name.all fun label => (fromUtf8 label).isSome

def text (name : DnsName) : Str := ['.'].intercalate (name.map fromUtf8Lossy)

/-- A name without compression. -/
def wire (name : DnsName) : List UInt8 := name.flatMap (fun label => UInt8.ofNat label.length :: label) ++ [0]

end DnsName

/-- The name at `offset`, what follows it starts at `stop`. -/
inductive NameAt (message : List UInt8) : (offset : Nat) → DnsName → (stop depth : Nat) → Prop
  | root {offset : Nat} : message[offset]? = some 0 → NameAt message offset [] (offset + 1) 0
  | label {offset stop depth : Nat} {length : UInt8} {label : List UInt8} {name : DnsName} :
    message[offset]? = some length → 0 < length.toNat → length.toNat < 64 →
    slice message (offset + 1) (offset + 1 + length.toNat) = some label →
    NameAt message (offset + 1 + length.toNat) name stop depth → NameAt message offset (label :: name) stop (depth + 1)
  | pointer {offset stop depth : Nat} {high low : UInt8} {name : DnsName} :
    message[offset]? = some high → 192 ≤ high.toNat → message[offset + 1]? = some low →
    NameAt message ((high.toNat - 192) * 256 + low.toNat) name stop depth →
    NameAt message offset name (offset + 2) (depth + 1)

/-- A name that is read with no more than `depth` labels and pointers. -/
def NameWithin (depth : Nat) (message : List UInt8) (offset : Nat) (name : DnsName) (stop : Nat) : Prop :=
  ∃ steps ≤ depth, NameAt message offset name stop steps

/-! ## Records -/

inductive RecordData where
  | address (ip : IpAddr)
  | cname (target : DnsName)
  | other (kind : UInt16)

def addressKind : IpAddr → UInt16
  | .v4 _ => 1
  | .v6 _ => 28

def RecordData.kind : RecordData → UInt16
  | .address ip => addressKind ip
  | .cname _ => 5
  | .other kind => kind

structure DnsRecord where
  owner : DnsName
  data : RecordData

/-- The data from `start` to `stop`. -/
inductive DataAt (depth : Nat) (message : List UInt8) (start stop : Nat) : RecordData → Prop
  | v4 {octets : List UInt8} : slice message start stop = some octets → octets.length = 4 →
    DataAt depth message start stop (.address (.v4 (BitVec.ofNat 32 (beNat octets))))
  | v6 {octets : List UInt8} : slice message start stop = some octets → octets.length = 16 →
    DataAt depth message start stop (.address (.v6 (BitVec.ofNat 128 (beNat octets))))
  | cname {target : DnsName} : NameWithin depth message start target stop →
    DataAt depth message start stop (.cname target)
  | other {kind : UInt16} : kind ≠ 1 → kind ≠ 28 → kind ≠ 5 → DataAt depth message start stop (.other kind)

/-- Two bytes with the number `n`. -/
def U16At (message : List UInt8) (offset n : Nat) : Prop :=
  n < 2 ^ 16 ∧ slice message offset (offset + 2) = some (beBytes 2 n)

/-! ## Sections -/

/-- Questions are a name, a type and a class. -/
inductive QuestionsAt (depth : Nat) (message : List UInt8) : (offset : Nat) → List DnsName → (stop : Nat) → Prop
  | nil {offset : Nat} : QuestionsAt depth message offset [] offset
  | cons {offset fixed stop : Nat} {name : DnsName} {names : List DnsName} :
    NameWithin depth message offset name fixed → fixed + 4 ≤ message.length →
    QuestionsAt depth message (fixed + 4) names stop → QuestionsAt depth message offset (name :: names) stop

/-- Records are a name, a type, a class, a time to live, and the length of the data before it. -/
inductive AnswersAt (depth : Nat) (message : List UInt8) : (offset : Nat) → List DnsRecord → Prop
  | nil {offset : Nat} : AnswersAt depth message offset []
  | cons {offset fixed length : Nat} {record : DnsRecord} {records : List DnsRecord} :
    NameWithin depth message offset record.owner fixed → U16At message fixed record.data.kind.toNat →
    U16At message (fixed + 8) length → fixed + 10 + length ≤ message.length →
    DataAt depth message (fixed + 10) (fixed + 10 + length) record.data →
    AnswersAt depth message (fixed + 10 + length) records → AnswersAt depth message offset (record :: records)

/-- A response without an error, to the query `id`. -/
structure Response (depth : Nat) (message : List UInt8) (id : UInt16) (questions : List DnsName)
    (answers : List DnsRecord) : Prop where
  header : 12 ≤ message.length
  id : U16At message 0 id.toNat
  flags : ∃ flags, U16At message 2 flags ∧ 2 ^ 15 ≤ flags ∧ flags % 2 ^ 4 = 0
  questionCount : U16At message 4 questions.length
  answerCount : U16At message 6 answers.length
  sections : ∃ offset, QuestionsAt depth message 12 questions offset ∧ AnswersAt depth message offset answers

/-- No name of the response takes more than 127 labels and pointers, and the names of the questions
are texts. -/
def Readable (message : List UInt8) (id : UInt16) : Prop :=
  ∀ depth questions answers, Response depth message id questions answers →
    Response 127 message id questions answers ∧ questions.all DnsName.isUtf8

/-! ## Records of any message

The names of a message that is not well formed end where `skip_name` says. -/

/-- The record `n` answers after the one at `offset` starts at `start`. -/
inductive AnswerStarts (message : List UInt8) : (offset n start : Nat) → Prop
  | first {offset : Nat} : AnswerStarts message offset 0 offset
  | next {offset n start fixed length : Nat} : skipName message offset = .ok fixed →
    U16At message (fixed + 8) length → fixed + 10 + length ≤ message.length →
    AnswerStarts message (fixed + 10 + length) n start → AnswerStarts message offset (n + 1) start

/-- The data of the record at `offset`, of the type `qtype`, is the address. -/
def AddressRecordAt (message : List UInt8) (qtype : UInt16) (offset : Nat) (ip : IpAddr) : Prop :=
  ∃ fixed data, skipName message offset = .ok fixed ∧ U16At message fixed qtype.toNat ∧
    U16At message (fixed + 8) data.length ∧ slice message (fixed + 10) (fixed + 10 + data.length) = some data ∧
    (qtype = 1 ∧ data.length = 4 ∧ ip = .v4 (BitVec.ofNat 32 (beNat data)) ∨
      qtype = 28 ∧ data.length = 16 ∧ ip = .v6 (BitVec.ofNat 128 (beNat data)))

/-- The address is the data of one of the answers of the message. -/
def AnswerAddress (message : List UInt8) (qtype : UInt16) (ip : IpAddr) : Prop :=
  ∃ questions answers offset, U16At message 4 questions ∧ U16At message 6 answers ∧
    skipQuestions message questions 12 = .ok offset ∧
    ∃ n < answers, ∃ start, AnswerStarts message offset n start ∧ AddressRecordAt message qtype start ip

/-! ## What is asked -/

def RecordData.addressOf (qtype : UInt16) : RecordData → Option IpAddr
  | .address ip => if addressKind ip = qtype then some ip else none
  | .cname _ | .other _ => none

def RecordData.target : RecordData → Option DnsName
  | .cname target => some target
  | .address _ | .other _ => none

/-- The addresses of the type, in order. -/
def addressesOf (qtype : UInt16) (answers : List DnsRecord) : List IpAddr :=
  answers.filterMap fun record => record.data.addressOf qtype

/-- The targets of the aliases, in order. -/
def targetsOf (answers : List DnsRecord) : List DnsName := answers.filterMap fun record => record.data.target

def lastAnswer (qtype : UInt16) (answers : List DnsRecord) : DnsAnswer where
  ip := (addressesOf qtype answers).getLast?
  cname := ((targetsOf answers).getLast?).map DnsName.text

def DnsRecord.isText (record : DnsRecord) : Bool := record.owner.isUtf8 && record.data.target.all DnsName.isUtf8

/-- Every name of the response is a text. -/
def textNames (questions : List DnsName) (answers : List DnsRecord) : Bool :=
  questions.all DnsName.isUtf8 && answers.all DnsRecord.isText

/-! ## Chains of aliases -/

/-- Each name is an alias of the next, up to `names last`, which has the addresses. -/
structure AliasChain where
  names : Nat → Str
  last : Nat
  addresses : List IpAddr

namespace AliasChain

def cname (chain : AliasChain) (i : Nat) : DnsRecord :=
  ⟨.ofText (chain.names i), .cname (.ofText (chain.names (i + 1)))⟩

def address (chain : AliasChain) (ip : IpAddr) : DnsRecord := ⟨.ofText (chain.names chain.last), .address ip⟩

/-- The records of an answer for `names i`: some aliases from there on, and some of the addresses. -/
structure Answers (chain : AliasChain) (i : Nat) (records : List DnsRecord) : Prop where
  only : ∀ record ∈ records, (∃ j, i ≤ j ∧ j < chain.last ∧ record = chain.cname j) ∨
    ∃ ip ∈ chain.addresses, record = chain.address ip
  cname : i < chain.last → ∃ j, i ≤ j ∧ j < chain.last ∧ chain.cname j ∈ records
  addresses : i = chain.last → ∀ ip ∈ chain.addresses, chain.address ip ∈ records

/-- Whatever was asked before, a query for a name of the chain is answered from the chain. -/
def Served (chain : AliasChain) (outside : Outside) (r : Resolver) (qtype : UInt16) : Prop :=
  ∀ i ≤ chain.last, ∀ n id query, buildQuery id (chain.names i) qtype = .ok query →
    ∃ response depth questions records, outside.exchange n r query = .ok response ∧
      Response depth response id questions records ∧ chain.Answers i records

/-- The queries of a lookup from `start` on: in the world `w` it asks for `names i`. An answer
without an address leads on to its last alias. -/
inductive Asked (chain : AliasChain) (outside : Outside) (r : Resolver) (qtype : UInt16) (start : World) :
    World → Nat → Prop
  | first : Asked chain outside r qtype start start 0
  | next {w : World} {i j depth : Nat} {query response : List UInt8} {questions : List DnsName}
    {records : List DnsRecord} : Asked chain outside r qtype start w i →
    buildQuery w.nextId (chain.names i) qtype = .ok query → outside.exchange w.asked r query = .ok response →
    Response depth response w.nextId questions records → addressesOf qtype records = [] →
    (targetsOf records).getLast? = some (.ofText (chain.names j)) → j ≤ chain.last →
    Asked chain outside r qtype start (World.ask { w with nextId := w.nextId + 1 }) j

/-- The names can be asked for and are read back, and the addresses are of the type. -/
structure WellFormed (chain : AliasChain) (qtype : UInt16) : Prop where
  names : ∀ i ≤ chain.last, ∀ id, ∃ query stop, buildQuery id (chain.names i) qtype = .ok query ∧
    readName query 12 = .ok (chain.names i, stop)
  addresses : ∀ ip ∈ chain.addresses, addressKind ip = qtype

end AliasChain

end Hysteria.Spec
