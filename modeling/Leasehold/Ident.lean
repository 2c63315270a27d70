import Leasehold.Text.Hex

/-!
# Ident — the identifiers that a server hands out

Every identifier carries its client, so that a request finds the client's record
without an index of all states and sessions:

    client id   (8 bytes)   boot second (4) | instance (1) | counter (3)
    state id   (12 bytes)   client id (8) | counter (3) | kind (1), and a sequence number
    session id (16 bytes)   client id (8) | zero (4) | counter (4)

Fields are words and counters wrap; each layout is given as arithmetic on
numbers below the width of the word.
-/

namespace Leasehold

/-! ## Clients -/

/-- The identifier of a client. -/
structure ClientId where
  value : UInt64
  deriving Repr, DecidableEq, Inhabited

namespace ClientId

/-- Lays out the boot second, the instance and the low 24 bits of a counter. -/
def ofParts (bootSeconds : UInt32) (instanceId : UInt8) (counter : UInt32) : ClientId :=
  ⟨UInt64.ofNat (bootSeconds.toNat * 0x1_0000_0000 + instanceId.toNat * 0x100_0000
    + counter.toNat % 0x100_0000)⟩

/-- The second at which the issuing server started. -/
def bootSeconds (id : ClientId) : UInt32 := UInt32.ofNat (id.value.toNat / 0x1_0000_0000)

/-- The instance that issued the identifier. -/
def instanceId (id : ClientId) : UInt8 := UInt8.ofNat (id.value.toNat / 0x100_0000 % 0x100)

/-- Sixteen hexadecimal digits. -/
def toText (id : ClientId) : String := Text.Hex.padded 16 id.value.toNat

/-- The identifier that hexadecimal digits write; leading zeros may be left out. -/
def ofText? (text : String) : Option ClientId :=
  if text.length ≤ 16 then (Text.Hex.toNat? text.toList).map fun n => ⟨.ofNat n⟩ else none

end ClientId

/-- The source of client identifiers of one server instance. -/
structure ClientIds where
  bootSeconds : UInt32
  instanceId : UInt8
  /-- How many identifiers were issued, modulo 2^32. -/
  issued : UInt32 := 0
  deriving Repr, DecidableEq, Inhabited

namespace ClientIds

/-- The next identifier, and the source after it. The first one has counter 1. -/
def next (g : ClientIds) : ClientId × ClientIds :=
  let g := { g with issued := g.issued + 1 }
  (ClientId.ofParts g.bootSeconds g.instanceId g.issued, g)

/-- The next identifiers, so many. -/
def take : Nat → ClientIds → List ClientId
  | 0, _ => []
  | n + 1, g => g.next.1 :: take n g.next.2

/-- Whether an identifier bears this instance's marks. -/
def hasIssued (g : ClientIds) (id : ClientId) : Bool :=
  id.bootSeconds == g.bootSeconds && id.instanceId == g.instanceId

end ClientIds

/-! ## States -/

/-- What kind of state an identifier names. -/
inductive StateKind where
  | share | byteLock | layout | delegation | copy
  deriving Repr, DecidableEq, Inhabited

namespace StateKind

/-- The octet that stands for a kind. -/
def tag : StateKind → UInt8
  | share => 1
  | byteLock => 2
  | layout => 3
  | delegation => 4
  | copy => 5

/-- The kind that an octet stands for. -/
def ofTag? (tag : UInt8) : Option StateKind :=
  if tag = 1 then some share
  else if tag = 2 then some byteLock
  else if tag = 3 then some layout
  else if tag = 4 then some delegation
  else if tag = 5 then some copy
  else none

/-- The name of a kind. -/
def name : StateKind → String
  | share => "Open"
  | byteLock => "Lock"
  | layout => "Layout"
  | delegation => "Delegation"
  | copy => "ServerSideCopy"

/-- Every kind. -/
def all : List StateKind := [share, byteLock, layout, delegation, copy]

/-- The kind of a name. -/
def ofName? (text : String) : Option StateKind := all.find? (·.name == text)

@[simp] theorem ofTag?_tag (kind : StateKind) : ofTag? kind.tag = some kind := by
  cases kind <;> rfl

end StateKind

/-- The twelve octets by which a state is known: the client's eight, then a counter in three
and the kind in one. -/
structure StateKey where
  client : ClientId
  /-- The last four octets as one word. -/
  tail : UInt32
  deriving Repr, DecidableEq, Inhabited

namespace StateKey

/-- Lays out a client, the low 24 bits of a counter, and a kind. -/
def ofParts (client : ClientId) (counter : UInt32) (kind : StateKind) : StateKey :=
  ⟨client, UInt32.ofNat (counter.toNat % 0x100_0000 * 0x100 + kind.tag.toNat)⟩

/-- The kind, if the last octet stands for one. -/
def kind? (key : StateKey) : Option StateKind :=
  StateKind.ofTag? (UInt8.ofNat (key.tail.toNat % 0x100))

/-- Twenty-four hexadecimal digits. -/
def toText (key : StateKey) : String :=
  key.client.toText ++ Text.Hex.padded 8 key.tail.toNat

/-- The key that twenty-four hexadecimal digits write. -/
def ofText? (text : String) : Option StateKey :=
  match Text.Hex.groups? [16, 8] text.toList with
  | some [client, tail] => some ⟨⟨.ofNat client⟩, .ofNat tail⟩
  | _ => none

/-- The order of the octets. -/
def le (a b : StateKey) : Bool :=
  if a.client = b.client then a.tail ≤ b.tail else a.client.value ≤ b.client.value

end StateKey

/-- The identifier of a state: its key and how often the state has changed. -/
structure StateId where
  key : StateKey
  seqid : UInt32
  deriving Repr, DecidableEq, Inhabited

/-- How the sequence number of a presented identifier stands to the current one. -/
inductive Standing where
  | current | unissued | superseded
  deriving Repr, DecidableEq

namespace StateId

/-- The identifier of a fresh state. -/
def ofParts (client : ClientId) (counter : UInt32) (kind : StateKind) : StateId :=
  ⟨.ofParts client counter kind, 0⟩

/-- The identifier after one more change. Zero is kept for "the latest", so the number after the
largest is one. -/
def bump (id : StateId) : StateId :=
  { id with seqid := if id.seqid + 1 = 0 then 1 else id.seqid + 1 }

/-- Zero stands for the latest; a larger number was never issued, a smaller one is superseded. -/
def standing (current given : StateId) : Standing :=
  if given.seqid = 0 then .current
  else if current.seqid < given.seqid then .unissued
  else if given.seqid < current.seqid then .superseded
  else .current

/-- The key and the sequence number in brackets. -/
def toText (id : StateId) : String :=
  "[" ++ id.key.toText ++ ", seq: " ++ toString id.seqid.toNat ++ "]"

end StateId

/-! ## Sessions and verifiers -/

/-- The identifier of a session. -/
structure SessionId where
  client : ClientId
  /-- Four octets that are zero in every identifier a server makes. -/
  filler : UInt32
  counter : UInt32
  deriving Repr, DecidableEq, Inhabited

namespace SessionId

/-- Lays out a client and a counter. -/
def ofParts (client : ClientId) (counter : UInt32) : SessionId := ⟨client, 0, counter⟩

/-- Thirty-two hexadecimal digits. -/
def toText (id : SessionId) : String :=
  id.client.toText ++ Text.Hex.padded 8 id.filler.toNat ++ Text.Hex.padded 8 id.counter.toNat

/-- The identifier that thirty-two hexadecimal digits write. -/
def ofText? (text : String) : Option SessionId :=
  match Text.Hex.groups? [16, 8, 8] text.toList with
  | some [client, filler, counter] => some ⟨⟨.ofNat client⟩, .ofNat filler, .ofNat counter⟩
  | _ => none

end SessionId

/-- Eight octets that only their sender understands. -/
structure Verifier where
  value : UInt64
  deriving Repr, DecidableEq, Inhabited

/-- Sixteen hexadecimal digits. -/
def Verifier.toText (v : Verifier) : String := Text.Hex.padded 16 v.value.toNat

/-- The verifier that sixteen hexadecimal digits write. -/
def Verifier.ofText? (text : String) : Option Verifier :=
  match Text.Hex.groups? [16] text.toList with
  | some [value] => some ⟨.ofNat value⟩
  | _ => none

/-! ## Files -/

/-- The lasting identity of a file in the backing store. -/
structure FileId where
  bytes : Bytes
  deriving Repr, DecidableEq, Inhabited

def FileId.toText (file : FileId) : String := Text.Hex.encode file.bytes

/-- The identity that pairs of hexadecimal digits write. -/
def FileId.ofText? (text : String) : Option FileId := (Text.Hex.decode? text).map (⟨·⟩)

end Leasehold
