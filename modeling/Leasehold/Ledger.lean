/-!
# Ledger — records that keep their serial number

A server hands out clients, owners, states and sessions that outlive their place
in any lookup table: a client that was replaced still answers for its lease, a
released session can still be asked what it is bound to. Each kind of record is
written into a ledger once, under the next serial number, and from then on is
only amended. A number that was never handed out reads as the blank record.
-/

namespace Leasehold

/-- The kinds of record that a server numbers. -/
inductive RecordKind where
  | client | owner | state | session
  deriving Repr, DecidableEq

/-- The serial number of a record of one kind. -/
structure Serial (kind : RecordKind) where
  value : Nat
  deriving Repr, DecidableEq, Inhabited

abbrev ClientNo := Serial .client
abbrev OwnerNo := Serial .owner
abbrev StateNo := Serial .state
abbrev SessionNo := Serial .session

/-- The records of one kind, in the order in which they were made. -/
structure Ledger (kind : RecordKind) (α : Type) where
  records : Array α
  deriving Repr, Inhabited

namespace Ledger

variable {kind : RecordKind} {α : Type}

/-- The ledger with no record. -/
def empty : Ledger kind α := ⟨#[]⟩

/-- How many records were made. -/
def size (l : Ledger kind α) : Nat := l.records.size

/-- The number that the next record will have. -/
def nextNo (l : Ledger kind α) : Serial kind := ⟨l.records.size⟩

/-- The record with a number. -/
def get [Inhabited α] (l : Ledger kind α) (no : Serial kind) : α :=
  (l.records[no.value]?).getD default

/-- Writes a new record, under `nextNo`. -/
def add (l : Ledger kind α) (record : α) : Ledger kind α := ⟨l.records.push record⟩

/-- Amends the record with a number. -/
def modify (l : Ledger kind α) (no : Serial kind) (f : α → α) : Ledger kind α :=
  ⟨l.records.modify no.value f⟩

@[simp] theorem size_add (l : Ledger kind α) (record : α) : (l.add record).size = l.size + 1 := by
  simp [size, add]

@[simp] theorem size_modify (l : Ledger kind α) (no : Serial kind) (f : α → α) :
    (l.modify no f).size = l.size := by
  simp [size, modify]

theorem get_add [Inhabited α] (l : Ledger kind α) (record : α) (no : Serial kind) :
    (l.add record).get no = if no = l.nextNo then record else l.get no := by
  obtain ⟨n⟩ := no
  simp only [get, add, nextNo, Array.getElem?_push, Serial.mk.injEq]
  split <;> simp_all

theorem get_modify [Inhabited α] (l : Ledger kind α) (no : Serial kind) (f : α → α)
    (other : Serial kind) :
    (l.modify no f).get other =
      if other = no ∧ no.value < l.size then f (l.get other) else l.get other := by
  obtain ⟨n⟩ := no
  obtain ⟨m⟩ := other
  simp only [get, modify, size, Array.getElem?_modify, Serial.mk.injEq]
  by_cases h : n = m
  · subst h
    by_cases hn : n < l.records.size
    · simp [hn]
    · simp [hn]
  · have h' : ¬ m = n := fun e => h e.symm
    simp [h, h']

end Ledger

end Leasehold
