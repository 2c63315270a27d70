import Leasehold.Recovery

/-!
# Proofs.RecoveryTables — which owners a store holds

Who counts as a client of this server, and who is still to reclaim, depends on
which owners the two tables of a store hold and not on the times beside them.
`Store.tables` forgets the times; a volatile store has nobody to reclaim.

* `Database.get?_stage` — what stands under an owner once a database was opened;
* `map_tables_addClient` and its like — every call acts on the tables as its name
  says while the store is open, and is refused once it is closed;
* `waitingForReclaim_iff` — the store waits as long as somebody is to reclaim;
* `tables_reopen` — what the next server finds.
-/

namespace Leasehold.Recovery

/-- The owners in the two tables of a store, and whether it was closed. -/
@[ext] structure Tables where
  current : Bytes → Bool
  recovering : Bytes → Bool
  closed : Bool
  /-- The records outlive the server. -/
  lasting : Bool

namespace Tables

variable {α : Type}

/-- Answers only while the store is open. -/
def whileOpen (t : Tables) (answer : α) : Except RecoveryError α :=
  if t.closed then .error .closed else .ok answer

def add (t : Tables) (owner : Bytes) : Tables :=
  { t with current := fun o => decide (owner = o) || t.current o }

def remove (t : Tables) (owner : Bytes) : Tables :=
  { t with current := fun o => !decide (owner = o) && t.current o }

def reclaim (t : Tables) (owner : Bytes) : Tables :=
  { t with recovering := fun o => !decide (owner = o) && t.recovering o }

/-- Nobody is waited for any more. -/
def giveUp (t : Tables) : Tables := { t with recovering := fun _ => false }

def close (t : Tables) : Tables := { t with closed := true }

/-- An owner is in one of the tables. -/
def knows (t : Tables) (owner : Bytes) : Bool := t.current owner || t.recovering owner

/-- The tables that the next server finds, if they last: all owners are to reclaim. -/
def stage (t : Tables) : Tables := ⟨fun _ => false, t.knows, false, t.lasting⟩

/-- A store that was closed answers nothing. -/
theorem whileOpen_eq_ok_iff {t : Tables} {answer a : α} :
    t.whileOpen answer = .ok a ↔ t.closed = false ∧ answer = a := by
  unfold whileOpen
  cases t.closed with
  | true => simp
  | false => simp

end Tables

/-! ## Staging -/

/-- The entries of a table are listed without loss. -/
theorem mem_sortedEntries_iff {table : Table Bytes Bytes} {owner value : Bytes} :
    (owner, value) ∈ sortedEntries table ↔ table.get? owner = some value :=
  List.mem_mergeSort.trans ⟨table.get?_of_mem_entries, Table.mem_entries_of_get?⟩

/-- No owner stands in a table twice. -/
theorem pairwise_ne_sortedEntries (table : Table Bytes Bytes) :
    (sortedEntries table).Pairwise (·.1 ≠ ·.1) :=
  List.pairwise_map.1 (((List.mergeSort_perm _ _).map Prod.fst).nodup_iff.2 table.nodup)

/-- What is inserted under other owners makes no difference to an owner. -/
theorem get?_foldl_insert_of_forall_ne {ps : List (Bytes × Bytes)} (t : Table Bytes Bytes)
    {owner : Bytes} (h : ∀ p ∈ ps, p.1 ≠ owner) :
    (ps.foldl (fun t (owner, value) => t.insert owner value) t).get? owner = t.get? owner := by
  induction ps generalizing t with
  | nil => rfl
  | cons p rest ih =>
    rw [List.foldl_cons, ih _ fun q hq => h q (List.mem_cons_of_mem p hq), Table.get?_insert,
      if_neg (h p List.mem_cons_self)]

/-- What is inserted under owners of its own can be found there. -/
theorem get?_foldl_insert {ps : List (Bytes × Bytes)} (hdistinct : ps.Pairwise (·.1 ≠ ·.1))
    (t : Table Bytes Bytes) {owner value : Bytes} (h : (owner, value) ∈ ps) :
    (ps.foldl (fun t (owner, value) => t.insert owner value) t).get? owner = some value := by
  -- on the entries that are still to be inserted; the first one is overwritten by none of them
  induction ps generalizing t with
  | nil => cases h
  | cons p rest ih =>
    obtain ⟨hhead, hrest⟩ := List.pairwise_cons.1 hdistinct
    rcases List.mem_cons.1 h with rfl | hmem
    · rw [List.foldl_cons, get?_foldl_insert_of_forall_ne _ fun q hq => (hhead q hq).symm,
        Table.get?_insert, if_pos rfl]
    · exact ih hrest _ hmem

/-- A staged owner has its newer time, if it has two. -/
theorem Database.get?_stage (db : Database) (owner : Bytes) :
    db.stage.recovering.get? owner = (db.current.get? owner).or (db.recovering.get? owner) := by
  cases hcurrent : db.current.get? owner with
  | none =>
    refine get?_foldl_insert_of_forall_ne _ fun p hp hsame => ?_
    rw [← hsame, mem_sortedEntries_iff.1 hp] at hcurrent
    cases hcurrent
  | some value =>
    exact get?_foldl_insert (pairwise_ne_sortedEntries db.current) _
      (mem_sortedEntries_iff.2 hcurrent)

namespace Store

/-- The owners that a store holds. -/
def tables : Store → Tables
  | volatile v => ⟨v.clients.contains, fun _ => false, v.closed, false⟩
  | durable d => ⟨d.database.current.contains, d.database.recovering.contains, d.closed, true⟩

/-! ## Calls that change the tables -/

/-- An answered call was made on an open store, and leaves the tables that its equation says. -/
theorem tables_of_ok {call : Except RecoveryError Store} {s' : Store} {t t' : Tables}
    (h : call.map tables = t.whileOpen t') (hcall : call = .ok s') :
    t.closed = false ∧ s'.tables = t' := by
  rw [hcall] at h
  have hanswer := Tables.whileOpen_eq_ok_iff.1 h.symm
  exact ⟨hanswer.1, hanswer.2.symm⟩

/-- An open store answers every call. -/
theorem exists_ok {call : Except RecoveryError Store} {t t' : Tables}
    (h : call.map tables = t.whileOpen t') (hopen : t.closed = false) :
    ∃ s', call = .ok s' ∧ s'.tables = t' := by
  rw [Tables.whileOpen_eq_ok_iff.2 ⟨hopen, rfl⟩] at h
  cases call with
  | error e => cases h
  | ok s' => exact ⟨s', rfl, Except.ok.inj h⟩

/-- A volatile store answers as its tables do. -/
theorem map_tables_volatile {v after : Volatile} {t : Tables} (h : (volatile after).tables = t) :
    ((v.whileOpen after).map volatile).map tables = (volatile v).tables.whileOpen t := by
  unfold Volatile.whileOpen Tables.whileOpen
  show _ = if v.closed then _ else _
  split
  · rfl
  · exact congrArg Except.ok h

/-- A durable store that is open carries a call out on its tables. -/
theorem map_tables_durable {d after : Durable} {t : Tables} (h : (durable after).tables = t) :
    ((d.whileOpen after).map durable).map tables = (durable d).tables.whileOpen t := by
  unfold Durable.whileOpen Tables.whileOpen
  show _ = if d.closed then _ else _
  split
  · rfl
  · exact congrArg Except.ok h

variable (s : Store)

/-- To add an owner is one step of the tables, whichever store holds them. -/
theorem map_tables_addClient (now : WallTime) (owner : Bytes) :
    (s.addClient now owner).map tables = s.tables.whileOpen (s.tables.add owner) := by
  cases s with
  | volatile v =>
    apply map_tables_volatile
    exact Tables.ext (funext (Table.contains_insertNew _ _ _)) rfl rfl rfl
  | durable d =>
    apply map_tables_durable
    exact Tables.ext (funext (Table.contains_insertNew _ _ _)) rfl rfl rfl

theorem map_tables_removeClient (owner : Bytes) :
    (s.removeClient owner).map tables = s.tables.whileOpen (s.tables.remove owner) := by
  cases s with
  | volatile v =>
    apply map_tables_volatile
    exact Tables.ext (funext (Table.contains_erase _ _)) rfl rfl rfl
  | durable d =>
    apply map_tables_durable
    exact Tables.ext (funext (Table.contains_erase _ _)) rfl rfl rfl

theorem map_tables_reclaimClient (owner : Bytes) :
    (s.reclaimClient owner).map tables = s.tables.whileOpen (s.tables.reclaim owner) := by
  cases s with
  | volatile v =>
    apply map_tables_volatile
    -- nobody is to reclaim, and one owner less is nobody still
    exact Tables.ext rfl (funext fun o => (Bool.and_false _).symm) rfl rfl
  | durable d =>
    apply map_tables_durable
    exact Tables.ext rfl (funext (Table.contains_erase _ _)) rfl rfl

theorem map_tables_reclaimComplete :
    s.reclaimComplete.map tables = s.tables.whileOpen s.tables.giveUp := by
  cases s with
  | volatile v => exact map_tables_volatile rfl
  | durable d => exact map_tables_durable rfl

theorem tables_close : s.close.tables = s.tables.close := by
  cases s <;> rfl

/-! ## Questions -/

/-- An owner is to reclaim if he is in the table of those. -/
theorem wantReclaim_eq (owner : Bytes) :
    s.wantReclaim owner = s.tables.whileOpen (s.tables.recovering owner) := by
  cases s <;> rfl

/-- The store waits as long as somebody is to reclaim. -/
theorem waitingForReclaim_iff :
    ∃ waits, s.waitingForReclaim = s.tables.whileOpen waits ∧
      (waits = true ↔ ∃ owner, s.tables.recovering owner = true) := by
  cases s with
  | volatile v => exact ⟨false, rfl, by simp [tables]⟩
  | durable d =>
    refine ⟨!d.database.recovering.isEmpty, rfl, ?_⟩
    rw [Bool.not_eq_true']
    exact Table.isEmpty_eq_false_iff

/-! ## Opening again -/

/-- A durable store stages its owners for reclaim, whether it was closed or not. -/
theorem tables_reopen (h : s.tables.lasting = true) : s.reopen.tables = s.tables.stage := by
  cases s with
  | volatile v => cases h
  | durable d =>
    have hstaged (owner : Bytes) : d.database.stage.recovering.contains owner =
        (d.database.current.contains owner || d.database.recovering.contains owner) := by
      rw [Bool.eq_iff_iff, Bool.or_eq_true, Table.contains_iff, Table.contains_iff,
        Table.contains_iff, d.database.get?_stage]
      cases d.database.current.get? owner <;> simp
    exact Tables.ext rfl (funext hstaged) rfl rfl

/-- A store that has just been opened lists no client of this server. -/
theorem current_reopen (owner : Bytes) : s.reopen.tables.current owner = false := by
  cases s <;> rfl

theorem closed_reopen : s.reopen.tables.closed = false := by
  cases s <;> rfl

end Store

end Leasehold.Recovery
