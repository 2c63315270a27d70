import Leasehold.Recovery
import Leasehold.Proofs.RecordTimes
import Mathlib.Data.List.Forall2

/-!
# Proofs.StoreAgreement — two kinds of store, the same answers

A server calls its store without knowing which kind it has. A volatile store and a
durable one on a database that nobody has written to answer every sequence of calls
alike: only the part of a time below a millisecond does not come back from disk.

* `Request`, `Store.serve`, `Store.replies` — calls with their arguments, and what a
  store answers to one of them and to a sequence;
* `Mirrors` — how a durable store looks beside the volatile one that was called
  alike; `mirrors_empty` and `Mirrors.serve` are its beginning and its step;
* `stores_reply_alike` — all answers agree.
-/

namespace Leasehold.Recovery

/-- A call with its arguments. The clock reads only what the calendar has a date for. -/
inductive Request where
  | add (now : { t : WallTime // t.OnCalendar }) (owner : Bytes)
  | remove (owner : Bytes)
  | reclaim (owner : Bytes)
  | wants (owner : Bytes)
  | waits
  | giveUp
  | list
  | close

/-- What a call is answered with. -/
inductive Reply where
  | done
  | verdict (yes : Bool)
  | listing (records : List Record)
  deriving Repr, DecidableEq

namespace Store

/-- The answer to a call that writes; a refused one leaves the store as it was. -/
def written (s : Store) : Except RecoveryError Store → Except RecoveryError Reply × Store
  | .ok after => (.ok .done, after)
  | .error e => (.error e, s)

/-- The answer to a call, and the store afterwards. -/
def serve (s : Store) : Request → Except RecoveryError Reply × Store
  | .add now owner => s.written (s.addClient now.1 owner)
  | .remove owner => s.written (s.removeClient owner)
  | .reclaim owner => s.written (s.reclaimClient owner)
  | .wants owner => ((s.wantReclaim owner).map .verdict, s)
  | .waits => (s.waitingForReclaim.map .verdict, s)
  | .giveUp => s.written s.reclaimComplete
  | .list => (s.records.map .listing, s)
  | .close => (.ok .done, s.close)

/-- The answers to one call after the other. -/
def replies (s : Store) : List Request → List (Except RecoveryError Reply)
  | [] => []
  | r :: rest => (s.serve r).1 :: (s.serve r).2.replies rest

end Store

/-- The record as it comes back from disk. -/
def Record.wholeMillis (r : Record) : Record := { r with firstSeen := r.firstSeen.wholeMillis }

/-- A durable store says what a volatile one says; of the records it knows the milliseconds, and
the order in which they are listed does not count. -/
inductive Alike : Except RecoveryError Reply → Except RecoveryError Reply → Prop where
  | refused (e : RecoveryError) : Alike (.error e) (.error e)
  | done : Alike (.ok .done) (.ok .done)
  | verdict (yes : Bool) : Alike (.ok (.verdict yes)) (.ok (.verdict yes))
  | listing {memory disk : List Record} (h : (memory.map Record.wholeMillis).Perm disk) :
      Alike (.ok (.listing memory)) (.ok (.listing disk))

/-! ## Entries in memory and on disk -/

/-- An entry of a volatile store as a durable one writes it. -/
def onDisk (entry : Bytes × WallTime) : Bytes × Bytes := (entry.1, encodeTime entry.2)

/-- An entry is inserted on disk as it is in memory. -/
theorem insertPair_onDisk (owner : Bytes) (t : WallTime) (ps : List (Bytes × WallTime)) :
    Table.insertPair owner (encodeTime t) (ps.map onDisk) =
      (Table.insertPair owner t ps).map onDisk := by
  induction ps with
  | nil => rfl
  | cons p rest ih =>
    rw [List.map_cons]
    unfold Table.insertPair
    show (if p.1 = owner then _ else _) = _
    split
    · rfl
    · rw [ih]; rfl

/-- Nothing is in a table that was neither there nor inserted. -/
theorem mem_insertPair {owner : Bytes} {t : WallTime} {ps : List (Bytes × WallTime)}
    {p : Bytes × WallTime} (h : p ∈ Table.insertPair owner t ps) : p = (owner, t) ∨ p ∈ ps := by
  induction ps with
  | nil => exact .inl (List.mem_singleton.1 h)
  | cons q rest ih =>
    unfold Table.insertPair at h
    split at h
    · rcases List.mem_cons.1 h with rfl | hrest
      · exact .inl rfl
      · exact .inr (List.mem_cons_of_mem q hrest)
    · rcases List.mem_cons.1 h with rfl | hrest
      · exact .inr List.mem_cons_self
      · exact (ih hrest).imp_right (List.mem_cons_of_mem q)

/-- Both tables list their owners in the same order. -/
theorem sortedEntries_onDisk {table : Table Bytes Bytes} {ps : List (Bytes × WallTime)}
    (h : table.entries = ps.map onDisk) :
    sortedEntries table = (ps.mergeSort fun a b => ownerLe a.1 b.1).map onDisk := by
  unfold sortedEntries
  rw [h]
  exact (List.map_mergeSort (f := onDisk) (r := fun a b => ownerLe a.1 b.1)
    (s := fun a b => ownerLe a.1 b.1) fun _ _ _ _ => rfl).symm

theorem sortedEntries_empty : sortedEntries .empty = [] := List.mergeSort_nil

/-- Every entry that was written at a calendar reading is a record. -/
theorem records_onDisk (recovering : Bool) {ps : List (Bytes × WallTime)}
    (hdated : ∀ p ∈ ps, p.2.OnCalendar) :
    ((ps.map onDisk).mapM fun (owner, value) => do
        let firstSeen ← decodeTime owner value
        return (⟨owner, firstSeen, recovering⟩ : Record)) =
      Except.ok (ps.map fun p => ⟨p.1, p.2.wholeMillis, recovering⟩) := by
  induction ps with
  | nil => rfl
  | cons p rest ih =>
    have hhead : decodeTime p.1 (encodeTime p.2) = .ok p.2.wholeMillis :=
      decodeTime_encodeTime p.1 (hdated p List.mem_cons_self)
    have hrest := ih fun q hq => hdated q (List.mem_cons_of_mem p hq)
    rw [List.map_cons, List.mapM_cons, hrest]
    show ((decodeTime p.1 (encodeTime p.2)).bind _).bind _ = _
    rw [hhead]
    rfl

/-! ## The two stores beside each other -/

/-- A durable store that was called like a volatile one: the same owners with the same times, and
nobody who is to reclaim. -/
structure Mirrors (v : Volatile) (d : Durable) : Prop where
  closed : d.closed = v.closed
  current : d.database.current.entries = v.clients.entries.map onDisk
  recovering : d.database.recovering = .empty
  /-- Every time was read from the clock. -/
  dated : ∀ p ∈ v.clients.entries, p.2.OnCalendar

/-- An empty database has nothing to stage. -/
theorem mirrors_empty : Mirrors .empty (.openOn .empty) where
  closed := rfl
  current := rfl
  recovering := congrArg (List.foldl _ _) sortedEntries_empty
  dated := fun _ hmem => absurd hmem List.not_mem_nil

namespace Mirrors

variable {v : Volatile} {d : Durable}

/-- Both stores have the same owners. -/
theorem contains_eq (h : Mirrors v d) (owner : Bytes) :
    d.database.current.contains owner = v.clients.contains owner := by
  unfold Table.contains
  rw [h.current, List.any_map]
  rfl

/-- The time of an owner that is there already stays, in memory and on disk. -/
theorem add (h : Mirrors v d) {now : WallTime} (hnow : now.OnCalendar) (owner : Bytes) :
    Mirrors { v with clients := v.clients.insertNew owner now }
      { d with database.current := d.database.current.insertNew owner (encodeTime now) } := by
  unfold Table.insertNew
  -- both look for the owner first, and neither writes if it is there
  rw [h.contains_eq]
  split
  · exact h
  · exact
      { closed := h.closed
        current := by
          show Table.insertPair owner (encodeTime now) d.database.current.entries = _
          rw [h.current]
          exact insertPair_onDisk owner now v.clients.entries
        recovering := h.recovering
        dated := fun p hmem => by
          rcases mem_insertPair hmem with rfl | hold
          · exact hnow
          · exact h.dated p hold }

/-- A removal leaves both stores without the owner. -/
theorem remove (h : Mirrors v d) (owner : Bytes) :
    Mirrors { v with clients := v.clients.erase owner }
      { d with database.current := d.database.current.erase owner } where
  closed := h.closed
  current := by
    show d.database.current.entries.filter _ = (v.clients.entries.filter _).map onDisk
    rw [h.current, List.filter_map]
    rfl
  recovering := h.recovering
  dated := fun p hmem => h.dated p (List.mem_filter.1 hmem).1

/-- Nobody is to reclaim, and one owner less is nobody still. -/
theorem reclaim (h : Mirrors v d) (owner : Bytes) :
    Mirrors v { d with database.recovering := d.database.recovering.erase owner } where
  closed := h.closed
  current := h.current
  recovering := by rw [h.recovering]; rfl
  dated := h.dated

/-- Neither store waits for anybody, before or after. -/
theorem giveUp (h : Mirrors v d) : Mirrors v { d with database.recovering := .empty } where
  closed := h.closed
  current := h.current
  recovering := rfl
  dated := h.dated

/-- Both stores are closed. -/
theorem close (h : Mirrors v d) : Mirrors v.close d.close where
  closed := rfl
  current := h.current
  recovering := h.recovering
  dated := h.dated

/-- Both list the owners with their times. -/
theorem inspect_eq (h : Mirrors v d) :
    d.database.inspect = .ok (((v.clients.entries.map fun (owner, firstSeen) =>
      (⟨owner, firstSeen, false⟩ : Record)).mergeSort fun a b => ownerLe a.owner b.owner).map
        Record.wholeMillis) := by
  have hdated : ∀ p ∈ v.clients.entries.mergeSort fun a b => ownerLe a.1 b.1,
      p.2.OnCalendar := fun p hmem => h.dated p (List.mem_mergeSort.1 hmem)
  have hcurrent := records_onDisk false hdated
  rw [← sortedEntries_onDisk h.current] at hcurrent
  have hrecovering : tableRecords d.database.recovering true = .ok [] := by
    unfold tableRecords
    rw [h.recovering, sortedEntries_empty]
    rfl
  -- what is written of an entry keeps its owner, so sorting may come before or after
  have hsorted := List.map_mergeSort (r := fun a b => ownerLe a.1 b.1)
    (s := fun a b : Record => ownerLe a.owner b.owner)
    (f := fun p : Bytes × WallTime => (⟨p.1, p.2, false⟩ : Record)) (l := v.clients.entries)
    fun _ _ _ _ => rfl
  unfold Database.inspect
  rw [show tableRecords d.database.current false = _ from hcurrent, hrecovering]
  show Except.ok (_ ++ []) = _
  rw [List.append_nil, ← hsorted, List.map_map]
  rfl

/-! ## One call -/

/-- A call that writes is refused by both stores or done by both. -/
theorem written {v' : Volatile} {d' : Durable} (h : Mirrors v d) (hafter : Mirrors v' d') :
    Alike ((Store.volatile v).written ((v.whileOpen v').map .volatile)).1
      ((Store.durable d).written ((d.whileOpen d').map .durable)).1 ∧
    ∃ v'' d'', Mirrors v'' d'' ∧
      ((Store.volatile v).written ((v.whileOpen v').map .volatile)).2 = .volatile v'' ∧
      ((Store.durable d).written ((d.whileOpen d').map .durable)).2 = .durable d'' := by
  unfold Volatile.whileOpen Durable.whileOpen
  rw [h.closed]
  cases v.closed with
  | true => exact ⟨.refused .closed, v, d, h, rfl, rfl⟩
  | false => exact ⟨.done, v', d', hafter, rfl, rfl⟩

/-- Both stores answer a question in the same way. -/
theorem verdict (h : Mirrors v d) (yes : Bool) :
    Alike ((v.whileOpen yes).map .verdict) ((d.whileOpen yes).map .verdict) := by
  unfold Volatile.whileOpen Durable.whileOpen
  rw [h.closed]
  cases v.closed with
  | true => exact .refused .closed
  | false => exact .verdict yes

/-- Records are listed by owner, whichever store lists them. -/
theorem listing (h : Mirrors v d) : Alike (v.records.map .listing) (d.records.map .listing) := by
  unfold Volatile.records Volatile.whileOpen Durable.records
  rw [h.closed, h.inspect_eq]
  cases v.closed with
  | true => exact .refused .closed
  | false => exact .listing (.refl _)

/-- Each call is answered alike, and the stores stay beside each other. -/
theorem serve (h : Mirrors v d) (r : Request) :
    Alike ((Store.volatile v).serve r).1 ((Store.durable d).serve r).1 ∧
    ∃ v' d', Mirrors v' d' ∧ ((Store.volatile v).serve r).2 = .volatile v' ∧
      ((Store.durable d).serve r).2 = .durable d' := by
  cases r with
  | add now owner => exact h.written (h.add now.2 owner)
  | remove owner => exact h.written (h.remove owner)
  | reclaim owner => exact h.written (h.reclaim owner)
  -- nobody ever is to reclaim, which is what the volatile store says without looking
  | wants owner =>
    have hnobody : d.database.recovering.contains owner = false := by rw [h.recovering]; rfl
    refine ⟨?_, v, d, h, rfl, rfl⟩
    show Alike _ ((d.whileOpen (d.database.recovering.contains owner)).map .verdict)
    rw [hnobody]
    exact h.verdict false
  | waits =>
    have hnobody : (!d.database.recovering.isEmpty) = false := by rw [h.recovering]; rfl
    refine ⟨?_, v, d, h, rfl, rfl⟩
    show Alike _ ((d.whileOpen (!d.database.recovering.isEmpty)).map .verdict)
    rw [hnobody]
    exact h.verdict false
  | giveUp => exact h.written h.giveUp
  | list => exact ⟨h.listing, v, d, h, rfl, rfl⟩
  | close => exact ⟨.done, v.close, d.close, h.close, rfl, rfl⟩

/-! ## All calls -/

/-- Stores that stand beside each other answer every sequence of calls alike. -/
theorem replies (requests : List Request) (h : Mirrors v d) :
    List.Forall₂ Alike ((Store.volatile v).replies requests)
      ((Store.durable d).replies requests) := by
  -- on the calls: after each of them the two stores stand beside each other again
  induction requests generalizing v d with
  | nil => exact .nil
  | cons r rest ih =>
    obtain ⟨halike, v', d', hafter, hvolatile, hdurable⟩ := h.serve r
    unfold Store.replies
    rw [hvolatile, hdurable]
    exact .cons halike (ih hafter)

end Mirrors

/-- A volatile store and a durable one on an empty database answer every sequence of calls alike:
the same refusals and verdicts, and the same records, on disk to the millisecond. -/
theorem stores_reply_alike (requests : List Request) :
    List.Forall₂ Alike ((Store.volatile .empty).replies requests)
      ((Store.durable (.openOn .empty)).replies requests) :=
  mirrors_empty.replies requests

end Leasehold.Recovery
