import Leasehold.Proofs.RecoveryTables
import Leasehold.Proofs.StoreAgreement
import Leasehold.Recovery.Site
import Mathlib.Data.Set.List

/-!
# Proofs.StoreHistory — what a database remembers

A durable store is two maps from owners to times. Stores come and go over one disk, are
closed or dropped in the middle, and the records that the next one lists are decided by
what was done before, down to the millisecond.

* `Site.Act`, `Site.perform` — what is done at a site, and what comes of it;
* `Story` — what changed the records so far, `firstAdd` and `awaited` — the time of an
  owner in either map, read off that;
* `Writes` — a table on disk that holds a map, and one lemma for each change of it;
  `Writes.listed` lists the map from the table;
* `Keeps` — a disk beside its story; `keeps_fresh` and `Keeps.perform` are its
  beginning and its step;
* `records_tell_story` — the records of every store that was ever opened.
-/

namespace Leasehold.Recovery

/-! ## What is done at a site -/

/-- A call of the store that is open, or something that is done around it. -/
inductive Site.Act where
  | call (request : Request)
  | drop
  | openStore
  | inspect
  | purge

/-- What comes of it. -/
inductive Site.Outcome where
  /-- There was no store to call. -/
  | noStore
  | done
  | reply (answer : Except RecoveryError Reply)
  | listing (records : Except RecoveryError (List Record))
  | purged (count : Nat)

namespace Site

/-- A disk that nobody has written to. -/
def fresh : Site := ⟨true, .empty, none⟩

/-- What an act comes to, and the site afterwards. Whoever looks at the disk or purges it lets go of
the store first. -/
def perform (site : Site) : Act → Outcome × Site
  | .call request =>
    match site.store with
    | none => (.noStore, site)
    | some store => (.reply (store.serve request).1, site.keep (store.serve request).2)
  | .drop => (.done, site.drop)
  | .openStore => (.done, site.openStore)
  | .inspect => (.listing site.drop.disk.inspect, site.drop)
  | .purge => (.purged site.drop.disk.size, site.drop.purge)

/-- The site after one act after the other. -/
def performAll (site : Site) (acts : List Act) : Site :=
  acts.foldl (fun site act => (site.perform act).2) site

end Site

/-! ## The story of a site -/

/-- A time that the clock can read. -/
abbrev Reading := { t : WallTime // t.OnCalendar }

/-- A change of the records. -/
inductive Event where
  | added (now : Reading) (owner : Bytes)
  | removed (owner : Bytes)
  | reclaimed (owner : Bytes)
  | gaveUp
  | opened
  | purged

/-- Whether there is a store, and whether it was closed. -/
inductive Standing where
  | vacant | opened | closed

namespace Standing

def next : Standing → Site.Act → Standing
  | opened, .call .close => closed
  | standing, .call _ => standing
  | _, .openStore => opened
  | _, .drop | _, .inspect | _, .purge => vacant

/-- The change that an act makes; a closed store makes none. -/
def event? : Standing → Site.Act → Option Event
  | opened, .call (.add now owner) => some (.added now owner)
  | opened, .call (.remove owner) => some (.removed owner)
  | opened, .call (.reclaim owner) => some (.reclaimed owner)
  | opened, .call .giveUp => some .gaveUp
  | _, .openStore => some .opened
  | _, .purge => some .purged
  | _, _ => none

/-- The site with a disk. -/
def siteOn : Standing → Database → Site
  | vacant, disk => ⟨true, disk, none⟩
  | opened, disk => ⟨true, disk, some (.durable ⟨disk, false⟩)⟩
  | closed, disk => ⟨true, disk, some (.durable ⟨disk, true⟩)⟩

/-- What the store says when it is asked for its records. -/
def answer : Standing → List Record → Option (Except RecoveryError (List Record))
  | vacant, _ => none
  | opened, records => some (.ok records)
  | closed, _ => some (.error .closed)

end Standing

/-- The changes so far, the latest first, and how the store stands. -/
structure Story where
  standing : Standing
  events : List Event

namespace Story

def next (story : Story) (act : Site.Act) : Story :=
  ⟨story.standing.next act, (story.standing.event? act).toList ++ story.events⟩

/-- The story of a disk that nobody has written to. -/
def fresh : Story := ⟨.vacant, []⟩

/-- The story of acts from then on. -/
def ofActs (acts : List Site.Act) : Story := acts.foldl next fresh

end Story

/-! ## The two maps -/

namespace Event

/-- The owner is no longer current. -/
def clears (owner : Bytes) : Event → Bool
  | removed o => o = owner
  | opened | purged => true
  | _ => false

/-- The time of an add of the owner. -/
def addTime? (owner : Bytes) : Event → Option Reading
  | added now o => if o = owner then some now else none
  | _ => none

end Event

/-- When a current owner was added: first, since it was last removed or the store was last
opened. -/
def firstAdd (events : List Event) (owner : Bytes) : Option Reading :=
  (events.takeWhile (!·.clears owner)).reverse.findSome? (·.addTime? owner)

/-- When an owner that is to reclaim was added. Opening stages the current owners, each in the place
of an older record of it; only reclaiming, giving up and a purge take one away. -/
def awaited : List Event → Bytes → Option Reading
  | [], _ => none
  | .opened :: earlier, owner => (firstAdd earlier owner).or (awaited earlier owner)
  | .reclaimed o :: earlier, owner => if o = owner then none else awaited earlier owner
  | .gaveUp :: _, _ | .purged :: _, _ => none
  | _ :: earlier, owner => awaited earlier owner

/-- The first add since the last removal is one that was there already, or the latest event. -/
theorem firstAdd_cons (e : Event) (earlier : List Event) (owner : Bytes) :
    firstAdd (e :: earlier) owner =
      if e.clears owner then none else (firstAdd earlier owner).or (e.addTime? owner) := by
  unfold firstAdd
  rw [List.takeWhile_cons]
  cases e.clears owner with
  | true => rfl
  | false =>
    show (e :: _).reverse.findSome? _ = _
    rw [List.reverse_cons, List.findSome?_append, List.findSome?_singleton]
    rfl

/-! ## The order of owners -/

/-- Owners are listed in the order of their octets. -/
theorem ownerLe_iff {a b : Bytes} : ownerLe a b = true ↔ a ≤ b := by
  induction a generalizing b with
  | nil => exact ⟨fun _ => List.nil_le b, fun _ => rfl⟩
  | cons x xs ih =>
    cases b with
    | nil => exact ⟨nofun, fun h => absurd (List.nil_lt_cons x xs) h⟩
    | cons y ys =>
      rw [List.cons_le_cons_iff]
      unfold ownerLe
      split
      · rename_i hxy
        rw [ih]
        exact ⟨fun h => .inr ⟨hxy, h⟩, fun h => (h.resolve_left (hxy ▸ UInt8.lt_irrefl y)).2⟩
      · rename_i hxy
        rw [decide_eq_true_iff]
        exact ⟨.inl, fun h => h.resolve_right fun h => hxy h.1⟩

/-- The entries of a table stand by owner, and no owner stands there twice. -/
theorem pairwise_sortedEntries (table : Table Bytes Bytes) :
    (sortedEntries table).Pairwise (·.1 < ·.1) := by
  have htrans (a b c : Bytes × Bytes) (hab : ownerLe a.1 b.1) (hbc : ownerLe b.1 c.1) :
      ownerLe a.1 c.1 :=
    ownerLe_iff.2 (List.le_trans (ownerLe_iff.1 hab) (ownerLe_iff.1 hbc))
  have htotal (a b : Bytes × Bytes) : ownerLe a.1 b.1 || ownerLe b.1 a.1 := by
    rw [Bool.or_eq_true, ownerLe_iff, ownerLe_iff]
    exact List.le_total a.1 b.1
  have hsorted := List.pairwise_mergeSort htrans htotal table.entries
  refine (hsorted.and (pairwise_ne_sortedEntries table)).imp fun ⟨hle, hne⟩ => ?_
  exact Std.lt_of_le_of_ne (ownerLe_iff.1 hle) hne

/-! ## Maps on disk -/

/-- A table on disk holds the octets of every time in a map, and nothing else. -/
def Writes (table : Table Bytes Bytes) (times : Bytes → Option Reading) : Prop :=
  ∀ owner, table.get? owner = (times owner).map fun t => encodeTime t.1

/-- The records of a map: by owner, each with the millisecond of its time. -/
structure Lists (times : Bytes → Option Reading) (recovering : Bool) (records : List Record) :
    Prop where
  ordered : records.Pairwise (·.owner < ·.owner)
  mem_iff : ∀ r, r ∈ records ↔
    ∃ t, times r.owner = some t ∧ r = ⟨r.owner, t.1.wholeMillis, recovering⟩

/-- The octets of a time tell its millisecond. -/
theorem wholeMillis_eq_of_encodeTime_eq {t u : Reading} (h : encodeTime t.1 = encodeTime u.1) :
    t.1.wholeMillis = u.1.wholeMillis := by
  have ht := decodeTime_encodeTime [] t.2
  rw [h, decodeTime_encodeTime [] u.2] at ht
  exact (Except.ok.inj ht).symm

/-- An owner with its time, as it is written on disk. -/
def entryOf (p : Bytes × Reading) : Bytes × Bytes := onDisk (p.1, p.2.1)

/-- The record of an owner with its time. -/
def recordOf (recovering : Bool) (p : Bytes × Reading) : Record :=
  ⟨p.1, p.2.1.wholeMillis, recovering⟩

/-- Every reading of the clock comes back from disk, so no record is corrupted. -/
theorem tableRecords_eq {table : Table Bytes Bytes} {ps : List (Bytes × Reading)}
    (hps : ps.map entryOf = sortedEntries table) (recovering : Bool) :
    tableRecords table recovering = .ok (ps.map (recordOf recovering)) := by
  have hdated : ∀ p ∈ ps.map fun p => (p.1, p.2.1), p.2.OnCalendar := by
    intro p hp
    obtain ⟨q, _, rfl⟩ := List.mem_map.1 hp
    exact q.2.2
  have hread := records_onDisk recovering hdated
  rw [List.map_map, List.map_map] at hread
  unfold tableRecords
  rw [← hps]
  exact hread

namespace Writes

variable {table : Table Bytes Bytes} {times olderTimes : Bytes → Option Reading}

/-- A table writes what it is seen to write. -/
theorem congr (h : Writes table times) {times' : Bytes → Option Reading}
    (htimes : ∀ owner, times' owner = times owner) : Writes table times' :=
  fun owner => (h owner).trans (by rw [htimes])

theorem empty : Writes .empty fun _ => none := fun _ => rfl

/-- An owner that is there keeps its time. -/
theorem insertNew (h : Writes table times) (now : Reading) (owner : Bytes) :
    Writes (table.insertNew owner (encodeTime now.1)) fun o =>
      (times o).or (if owner = o then some now else none) := by
  intro o
  rw [Table.get?_insertNew, h o, Option.map_or]
  split <;> rfl

/-- An entry that is erased is written no more. -/
theorem erase (h : Writes table times) (owner : Bytes) :
    Writes (table.erase owner) fun o => if owner = o then none else times o := by
  intro o
  rw [Table.get?_erase, h o]
  show _ = Option.map _ (if owner = o then none else times o)
  split <;> rfl

/-- Current owners take the place of older records when a store is opened. -/
theorem stage {db : Database} (hcurrent : Writes db.current times)
    (hrecovering : Writes db.recovering olderTimes) :
    Writes db.stage.recovering fun o => (times o).or (olderTimes o) := by
  intro o
  rw [db.get?_stage, hcurrent o, hrecovering o]
  exact Option.map_or.symm

/-- What is on disk was written at readings of the clock. -/
theorem exists_readings (h : Writes table times) :
    ∃ ps : List (Bytes × Reading), ps.map entryOf = sortedEntries table := by
  -- entry by entry, each being the octets of some reading
  rw [← Set.mem_range, Set.range_list_map]
  rintro ⟨owner, value⟩ hmem
  have hget := mem_sortedEntries_iff.1 hmem
  rw [h owner, Option.map_eq_some_iff] at hget
  obtain ⟨t, _, rfl⟩ := hget
  exact ⟨(owner, t), rfl⟩

/-- The readings are those of the map, though the disk knows only their milliseconds. -/
theorem exists_time (h : Writes table times) {ps : List (Bytes × Reading)}
    (hps : ps.map entryOf = sortedEntries table) {p : Bytes × Reading} (hp : p ∈ ps) :
    ∃ t, times p.1 = some t ∧ t.1.wholeMillis = p.2.1.wholeMillis := by
  have hmem : entryOf p ∈ sortedEntries table := hps ▸ List.mem_map_of_mem hp
  have hget := mem_sortedEntries_iff.1 hmem
  rw [h p.1, Option.map_eq_some_iff] at hget
  obtain ⟨t, ht, hoctets⟩ := hget
  exact ⟨t, ht, wholeMillis_eq_of_encodeTime_eq hoctets⟩

/-- A table that writes a map lists the map. -/
theorem lists (h : Writes table times) {ps : List (Bytes × Reading)}
    (hps : ps.map entryOf = sortedEntries table) (recovering : Bool) :
    Lists times recovering (ps.map (recordOf recovering)) := by
  constructor
  · have hsorted := pairwise_sortedEntries table
    rw [← hps, List.pairwise_map] at hsorted
    exact List.pairwise_map.2 hsorted
  · intro r
    constructor
    · intro hr
      obtain ⟨p, hp, rfl⟩ := List.mem_map.1 hr
      obtain ⟨t, ht, hmillis⟩ := h.exists_time hps hp
      refine ⟨t, ht, ?_⟩
      rw [hmillis]
      rfl
    -- what the map has is written under its owner, and so among what is read
    · rintro ⟨t, ht, hr⟩
      have hmem : (r.owner, encodeTime t.1) ∈ sortedEntries table := by
        rw [mem_sortedEntries_iff, h r.owner, ht]
        rfl
      rw [← hps] at hmem
      obtain ⟨p, hp, hentry⟩ := List.mem_map.1 hmem
      obtain ⟨howner, hoctets⟩ := Prod.mk.inj hentry
      refine List.mem_map.2 ⟨p, hp, ?_⟩
      rw [hr, ← wholeMillis_eq_of_encodeTime_eq hoctets, ← howner]
      rfl

/-- The records of the table are those of the map. -/
theorem listed (h : Writes table times) (recovering : Bool) :
    ∃ records, tableRecords table recovering = .ok records ∧ records.length = table.size ∧
      Lists times recovering records := by
  obtain ⟨ps, hps⟩ := h.exists_readings
  refine ⟨_, tableRecords_eq hps recovering, ?_, h.lists hps recovering⟩
  rw [List.length_map, ← List.length_map, hps]
  exact List.length_mergeSort _

end Writes

/-! ## A disk beside its story -/

/-- A disk on which both maps of a story are written. -/
structure Keeps (disk : Database) (events : List Event) : Prop where
  current : Writes disk.current (firstAdd events)
  recovering : Writes disk.recovering (awaited events)

/-- A fresh disk has nothing on it, and nothing has happened yet. -/
theorem keeps_fresh : Keeps .empty Story.fresh.events := ⟨.empty, .empty⟩

namespace Keeps

variable {disk : Database} {events : List Event}

/-- A call of an open store changes the disk as it says. -/
theorem call (h : Keeps disk events) (request : Request) :
    ∃ disk', ((Standing.opened.siteOn disk).perform (.call request)).2 =
        (Standing.opened.next (.call request)).siteOn disk' ∧
      Keeps disk' (Story.next ⟨.opened, events⟩ (.call request)).events := by
  -- adds and removals are told of the current owners, the others of those to reclaim
  cases request with
  | add now owner =>
    exact ⟨_, rfl, (h.current.insertNew now owner).congr fun _ => firstAdd_cons _ _ _, h.recovering⟩
  | remove owner =>
    refine ⟨_, rfl, (h.current.erase owner).congr fun o => ?_, h.recovering⟩
    refine (firstAdd_cons _ _ _).trans ?_
    show (if decide (owner = o) = true then none else (firstAdd events o).or none) = _
    simp only [Option.or_none, decide_eq_true_iff]
  | reclaim owner =>
    refine ⟨_, rfl, h.current.congr fun o => ?_, h.recovering.erase owner⟩
    exact (firstAdd_cons _ _ _).trans Option.or_none
  | giveUp =>
    refine ⟨_, rfl, h.current.congr fun o => ?_, .empty⟩
    exact (firstAdd_cons _ _ _).trans Option.or_none
  | wants owner => exact ⟨disk, rfl, h⟩
  | waits => exact ⟨disk, rfl, h⟩
  | list => exact ⟨disk, rfl, h⟩
  | close => exact ⟨disk, rfl, h⟩

/-- To open the store stages the current owners, and leaves nobody current. -/
theorem openStore (h : Keeps disk events) : Keeps disk.stage (.opened :: events) where
  current := Writes.empty.congr fun _ => firstAdd_cons _ _ _
  recovering := h.current.stage h.recovering

/-- After a purge there is nothing on the disk, and nothing in the story either. -/
theorem purge : Keeps .empty (.purged :: events) where
  current := Writes.empty.congr fun _ => firstAdd_cons _ _ _
  recovering := .empty

/-- Every act goes on with the story. -/
theorem perform {story : Story} (h : Keeps disk story.events) (act : Site.Act) :
    ∃ disk', ((story.standing.siteOn disk).perform act).2 =
        (story.next act).standing.siteOn disk' ∧
      Keeps disk' (story.next act).events := by
  obtain ⟨standing, events⟩ := story
  cases act with
  | call request =>
    cases standing with
    | opened => exact h.call request
    | vacant => exact ⟨disk, rfl, h⟩
    -- a closed store refuses every call and stays as it is
    | closed => exact ⟨disk, by cases request <;> rfl, h⟩
  | drop => exact ⟨disk, by cases standing <;> rfl, by cases standing <;> exact h⟩
  | openStore =>
    exact ⟨disk.stage, by cases standing <;> rfl, by cases standing <;> exact h.openStore⟩
  | inspect => exact ⟨disk, by cases standing <;> rfl, by cases standing <;> exact h⟩
  | purge => exact ⟨.empty, by cases standing <;> rfl, by cases standing <;> exact .purge⟩

theorem performAll {story : Story} (h : Keeps disk story.events) (acts : List Site.Act) :
    ∃ disk', (story.standing.siteOn disk).performAll acts =
        (acts.foldl Story.next story).standing.siteOn disk' ∧
      Keeps disk' (acts.foldl Story.next story).events := by
  -- on the acts: each leaves the site that belongs to the story after it
  induction acts generalizing disk story with
  | nil => exact ⟨disk, rfl, h⟩
  | cons act rest ih =>
    obtain ⟨next, hsite, hnext⟩ := h.perform act
    obtain ⟨last, hlast, hkeeps⟩ := ih hnext
    exact ⟨last, (congrArg (Site.performAll · rest) hsite).trans hlast, hkeeps⟩

/-- The disk lists the current owners, then those that are to reclaim. -/
theorem inspect (h : Keeps disk events) :
    ∃ current recovering, Lists (firstAdd events) false current ∧
      Lists (awaited events) true recovering ∧ disk.inspect = .ok (current ++ recovering) ∧
      disk.size = (current ++ recovering).length := by
  obtain ⟨current, hcurrent, hcurrentSize, hcurrentLists⟩ := h.current.listed false
  obtain ⟨recovering, hrecovering, hrecoveringSize, hrecoveringLists⟩ := h.recovering.listed true
  refine ⟨current, recovering, hcurrentLists, hrecoveringLists, ?_, ?_⟩
  · unfold Database.inspect
    rw [hcurrent, hrecovering]
    rfl
  · rw [List.length_append, hcurrentSize, hrecoveringSize]
    rfl

end Keeps

/-- Whatever was done at a site: an open store lists first the current owners, each with the
millisecond of its first add since it was last removed or the store was last opened, then those that
are to reclaim, both by owner and without an error. Whoever looks at the disk sees the same records
and leaves them, and a purge counts and drops them. -/
theorem records_tell_story (acts : List Site.Act) :
    let site := Site.fresh.performAll acts
    let story := Story.ofActs acts
    ∃ current recovering, Lists (firstAdd story.events) false current ∧
      Lists (awaited story.events) true recovering ∧
      site.store.map Store.records = story.standing.answer (current ++ recovering) ∧
      site.perform .inspect =
        (.listing (.ok (current ++ recovering)), { site with store := none }) ∧
      site.perform .purge = (.purged (current ++ recovering).length, .fresh) := by
  obtain ⟨disk, hsite, hkeeps⟩ := keeps_fresh.performAll acts
  obtain ⟨current, recovering, hcurrent, hrecovering, hinspect, hsize⟩ := hkeeps.inspect
  intro site story
  have hsite : site = story.standing.siteOn disk := hsite
  refine ⟨current, recovering, hcurrent, hrecovering, ?_, ?_, ?_⟩
  · rw [hsite]
    cases story.standing with
    | vacant => rfl
    | opened => exact congrArg some hinspect
    | closed => rfl
  · rw [hsite, ← hinspect]
    cases story.standing <;> rfl
  · rw [hsite, ← hsize]
    cases story.standing <;> rfl

end Leasehold.Recovery
