import Leasehold.Recovery

/-!
# Recovery.Site — a store and the disk below it

A site has a database on disk, which outlives every store, and a store while one is
open. A volatile store leaves the disk alone; a durable one keeps its database
there.
-/

namespace Leasehold.Recovery

/-- A disk, and the store that is open over it. -/
structure Site where
  /-- Whether the stores that are opened here are durable. -/
  durable : Bool
  disk : Database
  store : Option Store
  deriving Inhabited

namespace Site

/-- The site once its store has become another one. -/
def keep (site : Site) (store : Store) : Site :=
  match store with
  | .durable d => { site with store := some store, disk := d.database }
  | .volatile _ => { site with store := some store }

/-- Opens a store, in the place of one that is open. -/
def openStore (site : Site) : Site :=
  site.keep (if site.durable then .durable (.openOn site.disk) else .volatile .empty)

/-- Lets go of the store without closing it. -/
def drop (site : Site) : Site := { site with store := none }

/-- Drops every record on the disk. -/
def purge (site : Site) : Site := { site with store := none, disk := .empty }

end Site

end Leasehold.Recovery
