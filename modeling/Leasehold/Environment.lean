import Leasehold.Disk

/-!
# Environment — where the program runs

The program sees variables, the home directory of its user, and a disk.
-/

namespace Leasehold

/-- What surrounds the program. -/
structure Environment where
  /-- The variables that are set, with their values. -/
  bindings : List (String × String)
  home? : Option String
  disk : Disk
  deriving Inhabited

/-- The value of a variable that is set. -/
def Environment.valueOf? (env : Environment) (name : String) : Option String :=
  env.bindings.lookup name

end Leasehold
