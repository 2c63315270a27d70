import Leasehold.Server.Clock
import Leasehold.Server.Locking

/-!
# Proofs.Execution — carrying a request out

A request is a function of the server: `Request.exec` answers with a value or a
refusal, and with the server after it. The equations below say what the building
blocks of requests do, so that a request is opened one block at a time.
-/

namespace Leasehold

namespace Request

variable {α β : Type}

/-- The answer of a request to a server, and the server after it. -/
def exec (r : Request α) (s : Server) : Except Error α × Server := r.run.run s

theorem after_eq_exec (r : Request α) (s : Server) : s.after r = (r.exec s).2 := rfl

/-- The server after a request is read off its execution. -/
theorem after_of_exec {r : Request α} {s t : Server} {answer : Except Error α}
    (h : r.exec s = (answer, t)) : s.after r = t := by
  rw [after_eq_exec, h]

/-- An answer leaves the server as it is. -/
@[simp] theorem exec_pure (a : α) (s : Server) : (pure a : Request α).exec s = (.ok a, s) := rfl

/-- A refusal leaves the server as it is, too. -/
@[simp] theorem exec_throw (e : Error) (s : Server) :
    (throw e : Request α).exec s = (.error e, s) := rfl

/-- The server itself may be the answer. -/
@[simp] theorem exec_get (s : Server) : (get : Request Server).exec s = (.ok s, s) := rfl

@[simp] theorem exec_set (s s' : Server) : (set s' : Request Unit).exec s = (.ok (), s') := rfl

@[simp] theorem exec_modify (f : Server → Server) (s : Server) :
    (modify f : Request Unit).exec s = (.ok (), f s) := rfl

/-- An answer that was worked out beforehand is given without a look at the server. -/
@[simp] theorem exec_ofExcept (answer : Except Error α) (s : Server) :
    (ofExcept answer).exec s = (answer, s) := rfl

/-- A refusal ends the request; what was done before it stays done. -/
theorem exec_bind (r : Request α) (f : α → Request β) (s : Server) :
    (r >>= f).exec s = match r.exec s with
      | (.ok a, s') => (f a).exec s'
      | (.error e, s') => (.error e, s') := by
  unfold exec ExceptT.run StateT.run
  simp only [bind, ExceptT.bind, ExceptT.mk, StateT.bind, ExceptT.bindCont]
  cases r s with
  | mk answer s' =>
    -- on the answer: only one that is no refusal is handed on
    cases answer with
    | ok a => rfl
    | error e => rfl

/-- A refusal that is caught leaves what was done before it. -/
theorem exec_tryCatch (r : Request α) (f : Error → Request α) (s : Server) :
    (tryCatch r f : Request α).exec s = match r.exec s with
      | (.ok a, s') => (.ok a, s')
      | (.error e, s') => (f e).exec s' := by
  unfold exec ExceptT.run StateT.run
  simp only [tryCatch, tryCatchThe, MonadExceptOf.tryCatch, ExceptT.tryCatch, ExceptT.mk, bind,
    StateT.bind]
  cases r s with
  | mk answer s' =>
    -- on the answer: only a refusal is handled
    cases answer with
    | ok a => rfl
    | error e => rfl

/-- If what handles a refusal hands it on, what comes after it is not reached. -/
theorem exec_tryCatch_bind (r : Request α) {h : Error → Request α} {f : α → Request β}
    (hh : ∀ e t, ((h e).exec t).1 = .error e) (s : Server) :
    (tryCatch r h >>= f).exec s = match r.exec s with
      | (.ok a, t) => (f a).exec t
      | (.error e, t) => (.error e, ((h e).exec t).2) := by
  rw [exec_bind, exec_tryCatch]
  rcases r.exec s with ⟨answer, t⟩
  cases answer with
  | ok a => rfl
  | error e =>
    dsimp only
    -- the handler answers with the refusal, whatever it does to the server
    have he := hh e t
    rcases hexec : (h e).exec t with ⟨answer, t'⟩
    rw [hexec] at he
    cases he
    rfl

/-- What comes next sees the server as it is. -/
@[simp] theorem exec_get_bind (f : Server → Request β) (s : Server) :
    (get >>= f).exec s = (f s).exec s := rfl

end Request

/-! ## Calls of the store and of the lock table -/

/-- Whether a call of the store is set to fail. -/
def Faults.fails (f : Faults) (call : Recovery.Call) : Bool := (f.store.lookup call).isSome

namespace Server

/-- An answered call was made on the store. -/
theorem callStore_eq_ok {α : Type} {s : Server} {call : Recovery.Call}
    {ask : Recovery.Store → Except RecoveryError α} {a : α} (h : s.callStore call ask = .ok a) :
    ask s.store = .ok a := by
  unfold callStore at h
  split at h
  · cases h
  · exact h

/-- A call that the store refused was set to fail, or the store refused it by itself. -/
theorem fails_of_callStore_eq_error {α : Type} {s : Server} {call : Recovery.Call}
    {ask : Recovery.Store → Except RecoveryError α} {e : RecoveryError}
    (h : s.callStore call ask = .error e) : s.faults.fails call = true ∨ ask s.store = .error e := by
  unfold callStore at h
  unfold Faults.fails
  split at h
  · rename_i hlookup
    rw [hlookup]
    exact .inl rfl
  · exact .inr h

/-- A call that the store answered was not set to fail. -/
theorem not_fails_of_callStore_eq_ok {α : Type} {s : Server} {call : Recovery.Call}
    {ask : Recovery.Store → Except RecoveryError α} {a : α} (h : s.callStore call ask = .ok a) :
    s.faults.fails call = false := by
  unfold callStore at h
  unfold Faults.fails
  split at h
  · cases h
  · rename_i hlookup
    rw [hlookup]
    rfl

/-- No call of the store is set to fail. -/
def Spared (s : Server) : Prop := s.faults.store = []

/-- The store itself answers if no call is set to fail. -/
theorem Spared.callStore_eq {α : Type} {s : Server} (hs : s.Spared) (call : Recovery.Call)
    (ask : Recovery.Store → Except RecoveryError α) : s.callStore call ask = ask s.store := by
  unfold callStore
  rw [show s.faults.store = [] from hs]
  rfl

/-- The answer of the store depends on nothing but the store and the calls that are set to fail. -/
theorem callStore_congr {α : Type} {s s' : Server} (hfaults : s'.faults = s.faults)
    (hstore : s'.store = s.store) (call : Recovery.Call)
    (ask : Recovery.Store → Except RecoveryError α) :
    s'.callStore call ask = s.callStore call ask := by
  unfold callStore
  rw [hfaults, hstore]

/-- An answered call was made on the lock table. -/
theorem callLocks_eq_ok {α : Type} {s : Server} {call : LockCall} {ask : LockTable → Except LockError α} {a : α}
    (h : s.callLocks call ask = .ok a) : ask s.locks = .ok a := by
  unfold Server.callLocks at h
  split at h
  · cases h
  · exact h

/-- The lock table itself answers if no call is set to fail. -/
theorem callLocks_eq {α : Type} {s : Server} (h : s.faults.locks = []) (call : LockCall)
    (ask : LockTable → Except LockError α) : s.callLocks call ask = ask s.locks := by
  unfold Server.callLocks
  rw [h]
  rfl

end Server

namespace Request

variable {α : Type}

/-- Only a server that runs goes on with a request. -/
theorem exec_ensureRunning (s : Server) :
    ensureRunning.exec s = (if s.running then .ok () else .error .notRunning, s) := by
  unfold ensureRunning
  rw [exec_get_bind]
  cases s.running with
  | true => rfl
  | false => rfl

/-- A server that runs goes on to what comes next. -/
theorem exec_ensureRunning_bind {s : Server} (hrunning : s.running = true) (f : Unit → Request β) :
    (ensureRunning >>= f).exec s = (f ()).exec s := by
  rw [exec_bind, exec_ensureRunning, if_pos hrunning]

theorem exec_askStore (call : Recovery.Call) (ask : Recovery.Store → Except RecoveryError α)
    (s : Server) :
    (askStore call ask).exec s = ((s.callStore call ask).mapError .recovery, s) := by
  unfold askStore
  rw [exec_get_bind]
  cases s.callStore call ask with
  | error e => rfl
  | ok a => rfl

/-- The store changes only by a call that it answers. -/
theorem exec_updateStore (call : Recovery.Call)
    (update : Recovery.Store → Except RecoveryError Recovery.Store) (s : Server) :
    (updateStore call update).exec s = match s.callStore call update with
      | .ok store => (.ok (), { s with store })
      | .error e => (.error (.recovery e), s) := by
  unfold updateStore
  rw [exec_bind, exec_askStore]
  cases s.callStore call update with
  | error e => rfl
  | ok store => rfl

theorem exec_askLocks (call : LockCall) (ask : LockTable → Except LockError α)
    (s : Server) : (askLocks call ask).exec s = ((s.callLocks call ask).mapError .ofLock, s) := by
  unfold askLocks
  rw [exec_get_bind]
  cases s.callLocks call ask with
  | error e => rfl
  | ok a => rfl

/-- The lock table changes only by a call that it answers. -/
theorem exec_updateLocks (call : LockCall) (update : LockTable → Except LockError LockTable)
    (s : Server) :
    (updateLocks call update).exec s = match s.callLocks call update with
      | .ok locks => (.ok (), { s with locks })
      | .error e => (.error (.ofLock e), s) := by
  unfold updateLocks
  rw [exec_bind, exec_askLocks]
  cases s.callLocks call update with
  | error e => rfl
  | ok locks => rfl

end Request

end Leasehold
