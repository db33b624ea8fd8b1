import FirewallLists.Caller
import FirewallLists.Counters
import FirewallLists.Directory
import FirewallLists.Settings
import FirewallLists.Signal
import FirewallLists.Store.ItemQuery

/-
  The state of the services and the steps that calls are made of. A write commits when it ends
  well and leaves no trace when it does not; what a call has committed, signalled or counted
  before it fails stays.
-/

namespace FirewallLists

structure State where
  store : Store := {}
  /-- The tables can be reached. -/
  isOpen : Bool := true
  /-- The kinds of look-up that fail. -/
  failing : List Lookup := []
  /-- Unix time. -/
  now : Int
  /-- Lists that were looked up, also those that were not there. -/
  cache : List (Int × Option IpList) := []
  channel : Channel := {}
  counters : Counters := {}

/-- A step that may fail; the state it has reached then stays. -/
abbrev ServiceM := ExceptT ServiceError (StateM State)

/-- The tables, if they can be reached. -/
def State.tables (st : State) : Except StorageError Store :=
  if st.isOpen then .ok st.store else .error .closed

/-- Look something up in the directory. -/
def State.lookUp {α : Type} (st : State) (kind : Lookup) (find : Store → α) :
    Except StorageError α :=
  if st.failing.contains kind then .error kind.failure else find <$> st.tables

namespace ServiceM

def ofStorage {α : Type} : Except StorageError α → ServiceM α
  | .ok a => return a
  | .error e => throw (.storage e)

/-- Let a step run and look at how it ended. -/
def attempt {α : Type} (a : ServiceM α) : ServiceM (Except ServiceError α) :=
  ExceptT.lift a.run

/-- Only callers of some kinds may go on. -/
def require (caller : Caller) (allowed : List CallerKind) : ServiceM Unit :=
  ofExcept (caller.require allowed)

/-- Read the tables. -/
def query {α : Type} (read : Store → Except StorageError α) : ServiceM α := do
  ofStorage ((← get).tables >>= read)

/-- Write the tables in one transaction. -/
def transact {α : Type} (write : Store → Except StorageError (α × Store)) : ServiceM α := do
  let (a, store) ← ofStorage ((← get).tables >>= write)
  modify fun st => { st with store := store }
  return a

/-- Write the tables in one transaction. If there was nothing to write it is rolled back: the
tables that the write has reached are given up. -/
def transact? {α : Type} (write : Store → Except StorageError (Option α × Store)) :
    ServiceM (Option α) := do
  match ← ofStorage ((← get).tables >>= write) with
  | (some a, store) =>
    modify fun st => { st with store := store }
    return some a
  | (none, _) => return none

/-- Look something up in the directory, and fail if the look-up does. -/
def lookUp {α : Type} (kind : Lookup) (find : Store → α) : ServiceM α := do
  ofStorage ((← get).lookUp kind find)

/-- The time. -/
def now : ServiceM Int :=
  return (← get).now

def count (sample : Sample) (n : Nat) : ServiceM Unit :=
  modify fun st => { st with counters := st.counters.add sample n }

/-- Send a change signal. -/
def signal (change : Change) : ServiceM Unit :=
  modify fun st =>
    { st with channel := st.channel.send change, counters := st.counters.add .signals 1 }

/-- Send a change signal if there is a change to tell of. -/
def signalLast : Option Change → ServiceM Unit
  | some change => signal change
  | none => return ()

end ServiceM

/-- The change that a switched-off item stands for. -/
def Store.Retired.change (r : Store.Retired) : Change :=
  ⟨r.itemId, r.listId, r.version⟩

end FirewallLists
