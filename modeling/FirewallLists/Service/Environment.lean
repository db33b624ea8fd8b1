import FirewallLists.Service.State

/-
  What happens to the services from outside: time goes on, the tables go away, the directory
  fails, the services are started again.
-/

namespace FirewallLists.State

/-- It is now this time. -/
def atTime (st : State) (now : Int) : State :=
  { st with now := now }

/-- From now on the tables cannot be reached. -/
def closed (st : State) : State :=
  { st with isOpen := false }

/-- From now on these kinds of look-up fail, and no others. -/
def withFailing (st : State) (failing : List Lookup) : State :=
  { st with failing := failing }

/-- The services are started again over the same tables. They remember no list, and everything
is in order again. -/
def restarted (st : State) : State :=
  { st with isOpen := true, failing := [], cache := [] }

end FirewallLists.State
