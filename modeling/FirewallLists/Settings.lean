/-
  How large pages are and whether lists that were looked up are remembered.
-/

namespace FirewallLists

structure Settings where
  /-- The size of a page for which no size was asked. -/
  defaultPageSize : Int := 100
  /-- The largest page that an operator gets. -/
  maxPageSize : Int := 1000
  /-- For how many seconds a list that was looked up is remembered. -/
  listCacheSeconds : Nat := 60
  deriving DecidableEq, Repr

namespace Settings

/-- The size of an operator's page. -/
def pageSize (s : Settings) (requested : Int) : Int :=
  if requested ≤ 0 then s.defaultPageSize else min requested s.maxPageSize

/-- The size of a page for a node, which gets any size it asks for. -/
def pullSize (s : Settings) (requested : Int) : Int :=
  if requested ≤ 0 then s.defaultPageSize else requested

/-- Lists that were looked up are remembered. -/
def remembersLists (s : Settings) : Bool :=
  s.listCacheSeconds != 0

end Settings

end FirewallLists
