import FirewallLists.Service.Lists

/-
  How nodes keep up. A node sends the last version it has seen and gets the items above it in
  the order of their versions. What an item means to a node depends on its list and on the time,
  so items of a list that goes away need not be touched.
-/

namespace FirewallLists

/-- An item as a node sees it. -/
structure PulledItem where
  id : Int
  value : String
  ipFrom : String
  ipTo : String
  version : Int
  createdAt : Int
  expiredAt : Int
  listId : Int
  isDeleted : Bool
  type : ItemType
  eventLevel : String
  /-- Missing when the list is. -/
  listType : Option ListType
  isGlobal : Bool
  nodeId : Int
  serverId : Int
  deriving DecidableEq, Repr

namespace Pull

/-- An item as a node sees it. Items of grey lists are not seen; an item that is off or expired,
or whose list is gone or off, is seen as deleted. -/
def project (item : Item) (list : Option IpList) (now : Int) : Option PulledItem :=
  if list.any (·.type == .grey) then none
  else some {
    id := item.id
    value := item.shownValue
    ipFrom := item.ipFrom
    ipTo := item.ipTo
    version := item.version
    createdAt := item.createdAt
    expiredAt := item.expiredAt
    listId := item.listId
    isDeleted := !(list.any (·.enabled) && item.isActive now)
    type := item.type
    eventLevel := item.eventLevel
    listType := list.map (·.type)
    isGlobal := list.any (·.isNetworkWide)
    nodeId := item.nodeId
    serverId := item.serverId }

/-- A part of the items above a version. -/
structure Page where
  items : List PulledItem
  /-- The version to go on from. -/
  version : Int
  /-- The page is full, so there may be more. -/
  hasMore : Bool
  deriving DecidableEq, Repr

open ServiceM

/-- A list for its items; one that cannot be looked up counts as gone. -/
def listOrGone (cfg : Settings) (id : Int) : ServiceM (Option IpList) := do
  match ← attempt (Lists.findRemembered cfg id) with
  | .ok list => return list
  | .error _ => return none

/-- What a node sees of items. -/
def projectAll (cfg : Settings) (now : Int) : List Item → ServiceM (List PulledItem)
  | [] => return []
  | item :: items => do
    let list ← listOrGone cfg item.listId
    let rest ← projectAll cfg now items
    return (project item list now).toList ++ rest

/-- The items above a version, up to a number. -/
def itemsAfter (cfg : Settings) (caller : Caller) (version size : Int) : ServiceM Page := do
  require caller [.admin, .node]
  let cursor := max version 0
  let size := cfg.pullSize size
  let items ← query (·.itemsAfter cursor size)
  let time ← now
  let seen ← projectAll cfg time items
  count .itemsServed seen.length
  return {
    items := seen
    version := items.foldl (fun v item => max v item.version) cursor
    hasMore := (items.length : Int) == size }

end Pull

end FirewallLists
