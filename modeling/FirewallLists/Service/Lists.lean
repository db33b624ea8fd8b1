import FirewallLists.Service.Ownership

/-
  Making, finding and switching off lists, and the memory of lists that were looked up. Whoever
  changes a list lets it be forgotten.
-/

namespace FirewallLists.Lists

open ServiceM Ownership

/-! ## Remembered lists -/

/-- Forget a list. -/
def forget (id : Int) : ServiceM Unit :=
  modify fun st => { st with cache := st.cache.filter (·.1 != id) }

/-- Remember a list, also one that is not there. -/
def remember (id : Int) (list : Option IpList) : ServiceM Unit :=
  modify fun st => { st with cache := (id, list) :: st.cache.filter (·.1 != id) }

/-- A list, switched on or off, as it is remembered or else as it is stored. -/
def findRemembered (cfg : Settings) (id : Int) : ServiceM (Option IpList) := do
  if cfg.remembersLists then
    if let some entry := (← get).cache.find? (·.1 == id) then return entry.2
    let list ← query (·.findList id)
    remember id list
    return list
  else query (·.findList id)

/-! ## Calls -/

/-- Make a list, which has to be public or to belong to somebody. -/
def create (caller : Caller) (list : NewList) : ServiceM Int := do
  require caller [.admin]
  if !list.isPublic && !list.hasOwner then
    throw (.validation "a non-public list needs a 'serverId' or 'userId'")
  let time ← now
  let id ← transact (·.createList list time)
  forget id
  return id

/-- The list with this id, if it is switched on. -/
def find (caller : Caller) (id : Int) : ServiceM (Option IpList) := do
  require caller [.admin, .user]
  let list ← query (·.findEnabledList id)
  if let (some list, some userId) := (list, caller.userId?) then
    checkOwner userId list
  return list

/-- Switch a list off, if it is not off already. -/
def switchOff (s : Store) (id : Int) : Option Unit × Store :=
  match s.disableList id with
  | some s => (some (), s)
  | none => (none, s)

/-- Switch a list off. Its items stay as they are. -/
def delete (caller : Caller) (id : Int) : ServiceM Unit := do
  require caller [.admin]
  let done ← transact? fun s => .ok (switchOff s id)
  forget id
  if done.isNone then throw (.listNotFound id)

/-- Switch off the lists of a server. -/
def deleteOfServer (caller : Caller) (serverId : Int) : ServiceM (List Int) := do
  require caller [.admin]
  if serverId ≤ 0 then throw (.validation "invalid 'serverId'")
  let ids ← transact fun s => .ok (s.disableServerLists serverId)
  ids.forM forget
  return ids

/-- The server of a list, or zero. -/
def findServer (caller : Caller) (id : Int) : ServiceM Int := do
  require caller [.admin, .user]
  if let some userId := caller.userId? then checkTenantList userId id
  query fun s => .ok ((s.listServerId? id).getD 0)

end FirewallLists.Lists
