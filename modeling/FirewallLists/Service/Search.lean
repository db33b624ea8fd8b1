import FirewallLists.Service.Contents

/-
  Searching all lists that a caller may see. A search for items also tidies up: items whose list
  is gone or off, and items of a list of no policy that is not public, are switched off when they
  are met.
-/

namespace FirewallLists

/-- What an operator searches for. -/
structure SearchQuery where
  /-- The tenant whose lists an admin wants to see. -/
  userId : Int := 0
  keyword : String := ""
  address : String := ""
  unread : Bool := false
  eventLevel : String := ""
  listType : String := ""
  globalOnly : Bool := false
  deriving DecidableEq, Repr

/-- An item found, with its list and the policy that uses the list. -/
structure SearchResult where
  list : IpList
  item : Item
  server : Option NameInfo
  policy : Option PolicyInfo
  deriving DecidableEq, Repr

/-- The filter that a query stands for. -/
def SearchQuery.filter (q : SearchQuery) : Except ServiceError SearchFilter := do
  let address ←
    if Text.allBlank q.address then pure none
    else match Net.Address.ofText? q.address with
      | some a => pure (some a)
      | none => .error (.validation ("invalid 'ip': " ++ Text.trim q.address))
  let listType ←
    if Text.allBlank q.listType then pure none
    else match ListType.ofName? (Text.trim q.listType) with
      | some t => pure (some t)
      | none => .error (.validation ("invalid 'listType': " ++ Text.trim q.listType))
  return {
    keyword := q.keyword
    address := address
    unreadOnly := q.unread
    eventLevel := q.eventLevel
    listType := listType
    globalOnly := q.globalOnly }

namespace Search

open ServiceM Ownership Contents

/-- The lists that a search sees: a tenant's own, or for an admin those of the tenant named by
the query, or all. -/
def scope (caller : Caller) (query : SearchQuery) : ServiceM Scope := do
  require caller [.admin, .user]
  scopeOf (caller.userId?.or (if 0 < query.userId then some query.userId else none))

def countAll (caller : Caller) (q : SearchQuery) : ServiceM Nat := do
  let filter ← ofExcept q.filter
  let scope ← scope caller q
  let time ← now
  query (·.searchCount scope filter time)

def ids (cfg : Settings) (caller : Caller) (q : SearchQuery) (offset size : Int) :
    ServiceM (List Int) := do
  let filter ← ofExcept q.filter
  let scope ← scope caller q
  let time ← now
  query (·.searchIds scope filter time offset (cfg.pageSize size))

/-- Switch off an item that nothing refers to, if it is not off already. -/
def disableOrphan (item : Item) : ServiceM Unit := do
  if let some retired ← transact? (·.disableItem item.id) then
    count .orphansDisabled 1
    signal retired.change

/-- What an item's list is used for. -/
inductive Usage where
  /-- The list is in use, by this policy if by any. -/
  | used (list : IpList) (policy : Option PolicyInfo)
  | orphaned

/-- What an item's list is used for. A list whose policy cannot be looked up is in use. -/
def usage (item : Item) : ServiceM Usage := do
  match ← query (·.findList item.listId) with
  | none => return .orphaned
  | some list =>
    if !list.enabled then return .orphaned
    if list.isPublic then return .used list none
    match (← get).lookUp .policyOfList (Directory.policyOfList? · list.id) with
    | .ok none => return .orphaned
    | .ok (some policy) => return .used list (some policy)
    | .error _ => return .used list none

/-- The server of the policy that uses a list. -/
def serverOf (st : State) (policy : Option PolicyInfo) : Option NameInfo :=
  (policy.filter (0 < ·.serverId)).map fun p =>
    nameInfo st .serverName Directory.serverName? p.serverId

/-- Tell which items are in use, and switch off the others. -/
def sift : List Item → ServiceM (List SearchResult)
  | [] => return []
  | item :: items => do
    match ← usage item with
    | .orphaned =>
      disableOrphan item
      sift items
    | .used list policy =>
      let server := serverOf (← get) policy
      return ⟨list, item, server, policy⟩ :: (← sift items)

/-- A page of the active items of all lists seen, the newest first. -/
def items (cfg : Settings) (caller : Caller) (q : SearchQuery) (offset size : Int) :
    ServiceM (List SearchResult) := do
  let filter ← ofExcept q.filter
  let scope ← scope caller q
  let time ← now
  sift (← query (·.searchItems scope filter time offset (cfg.pageSize size)))

end Search

end FirewallLists
