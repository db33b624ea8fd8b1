import FirewallLists.Service.Ownership

/-
  Looking into lists: whether one covers an address, which items it has, and what caused them.
  What caused an item is shown by name; a name that cannot be found is shown as deleted.
-/

namespace FirewallLists

/-- Something with a name. -/
structure NameInfo where
  id : Int
  name : String
  deriving DecidableEq, Repr

/-- A policy and the name of its server. -/
structure PolicyView where
  id : Int
  name : String
  serverId : Int
  serverName : String
  deriving DecidableEq, Repr

/-- An item and what caused it. -/
structure ItemView where
  item : Item
  server : Option NameInfo
  policy : Option PolicyView
  ruleGroup : Option NameInfo
  ruleSet : Option NameInfo
  node : Option NodeInfo
  deriving DecidableEq, Repr

namespace Contents

open ServiceM Ownership

/-! ## Names -/

/-- What is shown in place of a name that cannot be found. -/
def deletedName : String := "[deleted]"

/-- What was found, unless nothing was or the look-up failed. -/
def found {α : Type} : Except StorageError (Option α) → Option α
  | .ok (some a) => some a
  | _ => none

/-- A name to show. -/
def shownName (st : State) (kind : Lookup) (find : Store → Option String) : String :=
  (found (st.lookUp kind find)).getD deletedName

/-- A reference by id, with the name to show. -/
def nameInfo (st : State) (kind : Lookup) (find : Store → Int → Option String) (id : Int) :
    NameInfo :=
  ⟨id, shownName st kind (find · id)⟩

def nodeInfo (st : State) (id : Int) : NodeInfo :=
  (found (st.lookUp .node (Directory.node? · id))).getD ⟨id, deletedName, 0⟩

def policyView (st : State) (id : Int) : PolicyView :=
  match found (st.lookUp .policy (Directory.policy? · id)) with
  | some p =>
    ⟨p.id, p.name, p.serverId,
      if 0 < p.serverId then shownName st .serverName (Directory.serverName? · p.serverId) else ""⟩
  | none => ⟨id, deletedName, 0, ""⟩

/-- An item with the names of what caused it. -/
def view (st : State) (item : Item) : ItemView where
  item := item
  server := item.source.serverId.map (nameInfo st .serverName Directory.serverName?)
  policy := item.source.policyId.map (policyView st)
  ruleGroup := item.source.ruleGroupId.map (nameInfo st .ruleGroupName Directory.ruleGroupName?)
  ruleSet := item.source.ruleSetId.map (nameInfo st .ruleSetName Directory.ruleSetName?)
  node := item.source.nodeId.map (nodeInfo st)

/-! ## Calls -/

/-- Whether a list covers an address. -/
inductive Status where
  | invalidAddress
  | listNotFound
  | absent
  /-- The newest item that covers the address, and whether the list lets traffic through. -/
  | covered (item : Item) (allowing : Bool)
  deriving DecidableEq, Repr

def check (caller : Caller) (listId : Int) (address : String) : ServiceM Status := do
  require caller [.admin]
  let some address := Net.Address.ofText? address | return .invalidAddress
  let some list ← query (·.findEnabledList listId) | return .listNotFound
  let time ← now
  match ← query (·.findCovering listId address time) with
  | some item => return .covered item list.type.isAllowing
  | none => return .absent

/-- The active item with this id. -/
def find (caller : Caller) (itemId : Int) : ServiceM (Option Item) := do
  require caller [.admin, .user]
  let time ← now
  match ← query (·.findActiveItem itemId time) with
  | some item =>
    checkCallerList caller item.listId
    return some item
  | none => return none

/-- There is an active item with this id. -/
def exist (caller : Caller) (itemId : Int) : ServiceM Bool := do
  require caller [.admin]
  let time ← now
  query fun s => .ok (s.existsActiveItem itemId time)

def countInList (caller : Caller) (filter : ListFilter) : ServiceM Nat := do
  require caller [.admin, .user]
  checkCallerList caller filter.listId
  let time ← now
  query (·.countInList filter time)

/-- A page of a list's active items, the newest first. -/
def listInList (cfg : Settings) (caller : Caller) (filter : ListFilter) (offset size : Int) :
    ServiceM (List ItemView) := do
  require caller [.admin, .user]
  checkCallerList caller filter.listId
  let time ← now
  let items ← query (·.listInList filter time offset (cfg.pageSize size))
  let st ← get
  return items.map (view st)

/-- The server of the list of an item, or zero. -/
def findServer (caller : Caller) (itemId : Int) : ServiceM Int := do
  require caller [.admin, .user]
  let some listId ← query fun s => .ok (s.itemListId? itemId) | throw (.itemNotFound itemId)
  let list ← query (·.findList listId)
  let serverId := (list.bind (·.serverId)).getD 0
  if let some userId := caller.userId? then
    if 0 < serverId then
      unless ← lookUp .ownsServer (Directory.ownsServer · userId serverId) do
        throw (.permissionDenied
          ("server " ++ toString serverId ++ " is not owned by user " ++ toString userId))
  return serverId

end Contents

end FirewallLists
