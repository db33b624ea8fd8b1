import FirewallLists.Service.State

/-
  Whose lists are whose. A tenant may use a list that is public, names the tenant, or belongs to
  one of the tenant's servers. Admins and nodes are not asked.
-/

namespace FirewallLists.Ownership

open ServiceM

/-- The tenant may use the list. -/
def checkOwner (userId : Int) (list : IpList) : ServiceM Unit := do
  if list.isPublic || list.userId == some userId then return
  if let some serverId := list.serverId then
    if ← lookUp .ownsServer (Directory.ownsServer · userId serverId) then return
  throw (.permissionDenied
    ("ip list " ++ toString list.id ++ " is not owned by user " ++ toString userId))

/-- The list is switched on and the tenant may use it. -/
def checkTenantList (userId listId : Int) : ServiceM Unit := do
  match ← query (·.findEnabledList listId) with
  | some list => checkOwner userId list
  | none => throw (.listNotFound listId)

/-- New items may be written to the list: it is switched on, and a tenant may use it. -/
def checkWritable (caller : Caller) (listId : Int) : ServiceM Unit := do
  match caller.userId? with
  | some userId => checkTenantList userId listId
  | none =>
    match ← query (·.findEnabledList listId) with
    | some _ => return
    | none => throw (.listNotFound listId)

/-- Items of the list may be seen and changed by the caller. -/
def checkCallerList (caller : Caller) (listId : Int) : ServiceM Unit :=
  match caller.userId? with
  | some userId => checkTenantList userId listId
  | none => return

/-- The lists, switched on, of a tenant or of one of the tenant's servers. -/
def tenantLists (userId : Int) : ServiceM (List Int) := do
  let serverIds ← lookUp .serversOf (Directory.serversOf · userId)
  query (·.findTenantLists userId serverIds)

/-- A tenant's own lists, or all lists when no tenant is given. -/
def scopeOf : Option Int → ServiceM Scope
  | some userId => .lists <$> tenantLists userId
  | none => return .everywhere

end FirewallLists.Ownership
