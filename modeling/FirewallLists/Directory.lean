import FirewallLists.Store

/-
  The directory: servers, nodes and firewall policies, which are kept by others and only looked
  up here. A row that is switched off is not found. Each kind of look-up may fail on its own.
-/

namespace FirewallLists

/-- The kinds of look-up. -/
inductive Lookup where
  | serverName
  | ownsServer
  | serversOf
  | policy
  | policyOfList
  | ruleGroupName
  | ruleSetName
  | node
  deriving DecidableEq, Repr

namespace Lookup

def name : Lookup → String
  | serverName => "server_name"
  | ownsServer => "user_owns_server"
  | serversOf => "user_server_ids"
  | policy => "firewall_policy"
  | policyOfList => "policy_for_list"
  | ruleGroupName => "rule_group_name"
  | ruleSetName => "rule_set_name"
  | node => "node"

def all : List Lookup :=
  [serverName, ownsServer, serversOf, policy, policyOfList, ruleGroupName, ruleSetName, node]

def ofName? (s : String) : Option Lookup :=
  all.find? (·.name == s)

/-- What a look-up that is out of order reports. -/
def failure (l : Lookup) : StorageError :=
  .invalidRow (l.name ++ " is down")

end Lookup

/-- A firewall policy as others refer to it. -/
structure PolicyInfo where
  id : Int
  name : String
  /-- Zero when the policy is not bound to one server. -/
  serverId : Int
  deriving DecidableEq, Repr

/-- A node as others refer to it. -/
structure NodeInfo where
  id : Int
  name : String
  clusterId : Int
  deriving DecidableEq, Repr

namespace Directory

def serverName? (s : Store) (id : Int) : Option String :=
  ((s.servers.find? id).filter fun r => isEnabled r.state).map (·.name)

/-- The server is switched on and belongs to the tenant. -/
def ownsServer (s : Store) (userId serverId : Int) : Bool :=
  (s.servers.find? serverId).any fun r => r.userId == userId && isEnabled r.state

/-- The servers of a tenant that are switched on. -/
def serversOf (s : Store) (userId : Int) : List Int :=
  (s.servers.rows.filter fun r => r.userId == userId && isEnabled r.state).map (·.id)

def policyInfo (r : PolicyRow) : PolicyInfo :=
  ⟨r.id, r.name, r.serverId⟩

def policy? (s : Store) (id : Int) : Option PolicyInfo :=
  ((s.policies.find? id).filter fun r => isEnabled r.state).map policyInfo

/-- The policy uses the list to allow, to deny or to observe. -/
def usesList (r : PolicyRow) (listId : Int) : Bool :=
  r.allowListId == some listId || r.denyListId == some listId || r.greyListId == some listId

/-- The first policy, switched on, that uses the list. -/
def policyOfList? (s : Store) (listId : Int) : Option PolicyInfo :=
  (s.policies.rows.find? fun r => isEnabled r.state && usesList r listId).map policyInfo

def ruleGroupName? (s : Store) (id : Int) : Option String :=
  ((s.ruleGroups.find? id).filter fun r => isEnabled r.state).map (·.name)

def ruleSetName? (s : Store) (id : Int) : Option String :=
  ((s.ruleSets.find? id).filter fun r => isEnabled r.state).map (·.name)

def node? (s : Store) (id : Int) : Option NodeInfo :=
  ((s.nodes.find? id).filter fun r => isEnabled r.state).map fun r => ⟨r.id, r.name, r.clusterId⟩

end Directory

end FirewallLists
