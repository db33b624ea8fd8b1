import FirewallLists.IpList
import FirewallLists.Net.Range

/-
  Items: the entries of a list.
-/

namespace FirewallLists

open Net

/-- What an item's address is. -/
inductive ItemType where
  | ipv4
  | ipv6
  /-- Every address; such an item has no bounds. -/
  | all
  deriving DecidableEq, Repr

namespace ItemType

def name : ItemType → String
  | ipv4 => "ipv4"
  | ipv6 => "ipv6"
  | all => "all"

def ofName? (s : String) : Option ItemType :=
  if s = "ipv4" then some ipv4
  else if s = "ipv6" then some ipv6
  else if s = "all" then some all
  else none

/-- The type of an item with an address of this family. -/
def ofFamily : Family → ItemType
  | .v4 => ipv4
  | .v6 => ipv6

theorem ofName?_name (t : ItemType) : ofName? t.name = some t := by
  cases t <;> rfl

end ItemType

/-- What caused an item. -/
structure Provenance where
  nodeId : Option Int := none
  serverId : Option Int := none
  policyId : Option Int := none
  ruleGroupId : Option Int := none
  ruleSetId : Option Int := none
  deriving DecidableEq, Repr

namespace Provenance

/-- Ids of zero and below are left out. -/
def normalized (p : Provenance) : Provenance where
  nodeId := positiveId p.nodeId
  serverId := positiveId p.serverId
  policyId := positiveId p.policyId
  ruleGroupId := positiveId p.ruleGroupId
  ruleSetId := positiveId p.ruleSetId

/-- A detector caused the item. -/
def isAutomated (p : Provenance) : Bool :=
  p.nodeId.isSome || p.serverId.isSome || p.policyId.isSome

end Provenance

/-- An item as the services see it, switched on or off. -/
structure Item where
  id : Int
  listId : Int
  value : String
  ipFrom : String
  ipTo : String
  type : ItemType
  version : Int
  enabled : Bool
  /-- Unix time; zero means never. -/
  expiredAt : Int
  reason : String
  eventLevel : String
  nodeId : Int
  serverId : Int
  source : Provenance
  isRead : Bool
  createdAt : Int
  deriving DecidableEq, Repr

namespace Item

def isExpired (i : Item) (now : Int) : Bool :=
  0 < i.expiredAt && i.expiredAt ≤ now

def isActive (i : Item) (now : Int) : Bool :=
  i.enabled && !i.isExpired now

/-- The text to show; an item without one shows its bounds. -/
def shownValue (i : Item) : String :=
  if i.value ≠ "" then i.value
  else if i.ipTo = "" then i.ipFrom
  else i.ipFrom ++ "-" ++ i.ipTo

end Item

/-- An item ready to be written. -/
structure NewItem where
  listId : Int
  /-- No range means every address. -/
  range : Option Range
  expiredAt : Int
  reason : String
  eventLevel : String
  nodeId : Int
  serverId : Int
  source : Provenance
  deriving DecidableEq

namespace NewItem

def type (n : NewItem) : ItemType :=
  match n.range with
  | some r => .ofFamily r.family
  | none => .all

/-- Overlap is looked for among items of one family only. -/
def family (n : NewItem) : String :=
  match n.range with
  | some r => r.family.name
  | none => "all"

def value (n : NewItem) : String :=
  (n.range.map Range.toText).getD ""

def ipFrom (n : NewItem) : String :=
  (n.range.map Range.lowText).getD ""

def ipTo (n : NewItem) : String :=
  (n.range.map Range.highText).getD ""

def fromKey (n : NewItem) : List UInt8 :=
  (n.range.map (·.low.key)).getD []

def toKey (n : NewItem) : List UInt8 :=
  (n.range.map (·.high.key)).getD []

/-- What a person wrote needs no attention; what a detector wrote, or for one node, does. -/
def startsRead (n : NewItem) : Bool :=
  !(n.source.isAutomated || 0 < n.nodeId)

end NewItem

end FirewallLists
