/-
  Lists of addresses and what they mean to a firewall.
-/

namespace FirewallLists

/-- Rows are switched off, never removed. -/
def isEnabled (state : Int) : Bool :=
  state == 1

/-- What a firewall does with the addresses of a list. -/
inductive ListType where
  /-- Let them through. -/
  | white
  /-- Turn them away. -/
  | black
  /-- Only observe them; such lists stay inside a policy and never reach the nodes. -/
  | grey
  deriving DecidableEq, Repr

namespace ListType

def name : ListType → String
  | white => "white"
  | black => "black"
  | grey => "grey"

def ofName? (s : String) : Option ListType :=
  if s = "white" then some white
  else if s = "black" then some black
  else if s = "grey" then some grey
  else none

/-- Membership lets traffic through. -/
def isAllowing : ListType → Bool
  | white | grey => true
  | black => false

theorem ofName?_name (t : ListType) : ofName? t.name = some t := by
  cases t <;> rfl

end ListType

/-- A list as the services see it. -/
structure IpList where
  id : Int
  name : String
  type : ListType
  /-- Every tenant may use the list. -/
  isPublic : Bool
  /-- The list applies to the whole network and not to one server. -/
  isGlobal : Bool
  serverId : Option Int
  userId : Option Int
  description : String
  enabled : Bool
  createdAt : Int
  deriving DecidableEq, Repr

/-- The entries of the list apply to every server on every node. -/
def IpList.isNetworkWide (l : IpList) : Bool :=
  l.isPublic && l.isGlobal

/-- A list to be made. -/
structure NewList where
  name : String
  type : ListType
  isPublic : Bool
  isGlobal : Bool
  serverId : Option Int
  userId : Option Int
  description : String

/-- An id that may be missing; ids of zero and below mean the same as none. -/
def positiveId (id : Option Int) : Option Int :=
  id.filter (0 < ·)

/-- The list names a server or a tenant that it belongs to. -/
def NewList.hasOwner (l : NewList) : Bool :=
  (positiveId l.serverId).isSome || (positiveId l.userId).isSome

end FirewallLists
