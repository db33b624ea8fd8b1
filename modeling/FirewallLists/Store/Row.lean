import FirewallLists.Error
import FirewallLists.Item

/-
  Rows as they are stored. A row may have been written by someone else, so its columns hold
  whatever was put there; reading a row as a list or an item can fail.
-/

namespace FirewallLists

/-- Rows of a table are told apart by their ids. -/
class Identified (α : Type) where
  id : α → Int

structure ItemRow where
  id : Int
  listId : Int
  value : String
  ipFrom : String
  ipTo : String
  family : String
  fromKey : List UInt8
  toKey : List UInt8
  type : String
  version : Int
  state : Int
  expiredAt : Int
  reason : String
  eventLevel : String
  nodeId : Int
  serverId : Int
  source : Provenance
  isRead : Int
  createdAt : Int
  deriving DecidableEq, Repr

structure ListRow where
  id : Int
  name : String
  type : String
  isPublic : Int
  isGlobal : Int
  serverId : Option Int
  userId : Option Int
  description : String
  state : Int
  createdAt : Int
  deriving DecidableEq, Repr

structure ServerRow where
  id : Int
  name : String
  userId : Int
  state : Int
  deriving DecidableEq, Repr

structure NodeRow where
  id : Int
  name : String
  clusterId : Int
  state : Int
  deriving DecidableEq, Repr

structure PolicyRow where
  id : Int
  name : String
  serverId : Int
  allowListId : Option Int
  denyListId : Option Int
  greyListId : Option Int
  state : Int
  deriving DecidableEq, Repr

/-- Rule groups and rule sets have nothing but a name. -/
structure NameRow where
  id : Int
  name : String
  state : Int
  deriving DecidableEq, Repr

instance : Identified ItemRow := ⟨ItemRow.id⟩
instance : Identified ListRow := ⟨ListRow.id⟩
instance : Identified ServerRow := ⟨ServerRow.id⟩
instance : Identified NodeRow := ⟨NodeRow.id⟩
instance : Identified PolicyRow := ⟨PolicyRow.id⟩
instance : Identified NameRow := ⟨NameRow.id⟩

namespace ListRow

/-- The list that a row holds. -/
def toList (r : ListRow) : Except StorageError IpList :=
  match ListType.ofName? r.type with
  | none =>
    .error (.invalidRow ("ip list " ++ toString r.id ++ " has type '" ++ r.type ++ "'"))
  | some type => .ok {
      id := r.id
      name := r.name
      type := type
      isPublic := r.isPublic ≠ 0
      isGlobal := r.isGlobal ≠ 0
      serverId := positiveId r.serverId
      userId := positiveId r.userId
      description := r.description
      enabled := isEnabled r.state
      createdAt := r.createdAt }

/-- The row of a list made at a time. -/
def ofNew (l : NewList) (now id : Int) : ListRow where
  id := id
  name := l.name
  type := l.type.name
  isPublic := if l.isPublic then 1 else 0
  isGlobal := if l.isGlobal then 1 else 0
  serverId := positiveId l.serverId
  userId := positiveId l.userId
  description := l.description
  state := 1
  createdAt := now

end ListRow

namespace ItemRow

/-- The type that a row names. Rows from before types were stored name none. -/
def itemType (r : ItemRow) : Except StorageError ItemType :=
  if r.type = "" then .ok .ipv4
  else match ItemType.ofName? r.type with
    | some type => .ok type
    | none =>
      .error (.invalidRow ("ip item " ++ toString r.id ++ " has type '" ++ r.type ++ "'"))

/-- The item that a row holds. -/
def toItem (r : ItemRow) : Except StorageError Item := do
  let type ← r.itemType
  return {
    id := r.id
    listId := r.listId
    value := r.value
    ipFrom := r.ipFrom
    ipTo := r.ipTo
    type := type
    version := r.version
    enabled := isEnabled r.state
    expiredAt := r.expiredAt
    reason := r.reason
    eventLevel := r.eventLevel
    nodeId := r.nodeId
    serverId := r.serverId
    source := r.source.normalized
    isRead := r.isRead ≠ 0
    createdAt := r.createdAt }

/-- The row of a new item. -/
def ofNew (n : NewItem) (isRead : Bool) (now version id : Int) : ItemRow where
  id := id
  listId := n.listId
  value := n.value
  ipFrom := n.ipFrom
  ipTo := n.ipTo
  family := n.family
  fromKey := n.fromKey
  toKey := n.toKey
  type := n.type.name
  version := version
  state := 1
  expiredAt := n.expiredAt
  reason := n.reason
  eventLevel := n.eventLevel
  nodeId := n.nodeId
  serverId := n.serverId
  source := n.source
  isRead := if isRead then 1 else 0
  createdAt := now

/-- The row with the address and the remarks of a new item. -/
def revise (r : ItemRow) (n : NewItem) (version : Int) : ItemRow :=
  { r with
    value := n.value
    ipFrom := n.ipFrom
    ipTo := n.ipTo
    family := n.family
    fromKey := n.fromKey
    toKey := n.toKey
    type := n.type.name
    version := version
    expiredAt := n.expiredAt
    reason := n.reason
    eventLevel := n.eventLevel }

/-- The row switched off. -/
def retire (r : ItemRow) (version : Int) : ItemRow :=
  { r with state := 0, version := version }

/-- The row is switched on. -/
def isLive (r : ItemRow) : Bool :=
  isEnabled r.state

/-- The row is switched on and not past its time. -/
def isActive (r : ItemRow) (now : Int) : Bool :=
  r.isLive && (r.expiredAt == 0 || now < r.expiredAt)

/-- The row covers the address: it covers every address, or its bounds enclose it. -/
def covers (r : ItemRow) (a : Net.Address) : Bool :=
  r.family == "all" ||
    (r.family == a.family.name && Net.keyLe r.fromKey a.key && Net.keyLe a.key r.toKey)

/-- The row is of this family and its bounds meet these. -/
def overlaps (r : ItemRow) (family : String) (fromKey toKey : List UInt8) : Bool :=
  r.family == family && Net.keyLe r.fromKey toKey && Net.keyLe fromKey r.toKey

end ItemRow

end FirewallLists
