import FirewallLists.Store.Table

/-
  The tables. Items share one sequence of versions: every change of an item takes the next one,
  so whoever has seen all changes up to a version finds the later ones above it. A write is a
  function from the tables to the tables after it, or to an error that leaves nothing behind. A
  write of items reserves a version before it looks for anything, so the tables that it ends with
  differ from those it started from also when it has found nothing to write: whoever runs it has to
  give them up then.
-/

namespace FirewallLists

structure Store where
  items : Table ItemRow := {}
  lists : Table ListRow := {}
  servers : Table ServerRow := {}
  nodes : Table NodeRow := {}
  policies : Table PolicyRow := {}
  ruleGroups : Table NameRow := {}
  ruleSets : Table NameRow := {}
  /-- The last version given out. -/
  sequence : Int := 0
  deriving DecidableEq, Repr

/-- The lists that a query may see. -/
inductive Scope where
  | everywhere
  | lists (ids : List Int)
  deriving DecidableEq, Repr

namespace Scope

def admits : Scope → Int → Bool
  | .everywhere, _ => true
  | .lists ids, id => ids.contains id

/-- How many values a statement takes that is bound to the scope: one for each list. -/
def values : Scope → Nat
  | .everywhere => 0
  | .lists ids => ids.length

end Scope

/-- As many values a statement may take. -/
def maxValues : Nat := 32766

/-- A statement that takes too many values is refused. -/
def checkValues (n : Nat) : Except StorageError Unit :=
  if n ≤ maxValues then .ok () else .error .tooManyValues

namespace Store

/-! ## Versions -/

/-- Take the next version. -/
def nextVersion (s : Store) : Except StorageError (Int × Store) :=
  if s.sequence < maxInteger then
    .ok (s.sequence + 1, { s with sequence := s.sequence + 1 })
  else .error .noVersionLeft

/-- The version that is reserved, or else the next one. -/
def allocate (s : Store) : Option Int → Except StorageError (Int × Store)
  | some version => .ok (version, s)
  | none => s.nextVersion

/-- Another item than this one has the version. -/
def versionTaken (s : Store) (row : ItemRow) : Bool :=
  s.items.rows.any fun r => r.version == row.version && r.id != row.id

/-- Put an item in the place of the one with its id. -/
def replaceItem (s : Store) (row : ItemRow) : Except StorageError Store :=
  if s.versionTaken row then .error .versionTaken
  else .ok { s with items := s.items.replace row }

/-- Add an item. -/
def insertItem (s : Store) (row : ItemRow) : Except StorageError Store :=
  if s.versionTaken row then .error .versionTaken
  else .ok { s with items := s.items.insert row }

/-! ## Writing items -/

/-- An item switched off, and the version that tells of it. -/
structure Retired where
  itemId : Int
  listId : Int
  version : Int
  deriving DecidableEq, Repr

/-- An item written, and the items switched off to make room for it. -/
structure Written where
  itemId : Int
  version : Int
  replaced : List Retired
  deriving DecidableEq, Repr

/-- Switch an item off with this version. -/
def switchOff (s : Store) (row : ItemRow) (version : Int) :
    Except StorageError (Retired × Store) := do
  let s ← s.replaceItem (row.retire version)
  return (⟨row.id, row.listId, version⟩, s)

/-- Switch items off one after the other. The first takes the version that is reserved, if one
is; what is left of the reservation is handed on. -/
def switchOffAll : List ItemRow → Option Int → Store →
    Except StorageError (List Retired × Option Int × Store)
  | [], reserved, s => .ok ([], reserved, s)
  | row :: rows, reserved, s => do
    let (version, s) ← s.allocate reserved
    let (retired, s) ← s.switchOff row version
    let (more, reserved, s) ← switchOffAll rows none s
    return (retired :: more, reserved, s)

/-- The items in the way of a new one: switched on, in its list, of its family, and with bounds
that meet its own. One item, by its id, is never in the way. -/
def overlapping (s : Store) (n : NewItem) (exclude : Int) : List ItemRow :=
  s.items.rows.filter fun r =>
    r.listId == n.listId && r.isLive && r.overlaps n.family n.fromKey n.toKey && r.id != exclude

/-- Add an item in place of all that it overlaps. It gets the highest version of the write. -/
def createItem (s : Store) (n : NewItem) (isRead : Bool) (now : Int) :
    Except StorageError (Written × Store) := do
  let (reserved, s) ← s.nextVersion
  let (replaced, reserved, s) ← switchOffAll (s.overlapping n 0) (some reserved) s
  let (version, s) ← s.allocate reserved
  let id ← s.items.nextId
  let s ← s.insertItem (.ofNew n isRead now version id)
  return (⟨id, version, replaced⟩, s)

/-- The item with this id, if it is switched on. -/
def liveItem? (s : Store) (id : Int) : Option ItemRow :=
  (s.items.find? id).filter (·.isLive)

/-- Revise an item that is switched on, in place of all others that it now overlaps. When there
is no such item, a version has been reserved for nothing. -/
def updateItem (s : Store) (id : Int) (n : NewItem) :
    Except StorageError (Option Written × Store) := do
  let (reserved, s) ← s.nextVersion
  match s.liveItem? id with
  | none => return (none, s)
  | some row =>
    let (replaced, reserved, s) ← switchOffAll (s.overlapping n id) (some reserved) s
    let (version, s) ← s.allocate reserved
    let s ← s.replaceItem (row.revise n version)
    return (some ⟨id, version, replaced⟩, s)

/-- Switch off an item that is switched on. When there is no such item, a version has been
reserved for nothing. -/
def disableItem (s : Store) (id : Int) : Except StorageError (Option Retired × Store) := do
  let (version, s) ← s.nextVersion
  match s.liveItem? id with
  | none => return (none, s)
  | some row =>
    let (retired, s) ← s.switchOff row version
    return (some retired, s)

/-- The items of a scope that are switched on and have these bounds. -/
def withBounds (s : Store) (scope : Scope) (range : Net.Range) : List ItemRow :=
  s.items.rows.filter fun r =>
    r.isLive && r.ipFrom == range.lowText && r.ipTo == range.highText && scope.admits r.listId

/-- Switch off the items of a scope with these bounds. When there are none, a version has been
reserved for nothing. -/
def disableMatching (s : Store) (scope : Scope) (range : Net.Range) :
    Except StorageError (List Retired × Store) := do
  let (reserved, s) ← s.nextVersion
  checkValues (2 + scope.values)
  let (retired, _, s) ← switchOffAll (s.withBounds scope range) (some reserved) s
  return (retired, s)

/-- The item is switched on, in scope, and nobody has read it. -/
def isUnreadIn (scope : Scope) (r : ItemRow) : Bool :=
  r.isLive && r.isRead == 0 && scope.admits r.listId

/-- Mark the unread items of a scope as read and count them. No version tells of it. -/
def markRead (s : Store) (scope : Scope) : Nat × Store :=
  let mark := fun r : ItemRow => if isUnreadIn scope r then { r with isRead := 1 } else r
  ((s.items.rows.filter (isUnreadIn scope)).length, { s with items := s.items.update mark })

/-- Acknowledge the unread items of a scope. -/
def acknowledge (s : Store) (scope : Scope) : Except StorageError (Nat × Store) := do
  checkValues scope.values
  return s.markRead scope

/-! ## Lists -/

/-- Add a list. -/
def createList (s : Store) (l : NewList) (now : Int) : Except StorageError (Int × Store) := do
  let id ← s.lists.nextId
  return (id, { s with lists := s.lists.insert (.ofNew l now id) })

/-- The list with this id, switched on or off. -/
def findList (s : Store) (id : Int) : Except StorageError (Option IpList) :=
  match s.lists.find? id with
  | some row => some <$> row.toList
  | none => .ok none

/-- The list with this id, if it is switched on. -/
def findEnabledList (s : Store) (id : Int) : Except StorageError (Option IpList) := do
  return (← s.findList id).filter (·.enabled)

/-- The row with this id, if it is switched on. -/
def liveList? (s : Store) (id : Int) : Option ListRow :=
  (s.lists.find? id).filter fun r => isEnabled r.state

/-- Switch a list off. Its items stay as they are. -/
def disableList (s : Store) (id : Int) : Option Store :=
  (s.liveList? id).map fun row => { s with lists := s.lists.replace { row with state := 0 } }

/-- The lists of a server that are switched on. -/
def serverLists (s : Store) (serverId : Int) : List ListRow :=
  s.lists.rows.filter fun r => r.serverId == some serverId && isEnabled r.state

/-- Switch off the lists of a server, and tell which. -/
def disableServerLists (s : Store) (serverId : Int) : List Int × Store :=
  let off := fun r : ListRow =>
    if r.serverId == some serverId && isEnabled r.state then { r with state := 0 } else r
  ((s.serverLists serverId).map (·.id), { s with lists := s.lists.update off })

/-- The server of a list that is switched on, if the list has one. -/
def listServerId? (s : Store) (id : Int) : Option Int :=
  (s.liveList? id).bind fun row => positiveId row.serverId

/-- The lists, switched on, of a tenant or of one of these servers. -/
def tenantLists (s : Store) (userId : Int) (serverIds : List Int) : List Int :=
  (s.lists.rows.filter fun r =>
    isEnabled r.state &&
      (r.userId == some userId || r.serverId.any fun id => serverIds.contains id)).map (·.id)

/-- Look for the lists of a tenant or of one of these servers. -/
def findTenantLists (s : Store) (userId : Int) (serverIds : List Int) :
    Except StorageError (List Int) := do
  checkValues (1 + serverIds.length)
  return s.tenantLists userId serverIds

end Store

end FirewallLists
