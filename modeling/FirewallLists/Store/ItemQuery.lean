import FirewallLists.Store
import FirewallLists.Text.Like

/-
  Looking items up: by id, by version, by address, and by filters with pages. The text of a
  filter is left out of the query when it is empty.
-/

namespace FirewallLists

open Text

/-- A filter for the items of one list. -/
structure ListFilter where
  listId : Int
  keyword : String
  ipFrom : String
  ipTo : String
  eventLevel : String
  deriving DecidableEq, Repr

/-- A filter for the items of all lists. -/
structure SearchFilter where
  keyword : String
  /-- Only items that cover the address. -/
  address : Option Net.Address
  unreadOnly : Bool
  eventLevel : String
  listType : Option ListType
  globalOnly : Bool

/-- What is asked of a search. -/
inductive SearchKind where
  /-- How many items it finds. -/
  | count
  /-- Some of the items that it finds. -/
  | page
  deriving DecidableEq, Repr

/-- A page takes two values beside those of the search: where it starts and how long it may be. -/
def SearchKind.values : SearchKind → Nat
  | .count => 0
  | .page => 2

/-- A text has to equal this one, if it is not empty. -/
def equalsIfGiven (wanted text : String) : Bool :=
  wanted == "" || text == wanted

/-- One of the texts has to contain the keyword, if it is not empty. -/
def mentions (keyword : String) (texts : List String) : Bool :=
  keyword == "" || texts.any (Like.isMatch (Like.containing keyword))

/-- The keyword can be looked for. -/
def isEvaluable (keyword : String) : Bool :=
  keyword == "" || Like.evaluable (Like.containing keyword)

/-- One page of rows; a negative size sets no limit. -/
def page {α : Type} (offset size : Int) (rows : List α) : List α :=
  let rows := rows.drop offset.toNat
  if size < 0 then rows else rows.take size.toNat

namespace ListFilter

/-- The item is an active one of the filter's list. -/
def concerns (f : ListFilter) (now : Int) (r : ItemRow) : Bool :=
  r.listId == f.listId && r.isActive now

/-- The item passes the texts of the filter. -/
def accepts (f : ListFilter) (r : ItemRow) : Bool :=
  mentions f.keyword [r.value, r.ipFrom, r.ipTo, r.reason] &&
    equalsIfGiven f.ipFrom r.ipFrom && equalsIfGiven f.ipTo r.ipTo &&
    equalsIfGiven f.eventLevel r.eventLevel

end ListFilter

namespace SearchFilter

/-- The item passes the filter; its list, if there is one, is at hand. -/
def accepts (f : SearchFilter) (r : ItemRow) (list : Option ListRow) : Bool :=
  mentions f.keyword [r.value, r.reason] &&
    f.address.all r.covers &&
    (!f.unreadOnly || r.isRead == 0) &&
    equalsIfGiven f.eventLevel r.eventLevel &&
    f.listType.all (fun t => list.any fun l => l.type == t.name) &&
    (!f.globalOnly || list.any fun l => l.isPublic == 1 && l.isGlobal == 1)

/-- How many values a search takes: the time, the lists of the scope, what the filter asks for, and
those of the kind of search. -/
def values (f : SearchFilter) (kind : SearchKind) (scope : Scope) : Nat :=
  1 + scope.values +
    (if f.keyword == "" then 0 else 2) +
    (if f.address.isSome then 3 else 0) +
    (if f.eventLevel == "" then 0 else 1) +
    (if f.listType.isSome then 1 else 0) +
    kind.values

/-- The filter asks for something of the list of an item. -/
def asksForList (f : SearchFilter) : Bool :=
  f.listType.isSome || f.globalOnly

/-- The list is one that the filter asks for. -/
def acceptsList (f : SearchFilter) (l : ListRow) : Bool :=
  f.listType.all (fun t => l.type == t.name) &&
    (!f.globalOnly || (l.isPublic == 1 && l.isGlobal == 1))

/-- From so many lists on, a page of the items that cover an address is looked for by the address
first, and not by the lists. -/
def addressFirstFrom (f : SearchFilter) : Nat :=
  let ofItem := (if f.unreadOnly then 1 else 0) + (if f.eventLevel == "" then 0 else 1)
  let ofList := (if f.listType.isSome then 1 else 0) + (if f.globalOnly then 2 else 0)
  if ofList ≤ ofItem then 5 else 6

/-- The keyword is tried on an active item of the scope; its list, if there is one, is at hand.
Only a search in some lists that asks for something of them has other conditions looked at first:
those on the list, or else whether the item covers the address. -/
def triesKeyword (f : SearchFilter) (kind : SearchKind) (scope : Scope) (r : ItemRow)
    (list : Option ListRow) : Bool :=
  match scope with
  | .everywhere => true
  | .lists ids =>
    if !f.asksForList then true
    else if kind == .page && f.address.isSome && f.addressFirstFrom ≤ ids.length then
      f.address.all r.covers
    else list.any f.acceptsList

end SearchFilter

namespace Store

/-- The item with this id, switched on or off. -/
def findItem (s : Store) (id : Int) : Except StorageError (Option Item) :=
  match s.items.find? id with
  | some row => some <$> row.toItem
  | none => .ok none

/-- The item with this id, if it is active. -/
def findActiveItem (s : Store) (id now : Int) : Except StorageError (Option Item) := do
  return (← s.findItem id).filter (·.isActive now)

/-- There is an active item with this id. -/
def existsActiveItem (s : Store) (id now : Int) : Bool :=
  (s.items.find? id).any (·.isActive now)

/-- The list of an item, switched on or off. -/
def itemListId? (s : Store) (id : Int) : Option Int :=
  (s.items.find? id).map (·.listId)

/-- The rows above a version in ascending order of their versions, up to a number. -/
def rowsAfter (s : Store) (version size : Int) : List ItemRow :=
  page 0 size
    ((s.items.rows.filter fun r => version < r.version).mergeSort fun a b => a.version ≤ b.version)

/-- The items above a version in ascending order of their versions, up to a number. -/
def itemsAfter (s : Store) (version size : Int) : Except StorageError (List Item) :=
  (s.rowsAfter version size).mapM (·.toItem)

/-- Of two rows, the one with the higher version. -/
def newer (best : Option ItemRow) (r : ItemRow) : Option ItemRow :=
  match best with
  | some b => if b.version < r.version then some r else best
  | none => some r

/-- The newest active item of a list that covers an address. -/
def findCovering (s : Store) (listId : Int) (a : Net.Address) (now : Int) :
    Except StorageError (Option Item) :=
  let rows := s.items.rows.filter fun r => r.listId == listId && r.isActive now && r.covers a
  match rows.foldl newer none with
  | some row => some <$> row.toItem
  | none => .ok none

/-! ## Filters -/

/-- The rows that a filter for one list accepts, the newest first. -/
def filterList (s : Store) (f : ListFilter) (now : Int) : Except StorageError (List ItemRow) :=
  let rows := s.items.rows.filter (f.concerns now)
  if !isEvaluable f.keyword && !rows.isEmpty then .error .patternTooLong
  else .ok (rows.filter f.accepts).reverse

def countInList (s : Store) (f : ListFilter) (now : Int) : Except StorageError Nat := do
  return (← s.filterList f now).length

def listInList (s : Store) (f : ListFilter) (now offset size : Int) :
    Except StorageError (List Item) := do
  (page offset size (← s.filterList f now)).mapM (·.toItem)

/-- The active rows of a scope. -/
def activeIn (s : Store) (scope : Scope) (now : Int) : List ItemRow :=
  s.items.rows.filter fun r => r.isActive now && scope.admits r.listId

/-- The rows of a scope that a filter for all lists accepts, the newest first. A keyword that
cannot be looked for is noticed only once it is tried on a row. -/
def search (s : Store) (kind : SearchKind) (scope : Scope) (f : SearchFilter) (now : Int) :
    Except StorageError (List ItemRow) := do
  checkValues (f.values kind scope)
  let rows := s.activeIn scope now
  let tried := rows.any fun r => f.triesKeyword kind scope r (s.lists.find? r.listId)
  if !isEvaluable f.keyword && tried then .error .patternTooLong
  else .ok (rows.filter fun r => f.accepts r (s.lists.find? r.listId)).reverse

def searchCount (s : Store) (scope : Scope) (f : SearchFilter) (now : Int) :
    Except StorageError Nat := do
  return (← s.search .count scope f now).length

def searchItems (s : Store) (scope : Scope) (f : SearchFilter) (now offset size : Int) :
    Except StorageError (List Item) := do
  (page offset size (← s.search .page scope f now)).mapM (·.toItem)

def searchIds (s : Store) (scope : Scope) (f : SearchFilter) (now offset size : Int) :
    Except StorageError (List Int) := do
  return (page offset size (← s.search .page scope f now)).map (·.id)

end Store

end FirewallLists
