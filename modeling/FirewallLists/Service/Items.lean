import FirewallLists.Item.Draft
import FirewallLists.Service.Ownership

/-
  Writing items. Everything that a caller sends is checked before anything is written. Each item
  is written in a transaction of its own, and one signal follows what a call has written.
-/

namespace FirewallLists.Items

open ServiceM Ownership

/-- Check a draft and that its list may be written to. -/
def prepare (caller : Caller) (draft : ItemDraft) : ServiceM NewItem := do
  let item ← ofExcept draft.normalize
  checkWritable caller item.listId
  return item

/-- Write one item and count it. -/
def store (item : NewItem) : ServiceM Store.Written := do
  let time ← now
  let written ← transact (·.createItem item item.startsRead time)
  count (.itemsWritten .create) 1
  count (.itemsWritten .replace) written.replaced.length
  return written

/-- Make an item in place of all that it overlaps. -/
def create (caller : Caller) (draft : ItemDraft) : ServiceM Int := do
  require caller [.admin, .user, .node]
  let item ← prepare caller draft
  let written ← store item
  signal ⟨written.itemId, item.listId, written.version⟩
  return written.itemId

/-- Write items one after the other and signal the last one written, also when one fails. -/
def storeAll : List NewItem → Option Change → ServiceM (List Int)
  | [], last => do
    signalLast last
    return []
  | item :: items, last => do
    match ← attempt (store item) with
    | .ok written =>
      let ids ← storeAll items (some ⟨written.itemId, item.listId, written.version⟩)
      return written.itemId :: ids
    | .error e =>
      signalLast last
      throw e

/-- Make several items, all of which are checked before the first is written. -/
def createAll (caller : Caller) (drafts : List ItemDraft) : ServiceM (List Int) := do
  require caller [.admin, .user, .node]
  let items ← drafts.mapM (prepare caller)
  storeAll items none

/-- The list of an item, switched on or off. -/
def listOf (itemId : Int) : ServiceM Int := do
  match ← query fun s => .ok (s.itemListId? itemId) with
  | some listId => return listId
  | none => throw (.itemNotFound itemId)

/-- Revise an item. It stays in its list, whatever list the draft names. -/
def update (caller : Caller) (itemId : Int) (draft : ItemDraft) : ServiceM Unit := do
  require caller [.admin, .user]
  let listId ← listOf itemId
  checkCallerList caller listId
  let item ← ofExcept { draft with listId := listId }.normalize
  match ← transact? (·.updateItem itemId item) with
  | none => throw (.itemNotFound itemId)
  | some written =>
    count (.itemsWritten .update) 1
    count (.itemsWritten .replace) written.replaced.length
    signal ⟨itemId, listId, written.version⟩

/-- What to delete. -/
inductive Target where
  | item (id : Int)
  | value (text : String)
  | bounds (lower upper : String)
  deriving DecidableEq, Repr

/-- What a caller sends to name what to delete. -/
structure DeleteRequest where
  itemId : Int := 0
  value : String := ""
  ipFrom : String := ""
  ipTo : String := ""
  listId : Int := 0
  deriving DecidableEq, Repr

/-- The request has to name an item, a value or bounds, and only one of them. -/
def DeleteRequest.target (r : DeleteRequest) : Except ServiceError Target :=
  match decide (0 < r.itemId), !Text.allBlank r.value, !Text.allBlank r.ipFrom with
  | true, false, false => .ok (.item r.itemId)
  | false, true, false => .ok (.value r.value)
  | false, false, true => .ok (.bounds r.ipFrom r.ipTo)
  | _, _, _ =>
    .error (.validation "exactly one of 'ipItemId', 'value' or 'ipFrom' is required")

/-- Switch off one item. -/
def deleteOne (caller : Caller) (itemId : Int) : ServiceM Nat := do
  let listId ← listOf itemId
  checkCallerList caller listId
  match ← transact? (·.disableItem itemId) with
  | none => throw (.itemNotFound itemId)
  | some retired =>
    count (.itemsWritten .delete) 1
    signal retired.change
    return 1

/-- The lists in which items are deleted: the one named, or all that the caller may touch. -/
def deleteScope (caller : Caller) (listId : Int) : ServiceM Scope := do
  if 0 < listId then
    checkCallerList caller listId
    return .lists [listId]
  else scopeOf caller.userId?

/-- Switch off the items with these bounds. -/
def deleteBounds (caller : Caller) (range : Net.Range) (listId : Int) : ServiceM Nat := do
  let scope ← deleteScope caller listId
  let retired ← transact? fun s => do
    let (retired, s) ← s.disableMatching scope range
    return (if retired.isEmpty then none else some retired, s)
  let retired := retired.getD []
  count (.itemsWritten .delete) retired.length
  signalLast (retired.getLast?.map (·.change))
  return retired.length

/-- Switch off what a request names. -/
def delete (caller : Caller) (request : DeleteRequest) : ServiceM Nat := do
  let target ← ofExcept request.target
  require caller [.admin, .user]
  match target with
  | .item id => deleteOne caller id
  | .value text =>
    let range ← ofExcept ((Net.Range.ofValue text).mapError .invalidRange)
    deleteBounds caller range request.listId
  | .bounds lower upper =>
    let range ← ofExcept ((Net.Range.ofBounds lower upper).mapError .invalidRange)
    deleteBounds caller range request.listId

/-- The items that are there, each of which the caller has to be allowed to change. -/
def deletable (caller : Caller) : List Int → ServiceM (List Int)
  | [] => return []
  | id :: ids => do
    match ← query fun s => .ok (s.itemListId? id) with
    | some listId =>
      checkCallerList caller listId
      return id :: (← deletable caller ids)
    | none => deletable caller ids

/-- Switch off items one after the other; those that are off already are passed over. -/
def disableAll : List Int → ServiceM (List Store.Retired)
  | [] => return []
  | id :: ids => do
    match ← transact? (·.disableItem id) with
    | some retired => return retired :: (← disableAll ids)
    | none => disableAll ids

/-- Switch off several items by their ids. -/
def deleteAll (caller : Caller) (ids : List Int) : ServiceM Nat := do
  require caller [.admin, .user]
  let retired ← disableAll (← deletable caller ids)
  count (.itemsWritten .delete) retired.length
  signalLast (retired.getLast?.map (·.change))
  return retired.length

/-- Mark all unread items that the caller may see as read. -/
def markRead (caller : Caller) : ServiceM Nat := do
  require caller [.admin, .user]
  let scope ← scopeOf caller.userId?
  transact (·.acknowledge scope)

end FirewallLists.Items
