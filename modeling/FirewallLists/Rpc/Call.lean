import FirewallLists.Rpc.Method
import FirewallLists.Service.Items
import FirewallLists.Service.Pull
import FirewallLists.Service.Search

/-
  Calls with their arguments, and what they answer.
-/

namespace FirewallLists

/-- A method with its arguments. -/
inductive Call where
  | createItem (draft : ItemDraft)
  | createItems (drafts : List ItemDraft)
  | updateItem (itemId : Int) (draft : ItemDraft)
  | deleteItem (request : Items.DeleteRequest)
  | deleteItems (itemIds : List Int)
  | pullItems (version size : Int)
  | checkStatus (listId : Int) (address : String)
  | findItem (itemId : Int)
  | existsItem (itemId : Int)
  | countInList (filter : ListFilter)
  | listInList (filter : ListFilter) (offset size : Int)
  | countAll (query : SearchQuery)
  | searchAll (query : SearchQuery) (offset size : Int)
  | searchIds (query : SearchQuery) (offset size : Int)
  | markRead
  | findItemServer (itemId : Int)
  | createList (list : NewList)
  | findList (listId : Int)
  | deleteList (listId : Int)
  | deleteServerLists (serverId : Int)
  | findListServer (listId : Int)

/-- What a call answers when it succeeds. -/
inductive Reply where
  | done
  | itemId (id : Int)
  | itemIds (ids : List Int)
  | item (item : Option Item)
  | itemViews (views : List ItemView)
  | results (results : List SearchResult)
  | page (page : Pull.Page)
  | status (status : Contents.Status)
  | found (exist : Bool)
  | count (n : Nat)
  | listId (id : Int)
  | listIds (ids : List Int)
  | list (list : Option IpList)
  | serverId (id : Int)

namespace Call

def method : Call → Method
  | createItem _ => .createItem
  | createItems _ => .createItems
  | updateItem _ _ => .updateItem
  | deleteItem _ => .deleteItem
  | deleteItems _ => .deleteItems
  | pullItems _ _ => .pullItems
  | checkStatus _ _ => .checkStatus
  | findItem _ => .findItem
  | existsItem _ => .existsItem
  | countInList _ => .countInList
  | listInList _ _ _ => .listInList
  | countAll _ => .countAll
  | searchAll _ _ _ => .searchAll
  | searchIds _ _ _ => .searchIds
  | markRead => .markRead
  | findItemServer _ => .findItemServer
  | createList _ => .createList
  | findList _ => .findList
  | deleteList _ => .deleteList
  | deleteServerLists _ => .deleteServerLists
  | findListServer _ => .findListServer

/-- Carry a call out for a caller. -/
def run (cfg : Settings) (caller : Caller) : Call → ServiceM Reply
  | createItem draft => .itemId <$> Items.create caller draft
  | createItems drafts => .itemIds <$> Items.createAll caller drafts
  | updateItem itemId draft => do
    Items.update caller itemId draft
    return .done
  | deleteItem request => .count <$> Items.delete caller request
  | deleteItems itemIds => .count <$> Items.deleteAll caller itemIds
  | pullItems version size => .page <$> Pull.itemsAfter cfg caller version size
  | checkStatus listId address => .status <$> Contents.check caller listId address
  | findItem itemId => .item <$> Contents.find caller itemId
  | existsItem itemId => .found <$> Contents.exist caller itemId
  | countInList filter => .count <$> Contents.countInList caller filter
  | listInList filter offset size =>
    .itemViews <$> Contents.listInList cfg caller filter offset size
  | countAll query => .count <$> Search.countAll caller query
  | searchAll query offset size => .results <$> Search.items cfg caller query offset size
  | searchIds query offset size => .itemIds <$> Search.ids cfg caller query offset size
  | markRead => .count <$> Items.markRead caller
  | findItemServer itemId => .serverId <$> Contents.findServer caller itemId
  | createList list => .listId <$> Lists.create caller list
  | findList listId => .list <$> Lists.find caller listId
  | deleteList listId => do
    Lists.delete caller listId
    return .done
  | deleteServerLists serverId => .listIds <$> Lists.deleteOfServer caller serverId
  | findListServer listId => .serverId <$> Lists.findServer caller listId

end Call

end FirewallLists
