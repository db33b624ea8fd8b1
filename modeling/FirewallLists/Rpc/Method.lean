/-
  The remote methods: one service for items and one for lists.
-/

namespace FirewallLists

inductive Method where
  | createItem
  | createItems
  | updateItem
  | deleteItem
  | deleteItems
  | pullItems
  | checkStatus
  | findItem
  | existsItem
  | countInList
  | listInList
  | countAll
  | searchAll
  | searchIds
  | markRead
  | findItemServer
  | createList
  | findList
  | deleteList
  | deleteServerLists
  | findListServer
  deriving DecidableEq, Repr

namespace Method

def name : Method → String
  | createItem => "CreateIPItem"
  | createItems => "CreateIPItems"
  | updateItem => "UpdateIPItem"
  | deleteItem => "DeleteIPItem"
  | deleteItems => "DeleteIPItems"
  | pullItems => "ListIPItemsAfterVersion"
  | checkStatus => "CheckIPItemStatus"
  | findItem => "FindEnabledIPItem"
  | existsItem => "ExistsEnabledIPItem"
  | countInList => "CountIPItemsWithListId"
  | listInList => "ListIPItemsWithListId"
  | countAll => "CountAllEnabledIPItems"
  | searchAll => "ListAllEnabledIPItems"
  | searchIds => "ListAllIPItemIds"
  | markRead => "UpdateIPItemsRead"
  | findItemServer => "FindServerIdWithIPItemId"
  | createList => "CreateIPList"
  | findList => "FindEnabledIPList"
  | deleteList => "DeleteIPList"
  | deleteServerLists => "DeleteIPListsWithServerId"
  | findListServer => "FindServerIdWithIPListId"

/-- The methods of the item service. -/
def ofItems : List Method :=
  [createItem, createItems, updateItem, deleteItem, deleteItems, pullItems, checkStatus, findItem,
    existsItem, countInList, listInList, countAll, searchAll, searchIds, markRead, findItemServer]

/-- The methods of the list service. -/
def ofLists : List Method :=
  [createList, findList, deleteList, deleteServerLists, findListServer]

/-- The path under which a method is called. -/
def path (m : Method) : String :=
  (if ofLists.contains m then "/rpc/IPListService/" else "/rpc/IPItemService/") ++ m.name

def ofPath? (path : String) : Option Method :=
  (ofItems ++ ofLists).find? (·.path == path)

end Method

end FirewallLists
