import FirewallLists.Json.Record
import FirewallLists.Rpc.Call

/-
  Calls read from the body of a request. What a body leaves out has the value that means nothing
  was asked for; only the type of a new list has to be there. Drafts of items and searches with
  a page are open records, because other fields stand among their own.
-/

namespace FirewallLists

open Json Reader

namespace Provenance

def fields : List (RecordField Provenance) :=
  [.nullableInteger "sourceNodeId" fun n p => { p with nodeId := n },
   .nullableInteger "sourceServerId" fun n p => { p with serverId := n },
   .nullableInteger "sourceHTTPFirewallPolicyId" fun n p => { p with policyId := n },
   .nullableInteger "sourceHTTPFirewallRuleGroupId" fun n p => { p with ruleGroupId := n },
   .nullableInteger "sourceHTTPFirewallRuleSetId" fun n p => { p with ruleSetId := n }]

end Provenance

namespace ItemDraft

/-- The fields of a draft but for those that tell what caused it. -/
def fields : List (RecordField ItemDraft) :=
  [.integer "ipListId" fun n d => { d with listId := n },
   .text "value" fun s d => { d with value := s },
   .text "ipFrom" fun s d => { d with ipFrom := s },
   .text "ipTo" fun s d => { d with ipTo := s },
   .text "type" fun s d => { d with type := s },
   .integer "expiredAt" fun n d => { d with expiredAt := n },
   .text "reason" fun s d => { d with reason := s },
   .text "eventLevel" fun s d => { d with eventLevel := s },
   .integer "nodeId" fun n d => { d with nodeId := n },
   .integer "serverId" fun n d => { d with serverId := n }]

/-- The draft that an object's members write. -/
def ofMembers? (members : List (String × Json)) : Option ItemDraft := do
  let (draft, members) ← takeFields fields {} members
  let (source, _) ← takeFields Provenance.fields {} members
  return { draft with source := source }

def ofJson? : Json → Option ItemDraft
  | .obj members => ofMembers? members
  | _ => none

def read : Reader ItemDraft := do
  let (draft, members) ← openRecord fields {}
  let (source, _) ← takeRecord Provenance.fields {} members
  return { draft with source := source }

/-- The draft that a whole text writes. -/
def ofText? (s : String) : Option ItemDraft :=
  match read.front (Text.Raw.ofString s) with
  | .ok (draft, rest) => if rest.all isSpace then some draft else none
  | .error _ => none

/-- An array of drafts. -/
def listField {σ : Type} (name : String) (set : List ItemDraft → σ → σ) : RecordField σ where
  name := name
  read := set <$> list read
  ofJson?
    | .arr js => (js.mapM ofJson?).map set
    | _ => none

end ItemDraft

/-- The name of a list type. -/
def ListType.field {σ : Type} (name : String) (set : ListType → σ → σ) : RecordField σ where
  name := name
  read := set <$> choice ofName?
  ofJson?
    | .str s => (ofName? s).map set
    | .obj [(s, .null)] => (ofName? s).map set
    | _ => none
  required := true

/-- The type has to be given and stands here only until then. -/
def NewList.blank : NewList :=
  ⟨"", .black, false, false, none, none, ""⟩

def NewList.fields : List (RecordField NewList) :=
  [.text "name" fun s l => { l with name := s },
   ListType.field "type" fun t l => { l with type := t },
   .flag "isPublic" fun b l => { l with isPublic := b },
   .flag "isGlobal" fun b l => { l with isGlobal := b },
   .nullableInteger "serverId" fun n l => { l with serverId := n },
   .nullableInteger "userId" fun n l => { l with userId := n },
   .text "description" fun s l => { l with description := s }]

def Items.DeleteRequest.fields : List (RecordField Items.DeleteRequest) :=
  [.integer "ipItemId" fun n r => { r with itemId := n },
   .text "value" fun s r => { r with value := s },
   .text "ipFrom" fun s r => { r with ipFrom := s },
   .text "ipTo" fun s r => { r with ipTo := s },
   .integer "ipListId" fun n r => { r with listId := n }]

def SearchQuery.fields : List (RecordField SearchQuery) :=
  [.integer "userId" fun n q => { q with userId := n },
   .text "keyword" fun s q => { q with keyword := s },
   .text "ip" fun s q => { q with address := s },
   .flag "unread" fun b q => { q with unread := b },
   .text "eventLevel" fun s q => { q with eventLevel := s },
   .text "listType" fun s q => { q with listType := s },
   .flag "globalOnly" fun b q => { q with globalOnly := b }]

/-- Which part of a result is asked for. -/
structure PageRequest where
  offset : Int := 0
  size : Int := 0
  deriving DecidableEq, Repr

def PageRequest.fields : List (RecordField PageRequest) :=
  [.integer "offset" fun n p => { p with offset := n },
   .integer "size" fun n p => { p with size := n }]

/-- A filter for one list and a part of its result. -/
structure ListRequest where
  filter : ListFilter := ⟨0, "", "", "", ""⟩
  page : PageRequest := {}

namespace ListRequest

/-- The texts of a filter count without the blank characters around them. -/
def fields : List (RecordField ListRequest) :=
  [.integer "ipListId" fun n r => { r with filter.listId := n },
   .text "keyword" fun s r => { r with filter.keyword := Text.trim s },
   .text "ipFrom" fun s r => { r with filter.ipFrom := Text.trim s },
   .text "ipTo" fun s r => { r with filter.ipTo := Text.trim s },
   .text "eventLevel" fun s r => { r with filter.eventLevel := Text.trim s },
   .integer "offset" fun n r => { r with page.offset := n },
   .integer "size" fun n r => { r with page.size := n }]

def read : Reader ListRequest :=
  closedRecord fields {}

end ListRequest

namespace Call

/-- A record with one integer. -/
def oneInteger (name : String) : Reader Int :=
  closedRecord [.integer name fun n _ => n] 0

/-- A query and which part of its result is asked for. -/
def searchPage : Reader (SearchQuery × PageRequest) := do
  let (page, members) ← openRecord PageRequest.fields {}
  let (query, _) ← takeRecord SearchQuery.fields {} members
  return (query, page)

/-- A version and a number of items. -/
def pullRequest : Reader (Int × Int) :=
  closedRecord
    [.integer "version" fun n r => (n, r.2), .integer "size" fun n r => (r.1, n)] (0, 0)

/-- A list and an address. -/
def statusRequest : Reader (Int × String) :=
  closedRecord
    [.integer "ipListId" fun n r => (n, r.2), .text "ip" fun s r => (r.1, s)] (0, "")

/-- An item and its new form. -/
def updateRequest : Reader (Int × ItemDraft) := do
  let (itemId, members) ← openRecord [.integer "ipItemId" fun n _ => n] 0
  match ItemDraft.ofMembers? members with
  | some draft => return (itemId, draft)
  | none => misfit

/-- Where the arguments of a call come from. -/
inductive Source where
  /-- There are none. -/
  | nowhere (call : Call)
  | body (read : Reader Call)

/-- Where the arguments of a method come from. -/
def source : Method → Source
  | .createItem => .body (createItem <$> ItemDraft.read)
  | .createItems => .body do
    return createItems (← closedRecord [ItemDraft.listField "ipItems" fun ds _ => ds] [])
  | .updateItem => .body do
    let (itemId, draft) ← updateRequest
    return updateItem itemId draft
  | .deleteItem => .body (deleteItem <$> closedRecord Items.DeleteRequest.fields {})
  | .deleteItems => .body do
    return deleteItems (← closedRecord [.integers "ipItemIds" fun ids _ => ids] [])
  | .pullItems => .body do
    let (version, size) ← pullRequest
    return pullItems version size
  | .checkStatus => .body do
    let (listId, address) ← statusRequest
    return checkStatus listId address
  | .findItem => .body (findItem <$> oneInteger "ipItemId")
  | .existsItem => .body (existsItem <$> oneInteger "ipItemId")
  | .countInList => .body do
    return countInList (← ListRequest.read).filter
  | .listInList => .body do
    let request ← ListRequest.read
    return listInList request.filter request.page.offset request.page.size
  | .countAll => .body (countAll <$> closedRecord SearchQuery.fields {})
  | .searchAll => .body do
    let (query, page) ← searchPage
    return searchAll query page.offset page.size
  | .searchIds => .body do
    let (query, page) ← searchPage
    return searchIds query page.offset page.size
  | .markRead => .nowhere markRead
  | .findItemServer => .body (findItemServer <$> oneInteger "ipItemId")
  | .createList => .body (createList <$> closedRecord NewList.fields .blank)
  | .findList => .body (findList <$> oneInteger "ipListId")
  | .deleteList => .body (deleteList <$> oneInteger "ipListId")
  | .deleteServerLists => .body (deleteServerLists <$> oneInteger "serverId")
  | .findListServer => .body (findListServer <$> oneInteger "ipListId")

end Call

end FirewallLists
