import FirewallLists.Json
import FirewallLists.Rpc.Call

/-
  Replies as JSON.
-/

namespace FirewallLists

open Json

namespace Provenance

/-- What caused an item, as members of the item's object. -/
def members (p : Provenance) : List (String × Json) :=
  [("sourceNodeId", ofOption .int p.nodeId),
   ("sourceServerId", ofOption .int p.serverId),
   ("sourceHTTPFirewallPolicyId", ofOption .int p.policyId),
   ("sourceHTTPFirewallRuleGroupId", ofOption .int p.ruleGroupId),
   ("sourceHTTPFirewallRuleSetId", ofOption .int p.ruleSetId)]

end Provenance

namespace Item

/-- The members of an item's object. -/
def members (i : Item) : List (String × Json) :=
  [("id", .int i.id),
   ("ipListId", .int i.listId),
   ("value", .str i.shownValue),
   ("ipFrom", .str i.ipFrom),
   ("ipTo", .str i.ipTo),
   ("type", .str i.type.name),
   ("version", .int i.version),
   ("expiredAt", .int i.expiredAt),
   ("reason", .str i.reason),
   ("eventLevel", .str i.eventLevel),
   ("nodeId", .int i.nodeId),
   ("serverId", .int i.serverId)]
  ++ i.source.members ++
  [("isRead", .bool i.isRead),
   ("createdAt", .int i.createdAt)]

def toJson (i : Item) : Json :=
  .obj i.members

end Item

def IpList.toJson (l : IpList) : Json :=
  .obj [
    ("id", .int l.id),
    ("name", .str l.name),
    ("type", .str l.type.name),
    ("isPublic", .bool l.isPublic),
    ("isGlobal", .bool l.isGlobal)]

def NameInfo.toJson (n : NameInfo) : Json :=
  .obj [("id", .int n.id), ("name", .str n.name)]

def NodeInfo.toJson (n : NodeInfo) : Json :=
  .obj [("id", .int n.id), ("name", .str n.name), ("clusterId", .int n.clusterId)]

def PolicyInfo.toJson (p : PolicyInfo) : Json :=
  .obj [("id", .int p.id), ("name", .str p.name), ("serverId", .int p.serverId)]

def PolicyView.toJson (p : PolicyView) : Json :=
  .obj [
    ("id", .int p.id),
    ("name", .str p.name),
    ("serverId", .int p.serverId),
    ("serverName", .str p.serverName)]

def ItemView.toJson (v : ItemView) : Json :=
  .obj (v.item.members ++ [
    ("sourceServer", ofOption NameInfo.toJson v.server),
    ("sourceHttpFirewallPolicy", ofOption PolicyView.toJson v.policy),
    ("sourceHttpFirewallRuleGroup", ofOption NameInfo.toJson v.ruleGroup),
    ("sourceHttpFirewallRuleSet", ofOption NameInfo.toJson v.ruleSet),
    ("sourceNode", ofOption NodeInfo.toJson v.node)])

def SearchResult.toJson (r : SearchResult) : Json :=
  .obj [
    ("ipList", r.list.toJson),
    ("ipItem", r.item.toJson),
    ("server", ofOption NameInfo.toJson r.server),
    ("httpFirewallPolicy", ofOption PolicyInfo.toJson r.policy)]

/-- A node has no use for the reason, which is left empty. -/
def PulledItem.toJson (i : PulledItem) : Json :=
  .obj [
    ("id", .int i.id),
    ("value", .str i.value),
    ("ipFrom", .str i.ipFrom),
    ("ipTo", .str i.ipTo),
    ("version", .int i.version),
    ("createdAt", .int i.createdAt),
    ("expiredAt", .int i.expiredAt),
    ("reason", .str ""),
    ("listId", .int i.listId),
    ("isDeleted", .bool i.isDeleted),
    ("type", .str i.type.name),
    ("eventLevel", .str i.eventLevel),
    ("listType", .str ((i.listType.map ListType.name).getD "")),
    ("isGlobal", .bool i.isGlobal),
    ("nodeId", .int i.nodeId),
    ("serverId", .int i.serverId)]

def Pull.Page.toJson (p : Pull.Page) : Json :=
  .obj [
    ("ipItems", .arr (p.items.map PulledItem.toJson)),
    ("version", .int p.version),
    ("hasMore", .bool p.hasMore)]

/-- The address was looked for, with this outcome. -/
def Contents.Status.toJson (s : Contents.Status) : Json :=
  let reply := fun (error : Option String) (item : Option (Item × Bool)) => Json.obj [
    ("isOk", .bool error.isNone),
    ("error", .str (error.getD "")),
    ("isFound", .bool item.isSome),
    ("isAllowed", .bool (item.any Prod.snd)),
    ("ipItem", ofOption (fun found => found.1.toJson) item)]
  match s with
  | .invalidAddress => reply (some "invalid ip") none
  | .listNotFound => reply (some "ip list not found") none
  | .absent => reply none none
  | .covered item allowing => reply none (some (item, allowing))

def Reply.toJson : Reply → Json
  | done => .obj []
  | itemId id => .obj [("ipItemId", .int id)]
  | itemIds ids => .obj [("ipItemIds", .arr (ids.map .int))]
  | item i => .obj [("ipItem", ofOption Item.toJson i)]
  | itemViews views => .obj [("ipItems", .arr (views.map ItemView.toJson))]
  | results rs => .obj [("results", .arr (rs.map SearchResult.toJson))]
  | page p => p.toJson
  | status s => s.toJson
  | found exist => .obj [("exists", .bool exist)]
  | count n => .obj [("count", .int n)]
  | listId id => .obj [("ipListId", .int id)]
  | listIds ids => .obj [("ipListIds", .arr (ids.map .int))]
  | list l => .obj [("ipList", ofOption IpList.toJson l)]
  | serverId id => .obj [("serverId", .int id)]

/-- The reply to a call that has failed. -/
def ServiceError.toJson (e : ServiceError) : Json :=
  .obj [("code", .str e.code.name), ("message", .str e.message)]

end FirewallLists
