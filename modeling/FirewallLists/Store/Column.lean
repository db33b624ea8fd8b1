import FirewallLists.Store
import FirewallLists.Text.Split

/-
  The tables seen column by column: reading and writing single cells by the names of their table
  and column. Nothing is checked but that a cell is of the kind of its column, or can be made one
  of it, and that a new row comes with the columns that have no default, so rows can be written
  here that no call would write.
-/

namespace FirewallLists

/-- What a cell of a row holds. -/
inductive Cell where
  | null
  | integer (n : Int)
  | text (s : String)
  | octets (bytes : List UInt8)
  deriving DecidableEq, Repr

namespace Cell

/-- The integer that a column of integers keeps of a cell: a text that writes one is read. -/
def toInteger? : Cell → Option Int
  | .integer n => some n
  | .text s => (Text.signedDecimal? s.toList).filter fits64
  | _ => none

/-- The text that a column of texts keeps of a cell: an integer is written out. -/
def toText? : Cell → Option String
  | .integer n => some (toString n)
  | .text s => some s
  | _ => none

end Cell

/-- A cell of every row of a table. -/
structure Column (α : Type) where
  name : String
  get : α → Cell
  /-- The row with another cell, if the cell is of the right kind. -/
  set? : Cell → α → Option α

namespace Column

variable {α : Type}

def integer (name : String) (get : α → Int) (set : Int → α → α) : Column α where
  name := name
  get r := .integer (get r)
  set? cell r := cell.toInteger?.map fun n => set n r

def nullableInteger (name : String) (get : α → Option Int) (set : Option Int → α → α) :
    Column α where
  name := name
  get r := (get r).elim .null .integer
  set?
    | .null, r => some (set none r)
    | cell, r => cell.toInteger?.map fun n => set (some n) r

def text (name : String) (get : α → String) (set : String → α → α) : Column α where
  name := name
  get r := .text (get r)
  set? cell r := cell.toText?.map fun s => set s r

def octets (name : String) (get : α → List UInt8) (set : List UInt8 → α → α) : Column α where
  name := name
  get r := .octets (get r)
  set?
    | .octets bytes, r => some (set bytes r)
    | _, _ => none

/-- Write one cell by the name of its column. -/
def write? (columns : List (Column α)) (row : α) (cell : String × Cell) : Option α := do
  let column ← columns.find? (·.name == cell.1)
  column.set? cell.2 row

/-- All cells of a row. -/
def cells (columns : List (Column α)) (row : α) : List (String × Cell) :=
  columns.map fun column => (column.name, column.get row)

end Column

/-! ## The columns of each table -/

/-- A kind of row: its columns, the row with nothing but an id, and the columns that have no
default, so that a new row has to come with them. -/
class Columnar (α : Type) extends Identified α where
  columns : List (Column α)
  blank : Int → α
  required : List String := []

instance : Columnar ItemRow where
  columns := [
    .integer "id" (·.id) fun n r => { r with id := n },
    .integer "list_id" (·.listId) fun n r => { r with listId := n },
    .text "value" (·.value) fun s r => { r with value := s },
    .text "ip_from" (·.ipFrom) fun s r => { r with ipFrom := s },
    .text "ip_to" (·.ipTo) fun s r => { r with ipTo := s },
    .text "family" (·.family) fun s r => { r with family := s },
    .octets "from_key" (·.fromKey) fun b r => { r with fromKey := b },
    .octets "to_key" (·.toKey) fun b r => { r with toKey := b },
    .text "type" (·.type) fun s r => { r with type := s },
    .integer "version" (·.version) fun n r => { r with version := n },
    .integer "state" (·.state) fun n r => { r with state := n },
    .integer "expired_at" (·.expiredAt) fun n r => { r with expiredAt := n },
    .text "reason" (·.reason) fun s r => { r with reason := s },
    .text "event_level" (·.eventLevel) fun s r => { r with eventLevel := s },
    .integer "node_id" (·.nodeId) fun n r => { r with nodeId := n },
    .integer "server_id" (·.serverId) fun n r => { r with serverId := n },
    .nullableInteger "source_node_id" (·.source.nodeId)
      fun n r => { r with source.nodeId := n },
    .nullableInteger "source_server_id" (·.source.serverId)
      fun n r => { r with source.serverId := n },
    .nullableInteger "source_http_firewall_policy_id" (·.source.policyId)
      fun n r => { r with source.policyId := n },
    .nullableInteger "source_http_firewall_rule_group_id" (·.source.ruleGroupId)
      fun n r => { r with source.ruleGroupId := n },
    .nullableInteger "source_http_firewall_rule_set_id" (·.source.ruleSetId)
      fun n r => { r with source.ruleSetId := n },
    .integer "is_read" (·.isRead) fun n r => { r with isRead := n },
    .integer "created_at" (·.createdAt) fun n r => { r with createdAt := n }]
  blank id :=
    { id := id, listId := 0, value := "", ipFrom := "", ipTo := "", family := "",
      fromKey := [], toKey := [], type := "ipv4", version := 0, state := 1, expiredAt := 0,
      reason := "", eventLevel := "", nodeId := 0, serverId := 0, source := {}, isRead := 1,
      createdAt := 0 }
  required := ["list_id", "family", "from_key", "to_key", "version", "created_at"]

instance : Columnar ListRow where
  columns := [
    .integer "id" (·.id) fun n r => { r with id := n },
    .text "name" (·.name) fun s r => { r with name := s },
    .text "type" (·.type) fun s r => { r with type := s },
    .integer "is_public" (·.isPublic) fun n r => { r with isPublic := n },
    .integer "is_global" (·.isGlobal) fun n r => { r with isGlobal := n },
    .nullableInteger "server_id" (·.serverId) fun n r => { r with serverId := n },
    .nullableInteger "user_id" (·.userId) fun n r => { r with userId := n },
    .text "description" (·.description) fun s r => { r with description := s },
    .integer "state" (·.state) fun n r => { r with state := n },
    .integer "created_at" (·.createdAt) fun n r => { r with createdAt := n }]
  blank id :=
    { id := id, name := "", type := "", isPublic := 0, isGlobal := 0, serverId := none,
      userId := none, description := "", state := 1, createdAt := 0 }
  required := ["type", "created_at"]

instance : Columnar ServerRow where
  columns := [
    .integer "id" (·.id) fun n r => { r with id := n },
    .text "name" (·.name) fun s r => { r with name := s },
    .integer "user_id" (·.userId) fun n r => { r with userId := n },
    .integer "state" (·.state) fun n r => { r with state := n }]
  blank id := ⟨id, "", 0, 1⟩

instance : Columnar NodeRow where
  columns := [
    .integer "id" (·.id) fun n r => { r with id := n },
    .text "name" (·.name) fun s r => { r with name := s },
    .integer "cluster_id" (·.clusterId) fun n r => { r with clusterId := n },
    .integer "state" (·.state) fun n r => { r with state := n }]
  blank id := ⟨id, "", 0, 1⟩

instance : Columnar PolicyRow where
  columns := [
    .integer "id" (·.id) fun n r => { r with id := n },
    .text "name" (·.name) fun s r => { r with name := s },
    .integer "server_id" (·.serverId) fun n r => { r with serverId := n },
    .nullableInteger "allow_list_id" (·.allowListId) fun n r => { r with allowListId := n },
    .nullableInteger "deny_list_id" (·.denyListId) fun n r => { r with denyListId := n },
    .nullableInteger "grey_list_id" (·.greyListId) fun n r => { r with greyListId := n },
    .integer "state" (·.state) fun n r => { r with state := n }]
  blank id := ⟨id, "", 0, none, none, none, 1⟩

instance : Columnar NameRow where
  columns := [
    .integer "id" (·.id) fun n r => { r with id := n },
    .text "name" (·.name) fun s r => { r with name := s },
    .integer "state" (·.state) fun n r => { r with state := n }]
  blank id := ⟨id, "", 1⟩

namespace Table

variable {α : Type} [Columnar α]

/-- The cells of all rows. -/
def cells (t : Table α) : List (List (String × Cell)) :=
  t.rows.map (Column.cells Columnar.columns)

/-- The cells are enough to make a row of. -/
def suffice (α : Type) [Columnar α] (cells : List (String × Cell)) : Bool :=
  (Columnar.required α).all fun name => cells.any (·.1 == name)

/-- Write cells into the row with this id, which is made if there is none and the cells suffice. -/
def write? (t : Table α) (id : Int) (cells : List (String × Cell)) : Option (Table α) :=
  match t.find? id with
  | some row => t.replace <$> cells.foldlM (Column.write? Columnar.columns) row
  | none =>
    if suffice α cells then
      t.insert <$> cells.foldlM (Column.write? Columnar.columns) (Columnar.blank id)
    else none

end Table

/-! ## Tables by name -/

inductive TableName where
  | items
  | lists
  | servers
  | nodes
  | policies
  | ruleGroups
  | ruleSets
  /-- The last version given out, as a table of one row. -/
  | sequence
  deriving DecidableEq, Repr

namespace TableName

def name : TableName → String
  | items => "ip_items"
  | lists => "ip_lists"
  | servers => "servers"
  | nodes => "nodes"
  | policies => "http_firewall_policies"
  | ruleGroups => "http_firewall_rule_groups"
  | ruleSets => "http_firewall_rule_sets"
  | sequence => "ip_item_sequence"

def ofName? (s : String) : Option TableName :=
  [items, lists, servers, nodes, policies, ruleGroups, ruleSets, sequence].find? (·.name == s)

end TableName

namespace Store

/-- The cells of all rows of a table. -/
def cells (s : Store) : TableName → List (List (String × Cell))
  | .items => s.items.cells
  | .lists => s.lists.cells
  | .servers => s.servers.cells
  | .nodes => s.nodes.cells
  | .policies => s.policies.cells
  | .ruleGroups => s.ruleGroups.cells
  | .ruleSets => s.ruleSets.cells
  | .sequence => [[("id", .integer 1), ("value", .integer s.sequence)]]

/-- Write cells of one item, unless another item has the version that it would get. -/
def writeItem? (s : Store) (id : Int) (cells : List (String × Cell)) : Option Store := do
  let items ← s.items.write? id cells
  if (items.find? id).any s.versionTaken then none else some { s with items := items }

/-- Write cells of one row. -/
def write? (s : Store) (table : TableName) (id : Int) (cells : List (String × Cell)) :
    Option Store :=
  match table with
  | .items => s.writeItem? id cells
  | .lists => (s.lists.write? id cells).map fun t => { s with lists := t }
  | .servers => (s.servers.write? id cells).map fun t => { s with servers := t }
  | .nodes => (s.nodes.write? id cells).map fun t => { s with nodes := t }
  | .policies => (s.policies.write? id cells).map fun t => { s with policies := t }
  | .ruleGroups => (s.ruleGroups.write? id cells).map fun t => { s with ruleGroups := t }
  | .ruleSets => (s.ruleSets.write? id cells).map fun t => { s with ruleSets := t }
  | .sequence =>
    match (cells.find? (·.1 == "value")).bind (·.2.toInteger?) with
    | some n => if id = 1 then some { s with sequence := n } else none
    | none => none

/-- There is a row with this id. -/
def hasRow (s : Store) (table : TableName) (id : Int) : Bool :=
  match table with
  | .items => (s.items.find? id).isSome
  | .lists => (s.lists.find? id).isSome
  | .servers => (s.servers.find? id).isSome
  | .nodes => (s.nodes.find? id).isSome
  | .policies => (s.policies.find? id).isSome
  | .ruleGroups => (s.ruleGroups.find? id).isSome
  | .ruleSets => (s.ruleSets.find? id).isSome
  | .sequence => id == 1

/-- Take a row out. The sequence stays. -/
def removeRow (s : Store) (table : TableName) (id : Int) : Store :=
  match table with
  | .items => { s with items := s.items.remove id }
  | .lists => { s with lists := s.lists.remove id }
  | .servers => { s with servers := s.servers.remove id }
  | .nodes => { s with nodes := s.nodes.remove id }
  | .policies => { s with policies := s.policies.remove id }
  | .ruleGroups => { s with ruleGroups := s.ruleGroups.remove id }
  | .ruleSets => { s with ruleSets := s.ruleSets.remove id }
  | .sequence => s

end Store

end FirewallLists
