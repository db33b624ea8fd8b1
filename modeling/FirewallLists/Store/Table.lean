import FirewallLists.Integer
import FirewallLists.Store.Row

/-
  Tables: rows in ascending order of their ids, and the largest id ever used. New rows get ids
  above that one, also after the last row has gone.
-/

namespace FirewallLists

structure Table (α : Type) where
  rows : List α := []
  lastId : Int := 0
  deriving DecidableEq, Repr

namespace Table

variable {α : Type} [Identified α]

def find? (t : Table α) (id : Int) : Option α :=
  t.rows.find? fun r => Identified.id r == id

/-- The id of the next new row. -/
def nextId (t : Table α) : Except StorageError Int :=
  if t.lastId < maxInteger then .ok (t.lastId + 1) else .error .noIdLeft

/-- Put a row in its place among rows with other ids. -/
def place (r : α) : List α → List α
  | [] => [r]
  | s :: rows =>
    if Identified.id r < Identified.id s then r :: s :: rows else s :: place r rows

/-- Add a row with an id that no row has. -/
def insert (t : Table α) (r : α) : Table α where
  rows := place r t.rows
  lastId := max t.lastId (Identified.id r)

/-- Put a row in the place of the one with its id. -/
def replace (t : Table α) (r : α) : Table α :=
  { t with rows := t.rows.map fun s => if Identified.id s = Identified.id r then r else s }

/-- Change every row. -/
def update (t : Table α) (f : α → α) : Table α :=
  { t with rows := t.rows.map f }

/-- Take a row out. -/
def remove (t : Table α) (id : Int) : Table α :=
  { t with rows := t.rows.filter fun r => Identified.id r != id }

end Table

end FirewallLists
