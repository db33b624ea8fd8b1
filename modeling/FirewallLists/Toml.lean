/-
  TOML values, and how the lines of a document build up its tables. How a table came about decides
  what may still be added to it: a table with a header of its own takes keys only below that
  header, a table made by dotted keys only from dotted keys, and an inline table takes none.
-/

namespace FirewallLists

/-- How a table came about. -/
inductive Origin where
  /-- Written as one value. -/
  | inline
  /-- By a header of its own. -/
  | header
  /-- By a longer header. -/
  | path
  /-- By dotted keys. -/
  | dotted
  deriving DecidableEq, Repr

inductive Toml where
  | string (s : String)
  | integer (n : Int)
  | float (literal : String)
  | boolean (b : Bool)
  | datetime (literal : String)
  /-- An array that `grows` is made of tables, each with a header of its own. -/
  | array (grows : Bool) (elements : List Toml)
  | table (origin : Origin) (members : List (String × Toml))
  deriving Inhabited

namespace Toml

abbrev Members := List (String × Toml)

/-- The value of a key. -/
def find? (key : String) (ms : Members) : Option Toml :=
  (ms.find? (·.1 == key)).map Prod.snd

/-- Put another value in the place of a key's value. -/
def replace (key : String) (v : Toml) (ms : Members) : Members :=
  ms.map fun m => if m.1 == key then (key, v) else m

/-- Add a key that is new. -/
def add? (key : String) (v : Toml) (ms : Members) : Option Members :=
  if (find? key ms).isSome then none else some (ms ++ [(key, v)])

/-- Change the last table of an array. -/
def changeLast (change : Members → Option Members) : List Toml → Option (List Toml)
  | [] => none
  | [.table origin ms] => (change ms).map fun ms => [.table origin ms]
  | [_] => none
  | e :: es => (changeLast change es).map (e :: ·)

/-- Change the table at the path of a header. Tables that are missing on the way are made, and of
an array the last table is taken. -/
def within (change : Members → Option Members) : List String → Members → Option Members
  | [], ms => change ms
  | key :: path, ms =>
    match find? key ms with
    | none => (within change path []).map fun sub => ms ++ [(key, .table .path sub)]
    | some (.table .inline _) => none
    | some (.table origin sub) =>
      (within change path sub).map fun sub => replace key (.table origin sub) ms
    | some (.array true es) =>
      (changeLast (within change path) es).map fun es => replace key (.array true es) ms
    | some _ => none

/-- Open a table by its header. A table may have been made on the way to another one before. -/
def openTable (key : String) (ms : Members) : Option Members :=
  match find? key ms with
  | none => some (ms ++ [(key, .table .header [])])
  | some (.table .path sub) => some (replace key (.table .header sub) ms)
  | some _ => none

/-- Add a table to an array by its header. -/
def openElement (key : String) (ms : Members) : Option Members :=
  match find? key ms with
  | none => some (ms ++ [(key, .array true [.table .header []])])
  | some (.array true es) => some (replace key (.array true (es ++ [.table .header []])) ms)
  | some _ => none

/-- Give a value to a dotted key. The keys before the last one lead through tables that have no
header of their own, and the table they lead to has to be one made by dotted keys. -/
def assign (key : String) (v : Toml) : List String → Members → Option Members
  | [], ms => add? key v ms
  | k :: path, ms =>
    match find? k ms with
    | none => (assign key v path []).map fun sub => ms ++ [(k, .table .dotted sub)]
    | some (.table .dotted sub) =>
      (assign key v path sub).map fun sub => replace k (.table .dotted sub) ms
    | some (.table .path sub) =>
      if path.isEmpty then none
      else (assign key v path sub).map fun sub => replace k (.table .path sub) ms
    | some (.array true es) =>
      if path.isEmpty then none
      else (changeLast (assign key v path) es).map fun es => replace k (.array true es) ms
    | some _ => none

end Toml

end FirewallLists
