import FirewallLists.Json.Reader

/-
  Records read from JSON. A record is given by its fields, each of which says how its value is
  read and what it changes. A closed record may also be written as an array of its fields in
  order; an open record keeps the members it does not know, for another record to take from.
-/

namespace FirewallLists.Json

open Reader

/-- A named part of a record. -/
structure RecordField (σ : Type) where
  name : String
  read : Reader (σ → σ)
  /-- The same from a value that has been read already. -/
  ofJson? : Json → Option (σ → σ)
  required : Bool := false

/-- The integer that a value is, if it fits 64 bits. -/
def integer? : Json → Option Int
  | .int n => if fits64 n then some n else none
  | _ => none

namespace RecordField

variable {σ : Type}

def integer (name : String) (set : Int → σ → σ) : RecordField σ where
  name := name
  read := set <$> Reader.integer
  ofJson? j := j.integer?.map set

def text (name : String) (set : String → σ → σ) : RecordField σ where
  name := name
  read := set <$> Reader.text
  ofJson?
    | .str s => some (set s)
    | _ => none

def flag (name : String) (set : Bool → σ → σ) : RecordField σ where
  name := name
  read := set <$> Reader.flag
  ofJson?
    | .bool b => some (set b)
    | _ => none

/-- An integer or `null`. -/
def nullableInteger (name : String) (set : Option Int → σ → σ) : RecordField σ where
  name := name
  read := set <$> nullable Reader.integer
  ofJson?
    | .null => some (set none)
    | j => j.integer?.map fun n => set (some n)

def integers (name : String) (set : List Int → σ → σ) : RecordField σ where
  name := name
  read := set <$> list Reader.integer
  ofJson?
    | .arr js => (js.mapM integer?).map set
    | _ => none

end RecordField

variable {σ : Type}

/-- Read the value of a known member, and leave that of any other to `other`. A known member that
comes again is a misfit as soon as its name is read. -/
def knownMember {ρ : Type} (fields : List (RecordField σ)) (other : String → ρ → Reader ρ)
    (name : String) (state : List String × σ × ρ) : Reader (List String × σ × ρ) := do
  let (seen, s, r) := state
  match fields.find? (·.name == name) with
  | some field =>
    if seen.contains name then misfit
    else
      let change ← behindName field.read
      return (name :: seen, change s, r)
  | none => return (seen, s, ← behindName (other name r))

/-- The values of the fields in order; fields may be left out at the end. -/
def positional : List (RecordField σ) → Bool → σ → Reader σ
  | [], _, s => do
    symbol ']'
    return s
  | field :: fields, first, s => do
    if ← nextElement first then
      let change ← field.read
      positional fields false (change s)
    else if (field :: fields).any (·.required) then misfit
    else
      advance
      return s

/-- A record that skips members it does not know. -/
def closedRecord (fields : List (RecordField σ)) (init : σ) : Reader σ := do
  match ← peek with
  | some '\x7b' => nested do
    advance
    let (seen, s, ()) ← objectBody (knownMember fields fun _ _ => skip) ([], init, ())
    if fields.any fun field => field.required && !seen.contains field.name then misfit
    else return s
  | some '[' => nested do
    advance
    positional fields true init
  | _ => wrongShape

/-- A record that keeps the members it does not know. -/
def openRecord (fields : List (RecordField σ)) (init : σ) : Reader (σ × List (String × Json)) := do
  match ← peek with
  | some '\x7b' => nested do
    advance
    let keep := fun name kept => return (name, ← value) :: kept
    let (_, s, kept) ← objectBody (knownMember fields keep) ([], init, [])
    return (s, kept.reverse)
  | _ => wrongShape

/-- Take a record's fields, each at most once, out of members that were kept. -/
def takeFields (fields : List (RecordField σ)) (init : σ) (members : List (String × Json)) :
    Option (σ × List (String × Json)) :=
  go [] init members
where
  go (seen : List String) (s : σ) : List (String × Json) → Option (σ × List (String × Json))
    | [] => some (s, [])
    | (name, j) :: members =>
      match fields.find? (·.name == name) with
      | some field => do
        if seen.contains name then none
        else
          let change ← field.ofJson? j
          go (name :: seen) (change s) members
      | none => do
        let (s, left) ← go seen s members
        return (s, (name, j) :: left)

/-- Take a record's fields out of members that were kept, or stop. -/
def takeRecord (fields : List (RecordField σ)) (init : σ) (members : List (String × Json)) :
    Reader (σ × List (String × Json)) :=
  match takeFields fields init members with
  | some taken => return taken
  | none => misfit

end FirewallLists.Json
