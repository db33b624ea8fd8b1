import FirewallLists.Toml

/-
  Records read from TOML. A record is given by its fields, each of which says how its value is
  read and what it changes. It may be written as a table or as an array of its fields in order;
  a date or a time stands for a record in which nothing is given.
-/

namespace FirewallLists.Toml

/-- A named part of a record. -/
structure RecordField (σ : Type) where
  name : String
  ofToml? : Toml → Option (σ → σ)
  required : Bool := false

namespace RecordField

variable {σ : Type}

def text (name : String) (set : String → σ → σ) : RecordField σ where
  name := name
  ofToml?
    | .string s => some (set s)
    | _ => none

def integer (name : String) (set : Int → σ → σ) : RecordField σ where
  name := name
  ofToml?
    | .integer n => some (set n)
    | _ => none

/-- An integer that is not negative. -/
def natural (name : String) (set : Nat → σ → σ) : RecordField σ where
  name := name
  ofToml?
    | .integer (.ofNat n) => some (set n)
    | _ => none

def flag (name : String) (set : Bool → σ → σ) : RecordField σ where
  name := name
  ofToml?
    | .boolean b => some (set b)
    | _ => none

/-- A text with a meaning of its own. -/
def parsed {α : Type} (name : String) (ofText? : String → Option α) (set : α → σ → σ) :
    RecordField σ where
  name := name
  ofToml?
    | .string s => (ofText? s).map set
    | _ => none

/-- One of a set of names: the name, or a table of one key with that name and nothing in it. -/
def choice {α : Type} (name : String) (ofName? : String → Option α) (set : α → σ → σ) :
    RecordField σ where
  name := name
  ofToml?
    | .string s => (ofName? s).map set
    | .table _ [(s, .table _ [])] => (ofName? s).map set
    | .table _ [(s, .array _ [])] => (ofName? s).map set
    | _ => none

/-- A value with a shape of its own. -/
def nested {α : Type} (name : String) (ofToml? : Toml → Option α) (set : α → σ → σ) :
    RecordField σ where
  name := name
  ofToml? v := (ofToml? v).map set

/-- The field has to be given. -/
def need (f : RecordField σ) : RecordField σ :=
  { f with required := true }

end RecordField

variable {σ : Type}

/-- A field from the value given for it, if one is. -/
def takeField (s : σ) (field : RecordField σ) : Option Toml → Option σ
  | some v => (field.ofToml? v).map (· s)
  | none => if field.required then none else some s

/-- The fields of a record in order, of which the last may be left out. -/
def positional : List (RecordField σ) → List Toml → σ → Option σ
  | [], _, s => some s
  | field :: fields, es, s => do
    let s ← takeField s field es.head?
    positional fields es.tail s

/-- The record that a value writes. Keys that it does not know are passed over. -/
def record (fields : List (RecordField σ)) (init : σ) : Toml → Option σ
  | .table _ ms => fields.foldlM (fun s field => takeField s field (find? field.name ms)) init
  | .array _ es => positional fields es init
  | .datetime _ => fields.foldlM (fun s field => takeField s field none) init
  | _ => none

end FirewallLists.Toml
