import FirewallLists.Net.Address.Reader
import FirewallLists.Net.Address.Printer

/-
  Endpoints: where a server listens. An endpoint is written as an address, a colon and a number; a
  v6 address stands in brackets, perhaps with the number of the scope it belongs to.
-/

namespace FirewallLists.Net

open FirewallLists.Text

structure Endpoint where
  address : Address
  /-- Zero where no scope is given. -/
  scope : Nat := 0
  portNumber : Nat
  deriving DecidableEq

namespace Endpoint

/-- A number below a bound, with or without leading zeros. -/
def numberBelow (bound : Nat) (cs : List Char) : Option Nat :=
  (decimal? cs).filter (· < bound)

def portNumber? (cs : List Char) : Option Nat :=
  numberBelow 65536 cs

/-- A v6 address in brackets, without the opening one, and what follows. -/
def bracketed? (cs : List Char) : Option Endpoint := do
  let (inside, behind) ← cut ']' cs
  let (written, scope) ← match cut '%' inside with
    | some (written, scope) => (numberBelow 4294967296 scope).map fun n => (written, n)
    | none => some (inside, 0)
  let address ← (Grammar.plain.colons written).bind (Address.ofNumber? .v6)
  match behind with
  | ':' :: digits => return ⟨address, scope, ← portNumber? digits⟩
  | _ => none

/-- The endpoint that a text writes. -/
def ofText? (s : String) : Option Endpoint :=
  match s.toList with
  | '[' :: cs => bracketed? cs
  | cs => do
    let (written, digits) ← cut ':' cs
    let address ← (Grammar.plain.quad written).bind (Address.ofNumber? .v4)
    return ⟨address, 0, ← portNumber? digits⟩

def toText (e : Endpoint) : String :=
  let scope := if e.scope = 0 then "" else "%" ++ toString e.scope
  match e.address.family with
  | .v4 => e.address.toText ++ ":" ++ toString e.portNumber
  | .v6 => "[" ++ e.address.toText ++ scope ++ "]:" ++ toString e.portNumber

end Endpoint

end FirewallLists.Net
