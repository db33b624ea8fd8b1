import FirewallLists.Net.Address
import FirewallLists.Text.Blank
import FirewallLists.Text.Split

/-
  Reading addresses: dotted quads and colon-separated groups, where `::` stands for groups of
  zeros and a dotted quad may stand for the last two groups. A grammar says how strict to be.
-/

namespace FirewallLists.Net

open FirewallLists.Text

/-- What a written address may contain. -/
structure Grammar where
  /-- An octet of a dotted quad may start with zeros. -/
  leadingZeros : Bool
  /-- `::` may stand for no group at all. -/
  emptyGap : Bool

namespace Grammar

/-- Addresses that stand alone: one spelling for each octet, and `::` hides a group. -/
def plain : Grammar := ⟨false, false⟩

/-- Addresses in front of a network's prefix length. -/
def network : Grammar := ⟨true, true⟩

/-- One to three decimal digits for a number below 256. -/
def octet (g : Grammar) (cs : List Char) : Option Nat :=
  if cs.length ≤ 3 ∧ (g.leadingZeros ∨ cs.length ≤ 1 ∨ cs.head? ≠ some '0') then
    (decimal? cs).filter (· < 256)
  else none

/-- Four octets with dots between them. -/
def quad (g : Grammar) (cs : List Char) : Option Nat :=
  match splitOn '.' cs with
  | [a, b, c, d] => do
    let a ← g.octet a
    let b ← g.octet b
    let c ← g.octet c
    let d ← g.octet d
    return ((a * 256 + b) * 256 + c) * 256 + d
  | _ => none

/-- One to four hexadecimal digits. -/
def group (cs : List Char) : Option Nat :=
  if cs.length ≤ 4 then hexadecimal? cs else none

/-- Groups of which the last may be a dotted quad, which counts for two. -/
def groups (g : Grammar) : List (List Char) → Option (List Nat)
  | [] => some []
  | [last] =>
    match group last with
    | some n => some [n]
    | none => (g.quad last).map fun n => [n / 65536, n % 65536]
  | w :: ws => do
    let n ← group w
    let ns ← g.groups ws
    return n :: ns

/-- The groups on one side of `::`, possibly none. -/
def side (g : Grammar) (cs : List Char) : Option (List Nat) :=
  if cs.isEmpty then some [] else g.groups (splitOn ':' cs)

/-- Groups as the digits of a number. -/
def join (gs : List Nat) : Nat :=
  gs.foldl (fun n d => n * 65536 + d) 0

/-- Eight groups, some of which `::` may stand for; before it no dotted quad is allowed. -/
def colons (g : Grammar) (cs : List Char) : Option Nat :=
  match cutPair ':' cs with
  | none => do
    let gs ← g.groups (splitOn ':' cs)
    if gs.length = 8 then some (join gs) else none
  | some (left, right) => do
    let hs ← if left.isEmpty then some [] else (splitOn ':' left).mapM group
    let ts ← g.side right
    if hs.length ≤ 7 ∧ hs.length + ts.length ≤ (if g.emptyGap then 8 else 7) then
      some (join (hs ++ List.replicate (8 - hs.length - ts.length) 0 ++ ts))
    else none

/-- An address of either family. -/
def address (g : Grammar) (cs : List Char) : Option Address :=
  match g.quad cs with
  | some n => Address.ofNumber? .v4 n
  | none => (g.colons cs).bind (Address.ofNumber? .v6)

end Grammar

/-- The address written by a text, blank characters around it aside. -/
def Address.ofText? (s : String) : Option Address :=
  Grammar.plain.address (trimChars s.toList)

end FirewallLists.Net
