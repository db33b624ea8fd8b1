import FirewallLists.Net.Address
import FirewallLists.Text.Split

/-
  The canonical text of an address: dotted quads; groups in lower case with the first of the
  longest runs of two or more zero groups written `::`; a dotted quad after `::ffff:`.
-/

namespace FirewallLists.Net

open FirewallLists.Text

/-- The four octets of a number with dots between them. -/
def quadChars (n : Nat) : List Char :=
  joinWith '.' ((lastDigits 256 4 n).map (Nat.toDigits 10))

/-- The eight groups of a number, the highest first. -/
def groupsOf (n : Nat) : List Nat :=
  lastDigits 65536 8 n

/-- Where the first of the longest runs of zero groups starts, and its length. -/
def longestGap (gs : List Nat) : Nat × Nat :=
  (List.range gs.length).foldl
    (fun best i =>
      let length := ((gs.drop i).takeWhile (· == 0)).length
      if best.2 < length then (i, length) else best)
    (0, 0)

/-- Groups in hexadecimal with colons between them. -/
def groupChars (gs : List Nat) : List Char :=
  joinWith ':' (gs.map (Nat.toDigits 16))

/-- Groups with their longest gap, if it hides more than one, written `::`. -/
def colonChars (gs : List Nat) : List Char :=
  let (start, length) := longestGap gs
  if 1 < length then
    groupChars (gs.take start) ++ ':' :: ':' :: groupChars (gs.drop (start + length))
  else groupChars gs

/-- The number writes a v4 address in the part of the v6 space set aside for them. -/
def isMapped (n : Nat) : Bool :=
  n / Family.v4.size == 0xFFFF

/-- The characters of the canonical text. -/
def Address.chars (a : Address) : List Char :=
  match a.family with
  | .v4 => quadChars a.number
  | .v6 =>
    if isMapped a.number then "::ffff:".toList ++ quadChars (a.number % Family.v4.size)
    else colonChars (groupsOf a.number)

/-- The canonical text. -/
def Address.toText (a : Address) : String :=
  String.ofList a.chars

end FirewallLists.Net
