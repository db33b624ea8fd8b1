import FirewallLists.Text.Split

/-
  Decimal numbers as written: digits with a fraction and an exponent. Whether the number is an
  integer, and whether a double-precision number comes near it, is told from the digits alone.
-/

namespace FirewallLists.Text

/-- A number as written. -/
structure Numeral where
  negative : Bool
  whole : List Char
  fraction : Option (List Char)
  /-- Whether the exponent is negative, and its digits. -/
  exponent : Option (Bool × List Char)

namespace Numeral

/-- The literal the number was written as, up to the spelling of its exponent. -/
def toText (n : Numeral) : String :=
  String.ofList <|
    (if n.negative then ['-'] else []) ++ n.whole ++
      (match n.fraction with | some ds => '.' :: ds | none => []) ++
      (match n.exponent with
        | some (negative, ds) => 'e' :: (if negative then '-' :: ds else ds)
        | none => [])

/-- The power of ten that the exponent stands for. -/
def power (n : Numeral) : Int :=
  match n.exponent with
  | some (true, ds) => -((decimal? ds).getD 0 : Nat)
  | some (false, ds) => ((decimal? ds).getD 0 : Nat)
  | none => 0

/-- All digits as one number, and the power of ten it is multiplied by. -/
def scaled (n : Numeral) : Nat × Int :=
  let fraction := n.fraction.getD []
  ((decimal? (n.whole ++ fraction)).getD 0, n.power - fraction.length)

/-- The least magnitude that no double-precision number is near. -/
def tooLarge : Nat := Nat.pow 2 1024 - Nat.pow 2 970

/-- The number rounds to a finite double-precision number. -/
def isFinite (n : Numeral) : Bool :=
  let (significand, power) := n.scaled
  let order := (toString significand).length + power
  if significand = 0 ∨ order < 300 then true
  else if 320 < order then false
  else if 0 ≤ power then significand * Nat.pow 10 power.toNat < tooLarge
  else significand < tooLarge * Nat.pow 10 (-power).toNat

/-- The integer, when the number is written as one; `-0` is not. -/
def toInt? (n : Numeral) : Option Int :=
  match n.fraction, n.exponent, decimal? n.whole with
  | none, none, some m =>
    if n.negative then (if m = 0 then none else some (-(m : Int))) else some m
  | _, _, _ => none

end Numeral

end FirewallLists.Text
