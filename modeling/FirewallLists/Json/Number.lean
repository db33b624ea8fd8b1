import FirewallLists.Text.Numeral

/-
  The range of JSON numbers. A number stands for a significand, which has as many of the digits as
  fit 64 bits, times a power of ten. Both factors are rounded to 53 bits before they are
  multiplied, so a number close below the largest of double precision may be out of range.
-/

namespace FirewallLists.Json

open FirewallLists.Text

/-- The nearest number of at most 53 bits; between two, the one with an even last bit. -/
def roundBits (n : Nat) : Nat :=
  let unit := Nat.pow 2 (Nat.log2 n - 52)
  let low := n / unit
  let rest := 2 * (n % unit)
  if unit < rest ∨ (rest = unit ∧ low % 2 = 1) then (low + 1) * unit else low * unit

/-- Take digits up into a significand until one would make it longer than 64 bits. Answers the
significand and the digits left. -/
def takeDigits : Nat → List Char → Nat × List Char
  | m, [] => (m, [])
  | m, c :: cs =>
    match (readDigits decimalDigit? 10 m [c]).filter (· < 18446744073709551616) with
    | some m => takeDigits m cs
    | none => (m, c :: cs)

/-- The significand and the power of ten. The fraction goes on with the significand of the whole
digits, even if that one has left some of them. -/
def factors (n : Numeral) : Nat × Int :=
  let fraction := n.fraction.getD []
  let (whole, behind) := takeDigits 0 n.whole
  let (significand, left) := takeDigits whole fraction
  (significand, n.power + behind.length - (fraction.length - left.length))

/-- The number does not get too large when its factors are multiplied. -/
def isInRange (n : Numeral) : Bool :=
  let (significand, power) := factors n
  if significand = 0 ∨ power ≤ 0 then true
  else if 308 < power then false
  else roundBits significand * roundBits (Nat.pow 10 power.toNat) < Numeral.tooLarge

end FirewallLists.Json
