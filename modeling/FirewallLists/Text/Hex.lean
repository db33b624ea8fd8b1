import FirewallLists.Text.Split

/-
  Octets as pairs of lower-case hexadecimal digits.
-/

namespace FirewallLists.Text

/-- The digit for a number below sixteen. -/
def hexDigit (n : Nat) : Char :=
  Char.ofNat (if n < 10 then '0'.toNat + n else 'a'.toNat + (n - 10))

/-- A number in hexadecimal with at least `width` digits. -/
def hexPadded (width n : Nat) : String :=
  let ds := Nat.toDigits 16 n
  String.ofList (List.replicate (width - ds.length) '0' ++ ds)

/-- Two digits for each octet. -/
def hexOfBytes (bytes : List UInt8) : String :=
  String.ofList (bytes.flatMap fun b => [hexDigit (b.toNat / 16), hexDigit (b.toNat % 16)])

/-- The octets that pairs of digits stand for. -/
def bytesOfHexChars? : List Char → Option (List UInt8)
  | [] => some []
  | a :: b :: cs => do
    let hi ← hexDigit? a
    let lo ← hexDigit? b
    let rest ← bytesOfHexChars? cs
    return UInt8.ofNat (hi * 16 + lo) :: rest
  | [_] => none

/-- The octets that a text of digit pairs stands for. -/
def bytesOfHex? (s : String) : Option (List UInt8) :=
  bytesOfHexChars? s.toList

end FirewallLists.Text
