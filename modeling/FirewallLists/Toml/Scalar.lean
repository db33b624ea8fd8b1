import FirewallLists.Integer
import FirewallLists.Text.Numeral
import FirewallLists.Toml

/-
  TOML values that are written as one word: truth values, numbers, dates and times. Digits may be
  grouped by single underscores between them.
-/

namespace FirewallLists.Toml

open FirewallLists.Text

/-- The digits without the underscores between them. -/
def ungrouped? (digit? : Char → Option Nat) (cs : List Char) : Option (List Char) :=
  let groups := splitOn '_' cs
  if groups.all fun g => !g.isEmpty && g.all fun c => (digit? c).isSome then some groups.flatten
  else none

/-! ## Numbers -/

/-- The digits of a whole number, which has no leading zero. -/
def whole? (cs : List Char) : Option (List Char) :=
  if cs.head? = some '0' ∧ cs.length ≠ 1 then none else ungrouped? decimalDigit? cs

def octalDigit? (c : Char) : Option Nat :=
  (decimalDigit? c).filter (· < 8)

def binaryDigit? (c : Char) : Option Nat :=
  (decimalDigit? c).filter (· < 2)

/-- A number in some base, without a sign. -/
def inBase? (digit? : Char → Option Nat) (base : Nat) (cs : List Char) : Option Int :=
  (ungrouped? digit? cs).bind fun ds => (readDigits digit? base 0 ds).map Int.ofNat

/-- An integer of any size. -/
def anyInteger? : List Char → Option Int
  | '0' :: 'x' :: cs => inBase? hexDigit? 16 cs
  | '0' :: 'o' :: cs => inBase? octalDigit? 8 cs
  | '0' :: 'b' :: cs => inBase? binaryDigit? 2 cs
  | cs => do
    let (negative, body) := signed cs
    let n ← (whole? body).bind decimal?
    return if negative then -(n : Int) else n

/-- An integer that fits 64 bits with a sign. -/
def integer? (cs : List Char) : Option Int :=
  (anyInteger? cs).filter fits64

/-- The exponent behind its letter. -/
def exponent? (cs : List Char) : Option (Bool × List Char) :=
  let (negative, body) := signed cs
  (ungrouped? decimalDigit? body).map fun ds => (negative, ds)

/-- A number with a fraction, an exponent, or both. -/
def numeral? (cs : List Char) : Option Numeral := do
  let (negative, body) := signed cs
  let (mantissa, exponent) ←
    match body.span fun c => c != 'e' && c != 'E' with
    | (mantissa, _ :: cs) => (exponent? cs).map fun e => (mantissa, some e)
    | (mantissa, []) => some (mantissa, none)
  match cut '.' mantissa with
  | some (left, right) =>
    return ⟨negative, ← whole? left, some (← ungrouped? decimalDigit? right), exponent⟩
  | none =>
    if exponent.isNone then none else return ⟨negative, ← whole? mantissa, none, exponent⟩

/-- A floating-point number. Infinity is written by name; a positive number too large for any
other value is refused, while a negative one stands for infinity too. -/
def isFloat (cs : List Char) : Bool :=
  let body := (signed cs).2
  body == "inf".toList || body == "nan".toList ||
    (numeral? cs).any fun n => n.negative || n.isFinite

/-! ## Dates and times -/

/-- A number of two digits within bounds. -/
def twoDigits (low high : Nat) (a b : Char) : Bool :=
  (decimal? [a, b]).any fun n => low ≤ n && n ≤ high

/-- The days of a month. -/
def daysIn (year month : Nat) : Nat :=
  if month = 2 then
    if year % 4 = 0 ∧ (year % 100 ≠ 0 ∨ year % 400 = 0) then 29 else 28
  else if month = 4 ∨ month = 6 ∨ month = 9 ∨ month = 11 then 30
  else 31

/-- A day that the calendar has. -/
def isDate : List Char → Bool
  | [a, b, c, d, '-', e, f, '-', g, h] =>
    match decimal? [a, b, c, d], decimal? [e, f], decimal? [g, h] with
    | some year, some month, some day =>
      1 ≤ month && month ≤ 12 && 1 ≤ day && day ≤ daysIn year month
    | _, _, _ => false
  | _ => false

/-- Nothing, or a point and digits. -/
def isFraction : List Char → Bool
  | [] => true
  | '.' :: ds => (decimal? ds).isSome
  | _ => false

/-- A time of day; a minute may have a leap second. -/
def isTime : List Char → Bool
  | a :: b :: ':' :: c :: d :: ':' :: e :: f :: cs =>
    twoDigits 0 23 a b && twoDigits 0 59 c d && twoDigits 0 60 e f && isFraction cs
  | _ => false

/-- How far local time is off. -/
def isOffset : List Char → Bool
  | [c] => c == 'Z' || c == 'z'
  | [s, a, b, ':', c, d] => (s == '+' || s == '-') && twoDigits 0 23 a b && twoDigits 0 59 c d
  | _ => false

/-- A time of day with or without an offset. -/
def isZonedTime (cs : List Char) : Bool :=
  match cs.span fun c => c != 'Z' && c != 'z' && c != '+' && c != '-' with
  | (time, []) => isTime time
  | (time, offset) => isTime time && isOffset offset

/-- A date, a time, or both. -/
def isDatetime (cs : List Char) : Bool :=
  isDate cs || isTime cs ||
    match cs.drop 10 with
    | c :: time =>
      isDate (cs.take 10) && (c == 'T' || c == 't' || c == ' ') && isZonedTime time
    | [] => false

/-! ## Words -/

/-- The value that a word writes. -/
def ofWord? (cs : List Char) : Option Toml :=
  if cs = "true".toList then some (.boolean true)
  else if cs = "false".toList then some (.boolean false)
  else match integer? cs with
    | some n => some (.integer n)
    | none =>
      if isDatetime cs then some (.datetime (String.ofList cs))
      else if isFloat cs then some (.float (String.ofList cs))
      else none

end FirewallLists.Toml
