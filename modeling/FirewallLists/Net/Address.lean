/-
  Network addresses: a family and a number below the size of the family's address space. Keys
  write the number as big-endian octets, so that within a family keys order as numbers do.
-/

namespace FirewallLists.Net

/-- The two kinds of network address. -/
inductive Family where
  | v4
  | v6
  deriving DecidableEq, Repr

/-- Bits of an address. -/
def Family.width : Family → Nat
  | .v4 => 32
  | .v6 => 128

/-- How many addresses the family has. -/
def Family.size (f : Family) : Nat :=
  Nat.pow 2 f.width

def Family.name : Family → String
  | .v4 => "v4"
  | .v6 => "v6"

/-- An address of one family. -/
structure Address where
  family : Family
  number : Nat
  number_lt : number < family.size
  deriving DecidableEq

namespace Address

/-- The address with this number, if the family has one. -/
def ofNumber? (family : Family) (number : Nat) : Option Address :=
  if h : number < family.size then some ⟨family, number, h⟩ else none

@[ext]
theorem ext {a b : Address} (hf : a.family = b.family) (hn : a.number = b.number) : a = b := by
  cases a; cases b; cases hf; cases hn; rfl

theorem ofNumber?_self (a : Address) : ofNumber? a.family a.number = some a := by
  simp [ofNumber?, a.number_lt]

end Address

/-! ## Keys -/

/-- The last `count` digits of a number in some base, the highest first. -/
def lastDigits (base : Nat) : Nat → Nat → List Nat
  | 0, _ => []
  | count + 1, n => lastDigits base count (n / base) ++ [n % base]

/-- The last `count` octets of a number, the highest first. -/
def bigEndian (count n : Nat) : List UInt8 :=
  (lastDigits 256 count n).map UInt8.ofNat

/-- The octets of the address, the highest first. -/
def Address.key (a : Address) : List UInt8 :=
  bigEndian (a.family.width / 8) a.number

/-- Octet sequences in dictionary order. -/
def keyLe : List UInt8 → List UInt8 → Bool
  | [], _ => true
  | _ :: _, [] => false
  | a :: as, b :: bs => if a < b then true else if b < a then false else keyLe as bs

theorem length_lastDigits (base count n : Nat) : (lastDigits base count n).length = count := by
  induction count generalizing n with
  | zero => rfl
  | succ count ih => simp [lastDigits, ih]

theorem length_bigEndian (count n : Nat) : (bigEndian count n).length = count := by
  simp [bigEndian, length_lastDigits]

theorem Address.length_key (a : Address) : a.key.length = a.family.width / 8 :=
  length_bigEndian _ _

theorem keyLe_refl (k : List UInt8) : keyLe k k = true := by
  induction k with
  | nil => rfl
  | cons b k ih => simp [keyLe, ih]

end FirewallLists.Net
