import FirewallLists.Net.Address.Reader
import FirewallLists.Net.Address.Printer

/-
  Network blocks: all addresses that share a number of leading bits with a given one.
-/

namespace FirewallLists.Net

open FirewallLists.Text

/-- An address and how many of its leading bits name the block. -/
structure Block where
  address : Address
  prefixLength : Nat
  le_width : prefixLength ≤ address.family.width
  deriving DecidableEq

namespace Block

/-- How many addresses the block holds. -/
def size (b : Block) : Nat :=
  Nat.pow 2 (b.address.family.width - b.prefixLength)

theorem size_pos (b : Block) : 0 < b.size :=
  Nat.two_pow_pos _

/-- The number of the first address. -/
def firstNumber (b : Block) : Nat :=
  b.address.number / b.size * b.size

theorem firstNumber_le (b : Block) : b.firstNumber ≤ b.address.number :=
  Nat.div_mul_le_self _ _

theorem firstNumber_add_size_le (b : Block) :
    b.firstNumber + b.size ≤ b.address.family.size := by
  have hw : b.address.family.size = Nat.pow 2 b.prefixLength * b.size := by
    have h := Nat.pow_add 2 b.prefixLength (b.address.family.width - b.prefixLength)
    rw [Nat.add_sub_cancel' b.le_width] at h
    exact h
  have hq : b.address.number / b.size < Nat.pow 2 b.prefixLength := by
    rw [Nat.div_lt_iff_lt_mul b.size_pos, ← hw]
    exact b.address.number_lt
  calc b.firstNumber + b.size = (b.address.number / b.size + 1) * b.size := by
        rw [firstNumber, Nat.add_mul, Nat.one_mul]
    _ ≤ Nat.pow 2 b.prefixLength * b.size := Nat.mul_le_mul_right _ hq
    _ = b.address.family.size := hw.symm

/-- The first address of the block. -/
def first (b : Block) : Address :=
  ⟨b.address.family, b.firstNumber, Nat.lt_of_le_of_lt b.firstNumber_le b.address.number_lt⟩

/-- The last address of the block. -/
def last (b : Block) : Address :=
  ⟨b.address.family, b.firstNumber + (b.size - 1), by
    have := b.firstNumber_add_size_le
    have := b.size_pos
    omega⟩

/-- Digits of a prefix length: at most two for v4 and three for v6. -/
def prefixDigits : Family → Nat
  | .v4 => 2
  | .v6 => 3

/-- An address, a slash, and a prefix length within the family's width. -/
def ofChars? (cs : List Char) : Option Block := do
  let (left, right) ← cut '/' cs
  let address ← Grammar.network.address left
  let length ← if right.length ≤ prefixDigits address.family then decimal? right else none
  if h : length ≤ address.family.width then some ⟨address, length, h⟩ else none

end Block

end FirewallLists.Net
