import FirewallLists.Net.Block

/-
  Address ranges. An item's address may be written as one address, as two with a dash between
  them in any order, or as a network block; all are brought to the same ascending bounds.
-/

namespace FirewallLists.Net

open FirewallLists.Text

/-- Two addresses of one family in ascending order. A block keeps its prefix length, which its
text shows. -/
structure Range where
  low : Address
  high : Address
  blockPrefix : Option Nat
  family_eq : high.family = low.family
  le : low.number ≤ high.number
  deriving DecidableEq

/-- Why a text names no range. -/
inductive RangeError where
  | value (text : String)
  | lowerBound (text : String)
  | upperBound (text : String)
  | families (lower upper : String)
  deriving DecidableEq, Repr

def RangeError.message : RangeError → String
  | .value text => "invalid 'value': " ++ text
  | .lowerBound text => "invalid 'ipFrom': " ++ text
  | .upperBound text => "invalid 'ipTo': " ++ text
  | .families lower upper =>
    "'ipFrom' (" ++ lower ++ ") and 'ipTo' (" ++ upper ++ ") should be in same version"

namespace Range

/-- The range that holds one address. -/
def single (a : Address) : Range :=
  ⟨a, a, none, rfl, Nat.le_refl _⟩

/-- The range between two addresses of one family, given in any order. -/
def between (a b : Address) (h : a.family = b.family) : Range :=
  if hab : a.number ≤ b.number then ⟨a, b, none, h.symm, hab⟩
  else ⟨b, a, none, h, Nat.le_of_lt (Nat.lt_of_not_le hab)⟩

/-- The range of a block's addresses. -/
def ofBlock (b : Block) : Range :=
  if b.first = b.last then single b.first
  else ⟨b.first, b.last, some b.prefixLength, rfl, Nat.le_add_right _ _⟩

def family (r : Range) : Family :=
  r.low.family

/-- The range holds one address. -/
def isSingle (r : Range) : Bool :=
  r.low == r.high

/-- The text of the lower bound. -/
def lowText (r : Range) : String :=
  r.low.toText

/-- The text of the upper bound, empty when the range holds one address. -/
def highText (r : Range) : String :=
  if r.isSingle then "" else r.high.toText

/-- The canonical text of the range. -/
def toText (r : Range) : String :=
  if r.isSingle then r.low.toText
  else match r.blockPrefix with
    | some length => r.low.toText ++ "/" ++ toString length
    | none => r.low.toText ++ "-" ++ r.high.toText

/-- The address lies within the bounds. -/
def contains (r : Range) (a : Address) : Prop :=
  a.family = r.family ∧ r.low.number ≤ a.number ∧ a.number ≤ r.high.number

instance (r : Range) (a : Address) : Decidable (r.contains a) :=
  inferInstanceAs (Decidable (_ ∧ _ ∧ _))

/-- Read two addresses, or say that their families differ. -/
def ofPair (a b : Address) (lower upper : String) : Except RangeError Range :=
  if h : a.family = b.family then .ok (between a b h) else .error (.families lower upper)

/-- Read one address, two around a dash, or a block. -/
def ofValue (s : String) : Except RangeError Range :=
  let cs := trimChars s.toList
  let invalid := RangeError.value (String.ofList cs)
  if cs.contains '/' then
    match Block.ofChars? cs with
    | some b => .ok (ofBlock b)
    | none => .error invalid
  else match cut '-' cs with
    | some (left, right) =>
      let lower := String.ofList (trimChars left)
      let upper := String.ofList (trimChars right)
      match Address.ofText? lower, Address.ofText? upper with
      | some a, some b => ofPair a b lower upper
      | _, _ => .error invalid
    | none =>
      match Address.ofText? s with
      | some a => .ok (single a)
      | none => .error invalid

/-- Read a lower bound and an upper bound, where a blank upper bound names one address. -/
def ofBounds (lower upper : String) : Except RangeError Range :=
  match Address.ofText? lower with
  | none => .error (.lowerBound lower)
  | some a =>
    if allBlank upper then .ok (single a)
    else match Address.ofText? upper with
      | none => .error (.upperBound upper)
      | some b => ofPair a b lower upper

end Range

end FirewallLists.Net
