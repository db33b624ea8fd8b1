/-
  Reading octets as UTF-8 without giving up at the first fault: every well-formed sequence is
  its character, and an octet that belongs to none stays behind as `none`. A text read from a
  `String` has no such octet.
-/

namespace FirewallLists.Text

/-- A text in which stray octets may stand between the characters. -/
abbrev Raw := List (Option Char)

/-- A text without stray octets. -/
def Raw.ofString (s : String) : Raw :=
  s.toList.map some

/-- The text, if it holds no stray octet. -/
def Raw.toString? (r : Raw) : Option String :=
  (r.mapM id).map String.ofList

/-- What a lead octet says: how many octets follow, and the bounds of the first of them. -/
def leadOctet (b : Nat) : Option (Nat × Nat × Nat) :=
  if 0xC2 ≤ b && b ≤ 0xDF then some (1, 0x80, 0xBF)
  else if b == 0xE0 then some (2, 0xA0, 0xBF)
  else if b == 0xED then some (2, 0x80, 0x9F)
  else if 0xE1 ≤ b && b ≤ 0xEF then some (2, 0x80, 0xBF)
  else if b == 0xF0 then some (3, 0x90, 0xBF)
  else if b == 0xF4 then some (3, 0x80, 0x8F)
  else if 0xF1 ≤ b && b ≤ 0xF3 then some (3, 0x80, 0xBF)
  else none

/-- The bits that a lead octet gives to a sequence with `tails` further octets. -/
def leadBits (tails b : Nat) : Nat :=
  if tails = 1 then b % 0x20 else if tails = 2 then b % 0x10 else b % 0x08

/-- The code point that the next octets complete, or `none` if one of them does not belong. -/
def completeOctets : Nat → Nat → Nat → Nat → List UInt8 → Option Nat
  | 0, _, _, code, _ => some code
  | _ + 1, _, _, _, [] => none
  | tails + 1, low, high, code, b :: bs =>
    if low ≤ b.toNat && b.toNat ≤ high then
      completeOctets tails 0x80 0xBF (code * 0x40 + b.toNat % 0x40) bs
    else none

/-- The characters and stray octets, with `skip` octets left of a sequence already read. -/
def decodeFrom : Nat → List UInt8 → Raw
  | _, [] => []
  | skip + 1, _ :: bs => decodeFrom skip bs
  | 0, b :: bs =>
    if b.toNat < 0x80 then some (Char.ofNat b.toNat) :: decodeFrom 0 bs
    else match leadOctet b.toNat with
      | none => none :: decodeFrom 0 bs
      | some (tails, low, high) =>
        match completeOctets tails low high (leadBits tails b.toNat) bs with
        | some code => some (Char.ofNat code) :: decodeFrom tails bs
        | none => none :: decodeFrom 0 bs

/-- The characters and stray octets of a sequence of octets. -/
def decode (bytes : List UInt8) : Raw :=
  decodeFrom 0 bytes

end FirewallLists.Text
