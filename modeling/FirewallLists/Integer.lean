/-
  The integers that a column, a JSON number and a TOML number hold: those that fit 64 bits with a
  sign.
-/

namespace FirewallLists

/-- The largest integer that fits 64 bits with a sign. -/
def maxInteger : Int := 9223372036854775807

/-- The integer fits 64 bits with a sign. -/
def fits64 (n : Int) : Bool :=
  -maxInteger - 1 ≤ n && n ≤ maxInteger

end FirewallLists
