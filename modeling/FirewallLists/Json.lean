import FirewallLists.Text.Hex

/-
  JSON values and their text. Objects keep their members as written. Integers are kept as
  numbers; any other number is kept as its literal, since nothing here computes with it.
-/

namespace FirewallLists

inductive Json where
  | null
  | bool (b : Bool)
  | int (n : Int)
  | real (literal : String)
  | str (s : String)
  | arr (elements : List Json)
  | obj (members : List (String × Json))
  deriving Inhabited

namespace Json

/-- A value that may be missing. -/
def ofOption {α : Type} (f : α → Json) : Option α → Json
  | some a => f a
  | none => .null

/-- The first member with this name. -/
def get? (name : String) : Json → Option Json
  | .obj members => (members.find? fun m => m.1 == name).map Prod.snd
  | _ => none

/-! ## Printing -/

/-- One UTF-16 unit as an escape. -/
def unitEscape (n : Nat) : List Char :=
  '\\' :: 'u' :: (Text.hexPadded 4 n).toList

/-- A character inside a quoted text; what is not printable ASCII is escaped. -/
def quotedChar (c : Char) : List Char :=
  if c = '"' then ['\\', '"']
  else if c = '\\' then ['\\', '\\']
  else if 0x20 ≤ c.toNat ∧ c.toNat < 0x7F then [c]
  else if c.toNat < 0x10000 then unitEscape c.toNat
  else
    let n := c.toNat - 0x10000
    unitEscape (0xD800 + n / 0x400) ++ unitEscape (0xDC00 + n % 0x400)

/-- A text in quotes, in front of what follows. -/
def quoted (s : String) (rest : List Char) : List Char :=
  '"' :: s.toList.foldr (fun c out => quotedChar c ++ out) ('"' :: rest)

mutual
/-- The text of a value, in front of what follows. -/
def chars : Json → List Char → List Char
  | .null, rest => "null".toList ++ rest
  | .bool true, rest => "true".toList ++ rest
  | .bool false, rest => "false".toList ++ rest
  | .int n, rest => (toString n).toList ++ rest
  | .real literal, rest => literal.toList ++ rest
  | .str s, rest => quoted s rest
  | .arr [], rest => '[' :: ']' :: rest
  | .arr (v :: vs), rest => '[' :: chars v (elementChars vs rest)
  | .obj [], rest => '\x7b' :: '\x7d' :: rest
  | .obj ((name, v) :: ms), rest =>
    '\x7b' :: quoted name (':' :: chars v (memberChars ms rest))

/-- Further elements and the closing bracket. -/
def elementChars : List Json → List Char → List Char
  | [], rest => ']' :: rest
  | v :: vs, rest => ',' :: chars v (elementChars vs rest)

/-- Further members and the closing brace. -/
def memberChars : List (String × Json) → List Char → List Char
  | [], rest => '\x7d' :: rest
  | (name, v) :: ms, rest => ',' :: quoted name (':' :: chars v (memberChars ms rest))
end

/-- The text of a value, all in ASCII. -/
def toText (j : Json) : String :=
  String.ofList (j.chars [])

end Json

end FirewallLists
