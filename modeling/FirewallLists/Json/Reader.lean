import FirewallLists.Integer
import FirewallLists.Json
import FirewallLists.Json.Number
import FirewallLists.Text.Utf8

/-
  Reading JSON from left to right. The first fault met decides: a text that is no JSON is
  malformed, a value of another shape than the one asked for is a misfit. Values that nobody
  asked for are only skipped, so what their quoted texts and numbers stand for is not looked at.
-/

namespace FirewallLists.Json

open FirewallLists.Text

/-- Why reading stopped. -/
inductive Fault where
  | malformed
  | misfit
  deriving DecidableEq, Repr

/-- What bounds a reader. -/
structure Limits where
  /-- Brackets that may still be opened, and one more. -/
  depth : Nat
  /-- The length of the whole text, and one more: no array has more elements. -/
  length : Nat

/-- A reader consumes a part of the text. -/
abbrev Reader := ReaderT Limits (StateT Raw (Except Fault))

namespace Reader

/-- Brackets that may be open at a time, and one more. -/
def maxDepth : Nat := 128

/-- Read a value at the front of a text. -/
def front {α : Type} (r : Reader α) (text : Raw) : Except Fault (α × Raw) :=
  (r.run ⟨maxDepth, text.length + 1⟩).run text

def malformed {α : Type} : Reader α :=
  throw .malformed

def misfit {α : Type} : Reader α :=
  throw .misfit

/-- What JSON counts as space. -/
def isSpace (c : Option Char) : Bool :=
  c == some ' ' || c == some '\n' || c == some '\t' || c == some '\r'

/-- Skip space and look at the next character; `none` at the end and at a stray octet. -/
def peek : Reader (Option Char) := do
  let text := (← get).dropWhile isSpace
  set text
  return text.head?.join

/-- Drop the character that was looked at. -/
def advance : Reader Unit :=
  modify (·.drop 1)

/-- The next characters have to be these. -/
def literal (word : String) : Reader Unit := do
  let text ← get
  let wanted := Raw.ofString word
  if wanted.isPrefixOf text then set (text.drop wanted.length) else malformed

/-- A character that has to come next, behind space. -/
def symbol (c : Char) : Reader Unit := do
  if (← peek) = some c then advance else malformed

/-- Run a reader inside one more pair of brackets. -/
def nested {α : Type} (r : Reader α) : Reader α := fun limits =>
  if limits.depth ≤ 1 then throw .malformed else r { limits with depth := limits.depth - 1 }

/-! ## Quoted texts -/

/-- A quoted text is made of characters and of escaped UTF-16 units. -/
inductive Piece where
  | char (c : Char)
  | unit (n : Nat)

/-- The character that a one-letter escape stands for. -/
def escaped? (c : Char) : Option Char :=
  match c with
  | '"' => some '"'
  | '\\' => some '\\'
  | '/' => some '/'
  | 'b' => some '\x08'
  | 'f' => some '\x0c'
  | 'n' => some '\n'
  | 'r' => some '\r'
  | 't' => some '\t'
  | _ => none

/-- The pieces up to the closing quote, and the text behind it. -/
def pieces : Raw → Except Fault (List Piece × Raw)
  | some '"' :: rest => .ok ([], rest)
  | some '\\' :: some 'u' :: some a :: some b :: some c :: some d :: rest =>
    match hexadecimal? [a, b, c, d] with
    | some n => (pieces rest).map fun (ps, rest) => (.unit n :: ps, rest)
    | none => .error .malformed
  | some '\\' :: some e :: rest =>
    match escaped? e with
    | some c => (pieces rest).map fun (ps, rest) => (.char c :: ps, rest)
    | none => .error .malformed
  | some c :: rest =>
    if c = '\\' ∨ c < ' ' then .error .malformed
    else (pieces rest).map fun (ps, rest) => (.char c :: ps, rest)
  | _ => .error .malformed

/-- The characters that pieces stand for; surrogate units have to come in pairs. -/
def assemble : List Piece → Option (List Char)
  | [] => some []
  | .char c :: ps => (assemble ps).map (c :: ·)
  | .unit hi :: .unit lo :: ps =>
    if 0xD800 ≤ hi ∧ hi < 0xDC00 then
      if 0xDC00 ≤ lo ∧ lo < 0xE000 then
        (assemble ps).map (Char.ofNat (0x10000 + (hi - 0xD800) * 0x400 + (lo - 0xDC00)) :: ·)
      else none
    else if 0xDC00 ≤ hi ∧ hi < 0xE000 then none
    else (assemble (.unit lo :: ps)).map (Char.ofNat hi :: ·)
  | .unit n :: ps =>
    if 0xD800 ≤ n ∧ n < 0xE000 then none else (assemble ps).map (Char.ofNat n :: ·)

/-- A quoted text behind its opening quote. -/
def quotedBody : Reader String := do
  match pieces (← get) with
  | .error fault => throw fault
  | .ok (ps, rest) =>
    set rest
    match assemble ps with
    | some cs => return String.ofList cs
    | none => malformed

/-- What is left behind the closing quote of a text that nobody asked for. -/
def behindQuoted : Raw → Except Fault Raw
  | some '"' :: rest => .ok rest
  | some '\\' :: some 'u' :: some a :: some b :: some c :: some d :: rest =>
    if (hexadecimal? [a, b, c, d]).isSome then behindQuoted rest else .error .malformed
  | some '\\' :: some e :: rest =>
    if (escaped? e).isSome then behindQuoted rest else .error .malformed
  | some c :: rest => if c = '\\' ∨ c < ' ' then .error .malformed else behindQuoted rest
  | none :: rest => behindQuoted rest
  | [] => .error .malformed

/-- Skip a quoted text behind its opening quote. -/
def skipQuotedBody : Reader Unit := do
  match behindQuoted (← get) with
  | .ok rest => set rest
  | .error fault => throw fault

/-! ## Numbers -/

/-- The digits at the front. -/
def digits : Reader (List Char) := do
  let text ← get
  let isDigit := fun c : Option Char => (c.bind decimalDigit?).isSome
  set (text.dropWhile isDigit)
  return (text.takeWhile isDigit).filterMap id

/-- One or more digits. -/
def digits1 : Reader (List Char) := do
  let ds ← digits
  if ds.isEmpty then malformed else return ds

/-- Drop the next character if it is one of these. -/
def oneOf (cs : List Char) : Reader (Option Char) := do
  match (← get).head?.join with
  | some c => if cs.contains c then advance; return some c else return none
  | none => return none

/-- A number: no sign but a minus, and no leading zeros. -/
def numeral : Reader Numeral := do
  let sign ← oneOf ['-']
  let whole ← digits1
  if whole.head? = some '0' ∧ whole.length ≠ 1 then malformed
  let fraction ← do
    match ← oneOf ['.'] with
    | some _ => some <$> digits1
    | none => pure none
  let exponent ← do
    match ← oneOf ['e', 'E'] with
    | some _ =>
      let expSign ← oneOf ['+', '-']
      let ds ← digits1
      pure (some (expSign == some '-', ds))
    | none => pure none
  return ⟨sign.isSome, whole, fraction, exponent⟩

/-- A number whose value is wanted; one that is out of range is malformed. -/
def numberInRange : Reader Numeral := do
  let n ← numeral
  if isInRange n then return n else malformed

/-! ## Arrays and objects -/

/-- Move to the next element of an array behind its opening bracket; `false` at the end, which
is left in place. -/
def nextElement (first : Bool) : Reader Bool := do
  match ← peek with
  | some ']' => return false
  | some c =>
    if first then return true
    else if c = ',' then
      advance
      if (← peek) = some ']' then malformed else return true
    else malformed
  | none => malformed

/-- Elements up to the closing bracket, which is consumed. -/
def elements {α : Type} (item : Reader α) : Nat → Bool → Reader (List α)
  | 0, _ => malformed
  | bound + 1, first => do
    if ← nextElement first then
      let a ← item
      let rest ← elements item bound false
      return a :: rest
    else
      advance
      return []

/-- An array behind its opening bracket. -/
def arrayBody {α : Type} (item : Reader α) : Reader (List α) := do
  elements item (← read).length true

/-- Move to the next member of an object behind its opening brace and read its name; `none` at
the end, which is left in place. -/
def nextName (name : Reader α) (first : Bool) : Reader (Option α) := do
  match ← peek with
  | some '\x7d' => return none
  | some c =>
    if !first then
      if c = ',' then advance else malformed
    symbol '"'
    some <$> name
  | none => malformed

/-- A member's value behind its name. -/
def behindName {α : Type} (value : Reader α) : Reader α := do
  symbol ':'
  value

/-- Members up to the closing brace, which is consumed. What follows the name of a member is read
by `member`, which updates what is known. -/
def members {σ : Type} (member : String → σ → Reader σ) : Nat → Bool → σ → Reader σ
  | 0, _, _ => malformed
  | bound + 1, first, s => do
    match ← nextName quotedBody first with
    | some name =>
      let s ← member name s
      members member bound false s
    | none =>
      advance
      return s

/-- An object behind its opening brace. -/
def objectBody {σ : Type} (member : String → σ → Reader σ) (s : σ) : Reader σ := do
  members member (← read).length true s

/-! ## Values of any shape -/

/-- Any value, kept. -/
def valueWithin : Nat → Reader Json
  | 0 => malformed
  | bound + 1 => do
    match ← peek with
    | some 'n' => literal "null"; return .null
    | some 't' => literal "true"; return .bool true
    | some 'f' => literal "false"; return .bool false
    | some '"' => advance; return .str (← quotedBody)
    | some '[' => nested do
      advance
      return .arr (← arrayBody (valueWithin bound))
    | some '\x7b' => nested do
      advance
      let ms ← objectBody (fun name ms => return (name, ← behindName (valueWithin bound)) :: ms) []
      return .obj ms.reverse
    | some c =>
      if c = '-' ∨ c.isDigit then
        let n ← numberInRange
        match n.toInt? with
        | some i => return .int i
        | none => return .real n.toText
      else malformed
    | none => malformed

/-- Any value, kept. -/
def value : Reader Json := do
  valueWithin (← read).length

/-- Any value, skipped. -/
def skipWithin : Nat → Reader Unit
  | 0 => malformed
  | bound + 1 => do
    match ← peek with
    | some 'n' => literal "null"
    | some 't' => literal "true"
    | some 'f' => literal "false"
    | some '"' => advance; skipQuotedBody
    | some '[' =>
      advance
      discard (arrayBody (skipWithin bound))
    | some '\x7b' =>
      advance
      skipMembers bound (← read).length true
    | some c => if c = '-' ∨ c.isDigit then discard numeral else malformed
    | none => malformed
where
  /-- Members whose names are skipped too. -/
  skipMembers (bound : Nat) : Nat → Bool → Reader Unit
    | 0, _ => malformed
    | count + 1, first => do
      match ← nextName skipQuotedBody first with
      | some _ =>
        behindName (skipWithin bound)
        skipMembers bound count false
      | none => advance

/-- Any value, skipped. -/
def skip : Reader Unit := do
  skipWithin (← read).length

/-! ## Values of one shape -/

/-- The value at hand has the wrong shape: malformed if its first token is, a misfit if not. -/
def wrongShape {α : Type} : Reader α := do
  match ← peek with
  | some 'n' => literal "null"; misfit
  | some 't' => literal "true"; misfit
  | some 'f' => literal "false"; misfit
  | some '"' => advance; discard quotedBody; misfit
  | some '[' => misfit
  | some '\x7b' => misfit
  | some c => if c = '-' ∨ c.isDigit then discard numberInRange; misfit else malformed
  | none => malformed

/-- An integer that fits 64 bits with a sign. -/
def integer : Reader Int := do
  match ← peek with
  | some c =>
    if c = '-' ∨ c.isDigit then
      let n ← numberInRange
      match n.toInt?.filter fits64 with
      | some i => return i
      | none => misfit
    else wrongShape
  | none => malformed

def text : Reader String := do
  if (← peek) = some '"' then advance; quotedBody else wrongShape

def flag : Reader Bool := do
  match ← peek with
  | some 't' => literal "true"; return true
  | some 'f' => literal "false"; return false
  | _ => wrongShape

/-- A value or `null`. -/
def nullable {α : Type} (r : Reader α) : Reader (Option α) := do
  if (← peek) = some 'n' then literal "null"; return none else some <$> r

/-- One of a set of names: the name, or an object whose one member has that name and is null. -/
def choice {α : Type} (ofName? : String → Option α) : Reader α := do
  match ← peek with
  | some '"' =>
    advance
    named (← quotedBody)
  | some '\x7b' => do
    let a ← nested do
      advance
      if (← peek) ≠ some '"' then malformed
      let a ← named (← text)
      symbol ':'
      if (← peek) = some 'n' then literal "null" else wrongShape
      return a
    symbol '\x7d'
    return a
  | _ => malformed
where
  named (name : String) : Reader α :=
    match ofName? name with
    | some a => return a
    | none => misfit

/-- An array of values of one shape. -/
def list {α : Type} (item : Reader α) : Reader (List α) := do
  if (← peek) = some '[' then
    nested do
      advance
      arrayBody item
  else wrongShape

end Reader

/-- The value that a whole text writes. -/
def ofText? (s : String) : Option Json :=
  match Reader.value.front (Text.Raw.ofString s) with
  | .ok (j, rest) => if rest.all Reader.isSpace then some j else none
  | .error _ => none

end FirewallLists.Json
