import FirewallLists.Toml.Scalar

/-
  Reading TOML documents. A document is read line by line; each line opens a table or gives a
  value to a key. The first thing out of order ends the reading.
-/

namespace FirewallLists.Toml

open FirewallLists.Text

/-- A reader consumes a part of the text. -/
abbrev Reader := StateT (List Char) Option

namespace Reader

/-- Read a whole text. -/
def whole {α : Type} (r : Reader α) (text : List Char) : Option α :=
  match r.run text with
  | some (a, []) => some a
  | _ => none

def peek : Reader (Option Char) :=
  return (← get).head?

/-- The characters at the front that pass. -/
def run (p : Char → Bool) : Reader (List Char) := do
  let text ← get
  set (text.dropWhile p)
  return text.takeWhile p

/-- Drop the word at the front, if it is there. -/
def accept (word : String) : Reader Bool := do
  let text ← get
  if word.toList.isPrefixOf text then
    set (text.drop word.length)
    return true
  else return false

/-- The word has to come next. -/
def expect (word : String) : Reader Unit := do
  if ← accept word then return else failure

/-- A word that may be left out. -/
def allow (word : String) : Reader Unit :=
  discard (accept word)

/-! ## Space and comments -/

/-- A space or a tab. -/
def isSpace (c : Char) : Bool :=
  c == ' ' || c == '\t'

/-- A character of a comment or of a text within one line. -/
def isPlain (c : Char) : Bool :=
  c == '\t' || (0x20 ≤ c.toNat && c.toNat != 0x7F)

def space : Reader Unit :=
  discard (run isSpace)

/-- A comment, if there is one. -/
def comment : Reader Unit := do
  if ← accept "#" then discard (run isPlain)

/-- A line break, if there is one. -/
def lineBreak : Reader Bool := do
  if ← accept "\n" then return true else accept "\r\n"

/-- The rest of a line holds nothing more. -/
def lineEnd : Reader Unit := do
  space
  comment
  if ← lineBreak then return
  if (← peek).isSome then failure

/-- Space over any number of lines, with comments; `bound` lines suffice. -/
def blankLines : Nat → Reader Unit
  | 0 => failure
  | bound + 1 => do
    space
    comment
    if ← lineBreak then blankLines bound

/-- Space over any number of lines, with comments. Behind a comment there has to be a line
break; where there is none, what follows cannot be read either. -/
def blanks : Reader Unit := do
  blankLines ((← get).length + 1)

/-! ## Quoted texts -/

/-- The character with this number, written by so many digits. -/
def codePoint (digits : Nat) (cs : List Char) : Option Char := do
  let code ← if cs.length = digits then hexadecimal? cs else none
  if h : code.isValidChar then some (Char.ofNatAux code h) else none

/-- The character that an escape stands for, behind the backslash. -/
def escape : Reader Char := do
  match ← get with
  | c :: rest =>
    set rest
    match c with
    | 'b' => return '\x08'
    | 'f' => return '\x0c'
    | 'n' => return '\n'
    | 'r' => return '\r'
    | 't' => return '\t'
    | '"' => return '"'
    | '\\' => return '\\'
    | 'u' => coded 4
    | 'U' => coded 8
    | _ => failure
  | [] => failure
where
  coded (digits : Nat) : Reader Char := do
    let text ← get
    set (text.drop digits)
    codePoint digits (text.take digits)

/-- A text within one line, behind its opening quote. -/
def basicBody : Nat → Reader (List Char)
  | 0 => failure
  | bound + 1 => do
    match ← get with
    | '"' :: rest =>
      set rest
      return []
    | '\\' :: rest =>
      set rest
      let c ← escape
      return c :: (← basicBody bound)
    | c :: rest =>
      set rest
      if isPlain c then return c :: (← basicBody bound) else failure
    | [] => failure

/-- A text within one line, without escapes, behind its opening quote. -/
def literalBody : Reader (List Char) := do
  let cs ← run fun c => isPlain c && c != '\''
  expect "'"
  return cs

/-- The closing quotes of a text over several lines, if they come next: three, with up to two
more in front that belong to the text. -/
def closing (quote : Char) : Reader (Option (List Char)) := do
  let text ← get
  let count := (text.takeWhile (· == quote)).length
  if 3 ≤ count then
    let own := min (count - 3) 2
    set (text.drop (own + 3))
    return some (List.replicate own quote)
  else return none

/-- A backslash at the end of a line takes all space up to the next text away. -/
def foldedBreak : Reader Bool := do
  let text ← get
  space
  if ← lineBreak then
    foldMore ((← get).length + 1)
    return true
  else
    set text
    return false
where
  foldMore : Nat → Reader Unit
    | 0 => failure
    | bound + 1 => do
      space
      if ← lineBreak then foldMore bound

/-- A text over several lines, behind its opening quotes. -/
def longBody (quote : Char) (escapes : Bool) : Nat → Reader (List Char)
  | 0 => failure
  | bound + 1 => do
    if let some own ← closing quote then return own
    if ← lineBreak then return '\n' :: (← longBody quote escapes bound)
    match ← get with
    | c :: rest =>
      set rest
      if c = '\\' ∧ escapes then
        if ← foldedBreak then longBody quote escapes bound
        else
          let c ← escape
          return c :: (← longBody quote escapes bound)
      else if isPlain c then return c :: (← longBody quote escapes bound)
      else failure
    | [] => failure

/-- A text over several lines, behind its opening quotes; a line break right there is not part
of it. -/
def longText (quote : Char) (escapes : Bool) : Reader String := do
  discard lineBreak
  return String.ofList (← longBody quote escapes ((← get).length + 1))

/-- A quoted text within one line. -/
def shortText : Reader String := do
  if ← accept "\"" then return String.ofList (← basicBody ((← get).length + 1))
  else
    expect "'"
    return String.ofList (← literalBody)

/-- A quoted text. -/
def text : Reader String := do
  if ← accept "\"\"\"" then longText '"' true
  else if ← accept "'''" then longText '\'' false
  else shortText

/-! ## Keys -/

/-- Keys and values may be nested to this depth, less one. -/
def maxDepth : Nat := 80

/-- A character of a key without quotes. -/
def isBare (c : Char) : Bool :=
  c.isAlphanum || c == '-' || c == '_'

/-- One part of a key. -/
def simpleKey : Reader String := do
  match ← peek with
  | some '"' | some '\'' => shortText
  | _ =>
    let cs ← run isBare
    if cs.isEmpty then failure else return String.ofList cs

/-- The parts of a key with dots between them. -/
def keyParts : Nat → Reader (List String)
  | 0 => failure
  | bound + 1 => do
    space
    let part ← simpleKey
    space
    if ← accept "." then return part :: (← keyParts bound) else return [part]

/-- A key: the parts that lead to a table, and the name in it. -/
def key : Reader (List String × String) := do
  let parts ← keyParts (maxDepth - 1)
  return (parts.dropLast, parts.getLastD "")

/-! ## Values -/

/-- A character of a word. -/
def isWordChar (c : Char) : Bool :=
  c.isAlphanum || c == '+' || c == '-' || c == '_' || c == '.' || c == ':'

/-- A value that is one word, or a date and a time with a space between them. -/
def word : Reader Toml := do
  let cs ← run isWordChar
  match ← get with
  | ' ' :: c :: _ =>
    if isDate cs ∧ c.isDigit then
      allow " "
      ofWord? (cs ++ ' ' :: (← run isWordChar))
    else ofWord? cs
  | _ => ofWord? cs

/-- Elements of an array up to the closing bracket. -/
def elements (value : Reader Toml) : Nat → Reader (List Toml)
  | 0 => failure
  | bound + 1 => do
    blanks
    if ← accept "]" then return []
    let v ← value
    blanks
    if ← accept "," then return v :: (← elements value bound)
    expect "]"
    return [v]

/-- Pairs of an inline table behind its opening brace and space, up to the closing brace. -/
def pairs (value : Reader Toml) : Nat → Members → Reader Members
  | 0, _ => failure
  | bound + 1, ms => do
    let (path, name) ← key
    expect "="
    space
    let v ← value
    space
    let ms ← assign name v path ms
    if ← accept "," then pairs value bound ms
    else
      expect "\x7d"
      return ms

/-- A value. Brackets may be opened only if there is a reader for the values inside them. -/
def valueAround (inner : Option (Reader Toml)) : Reader Toml := do
  match ← peek, inner with
  | some '"', _ | some '\'', _ => return .string (← text)
  | some '[', some inner =>
    allow "["
    return .array false (← elements inner ((← get).length + 1))
  | some '\x7b', some inner =>
    allow "\x7b"
    space
    if ← accept "\x7d" then return .table .inline []
    else return .table .inline (← pairs inner ((← get).length + 1) [])
  | _, _ => word

/-- A value in which so many brackets may be open at a time. -/
def valueWithin : Nat → Reader Toml
  | 0 => valueAround none
  | depth + 1 => valueAround (some (valueWithin depth))

def value : Reader Toml :=
  valueWithin (maxDepth - 1)

/-! ## Documents -/

/-- What has been read: all members, and the header that keys now belong to. -/
structure Document where
  members : Members := []
  header : List String := []

/-- A key and its value. -/
def pair (doc : Document) : Reader Document := do
  let (path, name) ← key
  expect "="
  space
  let v ← value
  let members ← within (assign name v path) doc.header doc.members
  return { doc with members := members }

/-- The header of a table or of a further table of an array. -/
def header (doc : Document) : Reader Document := do
  let (path, name, members) ←
    if ← accept "[[" then do
      let (path, name) ← key
      expect "]]"
      pure (path, name, ← within (openElement name) path doc.members)
    else do
      expect "["
      let (path, name) ← key
      expect "]"
      pure (path, name, ← within (openTable name) path doc.members)
  return ⟨members, path ++ [name]⟩

/-- All lines; `bound` lines suffice. -/
def lines : Nat → Document → Reader Document
  | 0, _ => failure
  | bound + 1, doc => do
    space
    match ← peek with
    | none => return doc
    | some '[' =>
      let doc ← header doc
      lineEnd
      lines bound doc
    | some c =>
      let doc ← if c = '#' ∨ c = '\n' ∨ c = '\r' then pure doc else pair doc
      lineEnd
      lines bound doc

/-- A document, with or without a byte order mark in front. -/
def document : Reader Document := do
  allow "\uFEFF"
  lines ((← get).length + 1) {}

end Reader

/-- The table that a whole text writes. -/
def ofText? (s : String) : Option Members :=
  (Reader.document.whole s.toList).map (·.members)

end FirewallLists.Toml
