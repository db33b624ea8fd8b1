import FirewallLists.Config

/-
  What is wrong with a configuration. All problems are reported, in a fixed order: the server,
  the store, the page sizes, the tokens one by one.
-/

namespace FirewallLists

/-! ## Paths -/

namespace Path

/-- The components of a path. Empty ones count for nothing, and neither do those that stand for
the directory they are in, unless the path starts with one. -/
def components (path : List Char) : List (List Char) :=
  let words := Text.splitOn '/' path
  let named := words.filter fun w => w != [] && w != ['.']
  if words.head? = some ['.'] then ['.'] :: named else named

/-- The path without its last component, if it has one. -/
def parent? (path : String) : Option String :=
  let cs := path.toList
  match components cs with
  | [] => none
  | parts =>
    let root := if cs.head? = some '/' then ['/'] else []
    some (String.ofList (root ++ Text.joinWith '/' parts.dropLast))

end Path

/-! ## Problems -/

inductive Problem where
  | noServerName
  /-- The directory that the store is to be in does not exist. -/
  | noStoreDirectory (path : String)
  | maxPageSize (size : Int)
  | defaultPageSize (size : Int)
  | noTokens
  | emptyToken (index : Nat)
  | repeatedToken (index : Nat)
  /-- Only admins may have an id that is not positive. -/
  | tokenId (index : Nat) (caller : Caller)
  deriving DecidableEq, Repr

def Problem.message : Problem → String
  | noServerName => "server.name is required"
  | noStoreDirectory path => "database.path parent directory does not exist: " ++ path
  | maxPageSize size => "sync.max_page_size must be positive, got " ++ toString size
  | defaultPageSize size =>
    "sync.default_page_size must be in 1..=max_page_size, got " ++ toString size
  | noTokens => "at least one [[token]] block is required"
  | emptyToken index => "token #" ++ toString index ++ " is empty"
  | repeatedToken index => "token #" ++ toString index ++ " duplicates an earlier token"
  | tokenId index caller =>
    "token #" ++ toString index ++ " for a " ++ caller.kind.name ++
      " caller needs a positive id, got " ++ toString caller.id

namespace Config

/-- What is wrong with the server. -/
def serverProblems (c : Config) : List Problem :=
  if c.server.name = "" then [.noServerName] else []

/-- The directory that has to be there for the store, if there has to be one. -/
def storeDirectory? (c : Config) : Option String :=
  if c.storePath = ":memory:" then none
  else (Path.parent? c.storePath).filter (· != "")

/-- What is wrong with the place of the store. -/
def storeProblems (directoryExists : String → Bool) (c : Config) : List Problem :=
  match c.storeDirectory? with
  | some directory =>
    if directoryExists directory then [] else [.noStoreDirectory c.storePath]
  | none => []

/-- What is wrong with the sizes of pages. -/
def pageProblems (s : Settings) : List Problem :=
  if s.maxPageSize ≤ 0 then [.maxPageSize s.maxPageSize]
  else if s.defaultPageSize ≤ 0 ∨ s.maxPageSize < s.defaultPageSize then
    [.defaultPageSize s.defaultPageSize]
  else []

/-- What is wrong with one token, given those before it. -/
def tokenProblems (earlier : List Token) (t : Token) : List Problem :=
  let index := earlier.length
  if t.token = "" then [.emptyToken index]
  else
    (if earlier.any (·.token == t.token) then [.repeatedToken index] else []) ++
    (if t.caller.kind ≠ .admin ∧ t.caller.id ≤ 0 then [.tokenId index t.caller] else [])

/-- What is wrong with the tokens behind those in `earlier`. -/
def tokensProblems (earlier : List Token) : List Token → List Problem
  | [] => []
  | t :: ts => tokenProblems earlier t ++ tokensProblems (earlier ++ [t]) ts

/-- All that is wrong with a configuration. -/
def problems (directoryExists : String → Bool) (c : Config) : List Problem :=
  c.serverProblems ++ c.storeProblems directoryExists ++ pageProblems c.settings ++
    (if c.tokens.isEmpty then [.noTokens] else []) ++ tokensProblems [] c.tokens

end Config

end FirewallLists
