/-
  Media types in the value of a content-type header: type, subtype with an optional suffix, and
  parameters, which are checked but have no meaning here.
-/

namespace FirewallLists.Http

/-- Characters of a token. -/
def isTokenChar (c : Char) : Bool :=
  c.isAlphanum || "!#$%&'*+-.^_`|~".toList.contains c

/-- Characters inside a quoted value. -/
def isQuotable (c : Char) : Bool :=
  0x20 ≤ c.toNat && c.toNat < 0x7F

/-- A place among parameters, and whether a first character has been read there. -/
inductive Place where
  | name (started : Bool)
  | value (started : Bool)
  | quoted (started : Bool)
  | behindQuote
  deriving DecidableEq, Repr

namespace Place

/-- The place behind one more character. -/
def next : Place → Char → Option Place
  | name started, c =>
    if c = ' ' ∧ !started then some (name false)
    else if c = '=' ∧ started then some (value false)
    else if isTokenChar c then some (name true)
    else none
  | value started, c =>
    if c = '"' ∧ !started then some (quoted false)
    else if c = ';' ∧ started then some (name false)
    else if isTokenChar c then some (value true)
    else none
  | quoted started, c =>
    if c = '"' ∧ started then some behindQuote
    else if isQuotable c then some (quoted true)
    else none
  | behindQuote, c =>
    if c = ';' then some (name false) else if c = ' ' then some behindQuote else none

/-- Parameters may end here. -/
def mayEnd : Place → Bool
  | name started => !started
  | value _ => true
  | quoted _ => false
  | behindQuote => true

end Place

/-- The text behind a semicolon holds well-formed parameters. -/
def areParameters (cs : List Char) : Bool :=
  (cs.foldlM Place.next (.name false)).any Place.mayEnd

structure MediaType where
  type : String
  subtype : String
  suffix : Option String
  deriving DecidableEq, Repr

namespace MediaType

def lower (cs : List Char) : String :=
  String.ofList (cs.map Char.toLower)

/-- Split a suffix off behind the last plus sign that does not come first. -/
def ofNames (type subtype : List Char) : MediaType :=
  match (subtype.drop 1).reverse.span (· != '+') with
  | (back, _ :: front) =>
    ⟨lower type, lower (subtype.take 1 ++ front.reverse), some (lower back.reverse)⟩
  | (_, []) => ⟨lower type, lower subtype, none⟩

/-- The media type that a header's value names. -/
def ofText? (s : String) : Option MediaType :=
  match s.toList.span isTokenChar with
  | (type@(_ :: _), '/' :: cs) =>
    match cs.span isTokenChar with
    | (subtype, []) => some (ofNames type subtype)
    | (subtype@(_ :: _), ';' :: cs) =>
      if areParameters cs then some (ofNames type subtype) else none
    | _ => none
  | _ => none

/-- The type is that of JSON, or of something written in JSON. -/
def isJson (m : MediaType) : Bool :=
  m.type == "application" && (m.subtype == "json" || m.suffix == some "json")

end MediaType

end FirewallLists.Http
