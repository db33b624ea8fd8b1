import FirewallLists.Error

/-
  Callers and what they are known by.
-/

namespace FirewallLists

inductive CallerKind where
  /-- Runs the platform. -/
  | admin
  /-- A tenant, who may only touch lists of their own. -/
  | user
  /-- An edge node or a detector. -/
  | node
  deriving DecidableEq, Repr

namespace CallerKind

def name : CallerKind → String
  | admin => "admin"
  | user => "user"
  | node => "node"

def ofName? (s : String) : Option CallerKind :=
  if s = "admin" then some admin
  else if s = "user" then some user
  else if s = "node" then some node
  else none

theorem ofName?_name (k : CallerKind) : ofName? k.name = some k := by
  cases k <;> rfl

end CallerKind

structure Caller where
  kind : CallerKind
  id : Int
  deriving DecidableEq, Repr

namespace Caller

def toText (c : Caller) : String :=
  c.kind.name ++ ":" ++ toString c.id

/-- The tenant that calls, if a tenant does. -/
def userId? (c : Caller) : Option Int :=
  if c.kind = .user then some c.id else none

/-- Turn away callers of other kinds, and tenants without a positive id. -/
def require (c : Caller) (allowed : List CallerKind) : Except ServiceError Unit :=
  if c.kind ∉ allowed then
    .error (.permissionDenied (c.kind.name ++ " callers may not use this operation"))
  else if c.kind = .user ∧ c.id ≤ 0 then .error (.validation "invalid userId")
  else .ok ()

end Caller

/-- A text that a caller shows, and who that caller is. -/
structure Token where
  token : String
  caller : Caller
  deriving DecidableEq, Repr

namespace Token

/-- Who shows this text; of tokens with one text the last one counts. -/
def resolve? (tokens : List Token) (text : String) : Option Caller :=
  (tokens.reverse.find? (·.token == text)).map (·.caller)

/-- How many different texts there are. -/
def countDistinct : List Token → Nat
  | [] => 0
  | t :: ts => countDistinct ts + (if ts.any (·.token == t.token) then 0 else 1)

/-- The token in the value of an authorization header: visible ASCII or tabs behind `Bearer`
and a blank, without blank characters around it. -/
def ofHeader? (value : String) : Option String :=
  if value.toList.all (fun c => (0x20 ≤ c.toNat && c.toNat < 0x7F) || c == '\t')
      && value.startsWith "Bearer " then
    let text := Text.trim (String.ofList (value.toList.drop 7))
    if text = "" then none else some text
  else none

end Token

end FirewallLists
