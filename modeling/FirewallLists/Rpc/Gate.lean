import FirewallLists.Rpc.Call

/-
  The gate that every call passes. Calls are counted by their method when they arrive, and those
  that fail also by the code of the failure. Who calls is known by the token that is shown.
-/

namespace FirewallLists

/-- What the services are run with. -/
structure Gate where
  settings : Settings := {}
  /-- Who may call; of tokens with one text the last one counts. -/
  tokens : List Token

namespace Gate

/-- Who shows this token. -/
def authenticate (gate : Gate) (token : Option String) : Except ServiceError Caller :=
  match token.bind (Token.resolve? gate.tokens) with
  | some caller => .ok caller
  | none => .error .unauthenticated

/-- Find out who calls, and carry the call out. -/
def authorized (gate : Gate) (token : Option String) (call : Call) : ServiceM Reply := do
  let caller ← ofExcept (gate.authenticate token)
  call.run gate.settings caller

/-- Carry a call out and count it. -/
def serve (gate : Gate) (token : Option String) (call : Call) : ServiceM Reply := do
  ServiceM.count (.calls call.method) 1
  match ← ServiceM.attempt (gate.authorized token call) with
  | .ok reply => return reply
  | .error e =>
    ServiceM.count (.failures call.method e.code) 1
    throw e

end Gate

end FirewallLists
