import FirewallLists.Http.MediaType
import FirewallLists.Rpc.Body
import FirewallLists.Rpc.Gate
import FirewallLists.Rpc.Reply

/-
  Calls over HTTP. A request is checked from the outside in: its path, its method, the type of
  its body, the size of the body, the body itself; only then the caller.
-/

namespace FirewallLists.Http

structure Request where
  method : String
  /-- The path, perhaps with a scheme and an authority before it and a query behind it. -/
  target : String
  contentType : Option String
  authorization : Option String
  body : List UInt8

/-- A status and a JSON body, if the body is one. -/
structure Response where
  status : Nat
  body : Option Json

/-- What answers requests. -/
structure Site where
  gate : Gate
  /-- There is a page of counters. -/
  showsCounters : Bool

/-- The path of the page of counters. -/
def countersPath : String := "/metrics"

/-- The longest body, in octets, that is read. -/
def maxBodySize : Nat := 2 * 1024 * 1024

/-- What follows the scheme of a target, if it has one. -/
def behindScheme? : List Char → Option (List Char)
  | [] => none
  | ':' :: '/' :: '/' :: cs => some cs
  | _ :: cs => behindScheme? cs

/-- A query or a fragment starts here. -/
def endsPath (c : Char) : Bool :=
  c == '?' || c == '#'

/-- The path in a target. Behind a scheme comes an authority first, which ends where the path
starts. -/
def Request.path (r : Request) : String :=
  let cs := match r.target.toList with
    | '/' :: cs => '/' :: cs
    | cs => match behindScheme? cs with
      | some cs => cs.dropWhile fun c => c != '/' && !endsPath c
      | none => cs
  String.ofList (cs.takeWhile fun c => !endsPath c)

/-- Why a body is refused. -/
inductive Refusal where
  | mediaType
  | size
  | body (fault : Json.Fault)
  deriving DecidableEq, Repr

def Refusal.status : Refusal → Nat
  | mediaType => 415
  | size => 413
  | body .malformed => 400
  | body .misfit => 422

/-- Read the call that a request makes of a method. -/
def Request.call (r : Request) (method : Method) : Except Refusal Call :=
  match Call.source method with
  | .nowhere call => .ok call
  | .body reader =>
    if !((r.contentType.bind MediaType.ofText?).any MediaType.isJson) then .error .mediaType
    else if maxBodySize < r.body.length then .error .size
    else match reader.front (Text.decode r.body) with
      | .ok (call, _) => .ok call
      | .error fault => .error (.body fault)

/-- A response without a JSON body. -/
def Response.plain (status : Nat) : Response :=
  ⟨status, none⟩

/-- The response to a call that has been carried out. -/
def Response.ofResult : Except ServiceError Reply → Response
  | .ok reply => ⟨200, some reply.toJson⟩
  | .error e => ⟨e.code.status, some e.toJson⟩

/-- Answer a request for a method. -/
def Site.respondCall (site : Site) (r : Request) (method : Method) : StateM State Response :=
  if r.method ≠ "POST" then return .plain 405
  else match r.call method with
    | .error refusal => return .plain refusal.status
    | .ok call =>
      return .ofResult (← (site.gate.serve (r.authorization.bind Token.ofHeader?) call).run)

/-- Answer a request. -/
def Site.respond (site : Site) (r : Request) : StateM State Response :=
  match Method.ofPath? r.path with
  | some method => site.respondCall r method
  | none =>
    if site.showsCounters && r.path == countersPath then
      return .plain (if r.method = "GET" ∨ r.method = "HEAD" then 200 else 405)
    else return .plain 404

end FirewallLists.Http
