import FirewallLists.Net.Range

/-
  Why a call fails, with the code that counters and replies show and the status of the reply.
-/

namespace FirewallLists

/-- Why the tables could not be read or written. -/
inductive StorageError where
  /-- The tables cannot be reached. -/
  | closed
  /-- Another item has the version that was to be written. -/
  | versionTaken
  /-- The version sequence has reached its end. -/
  | noVersionLeft
  /-- The ids of a table have reached their end. -/
  | noIdLeft
  /-- A keyword is too long to be looked for. -/
  | patternTooLong
  /-- A statement would take more values than a statement may. -/
  | tooManyValues
  | invalidRow (reason : String)
  deriving DecidableEq, Repr

def StorageError.message : StorageError → String
  | .invalidRow reason => "invalid stored row: " ++ reason
  | _ => "database error"

inductive ServiceError where
  | validation (reason : String)
  | invalidRange (error : Net.RangeError)
  | unauthenticated
  | permissionDenied (reason : String)
  | listNotFound (id : Int)
  | itemNotFound (id : Int)
  | storage (error : StorageError)
  deriving DecidableEq, Repr

/-- Errors without their details. -/
inductive ErrorCode where
  | validation
  | invalidRange
  | unauthenticated
  | permissionDenied
  | listNotFound
  | itemNotFound
  | storage
  deriving DecidableEq, Repr

def ErrorCode.name : ErrorCode → String
  | validation => "validation"
  | invalidRange => "invalid_range"
  | unauthenticated => "unauthenticated"
  | permissionDenied => "permission_denied"
  | listNotFound => "list_not_found"
  | itemNotFound => "item_not_found"
  | storage => "storage"

/-- The status of a reply that reports such an error. -/
def ErrorCode.status : ErrorCode → Nat
  | validation | invalidRange => 400
  | unauthenticated => 401
  | permissionDenied => 403
  | listNotFound | itemNotFound => 404
  | storage => 500

namespace ServiceError

def code : ServiceError → ErrorCode
  | validation _ => .validation
  | invalidRange _ => .invalidRange
  | unauthenticated => .unauthenticated
  | permissionDenied _ => .permissionDenied
  | listNotFound _ => .listNotFound
  | itemNotFound _ => .itemNotFound
  | storage _ => .storage

def message : ServiceError → String
  | validation reason => reason
  | invalidRange error => error.message
  | unauthenticated => "missing or unknown credentials"
  | permissionDenied reason => "permission denied: " ++ reason
  | listNotFound id => "ip list " ++ toString id ++ " not found"
  | itemNotFound id => "ip item " ++ toString id ++ " not found"
  | storage error => error.message

/-- The caller can mend the request; all but storage errors are of this kind. -/
def isClientError (e : ServiceError) : Bool :=
  e.code != .storage

end ServiceError

end FirewallLists
