import FirewallLists.Caller
import FirewallLists.Net.Endpoint
import FirewallLists.Settings
import FirewallLists.Toml.Reader
import FirewallLists.Toml.Record

/-
  The configuration, which is read from a TOML document.
-/

namespace FirewallLists

inductive LogFormat where
  | text
  | json
  deriving DecidableEq, Repr

namespace LogFormat

def name : LogFormat → String
  | text => "text"
  | json => "json"

def ofName? (s : String) : Option LogFormat :=
  if s = "text" then some text
  else if s = "json" then some json
  else none

end LogFormat

/-- Who the server is and where it listens. -/
structure ServerConfig where
  name : String
  /-- By default only the machine itself is listened to. -/
  listen : Net.Endpoint := ⟨⟨.v4, 0x7F000001, by decide⟩, 0, 8003⟩
  showsCounters : Bool := true

/-- The file that keeps the tables unless another one is named. -/
def defaultStorePath : String := "edgelist.db"

structure Config where
  server : ServerConfig
  /-- The file that keeps the tables; `:memory:` keeps them in no file. -/
  storePath : String := defaultStorePath
  settings : Settings := {}
  logFormat : LogFormat := .text
  tokens : List Token := []

/-- Why there is no configuration. -/
inductive Config.Failure where
  | unreadable
  | malformed
  deriving DecidableEq, Repr

def Config.Failure.message : Config.Failure → String
  | unreadable => "failed to read config file"
  | malformed => "failed to parse config"

/-! ## Reading -/

open Toml

/-- The name has to be given and is empty only until then. -/
def ServerConfig.ofToml? : Toml → Option ServerConfig :=
  record
    [RecordField.need (.text "name" fun s c => { c with name := s }),
     .parsed "listen" Net.Endpoint.ofText? fun e c => { c with listen := e },
     .flag "metrics" fun b c => { c with showsCounters := b }]
    { name := "" }

/-- The path of the store. -/
def Config.storePathOfToml? : Toml → Option String :=
  record [.text "path" fun s _ => s] defaultStorePath

def Settings.ofToml? : Toml → Option Settings :=
  record
    [.integer "default_page_size" fun n s => { s with defaultPageSize := n },
     .integer "max_page_size" fun n s => { s with maxPageSize := n },
     .natural "list_cache_ttl_secs" fun n s => { s with listCacheSeconds := n }]
    {}

def LogFormat.ofToml? : Toml → Option LogFormat :=
  record [.choice "format" ofName? fun f _ => f] .text

/-- All parts of a token have to be given and stand here only until then. -/
def Token.ofToml? : Toml → Option Token :=
  record
    [RecordField.need (.text "token" fun s t => { t with token := s }),
     RecordField.need (.choice "kind" CallerKind.ofName? fun k t => { t with caller.kind := k }),
     RecordField.need (.integer "id" fun n t => { t with caller.id := n })]
    ⟨"", .admin, 0⟩

/-- Tokens are written one after the other. -/
def Token.listOfToml? : Toml → Option (List Token)
  | .array _ es => es.mapM ofToml?
  | _ => none

namespace Config

/-- The configuration that a table writes. -/
def ofToml? : Toml → Option Config :=
  record
    [RecordField.need (.nested "server" ServerConfig.ofToml? fun s c => { c with server := s }),
     .nested "database" storePathOfToml? fun s c => { c with storePath := s },
     .nested "sync" Settings.ofToml? fun s c => { c with settings := s },
     .nested "log" LogFormat.ofToml? fun f c => { c with logFormat := f },
     .nested "token" Token.listOfToml? fun ts c => { c with tokens := ts }]
    { server := { name := "" } }

/-- The configuration that a document writes. -/
def ofText (s : String) : Except Failure Config :=
  match (Toml.ofText? s).bind fun ms => ofToml? (.table .header ms) with
  | some c => .ok c
  | none => .error .malformed

end Config

end FirewallLists
