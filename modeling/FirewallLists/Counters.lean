import FirewallLists.Error
import FirewallLists.Rpc.Method

/-
  Counters: how often each thing that is counted has happened.
-/

namespace FirewallLists

/-- Ways in which item rows are written. -/
inductive WriteKind where
  | create
  | update
  | replace
  | delete
  deriving DecidableEq, Repr

def WriteKind.name : WriteKind → String
  | create => "create"
  | update => "update"
  | replace => "replace"
  | delete => "delete"

/-- What is counted. -/
inductive Sample where
  | calls (method : Method)
  | failures (method : Method) (code : ErrorCode)
  | itemsWritten (kind : WriteKind)
  | itemsServed
  | signals
  | orphansDisabled
  deriving DecidableEq, Repr

/-- The sample with its labels in the order of their names. -/
def Sample.name : Sample → String
  | calls m => "edgelist_rpc_total\x7bmethod=\"" ++ m.name ++ "\"\x7d"
  | failures m c =>
    "edgelist_rpc_errors_total\x7bcode=\"" ++ c.name ++ "\",method=\"" ++ m.name ++ "\"\x7d"
  | itemsWritten k => "edgelist_items_written_total\x7bop=\"" ++ k.name ++ "\"\x7d"
  | itemsServed => "edgelist_sync_items_served_total"
  | signals => "edgelist_notify_signals_total"
  | orphansDisabled => "edgelist_orphans_disabled_total"

/-- The samples that have grown. -/
structure Counters where
  entries : List (Sample × Nat) := []
  deriving DecidableEq, Repr

namespace Counters

/-- Let a sample grow in a list of samples. -/
def grow (sample : Sample) (n : Nat) : List (Sample × Nat) → List (Sample × Nat)
  | [] => [(sample, n)]
  | (s, m) :: rest => if s = sample then (s, m + n) :: rest else (s, m) :: grow sample n rest

/-- How often something has happened. -/
def lookup (sample : Sample) : List (Sample × Nat) → Nat
  | [] => 0
  | (s, m) :: rest => if s = sample then m else lookup sample rest

def get (c : Counters) (sample : Sample) : Nat :=
  lookup sample c.entries

/-- Count something `n` times. -/
def add (c : Counters) (sample : Sample) (n : Nat) : Counters :=
  ⟨grow sample n c.entries⟩

/-- The samples that are not zero. -/
def grown (c : Counters) : List (Sample × Nat) :=
  c.entries.filter fun e => e.2 != 0

theorem lookup_grow (sample other : Sample) (n : Nat) (entries : List (Sample × Nat)) :
    lookup other (grow sample n entries) =
      lookup other entries + (if other = sample then n else 0) := by
  induction entries with
  | nil => grind [grow, lookup]
  | cons e rest ih => grind [grow, lookup]

@[simp]
theorem get_add (c : Counters) (sample other : Sample) (n : Nat) :
    (c.add sample n).get other = c.get other + (if other = sample then n else 0) :=
  lookup_grow sample other n c.entries

end Counters

end FirewallLists
