/-
  Change signals. A signal tells whoever listens that items have changed. Signals go out on a
  channel that keeps the last ones only: a listener that falls further behind is told how many
  it has missed and goes on with the oldest one kept.
-/

namespace FirewallLists

/-- The write that a signal tells of. -/
structure Change where
  itemId : Int
  listId : Int
  version : Int
  deriving DecidableEq, Repr

/-- All signals sent so far, the oldest first. -/
structure Channel where
  sent : List Change := []
  deriving DecidableEq, Repr

namespace Channel

/-- How many signals are kept for those who listen. -/
def capacity : Nat := 256

/-- How many signals have been sent. -/
def count (c : Channel) : Nat :=
  c.sent.length

def send (c : Channel) (change : Change) : Channel :=
  ⟨c.sent ++ [change]⟩

/-- The signals sent since there were `n` of them. -/
def since (c : Channel) (n : Nat) : List Change :=
  c.sent.drop n

@[simp]
theorem sent_send (c : Channel) (change : Change) : (c.send change).sent = c.sent ++ [change] :=
  rfl

@[simp]
theorem count_send (c : Channel) (change : Change) : (c.send change).count = c.count + 1 := by
  simp [count]

end Channel

/-- A listener has dealt with the signals up to a position. -/
structure Listener where
  position : Nat
  deriving DecidableEq, Repr

/-- What a listener gets. -/
inductive Receipt where
  | signal (change : Change)
  | empty
  /-- So many signals are lost. -/
  | lagged (missed : Nat)
  deriving DecidableEq, Repr

namespace Listener

/-- A listener hears what is sent from now on. -/
def subscribe (c : Channel) : Listener :=
  ⟨c.count⟩

/-- Take the next signal, or learn how many are lost. -/
def receive (l : Listener) (c : Channel) : Receipt × Listener :=
  if l.position + Channel.capacity < c.count then
    (.lagged (c.count - Channel.capacity - l.position), ⟨c.count - Channel.capacity⟩)
  else match c.sent[l.position]? with
    | some change => (.signal change, ⟨l.position + 1⟩)
    | none => (.empty, l)

/-- What a listener got until nothing was left. -/
structure Drained where
  count : Nat := 0
  lagged : Nat := 0
  first : Option Change := none
  last : Option Change := none
  deriving DecidableEq, Repr

/-- Add one receipt. -/
def Drained.add (d : Drained) : Receipt → Drained
  | .signal change =>
    { d with count := d.count + 1, first := d.first.or (some change), last := some change }
  | .lagged missed => { d with lagged := d.lagged + missed }
  | .empty => d

/-- Receive until nothing is left; `bound` receipts suffice. -/
def drainWithin : Nat → Listener → Channel → Drained → Drained × Listener
  | 0, l, _, d => (d, l)
  | bound + 1, l, c, d =>
    match l.receive c with
    | (.empty, l) => (d, l)
    | (receipt, l) => drainWithin bound l c (d.add receipt)

/-- Receive until nothing is left. -/
def drain (l : Listener) (c : Channel) : Drained × Listener :=
  drainWithin (c.count + 2) l c {}

end Listener

end FirewallLists
