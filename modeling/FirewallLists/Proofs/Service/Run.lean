import FirewallLists.Proofs.Service.Calls
import FirewallLists.Service.Environment

/-
  Runs of the services. An `Event` is a call, whoever makes it and whatever it asks for, or a
  change around the services; only calls write items, lists and the sequence. A state is
  `Reachable` when a run of events leads to it from empty tables. What every edit keeps is then
  true in every reachable state (`Reachable.holds`), and what every edit does to the tables every
  run does (`Reachable.related`).
-/

namespace FirewallLists

open Relation ServiceM

/-! ## Events -/

/-- These items and lists beside another directory. -/
def Store.withDirectory (s directory : Store) : Store :=
  { directory with items := s.items, lists := s.lists, sequence := s.sequence }

/-- These items and this last version beside the same lists and directory. -/
def Store.withItems (s : Store) (items : Table ItemRow) (sequence : Int) : Store :=
  { s with items := items, sequence := sequence }

/-- The state once somebody else has written an item, switched off, with this id and version. -/
def State.beside (st : State) (id version : Int) : State :=
  let row : ItemRow := ⟨id, 1, "", "", "", "", [], [], "", version, 0, 0, "", "", 0, 0, {}, 1, 0⟩
  { st with store := st.store.withItems (st.store.items.insert row) st.store.sequence }

/-- What can happen. -/
inductive Event where
  | call (gate : Gate) (token : Option String) (call : Call)
  /-- It is now this time. -/
  | time (now : Int)
  /-- The tables cannot be reached any more. -/
  | closed
  /-- These kinds of look-up fail. -/
  | failing (kinds : List Lookup)
  | restarted
  /-- These lists are no longer remembered. -/
  | lapsed (ids : List Int)
  /-- Somebody else has written the directory. -/
  | directory (tables : Store)

/-- The state after an event. -/
def Event.apply (st : State) : Event → State
  | .call gate token c => (outcome (gate.serve token c) st).2
  | .time now => st.atTime now
  | .closed => st.closed
  | .failing kinds => st.withFailing kinds
  | .restarted => st.restarted
  | .lapsed ids => { st with cache := st.cache.filter fun entry => !ids.contains entry.1 }
  | .directory tables => { st with store := st.store.withDirectory tables }

/-- One event leads from one state to the other. -/
def Next (st st' : State) : Prop :=
  ∃ event : Event, st' = event.apply st

/-- A run leads to the state from empty tables. -/
def Reachable (st : State) : Prop :=
  ∃ now, ReflTransGen Next { now } st

theorem Reachable.next {st st' : State} (h : Reachable st) (hnext : Next st st') :
    Reachable st' := by
  obtain ⟨now, hrun⟩ := h
  exact ⟨now, hrun.tail hnext⟩

theorem Reachable.run {st st' : State} (h : Reachable st) (hrun : ReflTransGen Next st st') :
    Reachable st' := by
  obtain ⟨now, hstart⟩ := h
  exact ⟨now, hstart.trans hrun⟩

/-- The state after these events, one after the other. -/
def State.after (st : State) (events : List Event) : State :=
  events.foldl Event.apply st

theorem run_after (st : State) (events : List Event) : ReflTransGen Next st (st.after events) := by
  induction events generalizing st with
  | nil => exact .refl
  | cons event events ih => exact .head ⟨event, rfl⟩ (ih (event.apply st))

theorem reachable_after (now : Int) (events : List Event) :
    Reachable (State.after { now } events) :=
  ⟨now, run_after _ events⟩

/-- A gate that lets in one administrator. -/
def adminGate : Gate where
  tokens := [⟨"key", ⟨.admin, 1⟩⟩]

/-- Calls of the administrator. -/
def adminCalls (calls : List Call) : List Event :=
  calls.map (.call adminGate (some "key"))

/-- A list that every tenant may use. -/
def publicBlackList : NewList :=
  ⟨"blocked", .black, true, true, none, none, ""⟩

theorem next_apply (event : Event) (st : State) : Next st (event.apply st) :=
  ⟨event, rfl⟩

/-- A call is an event, however it ends. -/
theorem next_call (gate : Gate) (token : Option String) (call : Call) (st : State) :
    Next st (outcome (gate.serve token call) st).2 :=
  next_apply (.call gate token call) st

/-! ## What events do -/

/-- An event commits transactions, or leaves items and lists alone. -/
theorem Next.writes {st st' : State} (h : Next st st') :
    ReflTransGen (Store.Write st.now) st.store st'.store ∨
      ∃ directory, st'.store = st.store.withDirectory directory := by
  obtain ⟨event, rfl⟩ := h
  cases event with
  | call gate token call => exact Or.inl (gate.serve_progress token call st).writes
  | directory tables => exact Or.inr ⟨tables, rfl⟩
  | time | closed | failing | restarted | lapsed => exact Or.inl .refl

theorem Next.coherent {st st' : State} (h : Next st st') (hst : st.Coherent) :
    st'.Coherent := by
  obtain ⟨event, rfl⟩ := h
  cases event with
  | call gate token call => exact (gate.serve_progress token call st).coherent hst
  | restarted => exact fun entry hentry => absurd hentry List.not_mem_nil
  | lapsed ids => exact fun entry hentry => hst entry (List.mem_of_mem_filter hentry)
  | time | closed | failing | directory => exact hst

theorem Reachable.coherent {st : State} (h : Reachable st) : st.Coherent := by
  obtain ⟨now, hrun⟩ := h
  induction hrun with
  | refl => exact fun entry hentry => absurd hentry List.not_mem_nil
  | tail _ hnext ih => exact hnext.coherent ih

/-! ## Invariants -/

namespace Store

/-- The property holds of empty tables, and it is kept by every edit of tables in the order of
their ids and by every change of the directory. -/
structure Invariant (Inv : Store → Prop) : Prop where
  empty : Inv {}
  edit : ∀ {now : Int} {s s' : Store}, s.Ordered → Inv s → Edit now s s' → Inv s'
  directory : ∀ {s : Store} (directory : Store), Inv s → Inv (s.withDirectory directory)

variable {Inv : Store → Prop} {now : Int} {s s' : Store}

theorem invariant_ordered : Invariant Ordered where
  empty := ⟨Table.ordered_empty, Table.ordered_empty⟩
  edit := fun _ hs h => h.ordered hs
  directory := fun _ hs => ⟨hs.items, hs.lists⟩

theorem invariant_rows {P : ItemRow → Prop} (hP : Lasting P) :
    Invariant fun s => ∀ r ∈ s.items.rows, P r where
  empty := fun _ hr => absurd hr List.not_mem_nil
  edit := fun hs hrows h => h.rows hP hs hrows
  directory := fun _ h => h

/-- Tables in the order of their ids stay so along edits, which keep the invariant. -/
theorem Invariant.edits (hinv : Invariant Inv) (hs : s.Ordered) (hI : Inv s)
    (h : ReflTransGen (Edit now) s s') : s'.Ordered ∧ Inv s' := by
  induction h with
  | refl => exact ⟨hs, hI⟩
  | tail _ hedit ih => exact ⟨hedit.ordered ih.1, hinv.edit ih.1 ih.2 hedit⟩

theorem Invariant.writes (hinv : Invariant Inv) (hs : s.Ordered) (hI : Inv s)
    (h : ReflTransGen (Write now) s s') : s'.Ordered ∧ Inv s' := by
  induction h with
  | refl => exact ⟨hs, hI⟩
  | tail _ hwrite ih => exact hinv.edits ih.1 ih.2 (hwrite.edits ih.1)

/-- A chain of transactions is a chain of edits. -/
theorem edits_of_writes (hs : s.Ordered) (h : ReflTransGen (Write now) s s') :
    ReflTransGen (Edit now) s s' := by
  induction h with
  | refl => exact .refl
  | tail hwrites hwrite ih =>
    exact ih.trans (hwrite.edits (invariant_ordered.writes hs hs hwrites).1)

theorem related_of_edits {R : Store → Store → Prop} [Std.Refl R] [IsTrans Store R]
    (edit : ∀ {now : Int} {s s' : Store}, s.Ordered → Edit now s s' → R s s') (hs : s.Ordered)
    (h : ReflTransGen (Edit now) s s') : R s s' := by
  induction h with
  | refl => exact Std.Refl.refl s
  | tail hedits hedit ih =>
    have hordered := (invariant_ordered.edits hs hs hedits).1
    exact IsTrans.trans _ _ _ ih (edit hordered hedit)

end Store

/-- What an event does to the tables, edit by edit. -/
theorem Next.edits {st st' : State} (h : Next st st') (hs : st.store.Ordered) :
    ReflTransGen (Store.Edit st.now) st.store st'.store ∨
      ∃ directory, st'.store = st.store.withDirectory directory :=
  h.writes.imp_left (Store.edits_of_writes hs)

theorem Reachable.ordered {st : State} (h : Reachable st) : st.store.Ordered := by
  obtain ⟨now, hrun⟩ := h
  induction hrun with
  | refl => exact Store.invariant_ordered.empty
  | tail _ hnext ih =>
    rcases hnext.writes with hwrites | ⟨directory, hdirectory⟩
    · exact (Store.invariant_ordered.writes ih ih hwrites).1
    · rw [hdirectory]
      exact Store.invariant_ordered.directory directory ih

/-- An invariant of the tables holds in every reachable state. -/
theorem Reachable.holds {Inv : Store → Prop} {st : State} (h : Reachable st)
    (hinv : Store.Invariant Inv) : Inv st.store := by
  obtain ⟨now, hrun⟩ := h
  induction hrun with
  | refl => exact hinv.empty
  | tail hrun hnext ih =>
    have hs := Reachable.ordered ⟨now, hrun⟩
    rcases hnext.writes with hwrites | ⟨directory, hdirectory⟩
    · exact (hinv.writes hs ih hwrites).2
    · rw [hdirectory]
      exact hinv.directory directory ih

/-- What every edit does to the tables, and every change of the directory, a run does too. -/
theorem Reachable.related {R : Store → Store → Prop} [Std.Refl R] [IsTrans Store R]
    (edit : ∀ {now : Int} {s s' : Store}, s.Ordered → Store.Edit now s s' → R s s')
    (directory : ∀ s directory : Store, R s (s.withDirectory directory)) {st st' : State}
    (h : Reachable st) (hrun : ReflTransGen Next st st') : R st.store st'.store := by
  induction hrun with
  | refl => exact Std.Refl.refl _
  | tail hrun hnext ih =>
    refine IsTrans.trans _ _ _ ih ?_
    have hs := (h.run hrun).ordered
    rcases hnext.edits hs with hedits | ⟨tables, htables⟩
    · exact Store.related_of_edits edit hs hedits
    · rw [htables]
      exact directory _ tables

end FirewallLists
