import FirewallLists.Proofs.Service.Untold
import FirewallLists.Proofs.Tenant.Usable

/-
  The counters as an account of the tables. Every row has been counted as created, every row that
  is not live as replaced, deleted or orphaned, and every version as one of all these or as an
  update (`State.Balanced`). Each event keeps the balance up to the versions that it takes untold,
  which are those of items switched off without being counted (`Balanced.happens`); so after a run
  from empty tables the counters account for all rows and versions (`counters_balance`), unless a
  call has failed to delete several items (`counters_unbalanced`).
-/

namespace FirewallLists

open ServiceM

/-! ## Balance -/

namespace State

variable {st st' : State} {untold later : Nat}

/-- How many rows have been counted that were written for this cause. -/
def noted (st : State) (cause : Cause) : Nat :=
  st.counters.get cause.sample

/-- The counters account for all rows, for all live rows and for all versions, but for so many that
have been switched off untold. -/
structure Balanced (st : State) (untold : Nat) : Prop where
  rows : st.store.items.rows.length = st.noted (.asked .create)
  live : st.store.liveCount + st.noted (.asked .replace) + st.noted (.asked .delete) +
    st.noted .orphaned + untold = st.noted (.asked .create)
  versions : st.store.sequence = (st.noted (.asked .create) + st.noted (.asked .update) +
    st.noted (.asked .replace) + st.noted (.asked .delete) + st.noted .orphaned + untold : Nat)

/-- There is nothing to account for at the start. -/
theorem balanced_empty (now : Int) : Balanced { now } 0 :=
  ⟨rfl, rfl, rfl⟩

theorem Balanced.rests (h : st.Balanced untold) (hs : st.store.Ordered) (hs' : st'.store.Ordered)
    (rests : st.Rests st') : st'.Balanced untold := by
  have hnoted : st'.noted = st.noted := funext rests.counted
  refine ⟨?_, ?_, ?_⟩
  · rw [rests.quiet.length_rows hs hs', hnoted]
    exact h.rows
  · rw [rests.quiet.liveCount hs hs', hnoted]
    exact h.live
  · rw [rests.quiet.sequence, hnoted]
    exact h.versions

/-- Rows that are written keep the balance; those that are not counted are switched off untold. -/
theorem Balanced.posts {entries counted missing : List Entry} {sent : List Change}
    (h : st.Balanced untold) (hs : st.store.Ordered) (posts : st.Posts st' entries counted sent)
    (split : ∀ cause, tally cause entries = tally cause counted + tally cause missing)
    (deletes : ∀ e ∈ missing, e.cause = .asked .delete) :
    st'.Balanced (untold + missing.length) := by
  have hcounted : ∀ cause, st'.noted cause = st.noted cause + tally cause counted := posts.counted
  have hother : ∀ cause, cause ≠ .asked .delete →
      st'.noted cause = st.noted cause + tally cause entries := fun cause hcause => by
    rw [hcounted, split, tally_of_cause deletes, if_neg hcause.symm, Nat.add_zero]
  have hdelete : st'.noted (.asked .delete) + missing.length =
      st.noted (.asked .delete) + tally (.asked .delete) entries := by
    rw [hcounted, split, tally_of_cause deletes, if_pos rfl, Nat.add_assoc]
  have hcreate := hother (.asked .create) nofun
  have hupdate := hother (.asked .update) nofun
  have hreplace := hother (.asked .replace) nofun
  have horphaned := hother .orphaned nofun
  have hledger := posts.ledger hs
  refine ⟨?_, ?_, ?_⟩
  · have hrows := hledger.length_rows hs
    have hbefore := h.rows
    omega
  · have hlive := hledger.liveCount hs
    rw [countP_switchesOff] at hlive
    have hbefore := h.live
    omega
  · have hsequence := posts.commits.sequence
    rw [List.length_map, ← sum_tally] at hsequence
    have hbefore := h.versions
    omega

/-- What one event does to the balance. -/
theorem Balanced.happens (h : st.Balanced untold) (hs : st.store.Ordered)
    (hs' : st'.store.Ordered) (happens : st.Happens later st') :
    st'.Balanced (untold + later) := by
  cases happens with
  | rests rests => exact h.rests hs hs' rests
  | tells posts _ _ =>
    have hnone : ∀ e ∈ ([] : List Entry), e.cause = .asked .delete :=
      fun _ he => absurd he List.not_mem_nil
    exact h.posts hs posts (fun _ => rfl) hnone
  | conceals posts deletes => exact h.posts hs posts (fun _ => (Nat.zero_add _).symm) deletes

end State

/-- What a run does to the balance. -/
theorem Reachable.balanced {st st' : State} {before untold : Nat} (h : Reachable st)
    (hbalanced : st.Balanced before) (hruns : st.Runs untold st') :
    st'.Balanced (before + untold) := by
  induction hruns with
  | refl => exact hbalanced
  | @tail untold st₁ hruns event ih =>
    have hreach := h.run hruns.run
    have hreach' := hreach.next (next_apply event st₁)
    rw [← Nat.add_assoc]
    exact ih.happens hreach.ordered hreach'.ordered (event.happens st₁)

/-- After every run from empty tables, whoever calls, however the calls end, and whatever happens
around the services: there are as many rows as have been counted as created; those of them that are
live are those that have not been counted as replaced, deleted or orphaned; and every version has
been counted once. Only versions that a call has taken untold, when it failed to delete several
items, are missing from the last two; and after them there is no version left. -/
theorem counters_balance {now : Int} {untold : Nat} {st : State}
    (hruns : State.Runs { now } untold st) :
    let written kind := st.counters.get (.itemsWritten kind)
    let orphaned := st.counters.get .orphansDisabled
    st.store.items.rows.length = written .create ∧
      st.store.liveCount + untold =
        (written .create : Int) - written .replace - written .delete - orphaned ∧
      st.store.sequence = written .create + written .update + written .replace +
        written .delete + orphaned + untold ∧
      (untold ≠ 0 → st.store.sequence = maxInteger) := by
  intro written orphaned
  have hreach : Reachable { now } := ⟨now, .refl⟩
  have hbalanced := hreach.balanced (State.balanced_empty now) hruns
  rw [Nat.zero_add] at hbalanced
  have hlive : st.store.liveCount + written .replace + written .delete + orphaned + untold =
      written .create := hbalanced.live
  have hversions : st.store.sequence = (written .create + written .update + written .replace +
      written .delete + orphaned + untold : Nat) := hbalanced.versions
  refine ⟨hbalanced.rows, by omega, by omega, hreach.last_of_runs hruns⟩

/-- A batch replaces an item of its own, an item is revised and another one is not there, a search
switches off an orphan, and an item is to be deleted twice. -/
theorem counters_balance_of_mixed_run :
    let before := State.after { now := 0 } (adminCalls [.createList publicBlackList,
      .createList (privateList none (some 5)),
      .createItems [{ listId := 1, value := "10.0.0.1" }, { listId := 1, value := "10.0.0.0/30" },
        { listId := 2, value := "10.0.0.9" }],
      .updateItem 2 { value := "10.0.0.0/24" }, .updateItem 9 { value := "10.0.0.1" },
      .searchAll {} 0 10, .createItem { listId := 1, value := "::1" }])
    let st := (Event.call adminGate (some "key") (.deleteItems [2, 2, 9])).apply before
    State.Runs { now := 0 } 0 st ∧ st.store.items.rows.length = 4 ∧ st.store.liveCount = 1 ∧
      st.store.sequence = 8 := by
  intro before st
  have hbefore : State.Runs { now := 0 } 0 before := by
    refine State.Runs.calls .refl adminGate (some "key") ?_
    simp [Call.aborts]
  have huntold : Event.untold before
      (.call adminGate (some "key") (.deleteItems [2, 2, 9])) = 0 := by decide +kernel
  have hruns : State.Runs { now := 0 } 0 st := by
    have hlater := hbefore.tail (.call adminGate (some "key") (.deleteItems [2, 2, 9]))
    rwa [huntold] at hlater
  have hcounted : (st.counters.get (.itemsWritten .create) = 4 ∧
      st.counters.get (.itemsWritten .update) = 1 ∧
      st.counters.get (.itemsWritten .replace) = 1) ∧
      st.counters.get (.itemsWritten .delete) = 1 ∧
      st.counters.get .orphansDisabled = 1 := by decide +kernel
  obtain ⟨⟨hcreate, hupdate, hreplace⟩, hdelete, horphaned⟩ := hcounted
  obtain ⟨hrows, hlive, hversions, -⟩ := counters_balance hruns
  dsimp only at hrows hlive hversions
  exact ⟨hruns, hrows.trans hcreate, by omega, by omega⟩

/-- A call to delete two items fails in the middle. It has switched off the first one, which no
counter tells of. -/
theorem counters_unbalanced : ∃ st, Reachable st ∧
    let written kind := st.counters.get (.itemsWritten kind)
    let orphaned := st.counters.get .orphansDisabled
    (st.store.liveCount : Int) ≠
        (written .create : Int) - written .replace - written .delete - orphaned ∧
      st.store.sequence ≠ written .create + written .update + written .replace +
        written .delete + orphaned := by
  obtain ⟨st, st', hreach, hserve, hsequence⟩ := exists_deleteItems_fails
  obtain ⟨now, hrun⟩ := hreach
  obtain ⟨untold, hruns⟩ := exists_runs hrun
  have hlater := hruns.tail (.call adminGate (some "key") (.deleteItems [1, 2]))
  have huntold : Event.untold st (.call adminGate (some "key") (.deleteItems [1, 2])) = 1 := by
    rw [Event.untold, hserve]
    show (st'.store.sequence - st.store.sequence).toNat = 1
    omega
  rw [huntold, Event.apply, hserve] at hlater
  have hbalanced := Reachable.balanced ⟨now, .refl⟩ (State.balanced_empty now) hlater
  refine ⟨st', ⟨now, hlater.run⟩, ?_⟩
  intro written orphaned
  have hlive : st'.store.liveCount + written .replace + written .delete + orphaned +
      (0 + (untold + 1)) = written .create := hbalanced.live
  have hversions : st'.store.sequence = (written .create + written .update + written .replace +
      written .delete + orphaned + (0 + (untold + 1)) : Nat) := hbalanced.versions
  exact ⟨by omega, by omega⟩

end FirewallLists
