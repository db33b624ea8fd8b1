import FirewallLists.Proofs.Service.Posts
import FirewallLists.Proofs.Service.Room

/-
  How many versions a run has taken without telling anybody. Only a call that fails to delete
  several items takes such versions (`Event.untold`), and in a reachable state it does so only
  when no version is left after it (`Reachable.last_of_untold`). A run is given with their number
  (`State.Runs`), so that what is signalled and counted can be said for every run, and exactly.
-/

namespace FirewallLists

open Relation ServiceM

/-- How many versions a call that fails to delete several items has taken; no other event takes a
version that nobody is told of. -/
def Event.untold (st : State) : Event → Nat
  | .call gate token c =>
    let (r, st') := outcome (gate.serve token c) st
    if c.aborts r then (st'.store.sequence - st.store.sequence).toNat else 0
  | _ => 0

/-- Events lead from one state to the other, and so many versions have been taken untold. -/
inductive State.Runs (st : State) : Nat → State → Prop where
  | refl : Runs st 0 st
  | tail {untold : Nat} {st₁ : State} (h : Runs st untold st₁) (event : Event) :
      Runs st (untold + event.untold st₁) (event.apply st₁)

variable {st st' : State} {untold : Nat}

theorem State.Runs.run (h : st.Runs untold st') : ReflTransGen Next st st' := by
  induction h with
  | refl => exact .refl
  | tail _ event ih => exact ih.tail (next_apply event _)

theorem exists_runs (h : ReflTransGen Next st st') : ∃ untold, st.Runs untold st' := by
  induction h with
  | refl => exact ⟨0, .refl⟩
  | tail _ hnext ih =>
    obtain ⟨untold, hruns⟩ := ih
    obtain ⟨event, rfl⟩ := hnext
    exact ⟨_, hruns.tail event⟩

/-- Calls that cannot fail in the middle take no version untold. -/
theorem State.Runs.calls (h : st.Runs untold st') (gate : Gate) (token : Option String)
    {calls : List Call} (hends : ∀ call ∈ calls, ∀ r, call.aborts r = false) :
    st.Runs untold (st'.after (calls.map (.call gate token))) := by
  induction calls generalizing st' with
  | nil => exact h
  | cons call calls ih =>
    have hnext := h.tail (.call gate token call)
    have huntold : Event.untold st' (.call gate token call) = 0 :=
      if_neg (Bool.eq_false_iff.mp (hends call List.mem_cons_self _))
    rw [huntold, Nat.add_zero] at hnext
    exact ih hnext fun later hlater => hends later (List.mem_cons_of_mem _ hlater)

/-! ## What events do -/

/-- What an event has done: it rests, it tells of all that it has committed and at last of the last
change, or it conceals that it has switched items off. -/
inductive State.Happens (st : State) : Nat → State → Prop where
  | rests {st' : State} (rests : st.Rests st') : Happens st 0 st'
  | tells {st' : State} {entries : List Entry} {sent : List Change}
      (posts : st.Posts st' entries entries sent)
      (sublist : sent.Sublist (entries.map (·.change)))
      (last : sent.getLast? = (entries.map (·.change)).getLast?) : Happens st 0 st'
  | conceals {st' : State} {entries : List Entry} (posts : st.Posts st' entries [] [])
      (deletes : ∀ e ∈ entries, e.cause = .asked .delete) : Happens st entries.length st'

theorem sublist_getLast? (changes : List Change) :
    (changes.getLast?.toList).Sublist changes := by
  cases hlast : changes.getLast? with
  | none => exact List.nil_sublist changes
  | some last => exact List.singleton_sublist.mpr (List.mem_of_getLast? hlast)

theorem Gate.happens (gate : Gate) (token : Option String) (call : Call) (st : State) :
    st.Happens ((Event.call gate token call).untold st)
      (outcome (gate.serve token call) st).2 := by
  rcases h : outcome (gate.serve token call) st with ⟨r, st'⟩
  rw [Event.untold, h]
  dsimp only
  cases gate.serves token h with
  | rests idle rests =>
    rw [Call.aborts_of_rests idle, if_neg Bool.false_ne_true]
    exact .rests rests
  | announces ends _ announces =>
    obtain ⟨entries, hposts⟩ := announces
    rw [ends, if_neg Bool.false_ne_true]
    refine .tells hposts (sublist_getLast? _) ?_
    cases (entries.map (·.change)).getLast? <;> rfl
  | tidies search tidies =>
    obtain ⟨entries, -, hposts⟩ := tidies
    rw [Call.aborts_of_tidies search, if_neg Bool.false_ne_true]
    exact .tells hposts (List.Sublist.refl _) rfl
  | @aborts entries aborts posts deletes =>
    have hlength : (st'.store.sequence - st.store.sequence).toNat = entries.length := by
      rw [posts.commits.sequence, List.length_map]
      omega
    rw [if_pos aborts, hlength]
    exact .conceals posts deletes

/-- Only calls write items, signal or count. -/
theorem Event.happens (event : Event) (st : State) :
    st.Happens (event.untold st) (event.apply st) := by
  cases event with
  | call gate token call => exact gate.happens token call st
  | time | closed | failing | restarted | lapsed | directory =>
    exact .rests ⟨Store.quiet_of_items rfl rfl, fun _ => rfl, rfl⟩

/-! ## Versions that run out -/

section

variable {gate : Gate} {token : Option String} {call : Call} {r : Except ServiceError Reply}

/-- Where several items are deleted in a reachable state, and some but not all of them are switched
off, no version is left. -/
theorem Reachable.error_of_aborts (h : Reachable st)
    (hserve : outcome (gate.serve token call) st = (r, st')) (haborts : call.aborts r)
    (hsequence : st'.store.sequence ≠ st.store.sequence) :
    r = .error (.storage .noVersionLeft) ∧ st'.store.sequence = maxInteger := by
  obtain ⟨ids, e, rfl, rfl⟩ := Call.aborts_iff.mp haborts
  rcases Gate.serve_eq_error hserve with ⟨-, rfl⟩ | ⟨caller, st₁, -, hrun, rfl⟩
  · exact absurd rfl hsequence
  rcases Items.deleteAll_eq_error (outcome_map_eq_error.mp hrun) with rfl | ⟨found, hdisable⟩
  · exact absurd rfl hsequence
  by_cases hopen : st.isOpen
  · have hopen' : (st.counted (.deleteItems ids)).isOpen := hopen
    obtain ⟨rfl, hlast⟩ := Items.disableAll_eq_error hopen' h.ordered h.versioned
      (h.holds Store.invariant_bounded) hdisable
    exact ⟨rfl, hlast⟩
  · have hclosed : ¬(st.counted (.deleteItems ids)).isOpen := hopen
    cases Items.disableAll_of_closed hclosed hdisable
    exact absurd rfl hsequence

end

/-- Versions are taken untold only if there is none left afterwards. -/
theorem Reachable.last_of_untold (h : Reachable st) {event : Event}
    (huntold : event.untold st ≠ 0) :
    st.store.sequence < maxInteger ∧ (event.apply st).store.sequence = maxInteger := by
  cases event with
  | call gate token call =>
    rcases hserve : outcome (gate.serve token call) st with ⟨r, st'⟩
    rw [Event.untold, hserve] at huntold
    dsimp only at huntold
    cases haborts : call.aborts r with
    | false => rw [haborts] at huntold; exact absurd rfl huntold
    | true =>
      rw [if_pos haborts] at huntold
      obtain ⟨-, hlast⟩ := h.error_of_aborts hserve haborts (by omega)
      rw [Event.apply, hserve]
      exact ⟨by omega, hlast⟩
  | time | closed | failing | restarted | lapsed | directory => exact absurd rfl huntold

/-- In a run that has taken versions untold there is none left. -/
theorem Reachable.last_of_runs (h : Reachable st) (hruns : st.Runs untold st')
    (huntold : untold ≠ 0) : st'.store.sequence = maxInteger := by
  induction hruns with
  | refl => exact absurd rfl huntold
  | @tail untold st₁ hruns event ih =>
    have hreach := h.run hruns.run
    by_cases hnow : event.untold st₁ = 0
    · have hlast := ih (by omega)
      have hle := (hreach.since (.single (next_apply event st₁))).sequence_le
      have hbounded := (hreach.next (next_apply event st₁)).holds Store.invariant_bounded
      omega
    · exact (hreach.last_of_untold hnow).2

end FirewallLists
