import FirewallLists.Proofs.Service.Untold
import FirewallLists.Proofs.Tenant.Usable

/-
  Signals and commits. A call that takes no version sends no signal, and one that takes versions
  sends one signal, which carries the last of them and tells of the row that now has it; only a
  search that tidies up sends one for each orphan (`signals_match_commits`). The exception is a
  call that fails to delete several items: the versions have run out in the middle of it, and what
  it has committed until then is not signalled (`deleteItems_unsignalled`).
-/

namespace FirewallLists

open ServiceM

section

variable {st st' : State} {gate : Gate} {token : Option String} {call : Call}
  {r : Except ServiceError Reply}

/-- The last change that has been committed is that of the one row that now has the last version.
-/
theorem Reachable.exists_row_of_last (h : Reachable st') {s : Store} {changes : List Change}
    (hcommits : s.Commits changes st'.store) (hchanges : changes ≠ []) :
    ∃ row ∈ st'.store.items.rows, row.version = st'.store.sequence ∧
      (∀ q ∈ st'.store.items.rows, q.version = st'.store.sequence → q = row) ∧
      changes.getLast? = some row.change := by
  have hlast := List.getLast?_eq_some_getLast hchanges
  obtain ⟨hversion, row, hmem, hrow⟩ := hcommits.row_of_last hlast
  rw [← hrow] at hversion
  refine ⟨row, hmem, hversion, fun q hq hsame => ?_, by rw [hrow, hlast]⟩
  have hid := h.versioned.distinct q hq row hmem (hsame.trans hversion.symm)
  exact h.ordered.items.eq_of_id hq hmem hid

/-- Whatever call is made in a reachable state, and however it ends: if it takes no version it
sends no signal. If it takes versions, the last signal of the call tells of the one row that now
has the last version, and it is the only one unless the call is a search. A search sends the
changes of the items that it has switched off and counted as orphans, each once and in the order of
their versions. Only a call that fails to delete several items may take versions without a signal.
Then there has been no version left for one of the items, and there is none for anything that is
written later. -/
theorem signals_match_commits (h : Reachable st)
    (hserve : outcome (gate.serve token call) st = (r, st')) :
    ∃ sent, st'.channel.sent = st.channel.sent ++ sent ∧
      (st'.store.sequence = st.store.sequence → sent = []) ∧
      (st'.store.sequence ≠ st.store.sequence → call.aborts r = false →
        ∃ row ∈ st'.store.items.rows, row.version = st'.store.sequence ∧
          (∀ q ∈ st'.store.items.rows, q.version = st'.store.sequence → q = row) ∧
          sent.getLast? = some row.change ∧ (call.tidies = false → sent.length = 1)) ∧
      (call.tidies →
        sent.Pairwise (fun c d => c.version < d.version) ∧
        st'.counters.get .orphansDisabled = st.counters.get .orphansDisabled + sent.length ∧
        ∀ c, c ∈ sent ↔ ∃ row ∈ st.store.items.rows, ∃ q ∈ st'.store.items.rows,
          q.id = row.id ∧ row.isLive ∧ q.isLive = false ∧ q.change = c) ∧
      (call.aborts r → sent = [] ∧ (st'.store.sequence ≠ st.store.sequence →
        r = .error (.storage .noVersionLeft) ∧ st'.store.sequence = maxInteger)) := by
  have hnext := next_call gate token call st
  rw [hserve] at hnext
  have hreach := h.next hnext
  cases gate.serves token hserve with
  | rests idle rests =>
    have hsame := rests.quiet.sequence
    refine ⟨[], by rw [rests.channel, List.append_nil], fun _ => rfl,
      fun hsequence => absurd hsame hsequence, fun htidies => ?_, fun haborts => ?_⟩
    · rw [Call.changesItems_of_tidies htidies] at idle
      cases idle
    · exact ⟨rfl, fun hsequence => absurd hsame hsequence⟩
  | announces ends single announces =>
    obtain ⟨entries, hposts⟩ := announces
    have hnil := hposts.commits.nil_iff
    refine ⟨_, hposts.sent, fun hsame => ?_, fun hsequence _ => ?_,
      fun htidies => absurd htidies (Bool.eq_false_iff.mp single),
      fun haborts => absurd haborts (Bool.eq_false_iff.mp ends)⟩
    · rw [hnil.mpr hsame]
      rfl
    · obtain ⟨row, hmem, hversion, hunique, hlast⟩ :=
        hreach.exists_row_of_last hposts.commits (mt hnil.mp hsequence)
      rw [hlast]
      exact ⟨row, hmem, hversion, hunique, rfl, fun _ => rfl⟩
  | tidies search tidies =>
    obtain ⟨entries, horphaned, hposts⟩ := tidies
    have hnil := hposts.commits.nil_iff
    refine ⟨_, hposts.sent, hnil.mpr, fun hsequence _ => ?_, fun _ => ?_,
      fun haborts => absurd haborts (Bool.eq_false_iff.mp (Call.aborts_of_tidies search))⟩
    · obtain ⟨row, hmem, hversion, hunique, hlast⟩ :=
        hreach.exists_row_of_last hposts.commits (mt hnil.mp hsequence)
      exact ⟨row, hmem, hversion, hunique, hlast,
        fun hsingle => absurd search (Bool.eq_false_iff.mp hsingle)⟩
    · have hcounted := hposts.counted .orphaned
      rw [tally_of_cause horphaned, if_pos rfl] at hcounted
      refine ⟨hposts.commits.ascending, ?_, (hposts.ledger h.ordered).mem_iff_off h.ordered ?_⟩
      · rw [List.length_map]
        exact hcounted
      · intro e he
        rw [horphaned e he]
        rfl
  | aborts aborts posts _ =>
    exact ⟨[], posts.sent, fun _ => rfl,
      fun _ hends => absurd aborts (Bool.eq_false_iff.mp hends),
      fun htidies => absurd aborts (Bool.eq_false_iff.mp (Call.aborts_of_tidies htidies)),
      fun _ => ⟨rfl, h.error_of_aborts hserve aborts⟩⟩

end

/-- A search meets the items of two lists that no policy uses. It switches both off and signals
each. -/
theorem signals_match_commits_of_orphans :
    let st := State.after { now := 0 } (adminCalls [.createList (privateList none (some 5)),
      .createList (privateList none (some 6)), .createItem { listId := 1, value := "10.0.0.1" },
      .createItem { listId := 2, value := "10.0.0.2" }])
    let st' := (outcome (adminGate.serve (some "key") (.searchAll {} 0 10)) st).2
    st.store.sequence = 2 ∧ st'.store.sequence = 4 ∧
      ∃ sent, st'.channel.sent = st.channel.sent ++ sent ∧ sent.length = 2 ∧
        sent.Pairwise (fun c d => c.version < d.version) ∧
        ∃ row ∈ st'.store.items.rows, row.version = 4 ∧ sent.getLast? = some row.change := by
  intro st st'
  have hbefore : st.store.sequence = 2 := by decide +kernel
  have hafter : st'.store.sequence = 4 := by decide +kernel
  have hcounted : st.counters.get .orphansDisabled = 0 ∧
      st'.counters.get .orphansDisabled = 2 := by decide +kernel
  have hreach : Reachable st := reachable_after 0 _
  have hserve : outcome (adminGate.serve (some "key") (.searchAll {} 0 10)) st =
      ((outcome (adminGate.serve (some "key") (.searchAll {} 0 10)) st).1, st') :=
    (Prod.eta _).symm
  obtain ⟨sent, hsent, -, hlast, hsearch, -⟩ := signals_match_commits hreach hserve
  obtain ⟨row, hmem, hversion, -, hrow, -⟩ := hlast (by rw [hbefore, hafter]; decide) rfl
  obtain ⟨hascending, hlength, -⟩ := hsearch rfl
  exact ⟨hbefore, hafter, sent, hsent, by omega, hascending, row, hmem, hversion.trans hafter, hrow⟩

/-- Of two items the first one takes the last version. The second one cannot be switched off, the
call fails, and no signal tells of the first one. -/
theorem deleteItems_unsignalled : ∃ st, Reachable st ∧
    let st' := (outcome (adminGate.serve (some "key") (.deleteItems [1, 2])) st).2
    st'.store.sequence = st.store.sequence + 1 ∧ st'.channel = st.channel := by
  obtain ⟨st, st', hreach, hserve, hsequence⟩ := exists_deleteItems_fails
  obtain ⟨entries, hposts, -⟩ := Gate.posts_deleteItems hserve
  refine ⟨st, hreach, ?_⟩
  rw [hserve]
  exact ⟨hsequence, hposts.channel_eq⟩

end FirewallLists
