import FirewallLists.Proofs.Service.Posts

/-
  What calls tell of the changes that they commit. Whoever listens finds out by a signal that there
  is something to pull, and an operator sees by the counters how much has been written. A call on
  items tells of all that it has committed, also when one of its later transactions fails: the last
  change is signalled and every row is counted (`State.Told`), so that whoever hears the signal
  knows the last version (`State.Told.exists_signal`). Only a call that deletes several items
  forgets it when it fails midway: what it has switched off until then is committed, but nobody is
  told of it (`commits_told_unless_deleteItems_fails`).
-/

namespace FirewallLists

open ServiceM

/-! ## Rows counted and signals sent -/

/-- Each time that this is counted a row of an item has been written. -/
def Sample.isRowWritten : Sample → Bool
  | .itemsWritten _ | .orphansDisabled => true
  | _ => false

/-- How many rows of items have been written, for whatever reason. -/
def Counters.rowsWritten (c : Counters) : Nat :=
  c.get (.itemsWritten .create) + c.get (.itemsWritten .update) +
    c.get (.itemsWritten .replace) + c.get (.itemsWritten .delete) + c.get .orphansDisabled

@[simp]
theorem Counters.rowsWritten_add (c : Counters) (sample : Sample) (n : Nat) :
    (c.add sample n).rowsWritten = c.rowsWritten + if sample.isRowWritten then n else 0 := by
  cases sample with
  | itemsWritten kind => cases kind <;> simp [rowsWritten, Sample.isRowWritten] <;> omega
  | orphansDisabled => simp [rowsWritten, Sample.isRowWritten]; omega
  | _ => simp [rowsWritten, Sample.isRowWritten]

namespace State

variable {st st₁ st' : State} {changes more sent later : List Change}

/-- These changes have been committed, their rows have been counted, and these signals sent. -/
structure Reports (st st' : State) (changes sent : List Change) : Prop where
  commits : st.store.Commits changes st'.store
  counted : st'.counters.rowsWritten = st.counters.rowsWritten + changes.length
  sent : st'.channel.sent = st.channel.sent ++ sent

/-- These changes have been committed, and nobody is told of them. -/
structure Silent (st st' : State) (changes : List Change) : Prop where
  commits : st.store.Commits changes st'.store
  counted : st'.counters.rowsWritten = st.counters.rowsWritten
  sent : st'.channel = st.channel

/-- All changes that have been committed are counted, and the last one is signalled. -/
def Told (st st' : State) : Prop :=
  ∃ changes sent, st.Reports st' changes sent ∧ ∀ last ∈ changes.getLast?, last ∈ sent

theorem reports_nil (hstore : st'.store = st.store)
    (hcounted : st'.counters.rowsWritten = st.counters.rowsWritten)
    (hsent : st'.channel.sent = st.channel.sent ++ sent) : st.Reports st' [] sent :=
  ⟨hstore ▸ .nil _, hcounted, hsent⟩

theorem Reports.append (h : st.Reports st₁ changes sent) (h' : st₁.Reports st' more later) :
    st.Reports st' (changes ++ more) (sent ++ later) where
  commits := h.commits.append h'.commits
  counted := by rw [h'.counted, h.counted, List.length_append, Nat.add_assoc]
  sent := by rw [h'.sent, h.sent, List.append_assoc]

theorem Reports.told (h : st.Reports st' changes changes.getLast?.toList) : st.Told st' :=
  ⟨_, _, h, fun _ hlast => Option.mem_toList.mpr hlast⟩

instance : Std.Refl Told :=
  ⟨fun _ => ⟨[], [], reports_nil rfl rfl (List.append_nil _).symm, nofun⟩⟩

instance : IsTrans State Told := by
  refine ⟨fun st st₁ st' h h' => ?_⟩
  obtain ⟨changes, sent, hreports, hlast⟩ := h
  obtain ⟨more, later, hreports', hlast'⟩ := h'
  refine ⟨changes ++ more, sent ++ later, hreports.append hreports', fun last hmem => ?_⟩
  rw [List.getLast?_append, Option.mem_def, Option.or_eq_some_iff] at hmem
  rcases hmem with hmore | ⟨-, hchanges⟩
  · exact List.mem_append_right sent (hlast' last hmore)
  · exact List.mem_append_left later (hlast last hchanges)

/-- Counting anything but rows written tells of nothing and hides nothing. -/
theorem told_count {sample : Sample} (n : Nat) (hsample : sample.isRowWritten = false) :
    st.Told { st with counters := st.counters.add sample n } := by
  have hreports : st.Reports { st with counters := st.counters.add sample n } [] [] :=
    reports_nil rfl (by simp [hsample]) (List.append_nil _).symm
  exact hreports.told

/-- Where nothing is counted and all is told, nothing has been committed. -/
theorem Told.store_eq (h : st.Told st')
    (hcounted : st'.counters.rowsWritten = st.counters.rowsWritten) : st'.store = st.store := by
  obtain ⟨changes, sent, hreports, -⟩ := h
  have hnone : changes = [] := by
    have hlength := hreports.counted
    exact List.eq_nil_of_length_eq_zero (by omega)
  subst hnone
  exact hreports.commits.eq_of_nil

/-- When something has been committed and all is told, a signal has been sent that carries the last
version given out, and tells of a row with this version. -/
theorem Told.exists_signal (h : st.Told st') (hwritten : st'.store ≠ st.store) :
    ∃ sent, st'.channel.sent = st.channel.sent ++ sent ∧ ∃ signal ∈ sent,
      signal.version = st'.store.sequence ∧ ∃ row ∈ st'.store.items.rows, row.change = signal := by
  obtain ⟨changes, sent, hreports, hlast⟩ := h
  refine ⟨sent, hreports.sent, ?_⟩
  rcases hnone : changes.getLast? with _ | last
  · rw [List.getLast?_eq_none_iff] at hnone
    subst hnone
    exact absurd hreports.commits.eq_of_nil hwritten
  · exact ⟨last, hlast last hnone, hreports.commits.row_of_last hnone⟩

/-- What is committed silently is told of only if it is nothing. -/
theorem Silent.told_iff (h : st.Silent st' changes) : st.Told st' ↔ changes = [] := by
  constructor
  · intro htold
    have hlength := h.commits.sequence
    rw [htold.store_eq h.counted] at hlength
    exact List.eq_nil_of_length_eq_zero (by omega)
  · rintro rfl
    exact (reports_nil h.commits.eq_of_nil h.counted
      (h.sent ▸ (List.append_nil _).symm)).told

/-! ### Accounts as reports -/

section

variable {entries counted : List Entry}

theorem Posts.rowsWritten (h : st.Posts st' entries counted sent) :
    st'.counters.rowsWritten = st.counters.rowsWritten + counted.length := by
  have hcreate := h.counted (.asked .create)
  have hupdate := h.counted (.asked .update)
  have hreplace := h.counted (.asked .replace)
  have hdelete := h.counted (.asked .delete)
  have horphaned := h.counted .orphaned
  have hsum := sum_tally counted
  simp only [Cause.sample] at hcreate hupdate hreplace hdelete horphaned
  unfold Counters.rowsWritten
  omega

theorem Posts.reports (h : st.Posts st' entries entries sent) :
    st.Reports st' (entries.map (·.change)) sent :=
  ⟨h.commits, by rw [h.rowsWritten, List.length_map], h.sent⟩

/-- What is neither counted nor signalled is silent. -/
theorem Posts.silent (h : st.Posts st' entries [] []) :
    st.Silent st' (entries.map (·.change)) :=
  ⟨h.commits, h.rowsWritten, h.channel_eq⟩

theorem Announces.told (h : st.Announces st') : st.Told st' := by
  obtain ⟨entries, hposts⟩ := h
  exact hposts.reports.told

theorem Tidies.told (h : st.Tidies st') : st.Told st' := by
  obtain ⟨entries, -, hposts⟩ := h
  exact ⟨_, _, hposts.reports, fun _ hlast => List.mem_of_getLast? hlast⟩

end

end State

/-! ## Committed changes are told of -/

variable {st st' : State}

theorem Call.told_run {call : Call} (hcall : call.changesItems)
    (hbatch : ∀ ids, call ≠ .deleteItems ids) (cfg : Settings) (caller : Caller) :
    Leads State.Told (call.run cfg caller) st := by
  cases hsearch : call.tidies with
  | false => exact (announces_run hcall hbatch hsearch cfg caller).mono fun _ h => h.told
  | true =>
    cases call with
    | searchAll query offset size =>
      exact ((Search.tidies_items cfg caller query offset size).mono fun _ h => h.told).map _
    | _ => cases hsearch

theorem State.told_counted (st : State) (call : Call) : st.Told (st.counted call) :=
  told_count 1 rfl

theorem State.told_failed (st : State) (call : Call) (e : ServiceError) :
    st.Told (st.failed call e) :=
  told_count 1 rfl

theorem told_deleteItems {gate : Gate} {token : Option String} {ids : List Int} {reply : Reply}
    (h : outcome (gate.serve token (.deleteItems ids)) st = (.ok reply, st')) : st.Told st' :=
  (Gate.announces_deleteItems h).told

theorem silent_deleteItems {gate : Gate} {token : Option String} {ids : List Int}
    {e : ServiceError} (h : outcome (gate.serve token (.deleteItems ids)) st = (.error e, st')) :
    ∃ changes, st.Silent st' changes := by
  obtain ⟨entries, hposts, -⟩ := Gate.posts_deleteItems h
  exact ⟨_, hposts.silent⟩

/-- When a call that may change items returns, whatever it has committed is counted and the last
change of it has been signalled, unless it has failed to delete several items. Then there is no
signal and nothing is counted, so that all is told only if nothing has been committed. -/
theorem commits_told_unless_deleteItems_fails {gate : Gate} {token : Option String} {call : Call}
    {r : Except ServiceError Reply} (hcall : call.changesItems)
    (h : outcome (gate.serve token call) st = (r, st')) :
    ((∀ ids e, call = .deleteItems ids → r ≠ .error e) → st.Told st') ∧
      ∀ ids e, call = .deleteItems ids → r = .error e →
        ∃ changes, st.Silent st' changes ∧ (st.Told st' ↔ changes = []) := by
  constructor
  · intro hother
    by_cases hbatch : ∃ ids, call = .deleteItems ids
    · obtain ⟨ids, rfl⟩ := hbatch
      cases r with
      | error e => exact absurd rfl (hother ids e rfl)
      | ok reply => exact told_deleteItems h
    · have hrun : ∀ caller, Leads State.Told (call.run gate.settings caller) (st.counted call) :=
        Call.told_run hcall (fun ids hids => hbatch ⟨ids, hids⟩) gate.settings
      have hserve : Leads State.Told (gate.serve token call) st :=
        Gate.leads_serve (st.told_counted call) (fun st₁ e => st₁.told_failed call e)
          fun caller _ => hrun caller
      rw [Leads, h] at hserve
      exact hserve
  · rintro ids e rfl rfl
    obtain ⟨changes, hsilent⟩ := silent_deleteItems h
    exact ⟨changes, hsilent, hsilent.told_iff⟩

/-- The first item of a batch takes the place of another one; the second one would get the version
of an item written by somebody else. What came before is told of. -/
theorem commits_told_of_failed_batch :
    let st := State.after { now := 0 } (adminCalls [.createList publicBlackList,
      .createItem { listId := 1, value := "10.0.0.1" }])
    let st₁ := st.beside 9 4
    let batch := adminGate.serve (some "key") (.createItems [{ listId := 1, value := "10.0.0.1" },
      { listId := 1, value := "10.0.0.2" }])
    batch.error? st₁ = some (.storage .versionTaken) ∧
      (outcome batch st₁).2.store.sequence = 3 ∧ st₁.Told (outcome batch st₁).2 := by
  intro st st₁ batch
  have hbatch : batch.error? st₁ = some (.storage .versionTaken) := by decide +kernel
  exact ⟨hbatch, by decide +kernel,
    (commits_told_unless_deleteItems_fails rfl (outcome_of_error? hbatch)).1 nofun⟩

/-- Of two items the second one cannot be switched off, since somebody else has written an item
with the version that would tell of it. The first one is off, and nobody is told. -/
theorem deleteItems_untold_of_version_taken :
    let st := State.after { now := 0 } (adminCalls [.createList publicBlackList,
      .createItem { listId := 1, value := "10.0.0.1" },
      .createItem { listId := 1, value := "10.0.0.2" }])
    let st₁ := st.beside 3 4
    let delete := adminGate.serve (some "key") (.deleteItems [1, 2])
    delete.error? st₁ = some (.storage .versionTaken) ∧
      (outcome delete st₁).2.channel = st₁.channel ∧ ¬st₁.Told (outcome delete st₁).2 := by
  intro st st₁ delete
  refine ⟨by decide +kernel, by decide +kernel, fun htold => ?_⟩
  have hcounted : (outcome delete st₁).2.counters.rowsWritten = st₁.counters.rowsWritten := by
    decide +kernel
  have hwritten : (outcome delete st₁).2.store ≠ st₁.store := by decide +kernel
  exact hwritten (htold.store_eq hcounted)

end FirewallLists
