import FirewallLists.Proofs.Activity
import FirewallLists.Proofs.Service.Off
import FirewallLists.Proofs.Tenant.Reads

/-
  How a search for items cleans up. Counting, searching for ids and searching for items all start
  with rows that are found (`Search.found`); for a count they are found on other terms than for a
  page. A search for items sifts those on its page. So what a search for ids answers says which rows
  a search for items meets, and the reply of the latter and what it does to the tables follow from
  these rows (`search_switches_off_orphans`). A directory that fails never makes an orphan of an
  item, and the search does not fail with it.
-/

namespace FirewallLists

open ServiceM

/-! ## What searches find -/

namespace ServiceM

variable {α β : Type}

theorem map_query (g : α → β) (read : Store → Except StorageError α) :
    g <$> query read = query fun s => g <$> read s := by
  unfold query
  rw [map_bind]
  refine bind_congr fun st => ?_
  rcases st.tables with e | s
  · rfl
  · show g <$> ofStorage (read s) = ofStorage (g <$> read s)
    rcases read s with e | x <;> rfl

theorem query_bind (read : Store → Except StorageError α) (f : α → Except StorageError β) :
    (query read >>= fun x => ofStorage (f x)) = query fun s => read s >>= f := by
  unfold query
  rw [bind_assoc]
  refine bind_congr fun st => ?_
  rcases st.tables with e | s
  · rfl
  · show (ofStorage (read s) >>= fun x => ofStorage (f x)) = ofStorage (read s >>= f)
    rcases read s with e | x <;> rfl

end ServiceM

namespace Search

/-- The rows that a search of this kind finds. -/
def found (kind : SearchKind) (caller : Caller) (q : SearchQuery) : ServiceM (List ItemRow) := do
  let filter ← ofExcept q.filter
  let scope ← scope caller q
  let time ← now
  query (·.search kind scope filter time)

theorem countAll_eq (caller : Caller) (q : SearchQuery) :
    countAll caller q = List.length <$> found .count caller q := by
  unfold countAll found
  simp only [map_bind, map_query]
  rfl

theorem ids_eq (cfg : Settings) (caller : Caller) (q : SearchQuery) (offset size : Int) :
    ids cfg caller q offset size =
      (fun rows => (page offset (cfg.pageSize size) rows).map (·.id)) <$> found .page caller q := by
  unfold ids found
  simp only [map_bind, map_query]
  rfl

theorem items_eq (cfg : Settings) (caller : Caller) (q : SearchQuery) (offset size : Int) :
    items cfg caller q offset size = found .page caller q >>= fun rows =>
      ofStorage ((page offset (cfg.pageSize size) rows).mapM (·.toItem)) >>= sift := by
  unfold items found
  simp only [bind_assoc]
  refine bind_congr fun filter => bind_congr fun scope => bind_congr fun time => ?_
  rw [← bind_assoc, query_bind]
  rfl

theorem looks_found (kind : SearchKind) (caller : Caller) (q : SearchQuery) :
    Looks (found kind caller q) :=
  (looks_ofExcept _).bind fun _ => (looks_scope _ _).bind fun _ =>
    looks_now.bind fun _ => looks_query _

section

variable {st st' : State} {kind : SearchKind} {caller : Caller} {q : SearchQuery}
  {filter : SearchFilter} {scope : Scope} {rows : List ItemRow}

/-- The same is found in the same tables, if all around them is alike. -/
theorem same_found (halike : st.Alike st') (hstore : st'.store = st.store) (kind : SearchKind)
    (caller : Caller) (q : SearchQuery) : Same (found kind caller q) st st' := by
  refine Same.bind (looks_ofExcept _) (same_ofExcept _) fun filter _ => ?_
  refine Same.bind (looks_scope _ _) (halike.same_scope _ _) fun scope _ => ?_
  exact Same.bind looks_now halike.same_now fun time _ => halike.same_query (hstore ▸ rfl)

/-- What is found does not depend on what has been counted. -/
theorem outcome_found_counted (call : Call) (st : State) (kind : SearchKind) (caller : Caller)
    (q : SearchQuery) : outcome (found kind caller q) (st.counted call) =
      ((outcome (found kind caller q) st).1, st.counted call) :=
  Prod.ext (same_found (st.alike_counted call) rfl kind caller q)
    (looks_found kind caller q (st.counted call))

theorem outcome_found_eq (hfilter : q.filter = .ok filter)
    (hscope : outcome (Search.scope caller q) st = (.ok scope, st)) (hopen : st.isOpen)
    (kind : SearchKind) : outcome (found kind caller q) st =
      ((st.store.search kind scope filter st.now).mapError .storage, st) := by
  rw [found, hfilter, outcome_bind_of_ok (outcome_ofExcept _ st), outcome_bind_of_ok hscope,
    outcome_bind_of_ok (outcome_now st), outcome_query_of_isOpen hopen]

theorem outcome_found (hfilter : q.filter = .ok filter)
    (hscope : outcome (Search.scope caller q) st = (.ok scope, st)) (hopen : st.isOpen)
    (hrows : st.store.search kind scope filter st.now = .ok rows) :
    outcome (found kind caller q) st = (.ok rows, st) := by
  rw [outcome_found_eq hfilter hscope hopen, hrows]
  rfl

theorem found_eq_ok (h : outcome (found kind caller q) st = (.ok rows, st')) :
    ∃ filter scope, q.filter = .ok filter ∧
      outcome (Search.scope caller q) st = (.ok scope, st) ∧ st.isOpen ∧
      st.store.search kind scope filter st.now = .ok rows := by
  obtain ⟨filter, hfilter, h⟩ := (looks_ofExcept _).bind_eq_ok h
  rw [outcome_ofExcept] at hfilter
  obtain ⟨scope, hscope, h⟩ := (looks_scope _ _).bind_eq_ok h
  obtain ⟨time, htime, h⟩ := looks_now.bind_eq_ok h
  cases htime
  obtain ⟨-, hopen, hrows⟩ := outcome_query_eq_ok.mp h
  exact ⟨filter, scope, congrArg Prod.fst hfilter, hscope, hopen, hrows⟩

end

end Search

/-- These are different rows, and all of them are active. -/
structure State.Meets (st : State) (met : List ItemRow) : Prop where
  active : ∀ r ∈ met, r ∈ st.store.items.rows ∧ r.isActive st.now
  nodup : (met.map (·.id)).Nodup

theorem State.Meets.live {st : State} {met : List ItemRow} (h : st.Meets met) :
    ∀ r ∈ met, r ∈ st.store.items.rows ∧ r.isLive :=
  fun r hr => (h.active r hr).imp_right fun hactive => (Bool.and_eq_true_iff.mp hactive).1

theorem State.Meets.sublist {st : State} {met rows : List ItemRow} (h : st.Meets rows)
    (hsub : met.Sublist rows) : st.Meets met :=
  ⟨fun r hr => h.active r (hsub.mem hr), h.nodup.sublist (hsub.map _)⟩

theorem Search.meets_found {st : State} {kind : SearchKind} {caller : Caller} {q : SearchQuery}
    {rows : List ItemRow} (hs : st.store.Ordered)
    (h : outcome (found kind caller q) st = (.ok rows, st)) : st.Meets rows := by
  obtain ⟨filter, scope, -, -, -, hrows⟩ := found_eq_ok h
  refine ⟨fun r hr => ?_, Store.nodup_ids_search hs.items hrows⟩
  obtain ⟨hmem, hactive, -⟩ := (Store.mem_search hrows).mp hr
  exact ⟨hmem, hactive⟩

/-! ## What a search does -/

/-- These rows have been switched off in this order, and a signal tells of each. -/
structure State.SweepsOff (st : State) (gone : List ItemRow) (st' : State) : Prop where
  store : st.store.SwitchesOff gone st'.store
  sent : st'.channel.sent = st.channel.sent ++ (st.store.retirements gone).map (·.change)

/-- Counting a call makes no difference to what is sifted. -/
theorem Search.Sifted.of_counted {call : Call} {st st' : State} {met : List ItemRow}
    {result : Except ServiceError (List SearchResult)}
    (h : Sifted (st.counted call) met result st') : Sifted st met result st' :=
  ⟨h.store, h.sent, h.done, h.failed⟩

/-- Sifting switches the orphans off in their order, as many as there are versions for. -/
theorem Search.Sifted.sweepsOff {st st' : State} {met : List ItemRow}
    {result : Except ServiceError (List SearchResult)} (h : Sifted st met result st')
    (hs : st.store.Ordered) (hmeets : st.Meets met) :
    st.SweepsOff ((st.orphans met).take st.store.versionsLeft) st' := by
  have hsub : ((st.orphans met).take st.store.versionsLeft).Sublist met :=
    (List.take_sublist _ _).trans List.filter_sublist
  refine ⟨?_, h.sent⟩
  rw [h.store]
  exact Store.switchesOff_afterRetiring hs (fun r hr => (hmeets.active r (hsub.mem hr)).1)
    (hmeets.nodup.sublist (hsub.map _))

namespace Gate

variable {st : State} {gate : Gate} {token : Option String} {caller : Caller} {q : SearchQuery}
  {rows : List ItemRow}

/-- A search for ids is answered with the ids of the rows on its page. -/
theorem reply_searchIds (hauth : gate.authenticate token = .ok caller) (q : SearchQuery)
    (offset size : Int) (st : State) :
    (outcome (gate.serve token (.searchIds q offset size)) st).1 =
      (outcome (Search.found .page caller q) st).1.map fun rows =>
        .itemIds ((page offset (gate.settings.pageSize size) rows).map (·.id)) := by
  rw [reply_serve hauth, Call.run, Search.ids_eq, outcome_map, outcome_map,
    Search.outcome_found_counted]
  rcases (outcome (Search.found .page caller q) st).1 with e | rows <;> rfl

/-- A search for items that cannot find any rows fails and does nothing. -/
theorem serve_searchAll_of_error (hauth : gate.authenticate token = .ok caller)
    {e : ServiceError} (hfound : (outcome (Search.found .page caller q) st).1 = .error e)
    (offset size : Int) :
    ∃ st', outcome (gate.serve token (.searchAll q offset size)) st = (.error e, st') ∧
      st'.store = st.store ∧ st'.channel = st.channel := by
  have hcounted := Search.outcome_found_counted (.searchAll q offset size) st .page caller q
  rw [hfound] at hcounted
  have hrun : outcome ((Call.searchAll q offset size).run gate.settings caller)
      (st.counted (.searchAll q offset size)) =
        (.error e, st.counted (.searchAll q offset size)) := by
    rw [Call.run, outcome_map_eq_error, Search.items_eq]
    exact outcome_bind_of_error hcounted
  exact ⟨_, serve_of_error hauth hrun, rfl, rfl⟩

/-- A search for items sifts the rows on its page. -/
theorem serve_searchAll (h : Reachable st) (hauth : gate.authenticate token = .ok caller)
    (hfound : outcome (Search.found .page caller q) st = (.ok rows, st)) (offset size : Int) :
    ∃ result st', outcome (gate.serve token (.searchAll q offset size)) st =
        (result.map .results, st') ∧
      Search.Sifted st (page offset (gate.settings.pageSize size) rows) result st' := by
  obtain ⟨-, -, -, -, hopen, -⟩ := Search.found_eq_ok hfound
  have hs := h.ordered
  have hmeets := (Search.meets_found hs hfound).sublist
    (page_sublist offset (gate.settings.pageSize size) rows)
  obtain ⟨items, hitems⟩ :=
    (h.holds Store.invariant_spanned).mapM_toItem fun r hr => (hmeets.active r hr).1
  -- the call is carried out in a state that only counts one call more
  have hcounted := Search.outcome_found_counted (.searchAll q offset size) st .page caller q
  rw [hfound] at hcounted
  have hopen' : (st.counted (.searchAll q offset size)).isOpen := hopen
  have hsift := Search.outcome_sift hopen' hs h.versioned h.listsSound
    hmeets.live hmeets.nodup hitems
  have hrun : outcome ((Call.searchAll q offset size).run gate.settings caller)
      (st.counted (.searchAll q offset size)) =
        outcome (Reply.results <$> Search.sift items) (st.counted (.searchAll q offset size)) := by
    rw [Call.run, Search.items_eq, outcome_map, outcome_bind_of_ok hcounted, hitems,
      outcome_bind_of_ok (outcome_ofStorage _ _), outcome_map]
  rw [outcome_map] at hrun
  rcases hout : outcome (Search.sift items) (st.counted (.searchAll q offset size)) with
    ⟨e | results, st'⟩
  · rw [hout] at hrun hsift
    exact ⟨.error e, _, serve_of_error hauth hrun, hsift.store, hsift.sent, hsift.done,
      hsift.failed⟩
  · rw [hout] at hrun hsift
    exact ⟨.ok results, _, serve_of_ok hauth hrun, hsift.of_counted⟩

/-- Two searches with the same arguments are refused alike, or they meet the same rows. -/
theorem search_cases (gate : Gate) (token : Option String) (q : SearchQuery) (offset size : Int)
    (st : State) :
    (∃ e st', (outcome (gate.serve token (.searchIds q offset size)) st).1 = .error e ∧
      outcome (gate.serve token (.searchAll q offset size)) st = (.error e, st') ∧
      st'.store = st.store ∧ st'.channel = st.channel) ∨
    ∃ caller rows, gate.authenticate token = .ok caller ∧
      outcome (Search.found .page caller q) st = (.ok rows, st) ∧
      (outcome (gate.serve token (.searchIds q offset size)) st).1 =
        .ok (.itemIds ((page offset (gate.settings.pageSize size) rows).map (·.id))) := by
  rcases hauth : gate.authenticate token with e | caller
  · refine Or.inl ⟨e, _, ?_, serve_of_unknown hauth, rfl, rfl⟩
    rw [serve_of_unknown hauth]
  · have hlisted := reply_searchIds hauth q offset size st
    rcases hfound : (outcome (Search.found .page caller q) st).1 with e | rows
    · rw [hfound] at hlisted
      obtain ⟨st', hsearched, hunchanged⟩ := serve_searchAll_of_error hauth hfound offset size
      exact Or.inl ⟨e, st', hlisted, hsearched, hunchanged⟩
    · rw [hfound] at hlisted
      have hlooks := Search.looks_found .page caller q st
      exact Or.inr ⟨caller, rows, rfl, Prod.ext hfound hlooks, hlisted⟩

end Gate

theorem SearchQuery.keyword_filter {q : SearchQuery} {filter : SearchFilter}
    (h : q.filter = .ok filter) : filter.keyword = q.keyword := by
  unfold SearchQuery.filter at h
  dsimp only at h
  repeat' split at h
  all_goals cases h
  all_goals rfl

/-- Whatever a search for ids is answered in a reachable state decides what a search for items does
with the same arguments there. If the one is refused so is the other, and the tables stay as they
are. Else the rows met are those with the ids answered: of these the orphans are switched off, each
with a signal of its own, and the others are told of as they were, in the order of the ids. All else
in the tables stays as it is. Only when there are fewer versions left than orphans are met the
search fails, once it has used up the versions. A caller that is known, with a valid filter and a
scope that can be told, is answered while the tables can be reached, the search does not take too
many values and its keyword can be looked for or is tried on no row. -/
theorem search_switches_off_orphans {st : State} (h : Reachable st) (gate : Gate)
    (token : Option String) (q : SearchQuery) (offset size : Int) :
    let listed := (outcome (gate.serve token (.searchIds q offset size)) st).1
    let searched := outcome (gate.serve token (.searchAll q offset size)) st
    (∀ caller filter scope, gate.authenticate token = .ok caller → q.filter = .ok filter →
      outcome (Search.scope caller q) st = (.ok scope, st) → st.isOpen →
      st.store.CanSearch .page scope filter st.now → ∃ ids, listed = .ok (.itemIds ids)) ∧
    (∀ e, listed = .error e →
      searched.1 = .error e ∧ searched.2.store = st.store ∧ searched.2.channel = st.channel) ∧
    ∀ ids, listed = .ok (.itemIds ids) → ∃ met, st.Meets met ∧ met.map (·.id) = ids ∧
      ((st.orphans met).length ≤ st.store.versionsLeft →
        ∃ results, searched.1 = .ok (.results results) ∧
          (st.used met).mapM (·.toItem) = .ok (results.map (·.item)) ∧
          st.SweepsOff (st.orphans met) searched.2) ∧
      (st.store.versionsLeft < (st.orphans met).length →
        searched.1 = .error (.storage .noVersionLeft) ∧
          st.SweepsOff ((st.orphans met).take st.store.versionsLeft) searched.2) := by
  refine ⟨?_, ?_, ?_⟩
  · intro caller filter scope hauth hfilter hscope hopen hcan
    obtain ⟨rows, hrows⟩ := Store.exists_search_iff.mpr hcan
    have hfound := Search.outcome_found hfilter hscope hopen hrows
    have hlisted := Gate.reply_searchIds hauth q offset size st
    rw [hfound] at hlisted
    exact ⟨_, hlisted⟩
  · intro e he
    rcases gate.search_cases token q offset size st with
      ⟨e', st', hlisted, hsearched, hstore, hchannel⟩ | ⟨_, _, -, -, hlisted⟩
    · cases hlisted.symm.trans he
      rw [hsearched]
      exact ⟨rfl, hstore, hchannel⟩
    · cases hlisted.symm.trans he
  · intro ids hids
    rcases gate.search_cases token q offset size st with
      ⟨_, _, hlisted, -⟩ | ⟨caller, rows, hauth, hfound, hlisted⟩
    · cases hlisted.symm.trans hids
    · cases hlisted.symm.trans hids
      obtain ⟨result, st', hserve, hsifted⟩ := Gate.serve_searchAll h hauth hfound offset size
      have hmeets := (Search.meets_found h.ordered hfound).sublist
        (page_sublist offset (gate.settings.pageSize size) rows)
      have hsweeps := hsifted.sweepsOff h.ordered hmeets
      rw [hserve]
      refine ⟨_, hmeets, rfl, fun henough => ?_, fun hfew => ?_⟩
      · obtain ⟨results, rfl, hresults⟩ := hsifted.done henough
        rw [List.take_of_length_le henough] at hsweeps
        exact ⟨results, rfl, hresults, hsweeps⟩
      · rw [hsifted.failed hfew]
        exact ⟨rfl, hsweeps⟩

/-- The ids of the rows in use are those with a property, if this tells them from the others. -/
theorem State.ids_of_inUse {st : State} {met : List ItemRow} (p : Int → Prop) [DecidablePred p]
    (h : ∀ r ∈ met, (st.InUse r.listId ↔ p r.id)) :
    (st.used met).map (·.id) = (met.map (·.id)).filter (fun id => p id) ∧
      (st.orphans met).map (·.id) = (met.map (·.id)).filter fun id => ¬p id := by
  rw [List.filter_map, List.filter_map]
  constructor
  · exact congrArg (List.map _) (List.filter_congr fun r hr => by simp [h r hr])
  · exact congrArg (List.map _) (List.filter_congr fun r hr => by simp [h r hr])

/-- Results have the ids of the rows that they tell of. -/
theorem ids_of_told {rows : List ItemRow} {results : List SearchResult}
    (h : rows.mapM (·.toItem) = .ok (results.map (·.item))) :
    results.map (·.item.id) = rows.map (·.id) := by
  have hids := map_of_mapM (fun r item hitem => (ItemRow.toItem_eq_ok hitem).1) h
  rw [← hids, List.map_map]
  rfl

/-- While neither policies nor servers can be looked up, a search leaves the item of a private list
alone. The item of a list that has been switched off is an orphan all the same. -/
theorem search_switches_off_orphans_of_failing_directory :
    let st := State.after { now := 0 } (adminCalls [.createList publicBlackList,
      .createList (privateList none (some 5)), .createList publicBlackList,
      .createItem { listId := 1, value := "10.0.0.1" },
      .createItem { listId := 2, value := "10.0.0.2" },
      .createItem { listId := 3, value := "10.0.0.3" }, .deleteList 3] ++
        [.failing [.policyOfList, .serverName]])
    let searched := outcome (adminGate.serve (some "key") (.searchAll {} 0 10)) st
    ∃ results gone, searched.1 = .ok (.results results) ∧ results.map (·.item.id) = [2, 1] ∧
      gone.map (·.id) = [3] ∧ st.SweepsOff gone searched.2 := by
  intro st searched
  have hreach : Reachable st := reachable_after 0 _
  have hauth : adminGate.authenticate (some "key") = .ok ⟨.admin, 1⟩ := by decide +kernel
  have hlisted : (outcome (adminGate.serve (some "key") (.searchIds {} 0 10)) st).1 =
      .ok (.itemIds [3, 2, 1]) := by
    have hids : (outcome (Search.ids adminGate.settings ⟨.admin, 1⟩ {} 0 10)
        (st.counted (.searchIds {} 0 10))).1 = .ok [3, 2, 1] := by decide +kernel
    rw [Gate.reply_serve hauth, Call.run, outcome_map, hids]
    rfl
  have huse : ∀ r ∈ st.store.items.rows, (st.InUse r.listId ↔ r.id ≠ 3) := by decide +kernel
  have hleft : 1 ≤ st.store.versionsLeft := by decide +kernel
  clear_value st
  obtain ⟨-, -, hmeets⟩ := search_switches_off_orphans hreach adminGate (some "key") {} 0 10
  obtain ⟨met, hmet, hids, hdone, -⟩ := hmeets _ hlisted
  obtain ⟨hused, horphans⟩ := State.ids_of_inUse (· ≠ 3) fun r hr => huse r (hmet.active r hr).1
  rw [hids] at hused horphans
  obtain ⟨results, hresults, hitems, hsweeps⟩ := hdone (by
    rw [← List.length_map (·.id), horphans]
    exact hleft)
  exact ⟨results, st.orphans met, hresults, (ids_of_told hitems).trans hused, horphans, hsweeps⟩

/-- In some reachable state a search fails though nothing is out of order: the item that it meets
is an orphan, and no version is left for it. -/
theorem search_fails_without_versions :
    ∃ st : State, Reachable st ∧ st.isOpen ∧ st.failing = [] ∧
      tenantGate.authenticate (some "five") = .ok ⟨.user, 5⟩ ∧
      (outcome (tenantGate.serve (some "five") (.searchIds {} 0 10)) st).1 = .ok (.itemIds [1]) ∧
      (outcome (tenantGate.serve (some "five") (.searchAll {} 0 10)) st).1 =
        .error (.storage .noVersionLeft) := by
  obtain ⟨st, h, hlast⟩ := State.Rewrites.exists_of_version 9223372036854775805 (by decide)
  have hauth : tenantGate.authenticate (some "five") = .ok ⟨.user, 5⟩ := by decide +kernel
  have hopen : st.isOpen := h.alike.isOpen.trans (by decide +kernel)
  have hfailing : st.failing = [] := h.alike.failing.trans (by decide +kernel)
  refine ⟨st, h.reachable, hopen, hfailing, hauth, ?_, ?_⟩
  · have hstart : (outcome (Search.ids tenantGate.settings ⟨.user, 5⟩ {} 0 10)
        (twoTenants.counted (.searchIds {} 0 10))).1 = .ok [1] := by decide +kernel
    have hcaller : Caller.userId? ⟨.user, 5⟩ = some 5 := rfl
    have hsame := Search.same_ids (h.agreesFor.counted (.searchIds {} 0 10))
      State.Rewrites.start.reachable.ordered h.reachable.ordered hcaller tenantGate.settings {} 0 10
    rw [Gate.reply_serve hauth, Call.run, outcome_map, hsame.trans hstart]
    rfl
  · obtain ⟨item, hreply⟩ := h.reply_search
    have hopen' : (st.counted (.searchAll {} 0 10)).isOpen := hopen
    have hroom : ¬(st.counted (.searchAll {} 0 10)).store.sequence < maxInteger := by
      show ¬st.store.sequence < maxInteger
      rw [hlast]
      decide
    rw [hreply, Search.disableOrphan_of_exhausted hopen' hroom item]
    rfl

end FirewallLists
