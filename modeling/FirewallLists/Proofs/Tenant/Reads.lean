import FirewallLists.Proofs.Service.Sift

/-
  What a tenant reads does not depend on items of lists that the tenant may not use. Two states
  agree for a tenant when they look alike and the items of usable lists are the same
  (`State.AgreesFor`). A call that only looks into such lists gives the same in both. A search that
  meets orphans also switches them off, which takes versions that all tenants share; so its reply is
  the same unless the versions run out (`Search.sameUntil_sift`).
-/

namespace FirewallLists

open ServiceM

/-! ## Items of usable lists -/

/-- The states look alike, and the items of the lists that the tenant may use are the same. -/
structure State.AgreesFor (userId : Int) (st st' : State) : Prop where
  alike : st.Alike st'
  items : ∀ r : ItemRow, st.store.Usable userId r.listId →
    (r ∈ st'.store.items.rows ↔ r ∈ st.store.items.rows)

namespace Store

/-- The items of the lists that a tenant may use. -/
def usableRows (s : Store) (userId : Int) : List ItemRow :=
  s.items.rows.filter fun r => s.Usable userId r.listId

end Store

namespace State.AgreesFor

variable {userId : Int} {st st' : State} (h : st.AgreesFor userId st') (hs : st.store.Ordered)
  (hs' : st'.store.Ordered)

include h hs hs'

/-- In two tables in the order of their ids that agree for a tenant, rows that are chosen among
those of usable lists are the same. -/
theorem filter_rows {p : ItemRow → Bool} (hp : ∀ r, p r → st.store.Usable userId r.listId) :
    st'.store.items.rows.filter p = st.store.items.rows.filter p := by
  have hasc : ∀ {s : Store}, s.Ordered →
      (s.items.rows.filter p).Pairwise fun r q => r.id < q.id :=
    fun hs => hs.items.ascending.filter p
  refine eq_of_ascending ItemRow.id (hasc hs') (hasc hs) fun r => ?_
  rw [List.mem_filter, List.mem_filter]
  exact and_congr_left fun hr => h.items r (hp r hr)

theorem filterList (f : ListFilter) (hlist : st.store.Usable userId f.listId) (now : Int) :
    st'.store.filterList f now = st.store.filterList f now := by
  have hrows : st'.store.items.rows.filter (f.concerns now) =
      st.store.items.rows.filter (f.concerns now) := by
    refine h.filter_rows hs hs' fun r hr => ?_
    rw [ListFilter.concerns, Bool.and_eq_true, beq_iff_eq] at hr
    exact hr.1 ▸ hlist
  rw [Store.filterList, hrows, Store.filterList]

theorem search (kind : SearchKind) (scope : Scope)
    (hscope : ∀ id, scope.admits id → st.store.Usable userId id) (f : SearchFilter) (now : Int) :
    st'.store.search kind scope f now = st.store.search kind scope f now := by
  have hrows : st'.store.activeIn scope now = st.store.activeIn scope now := by
    refine h.filter_rows hs hs' fun r hr => ?_
    rw [Bool.and_eq_true] at hr
    exact hscope _ hr.2
  simp only [Store.search, hrows, h.alike.store.find?_lists]

end State.AgreesFor

/-! ## Calls that look into usable lists -/

section

variable {userId : Int} {st st' : State} (h : st.AgreesFor userId st') (hs : st.store.Ordered)
  (hs' : st'.store.Ordered) {caller : Caller} (hcaller : caller.userId? = some userId)

include h hs hs' hcaller

theorem Contents.same_countInList (f : ListFilter) : Same (countInList caller f) st st' := by
  refine Same.bind (looks_require _ _) (same_ofExcept _) fun _ _ => ?_
  refine Same.bind (Ownership.looks_checkCallerList _ _) (h.alike.same_checkCallerList _ _) ?_
  intro _ hcheck
  have husable := Ownership.usable_of_checkCallerList hcaller hcheck
  refine Same.bind looks_now h.alike.same_now fun time _ => h.alike.same_query ?_
  rw [Store.countInList, h.filterList hs hs' f husable, Store.countInList]

theorem Contents.same_listInList (cfg : Settings) (f : ListFilter) (offset size : Int) :
    Same (listInList cfg caller f offset size) st st' := by
  refine Same.bind (looks_require _ _) (same_ofExcept _) fun _ _ => ?_
  refine Same.bind (Ownership.looks_checkCallerList _ _) (h.alike.same_checkCallerList _ _) ?_
  intro _ hcheck
  have husable := Ownership.usable_of_checkCallerList hcaller hcheck
  refine Same.bind looks_now h.alike.same_now fun time _ => ?_
  refine Same.bind (looks_query _) (h.alike.same_query ?_) fun items _ => ?_
  · rw [Store.listInList, h.filterList hs hs' f husable, Store.listInList]
  · rw [Same, outcome_bind_of_ok (outcome_get st), outcome_bind_of_ok (outcome_get st'),
      outcome_pure, outcome_pure, funext h.alike.view]

theorem Search.same_countAll (q : SearchQuery) : Same (countAll caller q) st st' := by
  refine Same.bind (looks_ofExcept _) (same_ofExcept _) fun f _ => ?_
  refine Same.bind (looks_scope _ _) (h.alike.same_scope _ _) fun scope hscope => ?_
  refine Same.bind looks_now h.alike.same_now fun time _ => h.alike.same_query ?_
  rw [Store.searchCount, h.search hs hs' _ scope (usable_of_scope hcaller hscope), Store.searchCount]

theorem Search.same_ids (cfg : Settings) (q : SearchQuery) (offset size : Int) :
    Same (ids cfg caller q offset size) st st' := by
  refine Same.bind (looks_ofExcept _) (same_ofExcept _) fun f _ => ?_
  refine Same.bind (looks_scope _ _) (h.alike.same_scope _ _) fun scope hscope => ?_
  refine Same.bind looks_now h.alike.same_now fun time _ => h.alike.same_query ?_
  rw [Store.searchIds, h.search hs hs' _ scope (usable_of_scope hcaller hscope), Store.searchIds]

end

/-! ## Searches that switch orphans off -/

/-- The step fails for want of a version, and not as many as these were left. -/
def ServiceM.Exhausted {α : Type} (a : ServiceM α) (versions : Nat) (st : State) : Prop :=
  (outcome a st).1 = .error (.storage .noVersionLeft) ∧ maxInteger < st.store.sequence + versions

/-- The step gives the same in both states, unless not as many versions as these are left in one of
them. -/
def ServiceM.SameUntil {α : Type} (a : ServiceM α) (versions : Nat) (st st' : State) : Prop :=
  Same a st st' ∨ Exhausted a versions st ∨ Exhausted a versions st'

theorem ServiceM.SameUntil.bind {α β : Type} {a : ServiceM α} {f : α → ServiceM β}
    {versions : Nat} {st st' : State} (hlooks : Looks a) (ha : Same a st st')
    (hf : ∀ x, outcome a st = (.ok x, st) → SameUntil (f x) versions st st') :
    SameUntil (a >>= f) versions st st' := by
  have hout : outcome a st = ((outcome a st).1, st) := Prod.ext rfl (hlooks st)
  have hout' : outcome a st' = ((outcome a st).1, st') := Prod.ext ha (hlooks st')
  generalize (outcome a st).1 = result at hout hout'
  cases result with
  | error e =>
    refine Or.inl ?_
    rw [Same, outcome_bind_of_error hout, outcome_bind_of_error hout']
  | ok x =>
    have hrest := hf x hout
    unfold SameUntil Same Exhausted at hrest ⊢
    rw [outcome_bind_of_ok hout, outcome_bind_of_ok hout']
    exact hrest

namespace Search

variable {st st' : State} {item : Item} {items : List Item}

theorem isOpen_of_usage {usage : Usage} (h : outcome (Search.usage item) st = (.ok usage, st')) :
    st.isOpen := by
  obtain ⟨list, st₁, hquery, -⟩ := outcome_bind_eq_ok.mp h
  exact (outcome_query_eq_ok.mp hquery).2.1

/-- What a search tells of the items it has met is the same in states that look alike, unless the
orphans among them need more versions than are left in one of them. -/
theorem sameUntil_sift (h : st.Alike st') (hs : st.store.Ordered) (hv : st.store.Versioned)
    (hs' : st'.store.Ordered) (hv' : st'.store.Versioned) :
    SameUntil (sift items) items.length st st' := by
  induction items generalizing st st' with
  | nil => exact Or.inl (same_pure [])
  | cons item items ih =>
    refine SameUntil.bind (looks_usage item) (h.same_usage item) fun usage husage => ?_
    have hlength : ((item :: items).length : Int) = items.length + 1 := by simp
    unfold SameUntil Same Exhausted at ih ⊢
    rw [hlength]
    cases usage with
    | used list policy =>
      have hserver : serverOf st' policy = serverOf st policy := by
        unfold serverOf
        rw [funext fun p : PolicyInfo => h.nameInfo_serverName p.serverId]
      dsimp only
      rw [outcome_used, outcome_used, hserver]
      dsimp only
      rcases ih h hs hv hs' hv' with hrest | ⟨hrest, hfew⟩ | ⟨hrest, hfew⟩
      · exact Or.inl (by rw [hrest])
      · exact Or.inr (Or.inl ⟨by rw [hrest]; rfl, by omega⟩)
      · exact Or.inr (Or.inr ⟨by rw [hrest]; rfl, by omega⟩)
    | orphaned =>
      have hopen := isOpen_of_usage husage
      have hopen' := h.isOpen.trans hopen
      dsimp only
      by_cases hroom : st.store.sequence < maxInteger
      · obtain ⟨st₁, hdone, halike, hs₁, hv₁, hnext⟩ := disableOrphan_of_room hopen hs hv hroom item
        by_cases hroom' : st'.store.sequence < maxInteger
        · obtain ⟨st₁', hdone', halike', hs₁', hv₁', hnext'⟩ :=
            disableOrphan_of_room hopen' hs' hv' hroom' item
          rw [outcome_bind_of_ok hdone, outcome_bind_of_ok hdone']
          rcases ih (halike.symm.trans (h.trans halike')) hs₁ hv₁ hs₁' hv₁' with
            hrest | ⟨hrest, hfew⟩ | ⟨hrest, hfew⟩
          · exact Or.inl hrest
          · exact Or.inr (Or.inl ⟨hrest, by omega⟩)
          · exact Or.inr (Or.inr ⟨hrest, by omega⟩)
        · refine Or.inr (Or.inr ⟨?_, by omega⟩)
          rw [outcome_bind_of_error (disableOrphan_of_exhausted hopen' hroom' item)]
      · refine Or.inr (Or.inl ⟨?_, by omega⟩)
        rw [outcome_bind_of_error (disableOrphan_of_exhausted hopen hroom item)]

/-- A page has no more items than are in usable lists. -/
theorem length_searchItems_le {s : Store} {userId : Int} {scope : Scope}
    (hscope : ∀ id, scope.admits id → s.Usable userId id) {f : SearchFilter}
    {now offset size : Int} (h : s.searchItems scope f now offset size = .ok items) :
    items.length ≤ (s.usableRows userId).length := by
  obtain ⟨rows, hrows, h⟩ := bind_eq_ok.mp h
  unfold Store.usableRows
  calc items.length = (page offset size rows).length := length_of_mapM h
    _ ≤ rows.length := length_page_le offset size rows
    _ ≤ (s.items.rows.filter fun r => r.isActive now && scope.admits r.listId).length :=
        Store.length_search_le hrows
    _ ≤ (s.items.rows.filter fun r => s.Usable userId r.listId).length := by
        rw [← List.countP_eq_length_filter, ← List.countP_eq_length_filter]
        refine List.countP_mono_left fun r _ hr => ?_
        rw [Bool.and_eq_true] at hr
        exact decide_eq_true (hscope _ hr.2)

theorem outcome_items {cfg : Settings} {caller : Caller} {q : SearchQuery} {f : SearchFilter}
    {scope : Scope} {offset size : Int} (hfilter : q.filter = .ok f)
    (hscope : outcome (Search.scope caller q) st = (.ok scope, st)) (hopen : st.isOpen)
    (hfound : st.store.searchItems scope f st.now offset (cfg.pageSize size) = .ok items) :
    outcome (Search.items cfg caller q offset size) st = outcome (sift items) st := by
  have hquery : outcome (query (·.searchItems scope f st.now offset (cfg.pageSize size))) st =
      (.ok items, st) := by
    rw [outcome_query_of_isOpen hopen, hfound]
    rfl
  rw [Search.items, hfilter, outcome_bind_of_ok (outcome_ofExcept _ st), outcome_bind_of_ok hscope,
    outcome_bind_of_ok (outcome_now st), outcome_bind_of_ok hquery]

/-- A list that is not public and that no policy uses makes orphans of its items. -/
theorem usage_of_unused (hopen : st.isOpen) {list : IpList}
    (hlist : st.store.findList item.listId = .ok (some list)) (hon : list.enabled)
    (hprivate : list.isPublic = false)
    (hpolicy : st.lookUp .policyOfList (Directory.policyOfList? · list.id) = .ok none) :
    outcome (usage item) st = (.ok .orphaned, st) := by
  have hquery : outcome (query (·.findList item.listId)) st = (.ok (some list), st) := by
    rw [outcome_query_of_isOpen hopen, hlist]
    rfl
  rw [usage, outcome_bind_of_ok hquery]
  simp only [hon, hprivate, Bool.not_true, Bool.false_eq_true, if_false]
  rw [outcome_bind_of_ok (outcome_get st), hpolicy]
  rfl

theorem sameUntil_items {userId : Int} (h : st.AgreesFor userId st') (hs : st.store.Ordered)
    (hv : st.store.Versioned) (hs' : st'.store.Ordered) (hv' : st'.store.Versioned)
    {caller : Caller} (hcaller : caller.userId? = some userId) (cfg : Settings) (q : SearchQuery)
    (offset size : Int) :
    SameUntil (Search.items cfg caller q offset size) (st.store.usableRows userId).length
      st st' := by
  refine SameUntil.bind (looks_ofExcept _) (same_ofExcept _) fun f _ => ?_
  refine SameUntil.bind (looks_scope _ _) (h.alike.same_scope _ _) fun scope hscope => ?_
  have husable := usable_of_scope hcaller hscope
  refine SameUntil.bind looks_now h.alike.same_now fun time _ => ?_
  refine SameUntil.bind (looks_query _) (h.alike.same_query ?_) fun found hfound => ?_
  · rw [Store.searchItems, h.search hs hs' _ scope husable, Store.searchItems]
  · have hfew := length_searchItems_le husable (outcome_query_eq_ok.mp hfound).2.2
    rcases sameUntil_sift h.alike hs hv hs' hv' with hsame | ⟨hfailed, hleft⟩ | ⟨hfailed, hleft⟩
    · exact Or.inl hsame
    · exact Or.inr (Or.inl ⟨hfailed, by omega⟩)
    · exact Or.inr (Or.inr ⟨hfailed, by omega⟩)

end Search

/-! ## Replies to a tenant -/

/-- The calls with which a tenant reads items of lists. -/
def Call.readsItems : Call → Bool
  | countInList _ | listInList _ _ _ | countAll _ | searchIds _ _ _ | searchAll _ _ _ => true
  | _ => false

theorem State.AgreesFor.counted {userId : Int} {st st' : State} (h : st.AgreesFor userId st')
    (call : Call) : (st.counted call).AgreesFor userId (st'.counted call) :=
  ⟨⟨h.alike.store, h.alike.isOpen, h.alike.failing, h.alike.now⟩, h.items⟩

/-- Two reachable states that agree for a tenant give the tenant the same reply to every call that
reads items, whatever the call names and however other items and the versions differ. The one
exception is a search that fails in one of them since no version is left to switch an orphan off,
and there fewer versions are left than the tenant's usable lists have items. -/
theorem tenant_reads_isolated {st st' : State} (h : Reachable st) (h' : Reachable st')
    {userId : Int} (hagrees : st.AgreesFor userId st') {gate : Gate} {token : Option String}
    (hauth : gate.authenticate token = .ok ⟨.user, userId⟩) {call : Call}
    (hcall : call.readsItems) :
    (outcome (gate.serve token call) st').1 = (outcome (gate.serve token call) st).1 ∨
    ∃ q offset size, call = .searchAll q offset size ∧ ∃ run ∈ [st, st'],
      (outcome (gate.serve token call) run).1 = .error (.storage .noVersionLeft) ∧
      maxInteger < run.store.sequence + (st.store.usableRows userId).length := by
  have hs : (st.counted call).store.Ordered := h.ordered
  have hs' : (st'.counted call).store.Ordered := h'.ordered
  have hcounted := hagrees.counted call
  have hcaller : Caller.userId? ⟨.user, userId⟩ = some userId := rfl
  rw [Gate.reply_serve hauth, Gate.reply_serve hauth]
  cases call with
  | countInList f => exact Or.inl (Same.map (Contents.same_countInList hcounted hs hs' hcaller f) _)
  | listInList f offset size =>
    exact Or.inl (Same.map (Contents.same_listInList hcounted hs hs' hcaller _ f offset size) _)
  | countAll q => exact Or.inl (Same.map (Search.same_countAll hcounted hs hs' hcaller q) _)
  | searchIds q offset size =>
    exact Or.inl (Same.map (Search.same_ids hcounted hs hs' hcaller _ q offset size) _)
  | searchAll q offset size =>
    have hfailed : ∀ st, (outcome (Search.items gate.settings ⟨.user, userId⟩ q offset size)
        (st.counted (.searchAll q offset size))).1 = .error (.storage .noVersionLeft) →
        (outcome (gate.serve token (.searchAll q offset size)) st).1 =
          .error (.storage .noVersionLeft) := by
      intro st hout
      rw [Gate.reply_serve hauth, Call.run, outcome_map, hout]
      rfl
    rcases Search.sameUntil_items hcounted hs h.versioned hs' h'.versioned hcaller gate.settings q
      offset size with hsame | ⟨hout, hfew⟩ | ⟨hout, hfew⟩
    · exact Or.inl (hsame.map _)
    · exact Or.inr ⟨q, offset, size, rfl, st, by simp, hfailed st hout, hfew⟩
    · exact Or.inr ⟨q, offset, size, rfl, st', by simp, hfailed st' hout, hfew⟩
  | _ => cases hcall

/-- Two tenants with an item each in a list of their own. No policy uses the lists. -/
def twoTenants : State :=
  State.after { now := 0 } (adminCalls [.createList (privateList none (some 5)),
    .createList (privateList none (some 6)), .createItem { listId := 1, value := "10.0.0.1" },
    .createItem { listId := 2, value := "10.0.0.2" }])

theorem State.agreesFor_of_usableRows {userId : Int} {st st' : State} (h : st.Alike st')
    (hrows : st'.store.usableRows userId = st.store.usableRows userId) :
    st.AgreesFor userId st' where
  alike := h
  items := by
    intro r hr
    have hmem : r ∈ st'.store.usableRows userId ↔ r ∈ st.store.usableRows userId := by rw [hrows]
    have hr' := (h.store.usable_iff userId r.listId).mpr hr
    simpa [Store.usableRows, hr, hr'] using hmem

/-- More items of the other tenant do not show, though the search takes a version to switch an
orphan off. -/
theorem tenant_reads_isolated_of_other_items :
    let st := twoTenants
    let st' := st.after (adminCalls [.createItem { listId := 2, value := "10.0.0.3" },
      .deleteItem { value := "10.0.0.2" }])
    let search := outcome (tenantGate.serve (some "five") (.searchAll {} 0 10))
    st.AgreesFor 5 st' ∧ st'.store.sequence = st.store.sequence + 2 ∧
      (search st').1 = (search st).1 := by
  intro st st' search
  have hagrees : st.AgreesFor 5 st' := by
    refine State.agreesFor_of_usableRows ⟨⟨?_, ?_, ?_, ?_, ?_, ?_⟩, ?_, ?_, ?_⟩ ?_
    all_goals decide +kernel
  have hauth : tenantGate.authenticate (some "five") = .ok ⟨.user, 5⟩ := by decide +kernel
  have hreads : Call.readsItems (.searchAll {} 0 10) := rfl
  have hreach : Reachable st := reachable_after 0 _
  have hreach' : Reachable st' := hreach.run (run_after st _)
  refine ⟨hagrees, by decide +kernel, ?_⟩
  rcases tenant_reads_isolated hreach hreach' hagrees hauth hreads with
    hsame | ⟨_, _, _, -, run, hrun, -, hfew⟩
  · exact hsame
  · -- versions are left in both states
    have hroom : ∀ run ∈ [st, st'],
        run.store.sequence + ((st.store.usableRows 5).length : Int) ≤ maxInteger := by
      decide +kernel
    have := hroom run hrun
    omega

/-! ## When versions run out -/

/-- The state has been reached from that of the two tenants, and only the second tenant's item has
changed. -/
structure State.Rewrites (st : State) : Prop where
  reachable : Reachable st
  alike : twoTenants.Alike st
  others : ∀ r : ItemRow, r.id ≠ 2 → (r ∈ st.store.items.rows ↔ r ∈ twoTenants.store.items.rows)
  second : ∃ row ∈ st.store.items.rows, row.id = 2 ∧ row.listId = 2 ∧ row.isLive

namespace State.Rewrites

variable {st : State}

theorem start : twoTenants.Rewrites where
  reachable := reachable_after 0 _
  alike := ⟨⟨rfl, rfl, rfl, rfl, rfl, rfl⟩, rfl, rfl, rfl⟩
  others := fun _ _ => .rfl
  second := by decide +kernel

/-- Every later version is reached. -/
theorem exists_of_version (n : Nat) (hn : 2 + n ≤ maxInteger) :
    ∃ st : State, st.Rewrites ∧ st.store.sequence = 2 + n := by
  obtain ⟨row, hmem, hid, hlist, hlive⟩ := start.second
  obtain ⟨item, hnormal⟩ := ItemDraft.exists_normal { listId := 2, value := "10.0.0.2" }
    (by decide +kernel)
  have hitem : item.listId = 2 := by
    obtain ⟨_, _, -, -, -, -, rfl⟩ := ItemDraft.normalize_eq_ok.mp hnormal
    rfl
  -- no other item is in the list
  have hclear : twoTenants.store.overlapping item 2 = [] := by
    rw [List.eq_nil_iff_forall_not_mem]
    intro r hr
    obtain ⟨hr, hrlist, -, -, hrid⟩ := Store.mem_overlapping.mp hr
    have hone : ∀ r ∈ twoTenants.store.items.rows, r.listId = 2 → r.id = 2 := by decide +kernel
    exact hrid (hone r hr (hrlist.trans hitem))
  obtain ⟨st, hrevised, hversion⟩ := start.reachable.exists_revised (by decide +kernel) hmem hlive
    { value := "10.0.0.2" } (hlist ▸ hnormal) (hid ▸ hclear) n hn
  rw [hid, hlist] at hrevised
  exact ⟨st, ⟨start.reachable.run hrevised.run, hrevised.alike, hrevised.others, hrevised.self⟩,
    hversion⟩

/-- What has changed does not concern the first tenant. -/
theorem agreesFor (h : st.Rewrites) : twoTenants.AgreesFor 5 st where
  alike := h.alike
  items := by
    intro r hr
    have hsecond : ¬twoTenants.store.Usable 5 2 := by decide +kernel
    by_cases hid : r.id = 2
    · -- the second tenant's item is in the second list
      refine iff_of_false (fun hmem => hsecond ?_) fun hmem => hsecond ?_
      · obtain ⟨row, hrow, hrowid, hlist, -⟩ := h.second
        rw [h.reachable.ordered.items.eq_of_id hmem hrow (hid.trans hrowid.symm), hlist] at hr
        exact hr
      · obtain ⟨row, hrow, hrowid, hlist, -⟩ := start.second
        rw [start.reachable.ordered.items.eq_of_id hmem hrow (hid.trans hrowid.symm), hlist] at hr
        exact hr
    · exact h.others r hid

/-- The first tenant's search meets the tenant's one item, which is an orphan. -/
theorem reply_search (h : st.Rewrites) :
    ∃ item : Item, (outcome (tenantGate.serve (some "five") (.searchAll {} 0 10)) st).1 =
      (outcome (Search.disableOrphan item) (st.counted (.searchAll {} 0 10))).1.map
        fun _ => .results [] := by
  have hauth : tenantGate.authenticate (some "five") = .ok ⟨.user, 5⟩ := by decide +kernel
  have hagrees := h.agreesFor.counted (.searchAll {} 0 10)
  have hs : (st.counted (.searchAll {} 0 10)).store.Ordered := h.reachable.ordered
  have hopen : (st.counted (.searchAll {} 0 10)).isOpen := h.alike.isOpen.trans (by decide +kernel)
  have hnow : (st.counted (.searchAll {} 0 10)).now = 0 := h.alike.now.trans (by decide +kernel)
  rw [Gate.reply_serve hauth]
  generalize st.counted (.searchAll {} 0 10) = st₁ at hagrees hs hopen hnow
  -- what the search finds is what it finds in the state of the two tenants
  have hscope : outcome (Search.scope ⟨.user, 5⟩ {}) st₁ = (.ok (.lists [1]), st₁) := by
    have hstart : (outcome (Search.scope ⟨.user, 5⟩ {})
        (twoTenants.counted (.searchAll {} 0 10))).1 = .ok (.lists [1]) := by
      decide +kernel
    exact Prod.ext ((hagrees.alike.same_scope _ _).trans hstart) (Search.looks_scope _ _ st₁)
  have hscoped : ∀ id, (Scope.lists [1]).admits id → twoTenants.store.Usable 5 id := by
    intro id hid
    have hone : id = 1 := by simpa [Scope.admits] using hid
    rw [hone]
    decide +kernel
  obtain ⟨item, hitem, hlistId⟩ : ∃ item, twoTenants.store.searchItems (.lists [1])
      ⟨"", none, false, "", none, false⟩ 0 0 10 = .ok [item] ∧ item.listId = 1 :=
    ⟨⟨1, 1, "10.0.0.1", "10.0.0.1", "", .ipv4, 1, true, 0, "", "", 0, 0, {}, true, 0⟩,
      by decide +kernel, rfl⟩
  have hfound : st₁.store.searchItems (.lists [1]) ⟨"", none, false, "", none, false⟩ st₁.now 0
      (tenantGate.settings.pageSize 10) = .ok [item] := by
    rw [hnow, Store.searchItems, hagrees.search start.reachable.ordered hs _ _ hscoped]
    exact hitem
  have hlist : st₁.store.findList item.listId =
      .ok (some ⟨1, "own", .black, false, false, none, some 5, "", true, 0⟩) := by
    rw [hagrees.alike.store.findList, hlistId]
    decide +kernel
  have hpolicy : st₁.lookUp .policyOfList (Directory.policyOfList? · 1) = .ok none := by
    rw [hagrees.alike.lookUp (hagrees.alike.store.policyOfList? 1)]
    decide +kernel
  have husage := Search.usage_of_unused hopen hlist rfl rfl hpolicy
  refine ⟨item, ?_⟩
  rw [Call.run, outcome_map, Search.outcome_items rfl hscope hopen hfound, Search.sift,
    outcome_bind_of_ok husage]
  dsimp only
  rw [outcome_bind]
  rcases outcome (Search.disableOrphan item) st₁ with ⟨e | _, st₂⟩ <;> rfl

end State.Rewrites

/-- A state in which no version is left agrees for a tenant with one in which the same search finds
nothing, and there the search fails: it meets an orphan and cannot switch it off. So how often
another tenant's item has been revised shows. -/
theorem tenant_reads_differ_without_versions :
    ∃ st st' : State, Reachable st ∧ Reachable st' ∧ st.AgreesFor 5 st' ∧
      tenantGate.authenticate (some "five") = .ok ⟨.user, 5⟩ ∧
      (outcome (tenantGate.serve (some "five") (.searchAll {} 0 10)) st).1 = .ok (.results []) ∧
      (outcome (tenantGate.serve (some "five") (.searchAll {} 0 10)) st').1 =
        .error (.storage .noVersionLeft) := by
  obtain ⟨st', h', hlast⟩ := State.Rewrites.exists_of_version 9223372036854775805 (by decide)
  have h := State.Rewrites.start
  have hopen : (twoTenants.counted (.searchAll {} 0 10)).isOpen := by decide +kernel
  have hopen' : (st'.counted (.searchAll {} 0 10)).isOpen := h'.alike.isOpen.trans hopen
  refine ⟨twoTenants, st', h.reachable, h'.reachable, h'.agreesFor, by decide +kernel, ?_, ?_⟩
  · obtain ⟨item, hreply⟩ := h.reply_search
    obtain ⟨st₁, hdone, -⟩ := Search.disableOrphan_of_room hopen h.reachable.ordered
      h.reachable.versioned (by decide +kernel) item
    rw [hreply, hdone]
    rfl
  · obtain ⟨item, hreply⟩ := h'.reply_search
    have hroom : ¬(st'.counted (.searchAll {} 0 10)).store.sequence < maxInteger := by
      show ¬st'.store.sequence < maxInteger
      rw [hlast]
      decide
    rw [hreply, Search.disableOrphan_of_exhausted hopen' hroom item]
    rfl

end FirewallLists
