import FirewallLists.Proofs.Service.Progress
import FirewallLists.Proofs.Service.Reply

/-
  The lists that a tenant may use: those that are switched on and are public, name the tenant, or
  belong to one of the tenant's servers. Before a tenant writes or reads, a list is either looked up
  and checked (`Ownership.checkTenantList_eq_ok`) or taken from the lists of the tenant and of the
  tenant's servers (`Ownership.usable_of_scopeOf`); both only let usable lists through.
-/

namespace FirewallLists

open ServiceM

/-- The list is switched on, and it is public, names the tenant, or belongs to a server that is the
tenant's by the directory. -/
def Store.Usable (s : Store) (userId listId : Int) : Prop :=
  ∃ row ∈ s.lists.rows, row.id = listId ∧ isEnabled row.state ∧
    (row.isPublic ≠ 0 ∨ row.userId = some userId ∨
      ∃ serverId ∈ Directory.serversOf s userId, row.serverId = some serverId)

instance (s : Store) (userId listId : Int) : Decidable (s.Usable userId listId) :=
  inferInstanceAs (Decidable (∃ row ∈ s.lists.rows, row.id = listId ∧ isEnabled row.state ∧
    (row.isPublic ≠ 0 ∨ row.userId = some userId ∨
      ∃ serverId ∈ Directory.serversOf s userId, row.serverId = some serverId)))

/-- A gate that lets in one tenant. -/
def tenantGate : Gate where
  tokens := [⟨"five", ⟨.user, 5⟩⟩]

/-- A list of a tenant or of a server. -/
def privateList (serverId userId : Option Int) : NewList :=
  ⟨"own", .black, false, false, serverId, userId, ""⟩

/-! ## Lists as they are stored -/

theorem Caller.kind_of_userId? {caller : Caller} {userId : Int}
    (h : caller.userId? = some userId) : caller.kind = .user := by
  unfold userId? at h
  split at h
  · next hkind => exact hkind
  · cases h

theorem eq_of_positiveId {id : Option Int} {n : Int} (h : positiveId id = some n) :
    id = some n :=
  (Option.filter_eq_some_iff.mp h).1

/-! ## Looking up what belongs to a tenant -/

theorem State.lookUp_eq_ok {α : Type} {st : State} {kind : Lookup} {find : Store → α} {x : α}
    (h : st.lookUp kind find = .ok x) : find st.store = x := by
  unfold State.lookUp State.tables at h
  split at h
  · cases h
  · split at h
    · exact Except.ok.inj h
    · cases h

theorem State.lookUp_of_answers {α : Type} {st : State} {kind : Lookup} (hopen : st.isOpen)
    (h : kind ∉ st.failing) (find : Store → α) : st.lookUp kind find = .ok (find st.store) := by
  rw [State.lookUp, if_neg (mt List.contains_iff_mem.mp h), State.tables, if_pos hopen]
  rfl

theorem State.exists_lookUp_eq_error {α : Type} {st : State} {kind : Lookup}
    (h : ¬(st.isOpen ∧ kind ∉ st.failing)) (find : Store → α) :
    ∃ e, st.lookUp kind find = .error e := by
  unfold State.lookUp
  by_cases hfailing : kind ∈ st.failing
  · exact ⟨_, if_pos (List.contains_iff_mem.mpr hfailing)⟩
  · have hclosed : ¬st.isOpen := fun hopen => h ⟨hopen, hfailing⟩
    rw [if_neg (mt List.contains_iff_mem.mp hfailing), State.tables, if_neg hclosed]
    exact ⟨_, rfl⟩

theorem Directory.mem_serversOf_of_ownsServer {s : Store} {userId serverId : Int}
    (h : Directory.ownsServer s userId serverId) : serverId ∈ Directory.serversOf s userId := by
  obtain ⟨row, hfind, howned⟩ := (Option.any_eq_true _ _).mp h
  have hid : row.id = serverId := by
    have := List.find?_some hfind
    exact beq_iff_eq.mp this
  rw [← hid]
  exact List.mem_map_of_mem (List.mem_filter.mpr ⟨List.mem_of_find?_eq_some hfind, howned⟩)

/-- The list is switched on, and it names the tenant or belongs to a server that is the tenant's. -/
def Store.Owns (s : Store) (userId listId : Int) : Prop :=
  ∃ row ∈ s.lists.rows, row.id = listId ∧ isEnabled row.state ∧
    (row.userId = some userId ∨
      ∃ serverId ∈ Directory.serversOf s userId, row.serverId = some serverId)

instance (s : Store) (userId listId : Int) : Decidable (s.Owns userId listId) :=
  inferInstanceAs (Decidable (∃ row ∈ s.lists.rows, row.id = listId ∧ isEnabled row.state ∧
    (row.userId = some userId ∨
      ∃ serverId ∈ Directory.serversOf s userId, row.serverId = some serverId)))

theorem Store.mem_tenantLists_iff {s : Store} {userId listId : Int} :
    listId ∈ s.tenantLists userId (Directory.serversOf s userId) ↔ s.Owns userId listId := by
  simp only [tenantLists, List.mem_map, List.mem_filter, Bool.and_eq_true, Bool.or_eq_true,
    beq_iff_eq, Option.any_eq_true, List.contains_iff_mem]
  constructor
  · rintro ⟨row, ⟨hrow, henabled, howned⟩, rfl⟩
    refine ⟨row, hrow, rfl, henabled, howned.imp_right ?_⟩
    exact fun ⟨serverId, hid, hmem⟩ => ⟨serverId, hmem, hid⟩
  · rintro ⟨row, hrow, rfl, henabled, howned⟩
    refine ⟨row, ⟨hrow, henabled, howned.imp_right ?_⟩, rfl⟩
    exact fun ⟨serverId, hmem, hid⟩ => ⟨serverId, hid, hmem⟩

/-- The lists of a tenant, switched on. -/
def Store.ownLists (s : Store) (userId : Int) : List Int :=
  s.tenantLists userId (Directory.serversOf s userId)

/-- A tenant's own lists, or all lists when no tenant is given. -/
def Store.scopeOf (s : Store) : Option Int → Scope
  | some userId => .lists (s.ownLists userId)
  | none => .everywhere

/-- In scope are the tenant's lists, or all lists when no tenant is given. -/
theorem Store.admits_scopeOf_iff {s : Store} {tenant : Option Int} {listId : Int} :
    (s.scopeOf tenant).admits listId ↔ ∀ userId, tenant = some userId → s.Owns userId listId := by
  cases tenant with
  | none => exact iff_of_true rfl nofun
  | some userId =>
    rw [scopeOf, Scope.admits, List.contains_iff_mem, ownLists, mem_tenantLists_iff]
    exact ⟨fun howns other hother => Option.some.inj hother ▸ howns, fun hall => hall userId rfl⟩

/-- The lists of a tenant can be told, if one is given: the tables and the tenant's servers can be
looked up, and the servers are few enough to be named in one statement beside the tenant. -/
def State.CanTell (st : State) (tenant : Option Int) : Prop :=
  ∀ userId ∈ tenant, st.isOpen ∧ Lookup.serversOf ∉ st.failing ∧
    1 + (Directory.serversOf st.store userId).length ≤ maxValues

instance (st : State) (tenant : Option Int) : Decidable (st.CanTell tenant) :=
  inferInstanceAs (Decidable (∀ userId ∈ tenant, _ ∧ _ ∧ _))

/-- What a tenant owns the tenant may use. -/
theorem Store.Owns.usable {s : Store} {userId listId : Int} (h : s.Owns userId listId) :
    s.Usable userId listId := by
  obtain ⟨row, hrow, hid, henabled, howned⟩ := h
  exact ⟨row, hrow, hid, henabled, Or.inr howned⟩

namespace Ownership

variable {userId listId : Int} {st st' : State}

theorem outcome_lookUp_eq_ok {α : Type} {kind : Lookup} {find : Store → α} {x : α}
    (h : outcome (lookUp kind find) st = (.ok x, st')) : st' = st ∧ find st.store = x := by
  rw [outcome_lookUp, Prod.mk.injEq, mapError_eq_ok] at h
  exact ⟨h.2.symm, State.lookUp_eq_ok h.1⟩

theorem outcome_tenantLists_eq {serverIds : List Int}
    (hservers : st.lookUp .serversOf (Directory.serversOf · userId) = .ok serverIds) :
    outcome (tenantLists userId) st =
      outcome (query (·.findTenantLists userId serverIds)) st := by
  have hlooked : outcome (lookUp .serversOf (Directory.serversOf · userId)) st =
      (.ok serverIds, st) := by
    rw [outcome_lookUp, hservers]
    rfl
  rw [tenantLists, outcome_bind_of_ok hlooked]

/-- The lists of a tenant are those that name the tenant or one of the tenant's servers. -/
theorem outcome_tenantLists (h : st.CanTell (some userId)) :
    outcome (tenantLists userId) st = (.ok (st.store.ownLists userId), st) := by
  obtain ⟨hopen, hanswers, hfew⟩ := h userId rfl
  rw [outcome_tenantLists_eq (st.lookUp_of_answers hopen hanswers _),
    outcome_query_of_isOpen hopen, Store.findTenantLists, bind_of_ok (checkValues_of_le hfew)]
  rfl

/-- Where the tenant's servers are too many the lists cannot be asked for. -/
theorem outcome_tenantLists_of_many (hopen : st.isOpen) (hanswers : Lookup.serversOf ∉ st.failing)
    (hmany : ¬1 + (Directory.serversOf st.store userId).length ≤ maxValues) :
    outcome (tenantLists userId) st = (.error (.storage .tooManyValues), st) := by
  rw [outcome_tenantLists_eq (st.lookUp_of_answers hopen hanswers _),
    outcome_query_of_isOpen hopen, Store.findTenantLists,
    bind_of_error (checkValues_of_lt hmany)]
  rfl

/-- Without that they cannot be told. -/
theorem exists_outcome_tenantLists_eq_error (h : ¬st.CanTell (some userId)) :
    ∃ e, outcome (tenantLists userId) st = (.error (.storage e), st) := by
  by_cases hready : st.isOpen ∧ Lookup.serversOf ∉ st.failing
  · refine ⟨_, outcome_tenantLists_of_many hready.1 hready.2 fun hfew => h ?_⟩
    rintro _ ⟨⟩
    exact ⟨hready.1, hready.2, hfew⟩
  · obtain ⟨e, hservers⟩ := State.exists_lookUp_eq_error hready (Directory.serversOf · userId)
    have hfails : outcome (lookUp .serversOf (Directory.serversOf · userId)) st =
        (.error (.storage e), st) := by
      rw [outcome_lookUp, hservers]
      rfl
    exact ⟨e, outcome_bind_of_error hfails⟩

theorem outcome_scopeOf {tenant : Option Int} (h : st.CanTell tenant) :
    outcome (scopeOf tenant) st = (.ok (st.store.scopeOf tenant), st) := by
  cases tenant with
  | none => rfl
  | some userId =>
    rw [scopeOf, outcome_map, outcome_tenantLists h]
    rfl

theorem exists_outcome_scopeOf_eq_error {tenant : Option Int} (h : ¬st.CanTell tenant) :
    ∃ e, outcome (scopeOf tenant) st = (.error (.storage e), st) := by
  cases tenant with
  | none => exact absurd nofun h
  | some userId =>
    obtain ⟨e, hlists⟩ := exists_outcome_tenantLists_eq_error h
    exact ⟨e, outcome_map_eq_error.mpr hlists⟩

/-- A scope that has been told is that of the tenant. -/
theorem scopeOf_eq_ok {tenant : Option Int} {scope : Scope}
    (h : outcome (scopeOf tenant) st = (.ok scope, st')) :
    st.CanTell tenant ∧ scope = st.store.scopeOf tenant := by
  by_cases htell : st.CanTell tenant
  · rw [outcome_scopeOf htell] at h
    cases h
    exact ⟨htell, rfl⟩
  · obtain ⟨e, herror⟩ := exists_outcome_scopeOf_eq_error htell
    rw [herror] at h
    cases h

/-- A tenant's scope is of usable lists. -/
theorem usable_of_scopeOf {scope : Scope}
    (h : outcome (scopeOf (some userId)) st = (.ok scope, st')) (listId : Int)
    (hadmits : scope.admits listId) : st.store.Usable userId listId := by
  obtain ⟨-, rfl⟩ := scopeOf_eq_ok h
  exact (Store.admits_scopeOf_iff.mp hadmits userId rfl).usable

theorem checkOwner_eq_ok {list : IpList} (h : outcome (checkOwner userId list) st = (.ok (), st')) :
    list.isPublic ∨ list.userId = some userId ∨
      ∃ serverId ∈ Directory.serversOf st.store userId, list.serverId = some serverId := by
  unfold checkOwner at h
  split at h
  · next hown =>
    rw [Bool.or_eq_true, beq_iff_eq] at hown
    exact hown.imp_right Or.inl
  · split at h
    · next serverId hserver =>
      obtain ⟨owned, st₁, hlookUp, hchecked⟩ := outcome_bind_eq_ok.mp h
      obtain ⟨rfl, howned⟩ := outcome_lookUp_eq_ok hlookUp
      split at hchecked
      · next htrue =>
        rw [htrue] at howned
        exact Or.inr (Or.inr ⟨serverId, Directory.mem_serversOf_of_ownsServer howned, hserver⟩)
      · cases hchecked
    · cases h

/-- A tenant is only let through to a usable list. -/
theorem checkTenantList_eq_ok (h : outcome (checkTenantList userId listId) st = (.ok (), st')) :
    st.store.Usable userId listId := by
  obtain ⟨list, -, hlist, h⟩ := outcome_query_bind_eq_ok.mp h
  cases list with
  | none => cases h
  | some list =>
    obtain ⟨row, hrow, hid, henabled, htoList⟩ := Store.exists_row_of_findEnabledList hlist
    obtain ⟨-, hpublic, huser, hserver, -⟩ := ListRow.toList_eq_ok htoList
    refine ⟨row, hrow, hid, henabled, ?_⟩
    rcases checkOwner_eq_ok h with hown | hown | ⟨serverId, howned, hown⟩
    · rw [hpublic, decide_eq_true_iff] at hown
      exact Or.inl hown
    · exact Or.inr (Or.inl (eq_of_positiveId (huser.symm.trans hown)))
    · exact Or.inr (Or.inr ⟨serverId, howned, eq_of_positiveId (hserver.symm.trans hown)⟩)

end Ownership

/-! ## What a tenant is let through to -/

section

variable {caller : Caller} {userId : Int} (hcaller : caller.userId? = some userId) {listId : Int}
  {st st' : State}

include hcaller

theorem Ownership.usable_of_checkWritable
    (h : outcome (checkWritable caller listId) st = (.ok (), st')) :
    st.store.Usable userId listId := by
  unfold checkWritable at h
  rw [hcaller] at h
  exact checkTenantList_eq_ok h

theorem Ownership.usable_of_checkCallerList
    (h : outcome (checkCallerList caller listId) st = (.ok (), st')) :
    st.store.Usable userId listId := by
  unfold checkCallerList at h
  rw [hcaller] at h
  exact checkTenantList_eq_ok h

theorem Items.usable_of_deleteScope {scope : Scope}
    (h : outcome (deleteScope caller listId) st = (.ok scope, st')) (id : Int)
    (hadmits : scope.admits id) : st.store.Usable userId id := by
  unfold deleteScope at h
  split at h
  · obtain ⟨_, st₁, hcheck, h⟩ := outcome_bind_eq_ok.mp h
    cases h
    have hid : id = listId := by simpa [Scope.admits] using hadmits
    exact hid ▸ Ownership.usable_of_checkCallerList hcaller hcheck
  · rw [hcaller] at h
    exact Ownership.usable_of_scopeOf h id hadmits

theorem Search.usable_of_scope {q : SearchQuery} {scope : Scope}
    (h : outcome (Search.scope caller q) st = (.ok scope, st')) (id : Int)
    (hadmits : scope.admits id) : st.store.Usable userId id := by
  obtain ⟨_, -, h⟩ := (looks_require _ _).bind_eq_ok h
  rw [hcaller] at h
  exact Ownership.usable_of_scopeOf h id hadmits

end

end FirewallLists
