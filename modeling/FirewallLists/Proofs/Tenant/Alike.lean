import FirewallLists.Proofs.Service.Calls
import FirewallLists.Proofs.Tenant.Usable

/-
  States that look alike around the items: lists, directory, failures and clock are the same
  (`State.Alike`). Looking up lists, names and owners gives the same in both (`ServiceM.Same`), and
  so does every check of a tenant.
-/

namespace FirewallLists

open ServiceM

/-! ## States that look alike -/

/-- Lists and directory have the same rows. -/
structure Store.Alike (s s' : Store) : Prop where
  lists : s'.lists.rows = s.lists.rows
  servers : s'.servers.rows = s.servers.rows
  nodes : s'.nodes.rows = s.nodes.rows
  policies : s'.policies.rows = s.policies.rows
  ruleGroups : s'.ruleGroups.rows = s.ruleGroups.rows
  ruleSets : s'.ruleSets.rows = s.ruleSets.rows

/-- Lists, directory, failures and clock are the same. -/
structure State.Alike (st st' : State) : Prop where
  store : st.store.Alike st'.store
  isOpen : st'.isOpen = st.isOpen
  failing : st'.failing = st.failing
  now : st'.now = st.now

theorem Store.Alike.refl (s : Store) : s.Alike s :=
  ⟨rfl, rfl, rfl, rfl, rfl, rfl⟩

theorem State.Alike.refl (st : State) : st.Alike st :=
  ⟨.refl st.store, rfl, rfl, rfl⟩

/-- Counting changes nothing of it. -/
theorem State.alike_counters (st : State) (counters : Counters) :
    st.Alike { st with counters := counters } :=
  ⟨.refl st.store, rfl, rfl, rfl⟩

theorem State.alike_counted (st : State) (call : Call) : st.Alike (st.counted call) :=
  st.alike_counters _

theorem Store.Alike.symm {s s' : Store} (h : s.Alike s') : s'.Alike s :=
  ⟨h.lists.symm, h.servers.symm, h.nodes.symm, h.policies.symm, h.ruleGroups.symm,
    h.ruleSets.symm⟩

theorem Store.Alike.trans {s s' s'' : Store} (h : s.Alike s') (h' : s'.Alike s'') : s.Alike s'' :=
  ⟨h'.lists.trans h.lists, h'.servers.trans h.servers, h'.nodes.trans h.nodes,
    h'.policies.trans h.policies, h'.ruleGroups.trans h.ruleGroups, h'.ruleSets.trans h.ruleSets⟩

theorem State.Alike.symm {st st' : State} (h : st.Alike st') : st'.Alike st :=
  ⟨h.store.symm, h.isOpen.symm, h.failing.symm, h.now.symm⟩

theorem State.Alike.trans {st st' st'' : State} (h : st.Alike st') (h' : st'.Alike st'') :
    st.Alike st'' :=
  ⟨h.store.trans h'.store, h'.isOpen.trans h.isOpen, h'.failing.trans h.failing,
    h'.now.trans h.now⟩

theorem Table.find?_congr {α : Type} [Identified α] {t t' : Table α} (h : t'.rows = t.rows)
    (id : Int) : t'.find? id = t.find? id := by
  rw [Table.find?, h, Table.find?]

namespace Store.Alike

variable {s s' : Store} (h : s.Alike s')

include h

theorem find?_lists (id : Int) : s'.lists.find? id = s.lists.find? id :=
  Table.find?_congr h.lists id

theorem findList (id : Int) : s'.findList id = s.findList id := by
  rw [Store.findList, h.find?_lists, Store.findList]

theorem findEnabledList (id : Int) : s'.findEnabledList id = s.findEnabledList id := by
  rw [Store.findEnabledList, h.findList, Store.findEnabledList]

theorem tenantLists (userId : Int) (serverIds : List Int) :
    s'.tenantLists userId serverIds = s.tenantLists userId serverIds := by
  rw [Store.tenantLists, h.lists, Store.tenantLists]

theorem findTenantLists (userId : Int) (serverIds : List Int) :
    s'.findTenantLists userId serverIds = s.findTenantLists userId serverIds := by
  rw [Store.findTenantLists, h.tenantLists, Store.findTenantLists]

theorem serversOf (userId : Int) :
    Directory.serversOf s' userId = Directory.serversOf s userId := by
  rw [Directory.serversOf, h.servers, Directory.serversOf]

theorem ownsServer (userId serverId : Int) :
    Directory.ownsServer s' userId serverId = Directory.ownsServer s userId serverId := by
  rw [Directory.ownsServer, Table.find?_congr h.servers, Directory.ownsServer]

theorem policyOfList? (listId : Int) :
    Directory.policyOfList? s' listId = Directory.policyOfList? s listId := by
  rw [Directory.policyOfList?, h.policies, Directory.policyOfList?]

theorem serverName? (id : Int) : Directory.serverName? s' id = Directory.serverName? s id := by
  rw [Directory.serverName?, Table.find?_congr h.servers, Directory.serverName?]

theorem policy? (id : Int) : Directory.policy? s' id = Directory.policy? s id := by
  rw [Directory.policy?, Table.find?_congr h.policies, Directory.policy?]

theorem ruleGroupName? (id : Int) :
    Directory.ruleGroupName? s' id = Directory.ruleGroupName? s id := by
  rw [Directory.ruleGroupName?, Table.find?_congr h.ruleGroups, Directory.ruleGroupName?]

theorem ruleSetName? (id : Int) : Directory.ruleSetName? s' id = Directory.ruleSetName? s id := by
  rw [Directory.ruleSetName?, Table.find?_congr h.ruleSets, Directory.ruleSetName?]

theorem node? (id : Int) : Directory.node? s' id = Directory.node? s id := by
  rw [Directory.node?, Table.find?_congr h.nodes, Directory.node?]

theorem usable_iff (userId listId : Int) :
    s'.Usable userId listId ↔ s.Usable userId listId := by
  rw [Store.Usable, h.lists, h.serversOf, Store.Usable]

theorem owns_iff (userId listId : Int) : s'.Owns userId listId ↔ s.Owns userId listId := by
  rw [Store.Owns, h.lists, h.serversOf, Store.Owns]

theorem scopeOf (tenant : Option Int) : s'.scopeOf tenant = s.scopeOf tenant := by
  cases tenant with
  | none => rfl
  | some userId =>
    rw [Store.scopeOf, Store.ownLists, h.serversOf, h.tenantLists, Store.scopeOf, Store.ownLists]

end Store.Alike

namespace State.Alike

variable {st st' : State} (h : st.Alike st')

include h

theorem lookUp {α : Type} {kind : Lookup} {find : Store → α}
    (hfind : find st'.store = find st.store) :
    st'.lookUp kind find = st.lookUp kind find := by
  unfold State.lookUp State.tables
  rw [h.failing, h.isOpen]
  split
  · rfl
  · split
    · rw [map_eq_pure_bind, map_eq_pure_bind]
      exact congrArg Except.ok hfind
    · rfl

theorem canTell_iff (tenant : Option Int) : st'.CanTell tenant ↔ st.CanTell tenant := by
  simp only [State.CanTell, h.isOpen, h.failing, h.store.serversOf]

theorem nameInfo_serverName (id : Int) :
    Contents.nameInfo st' .serverName Directory.serverName? id =
      Contents.nameInfo st .serverName Directory.serverName? id := by
  unfold Contents.nameInfo Contents.shownName
  rw [h.lookUp (h.store.serverName? id)]

/-- The same names are shown with an item. -/
theorem view (item : Item) : Contents.view st' item = Contents.view st item := by
  have hserver := h.nameInfo_serverName
  have hpolicy : ∀ id, Contents.policyView st' id = Contents.policyView st id := by
    intro id
    unfold Contents.policyView Contents.shownName
    rw [h.lookUp (h.store.policy? id)]
    split
    · rw [h.lookUp (h.store.serverName? _)]
    · rfl
  have hgroup : ∀ id, Contents.nameInfo st' .ruleGroupName Directory.ruleGroupName? id =
      Contents.nameInfo st .ruleGroupName Directory.ruleGroupName? id := by
    intro id
    unfold Contents.nameInfo Contents.shownName
    rw [h.lookUp (h.store.ruleGroupName? id)]
  have hset : ∀ id, Contents.nameInfo st' .ruleSetName Directory.ruleSetName? id =
      Contents.nameInfo st .ruleSetName Directory.ruleSetName? id := by
    intro id
    unfold Contents.nameInfo Contents.shownName
    rw [h.lookUp (h.store.ruleSetName? id)]
  have hnode : ∀ id, Contents.nodeInfo st' id = Contents.nodeInfo st id := by
    intro id
    unfold Contents.nodeInfo
    rw [h.lookUp (h.store.node? id)]
  simp only [Contents.view, funext hserver, funext hpolicy, funext hgroup, funext hset,
    funext hnode]

end State.Alike

/-! ## Steps that give the same -/

/-- The step gives the same in both states. -/
def ServiceM.Same {α : Type} (a : ServiceM α) (st st' : State) : Prop :=
  (outcome a st').1 = (outcome a st).1

namespace ServiceM

variable {α β : Type} {a : ServiceM α} {f : α → ServiceM β} {st st' : State}

theorem same_pure (x : α) : Same (pure x) st st' := rfl

theorem Same.outcome_eq (h : Same a st st') (hlooks : Looks a) {r : Except ServiceError α}
    (ha : outcome a st = (r, st)) : outcome a st' = (r, st') := by
  rw [Same, ha] at h
  exact Prod.ext h (hlooks st')

theorem same_throw (e : ServiceError) : Same (throw e : ServiceM α) st st' := rfl

theorem same_ofExcept (x : Except ServiceError α) : Same (ofExcept x) st st' := by
  rw [Same, outcome_ofExcept, outcome_ofExcept]

theorem Same.map (ha : Same a st st') (g : α → β) : Same (g <$> a) st st' := by
  rw [Same, outcome_map, outcome_map]
  exact congrArg (Except.map g) ha

/-- After a look that gives the same in both states the rest starts there with the same. -/
theorem Same.bind (hlooks : Looks a) (ha : Same a st st')
    (hf : ∀ x, outcome a st = (.ok x, st) → Same (f x) st st') : Same (a >>= f) st st' := by
  have hst := hlooks st
  have hst' := hlooks st'
  unfold Same at ha ⊢
  rw [outcome_bind, outcome_bind]
  rcases houtcome : outcome a st with ⟨e | x, st₁⟩
  all_goals
    rw [houtcome] at hst ha
    dsimp only at hst ha
    subst hst
    rcases houtcome' : outcome a st' with ⟨e' | x', st₁'⟩
    all_goals
      rw [houtcome'] at hst' ha
      dsimp only at hst' ha
      subst hst'
      cases ha
  · rfl
  · exact hf x houtcome

end ServiceM

namespace State.Alike

variable {st st' : State} (h : st.Alike st')

include h

theorem same_query {α : Type} {read : Store → Except StorageError α}
    (hread : read st'.store = read st.store) : Same (query read) st st' := by
  rw [Same, outcome_query, outcome_query, State.tables, State.tables, h.isOpen]
  split
  · exact congrArg (Except.mapError _) hread
  · rfl

theorem same_lookUp {α : Type} {kind : Lookup} {find : Store → α}
    (hfind : find st'.store = find st.store) : Same (ServiceM.lookUp kind find) st st' := by
  rw [Same, outcome_lookUp, outcome_lookUp, h.lookUp hfind]

theorem same_now : Same ServiceM.now st st' := by
  rw [Same, outcome_now, outcome_now, h.now]

theorem same_checkOwner (userId : Int) (list : IpList) :
    Same (Ownership.checkOwner userId list) st st' := by
  unfold Ownership.checkOwner
  split
  · exact same_pure ()
  · split
    · refine Same.bind (looks_lookUp _ _) (h.same_lookUp ?_) fun owned _ => ?_
      · exact h.store.ownsServer _ _
      · split
        · exact same_pure ()
        · exact same_throw _
    · exact same_throw _

theorem same_checkTenantList (userId listId : Int) :
    Same (Ownership.checkTenantList userId listId) st st' := by
  refine Same.bind (looks_query _) (h.same_query (h.store.findEnabledList listId)) fun list _ => ?_
  cases list with
  | none => exact same_throw _
  | some list => exact h.same_checkOwner userId list

theorem same_checkCallerList (caller : Caller) (listId : Int) :
    Same (Ownership.checkCallerList caller listId) st st' := by
  unfold Ownership.checkCallerList
  split
  · exact h.same_checkTenantList _ _
  · exact same_pure ()

theorem same_checkWritable (caller : Caller) (listId : Int) :
    Same (Ownership.checkWritable caller listId) st st' := by
  unfold Ownership.checkWritable
  split
  · exact h.same_checkTenantList _ _
  · have hquery : Same (query (·.findEnabledList listId)) st st' :=
      h.same_query (h.store.findEnabledList listId)
    refine hquery.bind (looks_query _) fun list _ => ?_
    cases list with
    | none => exact same_throw _
    | some list => exact same_pure ()

theorem same_scopeOf (userId : Option Int) : Same (Ownership.scopeOf userId) st st' := by
  cases userId with
  | none => exact same_pure _
  | some userId =>
    refine Same.map (Same.bind (looks_lookUp _ _) (h.same_lookUp ?_) fun serverIds _ => ?_) _
    · exact h.store.serversOf userId
    · exact h.same_query (h.store.findTenantLists userId serverIds)

theorem same_scope (caller : Caller) (q : SearchQuery) : Same (Search.scope caller q) st st' :=
  Same.bind (looks_require _ _) (same_ofExcept _) fun _ _ => h.same_scopeOf _

theorem same_usage (item : Item) : Same (Search.usage item) st st' := by
  refine Same.bind (looks_query _) (h.same_query (h.store.findList item.listId)) fun list _ => ?_
  cases list with
  | none => exact same_pure _
  | some list =>
    dsimp only
    split
    · exact same_pure _
    · split
      · exact same_pure _
      · rw [Same, outcome_bind_of_ok (outcome_get st), outcome_bind_of_ok (outcome_get st'),
          h.lookUp (h.store.policyOfList? list.id)]
        split <;> rfl

end State.Alike

end FirewallLists
