import FirewallLists.Proofs.Service.Progress
import FirewallLists.Proofs.Service.Reply

/-
  Every call of the services makes progress (`Gate.serve_progress`): the searches and look-ups by
  writing items or nothing, a pull by remembering lists as they are stored, and the calls on lists
  by forgetting every list that they change.
-/

namespace FirewallLists

open Relation ServiceM Ownership

/-! ## Looking into lists -/

namespace Contents

theorem looks_check (caller : Caller) (listId : Int) (address : String) :
    Looks (check caller listId address) := by
  refine (looks_require _ _).bind fun _ => ?_
  split
  · refine (looks_query _).bind fun list => ?_
    split
    · refine looks_now.bind fun time => (looks_query _).bind fun item => ?_
      split <;> exact looks_pure _
    · exact looks_pure _
  · exact looks_pure _

theorem looks_find (caller : Caller) (itemId : Int) : Looks (find caller itemId) := by
  refine (looks_require _ _).bind fun _ => looks_now.bind fun time => ?_
  refine (looks_query _).bind fun item => ?_
  split
  · exact (looks_checkCallerList _ _).bind fun _ => looks_pure _
  · exact looks_pure _

theorem looks_exist (caller : Caller) (itemId : Int) : Looks (exist caller itemId) :=
  (looks_require _ _).bind fun _ => looks_now.bind fun _ => looks_query _

theorem looks_countInList (caller : Caller) (filter : ListFilter) :
    Looks (countInList caller filter) :=
  (looks_require _ _).bind fun _ =>
    (looks_checkCallerList _ _).bind fun _ => looks_now.bind fun _ => looks_query _

theorem looks_listInList (cfg : Settings) (caller : Caller) (filter : ListFilter)
    (offset size : Int) : Looks (listInList cfg caller filter offset size) :=
  (looks_require _ _).bind fun _ => (looks_checkCallerList _ _).bind fun _ =>
    looks_now.bind fun _ => (looks_query _).bind fun _ => looks_get.bind fun _ => looks_pure _

theorem looks_findServer (caller : Caller) (itemId : Int) : Looks (findServer caller itemId) := by
  refine (looks_require _ _).bind fun _ => (looks_query _).bind fun listId => ?_
  split
  · refine (looks_query _).bind fun list => ?_
    split
    · dsimp only
      split
      · refine (looks_lookUp _ _).bind fun owned => ?_
        split
        · exact looks_pure _
        · exact (looks_throw _).bind fun _ => looks_pure _
      · exact looks_pure _
    · exact looks_pure _
  · exact looks_throw _

end Contents

/-! ## Searching -/

namespace Search

theorem looks_scope (caller : Caller) (q : SearchQuery) : Looks (scope caller q) :=
  (looks_require _ _).bind fun _ => looks_scopeOf _

theorem looks_countAll (caller : Caller) (q : SearchQuery) : Looks (countAll caller q) :=
  (looks_ofExcept _).bind fun _ => (looks_scope _ _).bind fun _ =>
    looks_now.bind fun _ => looks_query _

theorem looks_ids (cfg : Settings) (caller : Caller) (q : SearchQuery) (offset size : Int) :
    Looks (ids cfg caller q offset size) :=
  (looks_ofExcept _).bind fun _ => (looks_scope _ _).bind fun _ =>
    looks_now.bind fun _ => looks_query _

theorem looks_usage (item : Item) : Looks (usage item) := by
  refine (looks_query _).bind fun list => ?_
  split
  · exact looks_pure _
  · split
    · exact looks_pure _
    · split
      · exact looks_pure _
      · refine looks_get.bind fun st => ?_
        split <;> exact looks_pure _

theorem leads_disableOrphan (item : Item) (st : State) :
    Leads State.WritesItems (disableOrphan item) st := by
  refine Leads.bind (Items.leads_disable _ _) fun retired st' _ => ?_
  cases retired with
  | none => exact leads_pure _ _
  | some retired =>
    exact Leads.bind (Items.leads_count _ _ _) fun _ st' _ => Items.leads_signal _ st'

theorem leads_sift (items : List Item) (st : State) :
    Leads State.WritesItems (sift items) st := by
  induction items generalizing st with
  | nil => exact leads_pure [] st
  | cons item items ih =>
    refine (looks_usage item).bind_leads fun usage _ => ?_
    cases usage with
    | orphaned => exact Leads.bind (leads_disableOrphan item st) fun _ st' _ => ih st'
    | used list policy =>
      refine looks_get.bind_leads fun _ _ => ?_
      exact Leads.bind (ih st) fun _ st' _ => leads_pure _ st'

theorem leads_items (cfg : Settings) (caller : Caller) (q : SearchQuery) (offset size : Int)
    (st : State) : Leads State.WritesItems (items cfg caller q offset size) st := by
  refine (looks_ofExcept _).bind_leads fun _ _ => ?_
  refine (looks_scope _ _).bind_leads fun _ _ => ?_
  refine looks_now.bind_leads fun _ _ => ?_
  exact (looks_query _).bind_leads fun _ _ => leads_sift _ st

end Search

/-! ## Remembering lists -/

namespace Lists

/-- Remembering a list as it is stored keeps all that is remembered true. -/
theorem leads_remember {id : Int} {list : Option IpList} {st : State}
    (h : st.store.findList id = .ok list) : Leads State.Progress (remember id list) st := by
  refine leads_modify ⟨.refl, rfl, rfl, rfl, fun hcoherent entry hentry => ?_⟩
  rcases List.mem_cons.mp hentry with rfl | hentry
  · exact h
  · exact hcoherent entry (List.mem_of_mem_filter hentry)

theorem leads_findRemembered (cfg : Settings) (id : Int) (st : State) :
    Leads State.Progress (findRemembered cfg id) st := by
  unfold findRemembered
  split
  · refine looks_get.bind_leads fun _ _ => ?_
    split
    · exact leads_pure _ st
    · refine (looks_query _).bind_leads fun list hlist => ?_
      obtain ⟨-, -, hfind⟩ := outcome_query_eq_ok.mp hlist
      exact Leads.bind (leads_remember hfind) fun _ st' _ => leads_pure _ st'
  · exact (looks_query _).leads st

/-! ### Forgetting lists that have changed -/

theorem progress_of_listWrite {st : State} {s : Store} {cache : List (Int × Option IpList)}
    (h : Store.ListWrite st.now st.store s)
    (hcache : ∀ entry ∈ cache, entry ∈ st.cache ∧
      s.findList entry.1 = st.store.findList entry.1) :
    st.Progress { st with store := s, cache := cache } where
  writes := .single (.lists h)
  now := rfl
  isOpen := rfl
  failing := rfl
  coherent := by
    intro hcoherent entry hentry
    obtain ⟨hmem, hsame⟩ := hcache entry hentry
    rw [← hcoherent entry hmem]
    exact hsame

theorem disableList_of_switchOff {s s' : Store} {id : Int} {x : Unit}
    (h : switchOff s id = (some x, s')) : s.disableList id = some s' := by
  unfold switchOff at h
  split at h
  · next hdisable => cases h; exact hdisable
  · cases h

theorem outcome_forget (id : Int) (st : State) :
    outcome (forget id) st = (.ok (), { st with cache := st.cache.filter (·.1 != id) }) := rfl

/-- After lists have been forgotten what is remembered is of others. -/
theorem outcome_forgetAll (ids : List Int) (st : State) :
    ∃ cache, outcome (ids.forM forget) st = (.ok (), { st with cache }) ∧
      ∀ entry ∈ cache, entry ∈ st.cache ∧ entry.1 ∉ ids := by
  induction ids generalizing st with
  | nil => exact ⟨st.cache, rfl, fun _ h => ⟨h, List.not_mem_nil⟩⟩
  | cons id ids ih =>
    obtain ⟨cache, hout, hcache⟩ := ih { st with cache := st.cache.filter (·.1 != id) }
    refine ⟨cache, ?_, fun entry hentry => ?_⟩
    · show outcome (forget id >>= fun _ => ids.forM forget) st = _
      rw [outcome_bind, outcome_forget]
      exact hout
    · obtain ⟨hmem, hnot⟩ := hcache entry hentry
      obtain ⟨hmem, hne⟩ := List.mem_filter.mp hmem
      have hne : entry.1 ≠ id := by simpa using hne
      exact ⟨hmem, by simp [hne, hnot]⟩

theorem leads_create (caller : Caller) (list : NewList) (st : State) :
    Leads State.Progress (create caller list) st := by
  refine (looks_require _ _).bind_leads fun _ _ => ?_
  dsimp only
  split
  · exact (looks_throw _).bind_leads fun _ h => by cases h
  · next howned =>
    refine looks_now.bind_leads fun time htime => ?_
    rw [outcome_now, Prod.mk.injEq, Except.ok.injEq] at htime
    obtain ⟨rfl, -⟩ := htime
    refine leads_transact_bind fun id s hrun => ?_
    refine progress_of_listWrite (.create ?_ hrun) fun entry hentry => ?_
    · cases hpublic : list.isPublic <;> simp_all
    · obtain ⟨hmem, hne⟩ := List.mem_filter.mp hentry
      exact ⟨hmem, Store.findList_createList_of_ne hrun (by simpa using hne)⟩

theorem leads_delete (caller : Caller) (id : Int) (st : State) :
    Leads State.Progress (delete caller id) st := by
  refine (looks_require _ _).bind_leads fun _ _ => ?_
  refine leads_transact?_bind ?_ fun _ s hrun => ?_
  · refine ⟨.refl, rfl, rfl, rfl, fun hcoherent entry hentry => ?_⟩
    exact hcoherent entry (List.mem_of_mem_filter hentry)
  · have hdisable := disableList_of_switchOff (Except.ok.inj hrun)
    refine progress_of_listWrite (.disable hdisable) fun entry hentry => ?_
    obtain ⟨hmem, hne⟩ := List.mem_filter.mp hentry
    exact ⟨hmem, Store.findList_disableList_of_ne hdisable (by simpa using hne)⟩

theorem leads_deleteOfServer (caller : Caller) (serverId : Int) (st : State) :
    Leads State.Progress (deleteOfServer caller serverId) st := by
  refine (looks_require _ _).bind_leads fun _ _ => ?_
  dsimp only
  split
  · exact (looks_throw _).bind_leads fun _ h => by cases h
  · refine leads_transact_bind fun ids s hrun => ?_
    obtain ⟨cache, hforget, hcache⟩ := outcome_forgetAll ids { st with store := s }
    rw [outcome_bind, hforget]
    cases hrun
    refine progress_of_listWrite (.disableOfServer serverId) fun entry hentry => ?_
    obtain ⟨hmem, hnot⟩ := hcache entry hentry
    exact ⟨hmem, Store.findList_disableServerLists_of_not_mem hnot⟩

theorem looks_find (caller : Caller) (id : Int) : Looks (find caller id) := by
  refine (looks_require _ _).bind fun _ => (looks_query _).bind fun list => ?_
  split
  · exact (looks_checkOwner _ _).bind fun _ => looks_pure _
  · exact looks_pure _

theorem looks_findServer (caller : Caller) (id : Int) : Looks (findServer caller id) := by
  refine (looks_require _ _).bind fun _ => ?_
  split
  · exact (looks_checkTenantList _ _).bind fun _ => looks_query _
  · exact looks_query _

end Lists

namespace Pull

theorem leads_projectAll (cfg : Settings) (time : Int) (items : List Item) (st : State) :
    Leads State.Progress (projectAll cfg time items) st := by
  induction items generalizing st with
  | nil => exact leads_pure [] st
  | cons item items ih =>
    refine Leads.bind ?_ fun list st' _ => Leads.bind (ih st') fun _ st' _ => leads_pure _ st'
    refine Leads.bind (Lists.leads_findRemembered cfg item.listId st).attempt fun list st' _ => ?_
    split <;> exact leads_pure _ _

theorem leads_itemsAfter (cfg : Settings) (caller : Caller) (version size : Int) (st : State) :
    Leads State.Progress (itemsAfter cfg caller version size) st := by
  refine (looks_require _ _).bind_leads fun _ _ => ?_
  refine (looks_query _).bind_leads fun items _ => ?_
  refine looks_now.bind_leads fun time _ => ?_
  refine Leads.bind (leads_projectAll cfg time items st) fun seen st' _ => ?_
  refine Leads.bind ?_ fun _ st' _ => leads_pure _ st'
  exact (Items.leads_count _ _ _).mono fun _ h => h.progress

end Pull

/-! ## All calls -/

theorem Call.leads_run (cfg : Settings) (caller : Caller) (call : Call) (st : State) :
    Leads State.Progress (call.run cfg caller) st := by
  have writes : ∀ {α : Type} {a : ServiceM α} (f : α → Reply),
      Leads State.WritesItems a st → Leads State.Progress (f <$> a) st :=
    fun f h => (h.mono fun _ h => h.progress).map f
  have looks : ∀ {α : Type} {a : ServiceM α} (f : α → Reply),
      Looks a → Leads State.Progress (f <$> a) st :=
    fun f h => (h.leads st).map f
  cases call with
  | createItem draft => exact writes _ (Items.leads_create caller draft st)
  | createItems drafts => exact writes _ (Items.leads_createAll caller drafts st)
  | updateItem itemId draft =>
    refine Leads.bind ?_ fun _ st' _ => leads_pure _ st'
    exact (Items.leads_update caller itemId draft st).mono fun _ h => h.progress
  | deleteItem request => exact writes _ (Items.leads_delete caller request st)
  | deleteItems itemIds => exact writes _ (Items.leads_deleteAll caller itemIds st)
  | pullItems version size => exact (Pull.leads_itemsAfter cfg caller version size st).map _
  | checkStatus listId address => exact looks _ (Contents.looks_check caller listId address)
  | findItem itemId => exact looks _ (Contents.looks_find caller itemId)
  | existsItem itemId => exact looks _ (Contents.looks_exist caller itemId)
  | countInList filter => exact looks _ (Contents.looks_countInList caller filter)
  | listInList filter offset size =>
    exact looks _ (Contents.looks_listInList cfg caller filter offset size)
  | countAll query => exact looks _ (Search.looks_countAll caller query)
  | searchAll query offset size =>
    exact writes _ (Search.leads_items cfg caller query offset size st)
  | searchIds query offset size => exact looks _ (Search.looks_ids cfg caller query offset size)
  | markRead => exact writes _ (Items.leads_markRead caller st)
  | findItemServer itemId => exact looks _ (Contents.looks_findServer caller itemId)
  | createList list => exact (Lists.leads_create caller list st).map _
  | findList listId => exact looks _ (Lists.looks_find caller listId)
  | deleteList listId =>
    exact Leads.bind (Lists.leads_delete caller listId st) fun _ st' _ => leads_pure _ st'
  | deleteServerLists serverId => exact (Lists.leads_deleteOfServer caller serverId st).map _
  | findListServer listId => exact looks _ (Lists.looks_findServer caller listId)

/-- Whoever calls and whatever comes of it, a call makes progress. -/
theorem Gate.serve_progress (gate : Gate) (token : Option String) (call : Call) (st : State) :
    st.Progress (outcome (gate.serve token call) st).2 := by
  have hcount : ∀ sample n st, Leads State.Progress (count sample n) st :=
    fun sample n st => (Items.leads_count sample n st).mono fun _ h => h.progress
  exact leads_serve (hcount _ _ st) (fun st' _ => hcount _ _ st') fun caller _ =>
    Call.leads_run gate.settings caller call _

end FirewallLists
