import FirewallLists.Proofs.Service.Outcome
import FirewallLists.Proofs.Store.Lists
import FirewallLists.Rpc.Gate

/-
  What calls do to the state, whoever makes them and however they end. A call on items is a
  sequence of committed writes of items, and between them it only counts and signals
  (`State.WritesItems`); a call on lists writes lists and forgets what it changed
  (`State.Progress`). `Gate.serve_progress` says so of every call that passes the gate.
-/

namespace FirewallLists

open Relation ServiceM

/-! ## Progress -/

/-- Items have been written in committed transactions, and no list has been touched. -/
structure State.WritesItems (st st' : State) : Prop where
  writes : ReflTransGen (Store.ItemWrite st.now) st.store st'.store
  now : st'.now = st.now
  isOpen : st'.isOpen = st.isOpen
  failing : st'.failing = st.failing
  cache : st'.cache = st.cache

/-- The lists that are remembered are as they are stored. -/
def State.Coherent (st : State) : Prop :=
  ∀ entry ∈ st.cache, st.store.findList entry.1 = .ok entry.2

/-- The state but for the lists that are remembered. -/
def State.bare (st : State) : State :=
  { st with cache := [] }

/-- Items and lists have been written in committed transactions, and what is remembered of lists
is still true if it was. -/
structure State.Progress (st st' : State) : Prop where
  writes : ReflTransGen (Store.Write st.now) st.store st'.store
  now : st'.now = st.now
  isOpen : st'.isOpen = st.isOpen
  failing : st'.failing = st.failing
  coherent : st.Coherent → st'.Coherent

instance : Std.Refl State.WritesItems :=
  ⟨fun _ => ⟨.refl, rfl, rfl, rfl, rfl⟩⟩

instance : IsTrans State State.WritesItems :=
  ⟨fun _ _ _ h h' => ⟨h.writes.trans (h.now ▸ h'.writes), h'.now.trans h.now,
    h'.isOpen.trans h.isOpen, h'.failing.trans h.failing, h'.cache.trans h.cache⟩⟩

instance : Std.Refl State.Progress :=
  ⟨fun _ => ⟨.refl, rfl, rfl, rfl, id⟩⟩

instance : IsTrans State State.Progress :=
  ⟨fun _ _ _ h h' => ⟨h.writes.trans (h.now ▸ h'.writes), h'.now.trans h.now,
    h'.isOpen.trans h.isOpen, h'.failing.trans h.failing, h'.coherent ∘ h.coherent⟩⟩

theorem Store.lists_of_itemWrites {now : Int} {s s' : Store}
    (h : ReflTransGen (Store.ItemWrite now) s s') : s'.lists = s.lists := by
  induction h with
  | refl => rfl
  | tail _ hwrite ih => exact hwrite.lists.trans ih

theorem State.WritesItems.progress {st st' : State} (h : st.WritesItems st') :
    st.Progress st' where
  writes := ReflTransGen.mono (fun _ _ hw => .items hw) _ _ h.writes
  now := h.now
  isOpen := h.isOpen
  failing := h.failing
  coherent := by
    intro hcoherent entry hentry
    rw [h.cache] at hentry
    rw [Store.findList_congr (Store.lists_of_itemWrites h.writes)]
    exact hcoherent entry hentry

/-! ## Steps that only look -/

namespace Ownership

theorem looks_checkOwner (userId : Int) (list : IpList) : Looks (checkOwner userId list) := by
  unfold checkOwner
  split
  · exact looks_pure ()
  · split
    · refine (looks_lookUp _ _).bind fun owned => ?_
      split
      · exact looks_pure ()
      · exact looks_throw _
    · exact looks_throw _

theorem looks_checkTenantList (userId listId : Int) : Looks (checkTenantList userId listId) := by
  refine (looks_query _).bind fun list => ?_
  split
  · exact looks_checkOwner _ _
  · exact looks_throw _

theorem looks_checkWritable (caller : Caller) (listId : Int) :
    Looks (checkWritable caller listId) := by
  unfold checkWritable
  split
  · exact looks_checkTenantList _ _
  · refine (looks_query _).bind fun list => ?_
    split
    · exact looks_pure ()
    · exact looks_throw _

theorem looks_checkCallerList (caller : Caller) (listId : Int) :
    Looks (checkCallerList caller listId) := by
  unfold checkCallerList
  split
  · exact looks_checkTenantList _ _
  · exact looks_pure ()

theorem looks_scopeOf (userId : Option Int) : Looks (scopeOf userId) := by
  cases userId with
  | none => exact looks_pure _
  | some userId => exact ((looks_lookUp _ _).bind fun _ => looks_query _).map _

/-- A list that may be written to is switched on. -/
theorem checkWritable_eq_ok {caller : Caller} {listId : Int} {st st' : State}
    (h : outcome (checkWritable caller listId) st = (.ok (), st')) :
    ∃ list, st.store.findEnabledList listId = .ok (some list) := by
  unfold checkWritable at h
  split at h
  -- for a tenant and for others alike the list is looked up first
  all_goals
    obtain ⟨list, -, hlist, h⟩ := outcome_query_bind_eq_ok.mp h
    cases list with
    | none => cases h
    | some list => exact ⟨list, hlist⟩

end Ownership

/-! ## Calls on items -/

/-- What a draft has to be like to be normal, and the item that is written for it. -/
theorem ItemDraft.normalize_eq_ok {d : ItemDraft} {item : NewItem} : d.normalize = .ok item ↔
    ∃ requested range, 0 < d.listId ∧ 0 ≤ d.expiredAt ∧ d.requestedType = .ok requested ∧
      d.writtenRange requested = .ok range ∧
      item = ⟨d.listId, range, d.expiredAt, d.reason, d.eventLevel, max d.nodeId 0,
        max d.serverId 0, d.source.normalized⟩ := by
  unfold ItemDraft.normalize
  dsimp only
  constructor
  · intro h
    split at h
    · cases h
    · split at h
      · cases h
      · obtain ⟨requested, hrequested, h⟩ := bind_eq_ok.mp h
        obtain ⟨range, hrange, h⟩ := bind_eq_ok.mp h
        cases h
        exact ⟨requested, range, by omega, by omega, hrequested, hrange, rfl⟩
  · rintro ⟨requested, range, hlist, htime, hrequested, hrange, rfl⟩
    rw [if_neg (by omega), if_neg (by omega)]
    exact bind_eq_ok.mpr ⟨requested, hrequested, bind_eq_ok.mpr ⟨range, hrange, rfl⟩⟩

namespace Items

theorem looks_prepare (caller : Caller) (draft : ItemDraft) : Looks (prepare caller draft) :=
  (looks_ofExcept _).bind fun _ =>
    (Ownership.looks_checkWritable _ _).bind fun _ => looks_pure _

/-- An item that is ready to be written is normal, and its list is switched on. -/
theorem prepare_eq_ok {caller : Caller} {draft : ItemDraft} {item : NewItem} {st st' : State}
    (h : outcome (prepare caller draft) st = (.ok item, st')) :
    draft.normalize = .ok item ∧
      ∃ list, st.store.findEnabledList item.listId = .ok (some list) := by
  obtain ⟨_, st₁, hnormal, h⟩ := outcome_bind_eq_ok.mp h
  rw [outcome_ofExcept, Prod.mk.injEq] at hnormal
  obtain ⟨hnormal, rfl⟩ := hnormal
  obtain ⟨_, st₂, hlist, h⟩ := outcome_bind_eq_ok.mp h
  cases h
  exact ⟨hnormal, Ownership.checkWritable_eq_ok hlist⟩

theorem looks_listOf (itemId : Int) : Looks (listOf itemId) := by
  refine (looks_query _).bind fun listId => ?_
  split
  · exact looks_pure _
  · exact looks_throw _

theorem listOf_eq_ok {itemId listId : Int} {st st' : State}
    (h : outcome (listOf itemId) st = (.ok listId, st')) :
    st.store.itemListId? itemId = some listId := by
  obtain ⟨found, -, hfound, h⟩ := outcome_query_bind_eq_ok.mp h
  cases found with
  | none => cases h
  | some id => cases h; exact Except.ok.inj hfound

/-- Counting and signalling write nothing. -/
theorem writesItems_of_store {st : State} (channel : Channel) (counters : Counters) :
    st.WritesItems { st with channel, counters } :=
  ⟨.refl, rfl, rfl, rfl, rfl⟩

theorem leads_count (sample : Sample) (n : Nat) (st : State) :
    Leads State.WritesItems (count sample n) st :=
  writesItems_of_store _ _

theorem leads_signal (change : Change) (st : State) : Leads State.WritesItems (signal change) st :=
  writesItems_of_store _ _

theorem leads_signalLast (last : Option Change) (st : State) :
    Leads State.WritesItems (signalLast last) st := by
  cases last with
  | none => exact leads_pure () st
  | some change => exact leads_signal change st

/-- One committed write of items. -/
theorem writesItems_of_write {st : State} {s : Store} (h : Store.ItemWrite st.now st.store s) :
    st.WritesItems { st with store := s } :=
  ⟨.single h, rfl, rfl, rfl, rfl⟩

/-- What one write of an item commits, counts and gives. -/
theorem outcome_store (item : NewItem) (st : State) :
    outcome (store item) st = match st.tables >>= (·.createItem item item.startsRead st.now) with
      | .ok (written, s) => (.ok written, { st with
          store := s
          counters := (st.counters.add (.itemsWritten .create) 1).add (.itemsWritten .replace)
            written.replaced.length })
      | .error e => (.error (.storage e), st) := by
  simp only [store, outcome_bind, outcome_now, outcome_transact]
  rcases st.tables >>= (·.createItem item item.startsRead st.now) with e | ⟨written, s⟩ <;> rfl

/-- A write that fails ends the batch; what was written before it is signalled nevertheless. -/
theorem outcome_storeAll_cons (item : NewItem) (items : List NewItem) (last : Option Change)
    (st : State) :
    outcome (storeAll (item :: items) last) st = match outcome (store item) st with
      | (.ok written, st') =>
        outcome ((written.itemId :: ·) <$>
          storeAll items (some ⟨written.itemId, item.listId, written.version⟩)) st'
      | (.error e, st') => (.error e, (outcome (signalLast last) st').2) := by
  rw [storeAll, outcome_bind, outcome_attempt]
  rcases outcome (store item) st with ⟨e | written, st'⟩
  · cases last <;> rfl
  · dsimp only
    rw [map_eq_pure_bind]

theorem leads_store {draft : ItemDraft} {item : NewItem} {list : IpList} {st : State}
    (normal : draft.normalize = .ok item)
    (listed : st.store.findEnabledList item.listId = .ok (some list)) :
    Leads State.WritesItems (store item) st := by
  refine looks_now.bind_leads fun time htime => ?_
  rw [outcome_now, Prod.mk.injEq, Except.ok.injEq] at htime
  obtain ⟨rfl, -⟩ := htime
  refine Leads.bind (leads_transact fun written s hrun => ?_) fun written st' _ => ?_
  · exact writesItems_of_write (.create normal listed hrun)
  · refine Leads.bind (leads_count _ _ _) fun _ _ _ => ?_
    exact Leads.bind (leads_count _ _ _) fun _ st' _ => leads_pure _ st'

theorem leads_create (caller : Caller) (draft : ItemDraft) (st : State) :
    Leads State.WritesItems (create caller draft) st := by
  refine (looks_require _ _).bind_leads fun _ _ => ?_
  refine (looks_prepare _ _).bind_leads fun item hitem => ?_
  obtain ⟨normal, list, listed⟩ := prepare_eq_ok hitem
  refine Leads.bind (leads_store normal listed) fun written _ _ => ?_
  exact Leads.bind (leads_signal _ _) fun _ st' _ => leads_pure _ st'

theorem leads_storeAll {items : List NewItem} {st : State}
    (hitems : ∀ item ∈ items, (∃ draft : ItemDraft, draft.normalize = .ok item) ∧
      ∃ list, st.store.findEnabledList item.listId = .ok (some list))
    (last : Option Change) : Leads State.WritesItems (storeAll items last) st := by
  induction items generalizing st last with
  | nil => exact Leads.bind (leads_signalLast last st) fun _ st' _ => leads_pure _ st'
  | cons item items ih =>
    obtain ⟨⟨draft, normal⟩, list, listed⟩ := hitems item List.mem_cons_self
    have hstore := leads_store normal listed
    refine Leads.bind hstore.attempt fun result st' hresult => ?_
    cases result with
    | error e => exact Leads.bind (leads_signalLast last st') fun _ st' _ => leads_throw e st'
    | ok written =>
      refine Leads.bind (ih ?_ _) fun _ st' _ => leads_pure _ st'
      -- no list was touched, so the lists of the others are still switched on
      intro other hother
      obtain ⟨hnormal, list, hlist⟩ := hitems other (List.mem_cons_of_mem _ hother)
      refine ⟨hnormal, list, ?_⟩
      have hlists : st'.store.lists = st.store.lists := by
        have h := Store.lists_of_itemWrites hstore.writes
        rw [outcome_attempt, Prod.mk.injEq] at hresult
        rw [← hresult.2]
        exact h
      rw [Store.findEnabledList_congr hlists]
      exact hlist

theorem leads_createAll (caller : Caller) (drafts : List ItemDraft) (st : State) :
    Leads State.WritesItems (createAll caller drafts) st := by
  refine (looks_require _ _).bind_leads fun _ _ => ?_
  refine (looks_mapM (looks_prepare caller) drafts).bind_leads fun items hitems => ?_
  apply leads_storeAll
  intro item hitem
  obtain ⟨draft, -, hprepare⟩ := exists_of_mapM_eq_ok (looks_prepare caller) hitems hitem
  obtain ⟨normal, listed⟩ := prepare_eq_ok hprepare
  exact ⟨⟨draft, normal⟩, listed⟩

theorem leads_update (caller : Caller) (itemId : Int) (draft : ItemDraft) (st : State) :
    Leads State.WritesItems (update caller itemId draft) st := by
  refine (looks_require _ _).bind_leads fun _ _ => ?_
  refine (looks_listOf _).bind_leads fun listId hlist => ?_
  refine (Ownership.looks_checkCallerList _ _).bind_leads fun _ _ => ?_
  refine (looks_ofExcept _).bind_leads fun item hitem => ?_
  rw [outcome_ofExcept, Prod.mk.injEq] at hitem
  have hstays : st.store.itemListId? itemId = some item.listId := by
    obtain ⟨_, _, -, -, -, -, rfl⟩ := ItemDraft.normalize_eq_ok.mp hitem.1
    exact listOf_eq_ok hlist
  refine Leads.bind (leads_transact? fun written s hrun => ?_) fun written st' _ => ?_
  · exact writesItems_of_write (.update hitem.1 hstays hrun)
  · cases written with
    | none => exact leads_throw _ _
    | some written =>
      refine Leads.bind (leads_count _ _ _) fun _ _ _ => ?_
      exact Leads.bind (leads_count _ _ _) fun _ st' _ => leads_signal _ st'

theorem leads_disable (itemId : Int) (st : State) :
    Leads State.WritesItems (transact? (·.disableItem itemId)) st :=
  leads_transact? fun _ _ hrun => writesItems_of_write (.disable hrun)

theorem leads_deleteOne (caller : Caller) (itemId : Int) (st : State) :
    Leads State.WritesItems (deleteOne caller itemId) st := by
  refine (looks_listOf _).bind_leads fun listId _ => ?_
  refine (Ownership.looks_checkCallerList _ _).bind_leads fun _ _ => ?_
  refine Leads.bind (leads_disable _ _) fun retired st' _ => ?_
  cases retired with
  | none => exact leads_throw _ _
  | some retired =>
    refine Leads.bind (leads_count _ _ _) fun _ _ _ => ?_
    exact Leads.bind (leads_signal _ _) fun _ st' _ => leads_pure _ st'

theorem looks_deleteScope (caller : Caller) (listId : Int) : Looks (deleteScope caller listId) := by
  unfold deleteScope
  split
  · exact (Ownership.looks_checkCallerList _ _).bind fun _ => looks_pure _
  · exact Ownership.looks_scopeOf _

theorem leads_deleteBounds (caller : Caller) (range : Net.Range) (listId : Int) (st : State) :
    Leads State.WritesItems (deleteBounds caller range listId) st := by
  refine (looks_deleteScope _ _).bind_leads fun scope _ => ?_
  refine Leads.bind (leads_transact? fun retired s hrun => ?_) fun retired st' _ => ?_
  · obtain ⟨hfound, hmatching⟩ := Store.disableMatching_of_some hrun
    exact writesItems_of_write (.disableMatching hfound hmatching)
  · refine Leads.bind (leads_count _ _ _) fun _ _ _ => ?_
    exact Leads.bind (leads_signalLast _ _) fun _ st' _ => leads_pure _ st'

theorem leads_delete (caller : Caller) (request : DeleteRequest) (st : State) :
    Leads State.WritesItems (delete caller request) st := by
  refine (looks_ofExcept _).bind_leads fun target _ => ?_
  refine (looks_require _ _).bind_leads fun _ _ => ?_
  cases target with
  | item id => exact leads_deleteOne caller id st
  | value text =>
    exact (looks_ofExcept _).bind_leads fun range _ => leads_deleteBounds caller range _ st
  | bounds lower upper =>
    exact (looks_ofExcept _).bind_leads fun range _ => leads_deleteBounds caller range _ st

theorem looks_deletable (caller : Caller) (ids : List Int) : Looks (deletable caller ids) := by
  induction ids with
  | nil => exact looks_pure []
  | cons id ids ih =>
    refine (looks_query _).bind fun listId => ?_
    cases listId with
    | none => exact ih
    | some listId =>
      exact (Ownership.looks_checkCallerList _ _).bind fun _ => ih.bind fun _ => looks_pure _

theorem leads_disableAll (ids : List Int) (st : State) :
    Leads State.WritesItems (disableAll ids) st := by
  induction ids generalizing st with
  | nil => exact leads_pure [] st
  | cons id ids ih =>
    refine Leads.bind (leads_disable id st) fun retired st' _ => ?_
    cases retired with
    | none => exact ih st'
    | some retired => exact Leads.bind (ih st') fun _ st' _ => leads_pure _ st'

theorem leads_deleteAll (caller : Caller) (ids : List Int) (st : State) :
    Leads State.WritesItems (deleteAll caller ids) st := by
  refine (looks_require _ _).bind_leads fun _ _ => ?_
  refine (looks_deletable _ _).bind_leads fun ids _ => ?_
  refine Leads.bind (leads_disableAll ids st) fun retired _ _ => ?_
  refine Leads.bind (leads_count _ _ _) fun _ _ _ => ?_
  exact Leads.bind (leads_signalLast _ _) fun _ st' _ => leads_pure _ st'

theorem leads_markRead (caller : Caller) (st : State) :
    Leads State.WritesItems (markRead caller) st := by
  refine (looks_require _ _).bind_leads fun _ _ => ?_
  refine (Ownership.looks_scopeOf _).bind_leads fun scope _ => ?_
  refine leads_transact fun n s hrun => ?_
  cases Store.acknowledge_eq_ok hrun
  exact writesItems_of_write (.markRead scope)

end Items

end FirewallLists
