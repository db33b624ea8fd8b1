import FirewallLists.Proofs.Service.Poll
import FirewallLists.Proofs.Service.Run
import FirewallLists.Proofs.Store.Query
import FirewallLists.Proofs.Tenant.Usable

/-
  What a tenant writes stays in lists that the tenant may use. A write is confined to some lists
  when the items of all others are as they were, and all lists too (`Store.Confined`).
  Every transaction that switches items off, adds or revises one is confined to the lists of the
  items that it was asked to write. A tenant's call only asks for items of lists that it has
  checked, or that a search of the tenant's own lists has met.
-/

namespace FirewallLists

open ServiceM

/-! ## Confined writes -/

/-- Items have only been written in lists with the property, and lists not at all. -/
structure Store.Confined (p : Int → Prop) (s s' : Store) : Prop where
  others : ∀ r : ItemRow, ¬p r.listId → (r ∈ s'.items.rows ↔ r ∈ s.items.rows)
  lists : s'.lists = s.lists
  ordered : s.Ordered → s'.Ordered

namespace Store

variable {p : Int → Prop} {s s' s'' : Store} {now : Int} {item : NewItem}

theorem Confined.refl (s : Store) : Confined p s s :=
  ⟨fun _ _ => .rfl, rfl, id⟩

theorem Confined.trans (h : Confined p s s') (h' : Confined p s' s'') : Confined p s s'' :=
  ⟨fun r hr => (h'.others r hr).trans (h.others r hr), h'.lists.trans h.lists,
    h'.ordered ∘ h.ordered⟩

/-- Where the item with an id is in a list with the property, it stays in one. -/
theorem Confined.stays (h : Confined p s s') {id : Int}
    (hid : ∀ r ∈ s.items.rows, r.id = id → p r.listId) :
    ∀ r ∈ s'.items.rows, r.id = id → p r.listId := by
  intro r hr hrid
  by_contra hnot
  exact hnot (hid r ((h.others r hnot).mp hr) hrid)

/-- An edit of one row is confined to its list. -/
theorem Touches.confined {row : ItemRow} (h : Touches row s s') (hrow : p row.listId)
    (hlists : s'.lists = s.lists) (hordered : s.Ordered → s'.Ordered) : Confined p s s' where
  others := by
    intro r hr
    have hne : r ≠ row := fun heq => hr (heq ▸ hrow)
    rw [h.mem_iff]
    constructor
    · rintro (rfl | ⟨hmem, -⟩)
      · exact absurd rfl hne
      · exact hmem
    · intro hmem
      exact Or.inr ⟨hmem, fun hid => hr (h.stays r hmem hid ▸ hrow)⟩
  lists := hlists
  ordered := hordered

theorem confined_renew (hs : s.Ordered) {row : ItemRow} (h : Touches row s (s.renew row))
    (hrow : p row.listId) : Confined p s (s.renew row) :=
  h.confined hrow rfl fun _ => ⟨hs.items.replace _, hs.lists⟩

/-- A row that is switched off among others has been one of them, and stays in its list. -/
theorem exists_of_afterRetiring {rows : List ItemRow} {r : ItemRow} {v : Int}
    (h : r.id ∈ rows.map (·.id)) : ∃ q ∈ rows, (r.afterRetiring rows v).listId = q.listId := by
  induction rows generalizing v with
  | nil => cases h
  | cons q rows ih =>
    rw [ItemRow.afterRetiring]
    split
    · exact ⟨q, List.mem_cons_self, rfl⟩
    · next hne =>
      rw [List.map_cons, List.mem_cons] at h
      obtain ⟨q', hq', hlist⟩ := ih (v := v + 1) (h.resolve_left hne)
      exact ⟨q', List.mem_cons_of_mem _ hq', hlist⟩

/-- Switching items off is confined to their lists. -/
theorem confined_afterRetiring (hs : s.Ordered) {rows : List ItemRow}
    (hrows : ∀ r ∈ rows, r ∈ s.items.rows ∧ p r.listId) : Confined p s (s.afterRetiring rows) where
  others := by
    intro r hr
    constructor
    · intro hmem
      obtain ⟨q, hq, rfl⟩ := List.mem_map.mp hmem
      by_cases hid : q.id ∈ rows.map (·.id)
      · obtain ⟨q', hq', hlist⟩ := exists_of_afterRetiring (v := s.sequence) hid
        exact absurd (hlist ▸ (hrows q' hq').2) hr
      · rw [ItemRow.afterRetiring_of_not_mem hid]
        exact hq
    · intro hmem
      refine mem_afterRetiring_of_not_mem hmem fun hid => ?_
      obtain ⟨q, hq, hqid⟩ := List.mem_map.mp hid
      obtain ⟨hq', hlist⟩ := hrows q hq
      exact hr (hs.items.eq_of_id hq' hmem hqid ▸ hlist)
  lists := rfl
  ordered := fun _ => hs.afterRetiring rows

theorem confined_overlapping (hs : s.Ordered) (hitem : p item.listId) (exclude : Int) :
    Confined p s (s.afterRetiring (s.overlapping item exclude)) := by
  refine confined_afterRetiring hs fun r hr => ?_
  obtain ⟨hmem, hlist, -⟩ := mem_overlapping.mp hr
  exact ⟨hmem, hlist ▸ hitem⟩

theorem confined_createItem (hs : s.Ordered) (hitem : p item.listId) {isRead : Bool}
    {written : Written} (h : s.createItem item isRead now = .ok (written, s')) :
    Confined p s s' := by
  obtain ⟨s₁, hretire, -, -, -, rfl⟩ := createItem_eq_ok h
  rw [retireAll_overlapping_eq_ok hs hretire]
  have hretired := confined_overlapping hs hitem 0
  have hs₁ := hretired.ordered hs
  refine hretired.trans ((touches_add hs₁ item isRead now).confined hitem rfl fun _ => ?_)
  exact ⟨hs₁.items.insert rfl, hs₁.lists⟩

theorem confined_updateItem (hs : s.Ordered) {id : Int} {written : Written}
    (hid : ∀ r ∈ s.items.rows, r.id = id → p r.listId) (hitem : p item.listId)
    (h : s.updateItem id item = .ok (some written, s')) : Confined p s s' := by
  obtain ⟨row, s₁, hrow, hretire, -, -, -, rfl⟩ := updateItem_eq_ok h
  obtain ⟨-, hmem, rfl, -⟩ := liveItem?_eq_some hrow
  rw [retireAll_overlapping_eq_ok hs hretire]
  have hretired := confined_overlapping hs hitem row.id
  have hs₁ := hretired.ordered hs
  have hstay := mem_afterRetiring_overlapping item hmem
  exact hretired.trans (confined_renew hs₁ (touches_revise hs₁ hstay item) (hid row hmem rfl))

theorem confined_disableItem (hs : s.Ordered) {id : Int} {retired : Retired}
    (hid : ∀ r ∈ s.items.rows, r.id = id → p r.listId)
    (h : s.disableItem id = .ok (some retired, s')) : Confined p s s' := by
  obtain ⟨row, hrow, -, -, rfl⟩ := disableItem_eq_ok h
  obtain ⟨-, hmem, hrowid, -⟩ := liveItem?_eq_some hrow
  exact confined_renew hs (touches_retire hs hmem) (hid row hmem hrowid)

theorem confined_disableMatching (hs : s.Ordered) {scope : Scope} {range : Net.Range}
    {all : List Retired} (hscope : ∀ id, scope.admits id → p id) (hfound : all ≠ [])
    (h : s.disableMatching scope range = .ok (all, s')) : Confined p s s' := by
  have hids : ((s.withBounds scope range).map (·.id)).Nodup := nodup_ids_filter hs.items _
  rw [retireAll_eq_ok hids (disableMatching_eq_ok hfound h)]
  refine confined_afterRetiring hs fun r hr => ?_
  obtain ⟨hmem, hbounds⟩ := List.mem_filter.mp hr
  rw [Bool.and_eq_true] at hbounds
  exact ⟨hmem, hscope _ hbounds.2⟩

/-- An item is in one list. -/
theorem Ordered.listId_of_itemListId? (hs : s.Ordered) {id listId : Int}
    (h : s.itemListId? id = some listId) {r : ItemRow} (hr : r ∈ s.items.rows) (hid : r.id = id) :
    r.listId = listId := by
  rw [itemListId?, (hs.items.find?_eq_some).mpr ⟨hr, hid⟩] at h
  exact Option.some.inj h

theorem confined_markRead (s : Store) {scope : Scope} (hscope : ∀ id, scope.admits id → p id) :
    Confined p s (s.markRead scope).2 where
  others := by
    intro r hr
    -- a row outside the scope is no row that is marked, and is not marked itself
    have hunmarked : ∀ q : ItemRow, q.listId = r.listId → isUnreadIn scope q = false := by
      intro q hq
      have hout : ¬scope.admits q.listId := fun hin => hr (hq ▸ hscope _ hin)
      simp [isUnreadIn, hout]
    show r ∈ (s.items.update _).rows ↔ _
    rw [Table.mem_update]
    constructor
    · rintro ⟨q, hq, rfl⟩
      split
      · next hunread =>
        rw [if_pos hunread] at hunmarked
        rw [hunmarked q rfl] at hunread
        cases hunread
      · exact hq
    · intro hmem
      exact ⟨r, hmem, by rw [if_neg (by simp [hunmarked r rfl])]⟩
  lists := rfl
  ordered := fun hs => by
    refine ⟨hs.items.update fun r _ => ?_, hs.lists⟩
    split <;> rfl

end Store

/-- The tables have only been written in lists with the property. -/
def State.Confined (p : Int → Prop) (st st' : State) : Prop :=
  st.store.Confined p st'.store

instance {p : Int → Prop} : Std.Refl (State.Confined p) :=
  ⟨fun st => .refl st.store⟩

instance {p : Int → Prop} : IsTrans State (State.Confined p) :=
  ⟨fun _ _ _ h h' => Store.Confined.trans h h'⟩

/-! ## Checks before a write -/

theorem ServiceM.Leads.of_outcome {α : Type} {R : State → State → Prop} {a : ServiceM α}
    {st st' : State} {result : Except ServiceError α} (h : Leads R a st)
    (hout : outcome a st = (result, st')) : R st st' := by
  rw [Leads, hout] at h
  exact h

theorem require_eq_ok {caller : Caller} {allowed : List CallerKind} {st st' : State} {x : Unit}
    (h : outcome (require caller allowed) st = (.ok x, st')) : caller.kind ∈ allowed := by
  have hrequire := require_of_outcome h
  by_contra hnot
  rw [Caller.require, if_pos hnot] at hrequire
  cases hrequire

/-- A tenant is not let through to a call that is not for tenants. -/
theorem require_ne_ok {caller : Caller} {allowed : List CallerKind} {userId : Int}
    (hcaller : caller.userId? = some userId) (hrefused : CallerKind.user ∉ allowed)
    {st st' : State} {x : Unit} : outcome (require caller allowed) st ≠ (.ok x, st') := by
  intro h
  have hkind := require_eq_ok h
  rw [Caller.kind_of_userId? hcaller] at hkind
  exact hrefused hkind

/-- A call that is not for tenants does nothing for one. -/
theorem leads_of_refused {α : Type} {R : State → State → Prop} [Std.Refl R] {caller : Caller}
    {allowed : List CallerKind} {userId : Int} (hcaller : caller.userId? = some userId)
    (hrefused : CallerKind.user ∉ allowed) (f : Unit → ServiceM α) (st : State) :
    Leads R (require caller allowed >>= f) st := by
  exact (looks_require _ _).bind_leads fun _ h => absurd h (require_ne_ok hcaller hrefused)

/-- Each of the items that are to be deleted is in a usable list. -/
theorem Items.usable_of_deletable {caller : Caller} {userId : Int}
    (hcaller : caller.userId? = some userId) {st st' : State} (hs : st.store.Ordered)
    {ids deletable : List Int}
    (h : outcome (Items.deletable caller ids) st = (.ok deletable, st')) :
    ∀ id ∈ deletable, ∀ r ∈ st.store.items.rows, r.id = id → st.store.Usable userId r.listId := by
  induction ids generalizing deletable st' with
  | nil => cases h; simp
  | cons i ids ih =>
    obtain ⟨found, -, hfound, h⟩ := outcome_query_bind_eq_ok.mp h
    cases found with
    | none => exact ih h
    | some list =>
      obtain ⟨_, hcheck, h⟩ := (Ownership.looks_checkCallerList _ _).bind_eq_ok h
      obtain ⟨others, st₃, hothers, h⟩ := outcome_bind_eq_ok.mp h
      cases h
      intro id hid r hr hrid
      rcases List.mem_cons.mp hid with rfl | hid
      · rw [hs.listId_of_itemListId? (Except.ok.inj hfound) hr hrid]
        exact Ownership.usable_of_checkCallerList hcaller hcheck
      · exact ih hothers id hid r hr hrid

/-! ## Calls on items -/

namespace Items

variable {p : Int → Prop} {caller : Caller} {userId : Int} {st : State}

theorem confined_count (sample : Sample) (n : Nat) (st : State) :
    Leads (State.Confined p) (count sample n) st :=
  Store.Confined.refl _

theorem confined_signalLast (last : Option Change) (st : State) :
    Leads (State.Confined p) (signalLast last) st := by
  cases last <;> exact Store.Confined.refl _

theorem confined_store (hs : st.store.Ordered) {item : NewItem} (hitem : p item.listId) :
    Leads (State.Confined p) (store item) st := by
  refine looks_now.bind_leads fun time _ => ?_
  refine Leads.bind (leads_transact fun written s hrun => ?_) fun written st' _ => ?_
  · exact Store.confined_createItem hs hitem hrun
  · -- counting writes nothing
    exact Store.Confined.refl _

theorem confined_storeAll {items : List NewItem} (hs : st.store.Ordered)
    (hitems : ∀ item ∈ items, p item.listId) (last : Option Change) :
    Leads (State.Confined p) (storeAll items last) st := by
  induction items generalizing st last with
  | nil => exact Leads.bind (confined_signalLast last st) fun _ st' _ => leads_pure _ st'
  | cons item items ih =>
    have hstore := (confined_store hs (hitems item List.mem_cons_self)).attempt
    refine Leads.bind hstore fun result st' hresult => ?_
    cases result with
    | error e => exact Leads.bind (confined_signalLast last st') fun _ st' _ => leads_throw e st'
    | ok written =>
      have hs' := (hstore.of_outcome hresult).ordered hs
      refine Leads.bind (ih hs' ?_ _) fun _ st' _ => leads_pure _ st'
      exact fun other hother => hitems other (List.mem_cons_of_mem _ hother)

theorem confined_disable (hs : st.store.Ordered) {id : Int}
    (hid : ∀ r ∈ st.store.items.rows, r.id = id → p r.listId) :
    Leads (State.Confined p) (transact? (·.disableItem id)) st :=
  leads_transact? fun _ _ hrun => Store.confined_disableItem hs hid hrun

theorem confined_disableAll {ids : List Int} (hs : st.store.Ordered)
    (hids : ∀ id ∈ ids, ∀ r ∈ st.store.items.rows, r.id = id → p r.listId) :
    Leads (State.Confined p) (disableAll ids) st := by
  induction ids generalizing st with
  | nil => exact leads_pure [] st
  | cons id ids ih =>
    have hdisable := confined_disable hs (hids id List.mem_cons_self)
    refine Leads.bind hdisable fun retired st' hout => ?_
    have hwritten := hdisable.of_outcome hout
    have hrest := ih (hwritten.ordered hs) fun i hi =>
      hwritten.stays (hids i (List.mem_cons_of_mem _ hi))
    cases retired with
    | none => exact hrest
    | some retired => exact Leads.bind hrest fun _ st' _ => leads_pure _ st'

variable (hs : st.store.Ordered) (hcaller : caller.userId? = some userId)

include hcaller in
/-- An item that a tenant may write goes to a usable list. -/
theorem usable_of_prepare {draft : ItemDraft} {item : NewItem} {st' : State}
    (h : outcome (prepare caller draft) st = (.ok item, st')) :
    st.store.Usable userId item.listId := by
  obtain ⟨_, -, h⟩ := (looks_ofExcept _).bind_eq_ok h
  obtain ⟨_, st₂, hcheck, h⟩ := outcome_bind_eq_ok.mp h
  cases h
  exact Ownership.usable_of_checkWritable hcaller hcheck

include hs hcaller

theorem confined_create (draft : ItemDraft) :
    Leads (State.Confined (st.store.Usable userId)) (create caller draft) st := by
  refine (looks_require _ _).bind_leads fun _ _ => ?_
  refine (looks_prepare _ _).bind_leads fun item hitem => ?_
  refine Leads.bind (confined_store hs (usable_of_prepare hcaller hitem)) fun written st' _ => ?_
  exact Store.Confined.refl _

theorem confined_createAll (drafts : List ItemDraft) :
    Leads (State.Confined (st.store.Usable userId)) (createAll caller drafts) st := by
  refine (looks_require _ _).bind_leads fun _ _ => ?_
  refine (looks_mapM (looks_prepare caller) drafts).bind_leads fun items hitems => ?_
  refine confined_storeAll hs (fun item hitem => ?_) none
  obtain ⟨draft, -, hprepare⟩ := exists_of_mapM_eq_ok (looks_prepare caller) hitems hitem
  exact usable_of_prepare hcaller hprepare

theorem confined_update (itemId : Int) (draft : ItemDraft) :
    Leads (State.Confined (st.store.Usable userId)) (update caller itemId draft) st := by
  refine (looks_require _ _).bind_leads fun _ _ => ?_
  refine (looks_listOf _).bind_leads fun listId hlist => ?_
  refine (Ownership.looks_checkCallerList _ _).bind_leads fun _ hcheck => ?_
  refine (looks_ofExcept _).bind_leads fun item hitem => ?_
  have husable := Ownership.usable_of_checkCallerList hcaller hcheck
  -- the item stays in the list that was checked
  rw [outcome_ofExcept, Prod.mk.injEq] at hitem
  have hitemList : item.listId = listId := by
    obtain ⟨_, _, -, -, -, -, rfl⟩ := ItemDraft.normalize_eq_ok.mp hitem.1
    rfl
  have hid : ∀ r ∈ st.store.items.rows, r.id = itemId → st.store.Usable userId r.listId :=
    fun r hr hrid => (hs.listId_of_itemListId? (listOf_eq_ok hlist) hr hrid).symm ▸ husable
  refine Leads.bind (leads_transact? fun written s hrun => ?_) fun written st' _ => ?_
  · exact Store.confined_updateItem hs hid (hitemList ▸ husable) hrun
  · cases written <;> exact Store.Confined.refl _

theorem confined_deleteOne (itemId : Int) :
    Leads (State.Confined (st.store.Usable userId)) (deleteOne caller itemId) st := by
  refine (looks_listOf _).bind_leads fun listId hlist => ?_
  refine (Ownership.looks_checkCallerList _ _).bind_leads fun _ hcheck => ?_
  have husable := Ownership.usable_of_checkCallerList hcaller hcheck
  refine Leads.bind (confined_disable hs fun r hr hrid => ?_) fun retired st' _ => ?_
  · exact (hs.listId_of_itemListId? (listOf_eq_ok hlist) hr hrid).symm ▸ husable
  · cases retired <;> exact Store.Confined.refl _

theorem confined_deleteBounds (range : Net.Range) (listId : Int) :
    Leads (State.Confined (st.store.Usable userId)) (deleteBounds caller range listId) st := by
  refine (looks_deleteScope _ _).bind_leads fun scope hscope => ?_
  refine Leads.bind (leads_transact? fun retired s hrun => ?_) fun retired st' _ => ?_
  · obtain ⟨hfound, hmatching⟩ := Store.disableMatching_of_some hrun
    exact Store.confined_disableMatching hs (usable_of_deleteScope hcaller hscope) hfound hmatching
  · refine Leads.bind (confined_count _ _ _) fun _ st₁ _ => ?_
    exact Leads.bind (confined_signalLast _ st₁) fun _ st' _ => leads_pure _ st'

theorem confined_delete (request : DeleteRequest) :
    Leads (State.Confined (st.store.Usable userId)) (delete caller request) st := by
  refine (looks_ofExcept _).bind_leads fun target _ => ?_
  refine (looks_require _ _).bind_leads fun _ _ => ?_
  cases target with
  | item id => exact confined_deleteOne hs hcaller id
  | value text =>
    exact (looks_ofExcept _).bind_leads fun range _ => confined_deleteBounds hs hcaller range _
  | bounds lower upper =>
    exact (looks_ofExcept _).bind_leads fun range _ => confined_deleteBounds hs hcaller range _

theorem confined_deleteAll (ids : List Int) :
    Leads (State.Confined (st.store.Usable userId)) (deleteAll caller ids) st := by
  refine (looks_require _ _).bind_leads fun _ _ => ?_
  refine (looks_deletable _ _).bind_leads fun ids hids => ?_
  refine Leads.bind (confined_disableAll hs (usable_of_deletable hcaller hs hids))
    fun retired st₁ _ => ?_
  refine Leads.bind (confined_count _ _ _) fun _ st₂ _ => ?_
  exact Leads.bind (confined_signalLast _ st₂) fun _ st' _ => leads_pure _ st'

omit hs in
theorem confined_markRead :
    Leads (State.Confined (st.store.Usable userId)) (markRead caller) st := by
  refine (looks_require _ _).bind_leads fun _ _ => ?_
  refine (Ownership.looks_scopeOf _).bind_leads fun scope hscope => ?_
  rw [hcaller] at hscope
  refine leads_transact fun n s hrun => ?_
  cases Store.acknowledge_eq_ok hrun
  exact Store.confined_markRead st.store (Ownership.usable_of_scopeOf hscope)

end Items

/-! ## Searches -/

namespace Search

variable {p : Int → Prop} {st : State}

/-- A search switches off only items that it has met. -/
theorem confined_sift {items : List Item} (hs : st.store.Ordered)
    (hitems : ∀ item ∈ items, ∀ r ∈ st.store.items.rows, r.id = item.id → p r.listId) :
    Leads (State.Confined p) (sift items) st := by
  induction items generalizing st with
  | nil => exact leads_pure [] st
  | cons item items ih =>
    refine (looks_usage item).bind_leads fun usage _ => ?_
    have hothers : ∀ i ∈ items, ∀ r ∈ st.store.items.rows, r.id = i.id → p r.listId :=
      fun i hi => hitems i (List.mem_cons_of_mem _ hi)
    cases usage with
    | used list policy =>
      refine looks_get.bind_leads fun _ _ => ?_
      exact Leads.bind (ih hs hothers) fun _ st' _ => leads_pure _ st'
    | orphaned =>
      have hdisable : Leads (State.Confined p) (disableOrphan item) st := by
        refine Leads.bind (Items.confined_disable hs (hitems item List.mem_cons_self)) ?_
        intro retired st' _
        cases retired <;> exact Store.Confined.refl _
      refine Leads.bind hdisable fun _ st' hout => ?_
      have hwritten := hdisable.of_outcome hout
      exact ih (hwritten.ordered hs) fun i hi => hwritten.stays (hothers i hi)

/-- A search meets items of its scope. -/
theorem admits_of_searchItems {s : Store} (hs : s.Ordered) {scope : Scope} {f : SearchFilter}
    {now offset size : Int} {items : List Item}
    (h : s.searchItems scope f now offset size = .ok items) {item : Item} (hitem : item ∈ items)
    {r : ItemRow} (hr : r ∈ s.items.rows) (hid : r.id = item.id) : scope.admits r.listId := by
  obtain ⟨rows, hrows, h⟩ := bind_eq_ok.mp h
  obtain ⟨q, hq, htoItem⟩ := exists_of_mem_mapM h hitem
  obtain ⟨hmem, -, hadmits, -⟩ := (Store.mem_search hrows).mp (mem_of_mem_page hq)
  have hqid := (ItemRow.toItem_eq_ok htoItem).1
  rw [hs.items.eq_of_id hr hmem (hid.trans hqid)]
  exact hadmits

theorem confined_items {caller : Caller} {userId : Int} (hs : st.store.Ordered)
    (hcaller : caller.userId? = some userId) (cfg : Settings) (q : SearchQuery)
    (offset size : Int) :
    Leads (State.Confined (st.store.Usable userId)) (items cfg caller q offset size) st := by
  refine (looks_ofExcept _).bind_leads fun _ _ => ?_
  refine (looks_scope _ _).bind_leads fun scope hscope => ?_
  refine looks_now.bind_leads fun _ _ => ?_
  refine (looks_query _).bind_leads fun found hfound => ?_
  obtain ⟨-, -, hsearch⟩ := outcome_query_eq_ok.mp hfound
  refine confined_sift hs fun item hitem r hr hid => ?_
  exact usable_of_scope hcaller hscope _ (admits_of_searchItems hs hsearch hitem hr hid)

end Search

/-! ## All calls of a tenant -/

theorem Call.confined_run {caller : Caller} {userId : Int} {st : State} (hs : st.store.Ordered)
    (hcaller : caller.userId? = some userId) (cfg : Settings) (call : Call) :
    Leads (State.Confined (st.store.Usable userId)) (call.run cfg caller) st := by
  have looks : ∀ {α : Type} {a : ServiceM α} (f : α → Reply),
      Looks a → Leads (State.Confined (st.store.Usable userId)) (f <$> a) st :=
    fun f h => (h.leads st).map f
  cases call with
  | createItem draft => exact (Items.confined_create hs hcaller draft).map _
  | createItems drafts => exact (Items.confined_createAll hs hcaller drafts).map _
  | updateItem itemId draft =>
    exact Leads.bind (Items.confined_update hs hcaller itemId draft) fun _ st' _ => leads_pure _ st'
  | deleteItem request => exact (Items.confined_delete hs hcaller request).map _
  | deleteItems itemIds => exact (Items.confined_deleteAll hs hcaller itemIds).map _
  | pullItems version size => exact (leads_of_refused hcaller (by decide) _ st).map _
  | checkStatus listId address => exact looks _ (Contents.looks_check caller listId address)
  | findItem itemId => exact looks _ (Contents.looks_find caller itemId)
  | existsItem itemId => exact looks _ (Contents.looks_exist caller itemId)
  | countInList filter => exact looks _ (Contents.looks_countInList caller filter)
  | listInList filter offset size =>
    exact looks _ (Contents.looks_listInList cfg caller filter offset size)
  | countAll query => exact looks _ (Search.looks_countAll caller query)
  | searchAll query offset size =>
    exact (Search.confined_items hs hcaller cfg query offset size).map _
  | searchIds query offset size => exact looks _ (Search.looks_ids cfg caller query offset size)
  | markRead => exact (Items.confined_markRead hcaller).map _
  | findItemServer itemId => exact looks _ (Contents.looks_findServer caller itemId)
  | createList list => exact (leads_of_refused hcaller (by decide) _ st).map _
  | findList listId => exact looks _ (Lists.looks_find caller listId)
  | deleteList listId =>
    exact Leads.bind (leads_of_refused hcaller (by decide) _ st) fun _ st' _ => leads_pure _ st'
  | deleteServerLists serverId => exact (leads_of_refused hcaller (by decide) _ st).map _
  | findListServer listId => exact looks _ (Lists.looks_findServer caller listId)

theorem Gate.confined_serve {gate : Gate} {token : Option String} {caller : Caller} {userId : Int}
    {st : State} (hs : st.store.Ordered) (hauth : gate.authenticate token = .ok caller)
    (hcaller : caller.userId? = some userId) (call : Call) :
    st.Confined (st.store.Usable userId) (outcome (gate.serve token call) st).2 := by
  have hcount := @Items.confined_count (st.store.Usable userId)
  refine leads_serve (hcount _ _ st) (fun st' _ => hcount _ _ st') fun caller' hknown => ?_
  rw [hauth] at hknown
  cases hknown
  have hs' : (st.counted call).store.Ordered := hs
  exact Call.confined_run hs' hcaller gate.settings call

/-- Whatever call a tenant makes in a reachable state, and however it ends: each item that is new
afterwards, or has changed in any column, is in a list that the tenant could use before the call,
and was in one. No list changes. -/
theorem tenant_writes_confined {st : State} (h : Reachable st) {gate : Gate}
    {token : Option String} {userId : Int}
    (hauth : gate.authenticate token = .ok ⟨.user, userId⟩) (call : Call) :
    let st' := (outcome (gate.serve token call) st).2
    (∀ r' ∈ st'.store.items.rows, r' ∉ st.store.items.rows →
      st.store.Usable userId r'.listId) ∧
    (∀ r ∈ st.store.items.rows, r ∉ st'.store.items.rows →
      st.store.Usable userId r.listId) ∧
    st'.store.lists = st.store.lists := by
  intro st'
  have hconfined := Gate.confined_serve h.ordered hauth rfl call
  refine ⟨fun r' hr' hnew => ?_, fun r hr hgone => ?_, hconfined.lists⟩
  · by_contra hnot
    exact hnew ((hconfined.others r' hnot).mp hr')
  · by_contra hnot
    exact hgone ((hconfined.others r hnot).mpr hr)

/-- One address is in a list of the tenant, in one of another tenant, in one of a server of the
tenant and in a public one. When the tenant deletes the address, the items of the tenant and of the
server are switched off. -/
theorem tenant_writes_confined_of_address :
    let st := State.after { now := 0 } (.directory { servers := ⟨[⟨7, "web", 5, 1⟩], 7⟩ } ::
      adminCalls [.createList (privateList none (some 5)), .createList (privateList none (some 6)),
        .createList (privateList (some 7) none), .createList publicBlackList,
        .createItem { listId := 1, value := "10.0.0.1" },
        .createItem { listId := 2, value := "10.0.0.1" },
        .createItem { listId := 3, value := "10.0.0.1" },
        .createItem { listId := 4, value := "10.0.0.1" }])
    let st' := (outcome (tenantGate.serve (some "five") (.deleteItem { value := "10.0.0.1" })) st).2
    tenantGate.authenticate (some "five") = .ok ⟨.user, 5⟩ ∧
      st.store.items.rows.map (fun r => (r.listId, r.isLive)) =
        [(1, true), (2, true), (3, true), (4, true)] ∧
      st'.store.items.rows.map (fun r => (r.listId, r.isLive)) =
        [(1, false), (2, true), (3, false), (4, true)] ∧
      (∀ r' ∈ st'.store.items.rows, r' ∉ st.store.items.rows → st.store.Usable 5 r'.listId) ∧
      (∀ r ∈ st.store.items.rows, r ∉ st'.store.items.rows → st.store.Usable 5 r.listId) ∧
      st'.store.lists = st.store.lists := by
  intro st st'
  have hauth : tenantGate.authenticate (some "five") = .ok ⟨.user, 5⟩ := by decide +kernel
  have hreach : Reachable st := reachable_after 0 _
  have hconfined := tenant_writes_confined hreach hauth (.deleteItem { value := "10.0.0.1" })
  refine ⟨hauth, by decide +kernel, by decide +kernel, ?_⟩
  with_reducible exact hconfined

end FirewallLists
