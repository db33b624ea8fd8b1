import FirewallLists.Proofs.Tenant.Writes

/-
  What a tenant is shown. Of the items that were there before a call, the reply shows only such as
  are in lists that the tenant may use (`Gate.shown_serve`): an item is looked up together with its
  list, a page of a list comes after a check of that list, and a search meets only items of the
  tenant's own lists. The items that a call has made are shown too, and these were not there before.
-/

namespace FirewallLists

open ServiceM

/-! ## Items of a reply -/

/-- The ids of the items that a reply shows. -/
def Reply.shown : Reply → List Int
  | itemId id => [id]
  | itemIds ids => ids
  | item i => i.toList.map (·.id)
  | itemViews views => views.map (·.item.id)
  | results rs => rs.map (·.item.id)
  | page p => p.items.map (·.id)
  | status (.covered i _) => [i.id]
  | _ => []

/-- Those of these ids that belong to items belong to items of lists with the property. -/
def Store.IdsIn (s : Store) (p : Int → Prop) (ids : List Int) : Prop :=
  ∀ r ∈ s.items.rows, r.id ∈ ids → p r.listId

namespace Store

variable {s s' : Store} {now : Int} {p : Int → Prop} {ids : List Int}

theorem idsIn_nil (s : Store) (p : Int → Prop) : s.IdsIn p [] :=
  fun _ _ h => absurd h List.not_mem_nil

/-- New ids belong to no item. -/
theorem Ordered.idsIn_of_new (hs : s.Ordered) (h : ∀ id ∈ ids, s.items.lastId < id) :
    s.IdsIn p ids := by
  intro r hr hid
  have hle := hs.items.le_last r hr
  rw [ItemRow.identified] at hle
  have hlt := h r.id hid
  omega

/-- The ids of items of lists with the property. -/
theorem Ordered.idsIn_of_rows (hs : s.Ordered)
    (h : ∀ id ∈ ids, ∃ r ∈ s.items.rows, r.id = id ∧ p r.listId) : s.IdsIn p ids := by
  intro r hr hid
  obtain ⟨q, hq, hqid, hlist⟩ := h r.id hid
  rw [hs.items.eq_of_id hr hq hqid.symm]
  exact hlist

theorem exists_row_of_findActiveItem {id : Int} {item : Item}
    (h : s.findActiveItem id now = .ok (some item)) : ∃ r ∈ s.items.rows, r.toItem = .ok item := by
  obtain ⟨found, hfound, h⟩ := bind_eq_ok.mp h
  cases found with
  | none => cases h
  | some i =>
    have hactive := (Option.filter_eq_some_iff.mp (Except.ok.inj h)).1
    cases hactive
    unfold findItem at hfound
    split at hfound
    · next r hfind =>
      rw [map_eq_pure_bind] at hfound
      obtain ⟨_, htoItem, hsome⟩ := bind_eq_ok.mp hfound
      cases hsome
      exact ⟨r, List.mem_of_find?_eq_some hfind, htoItem⟩
    · cases hfound

theorem exists_row_of_listInList {f : ListFilter} {offset size : Int} {items : List Item}
    (h : s.listInList f now offset size = .ok items) {item : Item} (hitem : item ∈ items) :
    ∃ r ∈ s.items.rows, r.id = item.id ∧ r.listId = f.listId := by
  obtain ⟨rows, hrows, h⟩ := bind_eq_ok.mp h
  obtain ⟨r, hr, htoItem⟩ := exists_of_mem_mapM h hitem
  unfold filterList at hrows
  dsimp only at hrows
  split at hrows
  · cases hrows
  · cases hrows
    have hmem := mem_of_mem_page hr
    rw [List.mem_reverse, List.mem_filter, List.mem_filter] at hmem
    obtain ⟨⟨hrow, hconcerns⟩, -⟩ := hmem
    rw [ListFilter.concerns, Bool.and_eq_true, beq_iff_eq] at hconcerns
    exact ⟨r, hrow, (ItemRow.toItem_eq_ok htoItem).1.symm, hconcerns.1⟩

theorem retireAll_lastId {rows : List ItemRow} {all : List Retired}
    (h : retireAll rows s = .ok (all, s')) : s'.items.lastId = s.items.lastId := by
  induction rows generalizing s all with
  | nil => cases h; rfl
  | cons row rows ih =>
    obtain ⟨retired, more, s₁, hfirst, hrest, rfl⟩ := retireAll_cons_eq_ok h
    obtain ⟨-, -, rfl⟩ := retire_eq_ok hfirst
    have hlast := ih hrest
    exact hlast

end Store

/-! ## Items that a call makes -/

namespace Items

variable {caller : Caller} {st st' : State}

/-- A new item has an id above all others. -/
theorem lastId_of_store {item : NewItem} {written : Store.Written}
    (h : outcome (store item) st = (.ok written, st')) :
    st.store.items.lastId < written.itemId ∧ written.itemId ≤ st'.store.items.lastId := by
  rw [outcome_store] at h
  rcases hw : st.tables >>= (·.createItem item item.startsRead st.now) with e | ⟨w, s⟩
  · rw [hw] at h
    cases h
  · rw [hw] at h
    cases h
    obtain ⟨s₁, hretire, -, hid, -, rfl⟩ := Store.createItem_eq_ok (tables_bind_eq_ok.mp hw).2
    have hlast := Store.retireAll_lastId hretire
    rw [hid, ← hlast]
    refine ⟨by omega, ?_⟩
    show s₁.items.lastId + 1 ≤ max s₁.items.lastId (s₁.items.lastId + 1)
    omega

theorem new_of_create {draft : ItemDraft} {id : Int}
    (h : outcome (create caller draft) st = (.ok id, st')) : st.store.items.lastId < id := by
  obtain ⟨_, -, h⟩ := (looks_require _ _).bind_eq_ok h
  obtain ⟨item, -, h⟩ := (looks_prepare _ _).bind_eq_ok h
  obtain ⟨written, st₃, hstore, h⟩ := outcome_bind_eq_ok.mp h
  cases h
  exact (lastId_of_store hstore).1

theorem new_of_storeAll {items : List NewItem} {last : Option Change} {ids : List Int}
    (h : outcome (storeAll items last) st = (.ok ids, st')) :
    ∀ id ∈ ids, st.store.items.lastId < id := by
  induction items generalizing st st' last ids with
  | nil =>
    rw [storeAll, outcome_signalLast_bind] at h
    cases h
    simp
  | cons item items ih =>
    rw [outcome_storeAll_cons] at h
    rcases hstore : outcome (store item) st with ⟨e | written, st₁⟩
    · rw [hstore] at h
      cases h
    · rw [hstore] at h
      obtain ⟨hnew, hle⟩ := lastId_of_store hstore
      obtain ⟨rest, hrest, rfl⟩ := outcome_map_eq_ok.mp h
      intro id hid
      rcases List.mem_cons.mp hid with rfl | hid
      · exact hnew
      · have hlater := ih hrest id hid
        omega

theorem new_of_createAll {drafts : List ItemDraft} {ids : List Int}
    (h : outcome (createAll caller drafts) st = (.ok ids, st')) :
    ∀ id ∈ ids, st.store.items.lastId < id := by
  obtain ⟨_, -, h⟩ := (looks_require _ _).bind_eq_ok h
  obtain ⟨items, -, h⟩ := (looks_mapM (looks_prepare caller) drafts).bind_eq_ok h
  exact new_of_storeAll h

end Items

/-! ## Items that a tenant looks up -/

section

variable {caller : Caller} {userId : Int} {st st' : State} (hs : st.store.Ordered)
  (hcaller : caller.userId? = some userId)

include hs hcaller

theorem Contents.shown_find {itemId : Int} {found : Option Item}
    (h : outcome (find caller itemId) st = (.ok found, st')) :
    st.store.IdsIn (st.store.Usable userId) (found.toList.map (·.id)) := by
  obtain ⟨_, -, h⟩ := (looks_require _ _).bind_eq_ok h
  obtain ⟨time, -, h⟩ := looks_now.bind_eq_ok h
  obtain ⟨active, -, hactive, h⟩ := outcome_query_bind_eq_ok.mp h
  cases active with
  | none => cases h; exact Store.idsIn_nil _ _
  | some item =>
    obtain ⟨_, hcheck, h⟩ := (Ownership.looks_checkCallerList _ _).bind_eq_ok h
    cases h
    obtain ⟨r, hr, htoItem⟩ := Store.exists_row_of_findActiveItem hactive
    obtain ⟨hid, hlist, -⟩ := ItemRow.toItem_eq_ok htoItem
    have husable := Ownership.usable_of_checkCallerList hcaller hcheck
    refine hs.idsIn_of_rows fun id hmem => ?_
    rw [Option.toList_some, List.map_singleton, List.mem_singleton] at hmem
    exact ⟨r, hr, by rw [hmem, hid], hlist ▸ husable⟩

theorem Contents.shown_listInList {cfg : Settings} {filter : ListFilter} {offset size : Int}
    {views : List ItemView}
    (h : outcome (listInList cfg caller filter offset size) st = (.ok views, st')) :
    st.store.IdsIn (st.store.Usable userId) (views.map (·.item.id)) := by
  obtain ⟨_, -, h⟩ := (looks_require _ _).bind_eq_ok h
  obtain ⟨_, hcheck, h⟩ := (Ownership.looks_checkCallerList _ _).bind_eq_ok h
  have husable := Ownership.usable_of_checkCallerList hcaller hcheck
  obtain ⟨time, -, h⟩ := looks_now.bind_eq_ok h
  obtain ⟨items, -, hitems, h⟩ := outcome_query_bind_eq_ok.mp h
  cases h
  refine hs.idsIn_of_rows fun id hmem => ?_
  rw [List.map_map] at hmem
  obtain ⟨item, hitem, rfl⟩ := List.mem_map.mp hmem
  obtain ⟨r, hr, hid, hlist⟩ := Store.exists_row_of_listInList hitems hitem
  exact ⟨r, hr, hid, hlist ▸ husable⟩

theorem Search.shown_ids {cfg : Settings} {q : SearchQuery} {offset size : Int} {found : List Int}
    (h : outcome (ids cfg caller q offset size) st = (.ok found, st')) :
    st.store.IdsIn (st.store.Usable userId) found := by
  obtain ⟨filter, -, h⟩ := (looks_ofExcept _).bind_eq_ok h
  obtain ⟨scope, hscope, h⟩ := (looks_scope _ _).bind_eq_ok h
  obtain ⟨time, -, h⟩ := looks_now.bind_eq_ok h
  obtain ⟨rfl, -, hids⟩ := outcome_query_eq_ok.mp h
  obtain ⟨rows, hrows, hids⟩ := bind_eq_ok.mp hids
  cases hids
  refine hs.idsIn_of_rows fun id hmem => ?_
  obtain ⟨r, hr, rfl⟩ := List.mem_map.mp hmem
  obtain ⟨hrow, -, hadmits, -⟩ := (Store.mem_search hrows).mp (mem_of_mem_page hr)
  exact ⟨r, hrow, rfl, usable_of_scope hcaller hscope _ hadmits⟩

omit hs hcaller in
/-- A search shows items that it has met. -/
theorem Search.mem_of_sift {items : List Item} {results : List SearchResult}
    (h : outcome (sift items) st = (.ok results, st')) : ∀ x ∈ results, x.item ∈ items := by
  induction items generalizing st results with
  | nil => cases h; simp
  | cons item items ih =>
    obtain ⟨usage, st₁, -, h⟩ := outcome_bind_eq_ok.mp h
    cases usage with
    | orphaned =>
      obtain ⟨_, st₂, -, hrest⟩ := outcome_bind_eq_ok.mp h
      exact fun x hx => List.mem_cons_of_mem _ (ih hrest x hx)
    | used list policy =>
      obtain ⟨_, st₂, -, h⟩ := outcome_bind_eq_ok.mp h
      obtain ⟨rest, st₃, hrest, hresults⟩ := outcome_bind_eq_ok.mp h
      cases hresults
      intro x hx
      rcases List.mem_cons.mp hx with rfl | hx
      · exact List.mem_cons_self
      · exact List.mem_cons_of_mem _ (ih hrest x hx)

theorem Search.shown_items {cfg : Settings} {q : SearchQuery} {offset size : Int}
    {results : List SearchResult}
    (h : outcome (items cfg caller q offset size) st = (.ok results, st')) :
    st.store.IdsIn (st.store.Usable userId) (results.map (·.item.id)) := by
  obtain ⟨filter, -, h⟩ := (looks_ofExcept _).bind_eq_ok h
  obtain ⟨scope, hscope, h⟩ := (looks_scope _ _).bind_eq_ok h
  obtain ⟨time, -, h⟩ := looks_now.bind_eq_ok h
  obtain ⟨found, -, hfound, hsift⟩ := outcome_query_bind_eq_ok.mp h
  intro r hr hid
  obtain ⟨x, hx, hxid⟩ := List.mem_map.mp hid
  have hmet := admits_of_searchItems hs hfound (mem_of_sift hsift x hx) hr hxid.symm
  exact usable_of_scope hcaller hscope _ hmet

/-- What a call for a tenant shows of the items that were there is of usable lists. -/
theorem Call.shown_run {cfg : Settings} {call : Call} {reply : Reply}
    (h : outcome (call.run cfg caller) st = (.ok reply, st')) :
    st.store.IdsIn (st.store.Usable userId) reply.shown := by
  cases call with
  | createItem draft =>
    obtain ⟨id, hcreate, rfl⟩ := outcome_map_eq_ok.mp h
    exact hs.idsIn_of_new fun i hi => List.mem_singleton.mp hi ▸ Items.new_of_create hcreate
  | createItems drafts =>
    obtain ⟨ids, hcreate, rfl⟩ := outcome_map_eq_ok.mp h
    exact hs.idsIn_of_new (Items.new_of_createAll hcreate)
  | findItem itemId =>
    obtain ⟨found, hfind, rfl⟩ := outcome_map_eq_ok.mp h
    exact Contents.shown_find hs hcaller hfind
  | listInList filter offset size =>
    obtain ⟨views, hlist, rfl⟩ := outcome_map_eq_ok.mp h
    exact Contents.shown_listInList hs hcaller hlist
  | searchAll query offset size =>
    obtain ⟨results, hsearch, rfl⟩ := outcome_map_eq_ok.mp h
    exact Search.shown_items hs hcaller hsearch
  | searchIds query offset size =>
    obtain ⟨ids, hsearch, rfl⟩ := outcome_map_eq_ok.mp h
    exact Search.shown_ids hs hcaller hsearch
  | pullItems version size =>
    -- pages are not for tenants, nor are checks
    obtain ⟨page, hpull, -⟩ := outcome_map_eq_ok.mp h
    obtain ⟨_, hrequire, -⟩ := (looks_require _ _).bind_eq_ok hpull
    exact absurd hrequire (require_ne_ok hcaller (by decide))
  | checkStatus listId address =>
    obtain ⟨status, hcheck, -⟩ := outcome_map_eq_ok.mp h
    obtain ⟨_, hrequire, -⟩ := (looks_require _ _).bind_eq_ok hcheck
    exact absurd hrequire (require_ne_ok hcaller (by decide))
  | updateItem itemId draft =>
    obtain ⟨_, st₁, -, h⟩ := outcome_bind_eq_ok.mp h
    cases h
    exact Store.idsIn_nil _ _
  | deleteList listId =>
    obtain ⟨_, st₁, -, h⟩ := outcome_bind_eq_ok.mp h
    cases h
    exact Store.idsIn_nil _ _
  | _ =>
    -- the others do not reply with items
    obtain ⟨_, -, rfl⟩ := outcome_map_eq_ok.mp h
    exact Store.idsIn_nil _ _

end

/-- Of the items that were there, a tenant's call shows only such as are in usable lists. -/
theorem Gate.shown_serve {gate : Gate} {token : Option String} {caller : Caller} {userId : Int}
    {call : Call} {st st' : State} {reply : Reply} (hs : st.store.Ordered)
    (hauth : gate.authenticate token = .ok caller) (hcaller : caller.userId? = some userId)
    (h : outcome (gate.serve token call) st = (.ok reply, st')) :
    st.store.IdsIn (st.store.Usable userId) reply.shown := by
  obtain ⟨caller', hknown, hrun⟩ := Gate.serve_eq_ok h
  rw [hauth] at hknown
  cases hknown
  have hs' : (st.counted call).store.Ordered := hs
  exact Call.shown_run hs' hcaller hrun

end FirewallLists
