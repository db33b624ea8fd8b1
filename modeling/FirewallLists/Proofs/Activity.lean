import FirewallLists.Proofs.Coverage

/-
  Which items are active. A row is active when it is switched on and not past its time, and this
  is asked of the row in the tables (`ItemRow.isActive`) or of the item that is read from it
  (`Item.isActive`). The two agree on every row that the services write, whose time is never
  negative. So all readers agree on a row: the questions whether an item is there, the pages of
  its list, the pages of a search, and what a node pulls (`activity_shown_alike`).
-/

namespace FirewallLists

open ServiceM

/-! ## What the tables tell of a row -/

/-- A filter that lets every item of a list through. -/
def ListFilter.unfiltered (listId : Int) : ListFilter :=
  ⟨listId, "", "", "", ""⟩

/-- A filter that lets every item through. -/
def SearchFilter.unfiltered : SearchFilter where
  keyword := ""
  address := none
  unreadOnly := false
  eventLevel := ""
  listType := none
  globalOnly := false

theorem SearchQuery.filter_empty : ({} : SearchQuery).filter = .ok .unfiltered :=
  rfl

namespace Store

variable {s : Store} {now : Int} {row : ItemRow}

/-- The rows of a list that are found are the active ones, each once. -/
theorem exists_filterList (s : Store) (listId now : Int) :
    ∃ rows, s.filterList (.unfiltered listId) now = .ok rows ∧
      (∀ r, r ∈ rows ↔ r ∈ s.items.rows ∧ r.listId = listId ∧ r.isActive now) ∧
      rows.length = s.items.rows.countP fun r => r.listId == listId && r.isActive now := by
  have haccepts : (ListFilter.unfiltered listId).accepts = fun _ => true := by
    funext r
    simp [ListFilter.accepts, ListFilter.unfiltered, mentions, equalsIfGiven]
  refine ⟨(s.items.rows.filter fun r => r.listId == listId && r.isActive now).reverse,
    ?_, fun r => ?_, ?_⟩
  · rw [filterList, haccepts, List.filter_true]
    rfl
  · rw [List.mem_reverse, List.mem_filter, Bool.and_eq_true, beq_iff_eq]
  · rw [List.length_reverse, List.countP_eq_length_filter]

theorem mem_search_unfiltered {rows : List ItemRow}
    (h : s.search .page .everywhere .unfiltered now = .ok rows) (r : ItemRow) :
    r ∈ rows ↔ r ∈ s.items.rows ∧ r.isActive now := by
  rw [mem_search h]
  simp [Scope.admits, SearchFilter.accepts, SearchFilter.unfiltered, mentions, equalsIfGiven]

theorem existsActiveItem_eq (hs : s.Ordered) (hrow : row ∈ s.items.rows) (now : Int) :
    s.existsActiveItem row.id now = row.isActive now := by
  rw [existsActiveItem, find?_of_mem hs hrow]
  rfl

theorem Spanned.mapM_toItem (h : s.Spanned) {rows : List ItemRow}
    (hrows : ∀ r ∈ rows, r ∈ s.items.rows) : ∃ items, rows.mapM (·.toItem) = .ok items := by
  refine exists_mapM_eq_ok fun r hr => ?_
  obtain ⟨range, hrange⟩ := h r (hrows r hr)
  exact hrange.exists_item

/-- The item of a row is found exactly while the row is active. -/
theorem findActiveItem_of_mem (hs : s.Ordered) (hspanned : s.Spanned) (htimed : s.Timed)
    (hrow : row ∈ s.items.rows) (now : Int) :
    ∃ item, row.toItem = .ok item ∧
      s.findActiveItem row.id now = .ok (if row.isActive now then some item else none) := by
  obtain ⟨range, hrange⟩ := hspanned row hrow
  obtain ⟨item, hitem⟩ := hrange.exists_item
  have hfind : s.findItem row.id = .ok (some item) := by
    rw [findItem, find?_of_mem hs hrow]
    dsimp only
    rw [hitem]
    rfl
  refine ⟨item, hitem, ?_⟩
  have hactive := ItemRow.isActive_toItem hitem (htimed row hrow) now
  rw [findActiveItem, hfind]
  show Except.ok ((some item).filter (·.isActive now)) = _
  simp only [Option.filter_some, hactive]

/-- The item that is found is told by its own time to be active, as its row is. -/
theorem exists_findActiveItem (hs : s.Ordered) (hspanned : s.Spanned) (htimed : s.Timed)
    (hrow : row ∈ s.items.rows) (now : Int) :
    ∃ found, s.findActiveItem row.id now = .ok found ∧ (found.isSome ↔ row.isActive now) := by
  obtain ⟨item, -, hfound⟩ := findActiveItem_of_mem hs hspanned htimed hrow now
  refine ⟨_, hfound, ?_⟩
  split
  · next hactive => simp [hactive]
  · next hactive => simp [hactive]

end Store

/-! ## What readers are answered -/

namespace Contents

variable {caller : Caller} {st : State}

theorem outcome_exist (hadmin : caller.kind = .admin) (hopen : st.isOpen) (itemId : Int) :
    outcome (exist caller itemId) st = (.ok (st.store.existsActiveItem itemId st.now), st) := by
  rw [exist, outcome_bind_of_ok (outcome_require_of_admin st hadmin (by decide)),
    outcome_bind_of_ok (outcome_now st), outcome_query_of_isOpen hopen]
  rfl

/-- Whoever may touch the list of an item is given the item. -/
theorem outcome_find (hkind : outcome (require caller [.admin, .user]) st = (.ok (), st))
    (hopen : st.isOpen) {itemId : Int} {found : Option Item}
    (hfound : st.store.findActiveItem itemId st.now = .ok found)
    (hlist : ∀ item, found = some item →
      outcome (Ownership.checkCallerList caller item.listId) st = (.ok (), st)) :
    outcome (find caller itemId) st = (.ok found, st) := by
  have hquery := outcome_query_of_isOpen hopen (·.findActiveItem itemId st.now)
  rw [hfound] at hquery
  rw [find, outcome_bind_of_ok hkind, outcome_bind_of_ok (outcome_now st),
    outcome_bind_of_ok hquery]
  cases found with
  | none => rfl
  | some item =>
    dsimp only
    rw [outcome_bind_of_ok (hlist item rfl)]
    rfl

theorem outcome_countInList (hadmin : caller.kind = .admin) (hopen : st.isOpen)
    {filter : ListFilter} {rows : List ItemRow}
    (hrows : st.store.filterList filter st.now = .ok rows) :
    outcome (countInList caller filter) st = (.ok rows.length, st) := by
  have hcount : st.store.countInList filter st.now = .ok rows.length :=
    bind_eq_ok.mpr ⟨rows, hrows, rfl⟩
  rw [countInList,
    outcome_bind_of_ok (outcome_require_of_admin st hadmin (by decide)),
    outcome_bind_of_ok (outcome_checkCallerList hadmin filter.listId st),
    outcome_bind_of_ok (outcome_now st), outcome_query_of_isOpen hopen, hcount]
  rfl

theorem outcome_listInList (cfg : Settings) (hadmin : caller.kind = .admin) (hopen : st.isOpen)
    {filter : ListFilter} {rows : List ItemRow} {items : List Item}
    (hrows : st.store.filterList filter st.now = .ok rows)
    (hitems : rows.mapM (·.toItem) = .ok items) (offset size : Int) :
    outcome (listInList cfg caller filter offset size) st =
      (.ok ((page offset (cfg.pageSize size) items).map (view st)), st) := by
  have hpage : st.store.listInList filter st.now offset (cfg.pageSize size) =
      .ok (page offset (cfg.pageSize size) items) :=
    bind_eq_ok.mpr ⟨rows, hrows, mapM_page hitems offset _⟩
  have hquery :=
    outcome_query_of_isOpen hopen (·.listInList filter st.now offset (cfg.pageSize size))
  rw [hpage] at hquery
  rw [listInList,
    outcome_bind_of_ok (outcome_require_of_admin st hadmin (by decide)),
    outcome_bind_of_ok (outcome_checkCallerList hadmin filter.listId st),
    outcome_bind_of_ok (outcome_now st), outcome_bind_of_ok hquery]
  rfl

end Contents

/-- The views that a reply gives. -/
def Reply.itemViews? : Reply → Option (List ItemView)
  | itemViews views => some views
  | _ => none

/-- Read the items that a filter finds in a list with pages of these sizes until a page is empty.
-/
def collectViews (gate : Gate) (token : Option String) (filter : ListFilter) :
    List Int → Int → ServiceM (Option (List ItemView)) :=
  collect gate token (.listInList filter) Reply.itemViews?

/-- Pages of any positive sizes give the views of all items that are found in a list. -/
theorem outcome_collectViews {gate : Gate} {token : Option String} {caller : Caller}
    {filter : ListFilter} {rows : List ItemRow} {items : List Item} {st : State}
    (hauth : gate.authenticate token = .ok caller) (hadmin : caller.kind = .admin)
    (hopen : st.isOpen) (hrows : st.store.filterList filter st.now = .ok rows)
    (hitems : rows.mapM (·.toItem) = .ok items) (sizes : Nat → Int)
    (hsizes : ∀ i, 0 < gate.settings.pageSize (sizes i)) :
    ∃ n st', outcome (collectViews gate token filter ((List.range n).map sizes) 0) st =
      (.ok (some (items.map (Contents.view st))), st') := by
  have hrun : ∀ (counters : Counters) (start : Nat) (size : Int), ∃ reply,
      outcome ((Call.listInList filter start size).run gate.settings caller)
        { st with counters := counters } = (.ok reply, { st with counters := counters }) ∧
      reply.itemViews? =
        some (page start (gate.settings.pageSize size) (items.map (Contents.view st))) := by
    intro counters start size
    have hopen' : ({ st with counters := counters } : State).isOpen := hopen
    rw [page_map]
    refine ⟨.itemViews ((page start (gate.settings.pageSize size) items).map (Contents.view st)),
      ?_, rfl⟩
    rw [Call.run, outcome_map,
      Contents.outcome_listInList gate.settings hadmin hopen' hrows hitems start size]
    -- what is shown of an item does not depend on the counters
    rfl
  obtain ⟨n, -, st', hcollect⟩ := outcome_collect hauth hrun sizes hsizes 0
  exact ⟨n, st', hcollect⟩

/-- What an administrator is answered who asks for an item, for the items of its list and for the
ids of all items, on pages of any sizes. -/
structure Gate.Answers (gate : Gate) (token : Option String) (st : State) (row : ItemRow)
    (exist : Bool) (found : Option Item) (views : List ItemView) (ids : List Int) : Prop where
  exist : (outcome (gate.serve token (.existsItem row.id)) st).1 = .ok (.found exist)
  found : (outcome (gate.serve token (.findItem row.id)) st).1 = .ok (.item found)
  count : (outcome (gate.serve token (.countInList (.unfiltered row.listId))) st).1 =
    .ok (.count views.length)
  views : ∀ sizes : Nat → Int, (∀ i, 0 < gate.settings.pageSize (sizes i)) → ∃ n,
    (outcome (collectViews gate token (.unfiltered row.listId) ((List.range n).map sizes) 0) st).1 =
      .ok (some views)
  ids : ∀ sizes : Nat → Int, (∀ i, 0 < gate.settings.pageSize (sizes i)) → ∃ n,
    (outcome (collectIds gate token {} ((List.range n).map sizes) 0) st).1 = .ok (some ids)

theorem Gate.answers {gate : Gate} {token : Option String} {caller : Caller} {st : State}
    {row : ItemRow} (hauth : gate.authenticate token = .ok caller) (hadmin : caller.kind = .admin)
    (hopen : st.isOpen) {found : Option Item} {listed searched : List ItemRow} {items : List Item}
    (hfound : st.store.findActiveItem row.id st.now = .ok found)
    (hlisted : st.store.filterList (.unfiltered row.listId) st.now = .ok listed)
    (hitems : listed.mapM (·.toItem) = .ok items)
    (hsearched : st.store.search .page .everywhere .unfiltered st.now = .ok searched) :
    gate.Answers token st row (st.store.existsActiveItem row.id st.now) found
      (items.map (Contents.view st)) (searched.map (·.id)) where
  exist := by
    have hopen' : (st.counted (.existsItem row.id)).isOpen := hopen
    rw [reply_serve hauth, Call.run, outcome_map, Contents.outcome_exist hadmin hopen']
    rfl
  found := by
    have hopen' : (st.counted (.findItem row.id)).isOpen := hopen
    rw [reply_serve hauth, Call.run, outcome_map,
      Contents.outcome_find (outcome_require_of_admin _ hadmin (by decide)) hopen' hfound
        fun item _ => outcome_checkCallerList hadmin item.listId _]
    rfl
  count := by
    have hopen' : (st.counted (.countInList (.unfiltered row.listId))).isOpen := hopen
    rw [reply_serve hauth, Call.run, outcome_map,
      Contents.outcome_countInList hadmin hopen' hlisted, List.length_map, length_of_mapM hitems]
    rfl
  views := by
    intro sizes hsizes
    obtain ⟨n, st', hviews⟩ := outcome_collectViews hauth hadmin hopen hlisted hitems sizes hsizes
    exact ⟨n, congrArg Prod.fst hviews⟩
  ids := by
    intro sizes hsizes
    obtain ⟨n, -, st', hids⟩ := outcome_collectIds hauth hadmin hopen SearchQuery.filter_empty
      (Int.le_refl 0) hsearched sizes hsizes 0
    exact ⟨n, congrArg Prod.fst hids⟩

/-! ## Tables that cannot be reached -/

/-- While the tables cannot be reached an administrator is told nothing of items. -/
theorem Call.run_of_closed {caller : Caller} {st : State} (hadmin : caller.kind = .admin)
    (hclosed : ¬st.isOpen) (cfg : Settings) {itemId : Int} {filter : ListFilter}
    {offset size : Int} {call : Call} (hcall : call ∈ [Call.existsItem itemId, .findItem itemId,
      .countInList filter, .listInList filter offset size, .searchIds {} offset size]) :
    outcome (call.run cfg caller) st = (.error (.storage .closed), st) := by
  simp only [List.mem_cons, List.not_mem_nil, or_false] at hcall
  rcases hcall with rfl | rfl | rfl | rfl | rfl
  · refine outcome_map_eq_error.mpr ?_
    rw [Contents.exist, outcome_bind_of_ok (outcome_require_of_admin st hadmin (by decide)),
      outcome_bind_of_ok (outcome_now st)]
    exact outcome_query_of_closed hclosed _
  · refine outcome_map_eq_error.mpr ?_
    rw [Contents.find, outcome_bind_of_ok (outcome_require_of_admin st hadmin (by decide)),
      outcome_bind_of_ok (outcome_now st)]
    exact outcome_bind_of_error (outcome_query_of_closed hclosed _)
  · refine outcome_map_eq_error.mpr ?_
    rw [Contents.countInList, outcome_bind_of_ok (outcome_require_of_admin st hadmin (by decide)),
      outcome_bind_of_ok (outcome_checkCallerList hadmin _ st), outcome_bind_of_ok (outcome_now st)]
    exact outcome_query_of_closed hclosed _
  · refine outcome_map_eq_error.mpr ?_
    rw [Contents.listInList, outcome_bind_of_ok (outcome_require_of_admin st hadmin (by decide)),
      outcome_bind_of_ok (outcome_checkCallerList hadmin _ st), outcome_bind_of_ok (outcome_now st)]
    exact outcome_bind_of_error (outcome_query_of_closed hclosed _)
  · refine outcome_map_eq_error.mpr ?_
    rw [Search.ids, SearchQuery.filter_empty, outcome_bind_of_ok (outcome_ofExcept _ st),
      outcome_bind_of_ok (Search.outcome_scope hadmin (Int.le_refl 0) st),
      outcome_bind_of_ok (outcome_now st)]
    exact outcome_query_of_closed hclosed _

theorem Call.run_pullItems_of_closed {caller : Caller} {st : State} (hcaller : caller.pulls)
    (hclosed : ¬st.isOpen) (cfg : Settings) (version size : Int) :
    outcome ((Call.pullItems version size).run cfg caller) st =
      (.error (.storage .closed), st) := by
  refine outcome_map_eq_error.mpr ?_
  rw [Pull.itemsAfter, outcome_bind_of_ok (hcaller.outcome_require st)]
  exact outcome_bind_of_error (outcome_query_of_closed hclosed _)

/-! ## All readers -/

namespace Store

variable {s : Store} {now : Int} {row : ItemRow}

/-- Of rows that are chosen by a property, the ids hold that of a row exactly if the row has it. -/
theorem id_mem_iff (hs : s.Ordered) (hrow : row ∈ s.items.rows) {P : ItemRow → Prop}
    {rows : List ItemRow} (hrows : ∀ r, r ∈ rows ↔ r ∈ s.items.rows ∧ P r) :
    row.id ∈ rows.map (·.id) ↔ P row := by
  rw [List.mem_map]
  constructor
  · rintro ⟨r, hr, hid⟩
    obtain ⟨hmem, hP⟩ := (hrows r).mp hr
    rwa [hs.items.eq_of_id hmem hrow hid] at hP
  · exact fun hP => ⟨row, (hrows row).mpr ⟨hrow, hP⟩, rfl⟩

/-- All that is seen of a list that is switched on and not grey holds a row as an item that is not
deleted exactly if the row is active. -/
theorem exists_seen_of_row_iff (hs : s.Ordered) (hspanned : s.Spanned) (htimed : s.Timed)
    (hlisted : s.Listed) (hv : s.Versioned) (hrow : row ∈ s.items.rows) {list : IpList}
    (hlist : s.findEnabledList row.listId = .ok (some list)) (hgrey : list.type ≠ .grey)
    {items : List Item} (hitems : s.itemsAfter 0 (-1) = .ok items) :
    (∃ p ∈ s.seen now items, p.id = row.id ∧ p.isDeleted = false) ↔ row.isActive now := by
  constructor
  · rintro ⟨p, hp, hid, hdeleted⟩
    obtain ⟨r, hr, -, hsees⟩ := (mem_seen_iff hlisted hitems).mp hp
    obtain rfl := hs.items.eq_of_id hr hrow (hsees.ids.1.symm.trans hid)
    exact (hsees.isActive_iff htimed hr hlist).mp hdeleted
  · intro hactive
    rcases grey_or_sees hspanned hlisted now hrow with ⟨found, hfound, hgrey'⟩ | ⟨p, hsees⟩
    · rw [findEnabledList_eq_some hlist] at hfound
      cases hfound
      exact absurd hgrey' hgrey
    · exact ⟨p, (mem_seen_iff hlisted hitems).mpr ⟨row, hrow, hv.positive row hrow, hsees⟩,
        hsees.ids.1, (hsees.isActive_iff htimed hrow hlist).mpr hactive⟩

end Store

/-- In every reachable state all readers agree on whether an item is there, and they agree with its
row: an administrator is told that it exists, and is given it; the pages of its list hold it, and
as many items are counted and shown as there are such rows; the pages of a search hold its id; and
if its list is switched on and not grey, all that a node pulls holds it as not deleted. While the
tables cannot be reached, none of these calls is answered. -/
theorem activity_shown_alike {st : State} (h : Reachable st) {row : ItemRow}
    (hrow : row ∈ st.store.items.rows) :
    (st.isOpen → ∃ (exist : Bool) (found : Option Item) (views : List ItemView) (ids : List Int)
        (items : List PulledItem),
      (∀ (gate : Gate) (token : Option String) (caller : Caller),
        gate.authenticate token = .ok caller → caller.kind = .admin →
          gate.Answers token st row exist found views ids) ∧
      (∀ (gate : Gate) (token : Option String) (caller : Caller),
        gate.authenticate token = .ok caller → caller.pulls →
          ∀ sizes : Nat → Int, (∀ i, 0 < sizes i) →
            ∃ n cursor, (outcome (drain gate token ((List.range n).map sizes) 0) st).1 =
              .ok (some ⟨items, cursor⟩)) ∧
      (exist ↔ row.isActive st.now) ∧
      (found.isSome ↔ row.isActive st.now) ∧
      (row.id ∈ views.map (·.item.id) ↔ row.isActive st.now) ∧
      views.length =
        st.store.items.rows.countP (fun r => r.listId == row.listId && r.isActive st.now) ∧
      (row.id ∈ ids ↔ row.isActive st.now) ∧
      ∀ list, st.store.findEnabledList row.listId = .ok (some list) → list.type ≠ .grey →
        ((∃ p ∈ items, p.id = row.id ∧ p.isDeleted = false) ↔ row.isActive st.now)) ∧
    (¬st.isOpen → ∀ (gate : Gate) (token : Option String) (caller : Caller),
      gate.authenticate token = .ok caller → ∀ offset size : Int,
        (caller.kind = .admin → ∀ call ∈ [Call.existsItem row.id, .findItem row.id,
          .countInList (.unfiltered row.listId), .listInList (.unfiltered row.listId) offset size,
          .searchIds {} offset size],
          (outcome (gate.serve token call) st).1 = .error (.storage .closed)) ∧
        (caller.pulls → (outcome (gate.serve token (.pullItems offset size)) st).1 =
          .error (.storage .closed))) := by
  have hs := h.ordered
  have hspanned := h.spanned
  have htimed := h.holds Store.invariant_timed
  refine ⟨fun hopen => ?_, fun hclosed gate token caller hauth offset size => ⟨?_, ?_⟩⟩
  · obtain ⟨found, hfound, hsome⟩ := Store.exists_findActiveItem hs hspanned htimed hrow st.now
    obtain ⟨listed, hlisted, hmem, hlength⟩ := st.store.exists_filterList row.listId st.now
    obtain ⟨shown, hshown⟩ := hspanned.mapM_toItem fun r hr => ((hmem r).mp hr).1
    obtain ⟨searched, hsearched⟩ : ∃ rows,
        st.store.search .page .everywhere .unfiltered st.now = .ok rows := ⟨_, rfl⟩
    obtain ⟨items, hitems⟩ := hspanned.itemsAfter (max 0 0) (-1)
    refine ⟨st.store.existsActiveItem row.id st.now, found, shown.map (Contents.view st),
      searched.map (·.id), st.store.seen st.now items, ?admin, ?node, ?exist, hsome, ?view, ?count,
      ?id, ?seen⟩
    case admin =>
      intro gate token caller hauth hadmin
      exact Gate.answers hauth hadmin hopen hfound hlisted hshown hsearched
    case node =>
      intro gate token caller hauth hcaller sizes hsizes
      obtain ⟨n, -, st', hdrain, -⟩ :=
        outcome_drain h.coherent hopen hs h.versioned hauth hcaller sizes hsizes hitems
      exact ⟨n, _, congrArg Prod.fst hdrain⟩
    case exist => rw [Store.existsActiveItem_eq hs hrow]
    case view =>
      have hids : (shown.map (Contents.view st)).map (·.item.id) = shown.map (·.id) := List.map_map
      rw [hids, map_of_mapM (fun _ _ htoItem => (ItemRow.toItem_eq_ok htoItem).1) hshown,
        Store.id_mem_iff hs hrow hmem]
      exact and_iff_right rfl
    case count =>
      rw [List.length_map, length_of_mapM hshown, hlength]
    case id => exact Store.id_mem_iff hs hrow (Store.mem_search_unfiltered hsearched)
    case seen =>
      intro list hlist hgrey
      exact Store.exists_seen_of_row_iff hs hspanned htimed h.listed h.versioned hrow hlist hgrey
        hitems
  · intro hadmin call hcall
    have hclosed' : ¬(st.counted call).isOpen := hclosed
    rw [Gate.reply_serve hauth, Call.run_of_closed hadmin hclosed' gate.settings hcall]
  · intro hcaller
    have hclosed' : ¬(st.counted (.pullItems offset size)).isOpen := hclosed
    rw [Gate.reply_serve hauth, Call.run_pullItems_of_closed hcaller hclosed' gate.settings]

/-- Of two items one has come to its time and the other one comes to it in a second. -/
theorem activity_shown_alike_of_expiry :
    let st := State.after { now := 0 } (adminCalls [.createList publicBlackList,
      .createItem { listId := 1, value := "10.0.0.1", expiredAt := 9 },
      .createItem { listId := 1, value := "10.0.0.2", expiredAt := 10 }] ++ [.time 9])
    let serve := fun call => (outcome (adminGate.serve (some "key") call) st).1
    serve (.existsItem 1) = .ok (.found false) ∧ serve (.existsItem 2) = .ok (.found true) ∧
      serve (.countInList (.unfiltered 1)) = .ok (.count 1) ∧
      ∃ ids items n m cursor,
        (outcome (collectIds adminGate (some "key") {} ((List.range n).map fun _ => 1) 0) st).1 =
          .ok (some ids) ∧ 1 ∉ ids ∧
        (outcome (drain adminGate (some "key") ((List.range m).map fun _ => 1) 0) st).1 =
          .ok (some ⟨items, cursor⟩) ∧ ∃ p ∈ items, p.id = 2 ∧ p.isDeleted = false := by
  intro st serve
  have hreach : Reachable st := reachable_after 0 _
  have hopen : st.isOpen := by decide +kernel
  obtain ⟨list, hlist, htype⟩ : ∃ list, st.store.findEnabledList 1 = .ok (some list) ∧
      list.type = .black :=
    ⟨⟨1, "blocked", .black, true, true, none, none, "", true, 0⟩, by decide +kernel, rfl⟩
  obtain ⟨past, hpast, hpastId, hpastActive⟩ : ∃ row ∈ st.store.items.rows, row.id = 1 ∧
      row.isActive st.now = false := by decide +kernel
  obtain ⟨still, hstill, hstillId, hstillList, hstillActive⟩ : ∃ row ∈ st.store.items.rows,
      row.id = 2 ∧ row.listId = 1 ∧ row.isActive st.now := by decide +kernel
  have hcount : st.store.items.rows.countP (fun r => r.listId == 1 && r.isActive st.now) = 1 := by
    decide +kernel
  obtain ⟨gone, _, _, ids, _, hadmin, -, hgone, -, -, -, hids, -⟩ :=
    (activity_shown_alike hreach hpast).1 hopen
  obtain ⟨there, _, views, _, items, hadmin', hnode, hthere, -, -, hviews, -, hseen⟩ :=
    (activity_shown_alike hreach hstill).1 hopen
  have hanswers := hadmin adminGate (some "key") ⟨.admin, 1⟩ rfl rfl
  have hanswers' := hadmin' adminGate (some "key") ⟨.admin, 1⟩ rfl rfl
  obtain ⟨n, hpages⟩ := hanswers.ids (fun _ => 1) fun _ => by decide
  obtain ⟨m, cursor, hdrain⟩ := hnode adminGate (some "key") ⟨.admin, 1⟩ rfl
    (by simp [Caller.pulls]) (fun _ => 1) (by simp)
  rw [hpastActive, hpastId] at hids
  rw [hpastActive] at hgone
  rw [hstillList] at hseen hviews
  rw [hstillActive, hstillId] at hseen
  have hfalse : gone = false := by simpa using hgone
  have htrue : there = true := hthere.mpr hstillActive
  have hexist := hanswers.exist
  have hexist' := hanswers'.exist
  have hcounted := hanswers'.count
  rw [hpastId, hfalse] at hexist
  rw [hstillId, htrue] at hexist'
  rw [hstillList, hviews, hcount] at hcounted
  refine ⟨hexist, hexist', hcounted, ids, items, n, m, cursor, hpages, by simpa using hids, hdrain,
    (hseen list hlist (by rw [htype]; decide)).mpr rfl⟩

end FirewallLists
