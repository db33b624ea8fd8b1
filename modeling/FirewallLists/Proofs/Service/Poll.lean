import FirewallLists.Proofs.Service.Calls
import FirewallLists.Proofs.Service.Reply
import FirewallLists.Proofs.Versions

/-
  What a pull answers. The rows of a page are the first ones above the cursor in the order of their
  versions, so no row below the last version of a page is left out (`mem_rowsAfter_of_le`), and a
  page that is not full holds all rows. Lists that are remembered are as they are stored, so each
  row is seen with its list (`serve_pullItems_eq_ok`), and a node that is let in gets its page
  whenever the rows can be read (`Gate.serve_pullItems`).
-/

namespace FirewallLists

open ServiceM

namespace Store

variable {s : Store} {version size : Int}

/-! ## Rows above a version -/

/-- The rows of a page come first among the rows above its version, and a page that is not full
holds all of them. -/
theorem rowsAfter_append (s : Store) (version size : Int) :
    ∃ rest, s.rowsAfter version size ++ rest = s.rowsAfter version (-1) ∧
      (((s.rowsAfter version size).length : Int) ≠ size → rest = []) := by
  unfold rowsAfter
  generalize (s.items.rows.filter fun r => version < r.version).mergeSort
    (fun a b => a.version ≤ b.version) = rows
  simp only [page, Int.toNat_zero, List.drop_zero]
  by_cases hsize : size < 0
  · rw [if_pos hsize]
    exact ⟨[], by simp⟩
  · rw [if_neg hsize]
    refine ⟨rows.drop size.toNat, List.take_append_drop _ _, fun hfull => ?_⟩
    rw [List.length_take] at hfull
    rw [List.drop_eq_nil_iff]
    omega

theorem pairwise_rowsAfter (s : Store) (version : Int) :
    (s.rowsAfter version (-1)).Pairwise fun r q => r.version ≤ q.version := by
  have hsorted := @List.pairwise_mergeSort _ (fun r q : ItemRow => r.version ≤ q.version)
    (by simp only [decide_eq_true_eq]; omega)
    (by simp only [Bool.or_eq_true, decide_eq_true_eq]; omega)
    (s.items.rows.filter fun r => version < r.version)
  simpa [rowsAfter, page] using hsorted

/-- Rows whose versions ascend already need no sorting. -/
theorem itemsAfter_of_ascending (h : (s.items.rows.filter fun r => version < r.version).Pairwise
      fun r q => r.version ≤ q.version) :
    s.itemsAfter version size =
      (page 0 size (s.items.rows.filter fun r => version < r.version)).mapM (·.toItem) := by
  rw [itemsAfter, rowsAfter, List.mergeSort_of_pairwise (h.imp fun hle => by simpa using hle)]

theorem nodup_ids_rowsAfter (hs : s.Ordered) (version size : Int) :
    ((s.rowsAfter version size).map (·.id)).Nodup := by
  have hall : ((s.rowsAfter version (-1)).map (·.id)).Nodup := by
    have hperm := List.mergeSort_perm (s.items.rows.filter fun r => version < r.version)
      fun r q => r.version ≤ q.version
    have hrows := (hperm.map (·.id)).nodup_iff.mpr (nodup_ids_filter hs.items _)
    simpa [rowsAfter, page] using hrows
  obtain ⟨rest, happend, -⟩ := rowsAfter_append s version size
  rw [← happend, List.map_append] at hall
  exact (List.nodup_append.mp hall).1

theorem mem_of_mem_rowsAfter {r : ItemRow} (h : r ∈ s.rowsAfter version size) :
    r ∈ s.items.rows ∧ version < r.version := by
  obtain ⟨rest, happend, -⟩ := rowsAfter_append s version size
  rw [← mem_rowsAfter, ← happend]
  exact List.mem_append_left _ h

/-- A page leaves out no row below one that it holds. -/
theorem mem_rowsAfter_of_le (hs : s.Ordered) (hv : s.Versioned) {q r : ItemRow}
    (hq : q ∈ s.items.rows) (hlow : version < q.version) (hr : r ∈ s.rowsAfter version size)
    (hle : q.version ≤ r.version) : q ∈ s.rowsAfter version size := by
  obtain ⟨rest, happend, -⟩ := rowsAfter_append s version size
  have hmem : q ∈ s.rowsAfter version (-1) := mem_rowsAfter.mpr ⟨hq, hlow⟩
  rw [← happend, List.mem_append] at hmem
  rcases hmem with hmem | hrest
  · exact hmem
  · -- a row that comes later has at least this version, and no other row has the same
    have hsorted := pairwise_rowsAfter s version
    rw [← happend, List.pairwise_append] at hsorted
    have hge := hsorted.2.2 r hr q hrest
    have hrow := (mem_of_mem_rowsAfter hr).1
    have hid := hv.distinct q hq r hrow (by omega)
    rw [hs.items.eq_of_id hq hrow hid]
    exact hr

end Store

/-! ## Items of rows -/

section

variable {ε α β : Type} {f : α → Except ε β} {xs : List α} {ys : List β}

theorem exists_of_mem_of_mapM {x : α} (h : xs.mapM f = .ok ys) (hx : x ∈ xs) :
    ∃ y ∈ ys, f x = .ok y := by
  induction xs generalizing ys with
  | nil => cases hx
  | cons x' xs ih =>
    rw [List.mapM_cons] at h
    obtain ⟨y, hy, h⟩ := bind_eq_ok.mp h
    obtain ⟨rest, hrest, h⟩ := bind_eq_ok.mp h
    cases h
    rcases List.mem_cons.mp hx with rfl | hx
    · exact ⟨y, List.mem_cons_self, hy⟩
    · obtain ⟨y', hy', hfy'⟩ := ih hrest hx
      exact ⟨y', List.mem_cons_of_mem _ hy', hfy'⟩

theorem exists_of_mem_mapM {y : β} (h : xs.mapM f = .ok ys) (hy : y ∈ ys) :
    ∃ x ∈ xs, f x = .ok y := by
  induction xs generalizing ys with
  | nil => cases h; cases hy
  | cons x xs ih =>
    rw [List.mapM_cons] at h
    obtain ⟨z, hz, h⟩ := bind_eq_ok.mp h
    obtain ⟨rest, hrest, h⟩ := bind_eq_ok.mp h
    cases h
    rcases List.mem_cons.mp hy with rfl | hy
    · exact ⟨x, List.mem_cons_self, hz⟩
    · obtain ⟨x', hx', hfx'⟩ := ih hrest hy
      exact ⟨x', List.mem_cons_of_mem _ hx', hfx'⟩

/-- What is read off the results can be read off what they are results of. -/
theorem map_of_mapM {γ : Type} {g : α → γ} {k : β → γ} (hgk : ∀ x y, f x = .ok y → k y = g x)
    (h : xs.mapM f = .ok ys) : ys.map k = xs.map g := by
  induction xs generalizing ys with
  | nil => cases h; rfl
  | cons x xs ih =>
    rw [List.mapM_cons] at h
    obtain ⟨y, hy, h⟩ := bind_eq_ok.mp h
    obtain ⟨rest, hrest, h⟩ := bind_eq_ok.mp h
    cases h
    rw [List.map_cons, List.map_cons, hgk x y hy, ih hrest]

theorem length_of_mapM (h : xs.mapM f = .ok ys) : ys.length = xs.length := by
  have hunits : ys.map (fun _ => ()) = xs.map fun _ => () := map_of_mapM (fun _ _ _ => rfl) h
  simpa using congrArg List.length hunits

end

namespace ItemRow

variable {r : ItemRow} {item : Item}

theorem toItem_eq_ok (h : r.toItem = .ok item) :
    item.id = r.id ∧ item.listId = r.listId ∧ item.version = r.version := by
  unfold toItem at h
  obtain ⟨type, -, h⟩ := bind_eq_ok.mp h
  cases h
  exact ⟨rfl, rfl, rfl⟩

/-- Rows that agree hold items that agree. -/
theorem Agrees.toItem {q : ItemRow} (h : r.Agrees q) (hr : r.toItem = .ok item) :
    ∃ isRead, q.toItem = .ok { item with isRead := isRead } := by
  obtain ⟨n, rfl⟩ := h
  unfold ItemRow.toItem at hr ⊢
  obtain ⟨type, htype, hr⟩ := bind_eq_ok.mp hr
  cases hr
  exact ⟨n ≠ 0, bind_eq_ok.mpr ⟨type, htype, rfl⟩⟩

end ItemRow

namespace Store

variable {s : Store} {version size : Int} {items : List Item}

/-- The items of a page have the ids and versions of its rows. -/
theorem map_itemsAfter (h : s.itemsAfter version size = .ok items) :
    items.map (fun item => (item.id, item.version)) =
      (s.rowsAfter version size).map fun r => (r.id, r.version) := by
  refine map_of_mapM (fun r item hitem => ?_) h
  obtain ⟨hid, -, hversion⟩ := ItemRow.toItem_eq_ok hitem
  rw [hid, hversion]

theorem length_itemsAfter (h : s.itemsAfter version size = .ok items) :
    items.length = (s.rowsAfter version size).length :=
  length_of_mapM h

theorem nodup_ids_itemsAfter (hs : s.Ordered) (h : s.itemsAfter version size = .ok items) :
    (items.map (·.id)).Nodup := by
  have hids := congrArg (List.map Prod.fst) (map_itemsAfter h)
  rw [List.map_map, List.map_map] at hids
  have hrows := nodup_ids_rowsAfter hs version size
  exact hids ▸ hrows

/-- Each item of a page is the item of one of its rows. -/
theorem exists_row_of_itemsAfter (h : s.itemsAfter version size = .ok items) {item : Item}
    (hitem : item ∈ items) : ∃ r ∈ s.rowsAfter version size, r.toItem = .ok item :=
  exists_of_mem_mapM h hitem

end Store

/-- The highest of these versions, or the one to go on from. -/
theorem foldl_max_version {α : Type} (version : α → Int) (xs : List α) (cursor : Int) :
    cursor ≤ xs.foldl (fun v x => max v (version x)) cursor ∧
      (∀ x ∈ xs, version x ≤ xs.foldl (fun v x => max v (version x)) cursor) ∧
      (xs.foldl (fun v x => max v (version x)) cursor = cursor ∨
        ∃ x ∈ xs, version x = xs.foldl (fun v x => max v (version x)) cursor) := by
  induction xs generalizing cursor with
  | nil => exact ⟨Int.le_refl _, by simp, Or.inl rfl⟩
  | cons x xs ih =>
    obtain ⟨hle, hall, hattained⟩ := ih (max cursor (version x))
    rw [List.foldl_cons]
    refine ⟨by omega, fun y hy => ?_, ?_⟩
    · rcases List.mem_cons.mp hy with rfl | hy
      · omega
      · exact hall y hy
    · rcases hattained with hsame | ⟨y, hy, heq⟩
      · by_cases hnew : cursor ≤ version x
        · exact Or.inr ⟨x, List.mem_cons_self, by omega⟩
        · exact Or.inl (by omega)
      · exact Or.inr ⟨y, List.mem_cons_of_mem _ hy, heq⟩

/-- A page holds every row between the version that was asked for and the one it gives. -/
theorem Store.mem_rowsAfter_of_le_last {s : Store} {version size : Int} {items : List Item}
    (hs : s.Ordered) (hv : s.Versioned) (h : s.itemsAfter version size = .ok items) {r : ItemRow}
    (hr : r ∈ s.items.rows) (hlow : version < r.version)
    (hle : r.version ≤ items.foldl (fun v item => max v item.version) version) :
    r ∈ s.rowsAfter version size := by
  rcases (foldl_max_version Item.version items version).2.2 with hsame | ⟨item, hitem, heq⟩
  · omega
  · obtain ⟨q, hq, htoItem⟩ := exists_row_of_itemsAfter h hitem
    have hversion := (ItemRow.toItem_eq_ok htoItem).2.2
    exact mem_rowsAfter_of_le hs hv hr hlow hq (by omega)

/-- After a page that is not full no row is above the version that it gives. -/
theorem Store.le_last_of_not_full {s : Store} {version size : Int} {items : List Item}
    (h : s.itemsAfter version size = .ok items) (hfull : (items.length : Int) ≠ size)
    {r : ItemRow} (hr : r ∈ s.items.rows) :
    r.version ≤ items.foldl (fun v item => max v item.version) version := by
  obtain ⟨hle, hall, -⟩ := foldl_max_version Item.version items version
  by_cases hlow : r.version ≤ version
  · omega
  · obtain ⟨rest, happend, hrest⟩ := s.rowsAfter_append version size
    rw [length_itemsAfter h] at hfull
    rw [hrest hfull, List.append_nil] at happend
    have hmem : r ∈ s.rowsAfter version size := by
      rw [happend]
      exact mem_rowsAfter.mpr ⟨hr, by omega⟩
    obtain ⟨item, hitem, htoItem⟩ := exists_of_mem_of_mapM h hmem
    rw [← (ItemRow.toItem_eq_ok htoItem).2.2]
    exact hall item hitem

/-! ## Lists that are remembered -/

/-- Nothing has happened between the states but that lists have been remembered or counters have
gone up; what is remembered is as it is stored. -/
structure State.Recalls (st st' : State) : Prop where
  store : st'.store = st.store
  isOpen : st'.isOpen = st.isOpen
  now : st'.now = st.now
  coherent : st'.Coherent

theorem State.Recalls.trans {st st₁ st₂ : State} (h : st.Recalls st₁) (h' : st₁.Recalls st₂) :
    st.Recalls st₂ :=
  ⟨h'.store.trans h.store, h'.isOpen.trans h.isOpen, h'.now.trans h.now, h'.coherent⟩

/-- Nothing has happened but that lists have been remembered as they are stored. -/
structure State.Remembers (st st' : State) : Prop where
  bare : st'.bare = st.bare
  coherent : st'.Coherent

theorem State.Coherent.remembers {st : State} (h : st.Coherent) : st.Remembers st :=
  ⟨rfl, h⟩

theorem State.Remembers.trans {st st₁ st₂ : State} (h : st.Remembers st₁)
    (h' : st₁.Remembers st₂) : st.Remembers st₂ :=
  ⟨h'.bare.trans h.bare, h'.coherent⟩

theorem State.Remembers.recalls {st st' : State} (h : st.Remembers st') : st.Recalls st' where
  store := show st'.bare.store = st.bare.store by rw [h.bare]
  isOpen := show st'.bare.isOpen = st.bare.isOpen by rw [h.bare]
  now := show st'.bare.now = st.bare.now by rw [h.bare]
  coherent := h.coherent

/-- A list as it is stored; one that cannot be read counts as gone. -/
def Store.listOrGone (s : Store) (id : Int) : Option IpList :=
  match s.findList id with
  | .ok list => list
  | .error _ => none

/-- What is seen of these items at a time, each with its list as it is stored. -/
def Store.seen (s : Store) (now : Int) (items : List Item) : List PulledItem :=
  items.filterMap fun item => Pull.project item (s.listOrGone item.listId) now

namespace Lists

/-- A list is found as it is stored, from memory or not. -/
theorem outcome_findRemembered {st : State} (hst : st.Coherent) (hopen : st.isOpen)
    (cfg : Settings) (id : Int) :
    ∃ st', outcome (findRemembered cfg id) st = ((st.store.findList id).mapError .storage, st') ∧
      st.Remembers st' := by
  have hquery : outcome (query (·.findList id)) st =
      ((st.store.findList id).mapError .storage, st) := by
    rw [outcome_query, State.tables, if_pos hopen]
    rfl
  unfold findRemembered
  split
  · rw [outcome_bind, outcome_get]
    dsimp only
    split
    · next entry hentry =>
      have hid : entry.1 = id := by simpa using List.find?_some hentry
      have hfound := hst entry (List.mem_of_find?_eq_some hentry)
      rw [hid] at hfound
      refine ⟨st, ?_, hst.remembers⟩
      rw [hfound]
      rfl
    · rw [outcome_bind, hquery]
      cases hfound : st.store.findList id with
      | error e => exact ⟨st, rfl, hst.remembers⟩
      | ok list =>
        refine ⟨_, rfl, rfl, ?_⟩
        exact (leads_remember hfound).coherent hst
  · exact ⟨st, hquery, hst.remembers⟩

end Lists

namespace Pull

theorem outcome_listOrGone {st : State} (hst : st.Coherent) (hopen : st.isOpen) (cfg : Settings)
    (id : Int) :
    ∃ st', outcome (listOrGone cfg id) st = (.ok (st.store.listOrGone id), st') ∧
      st.Remembers st' := by
  obtain ⟨st', hout, hremembers⟩ := Lists.outcome_findRemembered hst hopen cfg id
  refine ⟨st', ?_, hremembers⟩
  unfold listOrGone Store.listOrGone
  rw [outcome_bind, outcome_attempt, hout]
  cases st.store.findList id <;> rfl

/-- Every item is seen with its list as it is stored. -/
theorem outcome_projectAll {st : State} (hst : st.Coherent) (hopen : st.isOpen) (cfg : Settings)
    (time : Int) (items : List Item) :
    ∃ st', outcome (projectAll cfg time items) st = (.ok (st.store.seen time items), st') ∧
      st.Remembers st' := by
  induction items generalizing st with
  | nil => exact ⟨st, rfl, hst.remembers⟩
  | cons item items ih =>
    obtain ⟨st₁, hlist, hremembers⟩ := outcome_listOrGone hst hopen cfg item.listId
    have hrecalls := hremembers.recalls
    obtain ⟨st₂, hrest, hremembers'⟩ := ih hrecalls.coherent (hrecalls.isOpen.trans hopen)
    refine ⟨st₂, ?_, hremembers.trans hremembers'⟩
    rw [projectAll, outcome_bind, hlist]
    dsimp only
    rw [outcome_bind, hrest, hrecalls.store]
    unfold Store.seen
    cases hseen : project item (st.store.listOrGone item.listId) time <;> simp [hseen]

/-- What a page holds. -/
theorem itemsAfter_eq_ok {cfg : Settings} {caller : Caller} {version size : Int} {page : Page}
    {st st' : State} (hst : st.Coherent)
    (h : outcome (itemsAfter cfg caller version size) st = (.ok page, st')) :
    ∃ items, st.store.itemsAfter (max version 0) (cfg.pullSize size) = .ok items ∧
      page = ⟨st.store.seen st.now items,
        items.foldl (fun v item => max v item.version) (max version 0),
        (items.length : Int) == cfg.pullSize size⟩ ∧
      st.Recalls st' := by
  obtain ⟨_, -, h⟩ := (looks_require _ _).bind_eq_ok h
  obtain ⟨items, hopen, hitems, h⟩ := outcome_query_bind_eq_ok.mp h
  obtain ⟨time, htime, h⟩ := looks_now.bind_eq_ok h
  cases htime
  obtain ⟨seen, st₁, hseen, h⟩ := outcome_bind_eq_ok.mp h
  obtain ⟨st₂, hproject, hremembers⟩ := outcome_projectAll hst hopen cfg st.now items
  have hrecalls := hremembers.recalls
  rw [hproject] at hseen
  cases hseen
  cases h
  exact ⟨items, hitems, rfl, hrecalls.store, hrecalls.isOpen, hrecalls.now, hrecalls.coherent⟩

end Pull

/-- What a page that comes through the gate holds. -/
theorem serve_pullItems_eq_ok {gate : Gate} {token : Option String} {version size : Int}
    {page : Pull.Page} {st st' : State} (hst : st.Coherent)
    (h : outcome (gate.serve token (.pullItems version size)) st = (.ok (.page page), st')) :
    ∃ items, st.store.itemsAfter (max version 0) (gate.settings.pullSize size) = .ok items ∧
      page = ⟨st.store.seen st.now items,
        items.foldl (fun v item => max v item.version) (max version 0),
        (items.length : Int) == gate.settings.pullSize size⟩ ∧
      st.Recalls st' := by
  obtain ⟨caller, -, hrun⟩ := Gate.serve_eq_ok h
  obtain ⟨page', hpull, hreply⟩ := outcome_map_eq_ok.mp hrun
  cases hreply
  have hcounted : (st.counted (.pullItems version size)).Coherent := hst
  obtain ⟨items, hitems, hpage, hrecalls⟩ := Pull.itemsAfter_eq_ok hcounted hpull
  exact ⟨items, hitems, hpage, hrecalls.store, hrecalls.isOpen, hrecalls.now, hrecalls.coherent⟩

/-! ## Polls that are answered -/

/-- The callers that may pull. -/
def Caller.pulls (caller : Caller) : Prop :=
  caller.kind ∈ [CallerKind.admin, .node]

theorem Caller.pulls.outcome_require {caller : Caller} (h : caller.pulls) (st : State) :
    outcome (ServiceM.require caller [.admin, .node]) st = (.ok (), st) := by
  refine outcome_require_of_mem st h ?_
  intro huser
  rw [pulls, huser] at h
  simp at h

namespace Pull

theorem outcome_itemsAfter (cfg : Settings) {caller : Caller} {version size : Int}
    {items : List Item} {st : State} (hst : st.Coherent) (hopen : st.isOpen)
    (hcaller : caller.pulls)
    (hitems : st.store.itemsAfter (max version 0) (cfg.pullSize size) = .ok items) :
    ∃ st', outcome (itemsAfter cfg caller version size) st =
        (.ok ⟨st.store.seen st.now items,
          items.foldl (fun v item => max v item.version) (max version 0),
          (items.length : Int) == cfg.pullSize size⟩, st') ∧
      st.Recalls st' := by
  have hquery : outcome (query (·.itemsAfter (max version 0) (cfg.pullSize size))) st =
      (.ok items, st) := by
    rw [outcome_query_of_isOpen hopen, hitems]
    rfl
  obtain ⟨st₁, hseen, hremembers⟩ := outcome_projectAll hst hopen cfg st.now items
  have hrecalls := hremembers.recalls
  refine ⟨
    { st₁ with counters := st₁.counters.add .itemsServed (st.store.seen st.now items).length },
    ?_, hrecalls.store, hrecalls.isOpen, hrecalls.now, hrecalls.coherent⟩
  rw [itemsAfter, outcome_bind_of_ok (hcaller.outcome_require st)]
  dsimp only
  rw [outcome_bind_of_ok hquery, outcome_bind_of_ok (outcome_now st), outcome_bind_of_ok hseen]
  exact outcome_bind_of_ok (outcome_modify _ st₁)

end Pull

/-- A poll with a token that is let in is answered with a page. -/
theorem Gate.serve_pullItems {gate : Gate} {token : Option String} {caller : Caller}
    {version size : Int} {items : List Item} {st : State} (hst : st.Coherent) (hopen : st.isOpen)
    (hauth : gate.authenticate token = .ok caller) (hcaller : caller.pulls)
    (hitems : st.store.itemsAfter (max version 0) (gate.settings.pullSize size) = .ok items) :
    ∃ st', outcome (gate.serve token (.pullItems version size)) st =
        (.ok (.page ⟨st.store.seen st.now items,
          items.foldl (fun v item => max v item.version) (max version 0),
          (items.length : Int) == gate.settings.pullSize size⟩), st') ∧
      st.Recalls st' := by
  have hcounted : (st.counted (.pullItems version size)).Coherent := hst
  obtain ⟨st', hpull, hrecalls⟩ :=
    Pull.outcome_itemsAfter gate.settings hcounted hopen hcaller hitems
  refine ⟨st', ?_, hrecalls.store, hrecalls.isOpen, hrecalls.now, hrecalls.coherent⟩
  refine Gate.serve_of_ok hauth ?_
  rw [Call.run, outcome_map, hpull]
  rfl

end FirewallLists
