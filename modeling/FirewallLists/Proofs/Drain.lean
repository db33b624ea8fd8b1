import FirewallLists.Proofs.Overlap
import FirewallLists.Proofs.Replica
import FirewallLists.Proofs.Service.Reply

/-
  Draining: a node that polls until a page is not full while nothing is written. A page is the first
  part of the rows above the cursor, and the page after it starts with the first row left out
  (`Store.itemsAfter_split`), since no two rows have one version. So whatever the sizes of its pages
  are, the node gets what is seen of all rows above the cursor that it started with, each once and
  in the order of their versions (`outcome_drain`).
-/

namespace FirewallLists

open ServiceM

/-! ## Rows in the order of their versions -/

namespace Store

variable {s : Store} {version size : Int}

theorem ascending_rowsAfter (hs : s.Ordered) (hv : s.Versioned) (version : Int) :
    (s.rowsAfter version (-1)).Pairwise fun r q => r.version < q.version := by
  have hids := nodup_ids_rowsAfter hs version (-1)
  rw [List.Nodup, List.pairwise_map] at hids
  refine ((pairwise_rowsAfter s version).and hids).imp_of_mem fun {r q} hr hq h => ?_
  have hne : r.version ≠ q.version := by
    intro heq
    exact h.2 (hv.distinct r (mem_rowsAfter.mp hr).1 q (mem_rowsAfter.mp hq).1 heq)
  have := h.1
  omega

/-- The rows above a later version are among those above an earlier one, in the same order. -/
theorem rowsAfter_eq_filter (hs : s.Ordered) (hv : s.Versioned) {later : Int}
    (hle : version ≤ later) :
    s.rowsAfter later (-1) = (s.rowsAfter version (-1)).filter fun r => later < r.version := by
  refine eq_of_ascending ItemRow.version (ascending_rowsAfter hs hv later)
    ((ascending_rowsAfter hs hv version).filter _) fun r => ?_
  rw [List.mem_filter, mem_rowsAfter, mem_rowsAfter, decide_eq_true_iff]
  constructor
  · rintro ⟨hr, hlow⟩
    exact ⟨⟨hr, by omega⟩, hlow⟩
  · rintro ⟨⟨hr, -⟩, hlow⟩
    exact ⟨hr, hlow⟩

/-- When all rows above a version can be read, a page holds the first of their items, and above the
version that the page gives are the others. -/
theorem itemsAfter_split (hs : s.Ordered) (hv : s.Versioned) {items : List Item}
    (h : s.itemsAfter version (-1) = .ok items) (size : Int) :
    ∃ first rest, items = first ++ rest ∧ s.itemsAfter version size = .ok first ∧
      s.itemsAfter (first.foldl (fun v item => max v item.version) version) (-1) = .ok rest ∧
      ((first.length : Int) ≠ size → rest = []) := by
  obtain ⟨after, happend, hafter⟩ := rowsAfter_append s version size
  have hall := h
  unfold itemsAfter at hall
  rw [← happend, List.mapM_append] at hall
  obtain ⟨first, hfirst, hall⟩ := bind_eq_ok.mp hall
  obtain ⟨rest, hrest, hall⟩ := bind_eq_ok.mp hall
  cases hall
  have hpage : s.itemsAfter version size = .ok first := hfirst
  obtain ⟨hle, hhigh, hattained⟩ := foldl_max_version Item.version first version
  refine ⟨first, rest, rfl, hpage, ?_, fun hfull => ?_⟩
  · have hrows : s.rowsAfter (first.foldl (fun v item => max v item.version) version) (-1) =
        after := by
      rw [rowsAfter_eq_filter hs hv hle, ← happend, List.filter_append,
        List.filter_eq_nil_iff.mpr, List.filter_eq_self.mpr, List.nil_append]
      · -- rows after the page are above the version that it was asked for and above its rows
        intro r hr
        rw [decide_eq_true_iff]
        have hmem : r ∈ s.rowsAfter version (-1) := happend ▸ List.mem_append_right _ hr
        rcases hattained with hsame | ⟨item, hitem, heq⟩
        · have hlow := (mem_rowsAfter.mp hmem).2
          omega
        · obtain ⟨q, hq, htoItem⟩ := exists_row_of_itemsAfter hpage hitem
          have hasc := ascending_rowsAfter hs hv version
          rw [← happend, List.pairwise_append] at hasc
          have hlt := hasc.2.2 q hq r hr
          have hversion := (ItemRow.toItem_eq_ok htoItem).2.2
          omega
      · intro r hr
        obtain ⟨item, hitem, htoItem⟩ := exists_of_mem_of_mapM hfirst hr
        have hlow := hhigh item hitem
        have hversion := (ItemRow.toItem_eq_ok htoItem).2.2
        rw [decide_eq_true_iff]
        omega
    rw [itemsAfter, hrows]
    exact hrest
  · rw [length_itemsAfter hpage] at hfull
    rw [hafter hfull] at hrest
    cases hrest
    rfl

end Store

/-! ## Rows can be read -/

theorem exists_mapM_eq_ok {ε α β : Type} {f : α → Except ε β} {xs : List α}
    (h : ∀ x ∈ xs, ∃ y, f x = .ok y) : ∃ ys, xs.mapM f = .ok ys := by
  induction xs with
  | nil => exact ⟨[], rfl⟩
  | cons x xs ih =>
    obtain ⟨y, hy⟩ := h x List.mem_cons_self
    obtain ⟨ys, hys⟩ := ih fun x' hx' => h x' (List.mem_cons_of_mem _ hx')
    refine ⟨y :: ys, ?_⟩
    rw [List.mapM_cons]
    exact bind_eq_ok.mpr ⟨y, hy, bind_eq_ok.mpr ⟨ys, hys, rfl⟩⟩

theorem Store.Spanned.itemsAfter {s : Store} (h : s.Spanned) (version size : Int) :
    ∃ items, s.itemsAfter version size = .ok items := by
  refine exists_mapM_eq_ok fun r hr => ?_
  obtain ⟨range, hrange⟩ := h r (Store.mem_of_mem_rowsAfter hr).1
  exact hrange.exists_item

/-! ## Polling until a page is not full -/

/-- All that a node has got, and the version to go on from. -/
structure Drained where
  items : List PulledItem
  cursor : Int

/-- Poll for pages of these sizes, each from the version that the page before it gives, until a page
is not full. There is no result when a poll gets no page, or the last page is full. -/
def drain (gate : Gate) (token : Option String) : List Int → Int → ServiceM (Option Drained)
  | [], _ => return none
  | size :: sizes, cursor => do
    match (← gate.serve token (.pullItems cursor size)).page? with
    | none => return none
    | some page =>
      if page.hasMore then
        let rest ← drain gate token sizes page.version
        return rest.map fun d => { d with items := page.items ++ d.items }
      else return some ⟨page.items, page.version⟩

section

variable {gate : Gate} {token : Option String} {cursor size : Int} {sizes : List Int}
  {page : Pull.Page} {st st₁ st₂ : State}

/-- A page that is not full is the last one. -/
theorem outcome_drain_last
    (hpoll : outcome (gate.serve token (.pullItems cursor size)) st = (.ok (.page page), st₁))
    (hmore : page.hasMore = false) :
    outcome (drain gate token (size :: sizes) cursor) st =
      (.ok (some ⟨page.items, page.version⟩), st₁) := by
  rw [drain, outcome_bind_of_ok hpoll]
  simp only [Reply.page?, hmore, Bool.false_eq_true, if_false]
  rfl

/-- After a full page the others follow. -/
theorem outcome_drain_more {d : Drained}
    (hpoll : outcome (gate.serve token (.pullItems cursor size)) st = (.ok (.page page), st₁))
    (hmore : page.hasMore = true)
    (hrest : outcome (drain gate token sizes page.version) st₁ = (.ok (some d), st₂)) :
    outcome (drain gate token (size :: sizes) cursor) st =
      (.ok (some { d with items := page.items ++ d.items }), st₂) := by
  rw [drain, outcome_bind_of_ok hpoll]
  simp only [Reply.page?, hmore, if_true]
  rw [outcome_bind_of_ok hrest]
  rfl

end

theorem Store.seen_append (s : Store) (now : Int) (first rest : List Item) :
    s.seen now (first ++ rest) = s.seen now first ++ s.seen now rest :=
  List.filterMap_append

theorem Settings.pullSize_of_pos (cfg : Settings) {size : Int} (h : 0 < size) :
    cfg.pullSize size = size := by
  rw [Settings.pullSize, if_neg (by omega)]

/-- A drain ends after at most one poll for each row above the cursor and one more, and it gets what
is seen of these rows. -/
theorem outcome_drain_of_pullSize {gate : Gate} {token : Option String} {caller : Caller} {st : State}
    {cursor : Int} {items : List Item} (hst : st.Coherent) (hopen : st.isOpen)
    (hs : st.store.Ordered) (hv : st.store.Versioned)
    (hauth : gate.authenticate token = .ok caller) (hcaller : caller.pulls)
    (sizes : Nat → Int) (hsizes : ∀ i, 0 < gate.settings.pullSize (sizes i))
    (hitems : st.store.itemsAfter (max cursor 0) (-1) = .ok items) :
    ∃ n ≤ items.length + 1, ∃ st', outcome (drain gate token ((List.range n).map sizes) cursor) st =
        (.ok (some ⟨st.store.seen st.now items,
          items.foldl (fun v item => max v item.version) (max cursor 0)⟩), st') ∧
      st.Recalls st' := by
  -- by induction on the rows left: a full page holds at least one of them
  induction hlength : items.length using Nat.strongRecOn
    generalizing st cursor items sizes with
  | _ left ih =>
    obtain ⟨first, rest, rfl, hfirst, hrest, hlast⟩ :=
      Store.itemsAfter_split hs hv hitems (gate.settings.pullSize (sizes 0))
    obtain ⟨st₁, hpoll, hrecalls⟩ := Gate.serve_pullItems hst hopen hauth hcaller hfirst
    have hnonneg := (foldl_max_version Item.version first (max cursor 0)).1
    rw [List.foldl_append, Store.seen_append]
    generalize first.foldl (fun v item => max v item.version) (max cursor 0) = version
      at hrest hpoll hnonneg
    by_cases hfull : (first.length : Int) = gate.settings.pullSize (sizes 0)
    · -- the others are drained from the version that the page gives
      have hpos := hsizes 0
      have hshorter : rest.length < left := by
        rw [List.length_append] at hlength
        omega
      have hstart : max version 0 = version := Int.max_eq_left (by omega)
      have hrest₁ : st₁.store.itemsAfter (max version 0) (-1) = .ok rest := by
        rw [hrecalls.store, hstart]
        exact hrest
      obtain ⟨n, hn, st₂, hdrain, hrecalls'⟩ := ih rest.length hshorter hrecalls.coherent
        (hrecalls.isOpen.trans hopen) (hrecalls.store ▸ hs) (hrecalls.store ▸ hv)
        (sizes ∘ Nat.succ) (fun i => hsizes (i + 1)) hrest₁ rfl
      rw [hrecalls.store, hrecalls.now, hstart] at hdrain
      refine ⟨n + 1, by omega, st₂, ?_, hrecalls.trans hrecalls'⟩
      rw [List.range_succ_eq_map, List.map_cons, List.map_map]
      exact outcome_drain_more hpoll (by simpa using hfull) hdrain
    · have hnone := hlast hfull
      subst hnone
      refine ⟨1, by omega, st₁, ?_, hrecalls⟩
      have hnothing : st.store.seen st.now [] = [] := rfl
      rw [hnothing, List.append_nil, List.foldl_nil, List.range_one, List.map_singleton]
      exact outcome_drain_last hpoll (by simpa using hfull)

/-- A node gets pages of the positive sizes that it asks for. -/
theorem outcome_drain {gate : Gate} {token : Option String} {caller : Caller} {st : State}
    {cursor : Int} {items : List Item} (hst : st.Coherent) (hopen : st.isOpen)
    (hs : st.store.Ordered) (hv : st.store.Versioned)
    (hauth : gate.authenticate token = .ok caller) (hcaller : caller.pulls)
    (sizes : Nat → Int) (hsizes : ∀ i, 0 < sizes i)
    (hitems : st.store.itemsAfter (max cursor 0) (-1) = .ok items) :
    ∃ n ≤ items.length + 1, ∃ st', outcome (drain gate token ((List.range n).map sizes) cursor) st =
        (.ok (some ⟨st.store.seen st.now items,
          items.foldl (fun v item => max v item.version) (max cursor 0)⟩), st') ∧
      st.Recalls st' := by
  refine outcome_drain_of_pullSize hst hopen hs hv hauth hcaller sizes (fun i => ?_) hitems
  rw [gate.settings.pullSize_of_pos (hsizes i)]
  exact hsizes i

/-! ## What is seen of a row -/

/-- What is seen of an item has its version, type and bounds. -/
theorem Pull.project_columns {item : Item} {list : Option IpList} {now : Int} {p : PulledItem}
    (h : project item list now = some p) :
    p.version = item.version ∧ p.type = item.type ∧ p.ipFrom = item.ipFrom ∧
      p.ipTo = item.ipTo := by
  unfold project at h
  split at h
  · cases h
  · cases h
    exact ⟨rfl, rfl, rfl, rfl⟩

/-- What nodes see of an item of a list that is not grey. -/
def Store.Sees (s : Store) (now : Int) (r : ItemRow) (p : PulledItem) : Prop :=
  ∃ item list, r.toItem = .ok item ∧ s.findList r.listId = .ok (some list) ∧ list.type ≠ .grey ∧
    Pull.project item (some list) now = some p

namespace Store

variable {s : Store} {now low : Int} {items : List Item}

theorem Sees.version {r : ItemRow} {p : PulledItem} (h : s.Sees now r p) :
    p.version = r.version := by
  obtain ⟨item, list, hitem, -, -, hproject⟩ := h
  rw [← (ItemRow.toItem_eq_ok hitem).2.2]
  exact (Pull.project_columns hproject).1

/-- Of a row that can be read and has its list, nothing is seen only if the list is grey. -/
theorem grey_or_sees (hspanned : s.Spanned) (hlisted : s.Listed) (now : Int) {r : ItemRow}
    (hr : r ∈ s.items.rows) :
    (∃ list, s.findList r.listId = .ok (some list) ∧ list.type = .grey) ∨ ∃ p, s.Sees now r p := by
  obtain ⟨range, hrange⟩ := hspanned r hr
  obtain ⟨item, hitem⟩ := hrange.exists_item
  obtain ⟨list, hlist⟩ := hlisted r hr
  by_cases hgrey : list.type = .grey
  · exact Or.inl ⟨list, hlist, hgrey⟩
  · refine Or.inr ?_
    cases hproject : Pull.project item (some list) now with
    | none =>
      obtain ⟨_, hsame, hgrey'⟩ := Pull.project_eq_none.mp hproject
      cases hsame
      exact absurd hgrey' hgrey
    | some p => exact ⟨p, item, list, hitem, hlist, hgrey, hproject⟩

/-- What is seen of the rows above a version. -/
theorem mem_seen_iff (hlisted : s.Listed)
    (hitems : s.itemsAfter low (-1) = .ok items) {p : PulledItem} :
    p ∈ s.seen now items ↔ ∃ r ∈ s.items.rows, low < r.version ∧ s.Sees now r p := by
  constructor
  · intro hp
    obtain ⟨r, hr, item, hitem, hproject, -, -⟩ := Node.exists_row_of_seen hitems hp
    obtain ⟨hrow, hlow⟩ := mem_rowsAfter.mp hr
    obtain ⟨list, hlist⟩ := hlisted r hrow
    rw [listOrGone_eq_some hlist] at hproject
    refine ⟨r, hrow, hlow, item, list, hitem, hlist, fun hgrey => ?_, hproject⟩
    rw [Pull.project_eq_none.mpr ⟨list, rfl, hgrey⟩] at hproject
    cases hproject
  · rintro ⟨r, hr, hlow, item, list, hitem, hlist, -, hproject⟩
    obtain ⟨item', hmem, hitem'⟩ := exists_of_mem_of_mapM hitems (mem_rowsAfter.mpr ⟨hr, hlow⟩)
    rw [hitem] at hitem'
    cases hitem'
    refine List.mem_filterMap.mpr ⟨item, hmem, ?_⟩
    rw [(ItemRow.toItem_eq_ok hitem).2.1, listOrGone_eq_some hlist]
    exact hproject

theorem ascending_seen (hs : s.Ordered) (hv : s.Versioned)
    (hitems : s.itemsAfter low (-1) = .ok items) :
    (s.seen now items).Pairwise fun p q => p.version < q.version := by
  have hversions : items.map Item.version = (s.rowsAfter low (-1)).map ItemRow.version :=
    map_of_mapM (fun _ _ htoItem => (ItemRow.toItem_eq_ok htoItem).2.2) hitems
  have hasc := ascending_rowsAfter hs hv low
  rw [← List.pairwise_map (f := ItemRow.version) (R := fun v w => v < w), ← hversions,
    List.pairwise_map] at hasc
  unfold seen
  rw [List.pairwise_filterMap]
  refine hasc.imp fun hlt p hp q hq => ?_
  rw [(Pull.project_columns hp).1, (Pull.project_columns hq).1]
  exact hlt

theorem length_itemsAfter_le (hitems : s.itemsAfter low (-1) = .ok items) :
    items.length ≤ s.items.rows.length := by
  rw [length_itemsAfter hitems]
  simp only [rowsAfter, page, Int.toNat_zero, List.drop_zero]
  rw [if_pos (by decide), List.length_mergeSort]
  exact List.length_filter_le _ _

/-- The last version of the items above a version is the highest of the table, or that version. -/
theorem foldl_version_itemsAfter (hitems : s.itemsAfter low (-1) = .ok items) :
    items.foldl (fun v item => max v item.version) low =
      s.items.rows.foldl (fun v r => max v r.version) low := by
  obtain ⟨hle, hhigh, hattained⟩ := foldl_max_version Item.version items low
  obtain ⟨hle', hhigh', hattained'⟩ := foldl_max_version ItemRow.version s.items.rows low
  apply Int.le_antisymm
  · rcases hattained with hsame | ⟨item, hitem, heq⟩
    · omega
    · obtain ⟨r, hr, htoItem⟩ := exists_row_of_itemsAfter hitems hitem
      have hversion := (ItemRow.toItem_eq_ok htoItem).2.2
      have := hhigh' r (mem_rowsAfter.mp hr).1
      omega
  · rcases hattained' with hsame | ⟨r, hr, heq⟩
    · omega
    · by_cases hlow : low < r.version
      · obtain ⟨item, hitem, htoItem⟩ :=
          exists_of_mem_of_mapM hitems (mem_rowsAfter.mpr ⟨hr, hlow⟩)
        have hversion := (ItemRow.toItem_eq_ok htoItem).2.2
        have := hhigh item hitem
        omega
      · omega

end Store

theorem Reachable.spanned {st : State} (h : Reachable st) : st.store.Spanned :=
  h.holds Store.invariant_spanned

/-- In every reachable state and from every cursor a drain gets the same items, whoever is let in
and whatever positive numbers of items the polls ask for. The items are in strictly ascending order
of their versions and are exactly what is seen of the rows above the cursor; only of rows of grey
lists nothing is seen. The drain ends after at most one poll for each row and one more, at the
highest version of the table or at its start. -/
theorem drain_exact {st : State} (h : Reachable st) (hopen : st.isOpen) (cursor : Int) :
    ∃ items : List PulledItem,
      items.Pairwise (fun p q => p.version < q.version) ∧
      (∀ p, p ∈ items ↔
        ∃ r ∈ st.store.items.rows, max cursor 0 < r.version ∧ st.store.Sees st.now r p) ∧
      (∀ r ∈ st.store.items.rows,
        (∃ list, st.store.findList r.listId = .ok (some list) ∧ list.type = .grey) ∨
          ∃ p, st.store.Sees st.now r p) ∧
      ∀ (gate : Gate) (token : Option String) (caller : Caller),
        gate.authenticate token = .ok caller → caller.pulls →
        ∀ sizes : Nat → Int, (∀ i, 0 < sizes i) →
          ∃ n ≤ st.store.items.rows.length + 1, ∃ st',
            outcome (drain gate token ((List.range n).map sizes) cursor) st =
              (.ok (some ⟨items,
                st.store.items.rows.foldl (fun v r => max v r.version) (max cursor 0)⟩), st') ∧
            st'.store = st.store := by
  have hs := h.ordered
  have hv := h.versioned
  obtain ⟨items, hitems⟩ := h.spanned.itemsAfter (max cursor 0) (-1)
  refine ⟨st.store.seen st.now items, Store.ascending_seen hs hv hitems,
    fun p => Store.mem_seen_iff h.listed hitems,
    fun r hr => Store.grey_or_sees h.spanned h.listed st.now hr, ?_⟩
  intro gate token caller hauth hcaller sizes hsizes
  obtain ⟨n, hn, st', hdrain, hrecalls⟩ :=
    outcome_drain h.coherent hopen hs hv hauth hcaller sizes hsizes hitems
  rw [Store.foldl_version_itemsAfter hitems] at hdrain
  have hlength := Store.length_itemsAfter_le hitems
  exact ⟨n, by omega, st', hdrain, hrecalls.store⟩

/-- Pages of two with rows of a grey list on both sides of a page's end. -/
theorem drain_exact_of_grey :
    let st := State.after { now := 0 } (adminCalls [.createList publicBlackList,
      .createList { publicBlackList with type := .grey },
      .createItem { listId := 1, value := "10.0.0.1" },
      .createItem { listId := 2, value := "10.0.0.2" },
      .createItem { listId := 2, value := "10.0.0.3" },
      .createItem { listId := 1, value := "10.0.0.4" }])
    ∃ items : List PulledItem, items.map (·.version) = [1, 4] ∧
      ∃ n ≤ 5, ∃ st',
        outcome (drain adminGate (some "key") ((List.range n).map fun _ => 2) (-7)) st =
          (.ok (some ⟨items, 4⟩), st') ∧ st'.store = st.store := by
  intro st
  have hreach : Reachable st := reachable_after 0 _
  obtain ⟨items, hasc, hmem, hall, hdrain⟩ := drain_exact hreach (by decide +kernel) (-7)
  obtain ⟨n, hn, st', hout, hstore⟩ := hdrain adminGate (some "key") ⟨.admin, 1⟩ rfl
    (by simp [Caller.pulls]) (fun _ => 2) (by simp)
  have hlength : st.store.items.rows.length = 4 := by decide +kernel
  have hlast : st.store.items.rows.foldl (fun v r => max v r.version) (max (-7) 0) = 4 := by
    decide +kernel
  rw [hlength] at hn
  rw [hlast] at hout
  refine ⟨items, ?_, n, hn, st', hout, hstore⟩
  -- the rows of the list that is not grey have these versions
  have hrows : ∀ r ∈ st.store.items.rows, 0 < r.version ∧ (r.version ∈ [1, 4] ↔
      (st.store.findList r.listId).toOption.join.all (·.type != .grey)) := by
    decide +kernel
  have hversions : ∀ v ∈ [1, 4], ∃ r ∈ st.store.items.rows, r.version = v := by decide +kernel
  have hmap := List.pairwise_map.mpr hasc
  refine eq_of_ascending id hmap (by decide) fun v => ?_
  rw [List.mem_map]
  constructor
  · rintro ⟨p, hp, rfl⟩
    obtain ⟨r, hr, -, hsees⟩ := (hmem p).mp hp
    rw [hsees.version, (hrows r hr).2]
    obtain ⟨_, list, -, hlist, hgrey, -⟩ := hsees
    rw [hlist]
    simpa [Except.toOption] using hgrey
  · intro hv
    obtain ⟨r, hr, rfl⟩ := hversions v hv
    rcases hall r hr with ⟨list, hlist, hgrey⟩ | ⟨p, hsees⟩
    · have hnot := (hrows r hr).2.mp hv
      rw [hlist] at hnot
      simp [Except.toOption, hgrey] at hnot
    · exact ⟨p, (hmem p).mpr ⟨r, hr, (hrows r hr).1, hsees⟩, hsees.version⟩

end FirewallLists
