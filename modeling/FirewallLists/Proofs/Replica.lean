import FirewallLists.Proofs.Service.Poll

/-
  Nodes that keep up. A node asks for what is above the last version it has seen and takes each
  page in, while anything may happen between two of its polls. Of the rows up to its cursor it keeps
  what the tables show (`Node.InStep`): a row that changes gets a version above the cursor, and
  whether an item has expired or its list is off shows in what the node keeps of it. A page that is
  not full brings the cursor up to all rows, and then the node keeps exactly what the tables show.
-/

namespace FirewallLists

open Relation ServiceM

/-! ## Nodes -/

/-- What a node keeps: the version to go on from, and items by their ids. -/
structure Node where
  cursor : Int := 0
  items : Int → Option PulledItem := fun _ => none

namespace Node

/-- A deleted item is removed, any other one is set. -/
def set (items : Int → Option PulledItem) (p : PulledItem) : Int → Option PulledItem :=
  Function.update items p.id (if p.isDeleted then none else some p)

/-- Take a page in, item by item, and go on from its version. -/
def take (node : Node) (page : Pull.Page) : Node where
  cursor := page.version
  items := page.items.foldl set node.items

theorem foldl_set_of_ne {ps : List PulledItem} {items : Int → Option PulledItem} {i : Int}
    (h : ∀ p ∈ ps, p.id ≠ i) : ps.foldl set items i = items i := by
  induction ps generalizing items with
  | nil => rfl
  | cons p ps ih =>
    rw [List.foldl_cons, ih fun q hq => h q (List.mem_cons_of_mem _ hq), set]
    exact Function.update_of_ne (h p List.mem_cons_self).symm _ _

theorem foldl_set_of_mem {ps : List PulledItem} {items : Int → Option PulledItem}
    (hids : (ps.map (·.id)).Nodup) {p : PulledItem} (hp : p ∈ ps) :
    ps.foldl set items p.id = if p.isDeleted then none else some p := by
  induction ps generalizing items with
  | nil => cases hp
  | cons q ps ih =>
    rw [List.map_cons, List.nodup_cons] at hids
    rw [List.foldl_cons]
    rcases List.mem_cons.mp hp with rfl | hp
    · rw [foldl_set_of_ne, set, Function.update_self]
      exact fun q hq hid => hids.1 (hid ▸ List.mem_map_of_mem hq)
    · exact ih hids.2 hp

end Node

/-! ## What the tables show -/

namespace Store

/-- What nodes are shown of an item: it is switched on and has not expired, and its list is
switched on and not grey. -/
def Shows (s : Store) (now : Int) (r : ItemRow) (p : PulledItem) : Prop :=
  ∃ item list, r.toItem = .ok item ∧ s.findList r.listId = .ok (some list) ∧ list.enabled ∧
    list.type ≠ .grey ∧ item.isActive now ∧ Pull.project item (some list) now = some p

/-- An item that a node keeps counts while its list is switched on and it has not expired. -/
def Counts (s : Store) (now : Int) (p : PulledItem) : Prop :=
  (∃ list, s.findList p.listId = .ok (some list) ∧ list.enabled) ∧
    ¬(0 < p.expiredAt ∧ p.expiredAt ≤ now)

end Store

namespace Pull

theorem project_eq_some {item : Item} {list : Option IpList} {now : Int} {p : PulledItem}
    (h : project item list now = some p) :
    p.id = item.id ∧ p.listId = item.listId ∧ p.expiredAt = item.expiredAt ∧
      p.isDeleted = !(list.any (·.enabled) && item.isActive now) := by
  unfold project at h
  split at h
  · cases h
  · cases h
    exact ⟨rfl, rfl, rfl, rfl⟩

theorem project_eq_none {item : Item} {list : Option IpList} {now : Int} :
    project item list now = none ↔ ∃ l, list = some l ∧ l.type = .grey := by
  unfold project
  cases list with
  | none => simp
  | some l => by_cases hgrey : l.type = .grey <;> simp [hgrey]

/-- While an item is active it looks the same at all times. -/
theorem project_of_isActive {item : Item} {list : Option IpList} {now now' : Int}
    (h : item.isActive now) (h' : item.isActive now') :
    project item list now = project item list now' := by
  unfold project
  rw [h, h']

end Pull

namespace Store

variable {s s' : Store} {now now' : Int} {r r' : ItemRow} {p : PulledItem}

/-- What is shown of a row counts. -/
theorem Shows.counts (h : s.Shows now r p) : s.Counts now p := by
  obtain ⟨item, list, hitem, hlist, hon, -, hactive, hproject⟩ := h
  obtain ⟨-, hplist, hexpired, -⟩ := Pull.project_eq_some hproject
  have hrlist := (ItemRow.toItem_eq_ok hitem).2.1
  refine ⟨⟨list, ?_, hon⟩, ?_⟩
  · rw [hplist, hrlist]
    exact hlist
  · rw [hexpired]
    exact (Item.isActive_iff.mp hactive).2

/-- A row that has not changed is shown later if it was shown before and still counts. -/
theorem Shows.later (hkept : ListsKept s s') (hagrees : r.Agrees r') (h : s.Shows now r p)
    (hcounts : s'.Counts now' p) : s'.Shows now' r' p := by
  obtain ⟨item, list, hitem, hlist, hon, hgrey, hactive, hproject⟩ := h
  obtain ⟨-, hplist, hexpired, -⟩ := Pull.project_eq_some hproject
  obtain ⟨⟨list', hlist', hon'⟩, hunexpired⟩ := hcounts
  obtain ⟨isRead, hitem'⟩ := hagrees.toItem hitem
  obtain ⟨enabled, hfound, -⟩ := hkept _ _ hlist
  -- the list is the one it was, and it is still switched on
  have hrlist : p.listId = r.listId := hplist.trans (ItemRow.toItem_eq_ok hitem).2.1
  rw [hrlist, hfound] at hlist'
  cases hlist'
  have hsame : { list with enabled := enabled } = list := by
    obtain rfl : enabled = list.enabled := hon'.trans hon.symm
    rfl
  rw [hexpired] at hunexpired
  have hactive' : item.isActive now' :=
    Item.isActive_iff.mpr ⟨(Item.isActive_iff.mp hactive).1, hunexpired⟩
  refine ⟨_, list, hitem', ?_, hon, hgrey, hactive', ?_⟩
  · rw [hagrees.listId, hfound, hsame]
  · rw [← hproject]
    exact (Pull.project_of_isActive hactive hactive').symm

/-- A row that has not changed and is shown later was shown before. -/
theorem Shows.earlier (hlisted : ∃ list, s.findList r.listId = .ok (some list))
    (hkept : ListsKept s s') (hagrees : r.Agrees r') (hnow : now ≤ now')
    (h : s'.Shows now' r' p) : s.Shows now r p := by
  obtain ⟨item, list', hitem, hlist', hon', hgrey, hactive, hproject⟩ := h
  obtain ⟨list, hlist⟩ := hlisted
  obtain ⟨isRead, hitem'⟩ := hagrees.symm.toItem hitem
  obtain ⟨enabled, hfound, hon⟩ := hkept _ _ hlist
  rw [hagrees.listId, hfound] at hlist'
  cases hlist'
  have hon : list.enabled := hon hon'
  have hsame : { list with enabled := enabled } = list := by
    obtain rfl : enabled = list.enabled := hon'.trans hon.symm
    rfl
  have hactive' : item.isActive now := by
    rw [Item.isActive_iff] at hactive ⊢
    exact ⟨hactive.1, fun hexpired => hactive.2 ⟨hexpired.1, by omega⟩⟩
  refine ⟨_, list, hitem', hlist, hon, hgrey, hactive', ?_⟩
  rw [← hproject, hsame]
  exact Pull.project_of_isActive hactive' hactive

/-- What counts later counted before, when the node knew its list. -/
theorem Counts.earlier (hlisted : ∃ list, s.findList p.listId = .ok (some list))
    (hkept : ListsKept s s') (hnow : now ≤ now') (h : s'.Counts now' p) : s.Counts now p := by
  obtain ⟨⟨list', hlist', hon'⟩, hunexpired⟩ := h
  obtain ⟨list, hlist⟩ := hlisted
  obtain ⟨enabled, hfound, hon⟩ := hkept _ _ hlist
  rw [hfound] at hlist'
  cases hlist'
  exact ⟨⟨list, hlist, hon hon'⟩, fun hexpired => hunexpired ⟨hexpired.1, by omega⟩⟩

theorem listOrGone_eq_some {id : Int} {list : IpList} (h : s.findList id = .ok (some list)) :
    s.listOrGone id = some list := by
  rw [listOrGone, h]

end Store

/-! ## Keeping in step -/

namespace Node

/-- The node's cursor has been given out, and what it keeps is of items and lists that are there. -/
structure Knows (node : Node) (s : Store) : Prop where
  cursor_nonneg : 0 ≤ node.cursor
  cursor_le : node.cursor ≤ s.sequence
  known : ∀ i p, node.items i = some p → ∃ r ∈ s.items.rows, r.id = i ∧ r.listId = p.listId ∧
    ∃ list, s.findList p.listId = .ok (some list) ∧ list.type ≠ .grey

/-- Of the rows up to its cursor the node keeps what the tables show. -/
structure InStep (node : Node) (s : Store) (now : Int) : Prop extends node.Knows s where
  upToDate : ∀ r ∈ s.items.rows, r.version ≤ node.cursor → ∀ p,
    s.Shows now r p ↔ node.items r.id = some p ∧ s.Counts now p

variable {node : Node} {s s' : Store} {now now' size : Int} {items : List Item}

theorem Knows.later (h : node.Knows s) (hsince : Store.Since s s')
    (hkept : Store.ListsKept s s') : node.Knows s' where
  cursor_nonneg := h.cursor_nonneg
  cursor_le := Int.le_trans h.cursor_le hsince.sequence_le
  known := by
    intro i p hp
    obtain ⟨r, hr, hid, hlist, list, hfound, hgrey⟩ := h.known i p hp
    obtain ⟨r', hr', hid', hlist'⟩ := hsince.kept r hr
    obtain ⟨enabled, hfound', -⟩ := hkept _ _ hfound
    exact ⟨r', hr', hid'.trans hid, hlist'.trans hlist, _, hfound', hgrey⟩

theorem inStep_start (now : Int) : InStep {} {} now where
  cursor_nonneg := Int.le_refl 0
  cursor_le := Int.le_refl 0
  known := fun _ _ h => by cases h
  upToDate := fun _ hr => absurd hr List.not_mem_nil

/-- Whatever is written as time goes on, the node stays in step. -/
theorem InStep.later (h : node.InStep s now) (hlisted : s.Listed) (hsince : Store.Since s s')
    (hkept : Store.ListsKept s s') (hnow : now ≤ now') : node.InStep s' now' where
  toKnows := h.toKnows.later hsince hkept
  upToDate := by
    intro r' hr' hle p
    rcases hsince.fresh r' hr' with hnew | ⟨r, hr, hagrees⟩
    · -- a row that has changed is above the cursor
      have := h.cursor_le
      omega
    · rw [hagrees.version] at hle
      rw [hagrees.id]
      constructor
      · intro hshows
        have hbefore := hshows.earlier (hlisted r hr) hkept hagrees hnow
        exact ⟨((h.upToDate r hr hle p).mp hbefore).1, hshows.counts⟩
      · rintro ⟨hp, hcounts⟩
        obtain ⟨_, -, -, -, list, hfound, -⟩ := h.known _ p hp
        have hbefore := hcounts.earlier ⟨list, hfound⟩ hkept hnow
        exact ((h.upToDate r hr hle p).mpr ⟨hp, hbefore⟩).later hkept hagrees hcounts

/-! ### Taking a page in -/

/-- What is seen of items with different ids has different ids. -/
theorem nodup_ids_seen (hids : (items.map (·.id)).Nodup) :
    ((s.seen now items).map (·.id)).Nodup := by
  unfold Store.seen
  rw [List.Nodup, List.pairwise_map, List.pairwise_filterMap]
  rw [List.Nodup, List.pairwise_map] at hids
  refine hids.imp fun hne p hp q hq => ?_
  rw [(Pull.project_eq_some hp).1, (Pull.project_eq_some hq).1]
  exact hne

/-- What is seen on a page is seen of one of its rows. -/
theorem exists_row_of_seen {version : Int} (hitems : s.itemsAfter version size = .ok items)
    {p : PulledItem} (hp : p ∈ s.seen now items) :
    ∃ r ∈ s.rowsAfter version size, ∃ item, r.toItem = .ok item ∧
      Pull.project item (s.listOrGone r.listId) now = some p ∧ p.id = r.id ∧
      p.listId = r.listId := by
  obtain ⟨item, hitem, hproject⟩ := List.mem_filterMap.mp hp
  obtain ⟨r, hr, htoItem⟩ := Store.exists_row_of_itemsAfter hitems hitem
  obtain ⟨hid, hlist, -⟩ := ItemRow.toItem_eq_ok htoItem
  obtain ⟨hpid, hplist, -, -⟩ := Pull.project_eq_some hproject
  rw [hlist] at hproject
  exact ⟨r, hr, item, htoItem, hproject, hpid.trans hid, hplist.trans hlist⟩

/-- What the node keeps under other ids than those of a page stays. -/
theorem foldl_seen_of_not_mem {version : Int}
    (hitems : s.itemsAfter version size = .ok items) {kept : Int → Option PulledItem} {i : Int}
    (hi : ∀ r ∈ s.rowsAfter version size, r.id ≠ i) :
    (s.seen now items).foldl set kept i = kept i := by
  apply foldl_set_of_ne
  intro p hp
  obtain ⟨r, hr, _, -, -, hid, -⟩ := exists_row_of_seen hitems hp
  rw [hid]
  exact hi r hr

/-- What is seen of a row of a page is seen on the page, and nothing else under its id. -/
theorem mem_seen_iff_of_row (now : Int) (hs : s.Ordered) {version : Int}
    (hitems : s.itemsAfter version size = .ok items) {r : ItemRow}
    (hr : r ∈ s.rowsAfter version size) {list : IpList}
    (hlist : s.findList r.listId = .ok (some list)) :
    ∃ item, r.toItem = .ok item ∧ ∀ p,
      p ∈ s.seen now items ∧ p.id = r.id ↔ Pull.project item (some list) now = some p := by
  obtain ⟨item, hmem, hitem⟩ := exists_of_mem_of_mapM hitems hr
  obtain ⟨hid, hitemList, -⟩ := ItemRow.toItem_eq_ok hitem
  have hknown := Store.listOrGone_eq_some hlist
  refine ⟨item, hitem, fun p => ⟨?_, fun hproject => ⟨?_, ?_⟩⟩⟩
  · rintro ⟨hp, hpr⟩
    obtain ⟨q, hq, item', hitem', hproject, hpid, -⟩ := exists_row_of_seen hitems hp
    have hqr := hs.items.eq_of_id (Store.mem_of_mem_rowsAfter hq).1
      (Store.mem_of_mem_rowsAfter hr).1 (hpid.symm.trans hpr)
    subst hqr
    rw [hitem] at hitem'
    cases hitem'
    rw [← hknown]
    exact hproject
  · exact List.mem_filterMap.mpr ⟨item, hmem, by rw [hitemList, hknown]; exact hproject⟩
  · exact (Pull.project_eq_some hproject).1.trans hid

/-- For a row of a page the node sets or removes what is seen of it; if nothing is seen of it the
node keeps what it has. -/
theorem foldl_seen_of_mem (hs : s.Ordered) {version : Int}
    (hitems : s.itemsAfter version size = .ok items) {kept : Int → Option PulledItem}
    {r : ItemRow} (hr : r ∈ s.rowsAfter version size) {list : IpList}
    (hlist : s.findList r.listId = .ok (some list)) :
    ∃ item, r.toItem = .ok item ∧ (s.seen now items).foldl set kept r.id =
      match Pull.project item (some list) now with
      | some p => if p.isDeleted then none else some p
      | none => kept r.id := by
  obtain ⟨item, hitem, hseen⟩ := mem_seen_iff_of_row now hs hitems hr hlist
  refine ⟨item, hitem, ?_⟩
  cases hproject : Pull.project item (some list) now with
  | none =>
    refine foldl_set_of_ne fun p hp hpr => ?_
    have hsome := (hseen p).mp ⟨hp, hpr⟩
    rw [hproject] at hsome
    cases hsome
  | some p =>
    obtain ⟨hp, hpid⟩ := (hseen p).mpr hproject
    rw [← hpid]
    exact foldl_set_of_mem (nodup_ids_seen (Store.nodup_ids_itemsAfter hs hitems)) hp

/-- What the tables show of a row is what is seen of it, unless that is deleted. -/
theorem shows_iff {r : ItemRow} {item : Item} {list : IpList} {p : PulledItem}
    (hitem : r.toItem = .ok item) (hlist : s.findList r.listId = .ok (some list)) :
    s.Shows now r p ↔
      Pull.project item (some list) now = some p ∧ p.isDeleted = false := by
  constructor
  · rintro ⟨item', list', hitem', hlist', hon, -, hactive, hproject⟩
    rw [hitem] at hitem'
    cases hitem'
    rw [hlist] at hlist'
    cases hlist'
    refine ⟨hproject, ?_⟩
    rw [(Pull.project_eq_some hproject).2.2.2, Option.any_some, hon, hactive]
    rfl
  · rintro ⟨hproject, hdeleted⟩
    have hgrey : list.type ≠ .grey := by
      intro hgrey
      rw [Pull.project_eq_none.mpr ⟨list, rfl, hgrey⟩] at hproject
      cases hproject
    rw [(Pull.project_eq_some hproject).2.2.2, Option.any_some, Bool.not_eq_false',
      Bool.and_eq_true] at hdeleted
    exact ⟨item, list, hitem, hlist, hdeleted.1, hgrey, hdeleted.2, hproject⟩

/-- What the node keeps of a row of the page is of a list that is there and not grey. -/
theorem Knows.known_of_page (h : node.Knows s) (hs : s.Ordered) (hlisted : s.Listed)
    {version : Int} (hitems : s.itemsAfter version size = .ok items) {r : ItemRow}
    (hr : r ∈ s.rowsAfter version size) {p : PulledItem}
    (hp : (s.seen now items).foldl set node.items r.id = some p) :
    ∃ q ∈ s.items.rows, q.id = r.id ∧ q.listId = p.listId ∧
      ∃ list, s.findList p.listId = .ok (some list) ∧ list.type ≠ .grey := by
  have hrow := (Store.mem_of_mem_rowsAfter hr).1
  obtain ⟨list, hlist⟩ := hlisted r hrow
  obtain ⟨item, hitem, hfold⟩ := foldl_seen_of_mem hs hitems hr hlist
  rw [hfold] at hp
  cases hproject : Pull.project item (some list) now with
  | none =>
    rw [hproject] at hp
    exact h.known _ p hp
  | some q =>
    rw [hproject] at hp
    dsimp only at hp
    split at hp <;> cases hp
    have hplist : p.listId = r.listId :=
      (Pull.project_eq_some hproject).2.1.trans (ItemRow.toItem_eq_ok hitem).2.1
    refine ⟨r, hrow, rfl, hplist.symm, list, hplist ▸ hlist, fun hgrey => ?_⟩
    rw [Pull.project_eq_none.mpr ⟨list, rfl, hgrey⟩] at hproject
    cases hproject

/-- What the node keeps after a page, from whatever version, is of items and lists that are
there. -/
theorem Knows.known_of_seen (h : node.Knows s) (hs : s.Ordered) (hlisted : s.Listed)
    {version : Int} (hitems : s.itemsAfter version size = .ok items) {i : Int} {p : PulledItem}
    (hp : (s.seen now items).foldl set node.items i = some p) :
    ∃ r ∈ s.items.rows, r.id = i ∧ r.listId = p.listId ∧
      ∃ list, s.findList p.listId = .ok (some list) ∧ list.type ≠ .grey := by
  by_cases hi : ∃ r ∈ s.rowsAfter version size, r.id = i
  · obtain ⟨r, hr, rfl⟩ := hi
    exact h.known_of_page hs hlisted hitems hr hp
  · rw [foldl_seen_of_not_mem hitems fun r hr hid => hi ⟨r, hr, hid⟩] at hp
    exact h.known i p hp

/-- Nodes keep nothing of grey lists. -/
theorem Knows.items_of_grey (h : node.Knows s) (hs : s.Ordered) {r : ItemRow}
    (hr : r ∈ s.items.rows) {list : IpList} (hlist : s.findList r.listId = .ok (some list))
    (hgrey : list.type = .grey) : node.items r.id = none := by
  cases hp : node.items r.id with
  | none => rfl
  | some p =>
    obtain ⟨q, hq, hqid, hqlist, list', hlist', hgrey'⟩ := h.known _ p hp
    rw [hs.items.eq_of_id hq hr hqid] at hqlist
    rw [← hqlist, hlist] at hlist'
    cases hlist'
    exact absurd hgrey hgrey'

/-- A node that takes a page in still keeps what is there. -/
theorem Knows.take (now : Int) (h : node.Knows s) (hs : s.Ordered) (hv : s.Versioned)
    (hlisted : s.Listed) (hitems : s.itemsAfter node.cursor size = .ok items) (hasMore : Bool) :
    (node.take ⟨s.seen now items,
      items.foldl (fun v item => max v item.version) node.cursor, hasMore⟩).Knows s where
  cursor_nonneg := Int.le_trans h.cursor_nonneg (foldl_max_version Item.version items node.cursor).1
  cursor_le := by
    show items.foldl (fun v item => max v item.version) node.cursor ≤ s.sequence
    rcases (foldl_max_version Item.version items node.cursor).2.2 with hsame | ⟨item, hitem, heq⟩
    · rw [hsame]
      exact h.cursor_le
    · obtain ⟨r, hr, htoItem⟩ := Store.exists_row_of_itemsAfter hitems hitem
      rw [← heq, (ItemRow.toItem_eq_ok htoItem).2.2]
      exact hv.le_sequence r (Store.mem_of_mem_rowsAfter hr).1
  known := fun _ _ hp => h.known_of_seen hs hlisted hitems hp

/-- After the page the node keeps of its rows what the tables show. -/
theorem InStep.upToDate_of_page (h : node.InStep s now) (hs : s.Ordered) (hlisted : s.Listed)
    (hitems : s.itemsAfter node.cursor size = .ok items) {r : ItemRow}
    (hr : r ∈ s.rowsAfter node.cursor size) (p : PulledItem) :
    s.Shows now r p ↔
      (s.seen now items).foldl set node.items r.id = some p ∧ s.Counts now p := by
  have hrow := (Store.mem_of_mem_rowsAfter hr).1
  obtain ⟨list, hlist⟩ := hlisted r hrow
  obtain ⟨item, hitem, hfold⟩ := foldl_seen_of_mem hs hitems hr hlist
  rw [hfold]
  cases hproject : Pull.project item (some list) now with
  | none =>
    obtain ⟨_, hsame, hgrey⟩ := Pull.project_eq_none.mp hproject
    cases hsame
    rw [shows_iff hitem hlist, hproject, h.items_of_grey hs hrow hlist hgrey]
    exact iff_of_false (fun hshown => by cases hshown.1) (fun hkept => by cases hkept.1)
  | some q =>
    dsimp only
    constructor
    · intro hshows
      have hcounts := hshows.counts
      rw [shows_iff hitem hlist, hproject] at hshows
      obtain ⟨hqp, hdeleted⟩ := hshows
      cases hqp
      exact ⟨by rw [hdeleted]; rfl, hcounts⟩
    · rintro ⟨hqp, -⟩
      rw [shows_iff hitem hlist, hproject]
      split at hqp
      · cases hqp
      · next hdeleted =>
        cases hqp
        exact ⟨rfl, by simpa using hdeleted⟩

/-- A node that takes a page in stays in step. -/
theorem InStep.take (h : node.InStep s now) (hs : s.Ordered) (hv : s.Versioned)
    (hlisted : s.Listed) (hitems : s.itemsAfter node.cursor size = .ok items) (hasMore : Bool) :
    (node.take ⟨s.seen now items,
      items.foldl (fun v item => max v item.version) node.cursor, hasMore⟩).InStep s now where
  toKnows := h.toKnows.take now hs hv hlisted hitems hasMore
  upToDate := by
    intro r hr hle p
    change s.Shows now r p ↔ (s.seen now items).foldl set node.items r.id = some p ∧ s.Counts now p
    by_cases hlow : r.version ≤ node.cursor
    · -- the row is not on the page
      rw [foldl_seen_of_not_mem hitems]
      · exact h.upToDate r hr hlow p
      · intro q hq hid
        obtain ⟨hqrow, hqlow⟩ := Store.mem_of_mem_rowsAfter hq
        rw [hs.items.eq_of_id hqrow hr hid] at hqlow
        omega
    · have hmem := Store.mem_rowsAfter_of_le_last hs hv hitems hr (by omega) hle
      exact h.upToDate_of_page hs hlisted hitems hmem p

end Node

/-! ## Runs of a node -/

theorem Reachable.listed {st : State} (h : Reachable st) : st.store.Listed := by
  refine h.holds ⟨fun _ hr => absurd hr List.not_mem_nil, Store.Edit.listed, ?_⟩
  exact fun _ hlisted => hlisted

theorem Reachable.listsKept {st st' : State} (h : Reachable st)
    (hrun : ReflTransGen Next st st') : Store.ListsKept st.store st'.store := by
  refine h.related (fun hs hedit => hedit.listsKept hs) (fun s directory => ?_) hrun
  exact Store.listsKept_of_findList fun _ _ _ => rfl

/-- One event leads from one state to the other, and the clock does not go back. -/
def Onward (st st' : State) : Prop :=
  Next st st' ∧ st.now ≤ st'.now

theorem run_of_onward {st st' : State} (h : ReflTransGen Onward st st') :
    ReflTransGen Next st st' ∧ st.now ≤ st'.now := by
  induction h with
  | refl => exact ⟨.refl, Int.le_refl _⟩
  | tail _ hnext ih => exact ⟨ih.1.tail hnext.1, Int.le_trans ih.2 hnext.2⟩

/-- The state of the services and what a node keeps after a run. The node starts with nothing
beside empty tables. Between two of its polls anything may happen; a poll asks, with any token that
is let in and for any number of items, for what is above the cursor, and the node takes in the page
that it gets. A poll that gets no page is an event like any other. -/
inductive Follows : State → Node → Prop where
  | start (now : Int) : Follows { now } {}
  | event {st st' : State} {node : Node} (h : Follows st node) (next : Onward st st') :
      Follows st' node
  | poll {st st' : State} {node : Node} {page : Pull.Page} (h : Follows st node) (gate : Gate)
      (token : Option String) (size : Int)
      (answer : outcome (gate.serve token (.pullItems node.cursor size)) st =
        (.ok (.page page), st')) : Follows st' (node.take page)

theorem Follows.run {st st' : State} {node : Node} (h : Follows st node)
    (hrun : ReflTransGen Onward st st') : Follows st' node := by
  induction hrun with
  | refl => exact h
  | tail _ next ih => exact ih.event next

/-- No call moves the clock. -/
theorem onward_call (gate : Gate) (token : Option String) (call : Call) (st : State) :
    Onward st (outcome (gate.serve token call) st).2 :=
  ⟨next_call gate token call st, Int.le_of_eq (gate.serve_progress token call st).now.symm⟩

theorem onward_adminCalls (st : State) (calls : List Call) :
    ReflTransGen Onward st (st.after (adminCalls calls)) := by
  induction calls generalizing st with
  | nil => exact .refl
  | cons call calls ih => exact .head (onward_call _ _ _ _) (ih _)

/-- The page that a node gets. -/
theorem Node.Knows.poll {node : Node} {st st' : State} {gate : Gate} {token : Option String}
    {size : Int} {page : Pull.Page} (h : node.Knows st.store) (hst : st.Coherent)
    (answer : outcome (gate.serve token (.pullItems node.cursor size)) st =
      (.ok (.page page), st')) :
    ∃ items, st.store.itemsAfter node.cursor (gate.settings.pullSize size) = .ok items ∧
      page = ⟨st.store.seen st.now items,
        items.foldl (fun v item => max v item.version) node.cursor,
        (items.length : Int) == gate.settings.pullSize size⟩ ∧
      st.Recalls st' := by
  have hcursor : max node.cursor 0 = node.cursor := Int.max_eq_left h.cursor_nonneg
  obtain ⟨items, hitems, hpage, hrecalls⟩ := serve_pullItems_eq_ok hst answer
  rw [hcursor] at hitems hpage
  exact ⟨items, hitems, hpage, hrecalls⟩

theorem Follows.inStep {st : State} {node : Node} (h : Follows st node) :
    Reachable st ∧ node.InStep st.store st.now := by
  induction h with
  | start now => exact ⟨⟨now, .refl⟩, Node.inStep_start now⟩
  | event _ next ih =>
    obtain ⟨hreach, hstep⟩ := ih
    have hrun := ReflTransGen.single next.1
    exact ⟨hreach.next next.1,
      hstep.later hreach.listed (hreach.since hrun) (hreach.listsKept hrun) next.2⟩
  | @poll st st' node page _ gate token size answer ih =>
    obtain ⟨hreach, hstep⟩ := ih
    obtain ⟨items, hitems, rfl, hrecalls⟩ := hstep.poll hreach.coherent answer
    have hnext := next_call gate token (.pullItems node.cursor size) st
    rw [answer] at hnext
    refine ⟨hreach.next hnext, ?_⟩
    rw [hrecalls.store, hrecalls.now]
    exact hstep.take hreach.ordered hreach.versioned hreach.listed hitems _

/-- When the last page that a node got was not full, and no version has been given out since, the
items that it keeps and that count are exactly what the tables show. -/
theorem node_converges {st st' later : State} {node : Node} {page : Pull.Page} {gate : Gate}
    {token : Option String} {size : Int} (h : Follows st node)
    (answer : outcome (gate.serve token (.pullItems node.cursor size)) st =
      (.ok (.page page), st'))
    (hmore : page.hasMore = false) (hrun : ReflTransGen Onward st' later)
    (hsequence : later.store.sequence = st'.store.sequence) (i : Int) (p : PulledItem) :
    (node.take page).items i = some p ∧ later.store.Counts later.now p ↔
      ∃ r ∈ later.store.items.rows, r.id = i ∧ later.store.Shows later.now r p := by
  obtain ⟨hreach, hstep⟩ := h.inStep
  obtain ⟨hreach', hstep'⟩ := (h.poll gate token size answer).inStep
  obtain ⟨hnext, hnow⟩ := run_of_onward hrun
  have hsince := hreach'.since hnext
  have hlater := hstep'.later hreach'.listed hsince (hreach'.listsKept hnext) hnow
  -- no row is above the node's cursor, neither after the poll nor now
  have hall : ∀ r ∈ later.store.items.rows, r.version ≤ (node.take page).cursor := by
    intro r hr
    rcases hsince.fresh r hr with hnew | ⟨q, hq, hagrees⟩
    · have := (hreach'.run hnext).versioned.le_sequence r hr
      omega
    · obtain ⟨items, hitems, rfl, hrecalls⟩ := hstep.poll hreach.coherent answer
      rw [hrecalls.store] at hq
      rw [hagrees.version]
      exact Store.le_last_of_not_full hitems (by simpa using hmore) hq
  constructor
  · rintro ⟨hp, hcounts⟩
    obtain ⟨r, hr, rfl, -⟩ := hlater.known i p hp
    exact ⟨r, hr, rfl, (hlater.upToDate r hr (hall r hr) p).mpr ⟨hp, hcounts⟩⟩
  · rintro ⟨r, hr, rfl, hshows⟩
    exact (hlater.upToDate r hr (hall r hr) p).mp hshows

/-- The page of a reply, if it has one. -/
def Reply.page? : Reply → Option Pull.Page
  | .page p => some p
  | _ => none

theorem Reply.page?_eq_some {reply : Reply} {page : Pull.Page} (h : reply.page? = some page) :
    reply = .page page := by
  cases reply <;> cases h
  rfl

theorem outcome_of_page? {a : ServiceM Reply} {st : State} {page : Pull.Page}
    (h : (outcome a st).1.toOption.bind Reply.page? = some page) :
    outcome a st = (.ok (.page page), (outcome a st).2) := by
  refine Prod.ext ?_ rfl
  rcases hresult : (outcome a st).1 with e | reply
  · rw [hresult] at h
    cases h
  · rw [hresult] at h
    cases reply <;> cases h
    rfl

/-- What a node is told of an item of a list for everybody. -/
def pulled (id : Int) (value low high : String) (version listId : Int) (isDeleted : Bool) :
    PulledItem :=
  ⟨id, value, low, high, version, 0, 0, listId, isDeleted, .ipv4, "", some .black, true, 0, 0⟩

/-- A page with an item for one address, behind which there may be more. -/
def lonePage (id : Int) (text : String) (listId : Int) : Pull.Page :=
  ⟨[pulled id text text "" id listId false], id, true⟩

/-- An item is written, and then there is a poll for one item above a version. -/
def State.extended (st : State) (listId : Int) (text : String) (version : Int) : State :=
  (outcome (adminGate.serve (some "key") (.pullItems version 1))
    (st.after (adminCalls [.createItem { listId := listId, value := text }]))).2

theorem Follows.extended {st : State} {node : Node} (h : Follows st node) (listId : Int)
    (text : String) (page : Pull.Page)
    (hpage : (outcome (adminGate.serve (some "key") (.pullItems node.cursor 1))
      (st.after (adminCalls [.createItem { listId := listId, value := text }]))).1.toOption.bind
        Reply.page? = some page) :
    Follows (st.extended listId text node.cursor) (node.take page) :=
  (h.run (onward_adminCalls _ _)).poll adminGate (some "key") 1 (outcome_of_page? hpage)

/-- Three items are written one after the other, and each is polled for. -/
def threePolled : State :=
  (((State.after { now := 0 } (adminCalls [.createList publicBlackList,
    .createList publicBlackList])).extended 2 "10.0.0.1" 0).extended 1 "10.0.0.2" 1).extended 1
      "10.0.0.3" 2

/-- What is kept of the three items. -/
def threeTaken : Node :=
  [lonePage 1 "10.0.0.1" 2, lonePage 2 "10.0.0.2" 1, lonePage 3 "10.0.0.3" 1].foldl Node.take {}

theorem follows_threePolled : Follows threePolled threeTaken := by
  have hlists := (Follows.start 0).run
    (onward_adminCalls _ [.createList publicBlackList, .createList publicBlackList])
  have hone := hlists.extended 2 "10.0.0.1" (lonePage 1 "10.0.0.1" 2) (by decide +kernel)
  have htwo := hone.extended 1 "10.0.0.2" (lonePage 2 "10.0.0.2" 1) (by decide +kernel)
  exact htwo.extended 1 "10.0.0.3" (lonePage 3 "10.0.0.3" 1) (by decide +kernel)

/-- A node has three items, each of which it got on a page of its own. Then the third one is revised
to a block that takes the place of the second one, and the list of the first one is switched off, of
which no version tells. On one more page the node is told that the second item is gone, and on the
last one it gets the block. What it keeps of the block counts, but what it keeps of the first item
does not. -/
theorem node_converges_of_changes_between_pages :
    let poll := fun (version size : Int) =>
      outcome (adminGate.serve (some "key") (.pullItems version size))
    let st := threePolled.after
      (adminCalls [.updateItem 3 { value := "10.0.0.2/31" }, .deleteList 2])
    let lone := pulled 1 "10.0.0.1" "10.0.0.1" "" 1 2 false
    let gone := pulled 2 "10.0.0.2" "10.0.0.2" "" 4 1 true
    let block := pulled 3 "10.0.0.2/31" "10.0.0.2" "10.0.0.3" 5 1 false
    Follows st threeTaken ∧ (∃ p, threeTaken.items 2 = some p ∧ p.isDeleted = false) ∧
    ∃ st₁ st₂, poll threeTaken.cursor 1 st = (.ok (.page ⟨[gone], 4, true⟩), st₁) ∧
      poll 4 2 st₁ = (.ok (.page ⟨[block], 5, false⟩), st₂) ∧
      let kept := ((threeTaken.take ⟨[gone], 4, true⟩).take ⟨[block], 5, false⟩).items
      (kept 1 = some lone ∧ ¬st₂.store.Counts st₂.now lone) ∧ kept 2 = none ∧
      (kept 3 = some block ∧ st₂.store.Counts st₂.now block) ∧
      ∀ i p, kept i = some p ∧ st₂.store.Counts st₂.now p ↔
        ∃ r ∈ st₂.store.items.rows, r.id = i ∧ st₂.store.Shows st₂.now r p := by
  intro poll st lone gone block
  have hfollows : Follows st threeTaken := follows_threePolled.run (onward_adminCalls _ _)
  have hopen : st.isOpen := by decide +kernel
  have hpulls : Caller.pulls ⟨.admin, 1⟩ := by simp [Caller.pulls]
  -- the two rows above the cursor stand in the order of their versions
  obtain ⟨item, hitem, hpage⟩ : ∃ item, st.store.itemsAfter 3 1 = .ok [item] ∧
      Pull.Page.mk (st.store.seen st.now [item]) (max 3 item.version) true =
        ⟨[gone], 4, true⟩ := by
    rw [Store.itemsAfter_of_ascending (by decide +kernel)]
    exact ⟨⟨2, 1, "10.0.0.2", "10.0.0.2", "", .ipv4, 4, false, 0, "", "", 0, 0, {}, true, 0⟩,
      by decide +kernel, by decide +kernel⟩
  obtain ⟨item', hitem', hpage'⟩ : ∃ item, st.store.itemsAfter 4 2 = .ok [item] ∧
      Pull.Page.mk (st.store.seen st.now [item]) (max 4 item.version) false =
        ⟨[block], 5, false⟩ := by
    rw [Store.itemsAfter_of_ascending (by decide +kernel)]
    exact ⟨⟨3, 1, "10.0.0.2/31", "10.0.0.2", "10.0.0.3", .ipv4, 5, true, 0, "", "", 0, 0, {}, true,
      0⟩, by decide +kernel, by decide +kernel⟩
  have hon : st.store.findList 1 =
      .ok (some ⟨1, "blocked", .black, true, true, none, none, "", true, 0⟩) := by
    decide +kernel
  have hoff : st.store.findList 2 =
      .ok (some ⟨2, "blocked", .black, true, true, none, none, "", false, 0⟩) := by
    decide +kernel
  clear_value st
  obtain ⟨hreach, -⟩ := hfollows.inStep
  obtain ⟨st₁, hanswer₁, hrecalls₁⟩ : ∃ st₁,
      poll 3 1 st = (.ok (.page ⟨[gone], 4, true⟩), st₁) ∧ st.Recalls st₁ := by
    rw [← hpage]
    exact @Gate.serve_pullItems adminGate (some "key") _ 3 1 _ st hreach.coherent hopen rfl hpulls
      hitem
  rw [← hrecalls₁.store] at hitem'
  obtain ⟨st₂, hanswer₂, hrecalls₂⟩ : ∃ st₂,
      poll 4 2 st₁ = (.ok (.page ⟨[block], 5, false⟩), st₂) ∧ st₁.Recalls st₂ := by
    rw [← hpage', ← hrecalls₁.store, ← hrecalls₁.now]
    exact @Gate.serve_pullItems adminGate (some "key") _ 4 2 _ st₁ hrecalls₁.coherent
      (hrecalls₁.isOpen.trans hopen) rfl hpulls hitem'
  have hstore : st₂.store = st.store := hrecalls₂.store.trans hrecalls₁.store
  have hfollows₁ := hfollows.poll adminGate (some "key") 1 hanswer₁
  refine ⟨hfollows, ⟨_, rfl, rfl⟩, st₁, st₂, hanswer₁, hanswer₂, ⟨rfl, ?_⟩, rfl, ⟨rfl, ?_, ?_⟩,
    node_converges hfollows₁ hanswer₂ rfl .refl rfl⟩
  · rintro ⟨⟨list, hlist, henabled⟩, -⟩
    rw [hstore] at hlist
    cases hoff.symm.trans hlist
    cases henabled
  · rw [hstore]
    exact ⟨_, hon, rfl⟩
  · exact fun hexpired => absurd hexpired.1 (by decide)

end FirewallLists
