import FirewallLists.Proofs.DeadLists

/-
  Nodes and lists that go away. A poll tells of the rows above a node's cursor, and switching a list
  off gives none of its rows a version. So a node that has caught up keeps the items of the list
  until their rows are written again, and only of those is it told, as deleted, whatever happens
  between its polls (`CatchesUp.of_off`). A node that goes on from zero passes every row, and once
  it has caught up it keeps nothing of a list that was off when it began (`CatchesUp.not_off`).
  None of this depends on the clock, which may go back here.
-/

namespace FirewallLists

open Relation ServiceM

/-! ## Nodes that poll -/

/-- A node polls, and anything may happen between two polls. The list is what it is told, and then
come the state of the services and the node in the end. As in `Follows`, a poll that gets no page is
an event like any other, but the clock may also go back. -/
inductive Polls (st : State) (node : Node) : List PulledItem → State → Node → Prop where
  | refl : Polls st node [] st node
  | event {told : List PulledItem} {st₁ st₂ : State} {node' : Node}
      (h : Polls st node told st₁ node') (next : Next st₁ st₂) : Polls st node told st₂ node'
  | poll {told : List PulledItem} {st₁ st₂ : State} {node' : Node} {page : Pull.Page}
      (h : Polls st node told st₁ node') (gate : Gate) (token : Option String) (size : Int)
      (answer : outcome (gate.serve token (.pullItems node'.cursor size)) st₁ =
        (.ok (.page page), st₂)) : Polls st node (told ++ page.items) st₂ (node'.take page)

/-- A node polls until it gets a page that is not full. -/
inductive CatchesUp (st : State) (node : Node) : List PulledItem → State → Node → Prop where
  | last {told : List PulledItem} {st₁ st₂ : State} {node' : Node} {page : Pull.Page}
      (h : Polls st node told st₁ node') (gate : Gate) (token : Option String) (size : Int)
      (answer : outcome (gate.serve token (.pullItems node'.cursor size)) st₁ =
        (.ok (.page page), st₂)) (hmore : page.hasMore = false) :
      CatchesUp st node (told ++ page.items) st₂ (node'.take page)

section

variable {st st₁ st' : State} {node node₁ node' : Node} {told before : List PulledItem}

theorem Polls.run (h : Polls st node told st₁ node') (hrun : ReflTransGen Next st₁ st') :
    Polls st node told st' node' := by
  induction hrun with
  | refl => exact h
  | tail _ next ih => exact ih.event next

theorem Polls.trans (h : Polls st node before st₁ node₁) (h' : Polls st₁ node₁ told st' node') :
    Polls st node (before ++ told) st' node' := by
  induction h' with
  | refl => simpa using h
  | event _ next ih => exact ih.event next
  | poll _ gate token size answer ih =>
    rw [← List.append_assoc]
    exact ih.poll gate token size answer

theorem CatchesUp.polls (h : CatchesUp st node told st' node') : Polls st node told st' node' := by
  cases h with
  | last h gate token size answer _ => exact h.poll gate token size answer

theorem Polls.catchesUp (h : Polls st node before st₁ node₁)
    (h' : CatchesUp st₁ node₁ told st' node') : CatchesUp st node (before ++ told) st' node' := by
  cases h' with
  | last h' gate token size answer hmore =>
    rw [← List.append_assoc]
    exact .last (h.trans h') gate token size answer hmore

/-- What a node keeps in the end is what it has made of what it was told. -/
theorem Polls.items (h : Polls st node told st' node') :
    node'.items = told.foldl Node.set node.items := by
  induction h with
  | refl => rfl
  | event _ _ ih => exact ih
  | poll _ _ _ _ _ ih => rw [Node.take, ih, List.foldl_append]

theorem Polls.reach (h : Polls st node told st' node') : ReflTransGen Next st st' := by
  induction h with
  | refl => exact .refl
  | event _ next ih => exact ih.tail next
  | @poll _ st₁ _ node₁ _ _ gate token size answer ih =>
    have hnext := next_call gate token (.pullItems node₁.cursor size) st₁
    rw [answer] at hnext
    exact ih.tail hnext

end

/-! ## Rows of lists that are off -/

namespace Node

variable {start node : Node} {s s' : Store} {now version size listId : Int} {items : List Item}
  {told : List PulledItem} {r : ItemRow}

/-- A node may go on from zero. -/
theorem Knows.rewound (h : node.Knows s) : Knows { node with cursor := 0 } s where
  cursor_nonneg := Int.le_refl 0
  cursor_le := Int.le_trans h.cursor_nonneg h.cursor_le
  known := h.known

/-- What is seen under the id of a row is seen of the row. -/
theorem lt_version_of_seen (hs : s.Ordered) (hitems : s.itemsAfter version size = .ok items)
    (hr : r ∈ s.items.rows) {q : PulledItem} (hq : q ∈ s.seen now items) (hid : q.id = r.id) :
    version < r.version ∧ q.listId = r.listId := by
  obtain ⟨x, hx, -, -, -, hxid, hxlist⟩ := exists_row_of_seen hitems hq
  obtain ⟨hxrow, hxlow⟩ := Store.mem_of_mem_rowsAfter hx
  rw [hs.items.eq_of_id hxrow hr (hxid.symm.trans hid)] at hxlow hxlist
  exact ⟨hxlow, hxlist⟩

/-- After a page with a row of a list that is off, the node keeps nothing of the row. -/
theorem Knows.foldl_seen_of_off (h : node.Knows s) (hoff : s.Off listId) (hs : s.Ordered)
    (hsound : s.ListsSound) (hitems : s.itemsAfter version size = .ok items)
    (hr : r ∈ s.rowsAfter version size) (hlist : r.listId = listId) :
    (s.seen now items).foldl set node.items r.id = none := by
  rcases hoff.deleted_or_grey hs hsound hitems now hr hlist with
    ⟨p, hp, hid, hdeleted⟩ | ⟨⟨list, hfound, hgrey⟩, hunseen⟩
  · rw [← hid, foldl_set_of_mem (nodup_ids_seen (Store.nodup_ids_itemsAfter hs hitems)) hp,
      if_pos hdeleted]
  · rw [foldl_set_of_ne hunseen]
    exact h.items_of_grey hs (Store.mem_of_mem_rowsAfter hr).1 (hlist ▸ hfound) hgrey

/-- How a node, from where it has started, has passed a row of a list that is off. -/
structure Passed (start : Node) (told : List PulledItem) (node : Node) (r : ItemRow) : Prop where
  deleted : ∀ q ∈ told, q.id = r.id → q.isDeleted
  untold : r.version ≤ start.cursor → ∀ q ∈ told, q.id ≠ r.id
  dropped : start.cursor < r.version → r.version ≤ node.cursor → node.items r.id = none

theorem passed_start (r : ItemRow) : Passed node [] node r where
  deleted := fun _ hq => absurd hq List.not_mem_nil
  untold := fun _ _ hq => absurd hq List.not_mem_nil
  dropped := fun hlow hle => absurd hle (by omega)

/-- Rows that are written get versions above the cursor, so they are still to be passed. -/
theorem Passed.later (hoff : s.Off listId) (hsince : Store.Since s s') (hclosed : s.Closed s')
    (hstart : start.cursor ≤ node.cursor) (hcursor : node.cursor ≤ s.sequence)
    (h : ∀ r ∈ s.items.rows, r.listId = listId → Passed start told node r)
    (hr : r ∈ s'.items.rows) (hlist : r.listId = listId) : Passed start told node r := by
  rcases hsince.fresh r hr with hnew | ⟨q, hq, hagrees⟩
  · obtain ⟨q, hq, hid, hqlist⟩ := hclosed.known listId hoff r hr hlist
    constructor
    case deleted =>
      rw [← hid]
      exact (h q hq (hqlist.trans hlist)).deleted
    case untold => exact fun hle => by omega
    case dropped => exact fun _ hle => by omega
  · have hpassed := h q hq (hagrees.listId.symm.trans hlist)
    constructor
    case deleted =>
      rw [hagrees.id]
      exact hpassed.deleted
    case untold =>
      rw [hagrees.id, hagrees.version]
      exact hpassed.untold
    case dropped =>
      rw [hagrees.id, hagrees.version]
      exact hpassed.dropped

/-- The rows of a page are passed when the node takes it in. -/
theorem Passed.take (now : Int) (h : Passed start told node r) (hknows : node.Knows s)
    (hoff : s.Off listId) (hs : s.Ordered) (hv : s.Versioned) (hsound : s.ListsSound)
    (hstart : start.cursor ≤ node.cursor)
    (hitems : s.itemsAfter node.cursor size = .ok items) (hr : r ∈ s.items.rows)
    (hlist : r.listId = listId) (hasMore : Bool) :
    Passed start (told ++ s.seen now items) (node.take ⟨s.seen now items,
      items.foldl (fun v item => max v item.version) node.cursor, hasMore⟩) r where
  deleted := by
    intro q hq hid
    rcases List.mem_append.mp hq with hq | hq
    · exact h.deleted q hq hid
    · have hqlist := (lt_version_of_seen hs hitems hr hq hid).2
      exact hoff.isDeleted_of_seen hs hsound hitems hq (hqlist.trans hlist)
  untold := by
    intro hle q hq hid
    rcases List.mem_append.mp hq with hq | hq
    · exact h.untold hle q hq hid
    · have := (lt_version_of_seen hs hitems hr hq hid).1
      omega
  dropped := by
    intro hlow hle
    change (s.seen now items).foldl set node.items r.id = none
    by_cases hpassed : r.version ≤ node.cursor
    · rw [foldl_set_of_ne]
      · exact h.dropped hlow hpassed
      · intro q hq hid
        have := (lt_version_of_seen hs hitems hr hq hid).1
        omega
    · have hmem := Store.mem_rowsAfter_of_le_last hs hv hitems hr (by omega) hle
      exact hknows.foldl_seen_of_off hoff hs hsound hitems hmem hlist

end Node

section

variable {st st' : State} {node node' : Node} {told : List PulledItem} {listId : Int}

theorem Polls.knows (h : Polls st node told st' node') (hreach : Reachable st)
    (hknows : node.Knows st.store) : node'.Knows st'.store := by
  induction h with
  | refl => exact hknows
  | event h next ih =>
    have hreach₁ := hreach.run h.reach
    have hrun := ReflTransGen.single next
    exact ih.later (hreach₁.since hrun) (hreach₁.listsKept hrun)
  | @poll _ st₁ _ _ _ h gate token size answer ih =>
    have hreach₁ := hreach.run h.reach
    obtain ⟨items, hitems, rfl, hrecalls⟩ := ih.poll hreach₁.coherent answer
    rw [hrecalls.store]
    exact ih.take st₁.now hreach₁.ordered hreach₁.versioned hreach₁.listed hitems _

/-- The rows of a list that is off are passed one after the other. -/
theorem Polls.passed (h : Polls st node told st' node') (hreach : Reachable st)
    (hknows : node.Knows st.store) (hoff : st.store.Off listId) :
    node.cursor ≤ node'.cursor ∧
      ∀ r ∈ st'.store.items.rows, r.listId = listId → node.Passed told node' r := by
  induction h with
  | refl => exact ⟨Int.le_refl _, fun r _ _ => Node.passed_start r⟩
  | event h next ih =>
    have hreach₁ := hreach.run h.reach
    have hrun := ReflTransGen.single next
    have hoff₁ := hoff.later (hreach.closed h.reach).lists
    exact ⟨ih.1, fun r hr hlist => Node.Passed.later hoff₁ (hreach₁.since hrun)
      (hreach₁.closed hrun) ih.1 (h.knows hreach hknows).cursor_le ih.2 hr hlist⟩
  | @poll _ st₁ _ node₁ _ h gate token size answer ih =>
    have hreach₁ := hreach.run h.reach
    have hoff₁ := hoff.later (hreach.closed h.reach).lists
    have hknows₁ := h.knows hreach hknows
    obtain ⟨items, hitems, rfl, hrecalls⟩ := hknows₁.poll hreach₁.coherent answer
    refine ⟨Int.le_trans ih.1 (foldl_max_version Item.version items node₁.cursor).1, ?_⟩
    rw [hrecalls.store]
    intro r hr hlist
    exact (ih.2 r hr hlist).take st₁.now hknows₁ hoff₁ hreach₁.ordered hreach₁.versioned
      hreach₁.listsSound ih.1 hitems hr hlist _

/-- A node that has caught up has passed every row. -/
theorem CatchesUp.version_le (h : CatchesUp st node told st' node') (hreach : Reachable st)
    (hknows : node.Knows st.store) {r : ItemRow} (hr : r ∈ st'.store.items.rows) :
    r.version ≤ node'.cursor := by
  cases h with
  | last h gate token size answer hmore =>
    have hknows₁ := h.knows hreach hknows
    obtain ⟨items, hitems, rfl, hrecalls⟩ := hknows₁.poll (hreach.run h.reach).coherent answer
    rw [hrecalls.store] at hr
    exact Store.le_last_of_not_full hitems (by simpa using hmore) hr

/-- Once a node has caught up, the items that it keeps of a list that was off are those whose rows
have not got a version above where it started. Of the others it was told that they are deleted. -/
theorem CatchesUp.of_off (h : CatchesUp st node told st' node') (hreach : Reachable st)
    (hknows : node.Knows st.store) (hoff : st.store.Off listId) {r : ItemRow}
    (hr : r ∈ st'.store.items.rows) (hlist : r.listId = listId) :
    (∀ q ∈ told, q.id = r.id → q.isDeleted) ∧
      node'.items r.id = if node.cursor < r.version then none else node.items r.id := by
  have hpassed := (h.polls.passed hreach hknows hoff).2 r hr hlist
  refine ⟨hpassed.deleted, ?_⟩
  by_cases hlow : node.cursor < r.version
  · rw [if_pos hlow]
    exact hpassed.dropped hlow (h.version_le hreach hknows hr)
  · rw [if_neg hlow, h.polls.items]
    exact Node.foldl_set_of_ne (hpassed.untold (by omega))

/-- A node that keeps an item of a list that is off is told of it, as deleted, exactly if the item's
row has got a version above where the node started. -/
theorem CatchesUp.told_of_off (h : CatchesUp st node told st' node') (hreach : Reachable st)
    (hknows : node.Knows st.store) {i : Int} {p : PulledItem} (hp : node.items i = some p)
    (hoff : st.store.Off p.listId) :
    ∃ r ∈ st'.store.items.rows, r.id = i ∧ r.listId = p.listId ∧
      (∀ q ∈ told, q.id = i → q.isDeleted) ∧
      ((∃ q ∈ told, q.id = i) ↔ node.cursor < r.version) ∧
      node'.items i = if node.cursor < r.version then none else some p := by
  obtain ⟨r₀, hr₀, hid₀, hlist₀, -⟩ := hknows.known i p hp
  obtain ⟨r, hr, hid, hlist⟩ := (hreach.since h.polls.reach).kept r₀ hr₀
  have hrlist := hlist.trans hlist₀
  obtain rfl : r.id = i := hid.trans hid₀
  obtain ⟨hdeleted, hkept⟩ := h.of_off hreach hknows hoff hr hrlist
  rw [hp] at hkept
  refine ⟨r, hr, rfl, hrlist, hdeleted, ⟨fun ⟨q, hq, hqid⟩ => ?_, fun hlow => ?_⟩, hkept⟩
  · by_contra hle
    have hpassed := (h.polls.passed hreach hknows hoff).2 r hr hrlist
    exact hpassed.untold (by omega) q hq hqid
  · -- a node that is told nothing of an item keeps it
    by_contra hnone
    rw [if_pos hlow, h.polls.items,
      Node.foldl_set_of_ne fun q hq hqid => hnone ⟨q, hq, hqid⟩, hp] at hkept
    cases hkept

/-- A node that has gone on from zero keeps nothing of a list that was off. -/
theorem CatchesUp.not_off (h : CatchesUp st node told st' node') (hreach : Reachable st)
    (hknows : node.Knows st.store) (hzero : node.cursor = 0) {i : Int} {p : PulledItem}
    (hp : node'.items i = some p) : ¬st.store.Off p.listId := by
  intro hoff
  have hreach' := hreach.run h.polls.reach
  obtain ⟨r, hr, rfl, hlist, -⟩ := (h.polls.knows hreach hknows).known i p hp
  have hkept := (h.of_off hreach hknows hoff hr hlist).2
  have hpositive := hreach'.versioned.positive r hr
  rw [if_pos (by omega), hp] at hkept
  cases hkept

end

/-! ## Drains -/

/-- A drain is a way to catch up. -/
theorem catchesUp_of_drain {gate : Gate} {token : Option String} {sizes : List Int} {node : Node}
    {d : Drained} {st st' : State}
    (hdrain : outcome (drain gate token sizes node.cursor) st = (.ok (some d), st')) :
    ∃ node', CatchesUp st node d.items st' node' := by
  induction sizes generalizing node d st with
  | nil => cases hdrain
  | cons size sizes ih =>
    obtain ⟨reply, st₁, hpoll, hrest⟩ := outcome_bind_eq_ok.mp hdrain
    cases hpage : reply.page? with
    | none =>
      rw [hpage] at hrest
      cases hrest
    | some page =>
      rw [Reply.page?_eq_some hpage] at hpoll
      rw [hpage] at hrest
      dsimp only at hrest
      split at hrest
      · obtain ⟨rest, st₂, hmore, hrest⟩ := outcome_bind_eq_ok.mp hrest
        cases rest with
        | none => cases hrest
        | some more =>
          cases hrest
          have hnext : outcome (drain gate token sizes (node.take page).cursor) st₁ =
              (.ok (some more), st') := hmore
          obtain ⟨node', hcatch⟩ := ih hnext
          exact ⟨node', (Polls.refl.poll gate token size hpoll).catchesUp hcatch⟩
      · next hfull =>
        cases hrest
        exact ⟨_, .last .refl gate token size hpoll (by simpa using hfull)⟩

/-- In every reachable state a node can catch up by polls alone, and they write nothing. -/
theorem Reachable.exists_catchesUp {st : State} (h : Reachable st) (hopen : st.isOpen) {gate : Gate}
    {token : Option String} {caller : Caller} (hauth : gate.authenticate token = .ok caller)
    (hcaller : caller.pulls) {sizes : Nat → Int}
    (hsizes : ∀ k, 0 < gate.settings.pullSize (sizes k)) (node : Node) :
    ∃ n d st' node',
      outcome (drain gate token ((List.range n).map sizes) node.cursor) st = (.ok (some d), st') ∧
      st'.store = st.store ∧ CatchesUp st node d.items st' node' := by
  obtain ⟨items, hitems⟩ := h.spanned.itemsAfter (max node.cursor 0) (-1)
  obtain ⟨n, -, st', hdrain, hrecalls⟩ := outcome_drain_of_pullSize h.coherent hopen h.ordered
    h.versioned hauth hcaller sizes hsizes hitems
  obtain ⟨node', hcatch⟩ := catchesUp_of_drain hdrain
  exact ⟨n, _, st', node', hdrain, hrecalls.store, hcatch⟩

/-! ## Lists that are switched off -/

/-- A node keeps an item of a list, and the list is switched off; no item is written for that.
Whatever happens then, once the node has caught up from its cursor it has been told of the item, as
deleted, and has dropped it exactly if the item's row has got a version above that cursor; else it
keeps the item. A node that goes on from zero is always told that the item is deleted, and once it
has caught up it keeps nothing of a list that was off when it began. It can catch up by polls
alone. -/
theorem resync_after_list_off {now : Int} {before : List PulledItem} {st : State} {node : Node}
    (h : Polls { now } {} before st node) {i : Int} {p : PulledItem} (hp : node.items i = some p)
    {gate : Gate} {token : Option String} {call : Call}
    (hcall : call.SwitchesOff st.store p.listId)
    (hdone : (outcome (gate.serve token call) st).1.isOk) :
    let off := (outcome (gate.serve token call) st).2
    st.SameItems off ∧
    (∀ told later node', CatchesUp off node told later node' →
      ∃ r ∈ later.store.items.rows, r.id = i ∧ r.listId = p.listId ∧
        (∀ q ∈ told, q.id = i → q.isDeleted) ∧
        ((∃ q ∈ told, q.id = i) ↔ node.cursor < r.version) ∧
        node'.items i = if node.cursor < r.version then none else some p) ∧
    ∀ mid, ReflTransGen Next off mid →
      (∀ told later node', CatchesUp mid { node with cursor := 0 } told later node' →
        (∃ q ∈ told, q.id = i ∧ q.isDeleted) ∧
          ∀ j q, node'.items j = some q → ¬mid.store.Off q.listId) ∧
      ∀ (poller : Gate) (key : Option String) (caller : Caller) (sizes : Nat → Int),
        mid.isOpen → poller.authenticate key = .ok caller → caller.pulls →
        (∀ k, 0 < poller.settings.pullSize (sizes k)) → ∀ start : Node, ∃ n d later node',
          outcome (drain poller key ((List.range n).map sizes) start.cursor) mid =
            (.ok (some d), later) ∧
          later.store = mid.store ∧ CatchesUp mid start d.items later node' := by
  intro off
  have hempty : Reachable { now } := ⟨now, .refl⟩
  have hpolls : Polls { now } {} before off node := h.event (next_call gate token call st)
  have hreach := hempty.run hpolls.reach
  have hknows := hpolls.knows hempty (Node.inStep_start now).toKnows
  have hoff : off.store.Off p.listId := Gate.off_of_isOk hcall hdone
  refine ⟨Gate.sameItems_serve hcall, fun told later node' hcatch => ?_, fun mid hrun => ⟨?_, ?_⟩⟩
  · exact hcatch.told_of_off hreach hknows hp hoff
  · intro told later node' hcatch
    have hreach' := hreach.run hrun
    have hknows' : Node.Knows { node with cursor := 0 } mid.store :=
      (hknows.later (hreach.since hrun) (hreach.listsKept hrun)).rewound
    have hoff' := hoff.later (hreach.closed hrun).lists
    obtain ⟨r, hr, -, -, hdeleted, htold, -⟩ := hcatch.told_of_off hreach' hknows' hp hoff'
    have hpositive := (hreach'.run hcatch.polls.reach).versioned.positive r hr
    obtain ⟨q, hq, hid⟩ := htold.mpr hpositive
    exact ⟨⟨q, hq, hid, hdeleted q hq hid⟩, fun _ _ => hcatch.not_off hreach' hknows' rfl⟩
  · intro poller key caller sizes hopen hauth hcaller hsizes start
    exact (hreach.run hrun).exists_catchesUp hopen hauth hcaller hsizes start

/-- One address is blocked. -/
def oneBlock : State :=
  State.after { now := 0 } (adminCalls [.createList publicBlackList,
    .createItem { listId := 1, value := "10.0.0.1" }])

/-- What a node gets of the block. -/
def pulledBlock : PulledItem :=
  pulled 1 "10.0.0.1" "10.0.0.1" "" 1 1 false

/-- After its list has been switched off the block is revised. That takes a version above the node's
cursor, so the node is told that the block is deleted. -/
theorem resync_after_list_off_of_revised :
    let poll := outcome (adminGate.serve (some "key") (.pullItems 0 10)) oneBlock
    let node := Node.take {} ⟨[pulledBlock], 1, false⟩
    let delete := outcome (adminGate.serve (some "key") (.deleteList 1)) poll.2
    let later := delete.2.after (adminCalls [.updateItem 1 { value := "10.0.0.3" }])
    poll.1 = .ok (.page ⟨[pulledBlock], 1, false⟩) ∧ node.items 1 = some pulledBlock ∧
      delete.1.isOk ∧
      ∃ n d st' node',
        outcome (drain adminGate (some "key") ((List.range n).map fun _ => 10) 1) later =
          (.ok (some d), st') ∧
        CatchesUp delete.2 node d.items st' node' ∧
        (∃ q ∈ d.items, q.id = 1 ∧ q.isDeleted) ∧ node'.items 1 = none := by
  intro poll node delete later
  have hpoll : poll = (.ok (.page ⟨[pulledBlock], 1, false⟩), poll.2) :=
    outcome_of_page? (by decide +kernel)
  have hstart : Polls { now := 0 } {} [] oneBlock {} := Polls.refl.run (run_after _ _)
  have hpolls : Polls { now := 0 } {} [pulledBlock] poll.2 node :=
    hstart.poll adminGate (some "key") 10 hpoll
  have hkeeps : node.items 1 = some pulledBlock := rfl
  have hcall : Call.SwitchesOff poll.2.store pulledBlock.listId (.deleteList 1) := rfl
  have hdone : delete.1.isOk := by decide +kernel
  have hrun : ReflTransGen Next delete.2 later := run_after _ _
  have hopen : later.isOpen := by decide +kernel
  have hcaller : Caller.pulls ⟨.admin, 1⟩ := by simp [Caller.pulls]
  obtain ⟨-, hcaught, hlater⟩ := resync_after_list_off hpolls hkeeps hcall hdone
  obtain ⟨n, d, st', node', hdrain, hstore, hcatch⟩ := (hlater later hrun).2 adminGate (some "key")
    ⟨.admin, 1⟩ (fun _ => 10) hopen rfl hcaller (fun _ => by decide) node
  have hcatch' : CatchesUp delete.2 node d.items st' node' := (Polls.refl.run hrun).catchesUp hcatch
  obtain ⟨r, hr, -, -, hdeleted, htold, hdropped⟩ := hcaught _ _ _ hcatch'
  have hversion : ∀ r ∈ later.store.items.rows, node.cursor < r.version := by decide +kernel
  rw [hstore] at hr
  rw [if_pos (hversion r hr)] at hdropped
  obtain ⟨q, hq, hid⟩ := htold.mpr (hversion r hr)
  exact ⟨congrArg Prod.fst hpoll, hkeeps, hdone, n, d, st', node', hdrain, hcatch',
    ⟨q, hq, hid, hdeleted q hq hid⟩, hdropped⟩

/-- A node has caught up and keeps the block. The list of the block is switched off, and the node
polls until it gets a page that is not full. It is told nothing and still keeps the block. -/
theorem list_off_missed_by_cursor :
    let first := outcome (adminGate.serve (some "key") (.pullItems 0 10)) oneBlock
    let node := Node.take {} ⟨[pulledBlock], 1, false⟩
    let delete := outcome (adminGate.serve (some "key") (.deleteList 1)) first.2
    let second := outcome (adminGate.serve (some "key") (.pullItems node.cursor 10)) delete.2
    CatchesUp { now := 0 } {} [pulledBlock] first.2 node ∧
      node.items 1 = some pulledBlock ∧ pulledBlock.isDeleted = false ∧
      delete.1.isOk ∧ delete.2.store.Off pulledBlock.listId ∧
      second.1 = .ok (.page ⟨[], 1, false⟩) ∧
      CatchesUp delete.2 node [] second.2 (node.take ⟨[], 1, false⟩) ∧
      (node.take ⟨[], 1, false⟩).items 1 = some pulledBlock := by
  intro first node delete second
  have hfirst : first = (.ok (.page ⟨[pulledBlock], 1, false⟩), first.2) :=
    outcome_of_page? (by decide +kernel)
  have hsecond : second = (.ok (.page ⟨[], 1, false⟩), second.2) :=
    outcome_of_page? (by decide +kernel)
  have hstart : Polls { now := 0 } {} [] oneBlock {} := Polls.refl.run (run_after _ _)
  exact ⟨.last hstart adminGate (some "key") 10 hfirst rfl, rfl, rfl, by decide +kernel,
    by decide +kernel, congrArg Prod.fst hsecond,
    .last .refl adminGate (some "key") 10 hsecond rfl, rfl⟩

end FirewallLists
