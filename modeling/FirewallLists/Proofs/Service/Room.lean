import FirewallLists.Proofs.Tenant.Alike
import FirewallLists.Proofs.Versions

/-
  How many versions are left. Versions are numbers of bounded size (`Store.invariant_bounded`).
  While there is room a write finds its version, and after the last one each write fails. Revising
  an item takes one version at a time, so every later version is reached
  (`Reachable.exists_revised`), the last one too (`exists_exhausted`); and when only one is left, a
  call that deletes two items switches off the first one and then fails
  (`exists_deleteItems_fails`).
-/

namespace FirewallLists

open Relation ServiceM

/-! ## Writes while versions are left -/

namespace Store

variable {s : Store}

/-- No other item has the next version. -/
theorem versionTaken_of_next (hv : s.Versioned) (row : ItemRow) (hversion : row.version = s.next) :
    versionTaken s.reserved row = false := by
  rw [versionTaken, List.any_eq_false]
  intro r hr
  have hle := hv.le_sequence r hr
  have hne : r.version ≠ row.version := by
    rw [hversion, next]
    omega
  simp [hne]

theorem replaceItem_of_next (hv : s.Versioned) (row : ItemRow) (hversion : row.version = s.next) :
    replaceItem s.reserved row = .ok (s.renew row) := by
  rw [replaceItem, versionTaken_of_next hv row hversion, if_neg Bool.false_ne_true]
  rfl

theorem insertItem_of_next (hv : s.Versioned) (row : ItemRow) (hversion : row.version = s.next) :
    insertItem s.reserved row = .ok (s.append row) := by
  rw [insertItem, versionTaken_of_next hv row hversion, if_neg Bool.false_ne_true]
  rfl

/-- While versions are left an item can be switched off. -/
theorem retire_of_room (hv : s.Versioned) (hroom : s.sequence < maxInteger) (row : ItemRow) :
    s.retire row = .ok (⟨row.id, row.listId, s.next⟩, s.renew (row.retire s.next)) := by
  have hreplace := replaceItem_of_next hv (row.retire s.next) rfl
  unfold retire
  exact bind_eq_ok.mpr ⟨_, nextVersion_of_room hroom, bind_eq_ok.mpr ⟨_, hreplace, rfl⟩⟩

theorem disableItem_of_room (hv : s.Versioned) (hroom : s.sequence < maxInteger) {id : Int}
    {row : ItemRow} (hrow : s.liveItem? id = some row) :
    s.disableItem id =
      .ok (some ⟨row.id, row.listId, s.next⟩, s.renew (row.retire s.next)) := by
  rw [disableItem_of_live hrow, retire_of_room hv hroom]
  rfl

theorem disableItem_cases (hv : s.Versioned) (hroom : s.sequence < maxInteger) (id : Int) :
    s.disableItem id = .ok (none, s.reserved) ∨
      ∃ row retired, s.liveItem? id = some row ∧
        s.disableItem id = .ok (some retired, s.renew (row.retire s.next)) := by
  cases hrow : s.liveItem? id with
  | none => exact Or.inl ((disableItem_of_off hrow).trans (if_pos hroom))
  | some row => exact Or.inr ⟨row, _, rfl, disableItem_of_room hv hroom hrow⟩

/-- While versions are left an item can be revised when nothing is in its way. -/
theorem updateItem_of_clear (hv : s.Versioned) (hroom : s.sequence < maxInteger) {id : Int}
    {row : ItemRow} (hrow : s.liveItem? id = some row) {item : NewItem}
    (hclear : s.overlapping item id = []) :
    s.updateItem id item = .ok (some ⟨id, s.next, []⟩, s.renew (row.revise item s.next)) := by
  have hversion := nextVersion_of_room hroom
  have hreplace := replaceItem_of_next hv (row.revise item s.next) rfl
  rw [updateItem_of_live hrow, hclear]
  refine bind_eq_ok.mpr ⟨([], s), rfl, ?_⟩
  exact bind_eq_ok.mpr ⟨_, hversion, bind_eq_ok.mpr ⟨_, hreplace, rfl⟩⟩

theorem retire_of_exhausted (hroom : ¬s.sequence < maxInteger) (row : ItemRow) :
    s.retire row = .error .noVersionLeft :=
  bind_of_error (nextVersion_of_exhausted hroom) _

theorem disableItem_of_exhausted (hroom : ¬s.sequence < maxInteger) (id : Int) :
    s.disableItem id = .error .noVersionLeft :=
  bind_of_error (nextVersion_of_exhausted hroom) _

theorem updateItem_of_exhausted (hroom : ¬s.sequence < maxInteger) (id : Int) (item : NewItem) :
    s.updateItem id item = .error .noVersionLeft :=
  bind_of_error (nextVersion_of_exhausted hroom) _

/-- Versions are given out up to the last one. -/
theorem invariant_bounded : Invariant fun s => s.sequence ≤ maxInteger where
  empty := by decide
  edit := by
    intro now s s' _ hs h
    cases h with
    | retire _ _ room => exact room
    | revise _ _ _ _ _ room => exact room
    | add _ _ _ room => exact room
    | markRead => exact hs
    | lists write => rw [write.items.2]; exact hs
  directory := fun _ hs => hs

end Store

/-! ## Revising an item -/

/-- The caller may revise items of the list. -/
structure Caller.MayRevise (caller : Caller) (st : State) (listId : Int) : Prop where
  kind : caller.require [.admin, .user] = .ok ()
  list : outcome (Ownership.checkCallerList caller listId) st = (.ok (), st)

namespace Caller.MayRevise

variable {caller : Caller} {st : State} {listId : Int}

theorem of_admin (hadmin : caller.kind = .admin) (st : State) (listId : Int) :
    caller.MayRevise st listId where
  kind := by simp [Caller.require, hadmin]
  list := outcome_checkCallerList hadmin listId st

theorem outcome_require (h : caller.MayRevise st listId) :
    outcome (ServiceM.require caller [.admin, .user]) st = (.ok (), st) :=
  outcome_require_of_ok h.kind st

/-- Whoever may revise items may do so in states that look alike. -/
theorem alike (h : caller.MayRevise st listId) {st' : State} (halike : st.Alike st') :
    caller.MayRevise st' listId where
  kind := h.kind
  list := (halike.same_checkCallerList caller listId).outcome_eq
    (Ownership.looks_checkCallerList caller listId) h.list

theorem counted (h : caller.MayRevise st listId) (call : Call) :
    caller.MayRevise (st.counted call) listId :=
  h.alike (st.alike_counted call)

end Caller.MayRevise

theorem Items.outcome_listOf {st : State} (hopen : st.isOpen) (id : Int) :
    outcome (listOf id) st = (match st.store.itemListId? id with
      | some listId => .ok listId
      | none => .error (.itemNotFound id), st) := by
  rw [listOf, outcome_bind_of_ok (outcome_query_of_isOpen hopen _)]
  rcases st.store.itemListId? id with _ | listId <;> rfl

/-- A revision comes to what its write comes to. When there is no such item, or the write fails,
everything is as before. -/
theorem Items.outcome_update {caller : Caller} {st : State} {id listId : Int}
    (hmay : caller.MayRevise st listId) (hopen : st.isOpen)
    (hlist : st.store.itemListId? id = some listId) (draft : ItemDraft) {item : NewItem}
    (hnormal : ({ draft with listId := listId } : ItemDraft).normalize = .ok item) :
    outcome (update caller id draft) st = match st.store.updateItem id item with
      | .ok (some written, s) => (.ok (), { st with
          store := s
          channel := st.channel.send ⟨id, listId, written.version⟩
          counters := ((st.counters.add (.itemsWritten .update) 1).add (.itemsWritten .replace)
            written.replaced.length).add .signals 1 })
      | .ok (none, _) => (.error (.itemNotFound id), st)
      | .error e => (.error (.storage e), st) := by
  have hlistOf : outcome (listOf id) st = (.ok listId, st) := by
    rw [outcome_listOf hopen, hlist]
  have htransact := outcome_transact?_of_isOpen hopen (·.updateItem id item)
  rw [update, outcome_bind_of_ok hmay.outcome_require, outcome_bind_of_ok hlistOf,
    outcome_bind_of_ok hmay.list, hnormal, outcome_bind_of_ok (outcome_ofExcept _ st),
    outcome_bind, htransact]
  rcases st.store.updateItem id item with e | ⟨_ | written, s⟩ <;> rfl

theorem Gate.serve_updateItem {gate : Gate} {token : Option String} {caller : Caller}
    (hauth : gate.authenticate token = .ok caller) {st : State} {id listId : Int}
    (hmay : caller.MayRevise st listId) (hopen : st.isOpen)
    (hlist : st.store.itemListId? id = some listId) (draft : ItemDraft) {item : NewItem}
    (hnormal : ({ draft with listId := listId } : ItemDraft).normalize = .ok item)
    {written : Store.Written} {s : Store}
    (hwrite : st.store.updateItem id item = .ok (some written, s)) :
    ∃ st', outcome (gate.serve token (.updateItem id draft)) st = (.ok .done, st') ∧
      st'.store = s := by
  have hopen' : (st.counted (.updateItem id draft)).isOpen := hopen
  have hwrite' : (st.counted (.updateItem id draft)).store.updateItem id item = _ := hwrite
  have hupdate := Items.outcome_update (hmay.counted _) hopen' hlist draft hnormal
  rw [hwrite'] at hupdate
  exact ⟨_, Gate.serve_of_ok hauth ((outcome_bind_of_ok hupdate).trans rfl), rfl⟩

/-- A revision that fails is told of, and the tables are as before. -/
theorem Gate.serve_updateItem_of_error {gate : Gate} {token : Option String} {caller : Caller}
    (hauth : gate.authenticate token = .ok caller) {st : State} {id listId : Int}
    (hmay : caller.MayRevise st listId) (hopen : st.isOpen)
    (hlist : st.store.itemListId? id = some listId) (draft : ItemDraft) {item : NewItem}
    (hnormal : ({ draft with listId := listId } : ItemDraft).normalize = .ok item)
    {e : StorageError} (hwrite : st.store.updateItem id item = .error e) :
    ∃ st', outcome (gate.serve token (.updateItem id draft)) st = (.error (.storage e), st') ∧
      st'.store = st.store := by
  have hopen' : (st.counted (.updateItem id draft)).isOpen := hopen
  have hwrite' : (st.counted (.updateItem id draft)).store.updateItem id item = _ := hwrite
  have hupdate := Items.outcome_update (hmay.counted _) hopen' hlist draft hnormal
  rw [hwrite'] at hupdate
  exact ⟨_, Gate.serve_of_error hauth (outcome_bind_of_error hupdate), rfl⟩

theorem ItemDraft.exists_normal (draft : ItemDraft) (h : draft.normalize.toOption.isSome) :
    ∃ item, draft.normalize = .ok item := by
  cases hnormal : draft.normalize with
  | error e => rw [hnormal] at h; cases h
  | ok item => exact ⟨item, rfl⟩

/-- A run has led to the second state, and of all items only this one has changed. It is still
switched on in its list. -/
structure State.Revises (start : State) (id listId : Int) (st : State) : Prop where
  run : ReflTransGen Next start st
  alike : start.Alike st
  others : ∀ r : ItemRow, r.id ≠ id → (r ∈ st.store.items.rows ↔ r ∈ start.store.items.rows)
  self : ∃ row ∈ st.store.items.rows, row.id = id ∧ row.listId = listId ∧ row.isLive

namespace State.Revises

variable {start st : State} {id listId : Int}

/-- While versions are left the administrator may revise the item once more, if nothing else is in
its way. -/
theorem next (h : start.Revises id listId st) (hreach : Reachable start) (hopen : start.isOpen)
    {draft : ItemDraft} {item : NewItem}
    (hnormal : ({ draft with listId := listId } : ItemDraft).normalize = .ok item)
    (hclear : start.store.overlapping item id = []) (hroom : st.store.sequence < maxInteger) :
    ∃ later : State, start.Revises id listId later ∧
      later.store.sequence = st.store.sequence + 1 := by
  obtain ⟨row, hmem, rfl, rfl, hlive⟩ := h.self
  have hreach := hreach.run h.run
  have hs := hreach.ordered
  have hopen : st.isOpen := h.alike.isOpen.trans hopen
  have hrow := Store.liveItem?_of_mem hs hmem hlive
  have hlist : st.store.itemListId? row.id = some row.listId := by
    rw [Store.itemListId?, Store.find?_of_mem hs hmem, Option.map_some]
  have hclear' : st.store.overlapping item row.id = [] := by
    rw [List.eq_nil_iff_forall_not_mem] at hclear ⊢
    intro r hr
    obtain ⟨hr, hover⟩ := Store.mem_overlapping.mp hr
    exact hclear r (Store.mem_overlapping.mpr ⟨(h.others r hover.2.2.2).mp hr, hover⟩)
  have hwrite := Store.updateItem_of_clear hreach.versioned hroom hrow hclear'
  have htouches := Store.touches_revise hs hmem item
  have hauth : adminGate.authenticate (some "key") = .ok ⟨.admin, 1⟩ := by decide +kernel
  obtain ⟨st', hserve, hstore⟩ :=
    Gate.serve_updateItem hauth (.of_admin rfl st row.listId) hopen hlist draft hnormal hwrite
  have hprogress := adminGate.serve_progress (some "key") (.updateItem row.id draft) st
  have hnext := next_call adminGate (some "key") (.updateItem row.id draft) st
  rw [hserve] at hnext hprogress
  refine ⟨st', ⟨h.run.tail hnext, ?_, ?_, ?_⟩, ?_⟩
  · refine h.alike.trans ⟨?_, hprogress.isOpen, hprogress.failing, hprogress.now⟩
    rw [hstore]
    exact ⟨rfl, rfl, rfl, rfl, rfl, rfl⟩
  · intro r hr
    rw [← h.others r hr, hstore]
    refine (htouches.mem_iff r).trans ⟨?_, fun hmem => Or.inr ⟨hmem, hr⟩⟩
    rintro (rfl | ⟨hmem, -⟩)
    · exact absurd rfl hr
    · exact hmem
  · rw [hstore]
    exact ⟨_, htouches.mem, rfl, rfl, hlive⟩
  · rw [hstore]
    rfl

end State.Revises

/-- Every later version is reached by revising an item that nothing is in the way of. -/
theorem Reachable.exists_revised {start : State} (h : Reachable start) (hopen : start.isOpen)
    {row : ItemRow} (hrow : row ∈ start.store.items.rows) (hlive : row.isLive)
    (draft : ItemDraft) {item : NewItem}
    (hnormal : ({ draft with listId := row.listId } : ItemDraft).normalize = .ok item)
    (hclear : start.store.overlapping item row.id = []) (n : Nat)
    (hn : start.store.sequence + n ≤ maxInteger) :
    ∃ st, start.Revises row.id row.listId st ∧ st.store.sequence = start.store.sequence + n := by
  induction n with
  | zero =>
    refine ⟨start, ⟨.refl, .refl start, fun _ _ => .rfl, row, hrow, rfl, rfl, hlive⟩, ?_⟩
    simp
  | succ n ih =>
    obtain ⟨st, hst, hversion⟩ := ih (by omega)
    obtain ⟨later, hlater, hnext⟩ := hst.next h hopen hnormal hclear (by omega)
    exact ⟨later, hlater, by omega⟩

/-! ## Deleting several items with the last version -/

namespace Items

variable {caller : Caller} {st : State}

/-- The administrator may delete all items that are there. -/
theorem outcome_deletable (hadmin : caller.kind = .admin) (hopen : st.isOpen) {ids : List Int}
    (hids : ∀ id ∈ ids, ∃ listId, st.store.itemListId? id = some listId) :
    outcome (deletable caller ids) st = (.ok ids, st) := by
  induction ids with
  | nil => rfl
  | cons id ids ih =>
    obtain ⟨listId, hlist⟩ := hids id List.mem_cons_self
    rw [deletable, outcome_bind_of_ok (outcome_query_of_isOpen hopen _), hlist]
    dsimp only
    rw [outcome_bind_of_ok (outcome_checkCallerList hadmin listId st),
      outcome_bind_of_ok (ih fun id hid => hids id (List.mem_cons_of_mem _ hid))]
    rfl

theorem outcome_disable_of_exhausted (hopen : st.isOpen)
    (hroom : ¬st.store.sequence < maxInteger) (id : Int) :
    outcome (transact? (·.disableItem id)) st = (.error (.storage .noVersionLeft), st) := by
  rw [outcome_transact?_of_isOpen hopen, Store.disableItem_of_exhausted hroom]

/-- While the tables can be reached, several items cannot all be switched off only because the
versions have run out. -/
theorem disableAll_eq_error (hopen : st.isOpen) (hs : st.store.Ordered) (hv : st.store.Versioned)
    (hbounded : st.store.sequence ≤ maxInteger) {ids : List Int} {e : ServiceError} {st' : State}
    (h : outcome (disableAll ids) st = (.error e, st')) :
    e = .storage .noVersionLeft ∧ st'.store.sequence = maxInteger := by
  induction ids generalizing st with
  | nil => cases h
  | cons id ids ih =>
    rw [disableAll] at h
    by_cases hroom : st.store.sequence < maxInteger
    · have hwrite := outcome_transact?_of_isOpen hopen (·.disableItem id)
      rcases st.store.disableItem_cases hv hroom id with hnone | ⟨row, retired, hrow, hsome⟩
      · rw [hnone] at hwrite
        rw [outcome_bind_of_ok hwrite] at h
        exact ih hopen hs hv hbounded h
      · rw [hsome] at hwrite
        rw [outcome_bind_of_ok hwrite] at h
        have htouches := Store.touches_retire hs (Store.liveItem?_eq_some hrow).2.1
        dsimp only at h
        rw [← map_eq_pure_bind, outcome_map_eq_error] at h
        apply ih _ _ _ _ h
        · exact hopen
        · exact ⟨hs.items.replace _, hs.lists⟩
        · exact htouches.versioned hv
        · exact hroom
    · rw [outcome_bind_of_error (outcome_disable_of_exhausted hopen hroom id)] at h
      cases h
      exact ⟨rfl, by omega⟩

theorem disableAll_of_closed (hclosed : ¬st.isOpen) {ids : List Int} {e : ServiceError}
    {st' : State} (h : outcome (disableAll ids) st = (.error e, st')) : st' = st := by
  cases ids with
  | nil => cases h
  | cons id ids =>
    rw [disableAll, outcome_bind_of_error (outcome_transact?_of_closed hclosed _)] at h
    cases h
    rfl

/-- The first item gets the last version, and there is none for the second one. -/
theorem outcome_deleteAll_of_last (hadmin : caller.kind = .admin) (hopen : st.isOpen)
    (hv : st.store.Versioned) (hlast : st.store.next = maxInteger) {first second : Int}
    {row : ItemRow} (hrow : st.store.liveItem? first = some row)
    (hids : ∀ id ∈ [first, second], ∃ listId, st.store.itemListId? id = some listId) :
    outcome (deleteAll caller [first, second]) st = (.error (.storage .noVersionLeft),
      { st with store := st.store.renew (row.retire st.store.next) }) := by
  have hroom : st.store.sequence < maxInteger := by
    unfold Store.next at hlast
    omega
  have hexhausted : ¬(st.store.renew (row.retire st.store.next)).sequence < maxInteger :=
    Int.not_lt.mpr (Int.le_of_eq hlast.symm)
  have hfirst := outcome_transact?_of_isOpen hopen (·.disableItem first)
  rw [Store.disableItem_of_room hv hroom hrow] at hfirst
  have hrequire : outcome (require caller [.admin, .user]) st = (.ok (), st) :=
    outcome_require_of_admin st hadmin (by decide)
  rw [deleteAll, outcome_bind_of_ok hrequire,
    outcome_bind_of_ok (outcome_deletable hadmin hopen hids)]
  refine outcome_bind_of_error ?_
  rw [disableAll, outcome_bind_of_ok hfirst]
  refine outcome_bind_of_error (outcome_bind_of_error ?_)
  apply outcome_disable_of_exhausted
  · exact hopen
  · exact hexhausted

end Items

/-! ## States with few versions left -/

/-- A list with two items. -/
def twoItems : State :=
  State.after { now := 0 } (adminCalls [.createList publicBlackList,
    .createItem { listId := 1, value := "10.0.0.1" },
    .createItem { listId := 1, value := "10.0.0.2" }])

theorem reachable_twoItems : Reachable twoItems :=
  reachable_after 0 _

/-- The second item can be revised until any later version is the last one given out. -/
theorem exists_twoItems_revised (n : Nat) (hn : 2 + (n : Int) ≤ maxInteger) :
    ∃ st, twoItems.Revises 2 1 st ∧ st.store.sequence = 2 + n := by
  obtain ⟨row, hrow, hid, hlist, hlive⟩ : ∃ row ∈ twoItems.store.items.rows,
      row.id = 2 ∧ row.listId = 1 ∧ row.isLive := by decide +kernel
  obtain ⟨item, hnormal⟩ := ItemDraft.exists_normal { listId := 1, value := "10.0.0.2" }
    (by decide +kernel)
  have hclear : twoItems.store.overlapping item 2 = [] := by
    have hempty : ({ listId := 1, value := "10.0.0.2" } : ItemDraft).normalize.toOption.all
        fun item => (twoItems.store.overlapping item 2).isEmpty := by decide +kernel
    simpa [hnormal, Except.toOption] using hempty
  have hsequence : twoItems.store.sequence = 2 := by decide +kernel
  obtain ⟨st, hrevised, hversion⟩ := reachable_twoItems.exists_revised (by decide +kernel) hrow
    hlive { value := "10.0.0.2" } (hlist ▸ hnormal) (hid ▸ hclear) n (by rw [hsequence]; exact hn)
  rw [hid, hlist] at hrevised
  exact ⟨st, hrevised, hsequence ▸ hversion⟩

/-- A run leads to a state in which an item is active and no version is left. -/
theorem exists_exhausted : ∃ st : State, Reachable st ∧ st.isOpen ∧
    st.store.sequence = maxInteger ∧ ∃ row ∈ st.store.items.rows, row.isActive st.now := by
  obtain ⟨st, hrevised, hversion⟩ := exists_twoItems_revised 9223372036854775805 (by decide)
  obtain ⟨row, hrow, hid, hactive⟩ : ∃ row ∈ twoItems.store.items.rows,
      row.id ≠ 2 ∧ row.isActive twoItems.now := by decide +kernel
  refine ⟨st, reachable_twoItems.run hrevised.run, ?_, hversion, row, ?_, ?_⟩
  · exact hrevised.alike.isOpen.trans (by decide +kernel)
  · exact (hrevised.others row hid).mpr hrow
  · rw [hrevised.alike.now]
    exact hactive

/-- A run leads to a state in which a call that deletes two items takes the last version for the
first of them and then fails. -/
theorem exists_deleteItems_fails : ∃ st st' : State, Reachable st ∧
    outcome (adminGate.serve (some "key") (.deleteItems [1, 2])) st =
      (.error (.storage .noVersionLeft), st') ∧
    st'.store.sequence = st.store.sequence + 1 := by
  -- the second item is revised until one version is left
  obtain ⟨st, hrevised, hversion⟩ := exists_twoItems_revised 9223372036854775804 (by decide)
  obtain ⟨first, hfirst, hfirstId, hfirstLive⟩ : ∃ row ∈ twoItems.store.items.rows,
      row.id = 1 ∧ row.isLive := by decide +kernel
  have hreach := reachable_twoItems.run hrevised.run
  have hs := hreach.ordered
  have hopen : st.isOpen := hrevised.alike.isOpen.trans (by decide +kernel)
  have hlast : st.store.next = maxInteger := by
    rw [Store.next, hversion]
    decide
  have hfirst' : first ∈ st.store.items.rows :=
    (hrevised.others first (by rw [hfirstId]; decide)).mpr hfirst
  have hfound : st.store.items.find? 1 = some first :=
    hs.items.find?_eq_some.mpr ⟨hfirst', hfirstId⟩
  have hrow : st.store.liveItem? 1 = some first :=
    hfirstId ▸ Store.liveItem?_of_mem hs hfirst' hfirstLive
  obtain ⟨row, hmem, hrowId, -⟩ := hrevised.self
  have hids : ∀ id ∈ [1, 2], ∃ listId, st.store.itemListId? id = some listId := by
    have hfound' : st.store.items.find? 2 = some row :=
      hs.items.find?_eq_some.mpr ⟨hmem, hrowId⟩
    simp [Store.itemListId?, hfound, hfound']
  have hauth : adminGate.authenticate (some "key") = .ok ⟨.admin, 1⟩ := by decide +kernel
  have hopen' : (st.counted (.deleteItems [1, 2])).isOpen := hopen
  have hadmin : Caller.kind ⟨.admin, 1⟩ = .admin := rfl
  have hdelete := Items.outcome_deleteAll_of_last hadmin hopen' hreach.versioned hlast hrow hids
  exact ⟨st, _, hreach, Gate.serve_of_error hauth (outcome_map_eq_error.mpr hdelete), rfl⟩

end FirewallLists
