import FirewallLists.Proofs.Coverage
import FirewallLists.Proofs.Service.Off
import FirewallLists.Proofs.Tenant.Shown
import FirewallLists.Rpc.Reply

/-
  Lists that are off are dead. Switching a list off writes its own row only, so that it is off has
  to show wherever its items are read or written: a check looks for a list that is switched on
  (`Gate.reply_check_of_off`), a tenant may only use such lists (`Store.Off.not_usable`), and on a
  page each item is seen with its list (`Store.Off.deleted_or_grey`). Whatever happens, the list
  stays off and gets no items, so all of this goes on for ever (`Store.Off.dead`).
-/

namespace FirewallLists

open Net Relation ServiceM

/-! ## Checks -/

theorem Contents.outcome_check_of_off {caller : Caller} {listId : Int} {text : String} {a : Address}
    {st : State} (h : st.store.Off listId) (hs : st.store.Ordered) (hsound : st.store.ListsSound)
    (hkind : caller.kind = .admin) (htext : Address.ofText? text = some a) :
    outcome (check caller listId text) st =
      (if st.isOpen then .ok .listNotFound else .error (.storage .closed), st) := by
  rw [check, outcome_bind_of_ok (outcome_require_of_admin st hkind (by decide)), htext]
  dsimp only
  rw [outcome_bind, outcome_query, State.tables]
  cases st.isOpen with
  | false => rfl
  | true =>
    have hnone : (Except.ok st.store >>= (·.findEnabledList listId)) = .ok none :=
      h.findEnabledList hs hsound
    rw [if_pos rfl, hnone]
    rfl

/-- A check of a list that is off tells that there is no such list. -/
theorem Gate.reply_check_of_off {gate : Gate} {token : Option String} {caller : Caller}
    {listId : Int} {text : String} {a : Address} {st : State} (h : st.store.Off listId)
    (hs : st.store.Ordered) (hsound : st.store.ListsSound)
    (hauth : gate.authenticate token = .ok caller) (hkind : caller.kind = .admin)
    (htext : Address.ofText? text = some a) :
    (outcome (gate.serve token (.checkStatus listId text)) st).1 =
      if st.isOpen then .ok (.status .listNotFound) else .error (.storage .closed) := by
  have hcounted : (st.counted (.checkStatus listId text)).store.Off listId := h
  rw [reply_serve hauth, Call.run, outcome_map,
    Contents.outcome_check_of_off hcounted hs hsound hkind htext]
  show Except.map _ (if st.isOpen then _ else _) = _
  cases st.isOpen <;> rfl

/-! ## Tenants -/

namespace Store

variable {s : Store} {now listId : Int}

theorem Off.not_usable (h : s.Off listId) (hs : s.Ordered) (userId : Int) :
    ¬s.Usable userId listId := by
  rintro ⟨row, hrow, hid, hon, -⟩
  rw [h.state_eq hs hrow hid] at hon
  cases hon

end Store

/-- No tenant changes an item of a list that is off. -/
theorem Gate.mem_iff_of_off {gate : Gate} {token : Option String} {caller : Caller}
    {userId listId : Int} {st : State} (h : st.store.Off listId) (hs : st.store.Ordered)
    (hauth : gate.authenticate token = .ok caller) (hcaller : caller.userId? = some userId)
    (call : Call) {r : ItemRow} (hr : r.listId = listId) :
    r ∈ (outcome (gate.serve token call) st).2.store.items.rows ↔ r ∈ st.store.items.rows :=
  (Gate.confined_serve hs hauth hcaller call).others r (hr ▸ h.not_usable hs userId)

/-- No tenant is shown an item of a list that is off. -/
theorem Gate.not_shown_of_off {gate : Gate} {token : Option String} {caller : Caller}
    {userId listId : Int} {call : Call} {st st' : State} {reply : Reply}
    (h : st.store.Off listId) (hs : st.store.Ordered)
    (hauth : gate.authenticate token = .ok caller) (hcaller : caller.userId? = some userId)
    (hserve : outcome (gate.serve token call) st = (.ok reply, st')) {r : ItemRow}
    (hr : r ∈ st'.store.items.rows) (hlist : r.listId = listId) : r.id ∉ reply.shown := by
  intro hshown
  have hmem := Gate.mem_iff_of_off h hs hauth hcaller call hlist
  rw [hserve] at hmem
  have husable := Gate.shown_serve hs hauth hcaller hserve r (hmem.mp hr) hshown
  exact h.not_usable hs userId (hlist ▸ husable)

/-! ## Pages -/

namespace Store.Off

variable {s : Store} {now listId version size : Int} {items : List Item} (h : s.Off listId)
  (hs : s.Ordered) (hsound : s.ListsSound)
  (hitems : s.itemsAfter version size = .ok items)

include h hs hsound hitems

/-- What a page shows of the list is deleted. -/
theorem isDeleted_of_seen {p : PulledItem} (hp : p ∈ s.seen now items) (hlist : p.listId = listId) :
    p.isDeleted := by
  obtain ⟨list, hfound, hoff⟩ := h.exists_list hs hsound
  obtain ⟨r, -, item, -, hproject, -, hplist⟩ := Node.exists_row_of_seen hitems hp
  rw [← hplist, hlist, Store.listOrGone_eq_some hfound] at hproject
  rw [(Pull.project_eq_some hproject).2.2.2, Option.any_some, hoff]
  rfl

/-- A page shows each row of the list that it holds as deleted, or the list is grey and the page
leaves it out. -/
theorem deleted_or_grey (now : Int) {r : ItemRow} (hr : r ∈ s.rowsAfter version size)
    (hlist : r.listId = listId) :
    (∃ p ∈ s.seen now items, p.id = r.id ∧ p.isDeleted) ∨
      ((∃ list, s.findList listId = .ok (some list) ∧ list.type = .grey) ∧
        ∀ p ∈ s.seen now items, p.id ≠ r.id) := by
  subst hlist
  obtain ⟨list, hfound, hoff⟩ := h.exists_list hs hsound
  obtain ⟨item, hitem, hseen⟩ := Node.mem_seen_iff_of_row now hs hitems hr hfound
  cases hproject : Pull.project item (some list) now with
  | some p =>
    obtain ⟨hp, hid⟩ := (hseen p).mpr hproject
    have hplist : p.listId = r.listId :=
      (Pull.project_eq_some hproject).2.1.trans (ItemRow.toItem_eq_ok hitem).2.1
    exact Or.inl ⟨p, hp, hid, h.isDeleted_of_seen hs hsound hitems hp hplist⟩
  | none =>
    obtain ⟨_, hsame, hgrey⟩ := Pull.project_eq_none.mp hproject
    cases hsame
    refine Or.inr ⟨⟨list, hfound, hgrey⟩, fun p hp hid => ?_⟩
    have hsome := (hseen p).mp ⟨hp, hid⟩
    rw [hproject] at hsome
    cases hsome

end Store.Off

/-! ## Dead lists -/

/-- What has become of a list that was off in the state before. -/
structure Dead (before later : State) (listId : Int) : Prop where
  off : later.store.Off listId
  /-- It has got no items. -/
  closed : ∀ r ∈ later.store.items.rows, r.listId = listId →
    ∃ q ∈ before.store.items.rows, q.id = r.id ∧ q.listId = listId
  /-- A check of an address does not find it. -/
  refused : ∀ (gate : Gate) (token : Option String) (caller : Caller) (text : String) (a : Address),
    gate.authenticate token = .ok caller → caller.kind = .admin →
    Address.ofText? text = some a →
    (outcome (gate.serve token (.checkStatus listId text)) later).1.map Reply.toJson =
      if later.isOpen then
        .ok (.obj [("isOk", .bool false), ("error", .str "ip list not found"),
          ("isFound", .bool false), ("isAllowed", .bool false), ("ipItem", .null)])
      else .error (.storage .closed)
  /-- Whatever a tenant calls, its items stay as they are. -/
  kept : ∀ (gate : Gate) (token : Option String) (userId : Int) (call : Call) (r : ItemRow),
    gate.authenticate token = .ok ⟨.user, userId⟩ → r.listId = listId →
    (r ∈ (outcome (gate.serve token call) later).2.store.items.rows ↔
      r ∈ later.store.items.rows)
  /-- No reply shows a tenant one of its items. -/
  hidden : ∀ (gate : Gate) (token : Option String) (userId : Int) (call : Call) (reply : Reply)
    (st' : State), gate.authenticate token = .ok ⟨.user, userId⟩ →
    outcome (gate.serve token call) later = (.ok reply, st') →
    ∀ r ∈ st'.store.items.rows, r.listId = listId → r.id ∉ reply.shown
  /-- What a page shows of it is deleted. -/
  deleted : ∀ (gate : Gate) (token : Option String) (version size : Int) (page : Pull.Page)
    (st' : State),
    outcome (gate.serve token (.pullItems version size)) later = (.ok (.page page), st') →
    ∀ p ∈ page.items, p.listId = listId → p.isDeleted
  /-- A page shows each of its rows, unless it is grey. -/
  told : ∀ (gate : Gate) (token : Option String) (version size : Int) (page : Pull.Page)
    (st' : State),
    outcome (gate.serve token (.pullItems version size)) later = (.ok (.page page), st') →
    ∀ r ∈ later.store.rowsAfter (max version 0) (gate.settings.pullSize size), r.listId = listId →
      (∃ p ∈ page.items, p.id = r.id ∧ p.isDeleted) ∨
        ((∃ list, later.store.findList listId = .ok (some list) ∧ list.type = .grey) ∧
          ∀ p ∈ page.items, p.id ≠ r.id)

theorem Store.Off.dead {st later : State} {listId : Int} (h : st.store.Off listId)
    (hreach : Reachable st) (hrun : ReflTransGen Next st later) : Dead st later listId := by
  have hreach' := hreach.run hrun
  have hs := hreach'.ordered
  have hsound := hreach'.listsSound
  have hclosed := hreach.closed hrun
  have hoff := h.later hclosed.lists
  constructor
  case off => exact hoff
  case closed =>
    intro r hr hlist
    obtain ⟨q, hq, hid, hqlist⟩ := hclosed.known listId h r hr hlist
    exact ⟨q, hq, hid, hqlist.trans hlist⟩
  case refused =>
    intro gate token caller text a hauth hkind htext
    rw [Gate.reply_check_of_off hoff hs hsound hauth hkind htext]
    cases later.isOpen <;> rfl
  case kept =>
    intro gate token userId call r hauth hlist
    exact Gate.mem_iff_of_off hoff hs hauth rfl call hlist
  case hidden =>
    intro gate token userId call reply st' hauth hserve r hr hlist
    exact Gate.not_shown_of_off hoff hs hauth rfl hserve hr hlist
  case deleted =>
    intro gate token version size page st' hserve p hp hlist
    obtain ⟨items, hitems, rfl, -⟩ := serve_pullItems_eq_ok hreach'.coherent hserve
    exact hoff.isDeleted_of_seen hs hsound hitems hp hlist
  case told =>
    intro gate token version size page st' hserve r hr hlist
    obtain ⟨items, hitems, rfl, -⟩ := serve_pullItems_eq_ok hreach'.coherent hserve
    exact hoff.deleted_or_grey hs hsound hitems later.now hr hlist

/-- The rows of lists stay. Of each only the state changes, and only from on to off, and a list that
is not public belongs to a server or to a tenant. A call that switches a list off writes no item and
takes no version, and once it has succeeded the list is dead in every state to come. -/
theorem disabled_lists_stay_dead {st : State} (h : Reachable st) :
    (∀ r ∈ st.store.lists.rows, r.isPublic = 0 →
      ∃ id, 0 < id ∧ (r.serverId = some id ∨ r.userId = some id)) ∧
    (∀ later, ReflTransGen Next st later → ∀ r ∈ st.store.lists.rows,
      ∃ q ∈ later.store.lists.rows, r.Becomes q ∧
        ∀ q' ∈ later.store.lists.rows, q'.id = r.id → q' = q) ∧
    ∀ (gate : Gate) (token : Option String) (call : Call) (listId : Int),
      call.SwitchesOff st.store listId →
      let result := outcome (gate.serve token call) st
      st.SameItems result.2 ∧ (result.1.isOk →
        ∀ later, ReflTransGen Next result.2 later → Dead result.2 later listId) := by
  refine ⟨fun r hr hprivate => ?_, fun later hrun r hr => ?_, fun gate token call listId hcall => ?_⟩
  · rcases (h.listsSound r hr).owned hprivate with ⟨id, hid, hpos⟩ | ⟨id, hid, hpos⟩
    · exact ⟨id, hpos, Or.inl hid⟩
    · exact ⟨id, hpos, Or.inr hid⟩
  · obtain ⟨q, hq, hbecomes⟩ := (h.closed hrun).lists r hr
    refine ⟨q, hq, hbecomes, fun q' hq' hid => ?_⟩
    exact (h.run hrun).ordered.lists.eq_of_id hq' hq (hid.trans hbecomes.id.symm)
  · refine ⟨Gate.sameItems_serve hcall, fun hok later hrun => ?_⟩
    exact (Gate.off_of_isOk hcall hok).dead (h.next (next_call gate token call st)) hrun

/-- A list with an item is switched off. The administrator may not add an item to it, but may still
revise the one that it has; that takes a version, and nodes are told that the item is deleted. -/
theorem disabled_lists_stay_dead_of_revision :
    let st := State.after { now := 0 } (adminCalls [.createList publicBlackList,
      .createItem { listId := 1, value := "10.0.0.1" }])
    let delete := outcome (adminGate.serve (some "key") (.deleteList 1)) st
    let later := delete.2.after (adminCalls [.createItem { listId := 1, value := "10.0.0.2" },
      .updateItem 1 { value := "10.0.0.3" }])
    delete.1.isOk ∧ delete.2.store.sequence = 1 ∧
      later.store.items.rows.map (fun r => (r.id, r.listId, r.version, r.isLive)) =
        [(1, 1, 2, true)] ∧
      ((outcome (adminGate.serve (some "key") (.pullItems 1 10)) later).1.toOption.bind
        Reply.page?).map (·.items.map fun p => (p.id, p.isDeleted)) = some [(1, true)] ∧
      Dead delete.2 later 1 := by
  intro st delete later
  have hreach : Reachable st := reachable_after 0 _
  have hdone : delete.1.isOk := by decide +kernel
  obtain ⟨-, -, hoff⟩ := disabled_lists_stay_dead hreach
  obtain ⟨-, hdead⟩ := hoff adminGate (some "key") (.deleteList 1) 1 rfl
  exact ⟨hdone, by decide +kernel, by decide +kernel, by decide +kernel,
    hdead hdone later (run_after _ _)⟩

end FirewallLists
