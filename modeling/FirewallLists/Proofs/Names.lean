import FirewallLists.Proofs.Paging

/-
  Items are shown with the names of what caused them, and each kind of look-up may be out of order.
  What a failing look-up takes away is said on the views themselves (`ItemView.degraded`): the names
  it would have given, and what is found together with them. Looking up a name never fails the call
  (`Contents.view_withFailing`), so the reply under any failures is the reply without failures with
  these names taken away (`names_degrade`).
-/

namespace FirewallLists

open Contents ServiceM

/-! ## Names that are not told -/

/-- Only the id is told. -/
def NameInfo.hidden (n : NameInfo) : NameInfo :=
  { n with name := deletedName }

/-- Only the id is told, and no cluster. -/
def NodeInfo.hidden (n : NodeInfo) : NodeInfo :=
  { n with name := deletedName, clusterId := 0 }

/-- Only the id is told, and no server. -/
def PolicyView.hidden (p : PolicyView) : PolicyView :=
  { p with name := deletedName, serverId := 0, serverName := "" }

/-- The name of the server is not told, if the policy is bound to one. -/
def PolicyView.serverHidden (p : PolicyView) : PolicyView :=
  { p with serverName := if 0 < p.serverId then deletedName else p.serverName }

/-- What is left of a view when these kinds of look-up fail. Each reference depends on its own kind
only; that of a policy also names a server. -/
def ItemView.degraded (failing : List Lookup) (v : ItemView) : ItemView where
  item := v.item
  server := if .serverName ∈ failing then v.server.map .hidden else v.server
  policy :=
    if .policy ∈ failing then v.policy.map .hidden
    else if .serverName ∈ failing then v.policy.map .serverHidden else v.policy
  ruleGroup := if .ruleGroupName ∈ failing then v.ruleGroup.map .hidden else v.ruleGroup
  ruleSet := if .ruleSetName ∈ failing then v.ruleSet.map .hidden else v.ruleSet
  node := if .node ∈ failing then v.node.map .hidden else v.node

/-- What is shown as the cause of the item are the ids that the item has. -/
structure ItemView.Refers (v : ItemView) : Prop where
  server : v.server.map (·.id) = v.item.source.serverId
  policy : v.policy.map (·.id) = v.item.source.policyId
  ruleGroup : v.ruleGroup.map (·.id) = v.item.source.ruleGroupId
  ruleSet : v.ruleSet.map (·.id) = v.item.source.ruleSetId
  node : v.node.map (·.id) = v.item.source.nodeId

/-! ## Looking up names -/

theorem Table.id_of_filter_find? {α : Type} [Identified α] {t : Table α} {id : Int} {p : α → Bool}
    {row : α} (h : (t.find? id).filter p = some row) : Identified.id row = id := by
  have hid := List.find?_some (Option.filter_eq_some_iff.mp h).1
  exact beq_iff_eq.mp hid

theorem Directory.id_of_node? {s : Store} {id : Int} {n : NodeInfo} (h : node? s id = some n) :
    n.id = id := by
  obtain ⟨row, hrow, rfl⟩ := Option.map_eq_some_iff.mp h
  exact Table.id_of_filter_find? hrow

theorem Directory.id_of_policy? {s : Store} {id : Int} {p : PolicyInfo}
    (h : policy? s id = some p) : p.id = id := by
  obtain ⟨row, hrow, rfl⟩ := Option.map_eq_some_iff.mp h
  exact Table.id_of_filter_find? hrow

namespace Contents

variable {α : Type} {st : State} {failing : List Lookup} {kind : Lookup}

theorem eq_some_of_found_lookUp {find : Store → Option α} {a : α}
    (h : found (st.lookUp kind find) = some a) : find st.store = some a := by
  cases hlookUp : st.lookUp kind find with
  | error e =>
    rw [hlookUp] at h
    cases h
  | ok answer =>
    rw [hlookUp] at h
    cases answer with
    | none => cases h
    | some b =>
      cases h
      exact State.lookUp_eq_ok hlookUp

theorem found_lookUp_of_failing (h : kind ∈ st.failing) (find : Store → Option α) :
    found (st.lookUp kind find) = none := by
  rw [State.lookUp, if_pos (List.contains_iff_mem.mpr h)]
  rfl

/-- Only whether its own kind fails matters to a look-up. -/
theorem lookUp_withFailing (h : kind ∉ failing) (st : State) (find : Store → α) :
    (st.withFailing failing).lookUp kind find = (st.withFailing []).lookUp kind find := by
  have hanswers : (st.withFailing failing).failing.contains kind = false :=
    Bool.eq_false_iff.mpr (mt List.contains_iff_mem.mp h)
  rw [State.lookUp, hanswers]
  rfl

theorem shownName_of_failing (h : kind ∈ st.failing) (find : Store → Option String) :
    shownName st kind find = deletedName := by
  rw [shownName, found_lookUp_of_failing h]
  rfl

theorem shownName_withFailing (h : kind ∉ failing) (st : State) (find : Store → Option String) :
    shownName (st.withFailing failing) kind find = shownName (st.withFailing []) kind find := by
  rw [shownName, lookUp_withFailing h, shownName]

/-- A node is shown under the id by which it was looked up. -/
theorem nodeInfo_id (st : State) (id : Int) : (nodeInfo st id).id = id := by
  rw [nodeInfo]
  cases hfound : found (st.lookUp .node (Directory.node? · id)) with
  | none => rfl
  | some n => exact Directory.id_of_node? (eq_some_of_found_lookUp hfound)

/-- A policy is shown under the id by which it was looked up. -/
theorem policyView_id (st : State) (id : Int) : (policyView st id).id = id := by
  rw [policyView]
  cases hfound : found (st.lookUp .policy (Directory.policy? · id)) with
  | none => rfl
  | some p => exact Directory.id_of_policy? (eq_some_of_found_lookUp hfound)

/-! ## References under failures -/

theorem nameInfo_withFailing (st : State) (failing : List Lookup) (kind : Lookup)
    (find : Store → Int → Option String) (id : Int) :
    nameInfo (st.withFailing failing) kind find id =
      if kind ∈ failing then (nameInfo (st.withFailing []) kind find id).hidden
      else nameInfo (st.withFailing []) kind find id := by
  split
  · next hfails =>
    rw [nameInfo, shownName_of_failing hfails]
    rfl
  · next hanswers => rw [nameInfo, shownName_withFailing hanswers, nameInfo]

theorem nodeInfo_withFailing (st : State) (failing : List Lookup) (id : Int) :
    nodeInfo (st.withFailing failing) id =
      if .node ∈ failing then (nodeInfo (st.withFailing []) id).hidden
      else nodeInfo (st.withFailing []) id := by
  split
  · next hfails =>
    rw [nodeInfo, found_lookUp_of_failing hfails, NodeInfo.hidden, nodeInfo_id]
    rfl
  · next hanswers => rw [nodeInfo, lookUp_withFailing hanswers, nodeInfo]

/-- The policy is looked up first, and the name of its server only if it is found. -/
theorem policyView_withFailing (st : State) (failing : List Lookup) (id : Int) :
    policyView (st.withFailing failing) id =
      if .policy ∈ failing then (policyView (st.withFailing []) id).hidden
      else if .serverName ∈ failing then (policyView (st.withFailing []) id).serverHidden
      else policyView (st.withFailing []) id := by
  split
  · next hfails =>
    rw [policyView, found_lookUp_of_failing hfails, PolicyView.hidden, policyView_id]
  · next hanswers =>
    rw [policyView, lookUp_withFailing hanswers, policyView]
    by_cases hserver : Lookup.serverName ∈ failing
    · have hname : ∀ find, shownName (st.withFailing failing) .serverName find = deletedName :=
        fun find => shownName_of_failing hserver find
      rw [if_pos hserver]
      cases found ((st.withFailing []).lookUp .policy (Directory.policy? · id)) with
      | none => rfl
      | some p => by_cases hbound : 0 < p.serverId <;> simp [PolicyView.serverHidden, hname, hbound]
    · rw [if_neg hserver]
      simp only [shownName_withFailing hserver]

/-- A reference that is there is shown under failures as the look-up that it takes lets it be. -/
theorem map_of_ite {β γ : Type} {f g : β → γ} {hide : γ → γ} {P : Prop} [Decidable P]
    (h : ∀ id, f id = if P then hide (g id) else g id) (ref : Option β) :
    ref.map f = if P then (ref.map g).map hide else ref.map g := by
  rw [funext h, Option.map_map]
  split <;> rfl

/-- An item is shown under failures as it is without, but for what the failures take away. -/
theorem view_withFailing (st : State) (failing : List Lookup) (item : Item) :
    view (st.withFailing failing) item = (view (st.withFailing []) item).degraded failing := by
  have hpolicy : item.source.policyId.map (policyView (st.withFailing failing)) =
      ((view (st.withFailing []) item).degraded failing).policy := by
    rw [funext (policyView_withFailing st failing)]
    simp only [ItemView.degraded, view, Option.map_map]
    split_ifs <;> rfl
  simp only [view, ItemView.degraded, map_of_ite (nameInfo_withFailing st failing _ _),
    map_of_ite (nodeInfo_withFailing st failing)]
  rw [hpolicy]
  rfl

/-- What is shown as the cause of an item is what the item has. -/
theorem refers_view (st : State) (item : Item) : (view st item).Refers := by
  have hname : ∀ kind find, (fun n : NameInfo => n.id) ∘ nameInfo st kind find = id :=
    fun _ _ => rfl
  have hpolicy : (fun p : PolicyView => p.id) ∘ policyView st = id := funext (policyView_id st)
  have hnode : (fun n : NodeInfo => n.id) ∘ nodeInfo st = id := funext (nodeInfo_id st)
  constructor <;> simp only [view, Option.map_map, hname, hpolicy, hnode, Option.map_id_fun, id]

end Contents

/-! ## Pages of a list under failures -/

section

variable {st : State} {gate : Gate} {token : Option String} {caller : Caller}
  (hauth : gate.authenticate token = .ok caller) (hadmin : caller.kind = .admin)

include hauth hadmin

/-- An administrator who is answered is shown the same items whatever look-ups fail. -/
theorem Gate.exists_reply_listInList (h : Reachable st) {filter : ListFilter}
    (hanswers : Contents.Answers st caller filter) (offset size : Int) :
    ∃ items : List Item, ∀ failing,
      (outcome (gate.serve token (.listInList filter offset size)) (st.withFailing failing)).1 =
        .ok (.itemViews (items.map (view (st.withFailing failing)))) := by
  obtain ⟨rows, hrows⟩ := Store.exists_filterList_iff.mpr hanswers.keyword
  obtain ⟨items, hitems⟩ :=
    h.spanned.mapM_toItem fun r hr => ((Store.mem_filterList hrows).mp hr).1
  refine ⟨page offset (gate.settings.pageSize size) items, fun failing => ?_⟩
  have hopen : ((st.withFailing failing).counted (.listInList filter offset size)).isOpen :=
    hanswers.isOpen
  rw [reply_serve hauth, Call.run, outcome_map,
    Contents.outcome_listInList gate.settings hadmin hopen hrows hitems offset size]
  rfl

/-- An administrator who is not answered is refused in the same way whatever look-ups fail. -/
theorem Gate.exists_reply_listInList_eq_error {filter : ListFilter}
    (hrefused : ¬Contents.Answers st caller filter) (offset size : Int) :
    ∃ e, ∀ failing,
      (outcome (gate.serve token (.listInList filter offset size)) (st.withFailing failing)).1 =
        .error (.storage e) := by
  by_cases hopen : st.isOpen
  · have hkeyword : ¬(isEvaluable filter.keyword ∨
        ∀ r ∈ st.store.items.rows, r.listId = filter.listId → ¬r.isActive st.now) :=
      fun hkeyword => hrefused ⟨hopen, .of_admin hadmin st filter.listId, hkeyword⟩
    rw [not_or, Bool.not_eq_true] at hkeyword
    obtain ⟨hlong, hactive⟩ := hkeyword
    push Not at hactive
    obtain ⟨r, hr, hlist, hactive⟩ := hactive
    refine ⟨.patternTooLong, fun failing => reply_listInList_of_error hauth ?_ offset size⟩
    have hopen' : (st.withFailing failing).isOpen := hopen
    rw [Contents.listed_of_long_keyword hopen' (.of_admin hadmin _ filter.listId) hlong hr hlist
      hactive]
  · refine ⟨.closed, fun failing => ?_⟩
    have hclosed : ¬((st.withFailing failing).counted (.listInList filter offset size)).isOpen :=
      hopen
    have hcall : Call.listInList filter offset size ∈ [Call.existsItem 0, .findItem 0,
        .countInList filter, .listInList filter offset size, .searchIds {} offset size] := by simp
    rw [reply_serve hauth, Call.run_of_closed hadmin hclosed gate.settings hcall]

/-- Whatever look-ups fail in a reachable state, an administrator who lists items is told of the
same items as when none fails, with the same ids of what caused them. Only names are lost, with the
cluster of a node and the server of a policy, and only those that a failing look-up would have
given. Whether the administrator is answered at all does not depend on the look-ups. -/
theorem names_degrade (h : Reachable st) (filter : ListFilter) (offset size : Int)
    (failing : List Lookup) :
    let reply := fun kinds =>
      (outcome (gate.serve token (.listInList filter offset size)) (st.withFailing kinds)).1
    (Contents.Answers st caller filter →
      ∃ views, reply [] = .ok (.itemViews views) ∧
        reply failing = .ok (.itemViews (views.map (·.degraded failing))) ∧
        ∀ v ∈ views, v.Refers ∧ (v.degraded failing).Refers) ∧
    (¬Contents.Answers st caller filter →
      ∃ e, reply [] = .error (.storage e) ∧ reply failing = .error (.storage e)) := by
  intro reply
  constructor
  · intro hanswers
    obtain ⟨items, hitems⟩ :=
      Gate.exists_reply_listInList hauth hadmin h hanswers offset size
    refine ⟨items.map (view (st.withFailing [])), hitems [], ?_, ?_⟩
    · rw [List.map_map]
      refine (hitems failing).trans ?_
      rw [funext (view_withFailing st failing)]
      rfl
    · intro v hv
      obtain ⟨item, -, rfl⟩ := List.mem_map.mp hv
      refine ⟨refers_view _ item, ?_⟩
      rw [← view_withFailing]
      exact refers_view _ item
  · intro hrefused
    obtain ⟨e, herror⟩ :=
      Gate.exists_reply_listInList_eq_error hauth hadmin hrefused offset size
    exact ⟨e, herror [], herror failing⟩

end

/-- The name of a server cannot be looked up. It is lost where the server is said to have caused an
item and where it is the server of the policy that did, and nothing else is. -/
theorem names_degrade_of_server_name :
    let directory : Store := {
      servers := ⟨[⟨7, "web", 5, 1⟩], 7⟩
      policies := ⟨[⟨2, "shop", 7, none, none, none, 1⟩], 2⟩
      nodes := ⟨[⟨3, "edge", 4, 1⟩], 3⟩ }
    let source : Provenance := { nodeId := some 3, serverId := some 7, policyId := some 2 }
    let st := State.after { now := 0 } (.directory directory :: adminCalls
      [.createList publicBlackList, .createItem { listId := 1, value := "10.0.0.1", source }])
    let reply := fun kinds =>
      (outcome (adminGate.serve (some "key") (.listInList (.unfiltered 1) 0 10))
        (st.withFailing kinds)).1
    let causes := fun kinds => ((reply kinds).toOption.bind Reply.itemViews?).map
      (List.map fun v => (v.server, v.policy, v.node))
    Reachable st ∧
      causes [] = some [(some ⟨7, "web"⟩, some ⟨2, "shop", 7, "web"⟩, some ⟨3, "edge", 4⟩)] ∧
      causes [.serverName] =
        some [(some ⟨7, "[deleted]"⟩, some ⟨2, "shop", 7, "[deleted]"⟩, some ⟨3, "edge", 4⟩)] ∧
      ∃ views, reply [] = .ok (.itemViews views) ∧
        reply [.serverName] = .ok (.itemViews (views.map (·.degraded [.serverName]))) := by
  intro directory source st reply causes
  have hreach : Reachable st := reachable_after 0 _
  have hanswers : Contents.Answers st ⟨.admin, 1⟩ (.unfiltered 1) :=
    ⟨by decide +kernel, .of_admin rfl st 1, Or.inl (by decide)⟩
  obtain ⟨views, hfree, hfailing, -⟩ := (names_degrade
    (show adminGate.authenticate (some "key") = .ok ⟨.admin, 1⟩ from rfl) rfl hreach
    (.unfiltered 1) 0 10 [.serverName]).1 hanswers
  exact ⟨hreach, by decide +kernel, by decide +kernel, views, hfree, hfailing⟩

/-- A list has one item, and a keyword is one octet too long. The administrator who lists items with
it is told of none, whatever look-ups fail: the call fails, also when none does. -/
theorem no_names_listed_for_long_keyword :
    let st := State.after { now := 0 } (adminCalls [.createList publicBlackList,
      .createItem { listId := 1, value := "10.0.0.1" }])
    let filter : ListFilter := ⟨1, String.ofList (List.replicate 49999 'a'), "", "", ""⟩
    Reachable st ∧ st.isOpen ∧ ∀ failing,
      (outcome (adminGate.serve (some "key") (.listInList filter 0 10))
        (st.withFailing failing)).1 = .error (.storage .patternTooLong) := by
  intro st filter
  have hlong : isEvaluable filter.keyword = false := isEvaluable_replicate
  have hreach : Reachable st := reachable_after 0 _
  have hopen : st.isOpen := by decide +kernel
  obtain ⟨r, hr, hlist, hactive⟩ : ∃ r ∈ st.store.items.rows, r.listId = 1 ∧ r.isActive st.now := by
    decide +kernel
  clear_value st
  refine ⟨hreach, hopen, fun failing => ?_⟩
  have hopen' : (st.withFailing failing).isOpen := hopen
  have hmay : Caller.MayRevise ⟨.admin, 1⟩ (st.withFailing failing) 1 := .of_admin rfl _ 1
  have hlisted := Contents.listed_of_long_keyword hopen' hmay hlong hr hlist hactive
  exact Gate.reply_listInList_of_error rfl (by rw [hlisted]) 0 10

end FirewallLists
