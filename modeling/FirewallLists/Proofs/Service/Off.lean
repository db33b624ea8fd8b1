import FirewallLists.Proofs.Service.Run

/-
  Lists that are switched off. A row of a list is never switched on again, so such a list stays off
  (`Off.later`), and an item is only ever added to a list that is switched on, so it gets no more
  items (`Closed`, `Edit.closed`). Two calls switch lists off (`Call.SwitchesOff`). They leave all
  items and the sequence as they are, however they end, and the list is off once they succeed
  (`Gate.off_of_serve`).
-/

namespace FirewallLists

open Relation ServiceM

/-! ## Tables -/

namespace Store

variable {s s' : Store} {now listId : Int}

/-- The list is there and switched off. -/
def Off (s : Store) (listId : Int) : Prop :=
  ∃ r ∈ s.lists.rows, r.id = listId ∧ isEnabled r.state = false

instance (s : Store) (listId : Int) : Decidable (s.Off listId) :=
  inferInstanceAs (Decidable (∃ r ∈ s.lists.rows, r.id = listId ∧ isEnabled r.state = false))

theorem Off.later (h : s.Off listId) (hlast : ListsLast s s') : s'.Off listId := by
  obtain ⟨r, hr, hid, hoff⟩ := h
  obtain ⟨q, hq, hbecomes⟩ := hlast r hr
  rw [hbecomes.eq_of_off hoff] at hq
  exact ⟨r, hq, hid, hoff⟩

/-- The row of a list that is switched off is the only one with its id. -/
theorem Off.state_eq (h : s.Off listId) (hs : s.Ordered) {r : ListRow} (hr : r ∈ s.lists.rows)
    (hid : r.id = listId) : isEnabled r.state = false := by
  obtain ⟨q, hq, hqid, hoff⟩ := h
  rw [hs.lists.eq_of_id hr hq (hid.trans hqid.symm)]
  exact hoff

/-- The list is found, and it is found to be off. -/
theorem Off.exists_list (h : s.Off listId) (hs : s.Ordered) (hsound : s.ListsSound) :
    ∃ list, s.findList listId = .ok (some list) ∧ list.enabled = false := by
  obtain ⟨r, hr, hid, hoff⟩ := h
  obtain ⟨list, hlist⟩ := (hsound r hr).exists_list
  have hfind := hs.lists.find?_eq_some.mpr ⟨hr, hid⟩
  refine ⟨list, findList_eq_some.mpr ⟨r, hfind, hlist⟩, ?_⟩
  rw [(ListRow.toList_eq_ok hlist).2.2.2.2, hoff]

theorem Off.findEnabledList (h : s.Off listId) (hs : s.Ordered) (hsound : s.ListsSound) :
    s.findEnabledList listId = .ok none := by
  obtain ⟨list, hlist, hoff⟩ := h.exists_list hs hsound
  rw [Store.findEnabledList, hlist]
  simp [bind, Except.bind, pure, Except.pure, Option.filter, hoff]

/-- Lists have only been switched off, and those that were off have got no items. -/
structure Closed (s s' : Store) : Prop where
  lists : ListsLast s s'
  known : ∀ id, s.Off id → ∀ r ∈ s'.items.rows, r.listId = id →
    ∃ q ∈ s.items.rows, q.id = r.id ∧ q.listId = r.listId

instance : Std.Refl Closed where
  refl s := ⟨Std.Refl.refl s, fun _ _ r hr _ => ⟨r, hr, rfl, rfl⟩⟩

instance : IsTrans Store Closed where
  trans s s₁ s₂ h h' := by
    refine ⟨IsTrans.trans _ _ _ h.lists h'.lists, fun id hoff r hr hlist => ?_⟩
    obtain ⟨q, hq, hqid, hqlist⟩ := h'.known id (hoff.later h.lists) r hr hlist
    obtain ⟨p, hp, hpid, hplist⟩ := h.known id hoff q hq (hqlist.trans hlist)
    exact ⟨p, hp, hpid.trans hqid, hplist.trans hqlist⟩

/-- The rows are those that were there, as far as their ids and lists go. -/
theorem closed_of_known (hlists : ListsLast s s')
    (h : ∀ r ∈ s'.items.rows, ∃ q ∈ s.items.rows, q.id = r.id ∧ q.listId = r.listId) :
    Closed s s' :=
  ⟨hlists, fun _ _ r hr _ => h r hr⟩

theorem Quiet.closed (h : Quiet s s') (hlists : ListsLast s s') : Closed s s' := by
  refine closed_of_known hlists fun r' hr' => ?_
  obtain ⟨r, hr, hagrees⟩ := h.known r' hr'
  exact ⟨r, hr, hagrees.id.symm, hagrees.listId.symm⟩

theorem Touches.closed {row q : ItemRow} (h : Touches row s s') (hlists : ListsLast s s')
    (hq : q ∈ s.items.rows) (hid : q.id = row.id) : Closed s s' := by
  refine closed_of_known hlists fun r hr => ?_
  rcases (h.mem_iff r).mp hr with rfl | ⟨hr, -⟩
  · exact ⟨q, hq, hid, h.stays q hq hid⟩
  · exact ⟨r, hr, rfl, rfl⟩

theorem Edit.closed (hs : s.Ordered) (h : Edit now s s') : Closed s s' := by
  have hlists := h.listsLast hs
  cases h with
  | retire mem => exact (touches_retire hs mem).closed hlists mem rfl
  | revise mem => exact (touches_revise hs mem _).closed hlists mem rfl
  | @add draft item list normal listed =>
    refine ⟨hlists, fun id hoff r hr hlist => ?_⟩
    rcases ((touches_add hs _ _ _).mem_iff r).mp hr with rfl | ⟨hr, -⟩
    · -- the list of the new item is switched on
      obtain ⟨q, hq, hqid, hon, -⟩ := exists_row_of_findEnabledList listed
      rw [hoff.state_eq hs hq (hqid.trans hlist)] at hon
      cases hon
    · exact ⟨r, hr, rfl, rfl⟩
  | markRead scope => exact (quiet_markRead s scope).closed hlists
  | lists write => exact write.quiet.closed hlists

end Store

/-! ## Runs -/

section

variable {st st' : State}

theorem Reachable.closed (h : Reachable st) (hrun : ReflTransGen Next st st') :
    st.store.Closed st'.store :=
  h.related Store.Edit.closed
    (fun _ _ => ⟨Store.listsLast_of_lists rfl, fun _ _ r hr _ => ⟨r, hr, rfl, rfl⟩⟩) hrun

theorem Reachable.listsSound (h : Reachable st) : st.store.ListsSound := by
  refine h.holds ⟨fun _ hr => absurd hr List.not_mem_nil, Store.Edit.listsSound, ?_⟩
  exact fun _ hsound => hsound

end

/-! ## Calls that switch lists off -/

/-- The call asks for the list to be switched off. -/
def Call.SwitchesOff (s : Store) (listId : Int) : Call → Prop
  | .deleteList id => id = listId
  | .deleteServerLists serverId => ∃ r ∈ s.lists.rows, r.id = listId ∧ r.serverId = some serverId
  | _ => False

/-- Neither an item nor the last version has changed. -/
def State.SameItems (st st' : State) : Prop :=
  st'.store.items = st.store.items ∧ st'.store.sequence = st.store.sequence

instance : Std.Refl State.SameItems :=
  ⟨fun _ => ⟨rfl, rfl⟩⟩

instance : IsTrans State State.SameItems :=
  ⟨fun _ _ _ h h' => ⟨h'.1.trans h.1, h'.2.trans h.2⟩⟩

/-- No item has changed, nothing has been signalled, and nothing has been counted. -/
structure State.OnlyLists (st st' : State) : Prop where
  items : st.SameItems st'
  channel : st'.channel = st.channel
  counters : st'.counters = st.counters

instance : Std.Refl State.OnlyLists :=
  ⟨fun st => ⟨Std.Refl.refl st, rfl, rfl⟩⟩

instance : IsTrans State State.OnlyLists :=
  ⟨fun _ _ _ h h' => ⟨IsTrans.trans _ _ _ h.items h'.items, h'.channel.trans h.channel,
    h'.counters.trans h.counters⟩⟩

theorem Store.ListWrite.onlyLists {st : State} {s : Store}
    (h : Store.ListWrite st.now st.store s) : st.OnlyLists { st with store := s } :=
  ⟨h.items, rfl, rfl⟩

theorem State.onlyLists_cache (st : State) (cache : List (Int × Option IpList)) :
    st.OnlyLists { st with cache := cache } :=
  ⟨⟨rfl, rfl⟩, rfl, rfl⟩

namespace Lists

variable {caller : Caller} {st st' : State}

theorem onlyLists_create (caller : Caller) (list : NewList) (st : State) :
    Leads State.OnlyLists (create caller list) st := by
  refine (looks_require _ _).bind_leads fun _ _ => ?_
  dsimp only
  split
  · exact (looks_throw _).bind_leads fun _ h => by cases h
  · next howned =>
    refine looks_now.bind_leads fun time htime => ?_
    rw [outcome_now, Prod.mk.injEq, Except.ok.injEq] at htime
    obtain ⟨rfl, -⟩ := htime
    refine Leads.bind (leads_transact fun id s hrun => ?_) fun id st' _ => ?_
    · have hpublic : list.isPublic || list.hasOwner := by
        cases hpublic : list.isPublic <;> simp_all
      exact (Store.ListWrite.create hpublic hrun).onlyLists
    · exact Leads.bind (leads_modify (st'.onlyLists_cache _)) fun _ st' _ => leads_pure id st'

theorem onlyLists_delete (caller : Caller) (id : Int) (st : State) :
    Leads State.OnlyLists (delete caller id) st := by
  refine (looks_require _ _).bind_leads fun _ _ => ?_
  refine Leads.bind (leads_transact? fun x s hrun => ?_) fun done st' _ => ?_
  · have hdisable := disableList_of_switchOff (Except.ok.inj hrun)
    exact (Store.ListWrite.disable hdisable).onlyLists
  · refine Leads.bind (leads_modify (st'.onlyLists_cache _)) fun _ st' _ => ?_
    cases done
    · exact leads_throw _ st'
    · exact leads_pure () st'

theorem onlyLists_deleteOfServer (caller : Caller) (serverId : Int) (st : State) :
    Leads State.OnlyLists (deleteOfServer caller serverId) st := by
  refine (looks_require _ _).bind_leads fun _ _ => ?_
  dsimp only
  split
  · exact (looks_throw _).bind_leads fun _ h => by cases h
  · refine Leads.bind (leads_transact fun ids s hrun => ?_) fun ids st' _ => ?_
    · cases hrun
      exact (Store.ListWrite.disableOfServer serverId).onlyLists
    · obtain ⟨cache, hforget, -⟩ := outcome_forgetAll ids st'
      unfold Leads
      rw [outcome_bind_of_ok hforget]
      exact st'.onlyLists_cache cache

/-- A list that has been deleted is off. -/
theorem off_of_delete {id : Int} (h : outcome (delete caller id) st = (.ok (), st')) :
    st'.store.Off id := by
  obtain ⟨_, -, h⟩ := (looks_require _ _).bind_eq_ok h
  obtain ⟨done, st₂, htransact, h⟩ := outcome_bind_eq_ok.mp h
  cases done with
  | none => cases h
  | some _ =>
    obtain ⟨s, -, hrun, rfl⟩ := outcome_transact?_eq_some.mp htransact
    have hdisable := disableList_of_switchOff (Except.ok.inj hrun)
    obtain ⟨row, hrow, rfl, -, rfl⟩ := Store.disableList_eq_some hdisable
    cases h
    exact ⟨_, Table.self_mem_replace hrow rfl, rfl, rfl⟩

/-- The lists of a server whose lists have been deleted are off. -/
theorem off_of_deleteOfServer {serverId : Int} {ids : List Int}
    (h : outcome (deleteOfServer caller serverId) st = (.ok ids, st')) {r : ListRow}
    (hr : r ∈ st.store.lists.rows) (hserver : r.serverId = some serverId) :
    st'.store.Off r.id := by
  obtain ⟨_, -, h⟩ := (looks_require _ _).bind_eq_ok h
  dsimp only at h
  split at h
  · cases h
  · obtain ⟨ids', st₂, htransact, h⟩ := outcome_bind_eq_ok.mp h
    obtain ⟨s, -, hrun, rfl⟩ := outcome_transact_eq_ok.mp htransact
    obtain ⟨cache, hforget, -⟩ := outcome_forgetAll ids' { st with store := s }
    rw [outcome_bind_of_ok hforget] at h
    cases h
    cases hrun
    refine ⟨_, Table.mem_update.mpr ⟨r, hr, rfl⟩, ?_, ?_⟩
    · split <;> rfl
    · by_cases hon : isEnabled r.state = true
      · rw [if_pos (by simp [hserver, hon])]
        rfl
      · rw [if_neg (by simp [hon])]
        exact Bool.not_eq_true _ ▸ hon

end Lists

/-- The calls on lists that switch lists off change no item, however they end. -/
theorem Gate.sameItems_serve {gate : Gate} {token : Option String} {call : Call} {st : State}
    {listId : Int} (h : call.SwitchesOff st.store listId) :
    st.SameItems (outcome (gate.serve token call) st).2 := by
  have hcounted : st.SameItems (st.counted call) := ⟨rfl, rfl⟩
  have hfailed : ∀ st' e, State.SameItems st' (st'.failed call e) := fun _ _ => ⟨rfl, rfl⟩
  refine leads_serve hcounted hfailed fun caller _ => ?_
  cases call with
  | deleteList id =>
    have hdelete := (Lists.onlyLists_delete caller id (st.counted (.deleteList id))).mono
      fun _ h => h.items
    exact Leads.bind hdelete fun _ st' _ => leads_pure _ st'
  | deleteServerLists serverId =>
    exact ((Lists.onlyLists_deleteOfServer caller serverId _).mono fun _ h => h.items).map _
  | _ => exact absurd h not_false

/-- A list that a call was asked to switch off is off once the call has succeeded. -/
theorem Gate.off_of_serve {gate : Gate} {token : Option String} {call : Call} {st st' : State}
    {listId : Int} {reply : Reply} (h : call.SwitchesOff st.store listId)
    (hserve : outcome (gate.serve token call) st = (.ok reply, st')) : st'.store.Off listId := by
  obtain ⟨caller, -, hrun⟩ := Gate.serve_eq_ok hserve
  cases call with
  | deleteList id =>
    cases h
    obtain ⟨_, st₁, hdelete, hrun⟩ := outcome_bind_eq_ok.mp hrun
    cases hrun
    exact Lists.off_of_delete hdelete
  | deleteServerLists serverId =>
    obtain ⟨r, hr, rfl, hserver⟩ := h
    obtain ⟨ids, hdelete, -⟩ := outcome_map_eq_ok.mp hrun
    exact Lists.off_of_deleteOfServer hdelete hr hserver
  | _ => exact absurd h not_false

theorem Gate.off_of_isOk {gate : Gate} {token : Option String} {call : Call} {st : State}
    {listId : Int} (h : call.SwitchesOff st.store listId)
    (hok : (outcome (gate.serve token call) st).1.isOk) :
    (outcome (gate.serve token call) st).2.store.Off listId := by
  rcases hserve : outcome (gate.serve token call) st with ⟨e | reply, st'⟩
  · rw [hserve] at hok
    cases hok
  · exact off_of_serve h hserve

end FirewallLists
