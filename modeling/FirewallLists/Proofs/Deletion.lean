import FirewallLists.Proofs.Removal
import FirewallLists.Proofs.Service.Deletes
import FirewallLists.Proofs.Service.Posts

/-
  Deleting several items with one call. The call first checks every item that is there, and then
  switches the items off one after the other; a single call checks and switches off one item. The
  checks are about lists and owners and about the list that an item stands in, which stay as they
  are when items are switched off. So a batch that is allowed leaves the tables that single calls
  leave. It answers with the number of items that were switched on, however often their ids come,
  and tells of the last one of them; only when the versions run out before its end does it fail
  (`batch_deletes_like_singles`).
-/

namespace FirewallLists

open Relation ServiceM

/-! ## Checks before items are deleted -/

/-- What the checks say of an item that is to be deleted: whether its list may be changed by the
caller. An item that is not there passes. -/
def Items.deleteVerdict (caller : Caller) (st : State) (id : Int) : Except ServiceError Unit := do
  let s ← st.tables.mapError .storage
  match s.itemListId? id with
  | some listId => (outcome (Ownership.checkCallerList caller listId) st).1
  | none => return ()

namespace Items

variable {caller : Caller} {st : State} {id listId : Int} {ids before after : List Int}
  {e : ServiceError}

theorem deleteVerdict_of_closed (hclosed : ¬st.isOpen) (caller : Caller) (id : Int) :
    deleteVerdict caller st id = .error (.storage .closed) := by
  rw [deleteVerdict, State.tables, if_neg hclosed]
  rfl

theorem deleteVerdict_of_isOpen (hopen : st.isOpen) (caller : Caller) (id : Int) :
    deleteVerdict caller st id = match st.store.itemListId? id with
      | some listId => (outcome (Ownership.checkCallerList caller listId) st).1
      | none => .ok () := by
  rw [deleteVerdict, State.tables, if_pos hopen]
  rfl

/-- Nothing else counts than lists, owners and the list of the item. -/
theorem deleteVerdict_of_alike {st' : State} (h : st.Alike st')
    (hlist : st'.store.itemListId? id = st.store.itemListId? id) :
    deleteVerdict caller st' id = deleteVerdict caller st id := by
  by_cases hopen : st.isOpen
  · rw [deleteVerdict_of_isOpen hopen, deleteVerdict_of_isOpen (h.isOpen.trans hopen), hlist]
    rcases st.store.itemListId? id with _ | listId
    · rfl
    · exact h.same_checkCallerList caller listId
  · have hclosed : ¬st'.isOpen := h.isOpen ▸ hopen
    rw [deleteVerdict_of_closed hopen, deleteVerdict_of_closed hclosed]

theorem deleteVerdict_counted (caller : Caller) (st : State) (call : Call) (id : Int) :
    deleteVerdict caller (st.counted call) id = deleteVerdict caller st id :=
  deleteVerdict_of_alike (st.alike_counted call) rfl

theorem isOpen_of_deleteVerdict (h : deleteVerdict caller st id = .ok ()) : st.isOpen := by
  by_contra hclosed
  rw [deleteVerdict_of_closed hclosed] at h
  cases h

/-- The administrator may delete every item. -/
theorem deleteVerdict_of_admin (hadmin : caller.kind = .admin) (hopen : st.isOpen) (id : Int) :
    deleteVerdict caller st id = .ok () := by
  rw [deleteVerdict_of_isOpen hopen]
  rcases st.store.itemListId? id with _ | listId
  · rfl
  · exact congrArg Prod.fst (outcome_checkCallerList hadmin listId st)

/-- The first item that may not be deleted ends the checks, and the others are told apart from
what is not there. -/
theorem outcome_deletable_cons (caller : Caller) (st : State) (id : Int) (ids : List Int) :
    outcome (deletable caller (id :: ids)) st = match deleteVerdict caller st id with
      | .error e => (.error e, st)
      | .ok () =>
        if (st.store.itemListId? id).isSome then
          ((outcome (deletable caller ids) st).1.map (id :: ·),
            (outcome (deletable caller ids) st).2)
        else outcome (deletable caller ids) st := by
  rw [deletable]
  by_cases hopen : st.isOpen
  · have hquery := outcome_query_of_isOpen hopen fun s => .ok (s.itemListId? id)
    rw [outcome_bind_of_ok hquery, deleteVerdict_of_isOpen hopen]
    rcases st.store.itemListId? id with _ | listId
    · rfl
    · have hlooks := Ownership.looks_checkCallerList caller listId st
      dsimp only
      rw [outcome_bind]
      rcases hcheck : outcome (Ownership.checkCallerList caller listId) st with ⟨e | _, st₁⟩
      · rw [hcheck] at hlooks
        cases hlooks
        rfl
      · rw [hcheck] at hlooks
        cases hlooks
        dsimp only
        rw [← map_eq_pure_bind, outcome_map]
        rfl
  · rw [outcome_bind_of_error (outcome_query_of_closed hopen _), deleteVerdict_of_closed hopen]

theorem outcome_deletable_of_accepted (h : ∀ id ∈ ids, deleteVerdict caller st id = .ok ()) :
    outcome (deletable caller ids) st =
      (.ok (ids.filter fun id => (st.store.itemListId? id).isSome), st) := by
  induction ids with
  | nil => rfl
  | cons id ids ih =>
    have hrest := ih fun i hi => h i (List.mem_cons_of_mem _ hi)
    rw [outcome_deletable_cons, h id List.mem_cons_self, hrest, List.filter_cons]
    dsimp only
    split <;> rfl

theorem outcome_deletable_of_refused (hbefore : ∀ i ∈ before, deleteVerdict caller st i = .ok ())
    (hrefused : deleteVerdict caller st id = .error e) :
    outcome (deletable caller (before ++ id :: after)) st = (.error e, st) := by
  induction before with
  | nil => rw [List.nil_append, outcome_deletable_cons, hrefused]
  | cons i before ih =>
    have hrest := ih fun j hj => hbefore j (List.mem_cons_of_mem _ hj)
    rw [List.cons_append, outcome_deletable_cons, hbefore i List.mem_cons_self, hrest]
    dsimp only
    split <;> rfl

/-! ## The batch -/

theorem outcome_disable (hopen : st.isOpen) (hv : st.store.Versioned) (id : Int) :
    outcome (transact? (·.disableItem id)) st =
      (if st.store.sequence < maxInteger then
          .ok ((st.store.liveItem? id).map fun row => ⟨row.id, row.listId, st.store.next⟩)
        else .error (.storage .noVersionLeft), { st with store := st.store.deleted id }) := by
  rw [outcome_transact?_of_isOpen hopen, Store.disableItem_eq hv]
  by_cases hroom : st.store.sequence < maxInteger
  · rw [if_pos hroom, if_pos hroom]
    rcases hrow : st.store.liveItem? id with _ | row
    · rw [Store.deleted_of_off hrow]
      rfl
    · rfl
  · rw [if_neg hroom, if_neg hroom, Store.deleted_of_exhausted hroom]

/-- Items that are there are switched off one after the other, if there are enough versions. -/
theorem outcome_disableAll (hopen : ids ≠ [] → st.isOpen) (hs : st.store.Ordered)
    (hv : st.store.Versioned) :
    outcome (disableAll (ids.filter fun id => (st.store.itemListId? id).isSome)) st =
      (if st.store.Suffices ids then .ok (st.store.retirements (st.store.liveItems ids))
        else .error (.storage .noVersionLeft),
        { st with store := ids.foldl Store.deleted st.store }) := by
  induction ids generalizing st with
  | nil => rfl
  | cons id ids ih =>
    have hopen' := hopen (List.cons_ne_nil id ids)
    have hrest := @ih { st with store := st.store.deleted id } (fun _ => hopen')
      (st.store.ordered_deleted hs id) (st.store.versioned_deleted hs hv id)
    simp only [Store.itemListId?_deleted hs] at hrest
    have hsuffices := Store.suffices_cons hs id ids
    rw [List.foldl_cons, List.filter_cons]
    by_cases hthere : (st.store.itemListId? id).isSome
    · rw [if_pos hthere, disableAll]
      have hfirst := outcome_disable hopen' hv id
      by_cases hroom : st.store.sequence < maxInteger
      · have hmore := hsuffices.trans (and_iff_right fun _ => hroom)
        rw [if_pos hroom] at hfirst
        rw [outcome_bind_of_ok hfirst]
        rcases hrow : st.store.liveItem? id with _ | row
        · rw [Store.liveItems_cons_of_off hrow]
          rw [Store.deleted_of_off hrow] at hrest hmore ⊢
          simp only [hmore]
          exact hrest
        · obtain ⟨-, hmem, rfl, -⟩ := Store.liveItem?_eq_some hrow
          rw [Store.liveItems_cons_of_live hrow, st.store.retirements_cons row _ (row.retire _),
            ← Store.liveItems_renew_retire hs hmem st.store.next]
          rw [Store.deleted_of_live hroom hrow] at hrest hmore ⊢
          simp only [Option.map_some, hmore]
          rw [← map_eq_pure_bind, outcome_map, hrest]
          split <;> rfl
      · have hfew : ¬st.store.Suffices (id :: ids) := fun h => hroom ((hsuffices.mp h).1 hthere)
        rw [if_neg hroom] at hfirst
        rw [outcome_bind_of_error hfirst, if_neg hfew, Store.deleted_of_exhausted hroom,
          Store.foldl_deleted_of_exhausted hroom]
    · have hmore := hsuffices.trans (and_iff_right fun h => absurd h hthere)
      have hoff := Store.liveItem?_of_missing (Option.not_isSome_iff_eq_none.mp hthere)
      rw [Store.deleted_of_off hoff] at hrest hmore ⊢
      simp only [if_neg hthere, hmore, hrest, Store.liveItems_cons_of_off hoff]

/-- A batch that is allowed counts the items that it has switched off and tells of the last one. -/
theorem outcome_deleteAll_of_accepted (hs : st.store.Ordered) (hv : st.store.Versioned)
    (hkind : caller.require [.admin, .user] = .ok ())
    (hids : ∀ id ∈ ids, deleteVerdict caller st id = .ok ()) :
    ∃ st', outcome (deleteAll caller ids) st =
        (if st.store.Suffices ids then .ok (st.store.liveItems ids).length
          else .error (.storage .noVersionLeft), st') ∧
      st'.store = ids.foldl Store.deleted st.store ∧
      (st.store.Suffices ids → st'.channel.sent = st.channel.sent ++
        ((st.store.retirements (st.store.liveItems ids)).getLast?.map (·.change)).toList) := by
  rw [deleteAll, outcome_bind_of_ok (outcome_require_of_ok hkind st),
    outcome_bind_of_ok (outcome_deletable_of_accepted hids)]
  have hopen : ids ≠ [] → st.isOpen := by
    intro hne
    obtain ⟨id, hid⟩ := List.exists_mem_of_ne_nil ids hne
    exact isOpen_of_deleteVerdict (hids id hid)
  have hdisable := outcome_disableAll hopen hs hv
  by_cases hsuffices : st.store.Suffices ids
  · rw [if_pos hsuffices] at hdisable ⊢
    have hlength : (st.store.retirements (st.store.liveItems ids)).length =
        (st.store.liveItems ids).length := List.length_mapIdx
    rw [outcome_bind_of_ok hdisable, outcome_count_signalLast, hlength]
    exact ⟨_, rfl, store_signalLast _ _, fun _ => (State.posts_signalLast _ _).sent⟩
  · rw [if_neg hsuffices] at hdisable ⊢
    rw [outcome_bind_of_error hdisable]
    exact ⟨_, rfl, rfl, fun h => absurd h hsuffices⟩

/-! ## Single calls -/

/-- What a single call for an id answers when there is a version for it: that an item has been
deleted, that there is none or that it was off, or that no item is named. -/
inductive SingleReply (id : Int) : Except ServiceError Reply → Prop
  | deleted : SingleReply id (.ok (.count 1))
  | notFound : SingleReply id (.error (.itemNotFound id))
  | unnamed (h : id ≤ 0) : SingleReply id
      (.error (.validation "exactly one of 'ipItemId', 'value' or 'ipFrom' is required"))

theorem outcome_deleteOne (hv : st.store.Versioned)
    (hok : deleteVerdict caller st id = .ok ()) :
    ∃ r st', outcome (deleteOne caller id) st = (r, st') ∧ st.Alike st' ∧
      st'.store = st.store.deleted id ∧
      (((st.store.itemListId? id).isSome → st.store.sequence < maxInteger) →
        r = .ok 1 ∨ r = .error (.itemNotFound id)) := by
  have hopen := isOpen_of_deleteVerdict hok
  have hlistOf := outcome_listOf hopen id
  rw [deleteVerdict_of_isOpen hopen] at hok
  rw [deleteOne]
  rcases hlist : st.store.itemListId? id with _ | listId
  · rw [hlist] at hlistOf
    rw [outcome_bind_of_error hlistOf]
    exact ⟨_, _, rfl, .refl st, (Store.deleted_of_off (Store.liveItem?_of_missing hlist)).symm,
      fun _ => Or.inr rfl⟩
  · rw [hlist] at hlistOf hok
    have hcheck : outcome (Ownership.checkCallerList caller listId) st = (.ok (), st) :=
      Prod.ext hok (Ownership.looks_checkCallerList caller listId st)
    have hwrite := outcome_disable hopen hv id
    have halike : st.Alike { st with store := st.store.deleted id } :=
      ⟨st.store.alike_deleted id, rfl, rfl, rfl⟩
    rw [outcome_bind_of_ok hlistOf, outcome_bind_of_ok hcheck]
    by_cases hroom : st.store.sequence < maxInteger
    · rw [if_pos hroom] at hwrite
      rw [outcome_bind_of_ok hwrite]
      rcases st.store.liveItem? id with _ | row
      · exact ⟨_, _, rfl, halike, rfl, fun _ => Or.inr rfl⟩
      · exact ⟨_, _, rfl, ⟨halike.store, rfl, rfl, rfl⟩, rfl, fun _ => Or.inl rfl⟩
    · rw [if_neg hroom] at hwrite
      rw [outcome_bind_of_error hwrite]
      exact ⟨_, _, rfl, halike, rfl, fun h => absurd (h rfl) hroom⟩

/-- A single call that is allowed leaves the tables as a delete of the item does. -/
theorem outcome_delete_item (hs : st.store.Ordered) (hv : st.store.Versioned)
    (hkind : caller.require [.admin, .user] = .ok ())
    (hok : deleteVerdict caller st id = .ok ()) :
    ∃ r st', outcome (delete caller { itemId := id }) st = (r, st') ∧ st.Alike st' ∧
      st'.store = st.store.deleted id ∧
      (((st.store.itemListId? id).isSome → st.store.sequence < maxInteger) →
        SingleReply id (r.map .count)) := by
  have hblank : Text.allBlank "" = true := by decide
  by_cases hid : 0 < id
  · have htarget : DeleteRequest.target { itemId := id } = .ok (.item id) := by
      simp [DeleteRequest.target, hid, hblank]
    have hdelete : outcome (delete caller { itemId := id }) st =
        outcome (deleteOne caller id) st := by
      rw [delete, htarget, outcome_bind_of_ok (outcome_ofExcept _ st),
        outcome_bind_of_ok (outcome_require_of_ok hkind st)]
    obtain ⟨r, st', hone, halike, hstore, hreply⟩ := outcome_deleteOne hv hok
    refine ⟨r, st', hdelete.trans hone, halike, hstore, fun hroom => ?_⟩
    rcases hreply hroom with rfl | rfl
    · exact .deleted
    · exact .notFound
  · have htarget : DeleteRequest.target { itemId := id } = .error
        (.validation "exactly one of 'ipItemId', 'value' or 'ipFrom' is required") := by
      simp [DeleteRequest.target, hid, hblank]
    have hmissing : st.store.liveItem? id = none := by
      rcases hrow : st.store.liveItem? id with _ | row
      · rfl
      · obtain ⟨-, hmem, rfl, -⟩ := Store.liveItem?_eq_some hrow
        exact absurd (hs.items.positive row hmem) hid
    rw [delete, htarget, outcome_bind_of_error (outcome_ofExcept _ st)]
    exact ⟨_, _, rfl, .refl st, (Store.deleted_of_off hmissing).symm,
      fun _ => .unnamed (Int.not_lt.mp hid)⟩

end Items

section Gate

variable {gate : Gate} {token : Option String} {caller : Caller}
  (hknown : gate.authenticate token = .ok caller)
  (hkind : caller.require [.admin, .user] = .ok ())

/-- Deleting items with one call for each of them, whatever the calls answer. -/
def Gate.deleteEach (gate : Gate) (token : Option String) (ids : List Int) :
    ServiceM (List (Except ServiceError Reply)) :=
  ids.mapM fun id => attempt (gate.serve token (.deleteItem { itemId := id }))

include hknown hkind

theorem Gate.outcome_deleteItem {st : State} (hs : st.store.Ordered) (hv : st.store.Versioned)
    {id : Int} (hok : Items.deleteVerdict caller st id = .ok ()) :
    ∃ r st', outcome (gate.serve token (.deleteItem { itemId := id })) st = (r, st') ∧
      st.Alike st' ∧ st'.store = st.store.deleted id ∧
      (((st.store.itemListId? id).isSome → st.store.sequence < maxInteger) →
        Items.SingleReply id r) := by
  generalize hcall : Call.deleteItem { itemId := id } = call
  have hcounted := st.alike_counted call
  obtain ⟨r, st', hdelete, halike, hstore, hreply⟩ :=
    @Items.outcome_delete_item caller (st.counted call) id hs hv hkind
      ((Items.deleteVerdict_counted caller st call id).trans hok)
  have hrun : outcome (call.run gate.settings caller) (st.counted call) =
      (r.map .count, st') := by
    subst hcall
    rw [Call.run, outcome_map, hdelete]
  rcases r with e | n
  · exact ⟨_, _, Gate.serve_of_error hknown hrun,
      hcounted.trans (halike.trans (st'.alike_counters _)), hstore, hreply⟩
  · exact ⟨_, _, Gate.serve_of_ok hknown hrun, hcounted.trans halike, hstore, hreply⟩

/-- Single calls that are allowed delete one item after the other. -/
theorem Gate.outcome_deleteEach {st : State} (hs : st.store.Ordered) (hv : st.store.Versioned)
    {ids : List Int} (hids : ∀ id ∈ ids, Items.deleteVerdict caller st id = .ok ()) :
    ∃ results st', outcome (gate.deleteEach token ids) st = (.ok results, st') ∧
      st'.store = ids.foldl Store.deleted st.store ∧
      (st.store.Suffices ids → List.Forall₂ Items.SingleReply ids results) := by
  induction ids generalizing st with
  | nil => exact ⟨[], st, rfl, rfl, fun _ => .nil⟩
  | cons id ids ih =>
    obtain ⟨r, st₁, hfirst, halike, hstore, hreply⟩ :=
      Gate.outcome_deleteItem hknown hkind hs hv (hids id List.mem_cons_self)
    -- the checks of the other items say what they said before
    have hrest : ∀ i ∈ ids, Items.deleteVerdict caller st₁ i = .ok () := by
      intro i hi
      have hlist : st₁.store.itemListId? i = st.store.itemListId? i := by
        rw [hstore, Store.itemListId?_deleted hs]
      rw [Items.deleteVerdict_of_alike halike hlist, hids i (List.mem_cons_of_mem _ hi)]
    obtain ⟨results, st', heach, hstore', hreplies⟩ := ih (hstore ▸ Store.ordered_deleted hs id)
      (hstore ▸ Store.versioned_deleted hs hv id) hrest
    rw [hstore] at hstore' hreplies
    refine ⟨r :: results, st', ?_, hstore', fun hsuffices => ?_⟩
    · have hattempt : outcome (attempt (gate.serve token (.deleteItem { itemId := id }))) st =
          (.ok r, st₁) := by
        rw [outcome_attempt, hfirst]
      rw [deleteEach] at heach ⊢
      rw [List.mapM_cons, outcome_bind_of_ok hattempt, outcome_bind_of_ok heach, outcome_pure]
    · obtain ⟨hroom, hmore⟩ := (Store.suffices_cons hs id ids).mp hsuffices
      exact .cons (hreply hroom) (hreplies hmore)

/-- A batch that is allowed deletes one item after the other too, as long as there are enough
versions, and tells of the last one. -/
theorem Gate.outcome_deleteItems {st : State} (hs : st.store.Ordered) (hv : st.store.Versioned)
    {ids : List Int} (hids : ∀ id ∈ ids, Items.deleteVerdict caller st id = .ok ()) :
    ∃ st', outcome (gate.serve token (.deleteItems ids)) st =
        (if st.store.Suffices ids then .ok (.count (st.store.liveItems ids).length)
          else .error (.storage .noVersionLeft), st') ∧
      st'.store = ids.foldl Store.deleted st.store ∧
      (st.store.Suffices ids → st'.channel.sent = st.channel.sent ++
        ((st.store.retirements (st.store.liveItems ids)).getLast?.map (·.change)).toList) := by
  obtain ⟨st', hdelete, hstore, hsent⟩ :=
    @Items.outcome_deleteAll_of_accepted caller (st.counted (.deleteItems ids)) ids hs hv hkind
      fun id hid => (Items.deleteVerdict_counted caller st _ id).trans (hids id hid)
  have hsame : (st.counted (.deleteItems ids)).store = st.store := rfl
  rw [hsame] at hdelete hstore hsent
  by_cases hsuffices : st.store.Suffices ids
  · rw [if_pos hsuffices] at hdelete ⊢
    exact ⟨st', Gate.serve_of_ok hknown (outcome_map_eq_ok.mpr ⟨_, hdelete, rfl⟩), hstore, hsent⟩
  · rw [if_neg hsuffices] at hdelete ⊢
    exact ⟨_, Gate.serve_of_error hknown (outcome_map_eq_error.mpr hdelete), hstore,
      fun hall => absurd hall hsuffices⟩

/-- The first item that may not be changed ends the batch before anything is written. -/
theorem Gate.outcome_deleteItems_of_refused {st : State} {before after : List Int} {id : Int}
    {e : ServiceError} (hbefore : ∀ i ∈ before, Items.deleteVerdict caller st i = .ok ())
    (hrefused : Items.deleteVerdict caller st id = .error e) :
    ∃ st', outcome (gate.serve token (.deleteItems (before ++ id :: after))) st = (.error e, st') ∧
      st.Unwritten st' := by
  generalize hcall : Call.deleteItems (before ++ id :: after) = call
  have hverdict := Items.deleteVerdict_counted caller st call
  have hrequire := outcome_require_of_ok hkind (st.counted call)
  have hdeletable : outcome (Items.deletable caller (before ++ id :: after)) (st.counted call) =
      (.error e, st.counted call) :=
    Items.outcome_deletable_of_refused (fun i hi => (hverdict i).trans (hbefore i hi))
      ((hverdict id).trans hrefused)
  have hrun : outcome (call.run gate.settings caller) (st.counted call) =
      (.error e, st.counted call) := by
    subst hcall
    refine outcome_map_eq_error.mpr ?_
    rw [Items.deleteAll, outcome_bind_of_ok hrequire, outcome_bind_of_error hdeletable]
  exact ⟨_, Gate.serve_of_error hknown hrun,
    IsTrans.trans _ _ _ (st.unwritten_counted call) (State.unwritten_failed _ call e)⟩

/-- A batch that is allowed leaves the tables that single calls for its ids leave, one after the
other. While there are versions for them it answers with the number of items that were switched on,
each of which has taken the next version, and sends one signal, for the last one of them; a single
call then deletes its item or finds none that is on. When the versions do not suffice the batch
fails. If an item is there that the caller may not change, the first one tells how the batch fails,
and nothing is written. -/
theorem batch_deletes_like_singles {st : State} (h : Reachable st) (ids : List Int) :
    ((∀ id ∈ ids, Items.deleteVerdict caller st id = .ok ()) →
      ∃ results single batch,
        outcome (gate.deleteEach token ids) st = (.ok results, single) ∧
        outcome (gate.serve token (.deleteItems ids)) st =
          (if st.store.Suffices ids then .ok (.count (st.store.liveItems ids).length)
            else .error (.storage .noVersionLeft), batch) ∧
        batch.store = single.store ∧
        (st.store.Suffices ids →
          List.Forall₂ Items.SingleReply ids results ∧
          st.store.SwitchesOff (st.store.liveItems ids) batch.store ∧
          batch.channel.sent = st.channel.sent ++ ((st.store.liveItems ids).getLast?.map fun row =>
            Change.mk row.id row.listId batch.store.sequence).toList)) ∧
    ∀ before id after e, ids = before ++ id :: after →
      (∀ i ∈ before, Items.deleteVerdict caller st i = .ok ()) →
      Items.deleteVerdict caller st id = .error e →
      ∃ st', outcome (gate.serve token (.deleteItems ids)) st = (.error e, st') ∧
        st.Unwritten st' := by
  have hs := h.ordered
  constructor
  · intro hids
    obtain ⟨results, single, heach, hsingle, hreplies⟩ :=
      Gate.outcome_deleteEach hknown hkind hs h.versioned hids
    obtain ⟨batch, hserve, hbatch, hsent⟩ :=
      Gate.outcome_deleteItems hknown hkind hs h.versioned hids
    refine ⟨results, single, batch, heach, hserve, hbatch.trans hsingle.symm, fun hsuffices => ?_⟩
    have hrows : ∀ r ∈ st.store.liveItems ids, r ∈ st.store.items.rows :=
      fun r hr => ((Store.mem_liveItems hs).mp hr).1
    have hoff : st.store.SwitchesOff (st.store.liveItems ids) batch.store := by
      rw [hbatch, Store.foldl_deleted hs hsuffices]
      exact Store.switchesOff_afterRetiring hs hrows (st.store.nodup_liveItems ids)
    refine ⟨hreplies hsuffices, hoff, ?_⟩
    rw [hsent hsuffices, hoff.sequence, Store.getLast?_retirements]
  · rintro before id after e rfl hbefore hrefused
    exact Gate.outcome_deleteItems_of_refused hknown hkind hbefore hrefused

end Gate

/-- A run leads to a state in which an item is off and no version is left: the item has taken the
last one. -/
theorem exists_exhausted_off : ∃ st : State, Reachable st ∧ st.isOpen ∧
    st.store.sequence = maxInteger ∧
      ∃ row ∈ st.store.items.rows, row.id = 1 ∧ row.isLive = false := by
  -- the other item is revised until one version is left
  obtain ⟨st, hrevised, hversion⟩ := exists_twoItems_revised 9223372036854775804 (by decide)
  obtain ⟨row, hrow, hid, hlive⟩ :
      ∃ row ∈ twoItems.store.items.rows, row.id = 1 ∧ row.isLive := by
    decide +kernel
  have hreach := reachable_twoItems.run hrevised.run
  have hs := hreach.ordered
  have hopen : st.isOpen := hrevised.alike.isOpen.trans (by decide +kernel)
  have hmem : row ∈ st.store.items.rows := (hrevised.others row (by rw [hid]; decide)).mpr hrow
  have hfound : st.store.liveItem? 1 = some row := hid ▸ Store.liveItem?_of_mem hs hmem hlive
  have hroom : st.store.sequence < maxInteger := by
    rw [hversion]
    decide
  have hauth : adminGate.authenticate (some "key") = .ok ⟨.admin, 1⟩ := by decide +kernel
  obtain ⟨r, st', hserve, halike, hstore, -⟩ := Gate.outcome_deleteItem hauth rfl hs
    hreach.versioned (Items.deleteVerdict_of_admin rfl hopen 1)
  rw [Store.deleted_of_live hroom hfound] at hstore
  have hnext := next_call adminGate (some "key") (.deleteItem { itemId := 1 }) st
  rw [hserve] at hnext
  refine ⟨st', hreach.next hnext, halike.isOpen.trans hopen, ?_, row.retire st.store.next, ?_, hid,
    rfl⟩
  · rw [hstore]
    show st.store.sequence + 1 = maxInteger
    rw [hversion]
    decide
  · rw [hstore]
    exact (Store.touches_retire hs hmem).mem

/-- In some reachable state the administrator may delete an item that is off already, yet the batch
for it fails. -/
theorem deleteItems_refused_after_last_version :
    ∃ st : State, Reachable st ∧ st.store.liveItems [1] = [] ∧
      Items.deleteVerdict ⟨.admin, 1⟩ st 1 = .ok () ∧
      ∃ st', outcome (adminGate.serve (some "key") (.deleteItems [1])) st =
        (.error (.storage .noVersionLeft), st') := by
  obtain ⟨st, hreach, hopen, hlast, row, hrow, hid, hoff⟩ := exists_exhausted_off
  have hs := hreach.ordered
  have hfind : st.store.items.find? 1 = some row := hid ▸ Store.find?_of_mem hs hrow
  have hlive : st.store.liveItem? 1 = none := by
    rw [Store.liveItem?, hfind, Option.filter_some, hoff]
    rfl
  have hverdict : Items.deleteVerdict ⟨.admin, 1⟩ st 1 = .ok () :=
    Items.deleteVerdict_of_admin rfl hopen 1
  have hfew : ¬st.store.Suffices [1] := by
    intro hsuffices
    have hroom := ((Store.suffices_cons hs 1 []).mp hsuffices).1 (by
      rw [Store.itemListId?, hfind]
      rfl)
    omega
  have hauth : adminGate.authenticate (some "key") = .ok ⟨.admin, 1⟩ := by decide +kernel
  obtain ⟨st', hserve, -⟩ := Gate.outcome_deleteItems hauth rfl hs hreach.versioned
    fun id hid => List.mem_singleton.mp hid ▸ hverdict
  rw [if_neg hfew] at hserve
  exact ⟨st, hreach, Store.liveItems_cons_of_off hlive [], hverdict, st', hserve⟩

/-- A tenant deletes items of two lists. One id comes twice, one belongs to no item, one to an item
that is off, and one is no id at all. Two items are switched off, and the last one is told of. No
item is deleted when another tenant's is among them. -/
theorem batch_deletes_like_singles_of_mixed :
    let st := State.after { now := 0 } (adminCalls [.createList publicBlackList,
      .createList (privateList none (some 5)), .createList (privateList none (some 6)),
      .createItem { listId := 1, value := "10.0.0.1" },
      .createItem { listId := 2, value := "10.0.0.2" },
      .createItem { listId := 3, value := "10.0.0.3" },
      .createItem { listId := 2, value := "10.0.0.4" }, .deleteItem { itemId := 4 }])
    let ids : List Int := [2, 9, 2, 4, 0, 1, 4]
    let delete := fun ids => outcome (tenantGate.serve (some "five") (.deleteItems ids)) st
    (∃ results single batch, outcome (tenantGate.deleteEach (some "five") ids) st =
        (.ok results, single) ∧ delete ids = (.ok (.count 2), batch) ∧ batch.store = single.store ∧
      batch.channel.sent = st.channel.sent ++ [⟨1, 1, 7⟩]) ∧
    ∃ st', delete [2, 3, 1] = (.error (.permissionDenied "ip list 3 is not owned by user 5"), st') ∧
      st.Unwritten st' := by
  intro st ids delete
  have hreach : Reachable st := reachable_after 0 _
  have hauth : tenantGate.authenticate (some "five") = .ok ⟨.user, 5⟩ := by decide +kernel
  have hids : ∀ id ∈ ids, Items.deleteVerdict ⟨.user, 5⟩ st id = .ok () := by decide +kernel
  have hbefore : ∀ id ∈ [2], Items.deleteVerdict ⟨.user, 5⟩ st id = .ok () := by decide +kernel
  have hrefused : Items.deleteVerdict ⟨.user, 5⟩ st 3 =
      .error (.permissionDenied "ip list 3 is not owned by user 5") := by decide +kernel
  have hcount : (st.store.liveItems ids).length = 2 := by decide +kernel
  have hlast : ((st.store.liveItems ids).getLast?.map fun row =>
      Change.mk row.id row.listId 7) = some ⟨1, 1, 7⟩ := by decide +kernel
  have hsequence : st.store.sequence = 5 := by decide +kernel
  have hsuffices : st.store.Suffices ids := by
    refine Store.suffices_of_length_le ?_
    rw [hsequence]
    decide
  clear_value st
  obtain ⟨hdone, -⟩ := batch_deletes_like_singles hauth rfl hreach ids
  obtain ⟨results, single, batch, heach, hserve, hstore, htold⟩ := hdone hids
  obtain ⟨-, hoff, hsent⟩ := htold hsuffices
  obtain ⟨-, hfails⟩ := batch_deletes_like_singles hauth rfl hreach [2, 3, 1]
  rw [if_pos hsuffices, hcount] at hserve
  have hversion : batch.store.sequence = 7 := by
    rw [hoff.sequence, hsequence, hcount]
    rfl
  rw [hversion, hlast] at hsent
  exact ⟨⟨results, single, batch, heach, hserve, hstore, hsent⟩,
    hfails [2] 3 [1] _ rfl hbefore hrefused⟩

end FirewallLists
