import FirewallLists.Proofs.Failure
import FirewallLists.Proofs.Service.Off
import FirewallLists.Proofs.Store.Ledger

/-
  The account of a call: which rows it has committed, which of them it has counted, and what it
  has signalled (`State.Posts`). Accounts of steps are put together (`Posts.append`), so that
  there is one lemma for each kind of step. A call that writes items has counted all that it has
  committed and signalled the last change (`State.Announces`); a search that tidies up signals
  each orphan (`State.Tidies`); a call that fails to delete several items leaves what it has
  switched off until then uncounted and unsignalled; and every other call leaves all this as it is
  (`State.Rests`). `Gate.serves` says that nothing else happens, whoever calls and however the
  call ends.
-/

namespace FirewallLists

open ServiceM

namespace State

variable {st st₁ st' : State} {entries more counted late : List Entry} {sent later : List Change}

/-! ## Accounts -/

/-- These rows have been committed, these have been counted, and these signals have been sent. -/
structure Posts (st st' : State) (entries counted : List Entry) (sent : List Change) : Prop where
  commits : st.store.Commits (entries.map (·.change)) st'.store
  ledger : st.store.Ordered → st.store.Ledger entries st'.store
  counted : ∀ cause : Cause, st'.counters.get cause.sample =
    st.counters.get cause.sample + tally cause counted
  sent : st'.channel.sent = st.channel.sent ++ sent

theorem posts_nil (hstore : st'.store = st.store)
    (hcounted : ∀ cause : Cause, st'.counters.get cause.sample =
      st.counters.get cause.sample + tally cause counted)
    (hsent : st'.channel.sent = st.channel.sent ++ sent) : st.Posts st' [] counted sent :=
  ⟨hstore ▸ .nil _, fun _ => hstore ▸ .nil _, hcounted, hsent⟩

theorem Posts.append (h : st.Posts st₁ entries counted sent)
    (h' : st₁.Posts st' more late later) :
    st.Posts st' (entries ++ more) (counted ++ late) (sent ++ later) where
  commits := by
    rw [List.map_append]
    exact h.commits.append h'.commits
  ledger := fun hs => (h.ledger hs).append (h'.ledger ((h.ledger hs).ordered hs))
  counted := by
    intro cause
    rw [h'.counted, h.counted, tally_append, Nat.add_assoc]
  sent := by rw [h'.sent, h.sent, List.append_assoc]

theorem posts_refl (st : State) : st.Posts st [] [] [] :=
  posts_nil rfl (fun _ => rfl) (List.append_nil _).symm

/-- Counting anything but rows written is no part of the account. -/
theorem posts_count {sample : Sample} (n : Nat) (hsample : ∀ cause : Cause, cause.sample ≠ sample) :
    st.Posts { st with counters := st.counters.add sample n } [] [] [] :=
  posts_nil rfl (fun cause => by simp [hsample cause]) (List.append_nil _).symm

theorem posts_signalLast (st : State) (last : Option Change) :
    st.Posts (outcome (signalLast last) st).2 [] [] last.toList := by
  cases last with
  | none => exact posts_refl st
  | some change =>
    refine posts_nil rfl (fun cause => ?_) rfl
    have hsample : cause.sample ≠ .signals := by cases cause <;> nofun
    simp [signalLast, signal, hsample]

theorem posts_counted (st : State) (call : Call) : st.Posts (st.counted call) [] [] [] :=
  posts_count 1 fun cause => by cases cause <;> nofun

theorem posts_failed (st : State) (call : Call) (e : ServiceError) :
    st.Posts (st.failed call e) [] [] [] :=
  posts_count 1 fun cause => by cases cause <;> nofun

/-- What a transaction commits. -/
theorem posts_commit {s : Store} (hcommits : st.store.Commits (entries.map (·.change)) s)
    (hledger : st.store.Ordered → st.store.Ledger entries s) :
    st.Posts { st with store := s } entries [] [] :=
  ⟨hcommits, hledger, fun _ => rfl, (List.append_nil _).symm⟩

theorem Posts.count (h : st.Posts st' entries [] sent) {counters : Counters}
    (hcounted : ∀ cause : Cause, counters.get cause.sample =
      st'.counters.get cause.sample + tally cause entries) :
    st.Posts { st' with counters := counters } entries entries sent :=
  ⟨h.commits, h.ledger, fun cause => by rw [hcounted, h.counted, tally_nil, Nat.add_zero], h.sent⟩

theorem Posts.channel_eq (h : st.Posts st' entries counted []) : st'.channel = st.channel := by
  have hsent := h.sent
  rw [List.append_nil] at hsent
  exact congrArg Channel.mk hsent

/-- All that has been committed is counted, and the last change is signalled. -/
def Announces (st st' : State) : Prop :=
  ∃ entries, st.Posts st' entries entries (entries.map (·.change)).getLast?.toList

/-- Orphans have been switched off, and each of them is counted and signalled. -/
def Tidies (st st' : State) : Prop :=
  ∃ entries : List Entry, (∀ e ∈ entries, e.cause = .orphaned) ∧
    st.Posts st' entries entries (entries.map (·.change))

instance : Std.Refl Announces :=
  ⟨fun st => ⟨[], posts_refl st⟩⟩

instance : Std.Refl Tidies :=
  ⟨fun st => ⟨[], nofun, posts_refl st⟩⟩

instance : IsTrans State Tidies := by
  refine ⟨fun st st₁ st' ⟨entries, horphaned, hposts⟩ ⟨more, hmore, hposts'⟩ => ?_⟩
  refine ⟨entries ++ more, fun e he => (List.mem_append.mp he).elim (horphaned e) (hmore e), ?_⟩
  rw [List.map_append]
  exact hposts.append hposts'

/-- Once the rows are counted and the last change is signalled, all is announced. -/
theorem Posts.signalLast (h : st.Posts st₁ entries entries []) {last : Option Change}
    (hlast : (entries.map (·.change)).getLast? = last) :
    st.Posts (outcome (ServiceM.signalLast last) st₁).2 entries entries
      (entries.map (·.change)).getLast?.toList := by
  subst hlast
  have hposts := h.append (posts_signalLast st₁ (entries.map (·.change)).getLast?)
  rwa [List.append_nil, List.nil_append] at hposts

end State

/-! ## Calls of one transaction -/

namespace Items

variable {st : State}

/-- What is counted of a write is what it has entered. -/
theorem get_written (counters : Counters) (written : Store.Written) (kind : WriteKind)
    (listId : Int) (cause : Cause) :
    ((counters.add (.itemsWritten kind) 1).add (.itemsWritten .replace)
        written.replaced.length).get cause.sample =
      counters.get cause.sample + tally cause (written.entries kind listId) := by
  have hsample : ∀ k, cause.sample = .itemsWritten k ↔ .asked k = cause :=
    fun k => (@Cause.sample_inj cause (.asked k)).trans eq_comm
  simp only [Counters.get_add, hsample, Store.Written.entries, tally_append, Store.tally_entry,
    tally_cons, tally_nil]
  omega

theorem get_entry (counters : Counters) (retired : List Store.Retired) (c cause : Cause) :
    (counters.add c.sample retired.length).get cause.sample =
      counters.get cause.sample + tally cause (retired.map (·.entry c)) := by
  rw [Counters.get_add, Store.tally_entry]
  simp only [Cause.sample_inj, eq_comm]

@[simp]
theorem getLast?_changes (written : Store.Written) (listId : Int) :
    (written.changes listId).getLast? = some ⟨written.itemId, listId, written.version⟩ := by
  simp [Store.Written.changes]

theorem getLast?_entries (written : Store.Written) (kind : WriteKind) (listId : Int) :
    ((written.entries kind listId).map (·.change)).getLast? =
      some ⟨written.itemId, listId, written.version⟩ := by
  rw [Store.map_change_entries, getLast?_changes]

theorem announces_create (caller : Caller) (draft : ItemDraft) :
    Leads State.Announces (create caller draft) st := by
  refine (looks_require _ _).bind_leads fun _ _ => ?_
  refine (looks_prepare _ _).bind_leads fun item _ => ?_
  rw [Leads, outcome_bind, outcome_store]
  rcases hw : st.tables >>= (·.createItem item item.startsRead st.now) with e | ⟨written, s⟩
  · exact Std.Refl.refl st
  · have hrun := (tables_bind_eq_ok.mp hw).2
    have hcommit : st.Posts { st with store := s } (written.entries .create item.listId) [] [] :=
      State.posts_commit (by simpa using Store.createItem_commits hrun)
        fun hs => Store.createItem_ledger hs hrun
    exact ⟨_, (hcommit.count (get_written _ written _ _)).signalLast (getLast?_entries _ _ _)⟩

theorem announces_update (caller : Caller) (itemId : Int) (draft : ItemDraft) :
    Leads State.Announces (update caller itemId draft) st := by
  refine (looks_require _ _).bind_leads fun _ _ => ?_
  refine (looks_listOf _).bind_leads fun listId hlist => ?_
  refine (Ownership.looks_checkCallerList _ _).bind_leads fun _ _ => ?_
  refine (looks_ofExcept _).bind_leads fun item _ => ?_
  refine leads_transact?_bind (leads_throw _ st) fun written s hrun => ?_
  have hlisted := listOf_eq_ok hlist
  obtain ⟨_, _, -, -, -, hid, -⟩ := Store.updateItem_eq_ok hrun
  have hcommit : st.Posts { st with store := s } (written.entries .update listId) [] [] :=
    State.posts_commit (by simpa using Store.updateItem_commits hlisted hrun)
      fun hs => Store.updateItem_ledger hs hlisted hrun
  have hlast := getLast?_entries written .update listId
  rw [hid] at hlast
  exact ⟨_, (hcommit.count (get_written _ written _ _)).signalLast hlast⟩

/-- One item is switched off. -/
theorem posts_disableItem {cause : Cause} (off : cause.switchesOff) {id : Int}
    {retired : Store.Retired} {s : Store}
    (h : st.store.disableItem id = .ok (some retired, s)) :
    st.Posts { st with store := s } [retired.entry cause] [] [] :=
  State.posts_commit (Store.disableItem_commits h) fun _ => Store.disableItem_ledger off h

theorem announces_deleteOne (caller : Caller) (itemId : Int) :
    Leads State.Announces (deleteOne caller itemId) st := by
  refine (looks_listOf _).bind_leads fun listId _ => ?_
  refine (Ownership.looks_checkCallerList _ _).bind_leads fun _ _ => ?_
  refine leads_transact?_bind (leads_throw _ st) fun retired s hrun => ?_
  have hcommit : st.Posts { st with store := s } [retired.entry (.asked .delete)] [] [] :=
    posts_disableItem rfl hrun
  exact ⟨_, (hcommit.count (get_entry _ [retired] _)).signalLast rfl⟩

/-- The end of a call that deletes: all that has been switched off is counted, and the last item
is signalled. -/
theorem announces_retired {st₁ : State} {retired : List Store.Retired} {α : Type} (x : α)
    (h : st.Posts st₁ (retired.map (·.entry (.asked .delete))) [] []) :
    st.Announces (outcome (do
      count (.itemsWritten .delete) retired.length
      signalLast (retired.getLast?.map (·.change))
      return x : ServiceM α) st₁).2 := by
  rw [outcome_bind, count, outcome_modify]
  dsimp only
  rw [outcome_signalLast_bind, outcome_pure]
  refine ⟨_, (h.count (get_entry _ retired _)).signalLast ?_⟩
  rw [Store.map_change_entry, List.getLast?_map]

theorem announces_deleteBounds (caller : Caller) (range : Net.Range) (listId : Int) :
    Leads State.Announces (deleteBounds caller range listId) st := by
  refine (looks_deleteScope _ _).bind_leads fun scope _ => ?_
  refine leads_transact?_bind ?_ fun retired s hrun => ?_
  · exact @announces_retired st st [] Nat 0 (State.posts_refl st)
  · obtain ⟨hfound, hmatching⟩ := Store.disableMatching_of_some hrun
    refine announces_retired retired.length (State.posts_commit ?_ ?_)
    · rw [Store.map_change_entry]
      exact Store.disableMatching_commits hfound hmatching
    · exact fun hs => Store.disableMatching_ledger hs hfound hmatching

theorem announces_delete (caller : Caller) (request : DeleteRequest) :
    Leads State.Announces (delete caller request) st := by
  refine (looks_ofExcept _).bind_leads fun target _ => ?_
  refine (looks_require _ _).bind_leads fun _ _ => ?_
  cases target with
  | item id => exact announces_deleteOne caller id
  | value text =>
    exact (looks_ofExcept _).bind_leads fun range _ => announces_deleteBounds caller range _
  | bounds lower upper =>
    exact (looks_ofExcept _).bind_leads fun range _ => announces_deleteBounds caller range _

/-! ## Batches -/

/-- In the end the last item written is signalled, or else the one before the first of these. -/
theorem posts_storeAll (items : List NewItem) (last : Option Change) :
    ∃ entries, st.Posts (outcome (storeAll items last) st).2 entries entries
      ((entries.map (·.change)).getLast?.or last).toList := by
  induction items generalizing st last with
  | nil =>
    rw [storeAll, outcome_signalLast_bind]
    exact ⟨[], State.posts_signalLast st last⟩
  | cons item items ih =>
    rw [outcome_storeAll_cons, outcome_store]
    rcases hw : st.tables >>= (·.createItem item item.startsRead st.now) with e | ⟨written, s⟩
    · exact ⟨[], State.posts_signalLast st last⟩
    · have hrun := (tables_bind_eq_ok.mp hw).2
      have hcommit : st.Posts { st with store := s } (written.entries .create item.listId) [] [] :=
        State.posts_commit (by simpa using Store.createItem_commits hrun)
          fun hs => Store.createItem_ledger hs hrun
      have hfirst := hcommit.count (get_written _ written _ _)
      dsimp only
      rw [outcome_map]
      obtain ⟨more, hmore⟩ := @ih _ (some ⟨written.itemId, item.listId, written.version⟩)
      refine ⟨written.entries .create item.listId ++ more, ?_⟩
      rw [List.map_append, List.getLast?_append, getLast?_entries, Option.or_assoc, Option.some_or]
      exact hfirst.append hmore

theorem announces_createAll (caller : Caller) (drafts : List ItemDraft) :
    Leads State.Announces (createAll caller drafts) st := by
  refine (looks_require _ _).bind_leads fun _ _ => ?_
  refine (looks_mapM (looks_prepare caller) drafts).bind_leads fun items _ => ?_
  obtain ⟨entries, hposts⟩ := @posts_storeAll st items none
  rw [Option.or_none] at hposts
  exact ⟨entries, hposts⟩

/-- What is switched off is committed at once, while nothing is counted or signalled. -/
theorem posts_disableAll (ids : List Int) {r : Except ServiceError (List Store.Retired)}
    {st' : State} (h : outcome (disableAll ids) st = (r, st')) :
    ∃ entries, st.Posts st' entries [] [] ∧ (∀ e ∈ entries, e.cause = .asked .delete) ∧
      ∀ retired, r = .ok retired → entries = retired.map (·.entry (.asked .delete)) := by
  induction ids generalizing st st' r with
  | nil =>
    cases h
    refine ⟨[], State.posts_refl st, nofun, fun retired hr => ?_⟩
    cases hr
    rfl
  | cons id ids ih =>
    rw [disableAll, outcome_bind, outcome_transact?] at h
    rcases hw : st.tables >>= (·.disableItem id) with e | ⟨_ | first, s⟩
    · rw [hw] at h
      cases h
      exact ⟨[], State.posts_refl st, nofun, nofun⟩
    · rw [hw] at h
      exact ih h
    · rw [hw] at h
      dsimp only at h
      rw [← map_eq_pure_bind, outcome_map] at h
      rcases hrest : outcome (disableAll ids) { st with store := s } with ⟨result, st₁⟩
      obtain ⟨more, hmore, hdeletes, hretired⟩ := ih hrest
      rw [hrest] at h
      cases h
      have hfirst : st.Posts { st with store := s } [first.entry (.asked .delete)] [] [] :=
        posts_disableItem rfl (tables_bind_eq_ok.mp hw).2
      refine ⟨first.entry (.asked .delete) :: more, hfirst.append hmore,
        List.forall_mem_cons.mpr ⟨rfl, hdeletes⟩, fun retired hr => ?_⟩
      cases result with
      | error e => cases hr
      | ok rest => cases hr; rw [hretired rest rfl, List.map_cons]

/-- What a call that deletes several items has switched off is announced when the call succeeds. -/
theorem announces_deleteAll {caller : Caller} {ids : List Int} {n : Nat} {st' : State}
    (h : outcome (deleteAll caller ids) st = (.ok n, st')) : st.Announces st' := by
  obtain ⟨_, -, h⟩ := (looks_require _ _).bind_eq_ok h
  obtain ⟨ids, -, h⟩ := (looks_deletable _ _).bind_eq_ok h
  obtain ⟨retired, st₁, hdisable, h⟩ := outcome_bind_eq_ok.mp h
  obtain ⟨_, hposts, -, hretired⟩ := posts_disableAll ids hdisable
  cases hretired retired rfl
  have hannounces := announces_retired retired.length hposts
  rw [h] at hannounces
  exact hannounces

/-- A call that fails to delete several items has failed before the first of them is written, or
when one of them is switched off. -/
theorem deleteAll_eq_error {caller : Caller} {ids : List Int} {e : ServiceError} {st' : State}
    (h : outcome (deleteAll caller ids) st = (.error e, st')) :
    st' = st ∨ ∃ ids, outcome (disableAll ids) st = (.error e, st') := by
  rcases outcome_bind_eq_error.mp h with hrequire | ⟨_, st₁, hrequire, h⟩
  · exact Or.inl ((looks_require _ _).eq_of_outcome hrequire)
  cases (looks_require _ _).eq_of_outcome hrequire
  rcases outcome_bind_eq_error.mp h with hids | ⟨ids, st₁, hids, h⟩
  · exact Or.inl ((looks_deletable _ _).eq_of_outcome hids)
  cases (looks_deletable _ _).eq_of_outcome hids
  rcases outcome_bind_eq_error.mp h with hdisable | ⟨retired, st₁, hdisable, h⟩
  · exact Or.inr ⟨ids, hdisable⟩
  · -- counting and signalling do not fail
    rw [outcome_bind, count, outcome_modify] at h
    dsimp only at h
    rw [outcome_signalLast_bind] at h
    cases h

/-- When an item cannot be switched off those before it have been, and nobody is told. -/
theorem posts_deleteAll {caller : Caller} {ids : List Int} {e : ServiceError} {st' : State}
    (h : outcome (deleteAll caller ids) st = (.error e, st')) :
    ∃ entries, st.Posts st' entries [] [] ∧ ∀ e ∈ entries, e.cause = .asked .delete := by
  rcases deleteAll_eq_error h with rfl | ⟨ids, hdisable⟩
  · exact ⟨[], State.posts_refl st', nofun⟩
  · obtain ⟨entries, hposts, hdeletes, -⟩ := posts_disableAll ids hdisable
    exact ⟨entries, hposts, hdeletes⟩

end Items

/-! ## Searching -/

namespace Search

variable {st : State}

theorem tidies_disableOrphan (item : Item) : Leads State.Tidies (disableOrphan item) st := by
  refine leads_transact?_bind (leads_pure () st) fun retired s hrun => ?_
  have hcommit : st.Posts { st with store := s } [retired.entry .orphaned] [] [] :=
    Items.posts_disableItem rfl hrun
  refine ⟨[retired.entry .orphaned], by simp [Store.Retired.entry], ?_⟩
  exact (hcommit.count (Items.get_entry _ [retired] _)).signalLast rfl

theorem tidies_sift (items : List Item) : Leads State.Tidies (sift items) st := by
  induction items generalizing st with
  | nil => exact leads_pure [] st
  | cons item items ih =>
    refine (looks_usage item).bind_leads fun usage _ => ?_
    cases usage with
    | orphaned => exact Leads.bind (tidies_disableOrphan item) fun _ _ _ => ih
    | used list policy =>
      refine looks_get.bind_leads fun _ _ => ?_
      exact Leads.bind ih fun _ st' _ => leads_pure _ st'

theorem tidies_items (cfg : Settings) (caller : Caller) (q : SearchQuery) (offset size : Int) :
    Leads State.Tidies (items cfg caller q offset size) st := by
  refine (looks_ofExcept _).bind_leads fun _ _ => ?_
  refine (looks_scope _ _).bind_leads fun _ _ => ?_
  refine looks_now.bind_leads fun _ _ => ?_
  exact (looks_query _).bind_leads fun found _ => tidies_sift found

end Search

/-! ## Calls that write no versions -/

/-- At most it has been noted that items have been read. Nothing has been signalled, and no row has
been counted. -/
structure State.Rests (st st' : State) : Prop where
  quiet : st.store.Quiet st'.store
  counted : ∀ cause : Cause, st'.counters.get cause.sample = st.counters.get cause.sample
  channel : st'.channel = st.channel

namespace State

variable {st st' : State}

instance : Std.Refl Rests :=
  ⟨fun st => ⟨Std.Refl.refl st.store, fun _ => rfl, rfl⟩⟩

instance : IsTrans State Rests :=
  ⟨fun _ _ _ h h' => ⟨IsTrans.trans _ _ _ h.quiet h'.quiet,
    fun cause => (h'.counted cause).trans (h.counted cause), h'.channel.trans h.channel⟩⟩

theorem Unwritten.rests (h : st.Unwritten st') : st.Rests st' where
  quiet := Store.quiet_of_items (by rw [h.store]) (by rw [h.store])
  counted cause := by
    cases cause with
    | asked kind => exact h.itemsWritten kind
    | orphaned => exact h.orphansDisabled
  channel := h.channel

theorem OnlyLists.rests (h : st.OnlyLists st') : st.Rests st' :=
  ⟨Store.quiet_of_items h.items.1 h.items.2, fun _ => by rw [h.counters], h.channel⟩

end State

theorem Items.rests_markRead (caller : Caller) (st : State) :
    Leads State.Rests (markRead caller) st := by
  refine (looks_require _ _).bind_leads fun _ _ => ?_
  refine (Ownership.looks_scopeOf _).bind_leads fun scope _ => ?_
  refine leads_transact fun n s hrun => ?_
  cases Store.acknowledge_eq_ok hrun
  exact ⟨Store.quiet_markRead st.store scope, fun _ => rfl, rfl⟩

/-! ## All calls -/

/-- The call may switch items on or off. -/
def Call.changesItems : Call → Bool
  | createItem _ | createItems _ | updateItem _ _ | deleteItem _ | deleteItems _
  | searchAll _ _ _ => true
  | _ => false

/-- The call is a search that tidies up. -/
def Call.tidies : Call → Bool
  | searchAll _ _ _ => true
  | _ => false

/-- The call is to delete several items, and it has failed. -/
def Call.aborts : Call → Except ServiceError Reply → Bool
  | deleteItems _, .error _ => true
  | _, _ => false

namespace Call

variable {st : State} {call : Call} {r : Except ServiceError Reply}

theorem aborts_iff : call.aborts r ↔ ∃ ids e, call = .deleteItems ids ∧ r = .error e := by
  constructor
  · intro h
    cases call with
    | deleteItems ids =>
      cases r with
      | ok => cases h
      | error e => exact ⟨ids, e, rfl, rfl⟩
    | _ => cases h
  · rintro ⟨ids, e, rfl, rfl⟩
    rfl

theorem changesItems_of_tidies (h : call.tidies) : call.changesItems := by
  cases call with
  | searchAll => rfl
  | _ => cases h

theorem aborts_of_rests (h : call.changesItems = false) : call.aborts r = false := by
  cases call with
  | deleteItems => cases h
  | _ => rfl

theorem aborts_of_tidies (h : call.tidies) : call.aborts r = false := by
  cases call with
  | deleteItems => cases h
  | _ => rfl

theorem rests_run (hcall : call.changesItems = false) (cfg : Settings) (caller : Caller) :
    Leads State.Rests (call.run cfg caller) st := by
  have looks : ∀ {α : Type} {a : ServiceM α} (f : α → Reply),
      Looks a → Leads State.Rests (f <$> a) st :=
    fun f h => (h.leads st).map f
  cases call with
  | pullItems version size =>
    exact ((Pull.unwritten_itemsAfter cfg caller version size).mono fun _ h => h.rests).map _
  | checkStatus listId address => exact looks _ (Contents.looks_check caller listId address)
  | findItem itemId => exact looks _ (Contents.looks_find caller itemId)
  | existsItem itemId => exact looks _ (Contents.looks_exist caller itemId)
  | countInList filter => exact looks _ (Contents.looks_countInList caller filter)
  | listInList filter offset size =>
    exact looks _ (Contents.looks_listInList cfg caller filter offset size)
  | countAll query => exact looks _ (Search.looks_countAll caller query)
  | searchIds query offset size => exact looks _ (Search.looks_ids cfg caller query offset size)
  | markRead => exact (Items.rests_markRead caller st).map _
  | findItemServer itemId => exact looks _ (Contents.looks_findServer caller itemId)
  | createList list =>
    exact ((Lists.onlyLists_create caller list st).mono fun _ h => h.rests).map _
  | findList listId => exact looks _ (Lists.looks_find caller listId)
  | deleteList listId =>
    have hdelete := (Lists.onlyLists_delete caller listId st).mono fun _ h => h.rests
    exact Leads.bind hdelete fun _ st' _ => leads_pure _ st'
  | deleteServerLists serverId =>
    exact ((Lists.onlyLists_deleteOfServer caller serverId st).mono fun _ h => h.rests).map _
  | findListServer listId => exact looks _ (Lists.looks_findServer caller listId)
  | createItem | createItems | updateItem | deleteItem | deleteItems | searchAll => cases hcall

theorem announces_run (hcall : call.changesItems) (hbatch : ∀ ids, call ≠ .deleteItems ids)
    (hsearch : call.tidies = false) (cfg : Settings) (caller : Caller) :
    Leads State.Announces (call.run cfg caller) st := by
  cases call with
  | createItem draft => exact (Items.announces_create caller draft).map _
  | createItems drafts => exact (Items.announces_createAll caller drafts).map _
  | updateItem itemId draft =>
    rw [run, ← map_eq_pure_bind fun _ => Reply.done]
    exact (Items.announces_update caller itemId draft).map _
  | deleteItem request => exact (Items.announces_delete caller request).map _
  | deleteItems ids => exact absurd rfl (hbatch ids)
  | searchAll => cases hsearch
  | _ => cases hcall

end Call

/-- What a call has done when it returns: it rests, it tells of all that it has committed, by one
signal or, if it tidies up, by one for each orphan, or it has failed to delete several items and
tells of nothing. -/
inductive State.Serves (st : State) (call : Call) (r : Except ServiceError Reply) (st' : State) :
    Prop where
  | rests (idle : call.changesItems = false) (rests : st.Rests st')
  | announces (ends : call.aborts r = false) (single : call.tidies = false)
      (announces : st.Announces st')
  | tidies (search : call.tidies) (tidies : st.Tidies st')
  | aborts {entries : List Entry} (aborts : call.aborts r) (posts : st.Posts st' entries [] [])
      (deletes : ∀ e ∈ entries, e.cause = .asked .delete)

namespace State

variable {st st' : State} {entries counted : List Entry} {sent : List Change} {call : Call}

theorem Posts.of_counted (h : (st.counted call).Posts st' entries counted sent) :
    st.Posts st' entries counted sent :=
  (st.posts_counted call).append h

theorem Posts.failed (h : st.Posts st' entries counted sent) (call : Call) (e : ServiceError) :
    st.Posts (st'.failed call e) entries counted sent := by
  have hposts := h.append (st'.posts_failed call e)
  rwa [List.append_nil, List.append_nil, List.append_nil] at hposts

end State

namespace Gate

variable {gate : Gate} {token : Option String} {call : Call} {st st' : State}

theorem announces_serve
    (hrun : ∀ caller, Leads State.Announces (call.run gate.settings caller) (st.counted call)) :
    Leads State.Announces (gate.serve token call) st := by
  refine holds_serve ⟨[], st.posts_counted call⟩ ?_ fun caller _ => ?_
  · rintro st' e ⟨entries, hposts⟩
    exact ⟨entries, hposts.failed call e⟩
  · obtain ⟨entries, hposts⟩ := hrun caller
    exact ⟨entries, hposts.of_counted⟩

theorem tidies_serve (query : SearchQuery) (offset size : Int) :
    Leads State.Tidies (gate.serve token (.searchAll query offset size)) st :=
  leads_serve ⟨[], nofun, st.posts_counted _⟩ (fun st' e => ⟨[], nofun, st'.posts_failed _ e⟩)
    fun caller _ => (Search.tidies_items gate.settings caller query offset size).map _

theorem announces_deleteItems {ids : List Int} {reply : Reply}
    (h : outcome (gate.serve token (.deleteItems ids)) st = (.ok reply, st')) :
    st.Announces st' := by
  obtain ⟨caller, -, hrun⟩ := serve_eq_ok h
  obtain ⟨n, hdelete, -⟩ := outcome_map_eq_ok.mp hrun
  obtain ⟨entries, hposts⟩ := Items.announces_deleteAll hdelete
  exact ⟨entries, hposts.of_counted⟩

theorem posts_deleteItems {ids : List Int} {e : ServiceError}
    (h : outcome (gate.serve token (.deleteItems ids)) st = (.error e, st')) :
    ∃ entries, st.Posts st' entries [] [] ∧ ∀ e ∈ entries, e.cause = .asked .delete := by
  rcases serve_eq_error h with ⟨-, rfl⟩ | ⟨caller, st₁, -, hrun, rfl⟩
  · exact ⟨[], (st.posts_counted _).failed _ e, nofun⟩
  · obtain ⟨entries, hposts, hdeletes⟩ := Items.posts_deleteAll (outcome_map_eq_error.mp hrun)
    exact ⟨entries, hposts.of_counted.failed _ e, hdeletes⟩

/-- Whoever calls, whatever the call asks for, and however it ends. -/
theorem serves (gate : Gate) (token : Option String) {call : Call}
    {r : Except ServiceError Reply} (h : outcome (gate.serve token call) st = (r, st')) :
    st.Serves call r st' := by
  have hstate : st' = (outcome (gate.serve token call) st).2 := by rw [h]
  cases hcall : call.changesItems with
  | false =>
    refine .rests hcall ?_
    rw [hstate]
    exact leads_serve (st.unwritten_counted call).rests
      (fun st' e => (st'.unwritten_failed call e).rests)
      fun caller _ => Call.rests_run hcall gate.settings caller
  | true =>
    by_cases hbatch : ∃ ids, call = .deleteItems ids
    · obtain ⟨ids, rfl⟩ := hbatch
      cases r with
      | ok reply => exact .announces rfl rfl (announces_deleteItems h)
      | error e =>
        obtain ⟨entries, hposts, hdeletes⟩ := posts_deleteItems h
        exact .aborts rfl hposts hdeletes
    · have hother : ∀ ids, call ≠ .deleteItems ids := fun ids hids => hbatch ⟨ids, hids⟩
      cases hsearch : call.tidies with
      | true =>
        refine .tidies hsearch ?_
        rw [hstate]
        cases call with
        | searchAll query offset size => exact tidies_serve query offset size
        | _ => cases hsearch
      | false =>
        refine .announces ?_ hsearch ?_
        · cases call with
          | deleteItems ids => exact absurd rfl (hother ids)
          | _ => rfl
        · rw [hstate]
          exact announces_serve fun caller =>
            Call.announces_run hcall hother hsearch gate.settings caller

end Gate

end FirewallLists
