import FirewallLists.Proofs.Service.Reply
import FirewallLists.Proofs.Service.Run

/-
  Calls that fail. An error that a caller can mend is found before anything is written, and after a
  write only the tables can fail; a call that consists of one transaction has nothing left to fail
  once it is committed. So a failed call of either kind leaves the tables as they were and neither
  signals nor counts a write (`failed_calls_write_nothing`).
-/

namespace FirewallLists

open ServiceM

/-! ## Nothing written -/

/-- The tables are as they were, no signal has been sent, and no write has been counted. -/
structure State.Unwritten (st st' : State) : Prop where
  store : st'.store = st.store
  channel : st'.channel = st.channel
  itemsWritten : ∀ kind,
    st'.counters.get (.itemsWritten kind) = st.counters.get (.itemsWritten kind)
  orphansDisabled : st'.counters.get .orphansDisabled = st.counters.get .orphansDisabled

instance : Std.Refl State.Unwritten :=
  ⟨fun _ => ⟨rfl, rfl, fun _ => rfl, rfl⟩⟩

instance : IsTrans State State.Unwritten :=
  ⟨fun _ _ _ h h' => ⟨h'.store.trans h.store, h'.channel.trans h.channel,
    fun kind => (h'.itemsWritten kind).trans (h.itemsWritten kind),
    h'.orphansDisabled.trans h.orphansDisabled⟩⟩

/-- Counting anything but writes, and remembering lists, writes nothing. -/
theorem State.unwritten_count {st : State} {sample : Sample} (n : Nat)
    (hkind : ∀ kind, sample ≠ .itemsWritten kind) (horphans : sample ≠ .orphansDisabled) :
    st.Unwritten { st with counters := st.counters.add sample n } where
  store := rfl
  channel := rfl
  itemsWritten kind := by simp [Ne.symm (hkind kind)]
  orphansDisabled := by simp [Ne.symm horphans]

theorem State.unwritten_cache (st : State) (cache : List (Int × Option IpList)) :
    st.Unwritten { st with cache := cache } :=
  ⟨rfl, rfl, fun _ => rfl, rfl⟩

/-! ## Errors of steps -/

namespace ServiceM

variable {α β : Type}

/-- When the step ends in one of these errors it has written nothing. -/
def Spares (P : ServiceError → Prop) (a : ServiceM α) (st : State) : Prop :=
  ∀ e st', outcome a st = (.error e, st') → P e → st.Unwritten st'

/-- The step does not end in one of these errors. -/
def Avoids (P : ServiceError → Prop) (a : ServiceM α) (st : State) : Prop :=
  ∀ e st', outcome a st = (.error e, st') → ¬P e

variable {P : ServiceError → Prop} {a : ServiceM α} {f : α → ServiceM β} {st : State}

theorem Avoids.spares (h : Avoids P a st) : Spares P a st :=
  fun e st' houtcome hP => absurd hP (h e st' houtcome)

theorem Leads.spares (h : Leads State.Unwritten a st) : Spares P a st := by
  intro e st' houtcome _
  unfold Leads at h
  rw [houtcome] at h
  exact h

/-- What writes nothing may come before. -/
theorem Leads.bind_spares (ha : Leads State.Unwritten a st)
    (hf : ∀ x st', outcome a st = (.ok x, st') → Spares P (f x) st') :
    Spares P (a >>= f) st := by
  intro e st' houtcome hP
  unfold Leads at ha
  rw [outcome_bind] at houtcome
  rcases hfirst : outcome a st with ⟨e₁ | x, st₁⟩
  · rw [hfirst] at houtcome ha
    cases houtcome
    exact ha
  · rw [hfirst] at houtcome ha
    exact IsTrans.trans _ _ _ ha (hf x st₁ hfirst e st' houtcome hP)

theorem Looks.bind_spares (ha : Looks a) (hf : ∀ x, Spares P (f x) st) :
    Spares P (a >>= f) st :=
  (ha.leads st).bind_spares fun x st' houtcome => by
    rw [ha.eq_of_outcome houtcome]
    exact hf x

/-- What cannot end in such an error may come after. -/
theorem Spares.bind (ha : Spares P a st)
    (hf : ∀ x st', outcome a st = (.ok x, st') → Avoids P (f x) st') : Spares P (a >>= f) st := by
  intro e st' houtcome hP
  rw [outcome_bind] at houtcome
  rcases hfirst : outcome a st with ⟨e₁ | x, st₁⟩
  · rw [hfirst] at houtcome
    cases houtcome
    exact ha _ _ hfirst hP
  · rw [hfirst] at houtcome
    exact absurd hP (hf x st₁ hfirst e st' houtcome)

theorem Spares.map (ha : Spares P a st) (g : α → β) : Spares P (g <$> a) st := by
  rw [map_eq_pure_bind]
  exact ha.bind fun _ _ _ _ _ hpure => by cases hpure

theorem spares_transact (write : Store → Except StorageError (α × Store)) :
    Spares P (transact write) st := by
  intro e st' houtcome _
  rw [outcome_transact] at houtcome
  split at houtcome
  · cases houtcome
  · cases houtcome
    exact Std.Refl.refl st

theorem spares_transact? (write : Store → Except StorageError (Option α × Store)) :
    Spares P (transact? write) st := by
  intro e st' houtcome _
  rw [outcome_transact?] at houtcome
  split at houtcome
  · cases houtcome
  · cases houtcome
  · cases houtcome
    exact Std.Refl.refl st

/-- A transaction that is given up is as if it had not been. -/
theorem spares_transact?_bind {write : Store → Except StorageError (Option α × Store)}
    {f : Option α → ServiceM β} (hnone : Spares P (f none) st)
    (hsome : ∀ x st', Avoids P (f (some x)) st') : Spares P (transact? write >>= f) st := by
  intro e st' houtcome hP
  rw [outcome_bind, outcome_transact?] at houtcome
  rcases hw : st.tables >>= write with e₁ | ⟨_ | x, s⟩
  · rw [hw] at houtcome
    cases houtcome
    exact Std.Refl.refl st
  · rw [hw] at houtcome
    exact hnone e st' houtcome hP
  · rw [hw] at houtcome
    exact absurd hP (hsome x _ e st' houtcome)

theorem avoids_pure (x : α) : Avoids P (pure x : ServiceM α) st :=
  fun _ _ houtcome => by cases houtcome

theorem avoids_throw {e : ServiceError} (h : ¬P e) : Avoids P (throw e : ServiceM α) st := by
  intro e' st' houtcome
  cases houtcome
  exact h

theorem avoids_modify (g : State → State) : Avoids P (modify g) st :=
  fun _ _ houtcome => by cases houtcome

theorem Avoids.bind (ha : Avoids P a st)
    (hf : ∀ x st', outcome a st = (.ok x, st') → Avoids P (f x) st') : Avoids P (a >>= f) st := by
  intro e st' houtcome
  rw [outcome_bind] at houtcome
  rcases hfirst : outcome a st with ⟨e₁ | x, st₁⟩
  · rw [hfirst] at houtcome
    cases houtcome
    exact ha _ _ hfirst
  · rw [hfirst] at houtcome
    exact hf x st₁ hfirst e st' houtcome

theorem avoids_attempt (a : ServiceM α) : Avoids P (attempt a) st :=
  fun _ _ houtcome => by cases houtcome

theorem avoids_signalLast (last : Option Change) : Avoids P (signalLast last) st := by
  cases last with
  | none => exact avoids_pure ()
  | some change => exact avoids_modify _

/-! Where the tables fail the caller has nothing to mend. -/

section Storage

variable (hP : ∀ e, ¬P (.storage e))

include hP

theorem avoids_query (read : Store → Except StorageError α) : Avoids P (query read) st := by
  intro e st' houtcome
  rw [outcome_query, Prod.mk.injEq] at houtcome
  rcases hread : st.tables >>= read with e₁ | x
  · rw [hread] at houtcome
    cases houtcome.1
    exact hP e₁
  · rw [hread] at houtcome
    cases houtcome.1

theorem avoids_transact (write : Store → Except StorageError (α × Store)) :
    Avoids P (transact write) st := by
  intro e st' houtcome
  rw [outcome_transact] at houtcome
  split at houtcome
  · cases houtcome
  · cases houtcome
    exact hP _

theorem avoids_transact? (write : Store → Except StorageError (Option α × Store)) :
    Avoids P (transact? write) st := by
  intro e st' houtcome
  rw [outcome_transact?] at houtcome
  split at houtcome
  · cases houtcome
  · cases houtcome
  · cases houtcome
    exact hP _

end Storage

end ServiceM

/-! ## Calls on items -/

variable {P : ServiceError → Prop} {st : State}

namespace Items

theorem spares_store (item : NewItem) : Spares P (store item) st := by
  refine looks_now.bind_spares fun time => (spares_transact _).bind fun written st' _ => ?_
  refine (avoids_modify _).bind fun _ _ _ => (avoids_modify _).bind fun _ _ _ => ?_
  exact avoids_pure written

theorem spares_create (caller : Caller) (draft : ItemDraft) :
    Spares P (create caller draft) st := by
  refine (looks_require _ _).bind_spares fun _ => (looks_prepare _ _).bind_spares fun item => ?_
  refine (spares_store item).bind fun written _ _ => ?_
  exact (avoids_modify _).bind fun _ _ _ => avoids_pure _

theorem spares_update (caller : Caller) (itemId : Int) (draft : ItemDraft) :
    Spares P (update caller itemId draft) st := by
  refine (looks_require _ _).bind_spares fun _ => (looks_listOf _).bind_spares fun listId => ?_
  refine (Ownership.looks_checkCallerList _ _).bind_spares fun _ => ?_
  refine (looks_ofExcept _).bind_spares fun item => ?_
  refine spares_transact?_bind ((looks_throw _).leads st).spares fun written st' => ?_
  refine (avoids_modify _).bind fun _ _ _ => (avoids_modify _).bind fun _ _ _ => ?_
  exact avoids_modify _

theorem spares_deleteOne (caller : Caller) (itemId : Int) :
    Spares P (deleteOne caller itemId) st := by
  refine (looks_listOf _).bind_spares fun listId => ?_
  refine (Ownership.looks_checkCallerList _ _).bind_spares fun _ => ?_
  refine spares_transact?_bind ((looks_throw _).leads st).spares fun retired st' => ?_
  refine (avoids_modify _).bind fun _ _ _ => (avoids_modify _).bind fun _ _ _ => ?_
  exact avoids_pure 1

theorem spares_deleteBounds (caller : Caller) (range : Net.Range) (listId : Int) :
    Spares P (deleteBounds caller range listId) st := by
  refine (looks_deleteScope _ _).bind_spares fun scope => ?_
  refine (spares_transact? _).bind fun retired _ _ => ?_
  refine (avoids_modify _).bind fun _ _ _ => (avoids_signalLast _).bind fun _ _ _ => ?_
  exact avoids_pure _

theorem spares_delete (caller : Caller) (request : DeleteRequest) :
    Spares P (delete caller request) st := by
  refine (looks_ofExcept _).bind_spares fun target => (looks_require _ _).bind_spares fun _ => ?_
  cases target with
  | item id => exact spares_deleteOne caller id
  | value text => exact (looks_ofExcept _).bind_spares fun range => spares_deleteBounds _ range _
  | bounds lower upper =>
    exact (looks_ofExcept _).bind_spares fun range => spares_deleteBounds _ range _

theorem spares_markRead (caller : Caller) : Spares P (markRead caller) st :=
  (looks_require _ _).bind_spares fun _ =>
    (Ownership.looks_scopeOf _).bind_spares fun _ => spares_transact _

/-! Of a batch the caller's part is checked first, and what is written then can fail at the tables
only. -/

section Storage

variable (hP : ∀ e, ¬P (.storage e))

include hP

theorem avoids_store (item : NewItem) : Avoids P (store item) st := by
  refine Avoids.bind (fun _ _ houtcome => by cases houtcome) fun time _ _ => ?_
  refine (avoids_transact hP _).bind fun written _ _ => ?_
  refine (avoids_modify _).bind fun _ _ _ => (avoids_modify _).bind fun _ _ _ => ?_
  exact avoids_pure written

theorem avoids_storeAll (items : List NewItem) (last : Option Change) :
    Avoids P (storeAll items last) st := by
  induction items generalizing st last with
  | nil => exact (avoids_signalLast last).bind fun _ _ _ => avoids_pure []
  | cons item items ih =>
    refine (avoids_attempt _).bind fun result st' hresult => ?_
    rw [outcome_attempt, Prod.mk.injEq, Except.ok.injEq] at hresult
    cases result with
    | ok written => exact (ih _).bind fun ids _ _ => avoids_pure _
    | error e =>
      refine (avoids_signalLast last).bind fun _ _ _ => avoids_throw ?_
      exact avoids_store hP item e st' (Prod.ext hresult.1 hresult.2)

theorem spares_createAll (caller : Caller) (drafts : List ItemDraft) :
    Spares P (createAll caller drafts) st := by
  refine (looks_require _ _).bind_spares fun _ => ?_
  refine (looks_mapM (looks_prepare caller) drafts).bind_spares fun items => ?_
  exact (avoids_storeAll hP items none).spares

theorem avoids_disableAll (ids : List Int) : Avoids P (disableAll ids) st := by
  induction ids generalizing st with
  | nil => exact avoids_pure []
  | cons id ids ih =>
    refine (avoids_transact? hP _).bind fun retired st' _ => ?_
    cases retired with
    | none => exact ih
    | some retired => exact ih.bind fun more _ _ => avoids_pure _

theorem spares_deleteAll (caller : Caller) (ids : List Int) :
    Spares P (deleteAll caller ids) st := by
  refine (looks_require _ _).bind_spares fun _ => (looks_deletable _ _).bind_spares fun ids => ?_
  refine ((avoids_disableAll hP ids).bind fun retired _ _ => ?_).spares
  refine (avoids_modify _).bind fun _ _ _ => (avoids_signalLast _).bind fun _ _ _ => ?_
  exact avoids_pure _

end Storage

end Items

/-! ## Searching -/

namespace Search

section Storage

variable (hP : ∀ e, ¬P (.storage e))

include hP

theorem avoids_usage (item : Item) : Avoids P (usage item) st := by
  refine (avoids_query hP _).bind fun list st' _ => ?_
  cases list with
  | none => exact avoids_pure _
  | some list =>
    dsimp only
    split
    · exact avoids_pure _
    · split
      · exact avoids_pure _
      · refine Avoids.bind (fun _ _ houtcome => by cases houtcome) fun st₁ _ _ => ?_
        split <;> exact avoids_pure _

theorem avoids_disableOrphan (item : Item) : Avoids P (disableOrphan item) st := by
  refine (avoids_transact? hP _).bind fun retired st' _ => ?_
  cases retired with
  | none => exact avoids_pure ()
  | some retired => exact (avoids_modify _).bind fun _ _ _ => avoids_modify _

theorem avoids_sift (items : List Item) : Avoids P (sift items) st := by
  induction items generalizing st with
  | nil => exact avoids_pure []
  | cons item items ih =>
    refine (avoids_usage hP item).bind fun usage st' _ => ?_
    cases usage with
    | orphaned => exact (avoids_disableOrphan hP item).bind fun _ _ _ => ih
    | used list policy =>
      refine Avoids.bind (fun _ _ houtcome => by cases houtcome) fun _ _ _ => ?_
      exact ih.bind fun more _ _ => avoids_pure _

theorem spares_items (cfg : Settings) (caller : Caller) (q : SearchQuery) (offset size : Int) :
    Spares P (items cfg caller q offset size) st := by
  refine (looks_ofExcept _).bind_spares fun _ => (looks_scope _ _).bind_spares fun _ => ?_
  refine looks_now.bind_spares fun _ => (looks_query _).bind_spares fun found => ?_
  exact (avoids_sift hP found).spares

end Storage

end Search

/-! ## Lists and pulls -/

namespace Lists

theorem leads_forget (id : Int) : Leads State.Unwritten (forget id) st :=
  leads_modify (st.unwritten_cache _)

theorem avoids_forgetAll (ids : List Int) : Avoids P (ids.forM forget) st := by
  obtain ⟨cache, hforget, -⟩ := outcome_forgetAll ids st
  intro e st' houtcome
  rw [hforget] at houtcome
  cases houtcome

theorem spares_create (caller : Caller) (list : NewList) : Spares P (create caller list) st := by
  refine (looks_require _ _).bind_spares fun _ => ?_
  dsimp only
  split
  · exact (looks_throw _).bind_spares fun _ => (looks_now).bind_spares fun time =>
      (spares_transact _).bind fun id _ _ => (avoids_modify _).bind fun _ _ _ => avoids_pure id
  · refine looks_now.bind_spares fun time => (spares_transact _).bind fun id _ _ => ?_
    exact (avoids_modify _).bind fun _ _ _ => avoids_pure id

theorem spares_delete (caller : Caller) (id : Int) : Spares P (delete caller id) st := by
  refine (looks_require _ _).bind_spares fun _ => spares_transact?_bind ?_ fun _ st' => ?_
  · exact (leads_forget id).bind_spares fun _ st' _ => ((looks_throw _).leads st').spares
  · exact (avoids_modify _).bind fun _ _ _ => avoids_pure ()

theorem spares_deleteOfServer (caller : Caller) (serverId : Int) :
    Spares P (deleteOfServer caller serverId) st := by
  refine (looks_require _ _).bind_spares fun _ => ?_
  dsimp only
  split
  · exact (looks_throw _).bind_spares fun _ => (spares_transact _).bind fun ids _ _ =>
      (avoids_forgetAll ids).bind fun _ _ _ => avoids_pure ids
  · refine (spares_transact _).bind fun ids _ _ => ?_
    exact (avoids_forgetAll ids).bind fun _ _ _ => avoids_pure ids

end Lists

namespace Pull

theorem unwritten_findRemembered (cfg : Settings) (id : Int) :
    Leads State.Unwritten (Lists.findRemembered cfg id) st := by
  unfold Lists.findRemembered
  split
  · refine looks_get.bind_leads fun _ _ => ?_
    split
    · exact leads_pure _ st
    · refine (looks_query _).bind_leads fun list _ => ?_
      refine Leads.bind (leads_modify (st.unwritten_cache _)) fun _ st' _ => leads_pure _ st'
  · exact (looks_query _).leads st

theorem unwritten_projectAll (cfg : Settings) (time : Int) (items : List Item) :
    Leads State.Unwritten (projectAll cfg time items) st := by
  induction items generalizing st with
  | nil => exact leads_pure [] st
  | cons item items ih =>
    refine Leads.bind ?_ fun list st' _ => Leads.bind ih fun _ st' _ => leads_pure _ st'
    refine Leads.bind (unwritten_findRemembered cfg item.listId).attempt fun list st' _ => ?_
    split <;> exact leads_pure _ _

theorem unwritten_itemsAfter (cfg : Settings) (caller : Caller) (version size : Int) :
    Leads State.Unwritten (itemsAfter cfg caller version size) st := by
  refine (looks_require _ _).bind_leads fun _ _ => (looks_query _).bind_leads fun items _ => ?_
  refine looks_now.bind_leads fun time _ => ?_
  refine Leads.bind (unwritten_projectAll cfg time items) fun seen st' _ => ?_
  refine Leads.bind (leads_modify ?_) fun _ st' _ => leads_pure _ st'
  exact State.unwritten_count _ nofun nofun

end Pull

/-! ## All calls -/

/-- The call is carried out by one transaction on items. -/
def Call.writesOnce : Call → Bool
  | createItem _ | updateItem _ _ | deleteItem _ => true
  | _ => false

theorem Call.spares_run_of_writesOnce {call : Call} (hcall : call.writesOnce) (cfg : Settings)
    (caller : Caller) : Spares P (call.run cfg caller) st := by
  cases call with
  | createItem draft => exact (Items.spares_create caller draft).map _
  | updateItem itemId draft =>
    exact (Items.spares_update caller itemId draft).bind fun _ _ _ => avoids_pure _
  | deleteItem request => exact (Items.spares_delete caller request).map _
  | _ => cases hcall

theorem Call.spares_run (hP : ∀ e, ¬P (.storage e)) (cfg : Settings) (caller : Caller)
    (call : Call) : Spares P (call.run cfg caller) st := by
  have looks : ∀ {α : Type} {a : ServiceM α} (f : α → Reply),
      Looks a → Spares P (f <$> a) st :=
    fun f h => ((h.leads st).spares).map f
  cases call with
  | createItem draft => exact (Items.spares_create caller draft).map _
  | createItems drafts => exact (Items.spares_createAll hP caller drafts).map _
  | updateItem itemId draft =>
    exact (Items.spares_update caller itemId draft).bind fun _ _ _ => avoids_pure _
  | deleteItem request => exact (Items.spares_delete caller request).map _
  | deleteItems itemIds => exact (Items.spares_deleteAll hP caller itemIds).map _
  | pullItems version size =>
    exact (Pull.unwritten_itemsAfter cfg caller version size).spares.map _
  | checkStatus listId address => exact looks _ (Contents.looks_check caller listId address)
  | findItem itemId => exact looks _ (Contents.looks_find caller itemId)
  | existsItem itemId => exact looks _ (Contents.looks_exist caller itemId)
  | countInList filter => exact looks _ (Contents.looks_countInList caller filter)
  | listInList filter offset size =>
    exact looks _ (Contents.looks_listInList cfg caller filter offset size)
  | countAll query => exact looks _ (Search.looks_countAll caller query)
  | searchAll query offset size =>
    exact (Search.spares_items hP cfg caller query offset size).map _
  | searchIds query offset size => exact looks _ (Search.looks_ids cfg caller query offset size)
  | markRead => exact (Items.spares_markRead caller).map _
  | findItemServer itemId => exact looks _ (Contents.looks_findServer caller itemId)
  | createList list => exact (Lists.spares_create caller list).map _
  | findList listId => exact looks _ (Lists.looks_find caller listId)
  | deleteList listId => exact (Lists.spares_delete caller listId).bind fun _ _ _ => avoids_pure _
  | deleteServerLists serverId => exact (Lists.spares_deleteOfServer caller serverId).map _
  | findListServer listId => exact looks _ (Lists.looks_findServer caller listId)

/-- The gate only counts calls and failures. -/
theorem State.unwritten_counted (st : State) (call : Call) : st.Unwritten (st.counted call) :=
  unwritten_count 1 nofun nofun

theorem State.unwritten_failed (st : State) (call : Call) (e : ServiceError) :
    st.Unwritten (st.failed call e) :=
  unwritten_count 1 nofun nofun

theorem Gate.spares_serve {gate : Gate} {token : Option String} {call : Call}
    (hrun : ∀ caller st, Spares P (call.run gate.settings caller) st) :
    Spares P (gate.serve token call) st := by
  have hcounted := st.unwritten_counted call
  intro e st' houtcome hP
  rcases Gate.serve_eq_error houtcome with ⟨-, rfl⟩ | ⟨caller, st₁, -, hcall, rfl⟩
  · exact IsTrans.trans _ _ _ hcounted (State.unwritten_failed _ call e)
  · have hst₁ := hrun caller (st.counted call) e st₁ hcall hP
    exact IsTrans.trans _ _ _ (IsTrans.trans _ _ _ hcounted hst₁) (st₁.unwritten_failed call e)

/-! ## Failed calls -/

/-- A call that ends in an error that its caller can mend has changed no table, no version and no
automatic id, sent no signal and counted no write, however much of a batch was in order before the
error was met. A call of one transaction that fails has not done so either, whatever the error and
however many items it had switched off inside of the transaction. -/
theorem failed_calls_write_nothing {gate : Gate} {token : Option String} {call : Call}
    {st st' : State} {e : ServiceError} (h : outcome (gate.serve token call) st = (.error e, st'))
    (hkind : e.isClientError ∨ call.writesOnce) : st.Unwritten st' := by
  rcases hkind with hclient | honce
  · have hstorage : ∀ e : StorageError, ¬ServiceError.isClientError (.storage e) := by
      intro e
      simp [ServiceError.isClientError, ServiceError.code]
    have hserve : Spares (ServiceError.isClientError ·) (gate.serve token call) st :=
      Gate.spares_serve fun caller st => Call.spares_run hstorage gate.settings caller call
    exact hserve e st' h hclient
  · have hserve : Spares (fun _ => True) (gate.serve token call) st :=
      Gate.spares_serve fun caller st => Call.spares_run_of_writesOnce honce gate.settings caller
    exact hserve e st' h trivial

/-- The last draft of a batch names a list that is not there. Then one item takes the place of a
block, but the version that it is to have is that of an item written by somebody else. -/
theorem failed_calls_write_nothing_of_last :
    let st := State.after { now := 0 } (adminCalls [.createList publicBlackList,
      .createItem { listId := 1, value := "10.0.0.0/8" }])
    let batch := adminGate.serve (some "key") (.createItems [{ listId := 1, value := "10.1.0.0" },
      { listId := 1, value := "10.2.0.0/16" }, { listId := 7, value := "10.3.0.0" }])
    let st₁ := st.beside 9 3
    let single := adminGate.serve (some "key") (.createItem { listId := 1, value := "10.1.2.3" })
    outcome batch st = (.error (.listNotFound 7), (outcome batch st).2) ∧
      st.Unwritten (outcome batch st).2 ∧
      outcome single st₁ = (.error (.storage .versionTaken), (outcome single st₁).2) ∧
      st₁.Unwritten (outcome single st₁).2 := by
  intro st batch st₁ single
  have hbatch : batch.error? st = some (.listNotFound 7) := by decide +kernel
  have hsingle : single.error? st₁ = some (.storage .versionTaken) := by decide +kernel
  exact ⟨outcome_of_error? hbatch,
    failed_calls_write_nothing (outcome_of_error? hbatch) (Or.inl rfl), outcome_of_error? hsingle,
    failed_calls_write_nothing (outcome_of_error? hsingle) (Or.inr rfl)⟩

end FirewallLists
