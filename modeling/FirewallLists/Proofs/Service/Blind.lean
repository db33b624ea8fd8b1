import FirewallLists.Proofs.Service.Progress

/-
  Steps that do not look at the lists that are remembered. From the bare state such a step gives the
  same, and it reaches the bare form of the state that it reaches otherwise: running it and
  forgetting all lists can be done in either order. Every call is such a step but the pull of items,
  which is the only one that asks for a list that may be remembered (`Call.blind_run`).
-/

namespace FirewallLists

namespace ServiceM

variable {α β : Type}

/-- The second step gives from the bare state what the first one gives, and reaches the bare form of
the state that it reaches. -/
def Bares (a a₀ : ServiceM α) (st : State) : Prop :=
  outcome a₀ st.bare = ((outcome a st).1, (outcome a st).2.bare)

/-- The step does not look at what is remembered. -/
def Blind (a : ServiceM α) : Prop :=
  ∀ st, Bares a a st

variable {a a₀ : ServiceM α} {f f₀ : α → ServiceM β} {st : State}

theorem Bares.bind (ha : Bares a a₀ st)
    (hf : ∀ x st', outcome a st = (.ok x, st') → Bares (f x) (f₀ x) st') :
    Bares (a >>= f) (a₀ >>= f₀) st := by
  unfold Bares at ha ⊢
  rw [outcome_bind, outcome_bind, ha]
  rcases houtcome : outcome a st with ⟨e | x, st'⟩
  · rfl
  · exact hf x st' houtcome

theorem Bares.map (ha : Bares a a₀ st) (g : α → β) : Bares (g <$> a) (g <$> a₀) st := by
  unfold Bares at ha ⊢
  rw [outcome_map, outcome_map, ha]

theorem blind_pure (x : α) : Blind (pure x) := fun _ => rfl

theorem blind_throw (e : ServiceError) : Blind (throw e : ServiceM α) := fun _ => rfl

theorem Bares.attempt (ha : Bares a a₀ st) : Bares (attempt a) (attempt a₀) st := by
  unfold Bares at ha ⊢
  rw [outcome_attempt, outcome_attempt, ha]

theorem Blind.bind (ha : Blind a) (hf : ∀ x, Blind (f x)) : Blind (a >>= f) :=
  fun st => (ha st).bind fun x st' _ => hf x st'

theorem Blind.map (ha : Blind a) (g : α → β) : Blind (g <$> a) :=
  fun st => (ha st).map g

theorem Blind.attempt (ha : Blind a) : Blind (attempt a) :=
  fun st => (ha st).attempt

theorem blind_ofExcept (x : Except ServiceError α) : Blind (ofExcept x) := by
  intro st
  rw [Bares, outcome_ofExcept, outcome_ofExcept]

theorem blind_require (caller : Caller) (allowed : List CallerKind) :
    Blind (require caller allowed) :=
  blind_ofExcept _

theorem blind_now : Blind now := fun _ => rfl

theorem blind_query (read : Store → Except StorageError α) : Blind (query read) := by
  intro st
  rw [Bares, outcome_query, outcome_query]
  rfl

theorem blind_lookUp (kind : Lookup) (find : Store → α) : Blind (lookUp kind find) := by
  intro st
  rw [Bares, outcome_lookUp, outcome_lookUp]
  rfl

theorem blind_transact (write : Store → Except StorageError (α × Store)) :
    Blind (transact write) := by
  intro st
  have htables : st.bare.tables = st.tables := rfl
  rw [Bares, outcome_transact, outcome_transact, htables]
  rcases st.tables >>= write with e | ⟨x, s⟩ <;> rfl

theorem blind_transact? (write : Store → Except StorageError (Option α × Store)) :
    Blind (transact? write) := by
  intro st
  have htables : st.bare.tables = st.tables := rfl
  rw [Bares, outcome_transact?, outcome_transact?, htables]
  rcases st.tables >>= write with e | ⟨_ | x, s⟩ <;> rfl

theorem blind_modify {g : State → State} (h : ∀ st, g st.bare = (g st).bare) :
    Blind (modify g : ServiceM PUnit) := by
  intro st
  rw [Bares, outcome_modify, outcome_modify, h]

theorem blind_count (sample : Sample) (n : Nat) : Blind (count sample n) :=
  blind_modify fun _ => rfl

theorem blind_signal (change : Change) : Blind (signal change) :=
  blind_modify fun _ => rfl

theorem blind_signalLast (last : Option Change) : Blind (signalLast last) := by
  cases last with
  | none => exact blind_pure ()
  | some change => exact blind_signal change

/-- The whole state may be asked for if what is remembered plays no part afterwards. -/
theorem blind_get_bind {g : State → ServiceM β} (hbare : ∀ st, g st.bare = g st)
    (hg : ∀ st, Blind (g st)) : Blind (get >>= g) := by
  intro st
  have hst := hg st st
  unfold Bares at hst ⊢
  rw [outcome_bind, outcome_bind, outcome_get, outcome_get]
  dsimp only
  rw [hbare]
  exact hst

theorem blind_mapM {g : α → ServiceM β} (hg : ∀ x, Blind (g x)) (xs : List α) :
    Blind (xs.mapM g) := by
  induction xs with
  | nil => exact blind_pure []
  | cons x xs ih =>
    rw [List.mapM_cons]
    exact (hg x).bind fun y => ih.bind fun ys => blind_pure (y :: ys)

end ServiceM

open ServiceM

/-! ## Owners -/

namespace Ownership

theorem blind_checkOwner (userId : Int) (list : IpList) : Blind (checkOwner userId list) := by
  unfold checkOwner
  split
  · exact blind_pure ()
  · split
    · refine (blind_lookUp _ _).bind fun owned => ?_
      split
      · exact blind_pure ()
      · exact blind_throw _
    · exact blind_throw _

theorem blind_checkTenantList (userId listId : Int) : Blind (checkTenantList userId listId) := by
  refine (blind_query _).bind fun list => ?_
  split
  · exact blind_checkOwner _ _
  · exact blind_throw _

theorem blind_checkWritable (caller : Caller) (listId : Int) :
    Blind (checkWritable caller listId) := by
  unfold checkWritable
  split
  · exact blind_checkTenantList _ _
  · refine (blind_query _).bind fun list => ?_
    split
    · exact blind_pure ()
    · exact blind_throw _

theorem blind_checkCallerList (caller : Caller) (listId : Int) :
    Blind (checkCallerList caller listId) := by
  unfold checkCallerList
  split
  · exact blind_checkTenantList _ _
  · exact blind_pure ()

theorem blind_scopeOf (userId : Option Int) : Blind (scopeOf userId) := by
  cases userId with
  | none => exact blind_pure _
  | some userId => exact ((blind_lookUp _ _).bind fun _ => blind_query _).map _

end Ownership

open Ownership

/-! ## Writing items -/

namespace Items

theorem blind_prepare (caller : Caller) (draft : ItemDraft) : Blind (prepare caller draft) :=
  (blind_ofExcept _).bind fun item =>
    (blind_checkWritable caller item.listId).bind fun _ => blind_pure item

theorem blind_store (item : NewItem) : Blind (store item) :=
  blind_now.bind fun _ => (blind_transact _).bind fun written =>
    (blind_count _ _).bind fun _ => (blind_count _ _).bind fun _ => blind_pure written

theorem blind_create (caller : Caller) (draft : ItemDraft) : Blind (create caller draft) :=
  (blind_require _ _).bind fun _ => (blind_prepare caller draft).bind fun item =>
    (blind_store item).bind fun _ => (blind_signal _).bind fun _ => blind_pure _

theorem blind_storeAll (items : List NewItem) (last : Option Change) :
    Blind (storeAll items last) := by
  induction items generalizing last with
  | nil => exact (blind_signalLast last).bind fun _ => blind_pure []
  | cons item items ih =>
    refine (blind_store item).attempt.bind fun result => ?_
    cases result with
    | ok written => exact (ih _).bind fun ids => blind_pure _
    | error e => exact (blind_signalLast last).bind fun _ => blind_throw e

theorem blind_createAll (caller : Caller) (drafts : List ItemDraft) :
    Blind (createAll caller drafts) :=
  (blind_require _ _).bind fun _ =>
    (blind_mapM (blind_prepare caller) drafts).bind fun items => blind_storeAll items none

theorem blind_listOf (itemId : Int) : Blind (listOf itemId) := by
  refine (blind_query _).bind fun listId => ?_
  split
  · exact blind_pure _
  · exact blind_throw _

theorem blind_update (caller : Caller) (itemId : Int) (draft : ItemDraft) :
    Blind (update caller itemId draft) := by
  refine (blind_require _ _).bind fun _ => (blind_listOf itemId).bind fun listId => ?_
  refine (blind_checkCallerList caller listId).bind fun _ => (blind_ofExcept _).bind fun item => ?_
  refine (blind_transact? _).bind fun written => ?_
  cases written with
  | none => exact blind_throw _
  | some written =>
    exact (blind_count _ _).bind fun _ => (blind_count _ _).bind fun _ => blind_signal _

theorem blind_deleteOne (caller : Caller) (itemId : Int) : Blind (deleteOne caller itemId) := by
  refine (blind_listOf itemId).bind fun listId => ?_
  refine (blind_checkCallerList caller listId).bind fun _ => ?_
  refine (blind_transact? _).bind fun retired => ?_
  cases retired with
  | none => exact blind_throw _
  | some retired =>
    exact (blind_count _ _).bind fun _ => (blind_signal _).bind fun _ => blind_pure 1

theorem blind_deleteScope (caller : Caller) (listId : Int) : Blind (deleteScope caller listId) := by
  unfold deleteScope
  split
  · exact (blind_checkCallerList caller listId).bind fun _ => blind_pure _
  · exact blind_scopeOf _

theorem blind_deleteBounds (caller : Caller) (range : Net.Range) (listId : Int) :
    Blind (deleteBounds caller range listId) :=
  (blind_deleteScope caller listId).bind fun _ => (blind_transact? _).bind fun _ =>
    (blind_count _ _).bind fun _ => (blind_signalLast _).bind fun _ => blind_pure _

theorem blind_delete (caller : Caller) (request : DeleteRequest) :
    Blind (delete caller request) := by
  refine (blind_ofExcept _).bind fun target => (blind_require _ _).bind fun _ => ?_
  cases target with
  | item id => exact blind_deleteOne caller id
  | value text => exact (blind_ofExcept _).bind fun range => blind_deleteBounds caller range _
  | bounds lower upper =>
    exact (blind_ofExcept _).bind fun range => blind_deleteBounds caller range _

theorem blind_deletable (caller : Caller) (ids : List Int) : Blind (deletable caller ids) := by
  induction ids with
  | nil => exact blind_pure []
  | cons id ids ih =>
    refine (blind_query _).bind fun listId => ?_
    cases listId with
    | none => exact ih
    | some listId =>
      exact (blind_checkCallerList caller listId).bind fun _ => ih.bind fun _ => blind_pure _

theorem blind_disableAll (ids : List Int) : Blind (disableAll ids) := by
  induction ids with
  | nil => exact blind_pure []
  | cons id ids ih =>
    refine (blind_transact? _).bind fun retired => ?_
    cases retired with
    | none => exact ih
    | some retired => exact ih.bind fun _ => blind_pure _

theorem blind_deleteAll (caller : Caller) (ids : List Int) : Blind (deleteAll caller ids) :=
  (blind_require _ _).bind fun _ => (blind_deletable caller ids).bind fun targets =>
    (blind_disableAll targets).bind fun _ => (blind_count _ _).bind fun _ =>
      (blind_signalLast _).bind fun _ => blind_pure _

theorem blind_markRead (caller : Caller) : Blind (markRead caller) :=
  (blind_require _ _).bind fun _ => (blind_scopeOf _).bind fun _ => blind_transact _

end Items

/-! ## Looking into lists -/

namespace Contents

theorem blind_check (caller : Caller) (listId : Int) (address : String) :
    Blind (check caller listId address) := by
  refine (blind_require _ _).bind fun _ => ?_
  split
  · refine (blind_query _).bind fun list => ?_
    split
    · refine blind_now.bind fun time => (blind_query _).bind fun item => ?_
      split <;> exact blind_pure _
    · exact blind_pure _
  · exact blind_pure _

theorem blind_find (caller : Caller) (itemId : Int) : Blind (find caller itemId) := by
  refine (blind_require _ _).bind fun _ => blind_now.bind fun time => ?_
  refine (blind_query _).bind fun item => ?_
  split
  · exact (blind_checkCallerList _ _).bind fun _ => blind_pure _
  · exact blind_pure _

theorem blind_exist (caller : Caller) (itemId : Int) : Blind (exist caller itemId) :=
  (blind_require _ _).bind fun _ => blind_now.bind fun _ => blind_query _

theorem blind_countInList (caller : Caller) (filter : ListFilter) :
    Blind (countInList caller filter) :=
  (blind_require _ _).bind fun _ => (blind_checkCallerList _ _).bind fun _ =>
    blind_now.bind fun _ => blind_query _

theorem blind_listInList (cfg : Settings) (caller : Caller) (filter : ListFilter)
    (offset size : Int) : Blind (listInList cfg caller filter offset size) :=
  (blind_require _ _).bind fun _ => (blind_checkCallerList _ _).bind fun _ =>
    blind_now.bind fun _ => (blind_query _).bind fun _ =>
      blind_get_bind (fun _ => rfl) fun _ => blind_pure _

theorem blind_findServer (caller : Caller) (itemId : Int) : Blind (findServer caller itemId) := by
  refine (blind_require _ _).bind fun _ => (blind_query _).bind fun listId => ?_
  split
  · refine (blind_query _).bind fun list => ?_
    split
    · dsimp only
      split
      · refine (blind_lookUp _ _).bind fun owned => ?_
        split
        · exact blind_pure _
        · exact (blind_throw _).bind fun _ => blind_pure _
      · exact blind_pure _
    · exact blind_pure _
  · exact blind_throw _

end Contents

/-! ## Searching -/

namespace Search

theorem blind_scope (caller : Caller) (q : SearchQuery) : Blind (scope caller q) :=
  (blind_require _ _).bind fun _ => blind_scopeOf _

theorem blind_countAll (caller : Caller) (q : SearchQuery) : Blind (countAll caller q) :=
  (blind_ofExcept _).bind fun _ => (blind_scope _ _).bind fun _ =>
    blind_now.bind fun _ => blind_query _

theorem blind_ids (cfg : Settings) (caller : Caller) (q : SearchQuery) (offset size : Int) :
    Blind (ids cfg caller q offset size) :=
  (blind_ofExcept _).bind fun _ => (blind_scope _ _).bind fun _ =>
    blind_now.bind fun _ => blind_query _

theorem blind_disableOrphan (item : Item) : Blind (disableOrphan item) := by
  refine (blind_transact? _).bind fun retired => ?_
  cases retired with
  | none => exact blind_pure ()
  | some retired => exact (blind_count _ _).bind fun _ => blind_signal _

theorem blind_usage (item : Item) : Blind (usage item) := by
  refine (blind_query _).bind fun list => ?_
  split
  · exact blind_pure _
  · split
    · exact blind_pure _
    · split
      · exact blind_pure _
      · refine blind_get_bind (fun _ => rfl) fun st => ?_
        split <;> exact blind_pure _

theorem blind_sift (items : List Item) : Blind (sift items) := by
  induction items with
  | nil => exact blind_pure []
  | cons item items ih =>
    refine (blind_usage item).bind fun usage => ?_
    cases usage with
    | orphaned => exact (blind_disableOrphan item).bind fun _ => ih
    | used list policy =>
      exact blind_get_bind (fun _ => rfl) fun _ => ih.bind fun _ => blind_pure _

theorem blind_items (cfg : Settings) (caller : Caller) (q : SearchQuery) (offset size : Int) :
    Blind (items cfg caller q offset size) :=
  (blind_ofExcept _).bind fun _ => (blind_scope _ _).bind fun _ => blind_now.bind fun _ =>
    (blind_query _).bind fun found => blind_sift found

end Search

/-! ## Lists -/

namespace Lists

theorem blind_forget (id : Int) : Blind (forget id) :=
  blind_modify fun _ => rfl

theorem blind_forgetAll (ids : List Int) : Blind (ids.forM forget) := by
  induction ids with
  | nil => exact blind_pure _
  | cons id ids ih => exact (blind_forget id).bind fun _ => ih

theorem blind_create (caller : Caller) (list : NewList) : Blind (create caller list) := by
  refine (blind_require _ _).bind fun _ => ?_
  have hrest : Blind (do
      let time ← now
      let id ← transact (·.createList list time)
      forget id
      return id) :=
    blind_now.bind fun _ => (blind_transact _).bind fun id =>
      (blind_forget id).bind fun _ => blind_pure id
  dsimp only
  split
  · exact (blind_throw _).bind fun _ => hrest
  · exact hrest

theorem blind_find (caller : Caller) (id : Int) : Blind (find caller id) := by
  refine (blind_require _ _).bind fun _ => (blind_query _).bind fun list => ?_
  split
  · exact (blind_checkOwner _ _).bind fun _ => blind_pure _
  · exact blind_pure _

theorem blind_delete (caller : Caller) (id : Int) : Blind (delete caller id) := by
  refine (blind_require _ _).bind fun _ => (blind_transact? _).bind fun done => ?_
  refine (blind_forget id).bind fun _ => ?_
  split
  · exact blind_throw _
  · exact blind_pure ()

theorem blind_deleteOfServer (caller : Caller) (serverId : Int) :
    Blind (deleteOfServer caller serverId) := by
  refine (blind_require _ _).bind fun _ => ?_
  have hrest : Blind (do
      let ids ← transact fun s => .ok (s.disableServerLists serverId)
      ids.forM forget
      return ids) :=
    (blind_transact _).bind fun ids => (blind_forgetAll ids).bind fun _ => blind_pure ids
  dsimp only
  split
  · exact (blind_throw _).bind fun _ => hrest
  · exact hrest

theorem blind_findServer (caller : Caller) (id : Int) : Blind (findServer caller id) := by
  refine (blind_require _ _).bind fun _ => ?_
  split
  · exact (blind_checkTenantList _ _).bind fun _ => blind_query _
  · exact blind_query _

end Lists

/-! ## Calls -/

/-- The call is for items above a version. -/
def Call.isPull : Call → Bool
  | pullItems _ _ => true
  | _ => false

theorem Call.blind_run {call : Call} (hcall : call.isPull = false) (cfg : Settings)
    (caller : Caller) : Blind (call.run cfg caller) := by
  cases call with
  | createItem draft => exact (Items.blind_create caller draft).map _
  | createItems drafts => exact (Items.blind_createAll caller drafts).map _
  | updateItem itemId draft =>
    exact (Items.blind_update caller itemId draft).bind fun _ => blind_pure _
  | deleteItem request => exact (Items.blind_delete caller request).map _
  | deleteItems itemIds => exact (Items.blind_deleteAll caller itemIds).map _
  | pullItems version size => cases hcall
  | checkStatus listId address => exact (Contents.blind_check caller listId address).map _
  | findItem itemId => exact (Contents.blind_find caller itemId).map _
  | existsItem itemId => exact (Contents.blind_exist caller itemId).map _
  | countInList filter => exact (Contents.blind_countInList caller filter).map _
  | listInList filter offset size =>
    exact (Contents.blind_listInList cfg caller filter offset size).map _
  | countAll query => exact (Search.blind_countAll caller query).map _
  | searchAll query offset size => exact (Search.blind_items cfg caller query offset size).map _
  | searchIds query offset size => exact (Search.blind_ids cfg caller query offset size).map _
  | markRead => exact (Items.blind_markRead caller).map _
  | findItemServer itemId => exact (Contents.blind_findServer caller itemId).map _
  | createList list => exact (Lists.blind_create caller list).map _
  | findList listId => exact (Lists.blind_find caller listId).map _
  | deleteList listId => exact (Lists.blind_delete caller listId).bind fun _ => blind_pure _
  | deleteServerLists serverId => exact (Lists.blind_deleteOfServer caller serverId).map _
  | findListServer listId => exact (Lists.blind_findServer caller listId).map _

end FirewallLists
