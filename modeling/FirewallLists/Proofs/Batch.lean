import FirewallLists.Proofs.Failure
import FirewallLists.Proofs.Report
import FirewallLists.Proofs.Tenant.Alike

/-
  Making several items with one call. All drafts are checked before the first item is written, and
  a single call checks its own draft when its turn comes. Both checks say the same, since what is
  asked of a draft is about lists and owners, and writing items touches neither. So a batch that is
  accepted leaves the tables that single calls leave, one after the other until one fails, and
  differs from them only in its signals: it sends the last one of theirs
  (`batch_refines_singles`).
-/

namespace FirewallLists

open ServiceM

/-! ## Checks of drafts -/

/-- What the checks say of a draft: the item to be written, or why the draft is refused. -/
def Items.verdict (caller : Caller) (st : State) (draft : ItemDraft) :
    Except ServiceError NewItem := do
  let item ← draft.normalize
  (outcome (Ownership.checkWritable caller item.listId) st).1
  return item

theorem State.Alike.verdict {st st' : State} (h : st.Alike st') (caller : Caller)
    (draft : ItemDraft) : Items.verdict caller st' draft = Items.verdict caller st draft := by
  unfold Items.verdict
  refine congrArg _ (funext fun item => ?_)
  rw [h.same_checkWritable caller item.listId]

/-- Writing items leaves lists and directory alone. -/
theorem Store.Commits.alike {s s' : Store} {changes : List Change} (h : s.Commits changes s') :
    s.Alike s' := by
  induction h with
  | nil s => exact .refl s
  | cons first _ ih =>
    refine Store.Alike.trans ?_ ih
    cases first <;> exact ⟨rfl, rfl, rfl, rfl, rfl, rfl⟩

namespace Items

variable {caller : Caller} {st st' : State}

theorem outcome_prepare (caller : Caller) (draft : ItemDraft) (st : State) :
    outcome (prepare caller draft) st = (verdict caller st draft, st) := by
  have hlooks := looks_prepare caller draft st
  refine Prod.ext ?_ hlooks
  rw [prepare, verdict, outcome_bind, outcome_ofExcept]
  rcases draft.normalize with e | item
  · rfl
  · show (outcome (Ownership.checkWritable caller item.listId >>= fun _ => pure item) st).1 =
      (outcome (Ownership.checkWritable caller item.listId) st).1 >>= fun _ => .ok item
    rw [outcome_bind]
    rcases outcome (Ownership.checkWritable caller item.listId) st with ⟨e | _, st₁⟩ <;> rfl

/-- The first draft that is refused ends the checks. -/
theorem outcome_prepareAll_of_refused {before after : List ItemDraft} {draft : ItemDraft}
    {e : ServiceError} (hbefore : ∀ d ∈ before, ∃ item, verdict caller st d = .ok item)
    (hrefused : verdict caller st draft = .error e) :
    outcome ((before ++ draft :: after).mapM (prepare caller)) st = (.error e, st) := by
  induction before with
  | nil =>
    have hfirst : outcome (prepare caller draft) st = (.error e, st) := by
      rw [outcome_prepare, hrefused]
    rw [List.nil_append, List.mapM_cons, outcome_bind_of_error hfirst]
  | cons d before ih =>
    obtain ⟨item, hitem⟩ := hbefore d List.mem_cons_self
    have hfirst : outcome (prepare caller d) st = (.ok item, st) := by
      rw [outcome_prepare, hitem]
    have hrest := ih fun d' hd' => hbefore d' (List.mem_cons_of_mem _ hd')
    rw [List.cons_append, List.mapM_cons, outcome_bind_of_ok hfirst, outcome_bind_of_error hrest]

/-- These items are what the checks make of the drafts, in the same order. -/
def Accepted (caller : Caller) (st : State) : List ItemDraft → List NewItem → Prop :=
  List.Forall₂ fun draft item => verdict caller st draft = .ok item

theorem exists_accepted {drafts : List ItemDraft}
    (h : ∀ d ∈ drafts, ∃ item, verdict caller st d = .ok item) :
    ∃ items, Accepted caller st drafts items := by
  induction drafts with
  | nil => exact ⟨[], .nil⟩
  | cons d drafts ih =>
    obtain ⟨item, hitem⟩ := h d List.mem_cons_self
    obtain ⟨items, hitems⟩ := ih fun d' hd' => h d' (List.mem_cons_of_mem _ hd')
    exact ⟨item :: items, .cons hitem hitems⟩

theorem Accepted.outcome_prepareAll {drafts : List ItemDraft} {items : List NewItem}
    (h : Accepted caller st drafts items) :
    outcome (drafts.mapM (prepare caller)) st = (.ok items, st) := by
  induction h with
  | nil => rfl
  | @cons draft item drafts items hfirst _ ih =>
    have hprepare : outcome (prepare caller draft) st = (.ok item, st) := by
      rw [outcome_prepare, hfirst]
    rw [List.mapM_cons, outcome_bind_of_ok hprepare, outcome_bind_of_ok ih, outcome_pure]

theorem Accepted.alike {drafts : List ItemDraft} {items : List NewItem}
    (h : Accepted caller st drafts items) (halike : st.Alike st') :
    Accepted caller st' drafts items :=
  List.Forall₂.imp (fun draft _ hitem => (halike.verdict caller draft).trans hitem) h

/-! ## Callers who may write -/

section Allowed

variable (hallowed : caller.require [.admin, .user, .node] = .ok ())

include hallowed

theorem outcome_create_of_accepted {draft : ItemDraft} {item : NewItem}
    (hitem : verdict caller st draft = .ok item) :
    outcome (create caller draft) st = match outcome (store item) st with
      | (.ok written, st') => (.ok written.itemId,
        (outcome (signal ⟨written.itemId, item.listId, written.version⟩) st').2)
      | (.error e, st') => (.error e, st') := by
  have hprepare : outcome (prepare caller draft) st = (.ok item, st) := by
    rw [outcome_prepare, hitem]
  rw [create, outcome_bind_of_ok (outcome_require_of_ok hallowed _),
    outcome_bind_of_ok hprepare, outcome_bind]
  rcases outcome (store item) st with ⟨e | written, st₁⟩ <;> rfl

theorem outcome_createAll_of_accepted {drafts : List ItemDraft} {items : List NewItem}
    (hitems : Accepted caller st drafts items) :
    outcome (createAll caller drafts) st = outcome (storeAll items none) st := by
  rw [createAll, outcome_bind_of_ok (outcome_require_of_ok hallowed _),
    outcome_bind_of_ok hitems.outcome_prepareAll]

theorem outcome_createAll_of_refused {before after : List ItemDraft} {draft : ItemDraft}
    {e : ServiceError} (hbefore : ∀ d ∈ before, ∃ item, verdict caller st d = .ok item)
    (hrefused : verdict caller st draft = .error e) :
    outcome (createAll caller (before ++ draft :: after)) st = (.error e, st) := by
  rw [createAll, outcome_bind_of_ok (outcome_require_of_ok hallowed _),
    outcome_bind_of_error (outcome_prepareAll_of_refused hbefore hrefused)]

end Allowed

end Items

/-! ## Single calls and the batch -/

variable {α : Type}

/-- What a batch that writes `count` items and as many single calls do when they start from states
with the same tables; `signals` are those of the single calls. The batch has sent the last one of
them, which tells of the last change that is committed, or else it has sent `last`. Either all items
are written and the batch answers with their ids, or both end with the error of the same item. -/
structure Items.LikeSingles (answer : List Int → α) (a b : State) (last : Option Change)
    (signals : List Change) (count : Nat) (batch : Except ServiceError α × State)
    (single : Except ServiceError (List Reply) × State) : Prop where
  store : batch.2.store = single.2.store
  commits : ∃ changes, a.store.Commits changes batch.2.store ∧
    changes.getLast? = signals.getLast?
  batchSent : batch.2.channel.sent = a.channel.sent ++ (signals.getLast?.or last).toList
  singleSent : single.2.channel.sent = b.channel.sent ++ signals
  reply : (signals.length = count ∧ batch.1 = .ok (answer (signals.map (·.itemId))) ∧
      single.1 = .ok (signals.map fun signal => .itemId signal.itemId)) ∨
    (signals.length < count ∧ ∃ e, batch.1 = .error (.storage e) ∧ single.1 = .error (.storage e))

/-- One more item that both have written first. -/
theorem Items.LikeSingles.cons {a a₁ b b₁ : State} {change : Change} {first signals : List Change}
    {count : Nat} {batch : Except ServiceError (List Int) × State}
    {single : Except ServiceError (List Reply) × State}
    (h : LikeSingles id a₁ b₁ (some change) signals count batch single)
    (hcommits : a.store.Commits first a₁.store) (hfirst : first.getLast? = some change)
    (ha : a₁.channel.sent = a.channel.sent) (hb : b₁.channel.sent = b.channel.sent ++ [change])
    (last : Option Change) :
    LikeSingles id a b last (change :: signals) (count + 1)
      (batch.1.map (change.itemId :: ·), batch.2)
      (single.1.map (Reply.itemId change.itemId :: ·), single.2) := by
  have hlast : (change :: signals).getLast? = signals.getLast?.or (some change) :=
    @List.getLast?_append _ [change] signals
  refine ⟨h.store, ?_, ?_, ?_, ?_⟩
  · obtain ⟨changes, hchanges, hsame⟩ := h.commits
    exact ⟨first ++ changes, hcommits.append hchanges, by
      rw [List.getLast?_append, hsame, hfirst, hlast]⟩
  · rw [hlast, Option.or_assoc, Option.some_or, ← ha]
    exact h.batchSent
  · rw [h.singleSent, hb, List.append_assoc, List.singleton_append]
  · rcases h.reply with ⟨hcount, hbatch, hsingle⟩ | ⟨hcount, e, hbatch, hsingle⟩
    · refine Or.inl ⟨by rw [List.length_cons, hcount], ?_, ?_⟩
      · rw [hbatch]; rfl
      · rw [hsingle]; rfl
    · refine Or.inr ⟨by rw [List.length_cons]; omega, e, ?_, ?_⟩
      · rw [hbatch]; rfl
      · rw [hsingle]; rfl

/-- What the gate adds to a batch. -/
theorem Items.LikeSingles.serve {st : State} {call : Call} {signals : List Change} {count : Nat}
    {batch : Except ServiceError (List Int) × State}
    {single : Except ServiceError (List Reply) × State}
    (h : LikeSingles id (st.counted call) st none signals count batch single) :
    LikeSingles .itemIds st st none signals count
      (match (batch.1.map Reply.itemIds, batch.2) with
      | (.ok reply, st') => (.ok reply, st')
      | (.error e, st') => (.error e, st'.failed call e)) single := by
  obtain ⟨r, st'⟩ := batch
  rcases h.reply with ⟨hcount, hbatch, hsingle⟩ | ⟨hcount, e, hbatch, hsingle⟩
  · dsimp only at hbatch
    subst hbatch
    exact ⟨h.store, h.commits, h.batchSent, h.singleSent, Or.inl ⟨hcount, rfl, hsingle⟩⟩
  · dsimp only at hbatch
    subst hbatch
    exact ⟨h.store, h.commits, h.batchSent, h.singleSent, Or.inr ⟨hcount, e, rfl, hsingle⟩⟩

section Singles

variable {gate : Gate} {token : Option String} {caller : Caller}
  (hknown : gate.authenticate token = .ok caller)
  (hallowed : caller.require [.admin, .user, .node] = .ok ())

include hknown hallowed

/-- A single call whose draft is accepted writes the item, or fails at the tables. -/
theorem Gate.outcome_createItem {draft : ItemDraft} {item : NewItem} {st : State}
    (hitem : Items.verdict caller st draft = .ok item) :
    outcome (gate.serve token (.createItem draft)) st =
      match outcome (Items.store item) (st.counted (.createItem draft)) with
      | (.ok written, st') => (.ok (.itemId written.itemId),
        (outcome (signal ⟨written.itemId, item.listId, written.version⟩) st').2)
      | (.error e, st') => (.error e, st'.failed (.createItem draft) e) := by
  have hsame : Items.verdict caller (st.counted (.createItem draft)) draft = .ok item := by
    rw [(st.alike_counted _).verdict, hitem]
  rw [outcome_serve, outcome_authorized hknown, Call.run, outcome_map,
    Items.outcome_create_of_accepted hallowed hsame]
  rcases outcome (Items.store item) (st.counted (.createItem draft)) with ⟨e | written, st'⟩ <;> rfl

/-- The drafts have been accepted in `st`; the batch goes on from `a` and the single calls from `b`,
whose tables are the same while signals and counters differ. -/
theorem Items.likeSingles_storeAll {st a b : State} {drafts : List ItemDraft}
    {items : List NewItem} (hitems : Accepted caller st drafts items) (last : Option Change)
    (hb : st.Alike b) (hstore : b.store = a.store) (hopen : b.isOpen = a.isOpen)
    (hnow : b.now = a.now) :
    ∃ signals, LikeSingles id a b last signals items.length (outcome (storeAll items last) a)
      (outcome (drafts.mapM fun d => gate.serve token (.createItem d)) b) := by
  induction hitems generalizing a b last with
  | nil =>
    rw [storeAll, outcome_signalLast_bind]
    have hlast := State.posts_signalLast a last
    exact ⟨[], hlast.commits.eq_of_nil.trans hstore.symm, ⟨[], hlast.commits, rfl⟩, hlast.sent,
      (List.append_nil _).symm, Or.inl ⟨rfl, rfl, rfl⟩⟩
  | @cons draft item drafts items hfirst hrest ih =>
    -- nothing that the check of this draft looks at has been written since `st`
    have hverdict : verdict caller b draft = .ok item := by rw [hb.verdict, hfirst]
    have htables : b.tables = a.tables := by rw [State.tables, State.tables, hopen, hstore]
    have hrun : ((b.counted (.createItem draft)).tables >>=
        (·.createItem item item.startsRead (b.counted (.createItem draft)).now)) =
        a.tables >>= (·.createItem item item.startsRead a.now) := by
      rw [← htables, ← hnow]
      rfl
    have hsingle := Gate.outcome_createItem hknown hallowed hverdict
    rw [outcome_store, hrun] at hsingle
    rw [outcome_storeAll_cons, outcome_store, List.mapM_cons, outcome_bind, hsingle]
    rcases hw : a.tables >>= (·.createItem item item.startsRead a.now) with e | ⟨written, s⟩
    · have hlast := State.posts_signalLast a last
      exact ⟨[], hlast.commits.eq_of_nil.trans hstore.symm, ⟨[], hlast.commits, rfl⟩, hlast.sent,
        (List.append_nil _).symm, Or.inr ⟨Nat.succ_pos _, e, rfl, rfl⟩⟩
    · have hcommits := Store.createItem_commits (tables_bind_eq_ok.mp hw).2
      dsimp only
      rw [outcome_map, ← map_eq_pure_bind, outcome_map]
      generalize ha₁ : ({ a with store := s, counters := _ } : State) = a₁
      generalize hb₁ : (outcome (signal _) _).2 = b₁
      have halike : st.Alike b₁ := by
        subst hb₁
        exact ⟨hb.store.trans (hstore ▸ hcommits.alike), hb.isOpen, hb.failing, hb.now⟩
      obtain ⟨signals, hlike⟩ := @ih a₁ b₁ (some ⟨written.itemId, item.listId, written.version⟩)
        halike (by subst ha₁ hb₁; rfl) (by subst ha₁ hb₁; exact hopen)
        (by subst ha₁ hb₁; exact hnow)
      have hfirst : a.store.Commits (written.changes item.listId) a₁.store := by
        subst ha₁
        exact hcommits
      exact ⟨⟨written.itemId, item.listId, written.version⟩ :: signals,
        hlike.cons hfirst (getLast?_changes _ _) (by subst ha₁; rfl) (by subst hb₁; rfl) last⟩

/-- A batch whose drafts are all in order leaves the tables that single calls for the same drafts
leave, one after the other until one fails, with its answer made of theirs and the last of their
signals in place of all of them. If a draft is refused, the first one that is tells how the batch
fails, and nothing is written. -/
theorem batch_refines_singles (drafts : List ItemDraft) (st : State) :
    ((∀ draft ∈ drafts, ∃ item, Items.verdict caller st draft = .ok item) →
      ∃ signals, Items.LikeSingles .itemIds st st none signals drafts.length
        (outcome (gate.serve token (.createItems drafts)) st)
        (outcome (drafts.mapM fun draft => gate.serve token (.createItem draft)) st)) ∧
    ∀ before draft after e, drafts = before ++ draft :: after →
      (∀ d ∈ before, ∃ item, Items.verdict caller st d = .ok item) →
      Items.verdict caller st draft = .error e →
      ∃ st', outcome (gate.serve token (.createItems drafts)) st = (.error e, st') ∧
        st.Unwritten st' := by
  have hcounted := st.alike_counted (.createItems drafts)
  constructor
  · intro hdrafts
    obtain ⟨items, hitems⟩ := Items.exists_accepted hdrafts
    obtain ⟨signals, hlike⟩ := @Items.likeSingles_storeAll gate token caller hknown hallowed st
      (st.counted (.createItems drafts)) st drafts items hitems none (.refl st) rfl rfl rfl
    refine ⟨signals, ?_⟩
    rw [Gate.outcome_serve, Gate.outcome_authorized hknown, Call.run, outcome_map,
      Items.outcome_createAll_of_accepted hallowed (hitems.alike hcounted),
      List.Forall₂.length_eq hitems]
    exact hlike.serve
  · rintro before draft after e rfl hbefore hrefused
    generalize hcall : Call.createItems (before ++ draft :: after) = call at hcounted ⊢
    have hbefore' : ∀ d ∈ before, ∃ item, Items.verdict caller (st.counted call) d = .ok item := by
      intro d hd
      rw [hcounted.verdict]
      exact hbefore d hd
    have hrefused' : Items.verdict caller (st.counted call) draft = .error e := by
      rw [hcounted.verdict, hrefused]
    refine ⟨(st.counted call).failed call e, ?_, ?_⟩
    · subst hcall
      rw [Gate.outcome_serve, Gate.outcome_authorized hknown, Call.run, outcome_map,
        Items.outcome_createAll_of_refused hallowed hbefore' hrefused']
      rfl
    · exact IsTrans.trans _ _ _ (st.unwritten_counted call) (State.unwritten_failed _ call e)

end Singles

/-- The items of a batch take the place of one another. All of them are made, and only the last two
stay; but where somebody else has written an item with a version that the second one would get, the
batch ends with the first one. Of another batch the second draft names a list that is not there. -/
theorem batch_refines_singles_of_failed :
    let st := State.after { now := 0 } (adminCalls [.createList publicBlackList,
      .createItem { listId := 1, value := "10.0.0.1" }])
    let st₁ := st.beside 9 5
    let drafts : List ItemDraft := [{ listId := 1, value := "10.0.0.0/8" },
      { listId := 1, value := "10.1.0.0/16" }, { listId := 1, value := "10.2.0.0" }]
    let batch := adminGate.serve (some "key") (.createItems drafts)
    let refused : List ItemDraft := [{ listId := 1, value := "10.0.0.1" }] ++
      { listId := 7, value := "10.0.0.2" } :: []
    (∃ signals, Items.LikeSingles .itemIds st st none signals 3 (outcome batch st)
        (outcome (drafts.mapM fun draft => adminGate.serve (some "key") (.createItem draft)) st)) ∧
      (outcome batch st).1 = .ok (.itemIds [2, 3, 4]) ∧
      batch.error? st₁ = some (.storage .versionTaken) ∧
      (∃ signals, Items.LikeSingles .itemIds st₁ st₁ none signals 3 (outcome batch st₁)
        (outcome (drafts.mapM fun draft => adminGate.serve (some "key") (.createItem draft)) st₁)) ∧
      ∃ st', outcome (adminGate.serve (some "key") (.createItems refused)) st₁ =
        (.error (.listNotFound 7), st') ∧ st₁.Unwritten st' := by
  intro st st₁ drafts batch refused
  have hexists : ∀ {st₂ : State} {draft : ItemDraft}, (Items.verdict ⟨.admin, 1⟩ st₂ draft).isOk →
      ∃ item, Items.verdict ⟨.admin, 1⟩ st₂ draft = .ok item := by
    intro st₂ draft h
    cases hverdict : Items.verdict ⟨.admin, 1⟩ st₂ draft with
    | ok item => exact ⟨item, rfl⟩
    | error e => rw [hverdict] at h; cases h
  have hmade : (outcome (Items.createAll ⟨.admin, 1⟩ drafts)
      (st.counted (.createItems drafts))).1 = .ok [2, 3, 4] := by decide +kernel
  have hstart : ∀ draft ∈ drafts, (Items.verdict ⟨.admin, 1⟩ st draft).isOk := by decide +kernel
  have hdrafts : ∀ draft ∈ drafts, (Items.verdict ⟨.admin, 1⟩ st₁ draft).isOk := by
    decide +kernel
  have hbefore : ∀ draft ∈ [{ listId := 1, value := "10.0.0.1" }],
      (Items.verdict ⟨.admin, 1⟩ st₁ draft).isOk := by
    decide +kernel
  have hrefused : Items.verdict ⟨.admin, 1⟩ st₁ { listId := 7, value := "10.0.0.2" } =
      .error (.listNotFound 7) := by
    decide +kernel
  have hknown : adminGate.authenticate (some "key") = .ok ⟨.admin, 1⟩ := rfl
  refine ⟨(batch_refines_singles hknown rfl drafts st).1 fun draft hd => hexists (hstart draft hd),
    ?_, by decide +kernel,
    (batch_refines_singles hknown rfl drafts st₁).1 fun draft hd => hexists (hdrafts draft hd),
    (batch_refines_singles hknown rfl refused st₁).2 _ _ _ _ rfl
      (fun draft hd => hexists (hbefore draft hd)) hrefused⟩
  rw [Gate.reply_serve hknown, Call.run, outcome_map, hmade]
  rfl

end FirewallLists
