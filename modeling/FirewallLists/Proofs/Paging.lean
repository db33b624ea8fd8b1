import FirewallLists.Proofs.Cleanup
import FirewallLists.Proofs.Tenant.Shown
import FirewallLists.Config.Problem

/-
  Counting what a filter finds and reading it page by page. What a filter asks of an item is said by
  `ListFilter.Finds` and `SearchFilter.Finds`. A count and its listing start with the same rows
  (`Contents.listed`, `Search.found`), which are found exactly if the caller is answered
  (`Contents.answers_iff`, `Search.answers_iff`). So both tell of the same items, and the pages put
  together are all of them (`Gate.lists_of_run`, `listings_agree`). For a search a count may be
  answered where a page is not, and the other way, as they do not take the same values nor try the
  keyword on the same rows (`Search.refuses`). The items of a list are neither counted nor listed by
  a keyword that is too long to look for (`listing_refused_for_long_keyword`).
-/

namespace FirewallLists

open ServiceM Text

/-! ## What a filter asks of an item -/

/-- The item is an active one of the list, and it has the texts that the filter asks for. -/
structure ListFilter.Finds (f : ListFilter) (now : Int) (r : ItemRow) : Prop where
  list : r.listId = f.listId
  active : r.isActive now
  keyword : f.keyword = "" ∨ ∃ text ∈ [r.value, r.ipFrom, r.ipTo, r.reason],
    Like.isMatch (Like.containing f.keyword) text
  ipFrom : f.ipFrom = "" ∨ r.ipFrom = f.ipFrom
  ipTo : f.ipTo = "" ∨ r.ipTo = f.ipTo
  eventLevel : f.eventLevel = "" ∨ r.eventLevel = f.eventLevel

/-- The item is an active one, and it is, or its list is, what the filter asks for. An item whose
list is not there has no type of list, and its list is not for everybody. -/
structure SearchFilter.Finds (f : SearchFilter) (s : Store) (now : Int) (r : ItemRow) : Prop where
  active : r.isActive now
  keyword : f.keyword = "" ∨ ∃ text ∈ [r.value, r.reason],
    Like.isMatch (Like.containing f.keyword) text
  address : ∀ a, f.address = some a → r.covers a
  unread : f.unreadOnly → r.isRead = 0
  eventLevel : f.eventLevel = "" ∨ r.eventLevel = f.eventLevel
  listType : ∀ t, f.listType = some t →
    ∃ list ∈ s.lists.rows, list.id = r.listId ∧ list.type = t.name
  global : f.globalOnly →
    ∃ list ∈ s.lists.rows, list.id = r.listId ∧ list.isPublic = 1 ∧ list.isGlobal = 1

theorem mentions_iff {keyword : String} {texts : List String} : mentions keyword texts ↔
    keyword = "" ∨ ∃ text ∈ texts, Like.isMatch (Like.containing keyword) text := by
  rw [mentions, Bool.or_eq_true, beq_iff_eq, List.any_eq_true]

theorem equalsIfGiven_iff {wanted text : String} :
    equalsIfGiven wanted text ↔ wanted = "" ∨ text = wanted := by
  rw [equalsIfGiven, Bool.or_eq_true, beq_iff_eq, beq_iff_eq]

theorem ListFilter.finds_iff {f : ListFilter} {now : Int} {r : ItemRow} :
    f.Finds now r ↔ f.concerns now r ∧ f.accepts r := by
  simp only [concerns, accepts, Bool.and_eq_true, beq_iff_eq, mentions_iff, equalsIfGiven_iff]
  constructor
  · intro h
    exact ⟨⟨h.list, h.active⟩, ⟨⟨h.keyword, h.ipFrom⟩, h.ipTo⟩, h.eventLevel⟩
  · rintro ⟨⟨hlist, hactive⟩, ⟨⟨hkeyword, hfrom⟩, hto⟩, hlevel⟩
    exact ⟨hlist, hactive, hkeyword, hfrom, hto, hlevel⟩

/-- The list of an item is the one row with its id. -/
theorem Store.Ordered.any_list_iff {s : Store} (hs : s.Ordered) (id : Int) (p : ListRow → Bool) :
    (s.lists.find? id).any p ↔ ∃ list ∈ s.lists.rows, list.id = id ∧ p list := by
  rw [Option.any_eq_true]
  simp only [hs.lists.find?_eq_some, ListRow.identified, and_assoc]

instance (f : ListFilter) (now : Int) (r : ItemRow) : Decidable (f.Finds now r) :=
  decidable_of_iff _ ListFilter.finds_iff.symm

theorem SearchFilter.finds_iff {f : SearchFilter} {s : Store} (hs : s.Ordered) {now : Int}
    {r : ItemRow} :
    f.Finds s now r ↔ r.isActive now ∧ f.accepts r (s.lists.find? r.listId) := by
  have hif : ∀ (b : Bool) (P : Prop), (b = false ∨ P) ↔ (b → P) := by
    intro b P
    cases b <;> simp
  simp only [accepts, Bool.and_eq_true, mentions_iff, equalsIfGiven_iff, Option.all_eq_true,
    Bool.or_eq_true, Bool.not_eq_true', hs.any_list_iff, beq_iff_eq, hif]
  constructor
  · intro h
    exact ⟨h.active, ⟨⟨⟨⟨h.keyword, h.address⟩, h.unread⟩, h.eventLevel⟩, h.listType⟩, h.global⟩
  · rintro ⟨hactive, ⟨⟨⟨⟨hkeyword, haddress⟩, hunread⟩, hlevel⟩, htype⟩, hglobal⟩
    exact ⟨hactive, hkeyword, haddress, hunread, hlevel, htype, hglobal⟩

instance (f : SearchFilter) (s : Store) (now : Int) (r : ItemRow) : Decidable (f.Finds s now r) :=
  have : Decidable (∀ a, f.address = some a → r.covers a) :=
    inferInstanceAs (Decidable (∀ a ∈ f.address, r.covers a))
  have : Decidable (∀ t, f.listType = some t →
      ∃ list ∈ s.lists.rows, list.id = r.listId ∧ list.type = t.name) :=
    inferInstanceAs (Decidable (∀ t ∈ f.listType, _))
  decidable_of_iff (r.isActive now ∧ (f.keyword = "" ∨ ∃ text ∈ [r.value, r.reason],
      Like.isMatch (Like.containing f.keyword) text) ∧ (∀ a, f.address = some a → r.covers a) ∧
      (f.unreadOnly → r.isRead = 0) ∧ (f.eventLevel = "" ∨ r.eventLevel = f.eventLevel) ∧
      (∀ t, f.listType = some t →
        ∃ list ∈ s.lists.rows, list.id = r.listId ∧ list.type = t.name) ∧
      (f.globalOnly →
        ∃ list ∈ s.lists.rows, list.id = r.listId ∧ list.isPublic = 1 ∧ list.isGlobal = 1))
    ⟨fun ⟨hactive, hkeyword, haddress, hunread, hlevel, htype, hglobal⟩ =>
        ⟨hactive, hkeyword, haddress, hunread, hlevel, htype, hglobal⟩,
      fun h => ⟨h.active, h.keyword, h.address, h.unread, h.eventLevel, h.listType, h.global⟩⟩

/-! ## What is found in one list -/

namespace Contents

/-- The rows that are found in a list. -/
def listed (caller : Caller) (filter : ListFilter) : ServiceM (List ItemRow) := do
  require caller [.admin, .user]
  Ownership.checkCallerList caller filter.listId
  let time ← now
  query (·.filterList filter time)

theorem countInList_eq (caller : Caller) (filter : ListFilter) :
    countInList caller filter = List.length <$> listed caller filter := by
  unfold countInList listed
  simp only [map_bind, map_query]
  rfl

theorem listInList_eq (cfg : Settings) (caller : Caller) (filter : ListFilter)
    (offset size : Int) : listInList cfg caller filter offset size =
      listed caller filter >>= fun rows => do
        let items ← ofStorage ((page offset (cfg.pageSize size) rows).mapM (·.toItem))
        let st ← get
        return items.map (view st) := by
  unfold listInList listed
  simp only [bind_assoc]
  refine bind_congr fun _ => bind_congr fun _ => bind_congr fun time => ?_
  rw [← bind_assoc, query_bind]
  rfl

theorem looks_listed (caller : Caller) (filter : ListFilter) : Looks (listed caller filter) :=
  (looks_require _ _).bind fun _ => (Ownership.looks_checkCallerList _ _).bind fun _ =>
    looks_now.bind fun _ => looks_query _

/-- The same is found in the same tables, if all around them is alike. -/
theorem same_listed {st st' : State} (halike : st.Alike st') (hstore : st'.store = st.store)
    (caller : Caller) (filter : ListFilter) : Same (listed caller filter) st st' := by
  refine Same.bind (looks_require _ _) (same_ofExcept _) fun _ _ => ?_
  refine Same.bind (Ownership.looks_checkCallerList _ _) (halike.same_checkCallerList _ _) ?_
  exact fun _ _ => Same.bind looks_now halike.same_now fun time _ =>
    halike.same_query (hstore ▸ rfl)

theorem listed_eq_ok {st st' : State} {caller : Caller} {filter : ListFilter}
    {rows : List ItemRow} (h : outcome (listed caller filter) st = (.ok rows, st')) :
    caller.MayRevise st filter.listId ∧ st.isOpen ∧
      st.store.filterList filter st.now = .ok rows := by
  obtain ⟨_, hrequire, h⟩ := (looks_require _ _).bind_eq_ok h
  obtain ⟨_, hcheck, h⟩ := (Ownership.looks_checkCallerList _ _).bind_eq_ok h
  obtain ⟨time, htime, h⟩ := looks_now.bind_eq_ok h
  cases htime
  obtain ⟨-, hopen, hrows⟩ := outcome_query_eq_ok.mp h
  exact ⟨⟨require_of_outcome hrequire, hcheck⟩, hopen, hrows⟩

/-- The caller may look into the list, and the texts of its items can be looked into. -/
structure Answers (st : State) (caller : Caller) (filter : ListFilter) : Prop where
  isOpen : st.isOpen
  may : caller.MayRevise st filter.listId
  keyword : isEvaluable filter.keyword ∨
    ∀ r ∈ st.store.items.rows, r.listId = filter.listId → ¬r.isActive st.now

/-- Rows are found exactly if the caller is answered. -/
theorem answers_iff {st : State} {caller : Caller} {filter : ListFilter} :
    Answers st caller filter ↔ ∃ rows, outcome (listed caller filter) st = (.ok rows, st) := by
  constructor
  · intro h
    obtain ⟨rows, hrows⟩ := Store.exists_filterList_iff.mpr h.keyword
    refine ⟨rows, ?_⟩
    rw [listed, outcome_bind_of_ok h.may.outcome_require, outcome_bind_of_ok h.may.list,
      outcome_bind_of_ok (outcome_now st), outcome_query_of_isOpen h.isOpen, hrows]
    rfl
  · rintro ⟨rows, h⟩
    obtain ⟨hmay, hopen, hrows⟩ := listed_eq_ok h
    exact ⟨hopen, hmay, Store.exists_filterList_iff.mp ⟨rows, hrows⟩⟩

/-- Whoever is answered is told of what the filter finds, the last row first. -/
theorem Answers.outcome_listed {st : State} {caller : Caller} {filter : ListFilter}
    (h : Answers st caller filter) : outcome (listed caller filter) st =
      (.ok (st.store.items.rows.filter fun r => filter.Finds st.now r).reverse, st) := by
  obtain ⟨rows, hlisted⟩ := answers_iff.mp h
  obtain ⟨-, -, hrows⟩ := listed_eq_ok hlisted
  have hfinds : ∀ r, (filter.accepts r && filter.concerns st.now r) =
      decide (filter.Finds st.now r) := by
    intro r
    rw [Bool.eq_iff_iff, decide_eq_true_iff, ListFilter.finds_iff, Bool.and_eq_true, and_comm]
  simp only [hlisted, Store.filterList_eq_ok hrows, hfinds]

end Contents

/-! ## What is found in all lists -/

namespace Search

/-- The tenant whose lists are searched, if not all are. -/
def tenant? (caller : Caller) (q : SearchQuery) : Option Int :=
  caller.userId?.or (if 0 < q.userId then some q.userId else none)

/-- The list is searched. -/
def Covers (s : Store) (caller : Caller) (q : SearchQuery) (listId : Int) : Prop :=
  ∀ userId, tenant? caller q = some userId → s.Owns userId listId

instance (s : Store) (caller : Caller) (q : SearchQuery) (listId : Int) :
    Decidable (Covers s caller q listId) :=
  inferInstanceAs (Decidable (∀ userId ∈ tenant? caller q, s.Owns userId listId))

/-- The caller may search, the lists to search can be told, and what the query asks for can be
searched for in them. -/
structure Answers (st : State) (kind : SearchKind) (caller : Caller) (q : SearchQuery) : Prop where
  isOpen : st.isOpen
  may : caller.require [.admin, .user] = .ok ()
  lists : st.CanTell (tenant? caller q)
  search : ∃ filter, q.filter = .ok filter ∧
    st.store.CanSearch kind (st.store.scopeOf (tenant? caller q)) filter st.now

theorem outcome_scope_of_require {caller : Caller} (h : caller.require [.admin, .user] = .ok ())
    (q : SearchQuery) (st : State) :
    outcome (Search.scope caller q) st = outcome (Ownership.scopeOf (tenant? caller q)) st := by
  rw [Search.scope, outcome_bind_of_ok (outcome_require_of_ok h st)]
  rfl

section

variable {st : State} {kind : SearchKind} {caller : Caller} {q : SearchQuery} {scope : Scope}
  {filter : SearchFilter} {rows : List ItemRow}

/-- The scope of a search is of the tenant whose lists are searched. -/
theorem scope_eq_ok (h : outcome (Search.scope caller q) st = (.ok scope, st)) :
    caller.require [.admin, .user] = .ok () ∧ st.CanTell (tenant? caller q) ∧
      scope = st.store.scopeOf (tenant? caller q) := by
  obtain ⟨_, hrequire, -⟩ := (looks_require _ _).bind_eq_ok h
  have hmay := require_of_outcome hrequire
  rw [outcome_scope_of_require hmay] at h
  exact ⟨hmay, Ownership.scopeOf_eq_ok h⟩

theorem admits_iff_covers (s : Store) (caller : Caller) (q : SearchQuery) (listId : Int) :
    (s.scopeOf (tenant? caller q)).admits listId ↔ Covers s caller q listId :=
  Store.admits_scopeOf_iff

/-- A search comes to what the tables answer, or it fails before it looks into them, whatever is
asked of it. -/
theorem outcome_found_cases (st : State) (caller : Caller) (q : SearchQuery) :
    (∃ e, ∀ kind, outcome (found kind caller q) st = (.error e, st)) ∨
    (st.isOpen ∧ caller.require [.admin, .user] = .ok () ∧ st.CanTell (tenant? caller q) ∧
      ∃ filter, q.filter = .ok filter ∧ ∀ kind, outcome (found kind caller q) st =
        ((st.store.search kind (st.store.scopeOf (tenant? caller q)) filter st.now).mapError
          .storage, st)) := by
  rcases hfilter : q.filter with e | filter
  · refine Or.inl ⟨e, fun kind => ?_⟩
    rw [found, hfilter]
    exact outcome_bind_of_error (outcome_ofExcept _ st)
  rcases hscope : (outcome (Search.scope caller q) st).1 with e | scope
  · refine Or.inl ⟨e, fun kind => ?_⟩
    rw [found, hfilter, outcome_bind_of_ok (outcome_ofExcept _ st)]
    exact outcome_bind_of_error (Prod.ext hscope (looks_scope _ _ st))
  have hscope' : outcome (Search.scope caller q) st = (.ok scope, st) :=
    Prod.ext hscope (looks_scope _ _ st)
  by_cases hopen : st.isOpen
  · obtain ⟨hmay, htell, rfl⟩ := scope_eq_ok hscope'
    exact Or.inr ⟨hopen, hmay, htell, filter, rfl, outcome_found_eq hfilter hscope' hopen⟩
  · refine Or.inl ⟨.storage .closed, fun kind => ?_⟩
    rw [found, hfilter, outcome_bind_of_ok (outcome_ofExcept _ st), outcome_bind_of_ok hscope',
      outcome_bind_of_ok (outcome_now st)]
    exact outcome_query_of_closed hopen _

/-- Whoever is answered is answered from the scope of the tenant. -/
theorem found_of_answers (h : Answers st kind caller q) : ∃ filter rows, q.filter = .ok filter ∧
    st.store.search kind (st.store.scopeOf (tenant? caller q)) filter st.now = .ok rows ∧
    outcome (found kind caller q) st = (.ok rows, st) := by
  obtain ⟨filter, hfilter, hcan⟩ := h.search
  obtain ⟨rows, hrows⟩ := Store.exists_search_iff.mpr hcan
  have hscope : outcome (Search.scope caller q) st =
      (.ok (st.store.scopeOf (tenant? caller q)), st) := by
    rw [outcome_scope_of_require h.may, Ownership.outcome_scopeOf h.lists]
  exact ⟨filter, rows, hfilter, hrows, outcome_found hfilter hscope h.isOpen hrows⟩

/-- Rows are found exactly if the caller is answered. -/
theorem answers_iff :
    Answers st kind caller q ↔ ∃ rows, outcome (found kind caller q) st = (.ok rows, st) := by
  constructor
  · intro h
    obtain ⟨_, rows, -, -, hfound⟩ := found_of_answers h
    exact ⟨rows, hfound⟩
  · rintro ⟨rows, h⟩
    obtain ⟨filter, scope, hfilter, hscope, hopen, hrows⟩ := found_eq_ok h
    obtain ⟨hmay, htell, rfl⟩ := scope_eq_ok hscope
    exact ⟨hopen, hmay, htell, filter, hfilter, Store.exists_search_iff.mp ⟨rows, hrows⟩⟩

/-- Who is not answered is told why before the tables are looked into, whatever is asked, or else by
the tables: the search takes too many values, or else its keyword is too long. -/
theorem refused_cases (st : State) (caller : Caller) (q : SearchQuery) :
    (∃ e, ∀ kind, outcome (found kind caller q) st = (.error e, st)) ∨
    ∃ filter, q.filter = .ok filter ∧ ∀ kind, ¬Answers st kind caller q → ∃ e,
      outcome (found kind caller q) st = (.error (.storage e), st) ∧
      ((e = .tooManyValues ∧
          ¬filter.values kind (st.store.scopeOf (tenant? caller q)) ≤ maxValues) ∨
        (e = .patternTooLong ∧
          filter.values kind (st.store.scopeOf (tenant? caller q)) ≤ maxValues ∧
          ¬isEvaluable filter.keyword)) := by
  rcases outcome_found_cases st caller q with
    hfails | ⟨hopen, hmay, htell, filter, hfilter, hfound⟩
  · exact Or.inl hfails
  · refine Or.inr ⟨filter, hfilter, fun kind hno => ?_⟩
    obtain ⟨e, hrows, he⟩ := Store.search_eq_error fun hcan =>
      hno ⟨hopen, hmay, htell, filter, hfilter, hcan⟩
    refine ⟨e, ?_, he⟩
    rw [hfound, hrows]
    rfl

/-- Whoever is answered though the keyword is too long is told that nothing is found. -/
theorem Answers.outcome_found_of_long (h : Answers st kind caller q)
    (hfilter : q.filter = .ok filter) (hlong : ¬isEvaluable filter.keyword) :
    outcome (found kind caller q) st = (.ok [], st) := by
  obtain ⟨other, rows, hother, hrows, hfound⟩ := found_of_answers h
  cases hfilter.symm.trans hother
  rw [hfound, Store.search_eq_nil hlong hrows]

end

end Search

/-- The item is in a list that is searched, and it is what the query asks for. -/
def SearchQuery.Finds (q : SearchQuery) (st : State) (caller : Caller) (r : ItemRow) : Prop :=
  ∃ filter, q.filter = .ok filter ∧ filter.Finds st.store st.now r ∧
    Search.Covers st.store caller q r.listId

theorem SearchQuery.finds_iff {q : SearchQuery} {filter : SearchFilter}
    (hfilter : q.filter = .ok filter) {st : State} {caller : Caller} {r : ItemRow} :
    q.Finds st caller r ↔
      filter.Finds st.store st.now r ∧ Search.Covers st.store caller q r.listId := by
  constructor
  · rintro ⟨other, hother, hfinds⟩
    cases hfilter.symm.trans hother
    exact hfinds
  · exact fun hfinds => ⟨filter, hfilter, hfinds⟩

instance (q : SearchQuery) (st : State) (caller : Caller) (r : ItemRow) :
    Decidable (q.Finds st caller r) :=
  match hfilter : q.filter with
  | .ok filter =>
    decidable_of_iff (filter.Finds st.store st.now r ∧ Search.Covers st.store caller q r.listId)
      (SearchQuery.finds_iff hfilter).symm
  | .error _ => .isFalse fun ⟨_, hok, _⟩ => by cases hfilter.symm.trans hok

/-- Whoever is answered is told of what the query finds, the last row first, whatever is asked of
the search. -/
theorem Search.Answers.outcome_found {st : State} (hs : st.store.Ordered) {kind : SearchKind}
    {caller : Caller} {q : SearchQuery} (h : Answers st kind caller q) :
    outcome (found kind caller q) st =
      (.ok (st.store.items.rows.filter fun r => q.Finds st caller r).reverse, st) := by
  obtain ⟨filter, rows, hfilter, hrows, hfound⟩ := found_of_answers h
  have hfinds : ∀ r, (filter.accepts r (st.store.lists.find? r.listId) &&
      (r.isActive st.now && (st.store.scopeOf (tenant? caller q)).admits r.listId)) =
        decide (q.Finds st caller r) := by
    intro r
    rw [Bool.eq_iff_iff, decide_eq_true_iff, SearchQuery.finds_iff hfilter,
      SearchFilter.finds_iff hs, ← admits_iff_covers]
    simp only [Bool.and_eq_true]
    tauto
  simp only [hfound, Store.search_eq_ok hrows, hfinds]

/-! ## Counting and reading page by page -/

theorem Config.pageProblems_eq_nil {s : Settings} (h : pageProblems s = []) :
    0 < s.defaultPageSize ∧ s.defaultPageSize ≤ s.maxPageSize := by
  unfold pageProblems at h
  split at h
  · cases h
  · split at h
    · cases h
    · omega

theorem Settings.pageSize_bounds {s : Settings} (h : Config.pageProblems s = []) (size : Int) :
    0 < s.pageSize size ∧ s.pageSize size ≤ s.maxPageSize := by
  have := Config.pageProblems_eq_nil h
  unfold pageSize
  split <;> omega

/-- Ask for so many pages, each a size behind the one before it. -/
def Gate.readPages (gate : Gate) (token : Option String) (listing : Int → Call) (size : Int)
    (n : Nat) : ServiceM (List Reply) :=
  (List.range n).mapM fun k : Nat => gate.serve token (listing (k * size))

/-- What a caller is told who reads items in pages of a size: the items with these ids in their
order. -/
structure Gate.Lists (gate : Gate) (token : Option String) (st : State) (listing : Int → Call)
    (size : Int) (ids : List Int) : Prop where
  pages : ∀ n : Nat, ids.length ≤ n * size → ∃ replies st',
    outcome (gate.readPages token listing size n) st = (.ok replies, st') ∧
      replies.flatMap Reply.shown = ids
  bounded : ∀ offset, ∃ reply st',
    outcome (gate.serve token (listing offset)) st = (.ok reply, st') ∧
      reply.shown.length ≤ gate.settings.maxPageSize

theorem flatMap_of_forall₂ {α β γ : Type} {f : α → List γ} {g : β → List γ} {xs : List α}
    {ys : List β} (h : List.Forall₂ (fun x y => g y = f x) xs ys) :
    ys.flatMap g = xs.flatMap f := by
  induction h with
  | nil => rfl
  | cons hxy _ ih => rw [List.flatMap_cons, List.flatMap_cons, hxy, ih]

/-- If every page is a page of what is found, then reading page by page tells of what is found. -/
theorem Gate.lists_of_run {gate : Gate} {token : Option String} {caller : Caller} {st : State}
    (hauth : gate.authenticate token = .ok caller)
    (hvalid : Config.pageProblems gate.settings = []) {listing : Int → Call} {size : Int}
    {rows : List ItemRow}
    (hrun : ∀ (counters : Counters) (offset : Int), ∃ reply,
      outcome ((listing offset).run gate.settings caller) { st with counters := counters } =
        (.ok reply, { st with counters := counters }) ∧
      reply.shown = (page offset (gate.settings.pageSize size) rows).map (·.id)) :
    gate.Lists token st listing (gate.settings.pageSize size) (rows.map (·.id)) := by
  obtain ⟨hpos, hle⟩ := Settings.pageSize_bounds hvalid size
  -- a call changes nothing but the counters, on which no page depends
  have hserve : ∀ (offset : Int) (st₁ : State),
      (∃ counters, st₁ = { st with counters := counters }) →
      ∃ reply st₂, outcome (gate.serve token (listing offset)) st₁ = (.ok reply, st₂) ∧
        (∃ counters, st₂ = { st with counters := counters }) ∧
        reply.shown = page offset (gate.settings.pageSize size) (rows.map (·.id)) := by
    rintro offset st₁ ⟨counters, rfl⟩
    obtain ⟨reply, hreply, hshown⟩ :=
      hrun (State.counted { st with counters := counters } (listing offset)).counters offset
    exact ⟨reply, _, serve_of_ok hauth hreply, ⟨_, rfl⟩, hshown.trans (page_map _ _ _ _).symm⟩
  have hst : ∃ counters, st = { st with counters := counters } := ⟨st.counters, rfl⟩
  constructor
  case pages =>
    intro n hn
    obtain ⟨replies, st', hreplies, -, hshown⟩ := outcome_mapM_of_ok
      (fun k : Nat => hserve (k * gate.settings.pageSize size)) (List.range n) hst
    refine ⟨replies, st', hreplies, ?_⟩
    rw [flatMap_of_forall₂ hshown, flatMap_page hpos]
    rw [← Int.toNat_of_nonneg (Int.le_of_lt hpos), ← Int.natCast_mul] at hn
    exact List.take_of_length_le (Int.ofNat_le.mp hn)
  case bounded =>
    intro offset
    obtain ⟨reply, st', hreply, -, hshown⟩ := hserve offset st hst
    refine ⟨reply, st', hreply, ?_⟩
    rw [hshown]
    exact Int.le_trans (length_page_le_size hpos _ _) hle

/-- A count and a listing agree: there is one list of the items that are asked for, the newest
first, of which the count tells whoever is answered it, and the pages whoever is answered these. A
page from before the start is the first one. -/
structure Gate.Agree (gate : Gate) (token : Option String) (st : State) (count : Call)
    (listing : Int → Call) (size : Int) (counted listed : Prop) (finds : ItemRow → Prop) :
    Prop where
  answered : ∃ ids : List Int, ids.Pairwise (· > ·) ∧
    (∀ id, id ∈ ids ↔ ∃ r ∈ st.store.items.rows, r.id = id ∧ finds r) ∧
    (counted → (outcome (gate.serve token count) st).1 = .ok (.count ids.length)) ∧
    (listed → gate.Lists token st listing size ids)
  negative : ∀ offset < 0, outcome (gate.serve token (listing offset)) st =
    outcome (gate.serve token (listing 0)) st

/-- Why a count and a listing are refused: both for the same reason, unless it is that the keyword
is too long or that there are too many values. Then they may be refused for these two reasons, or
one of them may be answered: with nothing, if the other is refused for its keyword. -/
structure Gate.Refuses (gate : Gate) (token : Option String) (st : State) (count : Call)
    (listing : Int → Call) (counted listed : Prop) : Prop where
  both : ¬counted → ¬listed → ∃ e e', (outcome (gate.serve token count) st).1 = .error e ∧
    (∀ offset, (outcome (gate.serve token (listing offset)) st).1 = .error e') ∧
    (e' = e ∨ e = .storage .patternTooLong ∧ e' = .storage .tooManyValues)
  onlyCounted : counted → ¬listed → ∃ e, (e = .tooManyValues ∨
      e = .patternTooLong ∧ (outcome (gate.serve token count) st).1 = .ok (.count 0)) ∧
    ∀ offset, (outcome (gate.serve token (listing offset)) st).1 = .error (.storage e)
  onlyListed : listed → ¬counted →
    (outcome (gate.serve token count) st).1 = .error (.storage .patternTooLong) ∧
    ∀ offset, (outcome (gate.serve token (listing offset)) st).1.map Reply.shown = .ok []

section

variable {gate : Gate} {token : Option String} {caller : Caller}
  (hauth : gate.authenticate token = .ok caller)

include hauth

/-- A count of the items of a list is answered with the number of rows that are found. -/
theorem Gate.reply_countInList (filter : ListFilter) (st : State) :
    (outcome (gate.serve token (.countInList filter)) st).1 =
      (outcome (Contents.listed caller filter) st).1.map fun rows => .count rows.length := by
  have hsame := Contents.same_listed (st.alike_counted (.countInList filter)) rfl caller filter
  rw [reply_serve hauth, Call.run, Contents.countInList_eq, outcome_map, outcome_map, hsame]
  rcases (outcome (Contents.listed caller filter) st).1 with e | rows <;> rfl

theorem Gate.reply_countAll (q : SearchQuery) (st : State) :
    (outcome (gate.serve token (.countAll q)) st).1 =
      (outcome (Search.found .count caller q) st).1.map fun rows => .count rows.length := by
  rw [reply_serve hauth, Call.run, Search.countAll_eq, outcome_map, outcome_map,
    Search.outcome_found_counted]
  rcases (outcome (Search.found .count caller q) st).1 with e | rows <;> rfl

/-- Calls that are counted alike and do the same come to the same. -/
theorem Gate.serve_congr {call call' : Call} {st : State} (hmethod : call'.method = call.method)
    (hrun : call'.run gate.settings caller = call.run gate.settings caller) :
    outcome (gate.serve token call') st = outcome (gate.serve token call) st := by
  rw [outcome_serve, outcome_serve, outcome_authorized hauth, outcome_authorized hauth, hrun]
  simp only [State.counted, State.failed, hmethod]

/-- Where no rows can be found in a list there is no page of it. -/
theorem Gate.reply_listInList_of_error {filter : ListFilter} {st : State} {e : ServiceError}
    (hlisted : (outcome (Contents.listed caller filter) st).1 = .error e) (offset size : Int) :
    (outcome (gate.serve token (.listInList filter offset size)) st).1 = .error e := by
  have hsame := Contents.same_listed (st.alike_counted (.listInList filter offset size)) rfl caller
    filter
  rw [Same, hlisted] at hsame
  rw [reply_serve hauth, Call.run, Contents.listInList_eq, outcome_map,
    outcome_bind_of_error (Prod.ext hsame rfl)]
  rfl

/-! ### Who is answered, and who is refused -/

theorem Contents.Answers.reply_countInList {filter : ListFilter} {st : State}
    (h : Answers st caller filter) : (outcome (gate.serve token (.countInList filter)) st).1 =
      .ok (.count (st.store.items.rows.filter fun r => filter.Finds st.now r).length) := by
  rw [Gate.reply_countInList hauth, h.outcome_listed, Except.map, List.length_reverse]

theorem Contents.exists_refused {filter : ListFilter} {st : State}
    (h : ¬Answers st caller filter) :
    ∃ e, (outcome (gate.serve token (.countInList filter)) st).1 = .error e ∧
      ∀ offset size,
        (outcome (gate.serve token (.listInList filter offset size)) st).1 = .error e := by
  obtain ⟨e, hlisted⟩ := (looks_listed caller filter).exists_eq_error (mt answers_iff.mpr h)
  refine ⟨e, ?_, Gate.reply_listInList_of_error hauth (by rw [hlisted])⟩
  rw [Gate.reply_countInList hauth, hlisted]
  rfl

theorem Search.Answers.reply_countAll {q : SearchQuery} {st : State} (hs : st.store.Ordered)
    (h : Answers st .count caller q) : (outcome (gate.serve token (.countAll q)) st).1 =
      .ok (.count (st.store.items.rows.filter fun r => q.Finds st caller r).length) := by
  rw [Gate.reply_countAll hauth, h.outcome_found hs, Except.map, List.length_reverse]

theorem Search.Answers.reply_searchIds {q : SearchQuery} {st : State} (hs : st.store.Ordered)
    (h : Answers st .page caller q) (offset size : Int) :
    (outcome (gate.serve token (.searchIds q offset size)) st).1 =
      .ok (.itemIds (page offset (gate.settings.pageSize size)
        ((st.store.items.rows.filter fun r => q.Finds st caller r).reverse.map (·.id)))) := by
  rw [Gate.reply_searchIds hauth, h.outcome_found hs, Except.map, page_map]

theorem Search.reply_countAll_of_error {q : SearchQuery} {st : State} {e : ServiceError}
    (h : outcome (found .count caller q) st = (.error e, st)) :
    (outcome (gate.serve token (.countAll q)) st).1 = .error e := by
  rw [Gate.reply_countAll hauth, h]
  rfl

theorem Search.reply_searchIds_of_error {q : SearchQuery} {st : State} {e : ServiceError}
    (h : outcome (found .page caller q) st = (.error e, st)) (offset size : Int) :
    (outcome (gate.serve token (.searchIds q offset size)) st).1 = .error e := by
  rw [Gate.reply_searchIds hauth, h]
  rfl

theorem Search.exists_count_refused {q : SearchQuery} {st : State}
    (h : ¬Answers st .count caller q) :
    ∃ e, (outcome (gate.serve token (.countAll q)) st).1 = .error e := by
  obtain ⟨e, hfound⟩ := (looks_found .count caller q).exists_eq_error (mt answers_iff.mpr h)
  exact ⟨e, reply_countAll_of_error hauth hfound⟩

theorem Search.exists_page_refused {q : SearchQuery} {st : State}
    (h : ¬Answers st .page caller q) : ∃ e, ∀ offset size,
      (outcome (gate.serve token (.searchIds q offset size)) st).1 = .error e := by
  obtain ⟨e, hfound⟩ := (looks_found .page caller q).exists_eq_error (mt answers_iff.mpr h)
  exact ⟨e, reply_searchIds_of_error hauth hfound⟩

/-- A count and a page are refused for the same reason, unless this depends on what they take. -/
theorem Search.refuses (q : SearchQuery) (st : State) (size : Int) :
    gate.Refuses token st (.countAll q) (.searchIds q · size) (Answers st .count caller q)
      (Answers st .page caller q) := by
  rcases refused_cases st caller q with ⟨e, hfails⟩ | ⟨filter, hfilter, hrefused⟩
  · have hno : ∀ kind, ¬Answers st kind caller q := by
      intro kind hanswers
      obtain ⟨rows, hrows⟩ := answers_iff.mp hanswers
      cases (hfails kind).symm.trans hrows
    exact ⟨fun _ _ => ⟨e, e, reply_countAll_of_error hauth (hfails .count),
      fun offset => reply_searchIds_of_error hauth (hfails .page) offset size, Or.inl rfl⟩,
      fun hcounted => absurd hcounted (hno .count), fun hlisted => absurd hlisted (hno .page)⟩
  · have hpage := Store.values_page filter (st.store.scopeOf (tenant? caller q))
    constructor
    case both =>
      intro hcounted hlisted
      obtain ⟨e, hcount, he⟩ := hrefused .count hcounted
      obtain ⟨e', hids, he'⟩ := hrefused .page hlisted
      refine ⟨_, _, reply_countAll_of_error hauth hcount,
        fun offset => reply_searchIds_of_error hauth hids offset size, ?_⟩
      rcases he with ⟨rfl, hmany⟩ | ⟨rfl, hfew, -⟩ <;> rcases he' with ⟨rfl, -⟩ | ⟨rfl, hfew', -⟩
      · exact Or.inl rfl
      · omega
      · exact Or.inr ⟨rfl, rfl⟩
      · exact Or.inl rfl
    case onlyCounted =>
      intro hcounted hlisted
      obtain ⟨e, hids, he⟩ := hrefused .page hlisted
      refine ⟨e, he.imp And.left fun ⟨hkeyword, _, hlong⟩ => ⟨hkeyword, ?_⟩,
        fun offset => reply_searchIds_of_error hauth hids offset size⟩
      rw [Gate.reply_countAll hauth, hcounted.outcome_found_of_long hfilter hlong]
      rfl
    case onlyListed =>
      intro hlisted hcounted
      obtain ⟨e, hcount, he⟩ := hrefused .count hcounted
      obtain ⟨other, hother, hcan⟩ := hlisted.search
      cases hfilter.symm.trans hother
      have hfew := hcan.values
      rcases he with ⟨-, hmany⟩ | ⟨rfl, -, hlong⟩
      · omega
      · refine ⟨reply_countAll_of_error hauth hcount, fun offset => ?_⟩
        rw [Gate.reply_searchIds hauth, hlisted.outcome_found_of_long hfilter hlong]
        simp [Except.map, Reply.shown, page]

end

section

variable {st : State} (h : Reachable st) {gate : Gate} {token : Option String} {caller : Caller}
  (hauth : gate.authenticate token = .ok caller)
  (hvalid : Config.pageProblems gate.settings = []) (size : Int)

include h hauth hvalid

theorem Contents.lists_of_listed {filter : ListFilter} {rows : List ItemRow}
    (hlisted : outcome (listed caller filter) st = (.ok rows, st)) :
    gate.Lists token st (.listInList filter · size) (gate.settings.pageSize size)
      (rows.map (·.id)) := by
  obtain ⟨-, -, hrows⟩ := listed_eq_ok hlisted
  obtain ⟨items, hitems⟩ := h.spanned.mapM_toItem fun r hr => ((Store.mem_filterList hrows).mp hr).1
  refine Gate.lists_of_run hauth hvalid fun counters offset => ?_
  have hlisted' := (same_listed (st.alike_counters counters) rfl caller filter).outcome_eq
    (looks_listed caller filter) hlisted
  have hpage := mapM_page hitems offset (gate.settings.pageSize size)
  refine ⟨.itemViews ((page offset (gate.settings.pageSize size) items).map
    (view { st with counters := counters })), ?_, ?_⟩
  · rw [Call.run, outcome_map, listInList_eq, outcome_bind_of_ok hlisted', hpage]
    rfl
  · rw [Reply.shown, List.map_map]
    exact map_of_mapM (fun _ _ hitem => (ItemRow.toItem_eq_ok hitem).1) hpage

theorem Contents.agree (filter : ListFilter) :
    gate.Agree token st (.countInList filter) (.listInList filter · size)
      (gate.settings.pageSize size) (Answers st caller filter) (Answers st caller filter)
      (filter.Finds st.now) where
  answered := by
    refine ⟨_, Store.descending_ids h.ordered.items fun r => filter.Finds st.now r, fun id => ?_,
      fun hanswers => ?_,
      fun hanswers => lists_of_listed h hauth hvalid size hanswers.outcome_listed⟩
    · simp only [List.mem_map, List.mem_reverse, List.mem_filter, decide_eq_true_iff]
      exact exists_congr fun r => by tauto
    · rw [hanswers.reply_countInList hauth, List.length_map, List.length_reverse]
  negative := by
    intro offset hoffset
    have hrun : (Call.listInList filter offset size).run gate.settings caller =
        (Call.listInList filter 0 size).run gate.settings caller := by
      rw [Call.run, Call.run, listInList_eq, listInList_eq]
      simp only [page_of_nonpos (Int.le_of_lt hoffset)]
    exact Gate.serve_congr hauth rfl hrun

omit h in
theorem Search.lists_of_found {q : SearchQuery} {rows : List ItemRow}
    (hfound : outcome (found .page caller q) st = (.ok rows, st)) :
    gate.Lists token st (.searchIds q · size) (gate.settings.pageSize size)
      (rows.map (·.id)) := by
  refine Gate.lists_of_run hauth hvalid fun counters offset => ?_
  have hfound' := (same_found (st.alike_counters counters) rfl .page caller q).outcome_eq
    (looks_found .page caller q) hfound
  refine ⟨.itemIds ((page offset (gate.settings.pageSize size) rows).map (·.id)), ?_, rfl⟩
  rw [Call.run, ids_eq, outcome_map, outcome_map, hfound']
  rfl

theorem Search.agree (q : SearchQuery) :
    gate.Agree token st (.countAll q) (.searchIds q · size) (gate.settings.pageSize size)
      (Answers st .count caller q) (Answers st .page caller q) (q.Finds st caller) where
  answered := by
    refine ⟨_, Store.descending_ids h.ordered.items fun r => q.Finds st caller r, fun id => ?_,
      fun hanswers => ?_,
      fun hanswers => lists_of_found hauth hvalid size (hanswers.outcome_found h.ordered)⟩
    · simp only [List.mem_map, List.mem_reverse, List.mem_filter, decide_eq_true_iff]
      exact exists_congr fun r => by tauto
    · rw [hanswers.reply_countAll hauth h.ordered, List.length_map, List.length_reverse]
  negative := by
    intro offset hoffset
    have hrun : (Call.searchIds q offset size).run gate.settings caller =
        (Call.searchIds q 0 size).run gate.settings caller := by
      rw [Call.run, Call.run, ids_eq, ids_eq]
      simp only [page_of_nonpos (Int.le_of_lt hoffset)]
    exact Gate.serve_congr hauth rfl hrun

end

/-! ## Keywords that are too long -/

/-- A keyword is looked for between two wildcards. -/
theorem isEvaluable_of_long {keyword : String}
    (h : Like.maxPatternSize < keyword.utf8ByteSize + 2) : isEvaluable keyword = false := by
  have hne : keyword ≠ "" := by
    rintro rfl
    exact absurd h (by decide)
  have hpattern : (Like.containing keyword).utf8ByteSize = 1 + keyword.utf8ByteSize + 1 := by
    rw [Like.containing, String.utf8ByteSize_append, String.utf8ByteSize_append]
    rfl
  rw [isEvaluable, beq_eq_false_iff_ne.mpr hne, Bool.false_or, Like.evaluable, hpattern,
    decide_eq_false_iff_not]
  omega

/-- A keyword that cannot be looked for is not looked for where there is an active item. -/
theorem Contents.listed_of_long_keyword {st : State} {caller : Caller} {filter : ListFilter}
    (hopen : st.isOpen) (hmay : caller.MayRevise st filter.listId)
    (hlong : isEvaluable filter.keyword = false) {r : ItemRow} (hr : r ∈ st.store.items.rows)
    (hlist : r.listId = filter.listId) (hactive : r.isActive st.now) :
    outcome (listed caller filter) st = (.error (.storage .patternTooLong), st) := by
  have hmem : r ∈ st.store.items.rows.filter (filter.concerns st.now) :=
    List.mem_filter.mpr ⟨hr, by simp [ListFilter.concerns, hlist, hactive]⟩
  have hrows : st.store.filterList filter st.now = .error .patternTooLong := by
    rw [Store.filterList, hlong, List.isEmpty_eq_false_iff.mpr (List.ne_nil_of_mem hmem)]
    rfl
  rw [listed, outcome_bind_of_ok hmay.outcome_require, outcome_bind_of_ok hmay.list,
    outcome_bind_of_ok (outcome_now st), outcome_query_of_isOpen hopen, hrows]
  rfl

theorem utf8ByteSize_replicate (n : Nat) :
    (String.ofList (List.replicate n 'a')).utf8ByteSize = n := by
  induction n with
  | zero => rfl
  | succ n ih =>
    rw [List.replicate_succ', String.ofList_append, String.utf8ByteSize_append, ih]
    rfl

/-- With the wildcards around it this keyword makes a pattern that is one octet too long. -/
theorem isEvaluable_replicate : isEvaluable (String.ofList (List.replicate 49999 'a')) = false :=
  isEvaluable_of_long (by rw [utf8ByteSize_replicate]; decide)

/-! ## What callers are told -/

/-- In every reachable state and with valid page sizes, counting the items of a list agrees with
reading them page by page, and so does counting what a search finds with searching for ids: of
exactly the active items that the filter asks for both tell whoever they answer. Who is not answered
for a list is refused by both for the same reason. So it is with a search, but for the limits on the
values that it takes and on the keyword, which are not the same for a count and for a page; where the
keyword is too long for one of them the other finds nothing. -/
theorem listings_agree {st : State} (h : Reachable st) {gate : Gate} {token : Option String}
    {caller : Caller} (hauth : gate.authenticate token = .ok caller)
    (hvalid : Config.pageProblems gate.settings = []) (size : Int) :
    (∀ filter : ListFilter,
      gate.Agree token st (.countInList filter) (.listInList filter · size)
        (gate.settings.pageSize size) (Contents.Answers st caller filter)
        (Contents.Answers st caller filter) (filter.Finds st.now) ∧
      (¬Contents.Answers st caller filter → ∃ e,
        (outcome (gate.serve token (.countInList filter)) st).1 = .error e ∧
          ∀ offset, (outcome (gate.serve token (.listInList filter offset size)) st).1 =
            .error e)) ∧
    ∀ q : SearchQuery,
      gate.Agree token st (.countAll q) (.searchIds q · size) (gate.settings.pageSize size)
        (Search.Answers st .count caller q) (Search.Answers st .page caller q)
        (q.Finds st caller) ∧
      gate.Refuses token st (.countAll q) (.searchIds q · size)
        (Search.Answers st .count caller q) (Search.Answers st .page caller q) := by
  refine ⟨fun filter => ⟨Contents.agree h hauth hvalid size filter, fun hno => ?_⟩,
    fun q => ⟨Search.agree h hauth hvalid size q, Search.refuses hauth q st size⟩⟩
  obtain ⟨e, hcount, hlists⟩ := Contents.exists_refused hauth hno
  exact ⟨e, hcount, fun offset => hlists offset size⟩

/-- Of five items three are in the list and mention the keyword, in any case of its letters. -/
theorem listings_agree_of_keyword :
    let st := State.after { now := 0 } (adminCalls [.createList publicBlackList,
      .createList publicBlackList,
      .createItem { listId := 1, value := "10.0.0.1", reason := "ssh scan" },
      .createItem { listId := 1, value := "10.0.0.2", reason := "http" },
      .createItem { listId := 1, value := "10.0.0.3", reason := "SSH" },
      .createItem { listId := 2, value := "10.0.0.4", reason := "ssh" },
      .createItem { listId := 1, value := "10.0.0.5", reason := "again ssh" }])
    let filter : ListFilter := ⟨1, "ssh", "", "", ""⟩
    adminGate.settings.pageSize 2 = 2 ∧
      ∃ ids, (1 ∈ ids ∧ 3 ∈ ids ∧ 5 ∈ ids ∧ 2 ∉ ids ∧ 4 ∉ ids) ∧ ids.Pairwise (· > ·) ∧
        (outcome (adminGate.serve (some "key") (.countInList filter)) st).1 =
          .ok (.count ids.length) ∧
        adminGate.Lists (some "key") st (.listInList filter · 2) 2 ids := by
  intro st filter
  have hreach : Reachable st := reachable_after 0 _
  obtain ⟨hlist, -⟩ := listings_agree hreach (show adminGate.authenticate (some "key") = _ from rfl)
    (by decide) 2
  have hanswers : Contents.Answers st ⟨.admin, 1⟩ filter :=
    ⟨by decide +kernel, .of_admin rfl st 1, Or.inl (by decide)⟩
  obtain ⟨ids, hdescending, hmem, hcount, hlists⟩ := (hlist filter).1.answered
  refine ⟨by decide, ids, ⟨?_, ?_, ?_, ?_, ?_⟩, hdescending, hcount hanswers, hlists hanswers⟩
  · exact (hmem 1).mpr (by decide +kernel)
  · exact (hmem 3).mpr (by decide +kernel)
  · exact (hmem 5).mpr (by decide +kernel)
  · exact (hmem 2).not.mpr (by decide +kernel)
  · exact (hmem 4).not.mpr (by decide +kernel)

/-- A list has one item, and a keyword is one octet too long. Neither is there a count of the items
of the list that mention it, nor any page of them. -/
theorem listing_refused_for_long_keyword :
    let st := State.after { now := 0 } (adminCalls [.createList publicBlackList,
      .createItem { listId := 1, value := "10.0.0.1" }])
    let filter : ListFilter := ⟨1, String.ofList (List.replicate 49999 'a'), "", "", ""⟩
    Reachable st ∧ Config.pageProblems adminGate.settings = [] ∧
      (outcome (adminGate.serve (some "key") (.countInList filter)) st).1 =
        .error (.storage .patternTooLong) ∧
      ∀ offset size,
        (outcome (adminGate.serve (some "key") (.listInList filter offset size)) st).1 =
          .error (.storage .patternTooLong) := by
  intro st filter
  have hauth : adminGate.authenticate (some "key") = .ok ⟨.admin, 1⟩ := rfl
  have hlong : isEvaluable filter.keyword = false :=
    isEvaluable_of_long (by rw [utf8ByteSize_replicate]; decide)
  obtain ⟨r, hr, hlist, hactive⟩ : ∃ r ∈ st.store.items.rows, r.listId = 1 ∧ r.isActive st.now := by
    decide +kernel
  have hmay : Caller.MayRevise ⟨.admin, 1⟩ st 1 := .of_admin rfl st 1
  have hlisted := Contents.listed_of_long_keyword (by decide +kernel) hmay hlong hr hlist hactive
  refine ⟨reachable_after 0 _, by decide, ?_, fun offset size => ?_⟩
  · rw [Gate.reply_countInList hauth, hlisted]
    rfl
  · exact Gate.reply_listInList_of_error hauth (by rw [hlisted]) offset size

end FirewallLists
