import FirewallLists.Proofs.Paging

/-
  Marking items as read. The call and the searches tell in the same way which lists are the
  caller's (`Store.admits_scopeOf_iff`), but the call goes by what is switched on and the searches
  by what is active at a time. All that a caller's searches for unread items find is among
  the rows that the call marks (`Search.length_found_le`), and in the tables that it leaves nothing
  unread is found for the caller at any time (`Search.found_of_read`, `mark_read_clears_unread`).
-/

namespace FirewallLists

open ServiceM

/-- The item is switched on, nobody has read it, and its list is one of the tenant who calls, if a
tenant does. -/
def ItemRow.IsUnreadFor (s : Store) (caller : Caller) (r : ItemRow) : Prop :=
  r.isLive ∧ r.isRead = 0 ∧ ∀ userId ∈ caller.userId?, s.Owns userId r.listId

instance (s : Store) (caller : Caller) (r : ItemRow) : Decidable (r.IsUnreadFor s caller) :=
  inferInstanceAs (Decidable (_ ∧ _ ∧ _))

namespace Store

/-- The rows that are unread in the lists of a caller. -/
def unreadFor (s : Store) (caller : Caller) : List ItemRow :=
  s.items.rows.filter (·.IsUnreadFor s caller)

/-- The tables in which these rows are read and all else is as it was. -/
def readFor (s : Store) (caller : Caller) : Store :=
  { s with items := s.items.update fun r =>
      if r.IsUnreadFor s caller then { r with isRead := 1 } else r }

end Store

/-! ## Whose lists are searched -/

namespace Search

variable {s : Store} {caller : Caller} {q : SearchQuery} {listId : Int}

/-- What a tenant searches is among the tenant's lists. -/
theorem Covers.own (h : Covers s caller q listId) :
    ∀ userId ∈ caller.userId?, s.Owns userId listId := by
  intro userId hcaller
  refine h userId ?_
  rw [tenant?, Option.mem_def.mp hcaller]
  rfl

end Search

namespace Items

variable {caller : Caller} {st : State}

/-- In the lists of the caller the rows are marked that are unread for the caller. -/
theorem markRead_scopeOf (s : Store) (caller : Caller) :
    s.markRead (s.scopeOf caller.userId?) = ((s.unreadFor caller).length, s.readFor caller) := by
  have hunread : Store.isUnreadIn (s.scopeOf caller.userId?) =
      fun r => decide (r.IsUnreadFor s caller) := by
    funext r
    rw [Bool.eq_iff_iff, decide_eq_true_iff, Store.isUnreadIn, Bool.and_eq_true, Bool.and_eq_true,
      beq_iff_eq, Store.admits_scopeOf_iff, and_assoc]
    rfl
  simp only [Store.markRead, hunread, decide_eq_true_iff]
  rfl

/-- The tables can be reached, the lists of the tenant who calls can be told, if one does, and they
are few enough to be named in one statement. -/
def CanMark (st : State) (caller : Caller) : Prop :=
  st.isOpen ∧ st.CanTell caller.userId? ∧ (st.store.scopeOf caller.userId?).values ≤ maxValues

instance (st : State) (caller : Caller) : Decidable (CanMark st caller) :=
  inferInstanceAs (Decidable (_ ∧ _ ∧ _))

theorem outcome_markRead (hkind : caller.require [.admin, .user] = .ok ())
    (hcan : CanMark st caller) : outcome (markRead caller) st =
      (.ok (st.store.unreadFor caller).length, { st with store := st.store.readFor caller }) := by
  obtain ⟨hopen, htell, hvalues⟩ := hcan
  have hmark : st.store.acknowledge (st.store.scopeOf caller.userId?) =
      .ok ((st.store.unreadFor caller).length, st.store.readFor caller) := by
    rw [Store.acknowledge, bind_of_ok (checkValues_of_le hvalues), markRead_scopeOf]
    rfl
  rw [markRead, outcome_bind_of_ok (outcome_require_of_ok hkind st),
    outcome_bind_of_ok (Ownership.outcome_scopeOf htell)]
  exact outcome_transact_eq_ok.mpr ⟨_, hopen, hmark, rfl⟩

/-- Nothing is marked when it cannot be. -/
theorem exists_outcome_markRead_eq_error (hkind : caller.require [.admin, .user] = .ok ())
    (hcannot : ¬CanMark st caller) :
    ∃ e, outcome (markRead caller) st = (.error (.storage e), st) := by
  unfold markRead
  rw [outcome_bind_of_ok (outcome_require_of_ok hkind st)]
  by_cases htell : st.CanTell caller.userId?
  · rw [outcome_bind_of_ok (Ownership.outcome_scopeOf htell), outcome_transact]
    by_cases hopen : st.isOpen
    · have hmany : ¬(st.store.scopeOf caller.userId?).values ≤ maxValues :=
        fun hvalues => hcannot ⟨hopen, htell, hvalues⟩
      have hmark : st.store.acknowledge (st.store.scopeOf caller.userId?) =
          .error .tooManyValues := bind_of_error (checkValues_of_lt hmany) _
      exact ⟨.tooManyValues, by rw [State.tables, if_pos hopen, bind_of_ok rfl, hmark]⟩
    · exact ⟨.closed, by rw [State.tables, if_neg hopen, bind_of_error rfl]⟩
  · obtain ⟨e, hscope⟩ := Ownership.exists_outcome_scopeOf_eq_error htell
    exact ⟨e, outcome_bind_of_error hscope⟩

end Items

/-! ## What is found unread -/

section Found

variable {st : State} {kind : SearchKind} {caller : Caller} {q : SearchQuery} {rows : List ItemRow}

theorem SearchQuery.unread_filter {filter : SearchFilter} (h : q.filter = .ok filter) :
    filter.unreadOnly = q.unread := by
  unfold SearchQuery.filter at h
  dsimp only at h
  repeat' split at h
  all_goals cases h
  all_goals rfl

/-- A search for unread items finds no more rows than are unread for the caller, active or not. -/
theorem Search.length_found_le (hunread : q.unread)
    (h : outcome (found kind caller q) st = (.ok rows, st)) :
    rows.length ≤ (st.store.unreadFor caller).length := by
  obtain ⟨filter, scope, hfilter, hscope, -, hrows⟩ := found_eq_ok h
  obtain ⟨-, -, rfl⟩ := scope_eq_ok hscope
  refine Store.length_search_le_filter hrows fun r hactive hadmits haccepts => ?_
  have hlive : r.isLive := (Bool.and_eq_true_iff.mp hactive).1
  have hread : r.isRead = 0 := by
    have honly : filter.unreadOnly := (SearchQuery.unread_filter hfilter).trans hunread
    simp only [SearchFilter.accepts, honly, Bool.and_eq_true, Bool.not_true, Bool.false_or,
      beq_iff_eq] at haccepts
    exact haccepts.1.1.1.2
  have hcovers := (admits_iff_covers st.store caller q r.listId).mp hadmits
  exact decide_eq_true ⟨hlive, hread, hcovers.own⟩

/-- What has been read for a caller is not unread for that caller. -/
theorem Store.unreadFor_readFor (s : Store) (caller : Caller) :
    (s.readFor caller).unreadFor caller = [] := by
  rw [unreadFor, List.filter_eq_nil_iff]
  intro r' hr' hunread
  obtain ⟨r, -, rfl⟩ := Table.mem_update.mp hr'
  obtain ⟨hlive, hread, howns⟩ := of_decide_eq_true hunread
  split at hread
  · cases hread
  · next hnot =>
    rw [if_neg hnot] at hlive howns
    -- lists and servers are as they were
    exact hnot ⟨hlive, hread, howns⟩

/-- Where nothing is unread for a caller there is nothing to change. -/
theorem Store.readFor_of_unreadFor_eq_nil {s : Store} (h : s.unreadFor caller = []) :
    s.readFor caller = s := by
  rw [unreadFor, List.filter_eq_nil_iff] at h
  have hsame : ∀ r ∈ s.items.rows,
      (if r.IsUnreadFor s caller then { r with isRead := 1 } else r) = r :=
    fun r hr => if_neg fun hunread => h r hr (decide_eq_true hunread)
  rw [readFor, Table.update_eq_self hsame]

/-- Once all has been read for a caller, a search by that caller for unread items finds none. -/
theorem Search.found_of_read (hread : st.store.unreadFor caller = []) (hunread : q.unread)
    (hanswers : Answers st kind caller q) : outcome (found kind caller q) st = (.ok [], st) := by
  obtain ⟨rows, hfound⟩ := answers_iff.mp hanswers
  have hlength := length_found_le hunread hfound
  rw [hread, List.length_nil, Nat.le_zero, List.length_eq_zero_iff] at hlength
  rw [hfound, hlength]

end Found

/-! ## Marking -/

section Marking

variable {gate : Gate} {token : Option String} {caller : Caller}
  (hauth : gate.authenticate token = .ok caller) (hkind : caller.require [.admin, .user] = .ok ())

include hauth hkind

theorem Gate.serve_markRead {st : State} (hcan : Items.CanMark st caller) :
    outcome (gate.serve token .markRead) st = (.ok (.count (st.store.unreadFor caller).length),
      { st with
        store := st.store.readFor caller
        counters := (st.counted .markRead).counters }) := by
  have hcan' : Items.CanMark (st.counted .markRead) caller := hcan
  refine serve_of_ok hauth ?_
  rw [Call.run, outcome_map, Items.outcome_markRead hkind hcan']
  rfl

/-- Where nothing is unread for the caller, the call is counted and nothing else is done. -/
theorem Gate.serve_markRead_of_read {st : State} (hcan : Items.CanMark st caller)
    (hread : st.store.unreadFor caller = []) :
    outcome (gate.serve token .markRead) st = (.ok (.count 0), st.counted .markRead) := by
  rw [serve_markRead hauth hkind hcan, hread, Store.readFor_of_unreadFor_eq_nil hread]
  rfl

theorem Gate.exists_serve_markRead_eq_error {st : State} (hcannot : ¬Items.CanMark st caller) :
    ∃ e, outcome (gate.serve token .markRead) st =
      (.error (.storage e), (st.counted .markRead).failed .markRead (.storage e)) := by
  have hcannot' : ¬Items.CanMark (st.counted .markRead) caller := hcannot
  obtain ⟨e, herror⟩ := Items.exists_outcome_markRead_eq_error hkind hcannot'
  refine ⟨e, serve_of_error hauth ?_⟩
  rw [Call.run, outcome_map, herror]
  rfl

/-- Marking as read marks exactly the rows that are unread for the caller, which is a matter of no
clock, and tells how many there were: no fewer than any search for unread items counted. All else
in the tables is as it was, and nothing is signalled. Afterwards a search by the caller for unread
items counts none at any time, if it is answered at all, and there is nothing left to mark. When the
tables cannot be reached or the tenant's lists cannot be told or are too many for one statement,
nothing is marked. -/
theorem mark_read_clears_unread (st : State) :
    (Items.CanMark st caller →
      ∃ st', outcome (gate.serve token .markRead) st =
          (.ok (.count (st.store.unreadFor caller).length), st') ∧
        st' = { st with
          store := st.store.readFor caller
          counters := (st.counted .markRead).counters } ∧
        (∀ q n, q.unread → (outcome (gate.serve token (.countAll q)) st).1 = .ok (.count n) →
          n ≤ (st.store.unreadFor caller).length) ∧
        (∀ time q, q.unread → Search.Answers { st' with now := time } .count caller q →
          (outcome (gate.serve token (.countAll q)) { st' with now := time }).1 =
            .ok (.count 0)) ∧
        outcome (gate.serve token .markRead) st' = (.ok (.count 0), st'.counted .markRead)) ∧
    (¬Items.CanMark st caller →
      ∃ e, outcome (gate.serve token .markRead) st =
        (.error (.storage e), (st.counted .markRead).failed .markRead (.storage e))) := by
  refine ⟨fun hcan => ?_, Gate.exists_serve_markRead_eq_error hauth hkind⟩
  have hnil := Store.unreadFor_readFor st.store caller
  refine ⟨_, Gate.serve_markRead hauth hkind hcan, rfl, ?_, ?_, ?_⟩
  · intro q n hunread hcount
    rw [Gate.reply_countAll hauth] at hcount
    rcases hfound : outcome (Search.found .count caller q) st with ⟨e | rows, st₁⟩
    · rw [hfound] at hcount
      cases hcount
    · cases (Search.looks_found .count caller q).eq_of_outcome hfound
      rw [hfound] at hcount
      cases hcount
      exact Search.length_found_le hunread hfound
  · intro time q hunread hanswers
    rw [Gate.reply_countAll hauth, Search.found_of_read hnil hunread hanswers]
    rfl
  · exact Gate.serve_markRead_of_read hauth hkind hcan hnil

end Marking

/-- A tenant has two unread items in a list, one of which has expired when they are marked. Both are
marked and counted, the unread item of somebody else's list is not, and at no time does a search by
the tenant count an unread item afterwards. -/
theorem mark_read_clears_unread_of_tenant :
    let st := State.after { now := 0 } (adminCalls [.createList (privateList none (some 5)),
      .createList publicBlackList, .createItem { listId := 1, value := "10.0.0.1", nodeId := 3 },
      .createItem { listId := 1, value := "10.0.0.2", nodeId := 3, expiredAt := 50 },
      .createItem { listId := 2, value := "10.0.0.3", nodeId := 3 }] ++ [.time 60])
    Reachable st ∧ (st.store.unreadFor ⟨.user, 5⟩).map (·.id) = [1, 2] ∧
      (outcome (tenantGate.serve (some "five") (.countAll { unread := true })) st).1 =
        .ok (.count 1) ∧
      ∃ st', outcome (tenantGate.serve (some "five") .markRead) st = (.ok (.count 2), st') ∧
        st'.store = st.store.readFor ⟨.user, 5⟩ ∧ st'.channel = st.channel ∧
        (∀ time, (outcome (tenantGate.serve (some "five") (.countAll { unread := true }))
          { st' with now := time }).1 = .ok (.count 0)) ∧
        outcome (tenantGate.serve (some "five") .markRead) st' =
          (.ok (.count 0), st'.counted .markRead) := by
  intro st
  have hauth : tenantGate.authenticate (some "five") = .ok ⟨.user, 5⟩ := by decide +kernel
  have hreach : Reachable st := reachable_after 0 _
  have hcan : Items.CanMark st ⟨.user, 5⟩ := by decide +kernel
  have hfew : 1 + (st.store.ownLists 5).length ≤ maxValues := by decide +kernel
  have hids : (st.store.unreadFor ⟨.user, 5⟩).map (·.id) = [1, 2] := by decide +kernel
  have hone : (outcome (Search.countAll ⟨.user, 5⟩ { unread := true })
      (st.counted (.countAll { unread := true }))).1 = .ok 1 := by decide +kernel
  clear_value st
  obtain ⟨hmarked, -⟩ := mark_read_clears_unread hauth (by decide) st
  obtain ⟨st', hserve, rfl, -, hafter, hagain⟩ := hmarked hcan
  have hlength : (st.store.unreadFor ⟨.user, 5⟩).length = 2 := by
    simpa using congrArg List.length hids
  rw [hlength] at hserve
  refine ⟨hreach, hids, ?_, _, hserve, rfl, rfl, fun time => ?_, hagain⟩
  · rw [Gate.reply_serve hauth, Call.run, outcome_map, hone]
    rfl
  · exact hafter time { unread := true } rfl
      ⟨hcan.1, by decide, hcan.2.1, _, rfl, hfew, Or.inl rfl⟩

/-- A keyword that cannot be looked for fails a search in all lists, if there is an active item. -/
theorem Search.found_of_long_keyword {st : State} {kind : SearchKind} {caller : Caller}
    {q : SearchQuery} {filter : SearchFilter} (hfilter : q.filter = .ok filter)
    (hscope : outcome (Search.scope caller q) st = (.ok .everywhere, st)) (hopen : st.isOpen)
    (hlong : isEvaluable q.keyword = false) {r : ItemRow} (hr : r ∈ st.store.items.rows)
    (hactive : r.isActive st.now) :
    outcome (found kind caller q) st = (.error (.storage .patternTooLong), st) := by
  have hcannot : ¬st.store.CanSearch kind .everywhere filter st.now := by
    intro hcan
    rcases hcan.keyword with hkeyword | hnone
    · rw [SearchQuery.keyword_filter hfilter, hlong] at hkeyword
      cases hkeyword
    · exact hnone r ⟨hr, hactive, rfl, rfl⟩
  rw [outcome_found_eq hfilter hscope hopen]
  obtain ⟨e, herror, ⟨-, hmany⟩ | ⟨rfl, -⟩⟩ := Store.search_eq_error hcannot
  · exact absurd (Store.values_everywhere_le filter kind) hmany
  · rw [herror]
    rfl

/-- An administrator has marked the only item as read. Looking among the unread items for a keyword
that is one octet too long, the administrator is not told that there are none: the search fails. -/
theorem unread_count_refused_for_long_keyword :
    let st := State.after { now := 0 } (adminCalls [.createList publicBlackList,
      .createItem { listId := 1, value := "10.0.0.1", nodeId := 3 }, .markRead])
    let q : SearchQuery := { unread := true, keyword := String.ofList (List.replicate 49999 'a') }
    Reachable st ∧ (st.store.unreadFor ⟨.admin, 1⟩) = [] ∧ (∃ filter, q.filter = .ok filter) ∧
      (outcome (adminGate.serve (some "key") (.countAll q)) st).1 =
        .error (.storage .patternTooLong) := by
  intro st q
  have hlong : isEvaluable q.keyword = false := isEvaluable_replicate
  obtain ⟨r, hr, hactive⟩ : ∃ r ∈ st.store.items.rows, r.isActive st.now := by decide +kernel
  have hscope : outcome (Search.scope ⟨.admin, 1⟩ q) st = (.ok .everywhere, st) :=
    Search.outcome_scope rfl (Int.le_refl 0) st
  have hfound : outcome (Search.found .count ⟨.admin, 1⟩ q) st =
      (.error (.storage .patternTooLong), st) :=
    Search.found_of_long_keyword rfl hscope (by decide +kernel) hlong hr hactive
  refine ⟨reachable_after 0 _, by decide +kernel, ⟨_, rfl⟩, ?_⟩
  rw [Gate.reply_countAll rfl, hfound]
  rfl

end FirewallLists
