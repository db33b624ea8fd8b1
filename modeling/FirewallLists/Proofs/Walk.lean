import FirewallLists.Proofs.Cleanup

/-
  Walks through the pages of a search for items, where each page starts a page behind the start of
  the one before it. The tables change on the way: the orphans on a page are gone when the next page
  is asked for, so the rows behind them have moved up and as many rows are passed over
  (`drop_filter_not_mem`). Which rows are met can be told from the rows found before the walk
  (`State.visits`, `outcome_walk`), and these decide what the walk tells of and what it does to the
  tables (`walk_tells_of_rows_met`). An item in use may be among the rows passed over.
-/

namespace FirewallLists

open ServiceM

/-! ## Rows that are left -/

/-- When the chosen ones of a page are gone, all others stay in their order. -/
theorem filter_not_mem_filter {α : Type} [DecidableEq α] {before page behind : List α}
    (h : (before ++ (page ++ behind)).Nodup) (p : α → Bool) :
    (before ++ (page ++ behind)).filter (fun r => r ∉ page.filter p) =
      before ++ (page.filter (fun r => !p r) ++ behind) := by
  obtain ⟨-, hrest, hbefore⟩ := List.nodup_append.mp h
  obtain ⟨-, -, hbehind⟩ := List.nodup_append.mp hrest
  rw [List.filter_append, List.filter_append]
  congr 1
  · refine List.filter_eq_self.mpr fun r hr => decide_eq_true fun hmem => ?_
    exact hbefore r hr r (List.mem_append_left _ (List.mem_of_mem_filter hmem)) rfl
  · congr 1
    · refine List.filter_congr fun r hr => ?_
      simp [hr]
    · refine List.filter_eq_self.mpr fun r hr => decide_eq_true fun hmem => ?_
      exact hbehind r (List.mem_of_mem_filter hmem) r hr rfl

/-- Then those behind the page move up, and a page that starts where the next one should starts as
many later. -/
theorem drop_filter_not_mem {α : Type} [DecidableEq α] {rows : List α} (h : rows.Nodup)
    (p : α → Bool) (start n : Nat) :
    (rows.filter fun r => r ∉ ((rows.drop start).take n).filter p).drop (start + n) =
      (rows.drop start).drop (n + (((rows.drop start).take n).filter p).length) := by
  rcases Nat.lt_or_ge start rows.length with hlt | hge
  · have hsplit : rows.take start ++ ((rows.drop start).take n ++ (rows.drop start).drop n) =
        rows := by
      rw [List.take_append_drop, List.take_append_drop]
    have hbefore : (rows.take start).length = start := List.length_take_of_le (Nat.le_of_lt hlt)
    have hpage : ((rows.drop start).take n).length = min n (rows.drop start).length :=
      List.length_take
    have hbehind : ((rows.drop start).drop n).length = (rows.drop start).length - n :=
      List.length_drop
    have hleft := filter_not_mem_filter (hsplit.symm ▸ h) p
    rw [hsplit] at hleft
    rw [hleft, ← List.drop_drop, ← List.drop_drop]
    generalize rows.take start = before at hbefore ⊢
    generalize (rows.drop start).take n = page at hpage ⊢
    generalize (rows.drop start).drop n = behind at hbehind ⊢
    have hcount : page.length = (page.filter p).length + (page.filter fun r => !p r).length :=
      List.length_eq_length_filter_add p
    rw [List.drop_append_of_le_length (Nat.le_of_eq hbefore.symm),
      List.drop_of_length_le (Nat.le_of_eq hbefore), List.nil_append, List.drop_append,
      List.drop_of_length_le (by omega), List.nil_append]
    rcases Nat.lt_or_ge (rows.drop start).length n with hlast | hfull
    · have hnil : behind = [] := List.eq_nil_of_length_eq_zero (by omega)
      rw [hnil, List.drop_nil, List.drop_nil]
    · congr 1
      omega
  · have hshort : (rows.filter fun r => r ∉ ((rows.drop start).take n).filter p).length ≤
        start + n := (List.length_filter_le _ _).trans (hge.trans (Nat.le_add_right _ _))
    rw [List.drop_eq_nil_of_le hshort, List.drop_eq_nil_of_le hge, List.drop_nil]

namespace Store

variable {s s' : Store} {gone rows : List ItemRow} {kind : SearchKind} {scope : Scope}
  {f : SearchFilter} {now : Int}

/-- Of the rows found before, those are found that have not been switched off. -/
theorem SwitchesOff.search (h : s.SwitchesOff gone s') (hs : s.Ordered)
    (hrows : s.search kind scope f now = .ok rows) :
    s'.search kind scope f now = .ok (rows.filter fun r => r ∉ gone) := by
  have hactive : s'.activeIn scope now = (s.activeIn scope now).filter fun r => r ∉ gone := by
    refine eq_of_ascending ItemRow.id (h.ordered.ascending.filter _)
      ((hs.items.ascending.filter _).filter _) fun r => ?_
    simp only [Store.activeIn, List.mem_filter, decide_eq_true_eq, Bool.and_eq_true]
    constructor
    · rintro ⟨hr, hactive, hscope⟩
      obtain ⟨hmem, hnot⟩ := h.mem_of_isLive hr (Bool.and_eq_true_iff.mp hactive).1
      exact ⟨⟨hmem, hactive, hscope⟩, hnot⟩
    · rintro ⟨⟨hmem, hchosen⟩, hnot⟩
      exact ⟨(h.mem_iff r).mpr (Or.inr ⟨hmem, hnot⟩), hchosen⟩
  obtain ⟨_, hvalues, hrows⟩ := bind_eq_ok.mp hrows
  refine bind_eq_ok.mpr ⟨(), hvalues, ?_⟩
  simp only [hactive, h.alike.find?_lists]
  dsimp only at hrows
  split at hrows
  · cases hrows
  · next hfind =>
    cases hrows
    rw [if_neg, List.filter_reverse, List.filter_filter, List.filter_filter]
    · simp only [Bool.and_comm]
    · intro hfind'
      refine hfind ?_
      rw [Bool.and_eq_true, List.any_eq_true] at hfind' ⊢
      -- a row on which the keyword is still tried was there before
      obtain ⟨hkeyword, r, hr, htried⟩ := hfind'
      exact ⟨hkeyword, r, List.mem_of_mem_filter hr, htried⟩

end Store

/-! ## Walking -/

/-- The results that a reply gives. -/
def Reply.toResults : Reply → List SearchResult
  | results rs => rs
  | _ => []

/-- Search with as many pages of this size, one behind the other. -/
def walk (gate : Gate) (token : Option String) (q : SearchQuery) (n : Nat) :
    Nat → Nat → ServiceM (List SearchResult)
  | 0, _ => return []
  | k + 1, start => do
    let reply ← gate.serve token (.searchAll q start n)
    let more ← walk gate token q n k (start + n)
    return reply.toResults ++ more

/-- The rows that a walk over these with as many pages of this size meets. Behind a page it passes
over as many rows as there were orphans on the page. -/
def State.visits (st : State) (n : Nat) : Nat → List ItemRow → List ItemRow
  | 0, _ => []
  | k + 1, rows =>
    rows.take n ++ st.visits n k (rows.drop (n + (st.orphans (rows.take n)).length))

namespace State

variable {st st' : State} {n : Nat}

theorem Alike.visits (h : st.Alike st') (n k : Nat) (rows : List ItemRow) :
    st'.visits n k rows = st.visits n k rows := by
  induction k generalizing rows with
  | zero => rfl
  | succ k ih => rw [State.visits, State.visits, h.orphans, ih]

/-- No row is met twice. -/
theorem visits_sublist (st : State) (n k : Nat) (rows : List ItemRow) :
    (st.visits n k rows).Sublist rows := by
  induction k generalizing rows with
  | zero => exact List.nil_sublist rows
  | succ k ih =>
    have hbehind := (ih (rows.drop (n + (st.orphans (rows.take n)).length))).trans
      (List.drop_drop ▸ List.drop_sublist _ (rows.drop n))
    have happend := (List.Sublist.refl (rows.take n)).append hbehind
    rwa [List.take_append_drop] at happend

/-- With enough pages no more rows are passed over than orphans are met. -/
theorem length_le_visits (st : State) (n k : Nat) {rows : List ItemRow} (h : rows.length ≤ k * n) :
    rows.length ≤ (st.visits n k rows).length + (st.orphans (st.visits n k rows)).length := by
  induction k generalizing rows with
  | zero => omega
  | succ k ih =>
    have hrest := @ih (rows.drop (n + (st.orphans (rows.take n)).length))
    rw [List.length_drop] at hrest
    rw [State.visits, st.orphans_append, List.length_append, List.length_append, List.length_take]
    rw [Nat.succ_mul] at h
    omega

/-- None of the rows is passed over exactly if no orphan is on a page before the last one. -/
theorem visits_eq_self_iff (st : State) {k m : Nat} (hk : m < k) {rows : List ItemRow}
    (hlast : m * n < rows.length) (hall : rows.length ≤ (m + 1) * n) :
    st.visits n k rows = rows ↔ st.orphans (rows.take (m * n)) = [] := by
  induction m generalizing k rows with
  | zero =>
    rw [Nat.zero_mul, List.take_zero]
    refine iff_of_true ?_ rfl
    obtain ⟨k, rfl⟩ := Nat.exists_eq_add_of_lt hk
    have hpage : rows.length ≤ n := by omega
    rw [Nat.zero_add, State.visits, List.take_of_length_le hpage,
      List.drop_of_length_le (by omega)]
    have hrest := List.sublist_nil.mp (st.visits_sublist n k [])
    rw [hrest, List.append_nil]
  | succ m ih =>
    obtain ⟨k, rfl⟩ := Nat.exists_eq_add_of_lt hk
    rw [Nat.succ_mul] at hlast hall ⊢
    have hsplit : rows.take (m * n + n) = rows.take n ++ (rows.drop n).take (m * n) := by
      rw [Nat.add_comm, List.take_add]
    have hcancel : st.visits n (m + 1 + k + 1) rows = rows ↔
        st.visits n (m + 1 + k) (rows.drop (n + (st.orphans (rows.take n)).length)) =
          rows.drop n := by
      rw [State.visits]
      refine Iff.trans ?_ (List.append_right_inj (rows.take n))
      rw [List.take_append_drop]
    rw [hcancel, hsplit, st.orphans_append, List.append_eq_nil_iff]
    by_cases hfirst : st.orphans (rows.take n) = []
    · have hlast' : m * n < (rows.drop n).length := by
        rw [List.length_drop]
        omega
      have hall' : (rows.drop n).length ≤ (m + 1) * n := by
        rw [List.length_drop]
        omega
      rw [hfirst, List.length_nil, Nat.add_zero n, ih (by omega) hlast' hall', and_iff_right rfl]
    · refine iff_of_false (fun heq => ?_) fun hnone => hfirst hnone.1
      have hlength := congrArg List.length heq
      have hpos := List.length_pos_iff.mpr hfirst
      generalize (st.orphans (rows.take n)).length = g at hlength hpos
      have hsub := (st.visits_sublist n (m + 1 + k) (rows.drop (n + g))).length_le
      rw [List.length_drop] at hlength hsub
      omega

end State

section

variable {gate : Gate} {token : Option String} {caller : Caller} {q : SearchQuery} {n : Nat}

/-- Once some of the rows found have been switched off, the others are found. -/
theorem Search.found_of_switchesOff {st st' : State} {rows gone : List ItemRow}
    (halike : st.Alike st') (hoff : st.store.SwitchesOff gone st'.store) (hs : st.store.Ordered)
    {kind : SearchKind} (hfound : outcome (found kind caller q) st = (.ok rows, st)) :
    outcome (found kind caller q) st' = (.ok (rows.filter fun r => r ∉ gone), st') := by
  obtain ⟨filter, scope, hfilter, hscope, hopen, hrows⟩ := found_eq_ok hfound
  have hscope' : outcome (Search.scope caller q) st' = (.ok scope, st') := by
    have hsame := halike.same_scope caller q
    rw [Same, hscope] at hsame
    exact Prod.ext hsame (looks_scope caller q st')
  have hrows' := hoff.search hs hrows
  rw [← halike.now] at hrows'
  exact outcome_found hfilter hscope' (halike.isOpen.trans hopen) hrows'

/-- A walk sifts the rows that it meets. -/
theorem outcome_walk (hauth : gate.authenticate token = .ok caller) (hn : 1 ≤ n)
    (hmax : n ≤ gate.settings.maxPageSize) {st : State} (h : Reachable st) {rows : List ItemRow}
    (hfound : outcome (Search.found .page caller q) st = (.ok rows, st)) (k start : Nat) :
    ∃ result st', outcome (walk gate token q n k start) st = (result, st') ∧
      Search.Sifted st (st.visits n k (rows.drop start)) result st' := by
  induction k generalizing st rows start with
  | zero => exact ⟨_, st, rfl, .nil st⟩
  | succ k ih =>
    have hsize : gate.settings.pageSize n = n := by
      unfold Settings.pageSize
      rw [if_neg (by omega)]
      omega
    have hpage : page start (n : Int) rows = (rows.drop start).take n :=
      page_of_pos (by omega) start rows
    obtain ⟨result, st₁, hserve, hsift⟩ := Gate.serve_searchAll h hauth hfound start n
    have hmeets := Search.meets_found h.ordered hfound
    rw [hsize, hpage] at hsift
    rw [walk, State.visits]
    rcases Nat.lt_or_ge st.store.versionsLeft (st.orphans ((rows.drop start).take n)).length with
      hfew | henough
    · rw [hsift.failed hfew] at hserve
      exact ⟨_, st₁, outcome_bind_of_error hserve, hsift.failed hfew ▸ hsift.append_of_few hfew _⟩
    · obtain ⟨results, rfl, -⟩ := hsift.done henough
      have hsub : ((rows.drop start).take n).Sublist rows :=
        (List.take_sublist _ _).trans (List.drop_sublist _ _)
      have hsweeps := hsift.sweepsOff h.ordered (hmeets.sublist hsub)
      rw [List.take_of_length_le henough] at hsweeps
      have hprogress := gate.serve_progress token (.searchAll q start n) st
      have hnext := next_call gate token (.searchAll q start n) st
      rw [hserve] at hprogress hnext
      have halike : st.Alike st₁ :=
        ⟨hsweeps.store.alike, hprogress.isOpen, hprogress.failing, hprogress.now⟩
      have hfound₁ := Search.found_of_switchesOff halike hsweeps.store h.ordered hfound
      obtain ⟨result, st', hwalk, hmore⟩ := ih (h.next hnext) hfound₁ (start + n)
      have hnodup : rows.Nodup := hmeets.nodup.of_map
      rw [halike.visits, State.orphans, drop_filter_not_mem hnodup, ← State.orphans] at hmore
      rw [outcome_bind_of_ok hserve, outcome_bind, hwalk]
      have hids := hmeets.sublist
        ((st.visits_sublist n (k + 1) (rows.drop start)).trans (List.drop_sublist _ _))
      have hall := hsift.append hmore halike hids.nodup henough
      rcases result with e | more
      · exact ⟨_, st', rfl, hall⟩
      · exact ⟨_, st', rfl, hall⟩

/-- A walk fails with its first page, if this cannot be searched for. -/
theorem outcome_walk_of_error (hauth : gate.authenticate token = .ok caller) {st : State}
    {e : ServiceError} (hfound : (outcome (Search.found .page caller q) st).1 = .error e)
    {k : Nat} (hk : 1 ≤ k) (start : Nat) :
    ∃ st', outcome (walk gate token q n k start) st = (.error e, st') ∧ st'.store = st.store := by
  obtain ⟨k, rfl⟩ := Nat.exists_eq_add_of_le hk
  obtain ⟨st', hserve, hstore, -⟩ := Gate.serve_searchAll_of_error hauth hfound start n
  rw [Nat.add_comm, walk]
  exact ⟨st', outcome_bind_of_error hserve, hstore⟩

end

/-- What a walk through the pages of a search comes to, in every reachable state and with as many
pages as were counted to be needed. When the orphans on a page are switched off, the rows behind it
move up, and so many of them are passed over. Of the rows met (`State.visits`) those in use are told
of, each once and as it was before the walk, and the orphans are switched off in their order. No row
is passed over exactly if no orphan is on a page before the last one, and never more rows are passed
over than orphans are met. The walk only fails when it meets more orphans than there are versions
left, or when no page can be searched for though the rows could be counted. -/
theorem walk_tells_of_rows_met {st st₁ : State} (h : Reachable st) {gate : Gate}
    {token : Option String} {q : SearchQuery} {count : Nat}
    (hcount : outcome (gate.serve token (.countAll q)) st = (.ok (.count count), st₁)) {n k : Nat}
    (hn : 1 ≤ n) (hmax : n ≤ gate.settings.maxPageSize) (hk : count ≤ k * n) :
    ∃ caller filter scope rows, gate.authenticate token = .ok caller ∧ q.filter = .ok filter ∧
      outcome (Search.scope caller q) st = (.ok scope, st) ∧
      st.store.search .count scope filter st.now = .ok rows ∧ rows.length = count ∧
      (st.visits n k rows).Sublist rows ∧
      (∀ m < k, m * n < count → count ≤ (m + 1) * n →
        (st.visits n k rows = rows ↔ st.orphans (rows.take (m * n)) = [])) ∧
      count ≤ (st.visits n k rows).length + (st.orphans (st.visits n k rows)).length ∧
      (st.store.CanSearch .page scope filter st.now →
        ((st.orphans (st.visits n k rows)).length ≤ st.store.versionsLeft →
          ∃ results st', outcome (walk gate token q n k 0) st₁ = (.ok results, st') ∧
            (st.used (st.visits n k rows)).mapM (·.toItem) = .ok (results.map (·.item)) ∧
            st.SweepsOff (st.orphans (st.visits n k rows)) st') ∧
        (st.store.versionsLeft < (st.orphans (st.visits n k rows)).length →
          ∃ st', outcome (walk gate token q n k 0) st₁ = (.error (.storage .noVersionLeft), st') ∧
            st.SweepsOff ((st.orphans (st.visits n k rows)).take st.store.versionsLeft) st')) ∧
      (¬st.store.CanSearch .page scope filter st.now → 1 ≤ k →
        ∃ e st', outcome (walk gate token q n k 0) st₁ = (.error (.storage e), st') ∧
          st'.store = st.store) := by
  obtain ⟨caller, hauth, hrun⟩ := Gate.serve_eq_ok hcount
  obtain ⟨_, hrun, hreply⟩ := outcome_map_eq_ok.mp hrun
  cases hreply
  rw [Search.countAll_eq] at hrun
  obtain ⟨rows, hfound₁, rfl⟩ := outcome_map_eq_ok.mp hrun
  rw [Search.outcome_found_counted] at hfound₁
  obtain ⟨hrows, rfl⟩ := Prod.mk.inj hfound₁
  have hcounted : outcome (Search.found .count caller q) st = (.ok rows, st) :=
    Prod.ext hrows (Search.looks_found .count caller q st)
  obtain ⟨filter, scope, hfilter, hscope, hopen, hsearch⟩ := Search.found_eq_ok hcounted
  refine ⟨caller, filter, scope, rows, hauth, hfilter, hscope, hsearch, rfl,
    st.visits_sublist n k rows, fun m hm hlast hall => st.visits_eq_self_iff hm hlast hall,
    st.length_le_visits n k hk, fun hcan => ?_, fun hcannot hpages => ?_⟩
  · -- the pages are of the rows that were counted
    obtain ⟨rows', hsearch'⟩ := Store.exists_search_iff.mpr hcan
    have hsame : rows' = rows :=
      (Store.search_eq_ok hsearch').trans (Store.search_eq_ok hsearch).symm
    subst hsame
    have hfound := Search.outcome_found hfilter hscope hopen hsearch'
    -- counting has changed nothing that the walk looks at
    have hreach : Reachable (st.counted (.countAll q)) := by
      have hnext := next_call gate token (.countAll q) st
      rw [hcount] at hnext
      exact h.next hnext
    have hfound' : outcome (Search.found .page caller q) (st.counted (.countAll q)) =
        (.ok rows', st.counted (.countAll q)) := by
      rw [Search.outcome_found_counted, hfound]
    obtain ⟨result, st', hwalk, hsifted⟩ := outcome_walk hauth hn hmax hreach hfound' k 0
    rw [List.drop_zero, (st.alike_counted (.countAll q)).visits] at hsifted
    have hsifted := hsifted.of_counted
    have hmeets := (Search.meets_found h.ordered hfound).sublist (st.visits_sublist n k rows')
    have hsweeps := hsifted.sweepsOff h.ordered hmeets
    constructor
    · intro henough
      obtain ⟨results, rfl, hresults⟩ := hsifted.done henough
      rw [List.take_of_length_le henough] at hsweeps
      exact ⟨results, st', hwalk, hresults, hsweeps⟩
    · intro hfew
      rw [hsifted.failed hfew] at hwalk
      exact ⟨st', hwalk, hsweeps⟩
  · obtain ⟨e, herror, -⟩ := Store.search_eq_error hcannot
    have hfound : (outcome (Search.found .page caller q) (st.counted (.countAll q))).1 =
        .error (.storage e) := by
      rw [Search.outcome_found_counted, Search.outcome_found_eq hfilter hscope hopen, herror]
      rfl
    obtain ⟨st', hwalk, hstore⟩ := outcome_walk_of_error (n := n) hauth hfound hpages 0
    exact ⟨e, st', hwalk, hstore⟩

/-- The only orphan is on the last page of a walk, so no item in use is passed over. -/
theorem walk_tells_of_rows_met_of_last_orphan :
    let st := State.after { now := 0 } (adminCalls [.createList publicBlackList,
      .createList publicBlackList, .createItem { listId := 1, value := "10.0.0.1" },
      .createItem { listId := 2, value := "10.0.0.2" },
      .createItem { listId := 2, value := "10.0.0.3" }, .deleteList 1])
    ∃ st₁ results gone st',
      outcome (adminGate.serve (some "key") (.countAll {})) st = (.ok (.count 3), st₁) ∧
      outcome (walk adminGate (some "key") {} 2 2 0) st₁ = (.ok results, st') ∧
      results.map (·.item.id) = [3, 2] ∧ gone.map (·.id) = [1] ∧ st.SweepsOff gone st' := by
  intro st
  have hreach : Reachable st := reachable_after 0 _
  have hauth : adminGate.authenticate (some "key") = .ok ⟨.admin, 1⟩ := by decide +kernel
  have hcounted : (outcome (Search.countAll ⟨.admin, 1⟩ {}) (st.counted (.countAll {}))).1 =
      .ok 3 := by decide +kernel
  have hrows : (st.store.search .count .everywhere .unfiltered st.now).map (·.map (·.id)) =
      .ok [3, 2, 1] := by decide +kernel
  have huse : ∀ r ∈ st.store.items.rows, (st.InUse r.listId ↔ r.id ≠ 1) := by decide +kernel
  have hleft : 1 ≤ st.store.versionsLeft := by decide +kernel
  clear_value st
  have hrun : outcome ((Call.countAll {}).run adminGate.settings ⟨.admin, 1⟩)
      (st.counted (.countAll {})) = (.ok (.count 3), st.counted (.countAll {})) :=
    outcome_map_eq_ok.mpr ⟨3, Prod.ext hcounted (Search.looks_countAll _ _ _), rfl⟩
  have hcount := Gate.serve_of_ok hauth hrun
  obtain ⟨caller, filter, scope, rows, hknown, hfilter, hscope, hsearch, -, -, hlast, -, hdone,
    -⟩ := walk_tells_of_rows_met hreach hcount (by decide : 1 ≤ 2) (by decide)
      (by decide : 3 ≤ 2 * 2)
  cases hauth.symm.trans hknown
  cases SearchQuery.filter_empty.symm.trans hfilter
  rw [Search.outcome_scope rfl (Int.le_refl 0)] at hscope
  cases hscope
  rw [hsearch] at hrows
  have hids : rows.map (·.id) = [3, 2, 1] := Except.ok.inj hrows
  have huse' : ∀ r ∈ rows, (st.InUse r.listId ↔ r.id ≠ 1) :=
    fun r hr => huse r ((Store.mem_search hsearch).mp hr).1
  have hnone : st.orphans (rows.take (1 * 2)) = [] := by
    have huse₁ : ∀ r ∈ rows.take (1 * 2), (st.InUse r.listId ↔ r.id ≠ 1) :=
      fun r hr => huse' r (List.mem_of_mem_take hr)
    have hfirst := (State.ids_of_inUse (· ≠ 1) huse₁).2
    rw [List.map_take, hids] at hfirst
    exact List.map_eq_nil_iff.mp hfirst
  have hmet := (hlast 1 (by decide) (by decide) (by decide)).mpr hnone
  obtain ⟨hused, horphans⟩ := State.ids_of_inUse (· ≠ 1) huse'
  rw [hids] at hused horphans
  have hcan : st.store.CanSearch .page .everywhere .unfiltered st.now :=
    ⟨Store.values_everywhere_le _ _, Or.inl (by decide)⟩
  rw [hmet] at hdone
  obtain ⟨results, st', hwalk, hitems, hsweeps⟩ := (hdone hcan).1 (by
    rw [← List.length_map (·.id), horphans]
    exact hleft)
  exact ⟨_, results, st.orphans rows, st', hcount, hwalk, (ids_of_told hitems).trans hused,
    horphans, hsweeps⟩

/-- The walk passes over an item in use: the page before it held an orphan. -/
theorem walk_misses_item_in_use :
    let st := State.after { now := 0 } (adminCalls [.createList publicBlackList,
      .createList publicBlackList, .createItem { listId := 1, value := "10.0.0.1" },
      .createItem { listId := 2, value := "10.0.0.2" }, .deleteList 2])
    Reachable st ∧ st.isOpen ∧ st.failing = [] ∧
      (∃ row ∈ st.store.items.rows, row.id = 1 ∧ row.isActive st.now ∧ st.InUse row.listId) ∧
      ∃ st₁, outcome (adminGate.serve (some "key") (.countAll {})) st = (.ok (.count 2), st₁) ∧
        (outcome (walk adminGate (some "key") {} 1 2 0) st₁).1 = .ok [] ∧
        (outcome (walk adminGate (some "key") {} 1 3 0) st₁).1 = .ok [] := by
  intro st
  have hauth : adminGate.authenticate (some "key") = .ok ⟨.admin, 1⟩ := by decide +kernel
  have hcounted : (outcome (Search.countAll ⟨.admin, 1⟩ {}) (st.counted (.countAll {}))).1 =
      .ok 2 := by decide +kernel
  have hrun : outcome ((Call.countAll {}).run adminGate.settings ⟨.admin, 1⟩)
      (st.counted (.countAll {})) = (.ok (.count 2), st.counted (.countAll {})) :=
    outcome_map_eq_ok.mpr ⟨2, Prod.ext hcounted (Search.looks_countAll _ _ _), rfl⟩
  refine ⟨reachable_after 0 _, by decide +kernel, by decide +kernel, by decide +kernel,
    st.counted (.countAll {}), Gate.serve_of_ok hauth hrun, by decide +kernel, by decide +kernel⟩

end FirewallLists
