import FirewallLists.Proofs.Service.Reply
import FirewallLists.Proofs.Store.Query

/-
  Reading page by page. A page starts behind what has been read, so pages of any sizes give all
  that is found, each once and in its order, if every call answers with its page
  (`outcome_collect`). So the pages of a search hold the ids of all rows that it finds
  (`outcome_collectIds`).
-/

namespace FirewallLists

open ServiceM

/-! ## Pages -/

theorem page_of_pos {α : Type} {size : Int} (h : 0 < size) (k : Nat) (rows : List α) :
    page k size rows = (rows.drop k).take size.toNat := by
  unfold page
  dsimp only
  rw [if_neg (by omega), Int.toNat_natCast]

/-- Behind a page is what is left of the rows behind its start. -/
theorem page_append {α : Type} {size : Int} (h : 0 < size) (k : Nat) (rows : List α) :
    page k size rows ++ rows.drop (k + (page k size rows).length) = rows.drop k := by
  rw [page_of_pos h, ← List.drop_drop, List.length_take]
  rcases Nat.le_total size.toNat (rows.drop k).length with hle | hle
  · rw [Nat.min_eq_left hle, List.take_append_drop]
  · rw [Nat.min_eq_right hle, List.take_of_length_le hle, List.drop_length, List.append_nil]

/-- Pages of one size, each behind the one before it, hold the first rows in their order. -/
theorem flatMap_page {α : Type} {size : Int} (h : 0 < size) (n : Nat) (rows : List α) :
    (List.range n).flatMap (fun k : Nat => page (k * size) size rows) =
      rows.take (n * size.toNat) := by
  induction n with
  | zero => rw [Nat.zero_mul, List.take_zero, List.range_zero, List.flatMap_nil]
  | succ n ih =>
    have hstart : (n : Int) * size = ↑(n * size.toNat) := by
      rw [Int.natCast_mul, Int.toNat_of_nonneg (Int.le_of_lt h)]
    rw [List.range_succ, List.flatMap_append, ih, List.flatMap_singleton, hstart, page_of_pos h,
      Nat.succ_mul, List.take_add]

/-- Only behind the last row a page is empty. -/
theorem page_eq_nil {α : Type} {size : Int} (h : 0 < size) {k : Nat} {rows : List α}
    (hpage : page k size rows = []) : rows.drop k = [] := by
  rw [page_of_pos h, List.take_eq_nil_iff] at hpage
  exact hpage.resolve_left (by omega)

theorem page_map {α β : Type} (f : α → β) (offset size : Int) (rows : List α) :
    page offset size (rows.map f) = (page offset size rows).map f := by
  unfold page
  dsimp only
  split
  · exact List.map_drop.symm
  · rw [List.map_take, List.map_drop]

section

variable {ε α β : Type} {f : α → Except ε β} {xs : List α} {ys : List β}

theorem mapM_drop (h : xs.mapM f = .ok ys) (k : Nat) : (xs.drop k).mapM f = .ok (ys.drop k) := by
  induction xs generalizing ys k with
  | nil =>
    cases h
    cases k <;> rfl
  | cons x xs ih =>
    cases k with
    | zero => exact h
    | succ k =>
      rw [List.mapM_cons] at h
      obtain ⟨y, -, h⟩ := bind_eq_ok.mp h
      obtain ⟨rest, hrest, h⟩ := bind_eq_ok.mp h
      cases h
      exact ih hrest k

theorem mapM_take (h : xs.mapM f = .ok ys) (k : Nat) : (xs.take k).mapM f = .ok (ys.take k) := by
  induction xs generalizing ys k with
  | nil =>
    cases h
    cases k <;> rfl
  | cons x xs ih =>
    cases k with
    | zero => rfl
    | succ k =>
      rw [List.mapM_cons] at h
      obtain ⟨y, hy, h⟩ := bind_eq_ok.mp h
      obtain ⟨rest, hrest, h⟩ := bind_eq_ok.mp h
      cases h
      rw [List.take_succ_cons, List.take_succ_cons, List.mapM_cons]
      exact bind_eq_ok.mpr ⟨y, hy, bind_eq_ok.mpr ⟨_, ih hrest k, rfl⟩⟩

/-- What is read off a page is a page of what is read off all. -/
theorem mapM_page (h : xs.mapM f = .ok ys) (offset size : Int) :
    (page offset size xs).mapM f = .ok (page offset size ys) := by
  unfold page
  dsimp only
  split
  · exact mapM_drop h _
  · exact mapM_take (mapM_drop h _) _

end

/-! ## Page by page -/

/-- Ask for pages of these sizes, each from where the page before it ended, until a page is empty.
There is no result when a call does not answer with a page, or the last page is not empty. -/
def collect {α : Type} (gate : Gate) (token : Option String) (call : Int → Int → Call)
    (page? : Reply → Option (List α)) : List Int → Int → ServiceM (Option (List α))
  | [], _ => return none
  | size :: sizes, offset => do
    match page? (← gate.serve token (call offset size)) with
    | none => return none
    | some [] => return some []
    | some found =>
      let rest ← collect gate token call page? sizes (offset + found.length)
      return rest.map (found ++ ·)

section

variable {α : Type} {gate : Gate} {token : Option String} {caller : Caller}
  {call : Int → Int → Call} {page? : Reply → Option (List α)} {reply : Reply} {offset size : Int}
  {sizes : List Int} {st st₁ st₂ : State}

/-- An empty page is the last one. -/
theorem outcome_collect_last
    (hserve : outcome (gate.serve token (call offset size)) st = (.ok reply, st₁))
    (hpage : page? reply = some []) :
    outcome (collect gate token call page? (size :: sizes) offset) st = (.ok (some []), st₁) := by
  rw [collect, outcome_bind_of_ok hserve, hpage]
  rfl

/-- Behind a page that is not empty the others follow. -/
theorem outcome_collect_more {x : α} {found more : List α}
    (hserve : outcome (gate.serve token (call offset size)) st = (.ok reply, st₁))
    (hpage : page? reply = some (x :: found))
    (hmore : outcome (collect gate token call page? sizes (offset + (x :: found).length)) st₁ =
      (.ok (some more), st₂)) :
    outcome (collect gate token call page? (size :: sizes) offset) st =
      (.ok (some (x :: found ++ more)), st₂) := by
  rw [collect, outcome_bind_of_ok hserve, hpage]
  dsimp only
  rw [outcome_bind_of_ok hmore]
  rfl

/-- If every call answers with its page of what is found and changes nothing, pages of any positive
sizes give all that is found from a start on. -/
theorem outcome_collect {found : List α} (hauth : gate.authenticate token = .ok caller)
    (hrun : ∀ (counters : Counters) (start : Nat) (size : Int), ∃ reply,
      outcome ((call start size).run gate.settings caller) { st with counters := counters } =
        (.ok reply, { st with counters := counters }) ∧
      page? reply = some (page start (gate.settings.pageSize size) found))
    (sizes : Nat → Int) (hsizes : ∀ i, 0 < gate.settings.pageSize (sizes i)) (start : Nat) :
    ∃ n ≤ (found.drop start).length + 1, ∃ st',
      outcome (collect gate token call page? ((List.range n).map sizes) start) st =
        (.ok (some (found.drop start)), st') := by
  -- by induction on what is left: a page that is not empty holds some of it
  induction hleft : (found.drop start).length using Nat.strongRecOn
    generalizing st sizes start with
  | _ left ih =>
    obtain ⟨reply, hreply, hpage⟩ :=
      hrun (st.counted (call start (sizes 0))).counters start (sizes 0)
    have hserve := Gate.serve_of_ok hauth hreply
    have happend := page_append (hsizes 0) start found
    cases hfirst : page start (gate.settings.pageSize (sizes 0)) found with
    | nil =>
      rw [hfirst] at hpage
      rw [page_eq_nil (hsizes 0) hfirst]
      exact ⟨1, by omega, _, outcome_collect_last hserve hpage⟩
    | cons x first =>
      rw [hfirst] at hpage happend
      have hlength := congrArg List.length happend
      rw [List.length_append, hleft] at hlength
      have hpos : 0 < (x :: first).length := Nat.succ_pos _
      obtain ⟨n, hn, st', hrest⟩ := @ih (found.drop (start + (x :: first).length)).length (by omega)
        (st.counted (call start (sizes 0))) hrun (sizes ∘ Nat.succ) (fun i => hsizes (i + 1))
        (start + (x :: first).length) rfl
      rw [Int.natCast_add] at hrest
      refine ⟨n + 1, by omega, st', ?_⟩
      rw [List.range_succ_eq_map, List.map_cons, List.map_map, ← happend]
      exact outcome_collect_more hserve hpage hrest

end

/-! ## A search for ids -/

/-- The ids that a reply gives. -/
def Reply.itemIds? : Reply → Option (List Int)
  | itemIds ids => some ids
  | _ => none

/-- Search for ids with pages of these sizes, each from where the page before it ended, until a
page is empty. There is no result when a call does not answer with ids, or the last page is not
empty. -/
def collectIds (gate : Gate) (token : Option String) (query : SearchQuery) (sizes : List Int)
    (offset : Int) : ServiceM (Option (List Int)) :=
  collect gate token (.searchIds query) Reply.itemIds? sizes offset

namespace Search

variable {caller : Caller} {query : SearchQuery} {filter : SearchFilter} {st : State}

/-- An administrator who names no tenant searches everywhere. -/
theorem outcome_scope (hkind : caller.kind = .admin) (huser : query.userId ≤ 0) (st : State) :
    outcome (scope caller query) st = (.ok .everywhere, st) := by
  have hall : caller.userId?.or (if 0 < query.userId then some query.userId else none) = none := by
    rw [Caller.userId?, if_neg (by rw [hkind]; decide), if_neg (by omega)]
    rfl
  rw [scope, outcome_bind_of_ok (outcome_require_of_admin st hkind (by decide)), hall]
  rfl

theorem outcome_ids (cfg : Settings) {rows : List ItemRow} (hkind : caller.kind = .admin)
    (hopen : st.isOpen) (hfilter : query.filter = .ok filter) (huser : query.userId ≤ 0)
    (hrows : st.store.search .page .everywhere filter st.now = .ok rows) (offset size : Int) :
    outcome (ids cfg caller query offset size) st =
      (.ok ((page offset (cfg.pageSize size) rows).map (·.id)), st) := by
  have hids : st.store.searchIds .everywhere filter st.now offset (cfg.pageSize size) =
      .ok ((page offset (cfg.pageSize size) rows).map (·.id)) :=
    bind_eq_ok.mpr ⟨rows, hrows, rfl⟩
  rw [ids, hfilter, outcome_bind_of_ok (outcome_ofExcept _ st),
    outcome_bind_of_ok (outcome_scope hkind huser st), outcome_bind_of_ok (outcome_now st),
    outcome_query_of_isOpen hopen, hids]
  rfl

end Search

/-- Pages of any positive sizes give the ids of all rows found from a start on. -/
theorem outcome_collectIds {gate : Gate} {token : Option String} {caller : Caller}
    {query : SearchQuery} {filter : SearchFilter} {rows : List ItemRow} {st : State}
    (hauth : gate.authenticate token = .ok caller) (hkind : caller.kind = .admin)
    (hopen : st.isOpen) (hfilter : query.filter = .ok filter) (huser : query.userId ≤ 0)
    (hrows : st.store.search .page .everywhere filter st.now = .ok rows)
    (sizes : Nat → Int) (hsizes : ∀ i, 0 < gate.settings.pageSize (sizes i)) (start : Nat) :
    ∃ n ≤ (rows.drop start).length + 1, ∃ st',
      outcome (collectIds gate token query ((List.range n).map sizes) start) st =
        (.ok (some ((rows.drop start).map (·.id))), st') := by
  have hrun : ∀ (counters : Counters) (start : Nat) (size : Int), ∃ reply,
      outcome ((Call.searchIds query start size).run gate.settings caller)
        { st with counters := counters } = (.ok reply, { st with counters := counters }) ∧
      reply.itemIds? = some (page start (gate.settings.pageSize size) (rows.map (·.id))) := by
    intro counters start size
    have hopen' : ({ st with counters := counters } : State).isOpen := hopen
    refine ⟨.itemIds ((page start (gate.settings.pageSize size) rows).map (·.id)), ?_, ?_⟩
    · rw [Call.run, outcome_map,
        Search.outcome_ids gate.settings hkind hopen' hfilter huser hrows start size]
      rfl
    · rw [page_map]
      rfl
  obtain ⟨n, hn, st', hcollect⟩ := outcome_collect hauth hrun sizes hsizes start
  rw [← List.map_drop, List.length_map] at hn
  rw [← List.map_drop] at hcollect
  exact ⟨n, hn, st', hcollect⟩

end FirewallLists
