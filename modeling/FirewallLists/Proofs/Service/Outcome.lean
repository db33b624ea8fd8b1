import FirewallLists.Service.State
import Mathlib.Order.Defs.Unbundled

/-
  Reasoning about steps of the services. `outcome` is what a step gives and the state it reaches,
  with one law for each thing that steps are made of. A step `Looks` when it leaves every state as
  it is. A step `Leads` by a relation when the state it reaches stands in it to the one it started
  from, whether or not the step failed.
-/

namespace FirewallLists.ServiceM

variable {α β : Type}

/-- What a step gives when it starts in a state, and the state it reaches. -/
def outcome (a : ServiceM α) (st : State) : Except ServiceError α × State :=
  (a.run.run st).run

/-! ## Laws of single steps -/

@[simp]
theorem outcome_pure (x : α) (st : State) : outcome (pure x) st = (.ok x, st) := rfl

@[simp]
theorem outcome_throw (e : ServiceError) (st : State) :
    outcome (throw e : ServiceM α) st = (.error e, st) := rfl

/-- The second step starts where the first one ends, if that one succeeds. -/
theorem outcome_bind (a : ServiceM α) (f : α → ServiceM β) (st : State) :
    outcome (a >>= f) st = match outcome a st with
      | (.ok x, st') => outcome (f x) st'
      | (.error e, st') => (.error e, st') := by
  simp only [outcome, ExceptT.run_bind, StateT.run_bind, Id.run_bind]
  rcases (a.run.run st).run with ⟨_ | x, st'⟩ <;> rfl

@[simp]
theorem outcome_get (st : State) : outcome get st = (.ok st, st) := rfl

@[simp]
theorem outcome_modify (f : State → State) (st : State) :
    outcome (modify f) st = (.ok (), f st) := rfl

@[simp]
theorem outcome_attempt (a : ServiceM α) (st : State) :
    outcome (attempt a) st = (.ok (outcome a st).1, (outcome a st).2) := rfl

theorem outcome_ofExcept (x : Except ServiceError α) (st : State) :
    outcome (ofExcept x) st = (x, st) := by
  cases x <;> rfl

theorem outcome_ofStorage (x : Except StorageError α) (st : State) :
    outcome (ofStorage x) st = (x.mapError .storage, st) := by
  cases x <;> rfl

theorem outcome_map (f : α → β) (a : ServiceM α) (st : State) :
    outcome (f <$> a) st = ((outcome a st).1.map f, (outcome a st).2) := by
  rw [map_eq_pure_bind, outcome_bind]
  rcases outcome a st with ⟨_ | x, st'⟩ <;> rfl

theorem outcome_query (read : Store → Except StorageError α) (st : State) :
    outcome (query read) st = ((st.tables >>= read).mapError .storage, st) := by
  simp only [query, outcome_bind, outcome_get]
  exact outcome_ofStorage _ st

theorem outcome_lookUp (kind : Lookup) (find : Store → α) (st : State) :
    outcome (lookUp kind find) st = ((st.lookUp kind find).mapError .storage, st) := by
  simp only [lookUp, outcome_bind, outcome_get]
  exact outcome_ofStorage _ st

theorem outcome_signalLast_bind (last : Option Change) (f : Unit → ServiceM α) (st : State) :
    outcome (signalLast last >>= f) st = outcome (f ()) (outcome (signalLast last) st).2 := by
  cases last <;> rfl

theorem outcome_now (st : State) : outcome now st = (.ok st.now, st) := rfl

theorem outcome_transact (write : Store → Except StorageError (α × Store)) (st : State) :
    outcome (transact write) st = match st.tables >>= write with
      | .ok (x, s) => (.ok x, { st with store := s })
      | .error e => (.error (.storage e), st) := by
  simp only [transact, outcome_bind, outcome_get, outcome_ofStorage]
  rcases st.tables >>= write with e | ⟨x, s⟩ <;> rfl

theorem outcome_transact? (write : Store → Except StorageError (Option α × Store))
    (st : State) :
    outcome (transact? write) st = match st.tables >>= write with
      | .ok (some x, s) => (.ok (some x), { st with store := s })
      | .ok (none, _) => (.ok none, st)
      | .error e => (.error (.storage e), st) := by
  simp only [transact?, outcome_bind, outcome_get, outcome_ofStorage]
  rcases st.tables >>= write with e | ⟨_ | x, s⟩ <;> rfl

theorem tables_bind_eq_ok {read : Store → Except StorageError α} {st : State} {x : α} :
    (st.tables >>= read) = .ok x ↔ st.isOpen ∧ read st.store = .ok x := by
  unfold State.tables
  cases st.isOpen <;> simp [bind, Except.bind]

theorem mapError_eq_ok {ε δ : Type} {x : Except ε α} {f : ε → δ} {y : α} :
    x.mapError f = .ok y ↔ x = .ok y := by
  cases x with
  | error e => exact iff_of_false nofun nofun
  | ok z => exact ⟨fun h => Except.ok.inj h ▸ rfl, fun h => Except.ok.inj h ▸ rfl⟩

/-- Both steps of a chain that succeeds have succeeded. -/
theorem outcome_bind_eq_ok {a : ServiceM α} {f : α → ServiceM β} {st st' : State} {y : β} :
    outcome (a >>= f) st = (.ok y, st') ↔
      ∃ x st₁, outcome a st = (.ok x, st₁) ∧ outcome (f x) st₁ = (.ok y, st') := by
  rw [outcome_bind]
  rcases outcome a st with ⟨_ | x, st₁⟩
  · simp
  · constructor
    · intro h; exact ⟨x, st₁, rfl, h⟩
    · rintro ⟨_, _, hfirst, h⟩; cases hfirst; exact h

/-- Of a chain that fails one step has failed, and those before it have succeeded. -/
theorem outcome_bind_eq_error {a : ServiceM α} {f : α → ServiceM β} {st st' : State}
    {e : ServiceError} :
    outcome (a >>= f) st = (.error e, st') ↔ outcome a st = (.error e, st') ∨
      ∃ x st₁, outcome a st = (.ok x, st₁) ∧ outcome (f x) st₁ = (.error e, st') := by
  rw [outcome_bind]
  rcases outcome a st with ⟨_ | x, st₁⟩
  · simp
  · constructor
    · intro h; exact Or.inr ⟨x, st₁, rfl, h⟩
    · rintro (hfirst | ⟨_, _, hfirst, h⟩)
      · cases hfirst
      · cases hfirst; exact h

theorem outcome_map_eq_ok {g : α → β} {a : ServiceM α} {st st' : State} {y : β} :
    outcome (g <$> a) st = (.ok y, st') ↔ ∃ x, outcome a st = (.ok x, st') ∧ g x = y := by
  rw [map_eq_pure_bind, outcome_bind_eq_ok]
  constructor
  · rintro ⟨x, st₁, ha, hx⟩
    cases hx
    exact ⟨x, ha, rfl⟩
  · rintro ⟨x, ha, rfl⟩
    exact ⟨x, st', ha, rfl⟩

theorem outcome_map_eq_error {g : α → β} {a : ServiceM α} {st st' : State} {e : ServiceError} :
    outcome (g <$> a) st = (.error e, st') ↔ outcome a st = (.error e, st') := by
  rw [outcome_map]
  rcases outcome a st with ⟨e | x, st₁⟩ <;> simp [Except.map]

theorem outcome_query_eq_ok {read : Store → Except StorageError α} {st st' : State} {x : α} :
    outcome (query read) st = (.ok x, st') ↔
      st' = st ∧ st.isOpen ∧ read st.store = .ok x := by
  rw [outcome_query, Prod.mk.injEq, mapError_eq_ok, tables_bind_eq_ok]
  constructor
  · rintro ⟨h, rfl⟩; exact ⟨rfl, h⟩
  · rintro ⟨rfl, h⟩; exact ⟨h, rfl⟩

/-- After a step that has read the tables the rest has started where that step did. -/
theorem outcome_query_bind_eq_ok {read : Store → Except StorageError α} {f : α → ServiceM β}
    {st st' : State} {y : β} :
    outcome (query read >>= f) st = (.ok y, st') ↔
      ∃ x, st.isOpen ∧ read st.store = .ok x ∧ outcome (f x) st = (.ok y, st') := by
  rw [outcome_bind_eq_ok]
  constructor
  · rintro ⟨x, st₁, hquery, h⟩
    obtain ⟨rfl, hopen, hread⟩ := outcome_query_eq_ok.mp hquery
    exact ⟨x, hopen, hread, h⟩
  · rintro ⟨x, hopen, hread, h⟩
    exact ⟨x, st, outcome_query_eq_ok.mpr ⟨rfl, hopen, hread⟩, h⟩

theorem outcome_transact_eq_ok {write : Store → Except StorageError (α × Store)}
    {st st' : State} {x : α} :
    outcome (transact write) st = (.ok x, st') ↔
      ∃ s, st.isOpen ∧ write st.store = .ok (x, s) ∧ st' = { st with store := s } := by
  rw [outcome_transact]
  constructor
  · intro h
    rcases hw : st.tables >>= write with e | ⟨y, s⟩
    · rw [hw] at h
      cases h
    · rw [hw] at h
      cases h
      obtain ⟨hopen, hrun⟩ := tables_bind_eq_ok.mp hw
      exact ⟨s, hopen, hrun, rfl⟩
  · rintro ⟨s, hopen, hrun, rfl⟩
    rw [tables_bind_eq_ok.mpr ⟨hopen, hrun⟩]

theorem outcome_transact?_eq_some {write : Store → Except StorageError (Option α × Store)}
    {st st' : State} {x : α} :
    outcome (transact? write) st = (.ok (some x), st') ↔
      ∃ s, st.isOpen ∧ write st.store = .ok (some x, s) ∧ st' = { st with store := s } := by
  rw [outcome_transact?]
  constructor
  · intro h
    rcases hw : st.tables >>= write with e | ⟨_ | y, s⟩
    · rw [hw] at h
      cases h
    · rw [hw] at h
      cases h
    · rw [hw] at h
      cases h
      obtain ⟨hopen, hrun⟩ := tables_bind_eq_ok.mp hw
      exact ⟨s, hopen, hrun, rfl⟩
  · rintro ⟨s, hopen, hrun, rfl⟩
    rw [tables_bind_eq_ok.mpr ⟨hopen, hrun⟩]

/-- The error that the step ends in, if it fails. -/
def error? (a : ServiceM α) (st : State) : Option ServiceError :=
  match (outcome a st).1 with
  | .error e => some e
  | .ok _ => none

theorem outcome_of_error? {a : ServiceM α} {st : State} {e : ServiceError}
    (h : a.error? st = some e) : outcome a st = (.error e, (outcome a st).2) := by
  unfold error? at h
  split at h
  · next heq =>
    cases h
    exact Prod.ext heq rfl
  · cases h

/-! ## Steps that only look -/

/-- The step leaves the state as it is. -/
def Looks (a : ServiceM α) : Prop :=
  ∀ st, (outcome a st).2 = st

variable {a : ServiceM α} {f : α → ServiceM β}

theorem looks_pure (x : α) : Looks (pure x : ServiceM α) := fun _ => rfl

theorem looks_throw (e : ServiceError) : Looks (throw e : ServiceM α) := fun _ => rfl

theorem Looks.bind (ha : Looks a) (hf : ∀ x, Looks (f x)) : Looks (a >>= f) := by
  intro st
  have hst := ha st
  rw [outcome_bind]
  rcases h : outcome a st with ⟨_ | x, st'⟩
  · rw [h] at hst
    exact hst
  · rw [h] at hst
    exact (hf x st').trans hst

theorem Looks.map (ha : Looks a) (g : α → β) : Looks (g <$> a) := by
  intro st
  rw [outcome_map]
  exact ha st

theorem looks_ofExcept (x : Except ServiceError α) : Looks (ofExcept x : ServiceM α) := by
  intro st
  rw [outcome_ofExcept]

theorem looks_require (caller : Caller) (allowed : List CallerKind) :
    Looks (require caller allowed) :=
  looks_ofExcept _

theorem looks_get : Looks get := fun _ => rfl

theorem looks_now : Looks now := fun _ => rfl

theorem looks_query (read : Store → Except StorageError α) : Looks (query read) := by
  intro st
  rw [outcome_query]

theorem looks_lookUp (kind : Lookup) (find : Store → α) : Looks (lookUp kind find) := by
  intro st
  rw [outcome_lookUp]

theorem Looks.eq_of_outcome (ha : Looks a) {st st' : State} {r : Except ServiceError α}
    (h : outcome a st = (r, st')) : st' = st := by
  rw [← ha st, h]

/-- A look that finds nothing fails. -/
theorem Looks.exists_eq_error (ha : Looks a) {st : State}
    (h : ¬∃ x, outcome a st = (.ok x, st)) : ∃ e, outcome a st = (.error e, st) := by
  rcases houtcome : outcome a st with ⟨r, st'⟩
  cases ha.eq_of_outcome houtcome
  cases r with
  | error e => exact ⟨e, rfl⟩
  | ok x => exact absurd ⟨x, houtcome⟩ h

/-- After a look that has succeeded the rest has started where the look did. -/
theorem Looks.bind_eq_ok (ha : Looks a) {f : α → ServiceM β} {st st' : State} {y : β}
    (h : outcome (a >>= f) st = (.ok y, st')) :
    ∃ x, outcome a st = (.ok x, st) ∧ outcome (f x) st = (.ok y, st') := by
  obtain ⟨x, st₁, hx, h⟩ := outcome_bind_eq_ok.mp h
  cases ha.eq_of_outcome hx
  exact ⟨x, hx, h⟩

theorem looks_mapM {g : α → ServiceM β} (hg : ∀ x, Looks (g x)) (xs : List α) :
    Looks (xs.mapM g) := by
  induction xs with
  | nil => exact looks_pure []
  | cons x xs ih =>
    rw [List.mapM_cons]
    exact (hg x).bind fun y => ih.bind fun ys => looks_pure (y :: ys)

/-- What a look at each of several things gives, it gives for one of them. -/
theorem exists_of_mapM_eq_ok {g : α → ServiceM β} (hg : ∀ x, Looks (g x)) {xs : List α}
    {st st' : State} {ys : List β} (h : outcome (xs.mapM g) st = (.ok ys, st')) {y : β}
    (hy : y ∈ ys) : ∃ x ∈ xs, outcome (g x) st = (.ok y, st) := by
  induction xs generalizing ys st' with
  | nil => cases h; cases hy
  | cons x xs ih =>
    rw [List.mapM_cons] at h
    obtain ⟨z, hz, h⟩ := (hg x).bind_eq_ok h
    obtain ⟨zs, st₂, hzs, h⟩ := outcome_bind_eq_ok.mp h
    cases h
    rcases List.mem_cons.mp hy with rfl | hy
    · exact ⟨x, List.mem_cons_self, hz⟩
    · obtain ⟨x', hx', hout⟩ := ih hzs hy
      exact ⟨x', List.mem_cons_of_mem _ hx', hout⟩

/-! ## Where steps lead -/

/-- The state that the step reaches stands in the relation to the one it started from. -/
def Leads (R : State → State → Prop) (a : ServiceM α) (st : State) : Prop :=
  R st (outcome a st).2

variable {R : State → State → Prop} {st : State}

theorem Leads.mono {R' : State → State → Prop} (ha : Leads R a st)
    (h : ∀ st', R st st' → R' st st') : Leads R' a st :=
  h _ ha

theorem Leads.map (ha : Leads R a st) (g : α → β) : Leads R (g <$> a) st := by
  rw [Leads, outcome_map]
  exact ha

theorem leads_modify {g : State → State} (h : R st (g st)) : Leads R (modify g) st := h

theorem Leads.attempt (ha : Leads R a st) : Leads R (attempt a) st := ha

theorem Leads.bind [IsTrans State R] (ha : Leads R a st)
    (hf : ∀ x st', outcome a st = (.ok x, st') → Leads R (f x) st') : Leads R (a >>= f) st := by
  unfold Leads at ha
  rw [Leads, outcome_bind]
  rcases h : outcome a st with ⟨_ | x, st'⟩
  · rw [h] at ha
    exact ha
  · rw [h] at ha
    exact IsTrans.trans _ _ _ ha (hf x st' h)

section Refl

variable [Std.Refl R]

theorem Looks.leads (ha : Looks a) (st : State) : Leads R a st := by
  rw [Leads, ha st]
  exact Std.Refl.refl st

theorem leads_pure (x : α) (st : State) : Leads R (pure x : ServiceM α) st :=
  (looks_pure x).leads st

theorem leads_throw (e : ServiceError) (st : State) : Leads R (throw e : ServiceM α) st :=
  (looks_throw e).leads st

/-- After a look the rest starts where the look did. -/
theorem Looks.bind_leads (ha : Looks a)
    (hf : ∀ x, outcome a st = (.ok x, st) → Leads R (f x) st) : Leads R (a >>= f) st := by
  have hst := ha st
  rw [Leads, outcome_bind]
  rcases h : outcome a st with ⟨_ | x, st'⟩
  · rw [h] at hst
    cases hst
    exact Std.Refl.refl _
  · rw [h] at hst
    cases hst
    exact hf x h

theorem leads_transact {write : Store → Except StorageError (α × Store)}
    (h : ∀ x s, write st.store = .ok (x, s) → R st { st with store := s }) :
    Leads R (transact write) st := by
  rw [Leads, outcome_transact]
  rcases hw : st.tables >>= write with e | ⟨x, s⟩
  · exact Std.Refl.refl st
  · exact h x s (tables_bind_eq_ok.mp hw).2

theorem leads_transact? {write : Store → Except StorageError (Option α × Store)}
    (h : ∀ x s, write st.store = .ok (some x, s) → R st { st with store := s }) :
    Leads R (transact? write) st := by
  rw [Leads, outcome_transact?]
  rcases hw : st.tables >>= write with e | ⟨_ | x, s⟩
  · exact Std.Refl.refl st
  · exact Std.Refl.refl st
  · exact h x s (tables_bind_eq_ok.mp hw).2

/-- What a transaction commits may be judged together with what comes after it. -/
theorem leads_transact_bind {write : Store → Except StorageError (α × Store)} {f : α → ServiceM β}
    (h : ∀ x s, write st.store = .ok (x, s) → R st (outcome (f x) { st with store := s }).2) :
    Leads R (transact write >>= f) st := by
  rw [Leads, outcome_bind, outcome_transact]
  rcases hw : st.tables >>= write with e | ⟨x, s⟩
  · exact Std.Refl.refl st
  · exact h x s (tables_bind_eq_ok.mp hw).2

theorem leads_transact?_bind {write : Store → Except StorageError (Option α × Store)}
    {f : Option α → ServiceM β} (hnone : Leads R (f none) st)
    (hsome : ∀ x s, write st.store = .ok (some x, s) →
      R st (outcome (f (some x)) { st with store := s }).2) :
    Leads R (transact? write >>= f) st := by
  rw [Leads, outcome_bind, outcome_transact?]
  rcases hw : st.tables >>= write with e | ⟨_ | x, s⟩
  · exact Std.Refl.refl st
  · exact hnone
  · exact hsome x s (tables_bind_eq_ok.mp hw).2

end Refl

end FirewallLists.ServiceM
