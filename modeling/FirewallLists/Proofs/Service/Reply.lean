import FirewallLists.Proofs.Service.Outcome
import FirewallLists.Rpc.Gate
import Mathlib.Data.List.Forall2

/-
  What the gate answers to a caller that it knows: what the call answers in the same state with one
  more call counted (`Gate.reply_serve`). Of a call that fails the gate counts the failure too, and
  nothing else is done at the gate (`Gate.outcome_serve`). A step that reads the tables while they
  can be reached gives what the tables say.
-/

namespace FirewallLists

namespace ServiceM

variable {α β : Type}

/-- What a step that looks gives to the next one. -/
theorem outcome_bind_of_ok {a : ServiceM α} {f : α → ServiceM β} {st st' : State} {x : α}
    (h : outcome a st = (.ok x, st')) : outcome (a >>= f) st = outcome (f x) st' := by
  rw [outcome_bind, h]

theorem outcome_bind_of_error {a : ServiceM α} {f : α → ServiceM β} {st st' : State}
    {e : ServiceError} (h : outcome a st = (.error e, st')) :
    outcome (a >>= f) st = (.error e, st') := by
  rw [outcome_bind, h]

/-- Steps that succeed one after the other, each in a state like those before, give one result
each. -/
theorem outcome_mapM_of_ok {Inv : State → Prop} {P : α → β → Prop} {g : α → ServiceM β}
    (hg : ∀ x st, Inv st → ∃ y st', outcome (g x) st = (.ok y, st') ∧ Inv st' ∧ P x y)
    (xs : List α) {st : State} (hst : Inv st) :
    ∃ ys st', outcome (xs.mapM g) st = (.ok ys, st') ∧ Inv st' ∧ List.Forall₂ P xs ys := by
  induction xs generalizing st with
  | nil => exact ⟨[], st, rfl, hst, .nil⟩
  | cons x xs ih =>
    obtain ⟨y, st₁, hy, hst₁, hxy⟩ := hg x st hst
    obtain ⟨ys, st', hys, hst', hall⟩ := ih hst₁
    refine ⟨y :: ys, st', ?_, hst', .cons hxy hall⟩
    rw [List.mapM_cons, outcome_bind_of_ok hy, outcome_bind_of_ok hys]
    rfl

theorem outcome_query_of_isOpen {st : State} (hopen : st.isOpen)
    (read : Store → Except StorageError α) :
    outcome (query read) st = ((read st.store).mapError .storage, st) := by
  rw [outcome_query, State.tables, if_pos hopen]
  rfl

theorem outcome_transact?_of_isOpen {st : State} (hopen : st.isOpen)
    (write : Store → Except StorageError (Option α × Store)) :
    outcome (transact? write) st = match write st.store with
      | .ok (some x, s) => (.ok (some x), { st with store := s })
      | .ok (none, _) => (.ok none, st)
      | .error e => (.error (.storage e), st) := by
  rw [outcome_transact?, State.tables, if_pos hopen]
  rfl

theorem outcome_require_of_ok {caller : Caller} {allowed : List CallerKind}
    (h : caller.require allowed = .ok ()) (st : State) :
    outcome (require caller allowed) st = (.ok (), st) := by
  rw [require, h, outcome_ofExcept]

theorem require_of_outcome {caller : Caller} {allowed : List CallerKind} {st st' : State}
    (h : outcome (require caller allowed) st = (.ok (), st')) :
    caller.require allowed = .ok () := by
  rw [require, outcome_ofExcept] at h
  exact congrArg Prod.fst h

/-- A caller of an allowed kind that is no tenant may go on. -/
theorem outcome_require_of_mem {caller : Caller} {allowed : List CallerKind} (st : State)
    (hkind : caller.kind ∈ allowed) (huser : caller.kind ≠ .user) :
    outcome (require caller allowed) st = (.ok (), st) := by
  have hok : caller.require allowed = .ok () := by
    simp [Caller.require, hkind, huser]
  exact outcome_require_of_ok hok st

/-- An administrator may go on wherever administrators may. -/
theorem outcome_require_of_admin {caller : Caller} {allowed : List CallerKind} (st : State)
    (hadmin : caller.kind = .admin) (hallowed : .admin ∈ allowed) :
    outcome (require caller allowed) st = (.ok (), st) :=
  outcome_require_of_mem st (hadmin ▸ hallowed) (by rw [hadmin]; decide)

theorem outcome_query_of_closed {st : State} (hclosed : ¬st.isOpen)
    (read : Store → Except StorageError α) :
    outcome (query read) st = (.error (.storage .closed), st) := by
  rw [outcome_query, State.tables, if_neg hclosed]
  rfl

theorem outcome_transact?_of_closed {st : State} (hclosed : ¬st.isOpen)
    (write : Store → Except StorageError (Option α × Store)) :
    outcome (transact? write) st = (.error (.storage .closed), st) := by
  rw [outcome_transact?, State.tables, if_neg hclosed]
  rfl

/-- An administrator may touch every list. -/
theorem outcome_checkCallerList {caller : Caller} (hadmin : caller.kind = .admin) (listId : Int)
    (st : State) : outcome (Ownership.checkCallerList caller listId) st = (.ok (), st) := by
  rw [Ownership.checkCallerList, Caller.userId?, hadmin]
  rfl

end ServiceM

open ServiceM

/-- The state in which a call that has passed the gate is carried out. -/
def State.counted (st : State) (call : Call) : State :=
  { st with counters := st.counters.add (.calls call.method) 1 }

/-- The state after a call has failed, once its failure is counted. -/
def State.failed (st : State) (call : Call) (e : ServiceError) : State :=
  { st with counters := st.counters.add (.failures call.method e.code) 1 }

namespace Gate

variable {gate : Gate} {token : Option String} {caller : Caller} {call : Call} {st st' : State}

theorem outcome_serve (gate : Gate) (token : Option String) (call : Call) (st : State) :
    outcome (gate.serve token call) st =
      match outcome (gate.authorized token call) (st.counted call) with
      | (.ok reply, st') => (.ok reply, st')
      | (.error e, st') => (.error e, st'.failed call e) := by
  have hcount : outcome (count (.calls call.method) 1) st = (.ok (), st.counted call) := rfl
  rw [serve, outcome_bind_of_ok hcount, outcome_bind, outcome_attempt]
  rcases outcome (gate.authorized token call) (st.counted call) with ⟨e | reply, st'⟩ <;> rfl

theorem outcome_authorized (h : gate.authenticate token = .ok caller) :
    outcome (gate.authorized token call) st = outcome (call.run gate.settings caller) st := by
  rw [authorized, h]
  exact outcome_bind_of_ok (outcome_ofExcept _ st)

/-- The reply is that of the call. -/
theorem reply_serve (h : gate.authenticate token = .ok caller) :
    (outcome (gate.serve token call) st).1 =
      (outcome (call.run gate.settings caller) (st.counted call)).1 := by
  rw [outcome_serve, outcome_authorized h]
  rcases outcome (call.run gate.settings caller) (st.counted call) with ⟨e | reply, st'⟩ <;> rfl

theorem serve_of_ok {reply : Reply} (h : gate.authenticate token = .ok caller)
    (hrun : outcome (call.run gate.settings caller) (st.counted call) = (.ok reply, st')) :
    outcome (gate.serve token call) st = (.ok reply, st') := by
  rw [outcome_serve, outcome_authorized h, hrun]

theorem serve_of_error {e : ServiceError} (h : gate.authenticate token = .ok caller)
    (hrun : outcome (call.run gate.settings caller) (st.counted call) = (.error e, st')) :
    outcome (gate.serve token call) st = (.error e, st'.failed call e) := by
  rw [outcome_serve, outcome_authorized h, hrun]

/-- A caller that is not known is turned away. -/
theorem serve_of_unknown {e : ServiceError} (h : gate.authenticate token = .error e) :
    outcome (gate.serve token call) st = (.error e, (st.counted call).failed call e) := by
  rw [outcome_serve, authorized, h, outcome_bind_of_error (outcome_ofExcept _ _)]

theorem serve_eq_ok {reply : Reply} (h : outcome (gate.serve token call) st = (.ok reply, st')) :
    ∃ caller, gate.authenticate token = .ok caller ∧
      outcome (call.run gate.settings caller) (st.counted call) = (.ok reply, st') := by
  rcases hknown : gate.authenticate token with e | caller
  · rw [serve_of_unknown hknown] at h
    cases h
  · rw [outcome_serve, outcome_authorized hknown] at h
    rcases hrun : outcome (call.run gate.settings caller) (st.counted call) with ⟨e | r, st₁⟩
    · rw [hrun] at h
      cases h
    · rw [hrun] at h
      cases h
      exact ⟨caller, rfl, hrun⟩

/-- A call fails at the gate, or when it is carried out. -/
theorem serve_eq_error {e : ServiceError}
    (h : outcome (gate.serve token call) st = (.error e, st')) :
    (gate.authenticate token = .error e ∧ st' = (st.counted call).failed call e) ∨
      ∃ caller st₁, gate.authenticate token = .ok caller ∧
        outcome (call.run gate.settings caller) (st.counted call) = (.error e, st₁) ∧
        st' = st₁.failed call e := by
  rcases hknown : gate.authenticate token with e' | caller
  · rw [serve_of_unknown hknown] at h
    cases h
    exact Or.inl ⟨rfl, rfl⟩
  · rw [outcome_serve, outcome_authorized hknown] at h
    rcases hrun : outcome (call.run gate.settings caller) (st.counted call) with ⟨e' | r, st₁⟩
    · rw [hrun] at h
      cases h
      exact Or.inr ⟨caller, st₁, rfl, hrun, rfl⟩
    · rw [hrun] at h
      cases h

/-- What is true once the call is counted, and when it is carried out, and is not undone by
counting a failure, is true in the end. -/
theorem holds_serve {P : State → Prop} (hcounted : P (st.counted call))
    (hfailed : ∀ st' e, P st' → P (st'.failed call e))
    (hrun : ∀ caller, gate.authenticate token = .ok caller →
      P (outcome (call.run gate.settings caller) (st.counted call)).2) :
    P (outcome (gate.serve token call) st).2 := by
  rcases houtcome : outcome (gate.serve token call) st with ⟨e | reply, st'⟩
  · rcases serve_eq_error houtcome with ⟨-, rfl⟩ | ⟨caller, st₁, hknown, hcall, rfl⟩
    · exact hfailed _ e hcounted
    · have hst₁ := hrun caller hknown
      rw [hcall] at hst₁
      exact hfailed st₁ e hst₁
  · obtain ⟨caller, hknown, hcall⟩ := serve_eq_ok houtcome
    have hst' := hrun caller hknown
    rw [hcall] at hst'
    exact hst'

/-- What counting does and what the call does, the gate does. -/
theorem leads_serve {R : State → State → Prop} [IsTrans State R]
    (hcounted : R st (st.counted call)) (hfailed : ∀ st' e, R st' (st'.failed call e))
    (hrun : ∀ caller, gate.authenticate token = .ok caller →
      Leads R (call.run gate.settings caller) (st.counted call)) :
    Leads R (gate.serve token call) st :=
  holds_serve hcounted (fun st' e h => IsTrans.trans _ _ _ h (hfailed st' e))
    fun caller hknown => IsTrans.trans _ _ _ hcounted (hrun caller hknown)

end Gate

end FirewallLists
