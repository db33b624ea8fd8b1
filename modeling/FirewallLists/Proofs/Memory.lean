import FirewallLists.Proofs.Service.Blind
import FirewallLists.Proofs.Service.Poll

/-
  Remembering lists saves look-ups and changes nothing else. Only a pull asks for lists that may be
  remembered, and since whoever changes a list lets it be forgotten, what is remembered is what the
  tables say (`State.Coherent`), also of lists that are not there. So the services can be run beside
  services that remember nothing, and both give the same answers, leave the same tables and send the
  same signals (`memory_transparent`). Lists are written by the services only; items and the
  directory may be written by others.
-/

namespace FirewallLists

open ServiceM

/-! ## Pulls without memory -/

theorem State.coherent_bare (st : State) : st.bare.Coherent :=
  fun _ hentry => absurd hentry List.not_mem_nil

/-- The same settings, but lists are remembered for so many seconds. -/
def Settings.remembering (cfg : Settings) (seconds : Nat) : Settings :=
  { cfg with listCacheSeconds := seconds }

theorem ServiceM.Looks.attempt {α : Type} {a : ServiceM α} (ha : Looks a) :
    Looks (ServiceM.attempt a) := ha

namespace Pull

/-- Where nothing is remembered lists are only looked up. -/
theorem looks_projectAll (cfg : Settings) (time : Int) (items : List Item) :
    Looks (projectAll (cfg.remembering 0) time items) := by
  have hfind : ∀ id, Looks (Lists.findRemembered (cfg.remembering 0) id) :=
    fun id => looks_query _
  induction items with
  | nil => exact looks_pure []
  | cons item items ih =>
    refine Looks.bind ?_ fun list => ih.bind fun rest => looks_pure _
    refine (hfind item.listId).attempt.bind fun list => ?_
    split <;> exact looks_pure _

theorem bares_projectAll {st : State} (hst : st.Coherent) (hopen : st.isOpen) (cfg : Settings)
    (time : Int) (items : List Item) :
    Bares (projectAll cfg time items) (projectAll (cfg.remembering 0) time items) st := by
  obtain ⟨st₁, hseen, hremembers⟩ := outcome_projectAll hst hopen cfg time items
  obtain ⟨st₂, hbare, -⟩ :=
    outcome_projectAll st.coherent_bare hopen (cfg.remembering 0) time items
  rw [Bares, hbare, hseen, (looks_projectAll cfg time items).eq_of_outcome hbare,
    hremembers.bare]
  rfl

/-- A pull answers as it would if nothing was remembered. -/
theorem bares_itemsAfter {st : State} (hst : st.Coherent) (cfg : Settings) (caller : Caller)
    (version size : Int) :
    Bares (itemsAfter cfg caller version size)
      (itemsAfter (cfg.remembering 0) caller version size) st := by
  refine (blind_require _ _ st).bind fun _ st₁ hrequire => ?_
  cases (looks_require _ _).eq_of_outcome hrequire
  refine (blind_query _ st).bind fun items st₁ hquery => ?_
  obtain ⟨rfl, hopen, -⟩ := outcome_query_eq_ok.mp hquery
  refine (blind_now st₁).bind fun time st₂ htime => ?_
  cases htime
  refine (bares_projectAll hst hopen cfg _ items).bind fun seen st₂ _ => ?_
  exact ((blind_count _ _).bind fun _ => blind_pure _) st₂

end Pull

/-! ## Calls without memory -/

/-- The same services, but lists are remembered for so many seconds. -/
def Gate.remembering (gate : Gate) (seconds : Nat) : Gate :=
  { gate with settings := gate.settings.remembering seconds }

theorem Call.bares_run {st : State} (hst : st.Coherent) (cfg : Settings) (caller : Caller)
    (call : Call) : Bares (call.run cfg caller) (call.run (cfg.remembering 0) caller) st := by
  cases hpull : call.isPull with
  | false =>
    have hsame : call.run (cfg.remembering 0) caller = call.run cfg caller := by
      cases call <;> first | rfl | cases hpull
    rw [hsame]
    exact Call.blind_run hpull cfg caller st
  | true =>
    cases call with
    | pullItems version size => exact (Pull.bares_itemsAfter hst cfg caller version size).map _
    | _ => cases hpull

/-- A call is answered as it would be if nothing was remembered. -/
theorem Gate.bares_serve {st : State} (hst : st.Coherent) (gate : Gate) (token : Option String)
    (call : Call) : Bares (gate.serve token call) ((gate.remembering 0).serve token call) st := by
  refine (blind_count _ _ st).bind fun _ st₁ hcount => ?_
  cases hcount
  have hauthorized : Bares (gate.authorized token call)
      ((gate.remembering 0).authorized token call) (st.counted call) := by
    have hcounted : (st.counted call).Coherent := hst
    refine (blind_ofExcept _ _).bind fun caller st₁ hcaller => ?_
    rw [(looks_ofExcept _).eq_of_outcome hcaller]
    exact Call.bares_run hcounted gate.settings caller call
  refine hauthorized.attempt.bind fun result st₂ _ => ?_
  cases result with
  | ok reply => exact blind_pure reply st₂
  | error e => exact ((blind_count _ _).bind fun _ => blind_throw e) st₂

/-! ## Runs -/

/-- How lists are remembered at a time: for how many seconds, and which are dropped before whatever
happens next. -/
structure Memory where
  seconds : Nat
  drops : Int → Bool

/-- Nothing is remembered. -/
def Memory.none : Memory where
  seconds := 0
  drops _ := true

/-- The state after some lists have been dropped from memory. -/
def State.dropping (st : State) (drops : Int → Bool) : State :=
  { st with cache := st.cache.filter fun entry => !drops entry.1 }

/-- What can happen to services beside which others write items. -/
inductive Happening where
  | event (event : Event)
  /-- Somebody else has written items and the last version given out. -/
  | written (items : Table ItemRow) (sequence : Int)

/-- What is answered, and the state afterwards. -/
def Happening.apply (seconds : Nat) (st : State) :
    Happening → List (Except ServiceError Reply) × State
  | .event (.call gate token call) =>
    let answer := outcome ((gate.remembering seconds).serve token call) st
    ([answer.1], answer.2)
  | .event other => ([], other.apply st)
  | .written items sequence => ([], { st with store := st.store.withItems items sequence })

/-- All answers, and the state in the end. -/
def observe : List Happening → (Nat → Memory) → State → List (Except ServiceError Reply) × State
  | [], _, st => ([], st)
  | happening :: rest, memory, st =>
    let first := happening.apply (memory 0).seconds (st.dropping (memory 0).drops)
    let later := observe rest (fun n => memory (n + 1)) first.2
    (first.1 ++ later.1, later.2)

/-- All that can be seen from outside: the answers, and the state in the end but for the lists that
are remembered. -/
def visible (happenings : List Happening) (memory : Nat → Memory) (st : State) :
    List (Except ServiceError Reply) × State :=
  ((observe happenings memory st).1, (observe happenings memory st).2.bare)

theorem State.Coherent.dropping {st : State} (h : st.Coherent) (drops : Int → Bool) :
    (st.dropping drops).Coherent :=
  fun entry hentry => h entry (List.mem_of_mem_filter hentry)

namespace Happening

variable {st : State}

/-- What is remembered stays true, also when others write items. -/
theorem coherent_apply (hst : st.Coherent) (seconds : Nat) (happening : Happening) :
    (happening.apply seconds st).2.Coherent := by
  cases happening with
  | written items sequence => exact hst
  | event event =>
    cases event with
    | call gate token call =>
      exact (next_call (gate.remembering seconds) token call st).coherent hst
    | time now => exact (next_apply (.time now) st).coherent hst
    | closed => exact (next_apply .closed st).coherent hst
    | failing kinds => exact (next_apply (.failing kinds) st).coherent hst
    | restarted => exact (next_apply .restarted st).coherent hst
    | lapsed ids => exact (next_apply (.lapsed ids) st).coherent hst
    | directory tables => exact (next_apply (.directory tables) st).coherent hst

/-- What happens is answered as it would be if nothing was remembered. -/
theorem apply_bare (hst : st.Coherent) (seconds : Nat) (happening : Happening) :
    happening.apply 0 st.bare =
      ((happening.apply seconds st).1, (happening.apply seconds st).2.bare) := by
  cases happening with
  | written items sequence => rfl
  | event event =>
    cases event with
    | call gate token call =>
      have hserve : outcome ((gate.remembering 0).serve token call) st.bare = _ :=
        Gate.bares_serve hst (gate.remembering seconds) token call
      dsimp only [apply]
      rw [hserve]
    | _ => rfl

end Happening

/-- However much is remembered, what can be seen is what the services do that remember nothing. -/
theorem observe_bare (happenings : List Happening) (memory : Nat → Memory) {st : State}
    (hst : st.Coherent) :
    observe happenings (fun _ => .none) st.bare = visible happenings memory st ∧
      (observe happenings memory st).2.Coherent := by
  induction happenings generalizing memory st with
  | nil => exact ⟨rfl, hst⟩
  | cons happening rest ih =>
    have hdropped := hst.dropping (memory 0).drops
    obtain ⟨hrest, hcoherent⟩ := ih (fun n => memory (n + 1))
      (happening.coherent_apply hdropped (memory 0).seconds)
    refine ⟨?_, hcoherent⟩
    have hfirst : happening.apply 0 (st.bare.dropping fun _ => true) = _ :=
      happening.apply_bare hdropped (memory 0).seconds
    rw [visible, observe, observe]
    dsimp only [Memory.none] at hrest ⊢
    rw [hfirst]
    dsimp only
    rw [hrest]
    rfl

theorem visible_eq_observe (happenings : List Happening) (memory : Nat → Memory) (st : State) :
    visible happenings memory st.bare = observe happenings (fun _ => .none) st.bare :=
  (observe_bare happenings memory st.coherent_bare).1.symm

/-- Where nothing is remembered a run may be cut anywhere. -/
theorem observe_append (before after : List Happening) (st : State) :
    observe (before ++ after) (fun _ => .none) st =
      let first := observe before (fun _ => .none) st
      let later := observe after (fun _ => .none) first.2
      (first.1 ++ later.1, later.2) := by
  induction before generalizing st with
  | nil => rfl
  | cons happening before ih =>
    rw [List.cons_append, observe, observe, ih]
    dsimp only
    rw [List.append_assoc]

/-- A restart of services that are in order changes nothing but what is remembered. -/
theorem State.restarted_bare {st : State} (hopen : st.isOpen) (hfailing : st.failing = []) :
    st.bare.restarted = st.bare := by
  unfold State.restarted State.bare
  rw [hopen, hfailing]

/-- Whatever happens, and whatever lists are remembered for how long, the answers are the same, and
so are the tables, signals and counters in the end; what is remembered is always as it is stored.
A restart may come in between whenever the services are in order. -/
theorem memory_transparent (happenings : List Happening) (memory memory' : Nat → Memory)
    (st : State) :
    visible happenings memory st.bare = visible happenings memory' st.bare ∧
    (observe happenings memory st.bare).2.Coherent ∧
    ∀ before after, happenings = before ++ after →
      (observe before memory st.bare).2.isOpen → (observe before memory st.bare).2.failing = [] →
      visible (before ++ .event .restarted :: after) memory' st.bare =
        visible happenings memory st.bare := by
  refine ⟨?_, (observe_bare happenings memory st.coherent_bare).2, ?_⟩
  · rw [visible_eq_observe, visible_eq_observe]
  · rintro before after rfl hopen hfailing
    -- both runs are those of services without memory, for which the restart does nothing
    have hbefore := visible_eq_observe before memory st
    rw [visible_eq_observe, visible_eq_observe, observe_append, observe_append, ← hbefore]
    dsimp only [visible]
    have hrestart : (Happening.event .restarted).apply Memory.none.seconds
        ((observe before memory st.bare).2.bare.dropping Memory.none.drops) =
        ([], (observe before memory st.bare).2.bare) :=
      congrArg (Prod.mk []) (State.restarted_bare hopen hfailing)
    rw [observe, hrestart]
    rfl

/-- An item is pulled before its list is there, once it has been made, and after it has been
deleted. A restart comes before the list is made, when it is remembered that there is none. -/
theorem memory_transparent_of_missing_list :
    let st : State := { now := 0 }
    let pull : Happening := .event (.call adminGate (some "key") (.pullItems 0 10))
    let before := [.written (st.beside 1 1).store.items 1, pull]
    let after := [.event (.call adminGate (some "key") (.createList publicBlackList)), pull,
      .event (.call adminGate (some "key") (.deleteList 1)), pull]
    let always : Nat → Memory := fun _ => ⟨60, fun _ => false⟩
    (observe before always st.bare).2.cache = [(1, none)] ∧
      (observe (before ++ after) always st.bare).2.cache.map (·.1) = [1] ∧
      visible (before ++ after) always st.bare =
        visible (before ++ after) (fun _ => .none) st.bare ∧
      visible (before ++ .event .restarted :: after) (fun _ => .none) st.bare =
        visible (before ++ after) always st.bare := by
  intro st pull before after always
  have hopen : (observe before always st.bare).2.isOpen := by decide +kernel
  have hfailing : (observe before always st.bare).2.failing = [] := by decide +kernel
  obtain ⟨hsame, -, hrestart⟩ :=
    memory_transparent (before ++ after) always (fun _ => .none) st
  exact ⟨by decide +kernel, by decide +kernel, hsame, hrestart before after rfl hopen hfailing⟩

end FirewallLists
