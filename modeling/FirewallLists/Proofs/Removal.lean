import FirewallLists.Proofs.Net.RangeMeaning
import FirewallLists.Proofs.Overlap
import FirewallLists.Proofs.Service.Retirement

/-
  Deleting by bounds. The tables look for the texts of a range's bounds. Since every row's texts
  tell of the same addresses as its keys, and no two addresses are written alike, these are the rows
  with the bounds of the range and no others (`ItemRow.Spans.hasBounds_iff`), however a caller
  writes them. The rows found are switched off in the order of their ids, if there is a version for
  each of them and at least one, and after that no request for the same bounds finds any
  (`deletes_exact_bounds`).
-/

namespace FirewallLists

open Net Relation ServiceM

/-! ## Texts of bounds -/

theorem Net.Address.toText_inj {a b : Address} (h : a.toText = b.toText) : a = b := by
  have hread := Address.ofText?_toText a
  rw [h, Address.ofText?_toText] at hread
  exact (Option.some.inj hread).symm

theorem Net.Range.highText_of_ne {f : Range} (h : f.low ≠ f.high) :
    f.highText = f.high.toText := by
  simp [Range.highText, Range.isSingle, h]

/-- Ranges whose bounds are written alike have the same bounds. -/
theorem Net.Range.texts_eq_iff {f g : Range} :
    f.lowText = g.lowText ∧ f.highText = g.highText ↔ f.low = g.low ∧ f.high = g.high := by
  constructor
  · rintro ⟨hlow, hhigh⟩
    have hlow' : f.low = g.low := Address.toText_inj hlow
    refine ⟨hlow', ?_⟩
    by_cases hsingle : f.low = f.high
    · have hempty : g.highText = "" := hhigh ▸ f.highText_eq_empty_iff.mpr hsingle
      exact hsingle.symm.trans (hlow'.trans (g.highText_eq_empty_iff.mp hempty))
    · have hsingle' : g.low ≠ g.high := by
        intro heq
        rw [g.highText_eq_empty_iff.mpr heq] at hhigh
        exact hsingle (f.highText_eq_empty_iff.mp hhigh)
      rw [Range.highText_of_ne hsingle, Range.highText_of_ne hsingle'] at hhigh
      exact Address.toText_inj hhigh
  · rintro ⟨hlow, hhigh⟩
    refine ⟨congrArg Address.toText hlow, ?_⟩
    rw [Range.highText, Range.highText, Range.isSingle, Range.isSingle, hlow, hhigh]

namespace ItemRow

/-- The row is of the range's family, and its keys are those of the range's bounds. -/
structure HasBounds (r : ItemRow) (f : Range) : Prop where
  family : r.family = f.family.name
  fromKey : r.fromKey = f.low.key
  toKey : r.toKey = f.high.key

variable {r q : ItemRow} {f g : Range}

/-- Only the bounds of the range matter. -/
theorem HasBounds.congr (h : r.HasBounds f) (hlow : g.low = f.low) (hhigh : g.high = f.high) :
    r.HasBounds g where
  family := by rw [h.family, Range.family, Range.family, hlow]
  fromKey := by rw [h.fromKey, hlow]
  toKey := by rw [h.toKey, hhigh]

/-- Rows with the same bounds overlap. -/
theorem HasBounds.overlaps (hr : r.HasBounds f) (hq : q.HasBounds f) :
    r.overlaps q.family q.fromKey q.toKey := by
  have hle : keyLe f.low.key f.high.key := (Address.keyLe_key_iff f.family_eq.symm).mpr f.le
  rw [overlaps_iff, hr.family, hr.fromKey, hr.toKey, hq.family, hq.fromKey, hq.toKey]
  exact ⟨rfl, hle, hle⟩

/-- The texts of a row's bounds are those of a range exactly if its keys are. -/
theorem Spans.hasBounds_iff {range : Option Range} (h : r.Spans range) :
    r.ipFrom = f.lowText ∧ r.ipTo = f.highText ↔ r.HasBounds f := by
  cases range with
  | none =>
    refine iff_of_false (fun htexts => ?_) fun hbounds => ?_
    · exact Address.toText_ne_empty f.low (htexts.1.symm.trans h.ipFrom)
    · exact Family.name_ne_all f.family (hbounds.family.symm.trans h.family)
  | some g =>
    have hfrom : r.ipFrom = g.lowText := h.ipFrom
    have hto : r.ipTo = g.highText := h.ipTo
    rw [hfrom, hto, Range.texts_eq_iff]
    have hself : r.HasBounds g := ⟨h.family, h.fromKey, h.toKey⟩
    constructor
    · rintro ⟨hlow, hhigh⟩
      exact hself.congr hlow.symm hhigh.symm
    · intro hbounds
      have hfamily : g.low.family = f.low.family :=
        Family.name_inj (hself.family.symm.trans hbounds.family)
      refine ⟨Address.key_inj hfamily (hself.fromKey.symm.trans hbounds.fromKey), ?_⟩
      refine Address.key_inj ?_ (hself.toKey.symm.trans hbounds.toKey)
      exact g.family_eq.trans (hfamily.trans f.family_eq.symm)

end ItemRow

namespace Store

variable {s : Store} {scope : Scope} {range : Range} {r : ItemRow}

theorem mem_withBounds (hspanned : s.Spanned) : r ∈ s.withBounds scope range ↔
    r ∈ s.items.rows ∧ r.isLive ∧ scope.admits r.listId ∧ r.HasBounds range := by
  simp only [withBounds, List.mem_filter, Bool.and_eq_true, beq_iff_eq]
  refine and_congr_right fun hr => ?_
  obtain ⟨_, hrange⟩ := hspanned r hr
  rw [← hrange.hasBounds_iff]
  exact ⟨fun ⟨⟨⟨hlive, hfrom⟩, hto⟩, hscope⟩ => ⟨hlive, hscope, hfrom, hto⟩,
    fun ⟨hlive, hscope, hfrom, hto⟩ => ⟨⟨⟨hlive, hfrom⟩, hto⟩, hscope⟩⟩

/-- There have to be versions for all rows with the bounds, and at least one. -/
theorem disableMatching_eq (hs : s.Ordered) (hv : s.Versioned) (hbounded : s.sequence ≤ maxInteger)
    (hvalues : 2 + scope.values ≤ maxValues) (range : Range) :
    s.disableMatching scope range =
      if s.sequence + max 1 ((s.withBounds scope range).length : Int) ≤ maxInteger
      then .ok (s.retirements (s.withBounds scope range),
        if s.withBounds scope range = [] then s.reserved
        else s.afterRetiring (s.withBounds scope range))
      else .error .noVersionLeft := by
  by_cases hfound : s.withBounds scope range = []
  · have hroom : s.sequence + max 1 (([] : List ItemRow).length : Int) ≤ maxInteger ↔
        s.sequence < maxInteger := by
      rw [List.length_nil]
      omega
    rw [disableMatching_of_none hvalues hfound, hfound]
    simp only [hroom, retirements_nil, if_true]
  · have hrows : ∀ r ∈ s.withBounds scope range, r ∈ s.items.rows :=
      fun _ hr => List.mem_of_mem_filter hr
    have hlength := List.length_pos_iff.mpr hfound
    have hone : max 1 ((s.withBounds scope range).length : Int) =
        (s.withBounds scope range).length := by omega
    rw [disableMatching_of_found hvalues hfound, if_neg hfound, hone]
    exact retireAll_eq hs hv hbounded hrows (nodup_ids_filter hs.items _)

/-- A delete that takes too many values fails. -/
theorem exists_disableMatching_error (hmany : ¬2 + scope.values ≤ maxValues) (range : Range) :
    ∃ e, s.disableMatching scope range = .error e := by
  by_cases hroom : s.sequence < maxInteger
  · rw [disableMatching_of_room hroom]
    exact ⟨_, bind_of_error (checkValues_of_lt hmany) _⟩
  · exact ⟨_, disableMatching_of_exhausted hroom scope range⟩

end Store

/-! ## What a request reaches -/

namespace Items

/-- The request names a range, by its value or by its bounds. -/
def DeleteRequest.Names (request : DeleteRequest) (range : Range) : Prop :=
  request.itemId ≤ 0 ∧
    ((Range.ofValue request.value = .ok range ∧ Text.allBlank request.ipFrom) ∨
      (Text.allBlank request.value ∧
        Range.ofBounds request.ipFrom request.ipTo = .ok range))

/-- A list is within reach of a delete: it is the one that is named, or else the caller is not a
tenant or the list is the tenant's own. -/
def Reaches (s : Store) (caller : Caller) (named listId : Int) : Prop :=
  if 0 < named then listId = named
  else ∀ userId, caller.userId? = some userId → s.Owns userId listId

/-- The lists within reach of a delete. -/
def reach (s : Store) (caller : Caller) (named : Int) : Scope :=
  if 0 < named then .lists [named] else s.scopeOf caller.userId?

/-- A delete can be made: the tables can be reached, the lists of a tenant can be told if they are
meant, and the lists within reach are few enough to be named in one statement beside the bounds. -/
structure Ready (st : State) (caller : Caller) (named : Int) : Prop where
  isOpen : st.isOpen
  lists : ¬0 < named → st.CanTell caller.userId?
  values : 2 + (reach st.store caller named).values ≤ maxValues

variable {st : State} {caller : Caller} {named : Int} {request : DeleteRequest} {range : Range}

theorem admits_reach_iff {s : Store} {listId : Int} :
    (reach s caller named).admits listId ↔ Reaches s caller named listId := by
  unfold reach Reaches
  split
  · simp [Scope.admits]
  · exact Store.admits_scopeOf_iff

/-- The one list that is named is not too many. -/
theorem values_reach_of_named (hnamed : 0 < named) (s : Store) :
    2 + (reach s caller named).values ≤ maxValues := by
  have hone : (Scope.lists [named]).values = 1 := rfl
  rw [reach, if_pos hnamed, hone]
  decide

theorem Ready.alike {st' : State} (h : Ready st caller named) (halike : st.Alike st') :
    Ready st' caller named where
  isOpen := halike.isOpen.trans h.isOpen
  lists := fun hnamed => (halike.canTell_iff _).mpr (h.lists hnamed)
  values := by
    rw [reach, halike.store.scopeOf]
    exact h.values

/-- When the caller may touch the list that is named, the scope of a delete is what is within its
reach. -/
theorem outcome_deleteScope (htell : ¬0 < named → st.CanTell caller.userId?)
    (hlist : 0 < named → outcome (Ownership.checkCallerList caller named) st = (.ok (), st)) :
    outcome (deleteScope caller named) st = (.ok (reach st.store caller named), st) := by
  unfold deleteScope reach
  by_cases hnamed : 0 < named
  · rw [if_pos hnamed, if_pos hnamed, outcome_bind_of_ok (hlist hnamed)]
    rfl
  · rw [if_neg hnamed, if_neg hnamed]
    exact Ownership.outcome_scopeOf (htell hnamed)

theorem outcome_count_signalLast {α : Type} (sample : Sample) (n : Nat) (last : Option Change)
    (x : α) (st : State) :
    outcome (do count sample n; signalLast last; return x : ServiceM α) st =
      (.ok x, (outcome (signalLast last) { st with counters := st.counters.add sample n }).2) := by
  rw [outcome_bind, count, outcome_modify]
  dsimp only
  rw [outcome_signalLast_bind, outcome_pure]

theorem store_signalLast (last : Option Change) (st : State) :
    (outcome (signalLast last) st).2.store = st.store := by
  cases last <;> rfl

/-- The rows with the bounds are switched off and counted, if there are versions for them. -/
theorem outcome_deleteBounds (hready : Ready st caller named) (hs : st.store.Ordered)
    (hv : st.store.Versioned) (hbounded : st.store.sequence ≤ maxInteger)
    (hlist : 0 < named → outcome (Ownership.checkCallerList caller named) st = (.ok (), st))
    (range : Range) {rows : List ItemRow}
    (hrows : st.store.withBounds (reach st.store caller named) range = rows) :
    (st.store.sequence + max 1 (rows.length : Int) ≤ maxInteger →
      ∃ st', outcome (deleteBounds caller range named) st = (.ok rows.length, st') ∧
        st'.store = st.store.afterRetiring rows ∧ (rows = [] → st'.channel = st.channel)) ∧
    (¬st.store.sequence + max 1 (rows.length : Int) ≤ maxInteger →
      outcome (deleteBounds caller range named) st = (.error (.storage .noVersionLeft), st)) := by
  have hmatching := Store.disableMatching_eq hs hv hbounded hready.values range
  rw [hrows] at hmatching
  have hscope := outcome_deleteScope hready.lists hlist
  constructor
  · intro hroom
    rw [if_pos hroom] at hmatching
    rw [deleteBounds, outcome_bind_of_ok hscope, outcome_bind,
      outcome_transact?_of_isOpen hready.isOpen, bind_of_ok hmatching]
    cases rows with
    | nil => exact ⟨_, rfl, (Store.afterRetiring_nil _).symm, fun _ => rfl⟩
    | cons row rows =>
      have hempty : (st.store.retirements (row :: rows)).isEmpty = false := by
        simp [Store.retirements]
      have hlength : (st.store.retirements (row :: rows)).length = (row :: rows).length :=
        List.length_mapIdx
      have htold := outcome_count_signalLast (.itemsWritten .delete)
        (st.store.retirements (row :: rows)).length
        ((st.store.retirements (row :: rows)).getLast?.map (·.change))
        (st.store.retirements (row :: rows)).length
        { st with store := st.store.afterRetiring (row :: rows) }
      dsimp only
      rw [hempty, ← hlength]
      exact ⟨_, htold, store_signalLast _ _, fun hnil => absurd hnil (List.cons_ne_nil _ _)⟩
  · intro hroom
    rw [if_neg hroom] at hmatching
    rw [deleteBounds, outcome_bind_of_ok hscope]
    refine outcome_bind_of_error ?_
    rw [outcome_transact?_of_isOpen hready.isOpen, bind_of_error hmatching]

/-- When a delete cannot be made, nothing is deleted. -/
theorem outcome_deleteBounds_of_not_ready (hready : ¬Ready st caller named)
    (hlist : 0 < named → outcome (Ownership.checkCallerList caller named) st = (.ok (), st))
    (range : Range) :
    ∃ e, outcome (deleteBounds caller range named) st = (.error (.storage e), st) := by
  unfold deleteBounds
  by_cases htell : ¬0 < named → st.CanTell caller.userId?
  · rw [outcome_bind_of_ok (outcome_deleteScope htell hlist)]
    by_cases hopen : st.isOpen
    · have hmany : ¬2 + (reach st.store caller named).values ≤ maxValues :=
        fun hvalues => hready ⟨hopen, htell, hvalues⟩
      obtain ⟨e, hmatching⟩ := Store.exists_disableMatching_error (s := st.store) hmany range
      refine ⟨e, outcome_bind_of_error ?_⟩
      rw [outcome_transact?_of_isOpen hopen, bind_of_error hmatching]
    · exact ⟨_, outcome_bind_of_error (outcome_transact?_of_closed hopen _)⟩
  · obtain ⟨hnamed, hcannot⟩ := Classical.not_imp.mp htell
    obtain ⟨e, hscope⟩ := Ownership.exists_outcome_scopeOf_eq_error hcannot
    rw [deleteScope, if_neg hnamed]
    exact ⟨e, outcome_bind_of_error hscope⟩

/-- What a request names it names by one of the two, and gives nothing else. -/
theorem DeleteRequest.Names.target (h : request.Names range) :
    (request.target = .ok (.value request.value) ∧ Range.ofValue request.value = .ok range) ∨
    (request.target = .ok (.bounds request.ipFrom request.ipTo) ∧
      Range.ofBounds request.ipFrom request.ipTo = .ok range) := by
  obtain ⟨hid, hrange⟩ := h
  have hnone : decide (0 < request.itemId) = false := decide_eq_false (by omega)
  rcases hrange with ⟨hread, hblank⟩ | ⟨hblank, hread⟩
  · refine Or.inl ⟨?_, hread⟩
    rw [DeleteRequest.target, hnone, Range.not_blank_of_ofValue hread, hblank]
    rfl
  · refine Or.inr ⟨?_, hread⟩
    rw [DeleteRequest.target, hnone, hblank, Range.not_blank_of_ofBounds hread]
    rfl

theorem DeleteRequest.Names.outcome_delete (h : request.Names range)
    (hkind : caller.require [.admin, .user] = .ok ()) (st : State) :
    outcome (delete caller request) st =
      outcome (deleteBounds caller range request.listId) st := by
  unfold delete
  rcases h.target with ⟨htarget, hread⟩ | ⟨htarget, hread⟩
  all_goals
    rw [htarget, outcome_bind_of_ok (outcome_ofExcept _ st),
      outcome_bind_of_ok (outcome_require_of_ok hkind st)]
    dsimp only
    rw [hread]
    exact outcome_bind_of_ok (outcome_ofExcept _ st)

end Items

/-- These rows, in the order of their ids, are switched on within reach of a delete and have the
bounds of the range. -/
structure Store.AtBounds (s : Store) (caller : Caller) (named : Int) (range : Range)
    (gone : List ItemRow) : Prop where
  ascending : gone.Pairwise fun r q => r.id < q.id
  mem_iff : ∀ r, r ∈ gone ↔ r ∈ s.items.rows ∧ r.isLive ∧
    Items.Reaches s caller named r.listId ∧ r.HasBounds range

namespace Store.AtBounds

variable {s s' : Store} {caller : Caller} {named : Int} {range : Range} {gone : List ItemRow}

/-- Of a list that is named there is one row at most. -/
theorem length_le_one (h : s.AtBounds caller named range gone) (hapart : s.Apart)
    (hnamed : 0 < named) : gone.length ≤ 1 := by
  match gone, h with
  | [], _ => simp
  | [r], _ => simp
  | r :: q :: rest, h =>
    obtain ⟨hr, hrlive, hrlist, hrbounds⟩ := (h.mem_iff r).mp (by simp)
    obtain ⟨hq, hqlive, hqlist, hqbounds⟩ := (h.mem_iff q).mp (by simp)
    have hne : r.id ≠ q.id := by
      have hlt := (List.pairwise_cons.mp h.ascending).1 q (by simp)
      omega
    rw [Items.Reaches, if_pos hnamed] at hrlist hqlist
    exact absurd ⟨hrlive, hqlive, hrlist.trans hqlist.symm, hrbounds.overlaps hqbounds⟩
      (hapart r hr q hq hne)

/-- Once they are switched off, no row is left that has these bounds. -/
theorem eq_nil_of_switchesOff (h : s.AtBounds caller named range gone)
    (hoff : s.SwitchesOff gone s') {other : Range} (hlow : other.low = range.low)
    (hhigh : other.high = range.high) {left : List ItemRow}
    (hleft : s'.AtBounds caller named other left) : left = [] := by
  rw [List.eq_nil_iff_forall_not_mem]
  intro r hr
  obtain ⟨hmem, hlive, hreach, hbounds⟩ := (hleft.mem_iff r).mp hr
  obtain ⟨hbefore, hnot⟩ := hoff.mem_of_isLive hmem hlive
  refine hnot ((h.mem_iff r).mpr ⟨hbefore, hlive, ?_, hbounds.congr hlow.symm hhigh.symm⟩)
  unfold Items.Reaches at hreach ⊢
  simpa only [hoff.alike.owns_iff] using hreach

end Store.AtBounds

/-! ## Deletes -/

section

variable {st : State} {gate : Gate} {token : Option String} {caller : Caller}
  {request : Items.DeleteRequest} {range : Range}

/-- The rows with the bounds are switched off and counted, if there are versions for them. -/
theorem Gate.serve_deleteBounds (h : Reachable st) (hauth : gate.authenticate token = .ok caller)
    (hkind : caller.require [.admin, .user] = .ok ()) (hnames : request.Names range)
    (hlist : 0 < request.listId → caller.MayRevise st request.listId)
    (hready : Items.Ready st caller request.listId) :
    ∃ gone, st.store.AtBounds caller request.listId range gone ∧
      (st.store.sequence + max 1 (gone.length : Int) ≤ maxInteger →
        ∃ st', outcome (gate.serve token (.deleteItem request)) st =
            (.ok (.count gone.length), st') ∧
          st.store.SwitchesOff gone st'.store ∧
          (gone = [] → st'.store = st.store ∧ st'.channel = st.channel)) ∧
      (¬st.store.sequence + max 1 (gone.length : Int) ≤ maxInteger →
        ∃ st', outcome (gate.serve token (.deleteItem request)) st =
            (.error (.storage .noVersionLeft), st') ∧ st'.store = st.store) := by
  have hs := h.ordered
  have hready' : Items.Ready (st.counted (.deleteItem request)) caller request.listId :=
    hready.alike (st.alike_counted _)
  have hdelete := hnames.outcome_delete hkind (st.counted (.deleteItem request))
  obtain ⟨gone, hgone⟩ :
      ∃ gone, st.store.withBounds (Items.reach st.store caller request.listId) range = gone :=
    ⟨_, rfl⟩
  obtain ⟨hswitch, hfail⟩ := Items.outcome_deleteBounds hready' hs h.versioned
    (h.holds Store.invariant_bounded) (fun hnamed => ((hlist hnamed).counted _).list) range hgone
  refine ⟨gone, ?_, fun hroom => ?_, fun hroom => ?_⟩
  · subst hgone
    refine ⟨hs.items.ascending.filter _, fun r => ?_⟩
    rw [Store.mem_withBounds (h.holds Store.invariant_spanned), Items.admits_reach_iff]
  · obtain ⟨st', hrun, hstore, hchannel⟩ := hswitch hroom
    have hrun := hdelete.trans hrun
    refine ⟨st', Gate.serve_of_ok hauth (outcome_map_eq_ok.mpr ⟨_, hrun, rfl⟩), ?_, ?_⟩
    · rw [hstore]
      subst hgone
      exact Store.switchesOff_afterRetiring hs (fun _ hr => List.mem_of_mem_filter hr)
        (Store.nodup_ids_filter hs.items _)
    · intro hnone
      refine ⟨hstore.trans ?_, hchannel hnone⟩
      rw [hnone, Store.afterRetiring_nil]
      rfl
  · exact ⟨_, Gate.serve_of_error hauth (outcome_map_eq_error.mpr (hdelete.trans (hfail hroom))),
      rfl⟩

end

/-- In every reachable state a delete that names a range switches off the rows with just its bounds
within its reach, in the order of their ids, and answers how many these are; of a list that is named
there is one at most. After that a delete of the same bounds, whatever it writes them as, answers
that there are none and leaves everything as it is. Each row takes a version, and one has to be left
even when there is no such row: else the call fails. It fails as well when the tables or the
tenant's servers cannot be reached, or when these servers or the tenant's lists are too many for one
statement. A call that fails leaves the tables as they are. -/
theorem deletes_exact_bounds {st : State} (h : Reachable st) {gate : Gate} {token : Option String}
    {caller : Caller} (hauth : gate.authenticate token = .ok caller)
    (hkind : caller.require [.admin, .user] = .ok ()) {request : Items.DeleteRequest}
    {range : Range} (hnames : request.Names range)
    (hlist : 0 < request.listId → caller.MayRevise st request.listId) :
    (Items.Ready st caller request.listId →
      ∃ gone, st.store.AtBounds caller request.listId range gone ∧
        (0 < request.listId → gone.length ≤ 1) ∧
        (st.store.sequence + max 1 (gone.length : Int) ≤ maxInteger →
          ∃ st', outcome (gate.serve token (.deleteItem request)) st =
              (.ok (.count gone.length), st') ∧
            st.store.SwitchesOff gone st'.store ∧
            ∀ (again : Items.DeleteRequest) (other : Range), again.Names other →
              other.low = range.low → other.high = range.high → again.listId = request.listId →
              st'.store.sequence < maxInteger →
                ∃ st'', outcome (gate.serve token (.deleteItem again)) st' =
                    (.ok (.count 0), st'') ∧
                  st''.store = st'.store ∧ st''.channel = st'.channel) ∧
        (¬st.store.sequence + max 1 (gone.length : Int) ≤ maxInteger →
          ∃ st', outcome (gate.serve token (.deleteItem request)) st =
              (.error (.storage .noVersionLeft), st') ∧ st'.store = st.store)) ∧
    (¬Items.Ready st caller request.listId →
      ∃ e st', outcome (gate.serve token (.deleteItem request)) st = (.error (.storage e), st') ∧
        st'.store = st.store) := by
  constructor
  · intro hready
    obtain ⟨gone, hgone, hdone, hfails⟩ :=
      Gate.serve_deleteBounds h hauth hkind hnames hlist hready
    refine ⟨gone, hgone, hgone.length_le_one (h.holds Store.invariant_apart),
      fun hroom => ?_, hfails⟩
    obtain ⟨st', hserve, hoff, -⟩ := hdone hroom
    refine ⟨st', hserve, hoff, fun again other hagain hlow hhigh hsame hleft => ?_⟩
    -- lists and directory are as they were, so the same call is let through to the same lists
    have hprogress := gate.serve_progress token (.deleteItem request) st
    have hnext := next_call gate token (.deleteItem request) st
    rw [hserve] at hprogress hnext
    have hreach' : Reachable st' := h.next hnext
    have halike : st.Alike st' :=
      ⟨hoff.alike, hprogress.isOpen, hprogress.failing, hprogress.now⟩
    have hready' : Items.Ready st' caller again.listId := hsame ▸ hready.alike halike
    obtain ⟨left, hat, hcount, -⟩ := Gate.serve_deleteBounds hreach' hauth hkind hagain
      (fun hnamed => hsame ▸ (hlist (hsame ▸ hnamed)).alike halike) hready'
    rw [hsame] at hat
    have hnone := hgone.eq_nil_of_switchesOff hoff hlow hhigh hat
    subst hnone
    obtain ⟨st'', hserve', -, hstays⟩ := hcount hleft
    exact ⟨st'', hserve', hstays rfl⟩
  · intro hready
    have hready' : ¬Items.Ready (st.counted (.deleteItem request)) caller request.listId :=
      fun hready' => hready (hready'.alike (st.alike_counted _).symm)
    obtain ⟨e, hfail⟩ := Items.outcome_deleteBounds_of_not_ready hready'
      (fun hnamed => ((hlist hnamed).counted _).list) range
    have hdelete := hnames.outcome_delete hkind (st.counted (.deleteItem request))
    exact ⟨e, _, Gate.serve_of_error hauth (outcome_map_eq_error.mpr (hdelete.trans hfail)), rfl⟩

/-- A tenant gives two bounds the wrong way round. Of the rows with these bounds only the one in the
tenant's own list is switched off, though it was written with a dash, and the block they make is
not found again. -/
theorem deletes_exact_bounds_of_swapped :
    let st := State.after { now := 0 } (adminCalls [.createList publicBlackList,
      .createList (privateList none (some 5)), .createItem { listId := 1, value := "10.0.0.0/30" },
      .createItem { listId := 2, value := "10.0.0.0-10.0.0.3" },
      .createItem { listId := 2, value := "10.0.0.4/30" },
      .createItem { listId := 2, type := "all" }])
    let delete := fun request => outcome (tenantGate.serve (some "five") (.deleteItem request))
    ∃ st' st'', delete { ipFrom := "10.0.0.3", ipTo := "10.0.0.0" } st = (.ok (.count 1), st') ∧
      delete { value := "10.0.0.1/30" } st' = (.ok (.count 0), st'') ∧ st''.store = st'.store := by
  intro st delete
  have hreach : Reachable st := reachable_after 0 _
  have hauth : tenantGate.authenticate (some "five") = .ok ⟨.user, 5⟩ := by decide +kernel
  have hcount : (delete { ipFrom := "10.0.0.3", ipTo := "10.0.0.0" } st).1 = .ok (.count 1) := by
    have hone : (outcome (Items.delete ⟨.user, 5⟩ { ipFrom := "10.0.0.3", ipTo := "10.0.0.0" })
        (st.counted (.deleteItem { ipFrom := "10.0.0.3", ipTo := "10.0.0.0" }))).1 = .ok 1 := by
      decide +kernel
    show (outcome (tenantGate.serve _ _) st).1 = _
    rw [Gate.reply_serve hauth, Call.run, outcome_map, hone]
    rfl
  have hsequence : st.store.sequence = 4 := by decide +kernel
  have hready : Items.Ready st ⟨.user, 5⟩ 0 :=
    ⟨by decide +kernel, fun _ => by decide +kernel, by decide +kernel⟩
  have hnames : Items.DeleteRequest.Names { ipFrom := "10.0.0.3", ipTo := "10.0.0.0" }
      ⟨⟨.v4, 0x0a000000, by decide⟩, ⟨.v4, 0x0a000003, by decide⟩, none, rfl, by decide⟩ :=
    ⟨by decide, Or.inr ⟨by decide +kernel, by decide +kernel⟩⟩
  have hagain : Items.DeleteRequest.Names { value := "10.0.0.1/30" }
      ⟨⟨.v4, 0x0a000000, by decide⟩, ⟨.v4, 0x0a000003, by decide⟩, some 30, rfl, by decide⟩ :=
    ⟨by decide, Or.inl ⟨by decide +kernel, by decide +kernel⟩⟩
  clear_value st
  obtain ⟨gone, -, -, hdone, hfails⟩ := (deletes_exact_bounds hreach hauth rfl hnames
    fun hnamed => absurd hnamed (by decide)).1 hready
  by_cases hroom : st.store.sequence + max 1 (gone.length : Int) ≤ maxInteger
  · obtain ⟨st', hserve, hoff, hrepeat⟩ := hdone hroom
    have hone : gone.length = 1 := by
      simp only [delete, hserve] at hcount
      exact Reply.count.inj (Except.ok.inj hcount)
    have hleft : st'.store.sequence < maxInteger := by
      rw [hoff.sequence, hsequence, hone]
      decide
    obtain ⟨st'', hserve', hsame, -⟩ := hrepeat _ _ hagain rfl rfl rfl hleft
    rw [hone] at hserve
    exact ⟨st', st'', hserve, hserve', hsame⟩
  · obtain ⟨st', hserve, -⟩ := hfails hroom
    simp only [delete, hserve] at hcount
    cases hcount

/-- In some reachable state no item can be deleted by its value, though it is switched on and the
tables can be reached. -/
theorem no_delete_after_last_version :
    ∃ st : State, Reachable st ∧ st.isOpen ∧
      (∃ row ∈ st.store.items.rows, row.isLive ∧ row.listId = 1 ∧
        row.HasBounds (.single ⟨.v4, 0x0a000001, by decide⟩)) ∧
      Range.ofValue "10.0.0.1" = .ok (.single ⟨.v4, 0x0a000001, by decide⟩) ∧
      ∃ st', outcome (adminGate.serve (some "key")
          (.deleteItem { value := "10.0.0.1", listId := 1 })) st =
            (.error (.storage .noVersionLeft), st') ∧ st'.store = st.store := by
  obtain ⟨st, hrevised, hversion⟩ := exists_twoItems_revised 9223372036854775805 (by decide)
  obtain ⟨row, hrow, hid, hlive, hlist, hfamily, hfrom, hto⟩ :
      ∃ row ∈ twoItems.store.items.rows, row.id ≠ 2 ∧ row.isLive ∧ row.listId = 1 ∧
        row.family = "v4" ∧ row.fromKey = [10, 0, 0, 1] ∧ row.toKey = [10, 0, 0, 1] := by
    decide +kernel
  have hreach := reachable_twoItems.run hrevised.run
  have hopen : st.isOpen := hrevised.alike.isOpen.trans (by decide +kernel)
  have hread : Range.ofValue "10.0.0.1" = .ok (.single ⟨.v4, 0x0a000001, by decide⟩) := by
    decide +kernel
  have hauth : adminGate.authenticate (some "key") = .ok ⟨.admin, 1⟩ := by decide +kernel
  have hnames : Items.DeleteRequest.Names { value := "10.0.0.1", listId := 1 } _ :=
    ⟨by decide, Or.inl ⟨hread, by decide⟩⟩
  refine ⟨st, hreach, hopen, ⟨row, (hrevised.others row hid).mpr hrow, hlive, hlist, hfamily, hfrom,
    hto⟩, hread, ?_⟩
  obtain ⟨gone, -, -, hfails⟩ := Gate.serve_deleteBounds hreach hauth rfl hnames
    (fun _ => .of_admin rfl st 1)
    ⟨hopen, fun hnamed => absurd (by decide) hnamed, Items.values_reach_of_named (by decide) _⟩
  refine hfails ?_
  rw [hversion]
  have hlast : maxInteger = 9223372036854775807 := rfl
  omega

end FirewallLists
