import FirewallLists.Proofs.Service.Poll
import FirewallLists.Proofs.Service.Retirement
import FirewallLists.Proofs.Store.Query

/-
  How a search tells the items in use from the orphans. An orphan is switched off and told of as
  soon as it is met, which takes one version; the next item is then looked at in the tables as they
  have become. Lists and policies stay as they are meanwhile, so of the rows met the orphans are
  switched off in their order and the others are told of, until the versions run out
  (`Search.outcome_sift`).
-/

namespace FirewallLists

open ServiceM

/-! ## Items in use -/

/-- Items of this list are in use: the list is switched on, and everybody may use it or a policy
that is switched on does. While policies cannot be looked up, one is taken to use it. -/
def State.InUse (st : State) (listId : Int) : Prop :=
  ∃ l ∈ st.store.lists.rows, l.id = listId ∧ isEnabled l.state ∧
    (l.isPublic ≠ 0 ∨ Lookup.policyOfList ∈ st.failing ∨
      ∃ p ∈ st.store.policies.rows, isEnabled p.state ∧ Directory.usesList p listId)

instance (st : State) (listId : Int) : Decidable (st.InUse listId) :=
  inferInstanceAs (Decidable (∃ l ∈ st.store.lists.rows, _ ∧ _))

/-- Those of the rows that are in use. -/
def State.used (st : State) (rows : List ItemRow) : List ItemRow :=
  rows.filter fun r => st.InUse r.listId

/-- Those of the rows that are not in use. -/
def State.orphans (st : State) (rows : List ItemRow) : List ItemRow :=
  rows.filter fun r => ¬st.InUse r.listId

@[simp]
theorem State.used_append (st : State) (rows more : List ItemRow) :
    st.used (rows ++ more) = st.used rows ++ st.used more :=
  List.filter_append rows more

@[simp]
theorem State.orphans_append (st : State) (rows more : List ItemRow) :
    st.orphans (rows ++ more) = st.orphans rows ++ st.orphans more :=
  List.filter_append rows more

theorem State.used_singleton (st : State) (r : ItemRow) :
    st.used [r] = if st.InUse r.listId then [r] else [] := by
  simp [State.used, List.filter_cons]

theorem State.orphans_singleton (st : State) (r : ItemRow) :
    st.orphans [r] = if st.InUse r.listId then [] else [r] := by
  simp [State.orphans, List.filter_cons]

theorem State.Alike.inUse {st st' : State} (h : st.Alike st') : st'.InUse = st.InUse := by
  funext listId
  rw [State.InUse, State.InUse, h.store.lists, h.failing, h.store.policies]

theorem State.Alike.orphans {st st' : State} (h : st.Alike st') : st'.orphans = st.orphans := by
  funext rows
  simp only [State.orphans, h.inUse]

theorem State.Alike.used {st st' : State} (h : st.Alike st') : st'.used = st.used := by
  funext rows
  simp only [State.used, h.inUse]

theorem Store.Ordered.inUse_iff {st : State} (hs : st.store.Ordered) {row : ListRow}
    (hrow : row ∈ st.store.lists.rows) : st.InUse row.id ↔ isEnabled row.state ∧
      (row.isPublic ≠ 0 ∨ Lookup.policyOfList ∈ st.failing ∨
        ∃ p ∈ st.store.policies.rows, isEnabled p.state ∧ Directory.usesList p row.id) := by
  constructor
  · rintro ⟨l, hl, hid, huse⟩
    rwa [hs.lists.eq_of_id hl hrow hid] at huse
  · exact fun huse => ⟨row, hrow, rfl, huse⟩

/-- The directory answers that no policy uses a list. -/
theorem State.lookUp_policyOfList_eq_none {st : State} (hopen : st.isOpen) (listId : Int) :
    st.lookUp .policyOfList (Directory.policyOfList? · listId) = .ok none ↔
      ¬(Lookup.policyOfList ∈ st.failing ∨
        ∃ p ∈ st.store.policies.rows, isEnabled p.state ∧ Directory.usesList p listId) := by
  by_cases hfailing : Lookup.policyOfList ∈ st.failing
  · obtain ⟨e, herror⟩ := State.exists_lookUp_eq_error (fun h => h.2 hfailing)
      (Directory.policyOfList? · listId)
    simp [herror, hfailing]
  · rw [State.lookUp_of_answers hopen hfailing]
    simp [hfailing, Directory.policyOfList?]

namespace Search

variable {st : State} {item : Item} {items : List Item}

/-- An item is told to be an orphan exactly if its list is not in use. -/
theorem outcome_usage (hopen : st.isOpen) (hs : st.store.Ordered) (hsound : st.store.ListsSound)
    (item : Item) : ∃ u, outcome (usage item) st = (.ok u, st) ∧
      (u = .orphaned ↔ ¬st.InUse item.listId) := by
  have hquery := outcome_query_of_isOpen hopen (·.findList item.listId)
  rcases hfind : st.store.lists.find? item.listId with _ | row
  · have hnone : st.store.findList item.listId = .ok none := by rw [Store.findList, hfind]
    rw [hnone] at hquery
    refine ⟨.orphaned, by rw [usage, outcome_bind_of_ok hquery]; rfl, iff_of_true rfl ?_⟩
    rintro ⟨l, hl, hid, -⟩
    have hsome := hs.lists.find?_eq_some.mpr ⟨hl, hid⟩
    rw [hfind] at hsome
    cases hsome
  · obtain ⟨hrow, hid⟩ := hs.lists.find?_eq_some.mp hfind
    obtain ⟨list, hlist⟩ := (hsound row hrow).exists_list
    obtain ⟨hlistId, hpublic, -, -, hon⟩ := ListRow.toList_eq_ok hlist
    have hid : row.id = item.listId := hid
    rw [Store.findList_eq_some.mpr ⟨row, hfind, hlist⟩] at hquery
    rw [usage, outcome_bind_of_ok hquery, ← hid, hs.inUse_iff hrow, ← hlistId, ← hon]
    dsimp only
    by_cases hoff : list.enabled
    · by_cases hprivate : row.isPublic = 0
      · have hunused := st.lookUp_policyOfList_eq_none hopen list.id
        rw [decide_eq_false (not_not_intro hprivate)] at hpublic
        simp only [hoff, hprivate, hpublic, Bool.not_true, Bool.false_eq_true, if_false, ne_eq,
          not_true, true_and, false_or]
        rw [outcome_bind_of_ok (outcome_get st), ← hunused]
        rcases st.lookUp .policyOfList (Directory.policyOfList? · list.id) with e | _ | policy
        · exact ⟨.used list none, rfl, by simp⟩
        · exact ⟨.orphaned, rfl, by simp⟩
        · exact ⟨.used list (some policy), rfl, by simp⟩
      · rw [hoff, hpublic, decide_eq_true hprivate]
        exact ⟨.used list none, rfl, by simp [hprivate]⟩
    · rw [Bool.not_eq_true] at hoff
      rw [hoff]
      exact ⟨.orphaned, rfl, by simp⟩

/-! ## Switching orphans off -/

/-- While versions are left an orphan is switched off and told of. -/
theorem disableOrphan_of_live (hopen : st.isOpen) (hv : st.store.Versioned)
    (hroom : st.store.sequence < maxInteger) {row : ItemRow}
    (hrow : st.store.liveItem? item.id = some row) :
    outcome (disableOrphan item) st = (.ok (), { st with
      store := st.store.renew (row.retire st.store.next)
      channel := st.channel.send ⟨row.id, row.listId, st.store.next⟩
      counters := (st.counters.add .orphansDisabled 1).add .signals 1 }) := by
  have hwrite := outcome_transact?_of_isOpen hopen (·.disableItem item.id)
  rw [Store.disableItem_of_room hv hroom hrow] at hwrite
  rw [disableOrphan, outcome_bind_of_ok hwrite]
  rfl

/-- An orphan takes one version at most. -/
theorem disableOrphan_of_room (hopen : st.isOpen) (hs : st.store.Ordered) (hv : st.store.Versioned)
    (hroom : st.store.sequence < maxInteger) (item : Item) :
    ∃ st₁, outcome (disableOrphan item) st = (.ok (), st₁) ∧ st.Alike st₁ ∧ st₁.store.Ordered ∧
      st₁.store.Versioned ∧ st₁.store.sequence ≤ st.store.sequence + 1 := by
  rcases st.store.disableItem_cases hv hroom item.id with hnone | ⟨row, -, hrow, -⟩
  · have hwrite := outcome_transact?_of_isOpen hopen (·.disableItem item.id)
    rw [hnone] at hwrite
    refine ⟨st, ?_, .refl st, hs, hv, by omega⟩
    rw [disableOrphan, outcome_bind_of_ok hwrite]
    rfl
  · have htouches := Store.touches_retire hs (Store.liveItem?_eq_some hrow).2.1
    exact ⟨_, disableOrphan_of_live hopen hv hroom hrow,
      ⟨⟨rfl, rfl, rfl, rfl, rfl, rfl⟩, rfl, rfl, rfl⟩, ⟨hs.items.replace _, hs.lists⟩,
      htouches.versioned hv, Int.le_refl _⟩

theorem disableOrphan_of_exhausted (hopen : st.isOpen) (hroom : ¬st.store.sequence < maxInteger)
    (item : Item) :
    outcome (disableOrphan item) st = (.error (.storage .noVersionLeft), st) := by
  have hwrite := outcome_transact?_of_isOpen hopen (·.disableItem item.id)
  rw [Store.disableItem_of_exhausted hroom] at hwrite
  rw [disableOrphan, outcome_bind_of_error hwrite]

/-! ## Sifting -/

/-- Telling of an item in use before the others. -/
theorem outcome_used (list : IpList) (policy : Option PolicyInfo) (st : State) :
    outcome (do
      let server := serverOf (← get) policy
      return SearchResult.mk list item server policy :: (← sift items)) st =
    ((outcome (sift items) st).1.map (⟨list, item, serverOf st policy, policy⟩ :: ·),
      (outcome (sift items) st).2) := by
  rw [outcome_bind_of_ok (outcome_get st), outcome_bind]
  rcases outcome (sift items) st with ⟨e | rest, st₁⟩ <;> rfl

end Search

/-- How many versions are left. -/
def Store.versionsLeft (s : Store) : Nat :=
  (maxInteger - s.sequence).toNat

theorem Store.versionsLeft_pos_iff {s : Store} : 0 < s.versionsLeft ↔ s.sequence < maxInteger := by
  unfold versionsLeft
  omega

/-- Of the rows met the orphans have been switched off, as many as there were versions for. If
there were versions for all of them the rows in use have been told of, else the step has failed. -/
structure Search.Sifted (st : State) (met : List ItemRow)
    (result : Except ServiceError (List SearchResult)) (st' : State) : Prop where
  store : st'.store = st.store.afterRetiring ((st.orphans met).take st.store.versionsLeft)
  sent : st'.channel.sent = st.channel.sent ++
    (st.store.retirements ((st.orphans met).take st.store.versionsLeft)).map (·.change)
  done : (st.orphans met).length ≤ st.store.versionsLeft →
    ∃ results, result = .ok results ∧ (st.used met).mapM (·.toItem) = .ok (results.map (·.item))
  failed : st.store.versionsLeft < (st.orphans met).length →
    result = .error (.storage .noVersionLeft)

namespace Search.Sifted

variable {st st₁ st' : State} {row : ItemRow} {met more : List ItemRow}
  {results : List SearchResult} {result : Except ServiceError (List SearchResult)}

theorem nil (st : State) : Sifted st [] (.ok []) st where
  store := by simp [State.orphans]
  sent := by simp [State.orphans]
  done := fun _ => ⟨[], rfl, rfl⟩
  failed := fun hfew => absurd hfew (by simp [State.orphans])

/-- A row in use is told of. -/
theorem used (huse : st.InUse row.listId) {x : SearchResult} (hitem : row.toItem = .ok x.item) :
    Sifted st [row] (.ok [x]) st := by
  have horphans : st.orphans [row] = [] := by rw [State.orphans_singleton, if_pos huse]
  have hused : st.used [row] = [row] := by rw [State.used_singleton, if_pos huse]
  refine ⟨by simp [horphans], by simp [horphans], fun _ => ⟨[x], rfl, ?_⟩,
    fun hfew => absurd hfew (by simp [horphans])⟩
  rw [hused, List.mapM_cons, hitem]
  rfl

/-- An orphan takes the next version, if there is one. -/
theorem orphan (huse : ¬st.InUse row.listId) (hroom : st.store.sequence < maxInteger)
    (hstore : st₁.store = st.store.renew (row.retire st.store.next))
    (hchannel : st₁.channel = st.channel.send ⟨row.id, row.listId, st.store.next⟩) :
    Sifted st [row] (.ok []) st₁ := by
  have horphans : st.orphans [row] = [row] := by rw [State.orphans_singleton, if_neg huse]
  have hused : st.used [row] = [] := by rw [State.used_singleton, if_neg huse]
  have hleft := Store.versionsLeft_pos_iff.mpr hroom
  have hall : (st.orphans [row]).take st.store.versionsLeft = [row] := by
    rw [horphans, List.take_of_length_le hleft]
  refine ⟨?_, ?_, fun _ => ⟨[], rfl, by rw [hused]; rfl⟩, fun hfew => ?_⟩
  · rw [hall, Store.afterRetiring_cons (by simp), Store.afterRetiring_nil, hstore]
  · rw [hall, Store.retirements_cons st.store row [] (row.retire st.store.next), hchannel]
    rfl
  · rw [horphans, List.length_singleton] at hfew
    omega

/-- An orphan for which no version is left ends the step. -/
theorem exhausted (huse : ¬st.InUse row.listId) (hroom : ¬st.store.sequence < maxInteger) :
    Sifted st [row] (.error (.storage .noVersionLeft)) st := by
  have horphans : st.orphans [row] = [row] := by rw [State.orphans_singleton, if_neg huse]
  have hleft : st.store.versionsLeft = 0 :=
    Nat.eq_zero_of_not_pos (mt Store.versionsLeft_pos_iff.mp hroom)
  refine ⟨by simp [hleft], by simp [hleft], fun henough => ?_, fun _ => rfl⟩
  rw [horphans, hleft, List.length_singleton] at henough
  omega

/-- When versions are left behind the first rows, the rows met later are sifted as if they had been
met with the first ones. -/
theorem append (h : Sifted st met (.ok results) st₁) (hmore : Sifted st₁ more result st')
    (halike : st.Alike st₁) (hids : ((met ++ more).map (·.id)).Nodup)
    (henough : (st.orphans met).length ≤ st.store.versionsLeft) :
    Sifted st (met ++ more) (result.map (results ++ ·)) st' := by
  have hfirst : (st.orphans met).take st.store.versionsLeft = st.orphans met :=
    List.take_of_length_le henough
  have hstore := hfirst ▸ h.store
  have hsent := hfirst ▸ h.sent
  have hleft : st₁.store.versionsLeft = st.store.versionsLeft - (st.orphans met).length := by
    have hsequence : st₁.store.sequence = st.store.sequence + (st.orphans met).length :=
      congrArg Store.sequence hstore
    unfold Store.versionsLeft
    omega
  obtain ⟨hrest, hsent', hdone, hfailed⟩ := hmore
  rw [halike.orphans] at hrest hsent' hdone hfailed
  rw [halike.used] at hdone
  have hgone : (st.orphans (met ++ more)).take st.store.versionsLeft =
      st.orphans met ++ (st.orphans more).take st₁.store.versionsLeft := by
    rw [State.orphans_append, List.take_append, hfirst, hleft]
  have hsub : (st.orphans met ++ (st.orphans more).take st₁.store.versionsLeft).Sublist
      (met ++ more) :=
    List.filter_sublist.append ((List.take_sublist _ _).trans List.filter_sublist)
  constructor
  · rw [hgone, Store.afterRetiring_append (hids.sublist (hsub.map _)), ← hstore]
    exact hrest
  · rw [hgone, Store.retirements_append, ← hstore, hsent', hsent, List.map_append,
      List.append_assoc]
  · intro hall
    rw [State.orphans_append, List.length_append] at hall
    obtain ⟨more, rfl, hmore⟩ := hdone (by omega)
    obtain ⟨_, hresults, hitems⟩ := h.done henough
    cases hresults
    refine ⟨results ++ more, rfl, ?_⟩
    rw [State.used_append, List.mapM_append, hitems, hmore, List.map_append]
    rfl
  · intro hfew
    rw [State.orphans_append, List.length_append] at hfew
    rw [hfailed (by omega)]
    rfl

/-- When the versions have run out, nothing is met any more. -/
theorem append_of_few (h : Sifted st met result st')
    (hfew : st.store.versionsLeft < (st.orphans met).length) (more : List ItemRow) :
    Sifted st (met ++ more) result st' := by
  have hgone : (st.orphans (met ++ more)).take st.store.versionsLeft =
      (st.orphans met).take st.store.versionsLeft := by
    rw [State.orphans_append, List.take_append_of_le_length (Nat.le_of_lt hfew)]
  refine ⟨hgone ▸ h.store, hgone ▸ h.sent, fun hall => ?_, fun _ => h.failed hfew⟩
  rw [State.orphans_append, List.length_append] at hall
  omega

end Search.Sifted

namespace Search

variable {st : State} {row : ItemRow} {item : Item}

/-- An item in use is told of before the others. -/
theorem sift_cons_used (hopen : st.isOpen) (hs : st.store.Ordered) (hsound : st.store.ListsSound)
    (hitem : row.toItem = .ok item) (huse : st.InUse row.listId) (items : List Item) :
    ∃ x, Sifted st [row] (.ok [x]) st ∧ outcome (sift (item :: items)) st =
      ((outcome (sift items) st).1.map ([x] ++ ·), (outcome (sift items) st).2) := by
  obtain ⟨u, husage, horphan⟩ := outcome_usage hopen hs hsound item
  rw [(ItemRow.toItem_eq_ok hitem).2.1] at horphan
  cases u with
  | orphaned => exact absurd huse (horphan.mp rfl)
  | used list policy =>
    refine ⟨⟨list, item, serverOf st policy, policy⟩, .used huse hitem, ?_⟩
    rw [sift, outcome_bind_of_ok husage]
    exact outcome_used list policy st

/-- An orphan is switched off before the others are looked at, if a version is left. -/
theorem sift_cons_orphan (hopen : st.isOpen) (hs : st.store.Ordered) (hv : st.store.Versioned)
    (hsound : st.store.ListsSound) (hrow : row ∈ st.store.items.rows) (hlive : row.isLive)
    (hitem : row.toItem = .ok item) (huse : ¬st.InUse row.listId) (items : List Item) :
    (st.store.sequence < maxInteger →
      ∃ st₁, Sifted st [row] (.ok []) st₁ ∧ st.Alike st₁ ∧
        st₁.store = st.store.renew (row.retire st.store.next) ∧
        outcome (sift (item :: items)) st = outcome (sift items) st₁) ∧
    (¬st.store.sequence < maxInteger →
      Sifted st [row] (.error (.storage .noVersionLeft)) st ∧
        outcome (sift (item :: items)) st = (.error (.storage .noVersionLeft), st)) := by
  obtain ⟨hid, hlist, -⟩ := ItemRow.toItem_eq_ok hitem
  obtain ⟨u, husage, horphan⟩ := outcome_usage hopen hs hsound item
  obtain rfl : u = .orphaned := horphan.mpr (hlist ▸ huse)
  rw [sift, outcome_bind_of_ok husage]
  constructor
  · intro hroom
    have hlive' : st.store.liveItem? item.id = some row :=
      hid ▸ Store.liveItem?_of_mem hs hrow hlive
    have hdone := disableOrphan_of_live hopen hv hroom hlive'
    refine ⟨_, .orphan huse hroom ?_ ?_, ?_, ?_, outcome_bind_of_ok hdone⟩
    · rfl
    · rfl
    · exact ⟨⟨rfl, rfl, rfl, rfl, rfl, rfl⟩, rfl, rfl, rfl⟩
    · rfl
  · intro hroom
    exact ⟨.exhausted huse hroom,
      outcome_bind_of_error (disableOrphan_of_exhausted hopen hroom item)⟩

end Search

/-- Sifting the items of active rows. -/
theorem Search.outcome_sift {st : State} (hopen : st.isOpen) (hs : st.store.Ordered)
    (hv : st.store.Versioned) (hsound : st.store.ListsSound) {met : List ItemRow}
    (hmet : ∀ r ∈ met, r ∈ st.store.items.rows ∧ r.isLive) (hids : (met.map (·.id)).Nodup)
    {items : List Item} (hitems : met.mapM (·.toItem) = .ok items) :
    Sifted st met (outcome (sift items) st).1 (outcome (sift items) st).2 := by
  induction met generalizing st items with
  | nil =>
    cases hitems
    exact .nil st
  | cons row met ih =>
    rw [List.mapM_cons] at hitems
    obtain ⟨item, hitem, hitems⟩ := bind_eq_ok.mp hitems
    obtain ⟨rest, hrest, hitems⟩ := bind_eq_ok.mp hitems
    cases hitems
    obtain ⟨hrow, hlive⟩ := hmet row List.mem_cons_self
    obtain ⟨hid, hids'⟩ := List.nodup_cons.mp hids
    have hmet' : ∀ r ∈ met, r ∈ st.store.items.rows ∧ r.isLive :=
      fun r hr => hmet r (List.mem_cons_of_mem _ hr)
    by_cases huse : st.InUse row.listId
    · obtain ⟨x, hfirst, hsift⟩ := sift_cons_used hopen hs hsound hitem huse rest
      rw [hsift]
      refine hfirst.append (ih hopen hs hv hsound hmet' hids' hrest) (.refl st) hids ?_
      rw [State.orphans_singleton, if_pos huse]
      exact Nat.zero_le _
    · have horphans : (st.orphans [row]).length = 1 := by
        rw [State.orphans_singleton, if_neg huse, List.length_singleton]
      obtain ⟨hswitch, hstop⟩ :=
        sift_cons_orphan hopen hs hv hsound hrow hlive hitem huse rest
      by_cases hroom : st.store.sequence < maxInteger
      · obtain ⟨st₁, hfirst, halike, hstore, hsift⟩ := hswitch hroom
        have hmet₁ : ∀ r ∈ met, r ∈ st₁.store.items.rows ∧ r.isLive := by
          intro r hr
          obtain ⟨hmem, hlive⟩ := hmet' r hr
          refine ⟨?_, hlive⟩
          rw [hstore]
          refine Table.mem_replace_of_ne hmem fun heq => hid ?_
          exact List.mem_map.mpr ⟨r, hr, heq⟩
        have hs₁ : st₁.store.Ordered := hstore ▸ ⟨hs.items.replace _, hs.lists⟩
        have hv₁ : st₁.store.Versioned := hstore ▸ (Store.touches_retire hs hrow).versioned hv
        have hsound₁ : st₁.store.ListsSound := by
          rw [Store.ListsSound, halike.store.lists]
          exact hsound
        have hmore := ih (halike.isOpen.trans hopen) hs₁ hv₁ hsound₁ hmet₁ hids' hrest
        have hleft := Store.versionsLeft_pos_iff.mpr hroom
        have hall := hfirst.append hmore halike hids (by omega)
        rw [hsift]
        generalize outcome (sift rest) st₁ = out at hall ⊢
        rcases out with ⟨e | results, st'⟩ <;> exact hall
      · obtain ⟨hfirst, hsift⟩ := hstop hroom
        rw [hsift]
        have hleft := Nat.eq_zero_of_not_pos (mt Store.versionsLeft_pos_iff.mp hroom)
        exact hfirst.append_of_few (by omega) met

end FirewallLists
