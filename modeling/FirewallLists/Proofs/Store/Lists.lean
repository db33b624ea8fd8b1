import FirewallLists.Proofs.Store.Change

/-
  What the writes of lists do. The row of a list stays there, and nothing of it changes but that it
  may be switched off (`ListsLast`), so what is found of a list stays the same but for that
  (`ListsKept`). Items are only added to lists that are there, so every item has its list (`Listed`).
-/

namespace FirewallLists

/-! ## One row of a list at two times -/

theorem positiveId_idem (id : Option Int) : positiveId (positiveId id) = positiveId id := by
  cases id with
  | none => rfl
  | some n => by_cases hn : 0 < n <;> simp [positiveId, Option.filter, hn]

namespace ListRow

variable {r q p : ListRow}

/-- The second row is what has become of the first: it is as it was, or it has been switched off. -/
def Becomes (r q : ListRow) : Prop :=
  q = r ∨ (isEnabled r.state ∧ q = { r with state := 0 })

theorem Becomes.id (h : r.Becomes q) : q.id = r.id := by
  rcases h with rfl | ⟨-, rfl⟩ <;> rfl

theorem Becomes.trans (h : r.Becomes q) (h' : q.Becomes p) : r.Becomes p := by
  rcases h with rfl | ⟨hon, rfl⟩
  · exact h'
  · rcases h' with rfl | ⟨-, rfl⟩ <;> exact Or.inr ⟨hon, rfl⟩

/-- A row that is off stays as it is. -/
theorem Becomes.eq_of_off (h : r.Becomes q) (hoff : isEnabled r.state = false) : q = r := by
  rcases h with rfl | ⟨hon, -⟩
  · rfl
  · rw [hoff] at hon
    cases hon

theorem toList_eq_ok {list : IpList} (h : r.toList = .ok list) :
    list.id = r.id ∧ list.isPublic = decide (r.isPublic ≠ 0) ∧
      list.userId = positiveId r.userId ∧ list.serverId = positiveId r.serverId ∧
      list.enabled = isEnabled r.state := by
  unfold toList at h
  split at h
  · cases h
  · cases h
    exact ⟨rfl, rfl, rfl, rfl, rfl⟩

theorem toList_off {list : IpList} (h : r.toList = .ok list) :
    ({ r with state := 0 } : ListRow).toList = .ok { list with enabled := false } := by
  unfold toList at h ⊢
  dsimp only
  split at h
  · cases h
  · cases h
    rfl

theorem Becomes.toList (h : r.Becomes q) {list : IpList} (hlist : r.toList = .ok list) :
    ∃ enabled, q.toList = .ok { list with enabled := enabled } ∧ (enabled → list.enabled) := by
  rcases h with rfl | ⟨-, rfl⟩
  · exact ⟨list.enabled, hlist, fun h => h⟩
  · exact ⟨false, toList_off hlist, fun h => by cases h⟩

/-- The row names a type, it is on or off, and it belongs to a server or to a tenant unless
everybody may use it. A server or a tenant that it names has a positive id. -/
structure Sound (r : ListRow) : Prop where
  type : ∃ t : ListType, r.type = t.name
  state : r.state = 0 ∨ r.state = 1
  owned : r.isPublic = 0 →
    (∃ id, r.serverId = some id ∧ 0 < id) ∨ ∃ id, r.userId = some id ∧ 0 < id
  server : positiveId r.serverId = r.serverId
  user : positiveId r.userId = r.userId

theorem Sound.exists_list (h : r.Sound) : ∃ list, r.toList = .ok list := by
  obtain ⟨type, htype⟩ := h.type
  rw [toList, htype, ListType.ofName?_name]
  exact ⟨_, rfl⟩

theorem Sound.off (h : r.Sound) : ({ r with state := 0 } : ListRow).Sound :=
  ⟨h.type, Or.inl rfl, h.owned, h.server, h.user⟩

theorem sound_ofNew {l : NewList} (hl : l.isPublic || l.hasOwner) (now id : Int) :
    (ofNew l now id).Sound where
  type := ⟨l.type, rfl⟩
  state := Or.inr rfl
  owned := by
    intro hprivate
    have hnot : l.isPublic = false := by
      cases hpublic : l.isPublic with
      | false => rfl
      | true =>
        have hone : (ofNew l now id).isPublic = 1 := by simp [ofNew, hpublic]
        omega
    have hpositive : ∀ {id}, (positiveId id).isSome → ∃ n, positiveId id = some n ∧ 0 < n := by
      intro id hsome
      obtain ⟨n, hn⟩ := Option.isSome_iff_exists.mp hsome
      exact ⟨n, hn, by simpa using (Option.filter_eq_some_iff.mp hn).2⟩
    rw [hnot, Bool.false_or, NewList.hasOwner, Bool.or_eq_true] at hl
    exact hl.imp hpositive hpositive
  server := positiveId_idem l.serverId
  user := positiveId_idem l.userId

end ListRow

namespace Store

variable {s s' : Store} {now : Int}

/-! ## Finding lists after a write -/

theorem findList_createList_of_ne {l : NewList} {id i : Int}
    (h : s.createList l now = .ok (id, s')) (hi : i ≠ id) : s'.findList i = s.findList i := by
  obtain ⟨-, rfl⟩ := createList_eq_ok h
  unfold findList
  rw [Table.find?_insert_of_ne hi]

theorem findList_disableList_of_ne {id i : Int} (h : s.disableList id = some s') (hi : i ≠ id) :
    s'.findList i = s.findList i := by
  obtain ⟨row, -, rfl, -, rfl⟩ := disableList_eq_some h
  unfold findList
  rw [Table.find?_replace_of_ne hi]

theorem find?_disableServerLists (s : Store) (serverId i : Int) :
    (s.disableServerLists serverId).2.lists.find? i = (s.lists.find? i).map fun row =>
      if row.serverId == some serverId && isEnabled row.state then { row with state := 0 }
      else row := by
  unfold disableServerLists
  rw [Table.find?_update]
  intro r _
  split <;> rfl

theorem findList_disableServerLists_of_not_mem {serverId i : Int}
    (hi : i ∉ (s.disableServerLists serverId).1) :
    (s.disableServerLists serverId).2.findList i = s.findList i := by
  unfold findList
  rw [find?_disableServerLists]
  cases hrow : s.lists.find? i with
  | none => rfl
  | some row =>
    have hid : row.id = i := by simpa using List.find?_some hrow
    have hnot : ¬(row.serverId == some serverId && isEnabled row.state) = true := by
      intro hmatch
      apply hi
      rw [← hid]
      exact List.mem_map_of_mem (List.mem_filter.mpr ⟨List.mem_of_find?_eq_some hrow, hmatch⟩)
    rw [Option.map_some, if_neg hnot]

/-! ## Lists stay -/

/-- Every list that was there still is. It is as it was, or it has been switched off. -/
def ListsKept (s s' : Store) : Prop :=
  ∀ id list, s.findList id = .ok (some list) → ∃ enabled,
    s'.findList id = .ok (some { list with enabled := enabled }) ∧ (enabled → list.enabled)

theorem listsKept_of_findList (h : ∀ id list, s.findList id = .ok (some list) →
    s'.findList id = s.findList id) : ListsKept s s' := by
  intro id list hlist
  exact ⟨list.enabled, (h id list hlist).trans hlist, fun h => h⟩

instance : Std.Refl ListsKept where
  refl _ := listsKept_of_findList fun _ _ _ => rfl

instance : IsTrans Store ListsKept where
  trans s s₁ s₂ h h' := by
    intro id list hlist
    obtain ⟨enabled, hlist₁, hon⟩ := h id list hlist
    obtain ⟨enabled', hlist₂, hon'⟩ := h' id _ hlist₁
    exact ⟨enabled', hlist₂, fun h => hon (hon' h)⟩

theorem findList_eq_some {id : Int} {list : IpList} :
    s.findList id = .ok (some list) ↔
      ∃ row, s.lists.find? id = some row ∧ row.toList = .ok list := by
  unfold findList
  cases s.lists.find? id with
  | none => simp
  | some row => cases hrow : row.toList <;> simp [hrow, Functor.map, Except.map]

/-- Every row of a list is still there, as what has become of it. -/
def ListsLast (s s' : Store) : Prop :=
  ∀ r ∈ s.lists.rows, ∃ q ∈ s'.lists.rows, r.Becomes q

theorem listsLast_of_lists (h : s'.lists = s.lists) : ListsLast s s' := by
  intro r hr
  exact ⟨r, h ▸ hr, Or.inl rfl⟩

instance : Std.Refl ListsLast where
  refl _ := listsLast_of_lists rfl

instance : IsTrans Store ListsLast where
  trans s s₁ s₂ h h' := by
    intro r hr
    obtain ⟨q, hq, hrq⟩ := h r hr
    obtain ⟨p, hp, hqp⟩ := h' q hq
    exact ⟨p, hp, hrq.trans hqp⟩

theorem ListWrite.listsLast (hs : s.Ordered) (h : ListWrite now s s') : ListsLast s s' := by
  intro r hr
  cases h with
  | create _ run =>
    obtain ⟨rfl, rfl⟩ := createList_eq_ok run
    refine ⟨r, ?_, Or.inl rfl⟩
    show r ∈ (s.lists.insert _).rows
    rw [Table.rows_insert hs.lists rfl]
    exact List.mem_append_left _ hr
  | disable run =>
    obtain ⟨row, hrow, -, hon, rfl⟩ := disableList_eq_some run
    by_cases hid : r.id = row.id
    · rw [hs.lists.eq_of_id hr hrow hid]
      exact ⟨_, Table.self_mem_replace hrow rfl, Or.inr ⟨hon, rfl⟩⟩
    · exact ⟨r, Table.mem_replace_of_ne hr hid, Or.inl rfl⟩
  | disableOfServer serverId =>
    refine ⟨_, Table.mem_update.mpr ⟨r, hr, rfl⟩, ?_⟩
    split
    · next hmatch =>
      rw [Bool.and_eq_true] at hmatch
      exact Or.inr ⟨hmatch.2, rfl⟩
    · exact Or.inl rfl

theorem Edit.listsLast (hs : s.Ordered) (h : Edit now s s') : ListsLast s s' := by
  cases h with
  | retire | revise | add | markRead => exact listsLast_of_lists rfl
  | lists write => exact write.listsLast hs

/-- A list is found in its row. -/
theorem ListsLast.kept (h : ListsLast s s') (hs : s.Ordered) (hs' : s'.Ordered) :
    ListsKept s s' := by
  intro i list hlist
  obtain ⟨r, hfind, htoList⟩ := findList_eq_some.mp hlist
  obtain ⟨hr, hid⟩ := hs.lists.find?_eq_some.mp hfind
  obtain ⟨q, hq, hbecomes⟩ := h r hr
  obtain ⟨enabled, htoList', hon⟩ := hbecomes.toList htoList
  have hfind' := hs'.lists.find?_eq_some.mpr ⟨hq, hbecomes.id.trans hid⟩
  exact ⟨enabled, findList_eq_some.mpr ⟨q, hfind', htoList'⟩, hon⟩

theorem Edit.listsKept (hs : s.Ordered) (h : Edit now s s') : ListsKept s s' :=
  (h.listsLast hs).kept hs (h.ordered hs)

/-- The rows of all lists are sound. -/
def ListsSound (s : Store) : Prop :=
  ∀ r ∈ s.lists.rows, r.Sound

theorem Edit.listsSound (hs : s.Ordered) (hsound : s.ListsSound) (h : Edit now s s') :
    s'.ListsSound := by
  cases h with
  | retire | revise | add | markRead => exact hsound
  | lists write =>
    intro r hr
    cases write with
    | create owned run =>
      obtain ⟨rfl, rfl⟩ := createList_eq_ok run
      change r ∈ (s.lists.insert _).rows at hr
      rw [Table.rows_insert hs.lists rfl, List.mem_append, List.mem_singleton] at hr
      rcases hr with hr | rfl
      · exact hsound r hr
      · exact ListRow.sound_ofNew owned _ _
    | disable run =>
      obtain ⟨row, hrow, -, -, rfl⟩ := disableList_eq_some run
      rcases Table.mem_replace hr with rfl | ⟨hr, -⟩
      · exact (hsound row hrow).off
      · exact hsound r hr
    | disableOfServer serverId =>
      obtain ⟨q, hq, rfl⟩ := Table.mem_update.mp hr
      split
      · exact (hsound q hq).off
      · exact hsound q hq

/-! ## Items have their lists -/

/-- The list of every item is there. -/
def Listed (s : Store) : Prop :=
  ∀ r ∈ s.items.rows, ∃ list, s.findList r.listId = .ok (some list)

theorem findEnabledList_eq_some {id : Int} {list : IpList}
    (h : s.findEnabledList id = .ok (some list)) : s.findList id = .ok (some list) := by
  unfold findEnabledList at h
  obtain ⟨found, hfound, h⟩ := bind_eq_ok.mp h
  cases found with
  | none => cases h
  | some l =>
    have hl := (Option.filter_eq_some_iff.mp (Except.ok.inj h)).1
    rw [hfound, hl]

theorem enabled_of_findEnabledList {id : Int} {list : IpList}
    (h : s.findEnabledList id = .ok (some list)) : list.enabled := by
  unfold findEnabledList at h
  obtain ⟨found, -, h⟩ := bind_eq_ok.mp h
  exact (Option.filter_eq_some_iff.mp (Except.ok.inj h)).2

/-- The row of a list that is switched on. -/
theorem exists_row_of_findEnabledList {id : Int} {list : IpList}
    (h : s.findEnabledList id = .ok (some list)) :
    ∃ row ∈ s.lists.rows, row.id = id ∧ isEnabled row.state ∧ row.toList = .ok list := by
  have henabled := enabled_of_findEnabledList h
  obtain ⟨row, hfind, hrow⟩ := findList_eq_some.mp (findEnabledList_eq_some h)
  obtain ⟨-, -, -, -, hstate⟩ := ListRow.toList_eq_ok hrow
  refine ⟨row, List.mem_of_find?_eq_some hfind, by simpa using List.find?_some hfind, ?_, hrow⟩
  rw [← hstate]
  exact henabled

/-- Rows stay in their lists, so the lists of rows that were there before are still there. -/
theorem Listed.list_of_since (hlisted : s.Listed) (hkept : ListsKept s s') {r r' : ItemRow}
    (hr : r ∈ s.items.rows) (hlist : r'.listId = r.listId) :
    ∃ list, s'.findList r'.listId = .ok (some list) := by
  obtain ⟨list, hfound⟩ := hlisted r hr
  obtain ⟨enabled, hfound', -⟩ := hkept _ _ hfound
  exact ⟨_, hlist ▸ hfound'⟩

theorem Quiet.listed (h : Quiet s s') (hkept : ListsKept s s') (hlisted : s.Listed) :
    s'.Listed := by
  intro r' hr'
  obtain ⟨r, hr, hagrees⟩ := h.known r' hr'
  exact hlisted.list_of_since hkept hr hagrees.listId

theorem Touches.listed {row : ItemRow} (h : Touches row s s') (hkept : ListsKept s s')
    (hlisted : s.Listed) (hrow : ∃ list, s'.findList row.listId = .ok (some list)) :
    s'.Listed := by
  intro r hr
  rcases (h.mem_iff r).mp hr with rfl | ⟨hr, -⟩
  · exact hrow
  · exact hlisted.list_of_since hkept hr rfl

theorem Edit.listed (hs : s.Ordered) (hlisted : s.Listed) (h : Edit now s s') : s'.Listed := by
  have hkept := h.listsKept hs
  cases h with
  | retire mem =>
    have hrow := hlisted _ mem
    exact (touches_retire hs mem).listed hkept hlisted hrow
  | revise mem =>
    have hrow := hlisted _ mem
    exact (touches_revise hs mem _).listed hkept hlisted hrow
  | add normal listed =>
    exact (touches_add hs _ _ _).listed hkept hlisted ⟨_, findEnabledList_eq_some listed⟩
  | markRead scope => exact (quiet_markRead s scope).listed hkept hlisted
  | lists write => exact write.quiet.listed hkept hlisted

end Store

end FirewallLists
