import FirewallLists.Proofs.Service.Retirement

/-
  Items that are deleted by their ids, one after the other. An id may come several times, and it may
  belong to no item or to one that is off; so each item that is on takes one version, when its id
  comes first (`Store.foldl_deleted`). Yet a version has to be left for every id that belongs to an
  item (`Store.Suffices`), and once the versions have run out nothing is deleted any more.
-/

namespace FirewallLists

namespace Store

variable {s : Store} {id : Int} {ids : List Int} {row : ItemRow}

/-! ## Items that are found switched on -/

/-- The items with these ids that are switched on, each of them once, in the order in which their
ids come first. -/
def liveItems (s : Store) : List Int → List ItemRow
  | [] => []
  | id :: ids =>
    match s.liveItem? id with
    | some row => row :: (liveItems s ids).filter (·.id != id)
    | none => liveItems s ids

theorem liveItems_cons_of_off (h : s.liveItem? id = none) (ids : List Int) :
    s.liveItems (id :: ids) = s.liveItems ids := by
  rw [liveItems, h]

theorem liveItems_cons_of_live (h : s.liveItem? id = some row) (ids : List Int) :
    s.liveItems (id :: ids) = row :: (s.liveItems ids).filter (·.id != id) := by
  rw [liveItems, h]

theorem mem_liveItems (hs : s.Ordered) :
    row ∈ s.liveItems ids ↔ row ∈ s.items.rows ∧ row.isLive ∧ row.id ∈ ids := by
  induction ids with
  | nil => simp [liveItems]
  | cons id ids ih =>
    rcases hid : s.liveItem? id with _ | found
    · have hother : row ∈ s.items.rows → row.isLive → row.id ≠ id := by
        rintro hrow hlive rfl
        rw [liveItem?_of_mem hs hrow hlive] at hid
        cases hid
      rw [liveItems_cons_of_off hid, ih, List.mem_cons]
      exact ⟨fun ⟨hrow, hlive, hmem⟩ => ⟨hrow, hlive, Or.inr hmem⟩,
        fun ⟨hrow, hlive, hmem⟩ => ⟨hrow, hlive, hmem.resolve_left (hother hrow hlive)⟩⟩
    · obtain ⟨-, hfound, rfl, hlive⟩ := liveItem?_eq_some hid
      rw [liveItems_cons_of_live hid, List.mem_cons, List.mem_filter, ih, List.mem_cons,
        bne_iff_ne]
      constructor
      · rintro (rfl | ⟨⟨hrow, hon, hmem⟩, -⟩)
        · exact ⟨hfound, hlive, Or.inl rfl⟩
        · exact ⟨hrow, hon, Or.inr hmem⟩
      · rintro ⟨hrow, hon, hmem⟩
        by_cases heq : row.id = found.id
        · exact Or.inl (hs.items.eq_of_id hrow hfound heq)
        · exact Or.inr ⟨⟨hrow, hon, hmem.resolve_left heq⟩, heq⟩

theorem nodup_liveItems (s : Store) (ids : List Int) : ((s.liveItems ids).map (·.id)).Nodup := by
  induction ids with
  | nil => exact List.nodup_nil
  | cons id ids ih =>
    rcases hid : s.liveItem? id with _ | row
    · rw [liveItems_cons_of_off hid]
      exact ih
    · obtain ⟨-, -, rfl, -⟩ := liveItem?_eq_some hid
      rw [liveItems_cons_of_live hid, List.map_cons, List.nodup_cons]
      refine ⟨fun hmem => ?_, ih.sublist (List.filter_sublist.map _)⟩
      obtain ⟨q, hq, heq⟩ := List.mem_map.mp hmem
      exact bne_iff_ne.mp (List.mem_filter.mp hq).2 heq

theorem length_liveItems_le (s : Store) (ids : List Int) :
    (s.liveItems ids).length ≤ ids.length := by
  induction ids with
  | nil => exact Nat.le_refl 0
  | cons id ids ih =>
    rcases hid : s.liveItem? id with _ | row
    · rw [liveItems_cons_of_off hid, List.length_cons]
      exact Nat.le_succ_of_le ih
    · rw [liveItems_cons_of_live hid, List.length_cons, List.length_cons]
      exact Nat.succ_le_succ (Nat.le_trans (List.length_filter_le _ _) ih)

/-! ## Switching one item off -/

section Renew

variable (hs : s.Ordered) (hrow : row ∈ s.items.rows) (version : Int)

include hs hrow

theorem find?_renew_retire (i : Int) : (s.renew (row.retire version)).items.find? i =
    if i = row.id then some (row.retire version) else s.items.find? i := by
  split
  · next hid =>
    refine (hs.items.replace (row.retire version)).find?_eq_some.mpr ⟨?_, hid.symm⟩
    exact Table.self_mem_replace hrow rfl
  · next hne => exact Table.find?_replace_of_ne hne

theorem liveItem?_renew_retire (i : Int) : (s.renew (row.retire version)).liveItem? i =
    if i = row.id then none else s.liveItem? i := by
  rw [liveItem?, find?_renew_retire hs hrow]
  split <;> rfl

theorem itemListId?_renew_retire (i : Int) :
    (s.renew (row.retire version)).itemListId? i = s.itemListId? i := by
  rw [itemListId?, find?_renew_retire hs hrow]
  split
  · next hid =>
    rw [hid, itemListId?, find?_of_mem hs hrow]
    rfl
  · rfl

/-- Of the items that were switched on, all but this one still are. -/
theorem liveItems_renew_retire (ids : List Int) :
    (s.renew (row.retire version)).liveItems ids = (s.liveItems ids).filter (·.id != row.id) := by
  have hlook := liveItem?_renew_retire hs hrow version
  induction ids with
  | nil => rfl
  | cons id ids ih =>
    by_cases heq : id = row.id
    · have hoff : (s.renew (row.retire version)).liveItem? id = none := by
        rw [hlook, if_pos heq]
      rw [liveItems_cons_of_off hoff, ih]
      rcases hr : s.liveItem? id with _ | r
      · rw [liveItems_cons_of_off hr]
      · obtain ⟨-, -, hid, -⟩ := liveItem?_eq_some hr
        have hsame : (r.id != row.id) = false := by simp [hid, heq]
        rw [liveItems_cons_of_live hr, List.filter_cons, hsame, List.filter_filter]
        simp [heq]
    · have hsame : (s.renew (row.retire version)).liveItem? id = s.liveItem? id := by
        rw [hlook, if_neg heq]
      rcases hr : s.liveItem? id with _ | r
      · rw [liveItems_cons_of_off (hsame.trans hr), liveItems_cons_of_off hr, ih]
      · obtain ⟨-, -, hid, -⟩ := liveItem?_eq_some hr
        have hkeep : (r.id != row.id) = true := by simp [hid, heq]
        rw [liveItems_cons_of_live (hsame.trans hr), liveItems_cons_of_live hr, ih,
          List.filter_cons, if_pos hkeep, List.filter_filter, List.filter_filter]
        simp only [Bool.and_comm]

end Renew

/-- The tables after a delete of one item: it has been switched off, if it was on and a version was
left for it. -/
def deleted (s : Store) (id : Int) : Store :=
  match s.liveItem? id with
  | some row => if s.sequence < maxInteger then s.renew (row.retire s.next) else s
  | none => s

theorem deleted_of_off (h : s.liveItem? id = none) : s.deleted id = s := by
  rw [deleted, h]

theorem deleted_of_exhausted (hroom : ¬s.sequence < maxInteger) (id : Int) : s.deleted id = s := by
  rw [deleted]
  split
  · exact if_neg hroom
  · rfl

theorem deleted_of_live (hroom : s.sequence < maxInteger) (h : s.liveItem? id = some row) :
    s.deleted id = s.renew (row.retire s.next) := by
  rw [deleted, h]
  exact if_pos hroom

/-- A delete leaves the tables as they are, or one item is switched off with the next version. -/
theorem deleted_cases (s : Store) (id : Int) : s.deleted id = s ∨
    ∃ row, s.liveItem? id = some row ∧ s.sequence < maxInteger ∧
      s.deleted id = s.renew (row.retire s.next) := by
  rcases hrow : s.liveItem? id with _ | row
  · exact Or.inl (deleted_of_off hrow)
  · by_cases hroom : s.sequence < maxInteger
    · exact Or.inr ⟨row, rfl, hroom, deleted_of_live hroom hrow⟩
    · exact Or.inl (deleted_of_exhausted hroom id)

/-- Once the versions have run out, deletes leave the tables as they are. -/
theorem foldl_deleted_of_exhausted (hroom : ¬s.sequence < maxInteger) (ids : List Int) :
    ids.foldl deleted s = s := by
  induction ids with
  | nil => rfl
  | cons id ids ih => rw [List.foldl_cons, deleted_of_exhausted hroom, ih]

theorem alike_deleted (s : Store) (id : Int) : s.Alike (s.deleted id) := by
  rcases s.deleted_cases id with h | ⟨row, -, -, h⟩
  · rw [h]
    exact .refl s
  · rw [h]
    exact ⟨rfl, rfl, rfl, rfl, rfl, rfl⟩

/-- An item stays in its list. -/
theorem itemListId?_deleted (hs : s.Ordered) (id i : Int) :
    (s.deleted id).itemListId? i = s.itemListId? i := by
  rcases s.deleted_cases id with h | ⟨row, hrow, -, h⟩
  · rw [h]
  · rw [h, itemListId?_renew_retire hs (liveItem?_eq_some hrow).2.1]

theorem ordered_deleted (hs : s.Ordered) (id : Int) : (s.deleted id).Ordered := by
  rcases s.deleted_cases id with h | ⟨row, -, -, h⟩
  · rw [h]
    exact hs
  · rw [h]
    exact ⟨hs.items.replace _, hs.lists⟩

theorem versioned_deleted (hs : s.Ordered) (hv : s.Versioned) (id : Int) :
    (s.deleted id).Versioned := by
  rcases s.deleted_cases id with h | ⟨row, hrow, -, h⟩
  · rw [h]
    exact hv
  · rw [h]
    exact (touches_retire hs (liveItem?_eq_some hrow).2.1).versioned hv

theorem liveItem?_of_missing (h : s.itemListId? id = none) : s.liveItem? id = none := by
  rw [itemListId?, Option.map_eq_none_iff] at h
  rw [liveItem?, h]
  rfl

/-- There has to be a version to give out even for an item that is off. -/
theorem disableItem_eq (hv : s.Versioned) (id : Int) : s.disableItem id =
    if s.sequence < maxInteger then
      .ok (match s.liveItem? id with
        | none => (none, s.reserved)
        | some row => (some ⟨row.id, row.listId, s.next⟩, s.deleted id))
    else .error .noVersionLeft := by
  by_cases hroom : s.sequence < maxInteger
  · rw [if_pos hroom]
    rcases hrow : s.liveItem? id with _ | row
    · rw [disableItem_of_off hrow, if_pos hroom]
    · rw [disableItem_of_room hv hroom hrow, deleted_of_live hroom hrow]
  · rw [if_neg hroom]
    exact disableItem_of_exhausted hroom id

/-! ## Enough versions -/

/-- There are enough versions to delete these items one after the other: one is left for each id
that belongs to an item, switched on or off, when its turn comes. -/
def Suffices (s : Store) (ids : List Int) : Prop :=
  ∀ (n : Nat) (h : n < ids.length), (s.itemListId? ids[n]).isSome →
    s.sequence + (s.liveItems (ids.take n)).length < maxInteger

instance (s : Store) (ids : List Int) : Decidable (s.Suffices ids) :=
  inferInstanceAs (Decidable (∀ (n : Nat) (_ : n < ids.length), _))

/-- As many versions as ids are enough. -/
theorem suffices_of_length_le (h : s.sequence + ids.length ≤ maxInteger) : s.Suffices ids := by
  intro n hn _
  have hlength := s.length_liveItems_le (ids.take n)
  rw [List.length_take] at hlength
  omega

theorem suffices_cons_iff (s : Store) (id : Int) (ids : List Int) : s.Suffices (id :: ids) ↔
    ((s.itemListId? id).isSome → s.sequence < maxInteger) ∧
      ∀ (n : Nat) (h : n < ids.length), (s.itemListId? ids[n]).isSome →
        s.sequence + (s.liveItems (id :: ids.take n)).length < maxInteger := by
  constructor
  · intro h
    refine ⟨fun hid => ?_, fun n hn => h (n + 1) (Nat.succ_lt_succ hn)⟩
    simpa [liveItems] using h 0 (Nat.zero_lt_succ _) hid
  · rintro ⟨hfirst, hrest⟩ n hn
    cases n with
    | zero => simpa [liveItems] using hfirst
    | succ n => exact hrest n (Nat.lt_of_succ_lt_succ hn)

/-- The first item is deleted, and then the others. -/
theorem suffices_cons (hs : s.Ordered) (id : Int) (ids : List Int) : s.Suffices (id :: ids) ↔
    ((s.itemListId? id).isSome → s.sequence < maxInteger) ∧ (s.deleted id).Suffices ids := by
  rw [suffices_cons_iff]
  refine and_congr_right fun hfirst => forall₂_congr fun n hn => ?_
  rw [itemListId?_deleted hs]
  refine imp_congr_right fun _ => ?_
  rcases hrow : s.liveItem? id with _ | row
  · rw [liveItems_cons_of_off hrow, deleted_of_off hrow]
  · obtain ⟨hfind, hmem, rfl, -⟩ := liveItem?_eq_some hrow
    have hroom := hfirst (by rw [itemListId?, hfind]; rfl)
    rw [liveItems_cons_of_live hrow, deleted_of_live hroom hrow,
      liveItems_renew_retire hs hmem, List.length_cons]
    show _ ↔ s.sequence + 1 + _ < maxInteger
    omega

/-- While there are enough versions, deleting items one after the other switches off those that
are on. -/
theorem foldl_deleted (hs : s.Ordered) (h : s.Suffices ids) :
    ids.foldl deleted s = s.afterRetiring (s.liveItems ids) := by
  induction ids generalizing s with
  | nil => rw [List.foldl_nil, liveItems, afterRetiring_nil]
  | cons id ids ih =>
    obtain ⟨hfirst, hrest⟩ := (suffices_cons hs id ids).mp h
    rw [List.foldl_cons, ih (ordered_deleted hs id) hrest]
    rcases hrow : s.liveItem? id with _ | row
    · rw [liveItems_cons_of_off hrow, deleted_of_off hrow]
    · obtain ⟨hfind, hmem, rfl, -⟩ := liveItem?_eq_some hrow
      have hroom := hfirst (by rw [itemListId?, hfind]; rfl)
      have hnew := s.nodup_liveItems (row.id :: ids)
      rw [liveItems_cons_of_live hrow, List.map_cons, List.nodup_cons] at hnew
      rw [liveItems_cons_of_live hrow, deleted_of_live hroom hrow, afterRetiring_cons hnew.1,
        liveItems_renew_retire hs hmem]

end Store

end FirewallLists
