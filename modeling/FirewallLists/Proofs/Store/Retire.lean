import FirewallLists.Proofs.Store.Table

/-
  Switching items off. A write reserves a version before it looks for what to switch off, and the
  first row it comes to takes this one. So each row takes the next version, as if there were no
  reservation (`retireAll`, `switchOffAll_reserved`), and only a write that comes to no row at all
  is left with a version that nothing has. `retireAll` leaves every row with the id of one of those
  given off, with the version of its place in the list, and every other row as it was
  (`retireAll_eq_ok`, `ItemRow.afterRetiring`). After an item's overlaps are retired nothing is in
  its way any more (`overlapping_afterRetiring`).
-/

namespace FirewallLists

theorem bind_eq_ok {ε α β : Type} {x : Except ε α} {f : α → Except ε β} {b : β} :
    (x >>= f) = .ok b ↔ ∃ a, x = .ok a ∧ f a = .ok b := by
  cases x <;> simp [bind, Except.bind]

theorem bind_of_ok {ε α β : Type} {x : Except ε α} {a : α} (h : x = .ok a)
    (f : α → Except ε β) : (x >>= f) = f a := by
  rw [h]
  rfl

theorem bind_of_error {ε α β : Type} {x : Except ε α} {e : ε} (h : x = .error e)
    (f : α → Except ε β) : (x >>= f) = .error e := by
  rw [h]
  rfl

theorem checkValues_of_le {n : Nat} (h : n ≤ maxValues) : checkValues n = .ok () :=
  if_pos h

theorem checkValues_of_lt {n : Nat} (h : ¬n ≤ maxValues) : checkValues n = .error .tooManyValues :=
  if_neg h

theorem le_of_checkValues {n : Nat} {u : Unit} (h : checkValues n = .ok u) : n ≤ maxValues := by
  by_contra hlt
  rw [checkValues_of_lt hlt] at h
  cases h

/-! ## One row among rows that are switched off -/

/-- What a row becomes when these are switched off one after the other, the first of them with
the version after this one. -/
def ItemRow.afterRetiring : List ItemRow → Int → ItemRow → ItemRow
  | [], _, r => r
  | q :: rows, version, r =>
    if r.id = q.id then q.retire (version + 1) else r.afterRetiring rows (version + 1)

namespace ItemRow

variable {rows : List ItemRow} {r : ItemRow} {v : Int}

@[simp]
theorem retire_id (r : ItemRow) (v : Int) : (r.retire v).id = r.id := rfl

theorem isLive_retire (r : ItemRow) (v : Int) : (r.retire v).isLive = false := rfl

@[simp]
theorem afterRetiring_id : (r.afterRetiring rows v).id = r.id := by
  induction rows generalizing v with
  | nil => rfl
  | cons q rows ih =>
    rw [afterRetiring]
    split
    · next h => rw [retire_id, h]
    · exact ih

theorem afterRetiring_of_not_mem (h : r.id ∉ rows.map (·.id)) : r.afterRetiring rows v = r := by
  induction rows generalizing v with
  | nil => rfl
  | cons q rows ih =>
    rw [List.map_cons, List.mem_cons, not_or] at h
    rw [afterRetiring, if_neg h.1]
    exact ih h.2

theorem isLive_afterRetiring (h : r.id ∈ rows.map (·.id)) :
    (r.afterRetiring rows v).isLive = false := by
  induction rows generalizing v with
  | nil => simp at h
  | cons q rows ih =>
    rw [afterRetiring]
    split
    · rfl
    · next hne =>
      rw [List.map_cons, List.mem_cons] at h
      exact ih (h.resolve_left hne)

/-- Each version that is taken goes to one of the rows. -/
theorem exists_version_afterRetiring (hids : (rows.map (·.id)).Nodup) {w : Int} (hv : v < w)
    (hw : w ≤ v + rows.length) : ∃ q ∈ rows, (q.afterRetiring rows v).version = w := by
  induction rows generalizing v with
  | nil => simp at hw; omega
  | cons q rows ih =>
    rw [List.map_cons, List.nodup_cons] at hids
    by_cases hfirst : w = v + 1
    · exact ⟨q, List.mem_cons_self, by rw [afterRetiring, if_pos rfl, hfirst]; rfl⟩
    · rw [List.length_cons] at hw
      obtain ⟨p, hp, hpw⟩ := ih hids.2 (v := v + 1) (by omega) (by omega)
      have hne : p.id ≠ q.id := fun h => hids.1 (h ▸ List.mem_map_of_mem hp)
      exact ⟨p, List.mem_cons_of_mem _ hp, by rw [afterRetiring, if_neg hne]; exact hpw⟩

end ItemRow

namespace Store

/-! ## Elementary writes -/

/-- The version that the next change of an item takes. -/
def next (s : Store) : Int :=
  s.sequence + 1

/-- Put an item that takes the next version in the place of the one with its id. -/
def renew (s : Store) (row : ItemRow) : Store :=
  { s with items := s.items.replace row, sequence := s.next }

/-- Add an item that takes the next version. -/
def append (s : Store) (row : ItemRow) : Store :=
  { s with items := s.items.insert row, sequence := s.next }

/-- Switch an item off with the next version. -/
def retire (s : Store) (row : ItemRow) : Except StorageError (Retired × Store) := do
  let (version, s) ← s.nextVersion
  s.switchOff row version

/-- Switch items off one after the other, each with the next version. -/
def retireAll : List ItemRow → Store → Except StorageError (List Retired × Store)
  | [], s => .ok ([], s)
  | row :: rows, s => do
    let (retired, s) ← s.retire row
    let (more, s) ← retireAll rows s
    return (retired :: more, s)

/-- The tables once a version has been reserved. -/
def reserved (s : Store) : Store :=
  { s with sequence := s.next }

variable {s s' : Store}

theorem nextVersion_eq_ok {v : Int} (h : s.nextVersion = .ok (v, s')) :
    s.sequence < maxInteger ∧ v = s.next ∧ s' = s.reserved := by
  unfold nextVersion at h
  split at h
  · next hroom => cases h; exact ⟨hroom, rfl, rfl⟩
  · cases h

theorem nextVersion_of_room (hroom : s.sequence < maxInteger) :
    s.nextVersion = .ok (s.next, s.reserved) := by
  rw [nextVersion, if_pos hroom]
  rfl

theorem nextVersion_of_exhausted (hroom : ¬s.sequence < maxInteger) :
    s.nextVersion = .error .noVersionLeft :=
  if_neg hroom

theorem replaceItem_eq_ok {row : ItemRow} (h : s.replaceItem row = .ok s') :
    s' = { s with items := s.items.replace row } := by
  unfold replaceItem at h
  split at h <;> cases h
  rfl

theorem insertItem_eq_ok {row : ItemRow} (h : s.insertItem row = .ok s') :
    s' = { s with items := s.items.insert row } := by
  unfold insertItem at h
  split at h <;> cases h
  rfl

theorem retire_eq_ok {row : ItemRow} {retired : Retired} (h : s.retire row = .ok (retired, s')) :
    s.sequence < maxInteger ∧ retired = ⟨row.id, row.listId, s.next⟩ ∧
      s' = s.renew (row.retire s.next) := by
  unfold retire at h
  rw [bind_eq_ok] at h
  obtain ⟨⟨v, s₁⟩, hv, h⟩ := h
  obtain ⟨hroom, rfl, rfl⟩ := nextVersion_eq_ok hv
  unfold switchOff at h
  rw [bind_eq_ok] at h
  obtain ⟨s₂, hs₂, h⟩ := h
  have := replaceItem_eq_ok hs₂
  subst this
  cases h
  exact ⟨hroom, rfl, rfl⟩

theorem retireAll_cons_eq_ok {row : ItemRow} {rows : List ItemRow} {all : List Retired}
    (h : retireAll (row :: rows) s = .ok (all, s')) :
    ∃ retired more s₁, s.retire row = .ok (retired, s₁) ∧ retireAll rows s₁ = .ok (more, s') ∧
      all = retired :: more := by
  rw [retireAll, bind_eq_ok] at h
  obtain ⟨⟨retired, s₁⟩, hfirst, h⟩ := h
  rw [bind_eq_ok] at h
  obtain ⟨⟨more, s₂⟩, hrest, h⟩ := h
  cases h
  exact ⟨retired, more, s₁, hfirst, hrest, rfl⟩

/-! ## Reservations -/

/-- Without a reservation each row takes the next version. -/
theorem switchOffAll_none (rows : List ItemRow) (s : Store) :
    switchOffAll rows none s = (fun done => (done.1, none, done.2)) <$> retireAll rows s := by
  induction rows generalizing s with
  | nil => rfl
  | cons row rows ih =>
    simp only [switchOffAll, retireAll, retire, allocate, ih, bind_assoc, map_bind, map_pure,
      bind_map_left]

/-- A first row that takes the version just reserved takes the next one. -/
theorem switchOffAll_cons_reserved (hroom : s.sequence < maxInteger) (row : ItemRow)
    (rows : List ItemRow) :
    switchOffAll (row :: rows) (some s.next) s.reserved =
      (fun done => (done.1, none, done.2)) <$> retireAll (row :: rows) s := by
  rw [← switchOffAll_none, switchOffAll, switchOffAll, allocate, allocate,
    nextVersion_of_room hroom]

/-- To switch rows off with a version just reserved, and to go on with what is left of it or else
with the next version, is to switch the rows off and to take the next version. -/
theorem switchOffAll_reserved {β : Type} (hroom : s.sequence < maxInteger) (rows : List ItemRow)
    (f : List Retired → Int → Store → Except StorageError β) :
    (switchOffAll rows (some s.next) s.reserved >>= fun done =>
      done.2.2.allocate done.2.1 >>= fun taken => f done.1 taken.1 taken.2) =
    (retireAll rows s >>= fun done =>
      done.2.nextVersion >>= fun taken => f done.1 taken.1 taken.2) := by
  cases rows with
  | nil => exact (bind_of_ok (nextVersion_of_room hroom) fun taken => f [] taken.1 taken.2).symm
  | cons row rows => simp only [switchOffAll_cons_reserved hroom, bind_map_left, allocate]

/-- Without a version left it makes no difference where a write fails. -/
theorem retireAll_of_exhausted {β : Type} (hroom : ¬s.sequence < maxInteger) (rows : List ItemRow)
    (f : List Retired → Int → Store → Except StorageError β) :
    (retireAll rows s >>= fun done =>
      done.2.nextVersion >>= fun taken => f done.1 taken.1 taken.2) = .error .noVersionLeft := by
  have hnone := nextVersion_of_exhausted hroom
  cases rows with
  | nil => exact bind_of_error hnone _
  | cons row rows =>
    have hretire : retireAll (row :: rows) s = .error .noVersionLeft :=
      bind_of_error (bind_of_error hnone _) _
    exact bind_of_error hretire _

/-- The tables after these rows have been switched off. -/
def afterRetiring (s : Store) (rows : List ItemRow) : Store :=
  { s with
    items := s.items.update (·.afterRetiring rows s.sequence)
    sequence := s.sequence + rows.length }

@[simp]
theorem afterRetiring_nil (s : Store) : s.afterRetiring [] = s := by
  simp [afterRetiring, Table.update, ItemRow.afterRetiring]

/-- The first row is switched off, and then the others, which have other ids. -/
theorem afterRetiring_cons {row : ItemRow} {rows : List ItemRow} (h : row.id ∉ rows.map (·.id)) :
    s.afterRetiring (row :: rows) = (s.renew (row.retire s.next)).afterRetiring rows := by
  have hitems : (s.items.replace (row.retire s.next)).update (·.afterRetiring rows s.next) =
      s.items.update (·.afterRetiring (row :: rows) s.sequence) := by
    simp only [Table.update, Table.replace, List.map_map]
    congr 1
    apply List.map_congr_left
    intro r _
    show (if r.id = row.id then row.retire s.next else r).afterRetiring rows s.next = _
    rw [ItemRow.afterRetiring]
    split
    · exact ItemRow.afterRetiring_of_not_mem h
    · rfl
  have hsequence : s.next + rows.length = s.sequence + (row :: rows).length := by
    rw [next, List.length_cons]
    omega
  unfold afterRetiring renew
  rw [← hitems, ← hsequence]

/-- Rows are switched off one list after the other. -/
theorem afterRetiring_append {rows more : List ItemRow} (h : ((rows ++ more).map (·.id)).Nodup) :
    s.afterRetiring (rows ++ more) = (s.afterRetiring rows).afterRetiring more := by
  induction rows generalizing s with
  | nil => rw [List.nil_append, afterRetiring_nil]
  | cons row rows ih =>
    rw [List.cons_append, List.map_cons, List.nodup_cons] at h
    have hid : row.id ∉ rows.map (·.id) := by
      rw [List.map_append] at h
      exact fun hmem => h.1 (List.mem_append_left _ hmem)
    rw [List.cons_append, afterRetiring_cons h.1, afterRetiring_cons hid, ih h.2]

theorem retireAll_eq_ok {rows : List ItemRow} {all : List Retired}
    (hids : (rows.map (·.id)).Nodup) (h : retireAll rows s = .ok (all, s')) :
    s' = s.afterRetiring rows := by
  induction rows generalizing s all with
  | nil =>
    cases h
    rw [afterRetiring_nil]
  | cons row rows ih =>
    rw [List.map_cons, List.nodup_cons] at hids
    obtain ⟨retired, more, s₁, hfirst, hrest, rfl⟩ := retireAll_cons_eq_ok h
    obtain ⟨-, -, rfl⟩ := retire_eq_ok hfirst
    rw [ih hids.2 hrest, afterRetiring_cons hids.1]

theorem mem_afterRetiring {rows : List ItemRow} {r : ItemRow}
    (h : r ∈ (s.afterRetiring rows).items.rows) :
    r.isLive = false ∨ (r ∈ s.items.rows ∧ r.id ∉ rows.map (·.id)) := by
  obtain ⟨q, hq, rfl⟩ := List.mem_map.mp h
  by_cases hmem : q.id ∈ rows.map (·.id)
  · exact Or.inl (ItemRow.isLive_afterRetiring hmem)
  · rw [ItemRow.afterRetiring_of_not_mem hmem]
    exact Or.inr ⟨hq, hmem⟩

theorem mem_afterRetiring_of_not_mem {rows : List ItemRow} {r : ItemRow} (hr : r ∈ s.items.rows)
    (hid : r.id ∉ rows.map (·.id)) : r ∈ (s.afterRetiring rows).items.rows :=
  List.mem_map.mpr ⟨r, hr, ItemRow.afterRetiring_of_not_mem hid⟩

/-! ## Items in the way -/

theorem mem_overlapping {item : NewItem} {exclude : Int} {r : ItemRow} :
    r ∈ s.overlapping item exclude ↔
      r ∈ s.items.rows ∧ r.listId = item.listId ∧ r.isLive ∧
        r.overlaps item.family item.fromKey item.toKey ∧ r.id ≠ exclude := by
  simp [overlapping, and_assoc]

/-- A row is never in its own way, so it stays as it is. -/
theorem mem_afterRetiring_overlapping (item : NewItem) {r : ItemRow} (hr : r ∈ s.items.rows) :
    r ∈ (s.afterRetiring (s.overlapping item r.id)).items.rows := by
  apply mem_afterRetiring_of_not_mem hr
  intro hin
  obtain ⟨q, hq, hid⟩ := List.mem_map.mp hin
  exact (mem_overlapping.mp hq).2.2.2.2 hid

/-- Once all that was in the way of an item is off, nothing is. -/
theorem overlapping_afterRetiring (item : NewItem) (exclude : Int) :
    (s.afterRetiring (s.overlapping item exclude)).overlapping item exclude = [] := by
  rw [List.eq_nil_iff_forall_not_mem]
  intro r hr
  obtain ⟨hmem, hlist, hlive, hover, hid⟩ := mem_overlapping.mp hr
  rcases mem_afterRetiring hmem with hoff | ⟨hrow, hnot⟩
  · rw [hlive] at hoff
    cases hoff
  · exact hnot (List.mem_map_of_mem (mem_overlapping.mpr ⟨hrow, hlist, hlive, hover, hid⟩))

/-! ## Writes without their reservations -/

theorem createItem_eq (s : Store) (item : NewItem) (isRead : Bool) (now : Int) :
    s.createItem item isRead now = (do
      let (replaced, s) ← retireAll (s.overlapping item 0) s
      let (version, s) ← s.nextVersion
      let id ← s.items.nextId
      let s ← s.insertItem (.ofNew item isRead now version id)
      return (⟨id, version, replaced⟩, s)) := by
  let finish (replaced : List Retired) (version : Int) (s : Store) :
      Except StorageError (Written × Store) := do
    let id ← s.items.nextId
    let s ← s.insertItem (.ofNew item isRead now version id)
    return (⟨id, version, replaced⟩, s)
  by_cases hroom : s.sequence < maxInteger
  · rw [createItem, bind_of_ok (nextVersion_of_room hroom)]
    exact switchOffAll_reserved hroom (s.overlapping item 0) finish
  · rw [createItem, bind_of_error (nextVersion_of_exhausted hroom)]
    exact (retireAll_of_exhausted hroom (s.overlapping item 0) finish).symm

theorem updateItem_of_live {id : Int} {row : ItemRow} (hrow : s.liveItem? id = some row)
    (item : NewItem) :
    s.updateItem id item = (do
      let (replaced, s) ← retireAll (s.overlapping item id) s
      let (version, s) ← s.nextVersion
      let s ← s.replaceItem (row.revise item version)
      return (some ⟨id, version, replaced⟩, s)) := by
  let finish (replaced : List Retired) (version : Int) (s : Store) :
      Except StorageError (Option Written × Store) := do
    let s ← s.replaceItem (row.revise item version)
    return (some ⟨id, version, replaced⟩, s)
  by_cases hroom : s.sequence < maxInteger
  · have hrow' : s.reserved.liveItem? id = some row := hrow
    rw [updateItem, bind_of_ok (nextVersion_of_room hroom)]
    simp only [hrow']
    exact switchOffAll_reserved hroom (s.overlapping item id) finish
  · rw [updateItem, bind_of_error (nextVersion_of_exhausted hroom)]
    exact (retireAll_of_exhausted hroom (s.overlapping item id) finish).symm

/-- A revision of an item that is not switched on ends with a version that nothing has. -/
theorem updateItem_of_off {id : Int} (hrow : s.liveItem? id = none) (item : NewItem) :
    s.updateItem id item =
      if s.sequence < maxInteger then .ok (none, s.reserved) else .error .noVersionLeft := by
  split
  · next hroom =>
    have hrow' : s.reserved.liveItem? id = none := hrow
    rw [updateItem, bind_of_ok (nextVersion_of_room hroom)]
    simp only [hrow']
    rfl
  · next hroom => exact bind_of_error (nextVersion_of_exhausted hroom) _

theorem disableItem_of_live {id : Int} {row : ItemRow} (hrow : s.liveItem? id = some row) :
    s.disableItem id = (fun done => (some done.1, done.2)) <$> s.retire row := by
  by_cases hroom : s.sequence < maxInteger
  · have hrow' : s.reserved.liveItem? id = some row := hrow
    rw [disableItem, retire, bind_of_ok (nextVersion_of_room hroom),
      bind_of_ok (nextVersion_of_room hroom)]
    simp only [hrow']
    rfl
  · have hnone := nextVersion_of_exhausted hroom
    rw [disableItem, retire, bind_of_error hnone, bind_of_error hnone]
    rfl

theorem disableItem_of_off {id : Int} (hrow : s.liveItem? id = none) :
    s.disableItem id =
      if s.sequence < maxInteger then .ok (none, s.reserved) else .error .noVersionLeft := by
  split
  · next hroom =>
    have hrow' : s.reserved.liveItem? id = none := hrow
    rw [disableItem, bind_of_ok (nextVersion_of_room hroom)]
    simp only [hrow']
    rfl
  · next hroom => exact bind_of_error (nextVersion_of_exhausted hroom) _

section Matching

variable {scope : Scope} {range : Net.Range}

theorem disableMatching_of_room (hroom : s.sequence < maxInteger) (scope : Scope)
    (range : Net.Range) :
    s.disableMatching scope range =
      (checkValues (2 + scope.values) >>= fun _ =>
        (fun done => (done.1, done.2.2)) <$>
          switchOffAll (s.withBounds scope range) (some s.next) s.reserved) := by
  rw [disableMatching, bind_of_ok (nextVersion_of_room hroom)]
  rfl

theorem disableMatching_of_exhausted (hroom : ¬s.sequence < maxInteger) (scope : Scope)
    (range : Net.Range) : s.disableMatching scope range = .error .noVersionLeft :=
  bind_of_error (nextVersion_of_exhausted hroom) _

theorem disableMatching_of_found (hvalues : 2 + scope.values ≤ maxValues)
    (hfound : s.withBounds scope range ≠ []) :
    s.disableMatching scope range = retireAll (s.withBounds scope range) s := by
  by_cases hroom : s.sequence < maxInteger
  · rw [disableMatching_of_room hroom, bind_of_ok (checkValues_of_le hvalues)]
    cases hrows : s.withBounds scope range with
    | nil => exact absurd hrows hfound
    | cons row rows =>
      rw [switchOffAll_cons_reserved hroom, Functor.map_map]
      exact id_map _
  · rw [disableMatching_of_exhausted hroom]
    cases hrows : s.withBounds scope range with
    | nil => exact absurd hrows hfound
    | cons row rows =>
      exact (bind_of_error (bind_of_error (nextVersion_of_exhausted hroom) _) _).symm

/-- A delete that finds nothing ends with a version that nothing has. -/
theorem disableMatching_of_none (hvalues : 2 + scope.values ≤ maxValues)
    (hnone : s.withBounds scope range = []) :
    s.disableMatching scope range =
      if s.sequence < maxInteger then .ok ([], s.reserved) else .error .noVersionLeft := by
  split
  · next hroom =>
    rw [disableMatching_of_room hroom, bind_of_ok (checkValues_of_le hvalues), hnone]
    rfl
  · next hroom => exact disableMatching_of_exhausted hroom scope range

end Matching

/-- Rows chosen from a table in the order of its ids have different ids. -/
theorem nodup_ids_filter (hs : s.items.Ordered) (p : ItemRow → Bool) :
    ((s.items.rows.filter p).map (·.id)).Nodup :=
  hs.nodup_ids.sublist (List.filter_sublist.map _)

end Store

end FirewallLists
