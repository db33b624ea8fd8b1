import FirewallLists.Proofs.Service.Room

/-
  Rows that are switched off one after the other. Each takes the version of its place, so rows of
  the table can all be switched off exactly if there is a version for each of them
  (`Store.retireAll_eq`). What the table then holds is told of by `Store.SwitchesOff`.
-/

namespace FirewallLists

namespace ItemRow

variable {rows : List ItemRow} {r q : ItemRow} {v : Int}

/-- Rows that are switched off take the versions of their places. -/
theorem afterRetiring_getElem? (hids : (rows.map (·.id)).Nodup) {i : Nat} (hq : rows[i]? = some q) :
    q.afterRetiring rows v = q.retire (v + i + 1) := by
  induction rows generalizing i v with
  | nil => simp at hq
  | cons p rows ih =>
    rw [List.map_cons, List.nodup_cons] at hids
    cases i with
    | zero =>
      cases hq
      simp [afterRetiring]
    | succ i =>
      rw [List.getElem?_cons_succ] at hq
      have hne : q.id ≠ p.id := fun hid =>
        hids.1 (hid ▸ List.mem_map_of_mem (List.mem_of_getElem? hq))
      rw [afterRetiring, if_neg hne, ih hids.2 hq]
      congr 1
      omega

end ItemRow

namespace Store

variable {s s' : Store} {rows gone : List ItemRow}

/-- What is told of rows that are switched off one after the other. -/
def retirements (s : Store) (rows : List ItemRow) : List Retired :=
  rows.mapIdx fun i r => ⟨r.id, r.listId, s.sequence + i + 1⟩

@[simp]
theorem retirements_nil (s : Store) : s.retirements [] = [] := rfl

theorem retirements_cons (s : Store) (r : ItemRow) (rows : List ItemRow) (row : ItemRow) :
    s.retirements (r :: rows) = ⟨r.id, r.listId, s.next⟩ :: (s.renew row).retirements rows := by
  simp only [retirements, List.mapIdx_cons, next, renew]
  congr 1
  · simp
  · congr 1
    funext i q
    congr 1
    omega

theorem retirements_append (s : Store) (rows more : List ItemRow) :
    s.retirements (rows ++ more) =
      s.retirements rows ++ (s.afterRetiring rows).retirements more := by
  simp only [retirements, List.mapIdx_append, afterRetiring]
  congr 2
  funext i r
  congr 1
  omega

/-- The last one of several items that are switched off has the last version. -/
theorem getLast?_retirements (s : Store) (rows : List ItemRow) :
    (s.retirements rows).getLast?.map (·.change) =
      rows.getLast?.map fun row => ⟨row.id, row.listId, s.sequence + rows.length⟩ := by
  cases rows with
  | nil => rfl
  | cons row rows =>
    rw [retirements, List.getLast?_mapIdx, Option.map_map]
    congr 1
    funext r
    simp only [Function.comp_apply, Retired.change, List.length_cons, Nat.add_sub_cancel]
    congr 1
    omega

/-- Rows of the table can all be switched off if there is a version for each of them, and only
then. -/
theorem retireAll_eq (hs : s.Ordered) (hv : s.Versioned) (hbounded : s.sequence ≤ maxInteger)
    (hrows : ∀ r ∈ rows, r ∈ s.items.rows) (hids : (rows.map (·.id)).Nodup) :
    retireAll rows s = if s.sequence + rows.length ≤ maxInteger
      then .ok (s.retirements rows, s.afterRetiring rows) else .error .noVersionLeft := by
  induction rows generalizing s with
  | nil =>
    rw [if_pos (by simpa using hbounded), afterRetiring_nil]
    rfl
  | cons row rows ih =>
    by_cases hroom : s.sequence < maxInteger
    · have hfirst := retire_of_room hv hroom row
      have htouches := touches_retire hs (hrows row List.mem_cons_self)
      have hids' := List.nodup_cons.mp hids
      have hrest : ∀ r ∈ rows, r ∈ (s.renew (row.retire s.next)).items.rows := by
        intro r hr
        refine Table.mem_replace_of_ne (hrows r (List.mem_cons_of_mem _ hr)) fun hid => ?_
        exact hids'.1 (List.mem_map.mpr ⟨r, hr, hid⟩)
      have hmore := ih (s := s.renew (row.retire s.next)) ⟨hs.items.replace _, hs.lists⟩
        (htouches.versioned hv) hroom hrest hids'.2
      have hlength : (s.renew (row.retire s.next)).sequence + rows.length =
          s.sequence + (row :: rows).length := by
        rw [htouches.sequence, next, List.length_cons]
        omega
      rw [hlength] at hmore
      split
      · next hall =>
        rw [if_pos hall] at hmore
        rw [retirements_cons s row rows (row.retire s.next)]
        have hdone : retireAll (row :: rows) s = .ok (_, _) :=
          bind_eq_ok.mpr ⟨_, hfirst, bind_eq_ok.mpr ⟨_, hmore, rfl⟩⟩
        rw [hdone, retireAll_eq_ok hids hdone]
      · next hall =>
        rw [if_neg hall] at hmore
        rw [retireAll, bind_of_ok hfirst]
        exact bind_of_error hmore _
    · rw [if_neg (by rw [List.length_cons]; omega)]
      exact bind_of_error (retire_of_exhausted hroom row) _

/-- The rows are those that were switched off, each with the version of its place, and all others
as they were. -/
theorem mem_afterRetiring_iff (hs : s.Ordered) (hgone : ∀ r ∈ gone, r ∈ s.items.rows)
    (hids : (gone.map (·.id)).Nodup) (r : ItemRow) :
    r ∈ (s.afterRetiring gone).items.rows ↔
      (∃ (i : Nat) (q : ItemRow), gone[i]? = some q ∧ r = q.retire (s.sequence + i + 1)) ∨
      (r ∈ s.items.rows ∧ r ∉ gone) := by
  have hkeeps : ∀ q ∈ s.items.rows, q ∉ gone → q.id ∉ gone.map (·.id) := by
    intro q hq hnot hmem
    obtain ⟨p, hp, hid⟩ := List.mem_map.mp hmem
    exact hnot (hs.items.eq_of_id (hgone p hp) hq hid ▸ hp)
  rw [afterRetiring, Table.mem_update]
  constructor
  · rintro ⟨q, hq, rfl⟩
    by_cases hmem : q ∈ gone
    · obtain ⟨i, hi⟩ := List.mem_iff_getElem?.mp hmem
      exact Or.inl ⟨i, q, hi, ItemRow.afterRetiring_getElem? hids hi⟩
    · rw [ItemRow.afterRetiring_of_not_mem (hkeeps q hq hmem)]
      exact Or.inr ⟨hq, hmem⟩
  · rintro (⟨i, q, hi, rfl⟩ | ⟨hr, hnot⟩)
    · exact ⟨q, hgone q (List.mem_of_getElem? hi), ItemRow.afterRetiring_getElem? hids hi⟩
    · exact ⟨r, hr, ItemRow.afterRetiring_of_not_mem (hkeeps r hr hnot)⟩

/-- These rows have been switched off in this order. Each of them has the version of its place and
keeps its other columns, and all else is as it was. -/
structure SwitchesOff (s : Store) (gone : List ItemRow) (s' : Store) : Prop where
  sequence : s'.sequence = s.sequence + gone.length
  ordered : s'.items.Ordered
  lastId : s'.items.lastId = s.items.lastId
  mem_iff : ∀ r, r ∈ s'.items.rows ↔
    (∃ (i : Nat) (q : ItemRow), gone[i]? = some q ∧
      r = { q with state := 0, version := s.sequence + i + 1 }) ∨
    (r ∈ s.items.rows ∧ r ∉ gone)
  rest : s' = { s with items := s'.items, sequence := s'.sequence }

theorem switchesOff_afterRetiring (hs : s.Ordered) (hgone : ∀ r ∈ gone, r ∈ s.items.rows)
    (hids : (gone.map (·.id)).Nodup) : s.SwitchesOff gone (s.afterRetiring gone) where
  sequence := rfl
  ordered := (hs.afterRetiring gone).items
  lastId := rfl
  mem_iff := mem_afterRetiring_iff hs hgone hids
  rest := rfl

namespace SwitchesOff

theorem alike (h : s.SwitchesOff gone s') : s.Alike s' := by
  rw [h.rest]
  exact ⟨rfl, rfl, rfl, rfl, rfl, rfl⟩

/-- A row that is still switched on was there before and is none of those switched off. -/
theorem mem_of_isLive (h : s.SwitchesOff gone s') {r : ItemRow} (hr : r ∈ s'.items.rows)
    (hlive : r.isLive) : r ∈ s.items.rows ∧ r ∉ gone := by
  rcases (h.mem_iff r).mp hr with ⟨i, q, -, rfl⟩ | hstays
  · rw [← ItemRow.retire, ItemRow.isLive_retire] at hlive
    cases hlive
  · exact hstays

end SwitchesOff

end Store

end FirewallLists
