import FirewallLists.Store
import Mathlib.Data.List.Nodup

/-
  Tables whose rows stand in the order of their ids. The services only ever write such tables: a
  row keeps its id when it is replaced, and a new row gets the highest (`Ordered.replace`,
  `Ordered.update`, `Ordered.insert`). In such a table an id finds its one row (`find?_eq_some`).
-/

namespace FirewallLists

@[simp]
theorem ItemRow.identified (r : ItemRow) : Identified.id r = r.id := rfl

@[simp]
theorem ListRow.identified (r : ListRow) : Identified.id r = r.id := rfl

/-- Two lists in strictly ascending order that hold the same are the same. -/
theorem eq_of_ascending {α : Type} (key : α → Int) {xs ys : List α}
    (hxs : xs.Pairwise fun x y => key x < key y) (hys : ys.Pairwise fun x y => key x < key y)
    (h : ∀ x, x ∈ xs ↔ x ∈ ys) : xs = ys := by
  have hnodup : ∀ {zs : List α}, zs.Pairwise (fun x y => key x < key y) → zs.Nodup :=
    fun hzs => hzs.imp fun hlt heq => by rw [heq] at hlt; omega
  refine List.Perm.eq_of_pairwise ?_ hxs hys ?_
  · intro x y _ _ hlt hgt
    omega
  · exact (List.perm_ext_iff_of_nodup (hnodup hxs) (hnodup hys)).mpr h

/-- Where keys are not used twice, the one that has a key is found by it. -/
theorem find?_key_eq_some {α β : Type} [DecidableEq β] {key : α → β} {xs : List α}
    (h : (xs.map key).Nodup) {x : α} {k : β} :
    (xs.find? fun y => key y == k) = some x ↔ x ∈ xs ∧ key x = k := by
  constructor
  · intro hfound
    exact ⟨List.mem_of_find?_eq_some hfound, by simpa using List.find?_some hfound⟩
  · rintro ⟨hx, rfl⟩
    obtain ⟨y, hfound⟩ : ∃ y, xs.find? (fun y => key y == key x) = some y := by
      rw [← Option.isSome_iff_exists, List.find?_isSome]
      exact ⟨x, hx, by simp⟩
    have hkey : key y = key x := by simpa using List.find?_some hfound
    rw [hfound, List.inj_on_of_nodup_map h (List.mem_of_find?_eq_some hfound) hx hkey]

namespace Table

variable {α : Type} [Identified α]

/-- The rows have ascending positive ids, none of them above the last one used. -/
structure Ordered (t : Table α) : Prop where
  ascending : t.rows.Pairwise fun r s => Identified.id r < Identified.id s
  positive : ∀ r ∈ t.rows, 0 < Identified.id r
  le_last : ∀ r ∈ t.rows, Identified.id r ≤ t.lastId
  last_nonneg : 0 ≤ t.lastId

theorem ordered_empty : Ordered ({} : Table α) :=
  ⟨List.Pairwise.nil, by simp, by simp, Int.le_refl 0⟩

/-! ## Rows after a write -/

theorem mem_replace {t : Table α} {r s : α} (h : s ∈ (t.replace r).rows) :
    s = r ∨ (s ∈ t.rows ∧ Identified.id s ≠ Identified.id r) := by
  obtain ⟨q, hq, rfl⟩ := List.mem_map.mp h
  by_cases hid : Identified.id q = Identified.id r
  · left; rw [if_pos hid]
  · right; rw [if_neg hid]; exact ⟨hq, hid⟩

theorem mem_replace_of_ne {t : Table α} {r s : α} (hs : s ∈ t.rows)
    (hid : Identified.id s ≠ Identified.id r) : s ∈ (t.replace r).rows :=
  List.mem_map.mpr ⟨s, hs, if_neg hid⟩

theorem self_mem_replace {t : Table α} {r s : α} (hs : s ∈ t.rows)
    (hid : Identified.id s = Identified.id r) : r ∈ (t.replace r).rows :=
  List.mem_map.mpr ⟨s, hs, if_pos hid⟩

omit [Identified α] in
theorem mem_update {t : Table α} {f : α → α} {s : α} :
    s ∈ (t.update f).rows ↔ ∃ r ∈ t.rows, f r = s :=
  List.mem_map

omit [Identified α] in
theorem update_eq_self {t : Table α} {f : α → α} (h : ∀ r ∈ t.rows, f r = r) : t.update f = t := by
  have hrows : t.rows.map f = t.rows := (List.map_congr_left h).trans (List.map_id _)
  rw [update, hrows]

/-- A row with an id above all others takes the last place. -/
theorem place_eq_append {r : α} {rows : List α}
    (h : ∀ s ∈ rows, Identified.id s < Identified.id r) : place r rows = rows ++ [r] := by
  induction rows with
  | nil => rfl
  | cons s rows ih =>
    have hs := h s List.mem_cons_self
    rw [place, if_neg (by omega), ih (fun q hq => h q (List.mem_cons_of_mem _ hq))]
    rfl

theorem rows_insert {t : Table α} (ht : t.Ordered) {r : α} (hr : Identified.id r = t.lastId + 1) :
    (t.insert r).rows = t.rows ++ [r] := by
  apply place_eq_append
  intro s hs
  have := ht.le_last s hs
  omega

/-! ## Finding rows -/

theorem find?_update {t : Table α} {f : α → α}
    (hf : ∀ r ∈ t.rows, Identified.id (f r) = Identified.id r) (i : Int) :
    (t.update f).find? i = (t.find? i).map f := by
  obtain ⟨rows, lastId⟩ := t
  simp only [find?, update] at hf ⊢
  induction rows with
  | nil => rfl
  | cons r rows ih =>
    have hr := hf r List.mem_cons_self
    have hrest := ih fun s hs => hf s (List.mem_cons_of_mem _ hs)
    rw [List.map_cons, List.find?_cons, List.find?_cons, hr]
    split
    · rfl
    · exact hrest

theorem find?_replace_of_ne {t : Table α} {r : α} {i : Int} (h : i ≠ Identified.id r) :
    (t.replace r).find? i = t.find? i := by
  have hupdate : t.replace r =
      t.update fun s => if Identified.id s = Identified.id r then r else s := rfl
  rw [hupdate, find?_update]
  · cases hfind : t.find? i with
    | none => rfl
    | some s =>
      have hid : Identified.id s = i := by simpa using List.find?_some hfind
      simp [hid, h]
  · intro s _
    split
    · next hid => exact hid.symm
    · rfl

theorem find?_insert_of_ne {t : Table α} {r : α} {i : Int} (h : i ≠ Identified.id r) :
    (t.insert r).find? i = t.find? i := by
  have hr : (Identified.id r == i) = false := by simpa using Ne.symm h
  obtain ⟨rows, lastId⟩ := t
  simp only [find?, insert]
  induction rows with
  | nil => simp [place, hr]
  | cons s rows ih =>
    rw [place]
    split
    · rw [List.find?_cons, hr]
    · rw [List.find?_cons, List.find?_cons, ih]

/-- Where an id belongs to one row, it finds that one. -/
theorem find?_eq_some_of_nodup {t : Table α} (ht : (t.rows.map Identified.id).Nodup) {r : α}
    {i : Int} : t.find? i = some r ↔ r ∈ t.rows ∧ Identified.id r = i :=
  find?_key_eq_some ht

/-! ## Order -/

theorem Ordered.update {t : Table α} (ht : t.Ordered) {f : α → α}
    (hf : ∀ r ∈ t.rows, Identified.id (f r) = Identified.id r) : (t.update f).Ordered where
  ascending := by
    rw [Table.update, List.pairwise_map]
    refine ht.ascending.imp_of_mem ?_
    intro r s hr hs hlt
    rw [hf r hr, hf s hs]
    exact hlt
  positive := by
    intro s hs
    obtain ⟨r, hr, rfl⟩ := mem_update.mp hs
    rw [hf r hr]
    exact ht.positive r hr
  le_last := by
    intro s hs
    obtain ⟨r, hr, rfl⟩ := mem_update.mp hs
    rw [hf r hr]
    exact ht.le_last r hr
  last_nonneg := ht.last_nonneg

theorem Ordered.replace {t : Table α} (ht : t.Ordered) (r : α) : (t.replace r).Ordered := by
  apply ht.update
  intro s _
  by_cases hid : Identified.id s = Identified.id r
  · rw [if_pos hid, hid]
  · rw [if_neg hid]

theorem Ordered.insert {t : Table α} (ht : t.Ordered) {r : α}
    (hr : Identified.id r = t.lastId + 1) : (t.insert r).Ordered where
  ascending := by
    rw [rows_insert ht hr, List.pairwise_append]
    refine ⟨ht.ascending, List.pairwise_singleton _ _, ?_⟩
    intro s hs q hq
    have := ht.le_last s hs
    rw [List.mem_singleton.mp hq]
    omega
  positive := by
    intro s hs
    rw [rows_insert ht hr, List.mem_append, List.mem_singleton] at hs
    rcases hs with hs | rfl
    · exact ht.positive s hs
    · have := ht.last_nonneg
      omega
  le_last := by
    intro s hs
    rw [rows_insert ht hr, List.mem_append, List.mem_singleton] at hs
    show Identified.id s ≤ max t.lastId (Identified.id r)
    rcases hs with hs | rfl
    · have := ht.le_last s hs
      omega
    · omega
  last_nonneg := by
    have := ht.last_nonneg
    show 0 ≤ max t.lastId (Identified.id r)
    omega

theorem Ordered.nodup_ids {t : Table α} (ht : t.Ordered) : (t.rows.map Identified.id).Nodup := by
  rw [List.Nodup, List.pairwise_map]
  exact ht.ascending.imp fun h => by omega

/-- An id belongs to one row. -/
theorem Ordered.eq_of_id {t : Table α} (ht : t.Ordered) {r s : α} (hr : r ∈ t.rows)
    (hs : s ∈ t.rows) (hid : Identified.id r = Identified.id s) : r = s :=
  List.inj_on_of_nodup_map ht.nodup_ids hr hs hid

theorem Ordered.find?_eq_some {t : Table α} (ht : t.Ordered) {r : α} {i : Int} :
    t.find? i = some r ↔ r ∈ t.rows ∧ Identified.id r = i :=
  find?_eq_some_of_nodup ht.nodup_ids

end Table

end FirewallLists
