import FirewallLists.Proofs.Net.AddressText
import FirewallLists.Proofs.Overlap
import FirewallLists.Proofs.Versions

/-
  Rows that cover an address. The tables compare octets to tell; the texts of a row's bounds, read
  back, tell the same (`ItemRow.Spans.encloses_iff`). A row and the item read from it are active at
  the same times, since no row expires before the beginning of time (`Store.Timed`). Of the rows
  that cover an address the newest one is found (`Store.findCovering_cases`).
-/

namespace FirewallLists

open Net

/-! ## Bounds as texts -/

namespace ItemRow

variable {r : ItemRow} {range : Option Range} {now : Int}

/-- The row is for every address, or the texts of its bounds enclose this one. -/
def Encloses (r : ItemRow) (a : Address) : Prop :=
  r.type = ItemType.all.name ∨ Net.Encloses r.ipFrom r.ipTo a

instance (r : ItemRow) (a : Address) : Decidable (r.Encloses a) :=
  inferInstanceAs (Decidable (_ ∨ _))

/-- The texts tell the same as the octets. -/
theorem Spans.encloses_iff (h : r.Spans range) (a : Address) : r.Encloses a ↔ r.covers a := by
  cases range with
  | none =>
    have hall : r.family = "all" := h.family
    exact iff_of_true (Or.inl h.type) (by simp [covers, hall])
  | some f =>
    have htype : r.type = (ItemType.ofFamily f.family).name := h.type
    have hnotAll : r.type ≠ ItemType.all.name := by
      rw [htype]
      cases f.family <;> decide
    have hfrom : r.ipFrom = f.lowText := h.ipFrom
    have hto : r.ipTo = f.highText := h.ipTo
    rw [Encloses, or_iff_right hnotAll, hfrom, hto, f.encloses_iff, h.covers_iff]

/-- An item that is read from a row is active when the row is. -/
theorem isActive_toItem {item : Item} (h : r.toItem = .ok item) (htime : 0 ≤ r.expiredAt)
    (now : Int) : item.isActive now ↔ r.isActive now := by
  obtain ⟨type, -, hitem⟩ := bind_eq_ok.mp h
  cases hitem
  rw [Item.isActive_iff, ItemRow.isActive, isLive, Bool.and_eq_true, Bool.or_eq_true, beq_iff_eq,
    decide_eq_true_iff]
  refine and_congr_right fun _ => ?_
  dsimp only
  omega

end ItemRow

namespace Store

variable {s s' : Store} {now : Int} {row : ItemRow}

/-! ## Times -/

/-- No item expires before the beginning of time. -/
def Timed (s : Store) : Prop :=
  ∀ r ∈ s.items.rows, 0 ≤ r.expiredAt

theorem expiredAt_of_normalize {draft : ItemDraft} {item : NewItem}
    (h : draft.normalize = .ok item) : 0 ≤ item.expiredAt := by
  obtain ⟨_, _, -, htime, -, -, rfl⟩ := ItemDraft.normalize_eq_ok.mp h
  exact htime

theorem invariant_timed : Invariant Timed :=
  invariant_rows {
    agrees := fun ⟨_, hagrees⟩ htime => hagrees ▸ htime
    retire := fun _ htime => htime
    revise := fun _ normal _ => expiredAt_of_normalize normal
    ofNew := fun _ _ _ _ normal => expiredAt_of_normalize normal }

/-! ## The newest row that covers an address -/

/-- The row is an active one of the list and encloses the address. -/
def Covering (s : Store) (listId : Int) (a : Address) (now : Int) (r : ItemRow) : Prop :=
  r ∈ s.items.rows ∧ r.listId = listId ∧ r.isActive now ∧ r.Encloses a

theorem Spanned.encloses_iff (h : s.Spanned) (hrow : row ∈ s.items.rows) (a : Address) :
    row.Encloses a ↔ row.covers a := by
  obtain ⟨range, hrange⟩ := h row hrow
  exact hrange.encloses_iff a

/-- Going through rows keeps the newest. -/
theorem foldl_newer_some (rows : List ItemRow) (best : ItemRow) :
    ∃ r, rows.foldl newer (some best) = some r ∧ (r = best ∨ r ∈ rows) ∧
      best.version ≤ r.version ∧ ∀ q ∈ rows, q.version ≤ r.version := by
  induction rows generalizing best with
  | nil => exact ⟨best, rfl, Or.inl rfl, Int.le_refl _, fun _ h => absurd h List.not_mem_nil⟩
  | cons row rows ih =>
    rw [List.foldl_cons]
    by_cases hnewer : best.version < row.version
    · obtain ⟨r, hfold, hmem, hle, hhigh⟩ := ih row
      refine ⟨r, by rw [newer, if_pos hnewer, hfold], Or.inr ?_, by omega, ?_⟩
      · exact List.mem_cons.mpr hmem
      · exact List.forall_mem_cons.mpr ⟨hle, hhigh⟩
    · obtain ⟨r, hfold, hmem, hle, hhigh⟩ := ih best
      refine ⟨r, by rw [newer, if_neg hnewer, hfold], ?_, hle, ?_⟩
      · exact hmem.imp_right (List.mem_cons_of_mem _)
      · exact List.forall_mem_cons.mpr ⟨by omega, hhigh⟩

theorem foldl_newer (rows : List ItemRow) :
    (rows = [] ∧ rows.foldl newer none = none) ∨
      ∃ r ∈ rows, rows.foldl newer none = some r ∧ ∀ q ∈ rows, q.version ≤ r.version := by
  cases rows with
  | nil => exact Or.inl ⟨rfl, rfl⟩
  | cons row rows =>
    obtain ⟨r, hfold, hmem, hle, hhigh⟩ := foldl_newer_some rows row
    exact Or.inr ⟨r, List.mem_cons.mpr hmem, hfold, List.forall_mem_cons.mpr ⟨hle, hhigh⟩⟩

/-- An item is found for an address exactly if a row covers it, and the item is that of the newest
such row. -/
theorem exists_findCovering (hspanned : s.Spanned) (listId : Int) (a : Address) (now : Int) :
    ∃ found, s.findCovering listId a now = .ok found ∧
      (found.isSome ↔ ∃ r, s.Covering listId a now r) ∧
      ∀ item, found = some item → ∃ r, s.Covering listId a now r ∧ r.toItem = .ok item ∧
        ∀ q, s.Covering listId a now q → q.version ≤ r.version := by
  have hmem : ∀ r, r ∈ s.items.rows.filter
      (fun r => r.listId == listId && r.isActive now && r.covers a) ↔
        s.Covering listId a now r := by
    intro r
    rw [List.mem_filter, Covering, Bool.and_eq_true, Bool.and_eq_true, beq_iff_eq, and_assoc]
    refine and_congr_right fun hr => ?_
    rw [hspanned.encloses_iff hr]
  unfold findCovering
  dsimp only
  rcases foldl_newer (s.items.rows.filter
      fun r => r.listId == listId && r.isActive now && r.covers a) with
    ⟨hnil, hnone⟩ | ⟨r, hr, hsome, hhigh⟩
  · rw [hnone]
    refine ⟨none, rfl, iff_of_false (by decide) ?_, fun item h => by cases h⟩
    rintro ⟨r, hr⟩
    rw [← hmem, hnil] at hr
    cases hr
  · rw [hsome]
    have hcovering := (hmem r).mp hr
    obtain ⟨range, hrange⟩ := hspanned r hcovering.1
    obtain ⟨item, hitem⟩ := hrange.exists_item
    dsimp only
    rw [hitem]
    refine ⟨some item, rfl, iff_of_true rfl ⟨r, hcovering⟩, fun _ h => ?_⟩
    cases h
    exact ⟨r, hcovering, hitem, fun q hq => hhigh q ((hmem q).mpr hq)⟩

end Store

end FirewallLists
