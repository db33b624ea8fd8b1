import FirewallLists.Proofs.Store.Edit
import Mathlib.Order.Defs.Unbundled

/-
  What an edit does to the rows of items. A quiet edit changes nothing but whether an item has
  been read. Any other edit touches one row, which takes the next version, and the rows with other
  ids stay as they are (`Edit.quiet_or_touches`). So what every written row is like all rows are
  like (`Lasting`, `Edit.rows`). Whatever is written, the columns that tell of a row's address all
  tell of the same one (`Spans`, `lasting_spans`).
-/

namespace FirewallLists

open Relation

/-! ## Rows that agree -/

namespace ItemRow

/-- The second row is the first one but for whether the item has been read. -/
def Agrees (r q : ItemRow) : Prop :=
  ∃ isRead, q = { r with isRead := isRead }

theorem Agrees.refl (r : ItemRow) : r.Agrees r :=
  ⟨r.isRead, rfl⟩

theorem Agrees.symm {r q : ItemRow} (h : r.Agrees q) : q.Agrees r := by
  obtain ⟨_, rfl⟩ := h
  exact ⟨r.isRead, rfl⟩

theorem Agrees.trans {r q p : ItemRow} (h : r.Agrees q) (h' : q.Agrees p) : r.Agrees p := by
  obtain ⟨_, rfl⟩ := h
  obtain ⟨isRead, rfl⟩ := h'
  exact ⟨isRead, rfl⟩

theorem Agrees.id {r q : ItemRow} (h : r.Agrees q) : q.id = r.id := by
  obtain ⟨_, rfl⟩ := h
  rfl

theorem Agrees.listId {r q : ItemRow} (h : r.Agrees q) : q.listId = r.listId := by
  obtain ⟨_, rfl⟩ := h
  rfl

theorem Agrees.version {r q : ItemRow} (h : r.Agrees q) : q.version = r.version := by
  obtain ⟨_, rfl⟩ := h
  rfl

end ItemRow

namespace Store

variable {s s' : Store} {now : Int} {row : ItemRow}

/-! ## Quiet edits, and edits of one row -/

/-- The rows agree with those before, and no version has been taken. -/
structure Quiet (s s' : Store) : Prop where
  sequence : s'.sequence = s.sequence
  kept : ∀ r ∈ s.items.rows, ∃ r' ∈ s'.items.rows, r.Agrees r'
  known : ∀ r' ∈ s'.items.rows, ∃ r ∈ s.items.rows, r.Agrees r'

/-- The row has taken the next version, and the rows with other ids are as they were. If there was
a row with its id, it stays in the list of that one. -/
structure Touches (row : ItemRow) (s s' : Store) : Prop where
  version : row.version = s.next
  sequence : s'.sequence = s.next
  stays : ∀ r ∈ s.items.rows, r.id = row.id → r.listId = row.listId
  mem_iff : ∀ r, r ∈ s'.items.rows ↔ r = row ∨ (r ∈ s.items.rows ∧ r.id ≠ row.id)

theorem Touches.mem (h : Touches row s s') : row ∈ s'.items.rows :=
  (h.mem_iff row).mpr (Or.inl rfl)

instance : IsTrans Store Quiet where
  trans s s₁ s' h h' := by
    refine ⟨h'.sequence.trans h.sequence, fun r hr => ?_, fun r' hr' => ?_⟩
    · obtain ⟨r₁, hr₁, hagrees⟩ := h.kept r hr
      obtain ⟨r', hr', hagrees'⟩ := h'.kept r₁ hr₁
      exact ⟨r', hr', hagrees.trans hagrees'⟩
    · obtain ⟨r₁, hr₁, hagrees'⟩ := h'.known r' hr'
      obtain ⟨r, hr, hagrees⟩ := h.known r₁ hr₁
      exact ⟨r, hr, hagrees.trans hagrees'⟩

theorem quiet_of_items (hitems : s'.items = s.items) (hsequence : s'.sequence = s.sequence) :
    Quiet s s' := by
  refine ⟨hsequence, ?_, ?_⟩
  · rw [hitems]
    exact fun r hr => ⟨r, hr, .refl r⟩
  · rw [hitems]
    exact fun r hr => ⟨r, hr, .refl r⟩

instance : Std.Refl Quiet :=
  ⟨fun _ => quiet_of_items rfl rfl⟩

theorem touches_renew (hs : s.Ordered) {r : ItemRow} (hr : r ∈ s.items.rows)
    (hid : r.id = row.id) (hlist : r.listId = row.listId) (hversion : row.version = s.next) :
    Touches row s (s.renew row) where
  version := hversion
  sequence := rfl
  stays := by
    intro q hq hqid
    rw [hs.items.eq_of_id hq hr (hqid.trans hid.symm)]
    exact hlist
  mem_iff := by
    intro q
    constructor
    · exact Table.mem_replace
    · rintro (rfl | ⟨hq, hne⟩)
      · exact Table.self_mem_replace hr hid
      · exact Table.mem_replace_of_ne hq hne

/-- No row has the id of the next new one. -/
theorem Ordered.id_ne_next (hs : s.Ordered) {r : ItemRow} (hr : r ∈ s.items.rows) :
    r.id ≠ s.items.lastId + 1 := by
  have := hs.items.le_last r hr
  rw [ItemRow.identified] at this
  omega

theorem touches_append (hs : s.Ordered) (hid : row.id = s.items.lastId + 1)
    (hversion : row.version = s.next) : Touches row s (s.append row) := by
  have hnew : ∀ r ∈ s.items.rows, r.id ≠ row.id := by
    intro r hr
    rw [hid]
    exact hs.id_ne_next hr
  refine ⟨hversion, rfl, fun r hr hrid => absurd hrid (hnew r hr), fun r => ?_⟩
  show r ∈ (s.items.insert row).rows ↔ _
  rw [Table.rows_insert hs.items hid, List.mem_append, List.mem_singleton]
  constructor
  · rintro (hr | rfl)
    · exact Or.inr ⟨hr, hnew r hr⟩
    · exact Or.inl rfl
  · rintro (rfl | ⟨hr, -⟩)
    · exact Or.inr rfl
    · exact Or.inl hr

theorem touches_retire (hs : s.Ordered) (hrow : row ∈ s.items.rows) :
    Touches (row.retire s.next) s (s.renew (row.retire s.next)) :=
  touches_renew hs hrow rfl rfl rfl

theorem touches_revise (hs : s.Ordered) (hrow : row ∈ s.items.rows) (item : NewItem) :
    Touches (row.revise item s.next) s (s.renew (row.revise item s.next)) :=
  touches_renew hs hrow rfl rfl rfl

theorem touches_add (hs : s.Ordered) (item : NewItem) (isRead : Bool) (now : Int) :
    Touches (.ofNew item isRead now s.next (s.items.lastId + 1)) s
      (s.append (.ofNew item isRead now s.next (s.items.lastId + 1))) :=
  touches_append hs rfl rfl

theorem quiet_markRead (s : Store) (scope : Scope) : Quiet s (s.markRead scope).2 := by
  have agrees : ∀ r : ItemRow,
      r.Agrees (if isUnreadIn scope r then { r with isRead := 1 } else r) := by
    intro r
    split
    · exact ⟨1, rfl⟩
    · exact .refl r
  refine ⟨rfl, fun r hr => ?_, fun r' hr' => ?_⟩
  · exact ⟨_, Table.mem_update.mpr ⟨r, hr, rfl⟩, agrees r⟩
  · obtain ⟨r, hr, rfl⟩ := Table.mem_update.mp hr'
    exact ⟨r, hr, agrees r⟩

theorem ListWrite.quiet (h : ListWrite now s s') : Quiet s s' :=
  quiet_of_items h.items.1 h.items.2

theorem Edit.quiet_or_touches (hs : s.Ordered) (h : Edit now s s') :
    Quiet s s' ∨ ∃ row, Touches row s s' := by
  cases h with
  | retire mem => exact Or.inr ⟨_, touches_retire hs mem⟩
  | revise mem => exact Or.inr ⟨_, touches_revise hs mem _⟩
  | add => exact Or.inr ⟨_, touches_add hs _ _ _⟩
  | markRead scope => exact Or.inl (quiet_markRead s scope)
  | lists write => exact Or.inl write.quiet

/-! ## Properties of single rows -/

/-- A property of rows that no write takes away: what is written for a normal draft has it, and a
row that has it keeps it when it is retired, revised or marked as read. -/
structure Lasting (P : ItemRow → Prop) : Prop where
  agrees : ∀ {r q : ItemRow}, r.Agrees q → P r → P q
  retire : ∀ {r : ItemRow} (version : Int), P r → P (r.retire version)
  revise : ∀ {r : ItemRow} {draft : ItemDraft} {item : NewItem} (version : Int),
    draft.normalize = .ok item → P r → P (r.revise item version)
  ofNew : ∀ {draft : ItemDraft} {item : NewItem} (isRead : Bool) (now version id : Int),
    draft.normalize = .ok item → P (.ofNew item isRead now version id)

variable {P : ItemRow → Prop}

theorem Quiet.rows (h : Quiet s s') (hP : Lasting P) (hrows : ∀ r ∈ s.items.rows, P r) :
    ∀ r ∈ s'.items.rows, P r := by
  intro r' hr'
  obtain ⟨r, hr, hagrees⟩ := h.known r' hr'
  exact hP.agrees hagrees (hrows r hr)

theorem Touches.rows (h : Touches row s s') (hrow : P row) (hrows : ∀ r ∈ s.items.rows, P r) :
    ∀ r ∈ s'.items.rows, P r := by
  intro r hr
  rcases (h.mem_iff r).mp hr with rfl | ⟨hr, -⟩
  · exact hrow
  · exact hrows r hr

/-- If all rows have the property, they all still have it after an edit. -/
theorem Edit.rows (hP : Lasting P) (hs : s.Ordered) (hrows : ∀ r ∈ s.items.rows, P r)
    (h : Edit now s s') : ∀ r ∈ s'.items.rows, P r := by
  cases h with
  | retire mem => exact (touches_retire hs mem).rows (hP.retire _ (hrows _ mem)) hrows
  | revise mem _ normal =>
    exact (touches_revise hs mem _).rows (hP.revise _ normal (hrows _ mem)) hrows
  | add normal => exact (touches_add hs _ _ _).rows (hP.ofNew _ _ _ _ normal) hrows
  | markRead scope => exact (quiet_markRead s scope).rows hP hrows
  | lists write => exact write.quiet.rows hP hrows

end Store

/-! ## Addresses of rows -/

/-- The columns of the row tell of this range; without one they tell of every address. -/
structure ItemRow.Spans (r : ItemRow) (range : Option Net.Range) : Prop where
  value : r.value = (range.map Net.Range.toText).getD ""
  ipFrom : r.ipFrom = (range.map Net.Range.lowText).getD ""
  ipTo : r.ipTo = (range.map Net.Range.highText).getD ""
  family : r.family = (range.map (·.family.name)).getD "all"
  fromKey : r.fromKey = (range.map (·.low.key)).getD []
  toKey : r.toKey = (range.map (·.high.key)).getD []
  type : r.type = ((range.map (.ofFamily ·.family)).getD .all : ItemType).name

namespace ItemRow

theorem spans_ofNew (n : NewItem) (isRead : Bool) (now version id : Int) :
    (ofNew n isRead now version id).Spans n.range := by
  obtain ⟨_, range, _⟩ := n
  cases range <;> exact ⟨rfl, rfl, rfl, rfl, rfl, rfl, rfl⟩

theorem spans_revise (r : ItemRow) (n : NewItem) (version : Int) :
    (r.revise n version).Spans n.range := by
  obtain ⟨_, range, _⟩ := n
  cases range <;> exact ⟨rfl, rfl, rfl, rfl, rfl, rfl, rfl⟩

theorem Spans.retire {r : ItemRow} {range : Option Net.Range} (h : r.Spans range)
    (version : Int) : (r.retire version).Spans range :=
  ⟨h.value, h.ipFrom, h.ipTo, h.family, h.fromKey, h.toKey, h.type⟩

theorem Agrees.spans {r q : ItemRow} {range : Option Net.Range} (h : r.Agrees q)
    (hr : r.Spans range) : q.Spans range := by
  obtain ⟨_, rfl⟩ := h
  exact ⟨hr.value, hr.ipFrom, hr.ipTo, hr.family, hr.fromKey, hr.toKey, hr.type⟩

end ItemRow

/-! ## Items read from rows -/

theorem ItemType.name_ne_empty (t : ItemType) : t.name ≠ "" := by
  cases t <;> decide

theorem Item.isActive_iff {item : Item} {now : Int} :
    item.isActive now ↔ item.enabled ∧ ¬(0 < item.expiredAt ∧ item.expiredAt ≤ now) := by
  rw [Item.isActive, Item.isExpired, Bool.and_eq_true, Bool.not_eq_true', ← Bool.not_eq_true,
    Bool.and_eq_true, decide_eq_true_iff, decide_eq_true_iff]

namespace ItemRow

variable {r : ItemRow} {range : Option Net.Range}

theorem Spans.itemType (h : r.Spans range) :
    r.itemType = .ok ((range.map (.ofFamily ·.family)).getD .all) := by
  unfold ItemRow.itemType
  rw [h.type, if_neg (ItemType.name_ne_empty _), ItemType.ofName?_name]

theorem Spans.exists_item (h : r.Spans range) : ∃ item, r.toItem = .ok item :=
  ⟨_, bind_eq_ok.mpr ⟨_, h.itemType, rfl⟩⟩

end ItemRow

namespace Store

/-! ## Rows that tell of a range -/

/-- Every row tells of some range, or of every address. -/
def Spanned (s : Store) : Prop :=
  ∀ r ∈ s.items.rows, ∃ range, r.Spans range

variable {s s' : Store} {now : Int} {row : ItemRow}

theorem lasting_spans : Lasting fun r => ∃ range, r.Spans range where
  agrees := fun hagrees ⟨range, hrange⟩ => ⟨range, hagrees.spans hrange⟩
  retire := fun version ⟨range, hrange⟩ => ⟨range, hrange.retire version⟩
  revise := fun _ _ _ => ⟨_, ItemRow.spans_revise _ _ _⟩
  ofNew := fun _ _ _ _ _ => ⟨_, ItemRow.spans_ofNew _ _ _ _ _⟩

end Store

end FirewallLists
