import FirewallLists.Item.Draft
import FirewallLists.Proofs.Store.Retire
import FirewallLists.Store.ItemQuery
import Mathlib.Logic.Relation

/-
  What the services write, in two grains. A `Write` is one transaction as it is committed; an
  `Edit` is one elementary change, and every edit of an item takes the next version and gives it
  to one row. `Write.edits` takes every transaction apart into edits, each with what held when it
  was made: a row is retired while it is live, and an item is added or revised only once nothing
  live in its list meets its bounds. What every edit preserves is then true of all that is written.
-/

namespace FirewallLists

open Relation

namespace Store

/-! ## Transactions -/

/-- The writes of lists. -/
inductive ListWrite (now : Int) (s : Store) : Store → Prop where
  | create {l : NewList} {id : Int} {s' : Store} (owned : l.isPublic || l.hasOwner)
      (run : s.createList l now = .ok (id, s')) : ListWrite now s s'
  | disable {id : Int} {s' : Store} (run : s.disableList id = some s') : ListWrite now s s'
  | disableOfServer (serverId : Int) : ListWrite now s (s.disableServerLists serverId).2

/-- The writes of items. An item is normalized before it is written; a new one goes to a list
that is switched on, a revised one stays in its list. -/
inductive ItemWrite (now : Int) (s : Store) : Store → Prop where
  | create {draft : ItemDraft} {item : NewItem} {list : IpList} {written : Written} {s' : Store}
      (normal : draft.normalize = .ok item)
      (listed : s.findEnabledList item.listId = .ok (some list))
      (run : s.createItem item item.startsRead now = .ok (written, s')) : ItemWrite now s s'
  | update {id : Int} {draft : ItemDraft} {item : NewItem} {written : Written} {s' : Store}
      (normal : draft.normalize = .ok item) (stays : s.itemListId? id = some item.listId)
      (run : s.updateItem id item = .ok (some written, s')) : ItemWrite now s s'
  | disable {id : Int} {retired : Retired} {s' : Store}
      (run : s.disableItem id = .ok (some retired, s')) : ItemWrite now s s'
  | disableMatching {scope : Scope} {range : Net.Range} {retired : List Retired} {s' : Store}
      (found : retired ≠ []) (run : s.disableMatching scope range = .ok (retired, s')) :
      ItemWrite now s s'
  | markRead (scope : Scope) : ItemWrite now s (s.markRead scope).2

/-- One transaction that the services commit at a time. -/
inductive Write (now : Int) (s s' : Store) : Prop where
  | items (write : ItemWrite now s s')
  | lists (write : ListWrite now s s')

/-! ## Edits -/

/-- One elementary change at a time. -/
inductive Edit (now : Int) (s : Store) : Store → Prop where
  | retire {row : ItemRow} (mem : row ∈ s.items.rows) (live : row.isLive)
      (room : s.sequence < maxInteger) : Edit now s (s.renew (row.retire s.next))
  | revise {row : ItemRow} {draft : ItemDraft} {item : NewItem} (mem : row ∈ s.items.rows)
      (live : row.isLive) (normal : draft.normalize = .ok item) (stays : item.listId = row.listId)
      (clear : s.overlapping item row.id = []) (room : s.sequence < maxInteger) :
      Edit now s (s.renew (row.revise item s.next))
  | add {draft : ItemDraft} {item : NewItem} {list : IpList} (normal : draft.normalize = .ok item)
      (listed : s.findEnabledList item.listId = .ok (some list))
      (clear : s.overlapping item 0 = []) (room : s.sequence < maxInteger) :
      Edit now s (s.append (.ofNew item item.startsRead now s.next (s.items.lastId + 1)))
  | markRead (scope : Scope) : Edit now s (s.markRead scope).2
  | lists {s' : Store} (write : ListWrite now s s') : Edit now s s'

/-! ## Tables in the order of their ids -/

/-- The tables that the services write are in the order of their ids. -/
structure Ordered (s : Store) : Prop where
  items : s.items.Ordered
  lists : s.lists.Ordered

theorem createList_eq_ok {s s' : Store} {l : NewList} {now id : Int}
    (h : s.createList l now = .ok (id, s')) :
    id = s.lists.lastId + 1 ∧ s' = { s with lists := s.lists.insert (.ofNew l now id) } := by
  unfold createList at h
  rw [bind_eq_ok] at h
  obtain ⟨i, hi, h⟩ := h
  unfold Table.nextId at hi
  split at hi <;> cases hi
  cases h
  exact ⟨rfl, rfl⟩

theorem disableList_eq_some {s s' : Store} {id : Int} (h : s.disableList id = some s') :
    ∃ row ∈ s.lists.rows, row.id = id ∧ isEnabled row.state ∧
      s' = { s with lists := s.lists.replace { row with state := 0 } } := by
  unfold disableList liveList? at h
  rw [Option.map_eq_some_iff] at h
  obtain ⟨row, hrow, rfl⟩ := h
  rw [Option.filter_eq_some_iff] at hrow
  obtain ⟨hfind, hlive⟩ := hrow
  exact ⟨row, List.mem_of_find?_eq_some hfind, by simpa using List.find?_some hfind, hlive, rfl⟩

theorem ListWrite.items {s s' : Store} {now : Int} (h : ListWrite now s s') :
    s'.items = s.items ∧ s'.sequence = s.sequence := by
  cases h with
  | create _ run => rw [(createList_eq_ok run).2]; exact ⟨rfl, rfl⟩
  | disable run => obtain ⟨_, _, _, _, rfl⟩ := disableList_eq_some run; exact ⟨rfl, rfl⟩
  | disableOfServer _ => exact ⟨rfl, rfl⟩

theorem ListWrite.ordered {s s' : Store} {now : Int} (h : ListWrite now s s')
    (hs : s.lists.Ordered) : s'.lists.Ordered := by
  cases h with
  | create _ run =>
    obtain ⟨rfl, rfl⟩ := createList_eq_ok run
    exact hs.insert rfl
  | disable run =>
    obtain ⟨row, _, _, _, rfl⟩ := disableList_eq_some run
    exact hs.replace _
  | disableOfServer serverId =>
    apply hs.update
    intro r _
    split <;> rfl

theorem Edit.ordered {s s' : Store} {now : Int} (h : Edit now s s') (hs : s.Ordered) :
    s'.Ordered := by
  cases h with
  | retire => exact ⟨hs.items.replace _, hs.lists⟩
  | revise => exact ⟨hs.items.replace _, hs.lists⟩
  | add => exact ⟨hs.items.insert rfl, hs.lists⟩
  | markRead scope =>
    refine ⟨hs.items.update fun r _ => ?_, hs.lists⟩
    split <;> rfl
  | lists write => exact ⟨by rw [write.items.1]; exact hs.items, write.ordered hs.lists⟩

/-! ## Transactions as chains of edits -/

theorem retireAll_edits {s s' : Store} {now : Int} {rows : List ItemRow} {all : List Retired}
    (hrows : ∀ r ∈ rows, r ∈ s.items.rows ∧ r.isLive) (hids : (rows.map (·.id)).Nodup)
    (h : retireAll rows s = .ok (all, s')) : ReflTransGen (Edit now) s s' := by
  induction rows generalizing s all with
  | nil => cases h; exact .refl
  | cons row rows ih =>
    rw [List.map_cons, List.nodup_cons] at hids
    obtain ⟨retired, more, s₁, hfirst, hrest, rfl⟩ := retireAll_cons_eq_ok h
    obtain ⟨hroom, -, rfl⟩ := retire_eq_ok hfirst
    obtain ⟨hmem, hlive⟩ := hrows row List.mem_cons_self
    refine .head (.retire hmem hlive hroom) (ih ?_ hids.2 hrest)
    -- the others have other ids, so they are still there
    intro r hr
    obtain ⟨hr', hlive'⟩ := hrows r (List.mem_cons_of_mem _ hr)
    have hne : r.id ≠ row.id := fun heq => hids.1 (heq ▸ List.mem_map_of_mem hr)
    exact ⟨Table.mem_replace_of_ne hr' hne, hlive'⟩

variable {s s' : Store} {now : Int} {item : NewItem}

theorem retireAll_overlapping_eq_ok {exclude : Int} {all : List Retired} (hs : s.Ordered)
    (h : retireAll (s.overlapping item exclude) s = .ok (all, s')) :
    s' = s.afterRetiring (s.overlapping item exclude) :=
  retireAll_eq_ok (nodup_ids_filter hs.items _) h

/-- What is in the way of an item is retired edit by edit, and then nothing is in its way. -/
theorem retireOverlapping_edits {exclude : Int} {all : List Retired} (hs : s.Ordered)
    (h : retireAll (s.overlapping item exclude) s = .ok (all, s')) :
    ReflTransGen (Edit now) s s' ∧ s'.overlapping item exclude = [] := by
  constructor
  · apply retireAll_edits _ (nodup_ids_filter hs.items _) h
    intro r hr
    have hr' := mem_overlapping.mp hr
    exact ⟨hr'.1, hr'.2.2.1⟩
  · rw [retireAll_overlapping_eq_ok hs h]
    exact overlapping_afterRetiring item exclude

theorem createItem_eq_ok {isRead : Bool} {written : Written}
    (h : s.createItem item isRead now = .ok (written, s')) :
    ∃ s₁, retireAll (s.overlapping item 0) s = .ok (written.replaced, s₁) ∧
      s₁.sequence < maxInteger ∧ written.itemId = s₁.items.lastId + 1 ∧
      written.version = s₁.next ∧
      s' = s₁.append (.ofNew item isRead now s₁.next (s₁.items.lastId + 1)) := by
  rw [createItem_eq, bind_eq_ok] at h
  obtain ⟨⟨replaced, s₁⟩, hretire, h⟩ := h
  rw [bind_eq_ok] at h
  obtain ⟨⟨version, s₂⟩, hversion, h⟩ := h
  obtain ⟨hroom, rfl, rfl⟩ := nextVersion_eq_ok hversion
  rw [bind_eq_ok] at h
  obtain ⟨id, hid, h⟩ := h
  unfold Table.nextId at hid
  split at hid <;> cases hid
  rw [bind_eq_ok] at h
  obtain ⟨s₃, hs₃, h⟩ := h
  cases insertItem_eq_ok hs₃
  cases h
  exact ⟨s₁, hretire, hroom, rfl, rfl, rfl⟩

theorem liveItem?_eq_some {id : Int} {row : ItemRow} (h : s.liveItem? id = some row) :
    s.items.find? id = some row ∧ row ∈ s.items.rows ∧ row.id = id ∧ row.isLive := by
  obtain ⟨hfind, hlive⟩ := Option.filter_eq_some_iff.mp h
  exact ⟨hfind, List.mem_of_find?_eq_some hfind, by simpa using List.find?_some hfind, hlive⟩

theorem find?_of_mem (hs : s.Ordered) {row : ItemRow} (hrow : row ∈ s.items.rows) :
    s.items.find? row.id = some row :=
  hs.items.find?_eq_some.mpr ⟨hrow, rfl⟩

theorem liveItem?_of_mem (hs : s.Ordered) {row : ItemRow} (hrow : row ∈ s.items.rows)
    (hlive : row.isLive) : s.liveItem? row.id = some row :=
  Option.filter_eq_some_iff.mpr ⟨find?_of_mem hs hrow, hlive⟩

theorem updateItem_eq_ok {id : Int} {written : Written}
    (h : s.updateItem id item = .ok (some written, s')) :
    ∃ row s₁, s.liveItem? id = some row ∧
      retireAll (s.overlapping item id) s = .ok (written.replaced, s₁) ∧
      s₁.sequence < maxInteger ∧ written.itemId = id ∧ written.version = s₁.next ∧
      s' = s₁.renew (row.revise item s₁.next) := by
  cases hrow : s.liveItem? id with
  | none =>
    rw [updateItem_of_off hrow] at h
    split at h <;> cases h
  | some row =>
    rw [updateItem_of_live hrow, bind_eq_ok] at h
    obtain ⟨⟨replaced, s₁⟩, hretire, h⟩ := h
    rw [bind_eq_ok] at h
    obtain ⟨⟨version, s₂⟩, hversion, h⟩ := h
    obtain ⟨hroom, rfl, rfl⟩ := nextVersion_eq_ok hversion
    rw [bind_eq_ok] at h
    obtain ⟨s₃, hs₃, h⟩ := h
    cases replaceItem_eq_ok hs₃
    cases h
    exact ⟨row, s₁, rfl, hretire, hroom, rfl, rfl, rfl⟩

theorem disableItem_eq_ok {id : Int} {retired : Retired}
    (h : s.disableItem id = .ok (some retired, s')) :
    ∃ row, s.liveItem? id = some row ∧ s.sequence < maxInteger ∧
      retired = ⟨row.id, row.listId, s.next⟩ ∧ s' = s.renew (row.retire s.next) := by
  cases hrow : s.liveItem? id with
  | none =>
    rw [disableItem_of_off hrow] at h
    split at h <;> cases h
  | some row =>
    rw [disableItem_of_live hrow, map_eq_pure_bind, bind_eq_ok] at h
    obtain ⟨⟨r, s₁⟩, hretire, h⟩ := h
    cases h
    exact ⟨row, rfl, retire_eq_ok hretire⟩

/-- A delete that has found something has switched it off. -/
theorem disableMatching_eq_ok {scope : Scope} {range : Net.Range} {all : List Retired}
    (hfound : all ≠ []) (h : s.disableMatching scope range = .ok (all, s')) :
    retireAll (s.withBounds scope range) s = .ok (all, s') := by
  by_cases hvalues : 2 + scope.values ≤ maxValues
  · by_cases hnone : s.withBounds scope range = []
    · rw [disableMatching_of_none hvalues hnone] at h
      split at h <;> cases h
      exact absurd rfl hfound
    · rwa [disableMatching_of_found hvalues hnone] at h
  · by_cases hroom : s.sequence < maxInteger
    · rw [disableMatching_of_room hroom, bind_of_error (checkValues_of_lt hvalues)] at h
      cases h
    · rw [disableMatching_of_exhausted hroom] at h
      cases h

theorem acknowledge_eq_ok {scope : Scope} {n : Nat} (h : s.acknowledge scope = .ok (n, s')) :
    s.markRead scope = (n, s') := by
  obtain ⟨_, -, h⟩ := bind_eq_ok.mp h
  exact Except.ok.inj h

/-- Only a delete that has found something is committed. -/
theorem disableMatching_of_some {scope : Scope} {range : Net.Range} {retired : List Retired}
    (h : (do
      let (retired, s) ← s.disableMatching scope range
      return (if retired.isEmpty then none else some retired, s)) = .ok (some retired, s')) :
    retired ≠ [] ∧ s.disableMatching scope range = .ok (retired, s') := by
  obtain ⟨⟨all, s₁⟩, hmatching, h⟩ := bind_eq_ok.mp h
  cases all with
  | nil => cases h
  | cons first rest =>
    cases h
    exact ⟨List.cons_ne_nil first rest, hmatching⟩

theorem findList_congr (h : s'.lists = s.lists) (id : Int) : s'.findList id = s.findList id := by
  unfold findList
  rw [h]

theorem findEnabledList_congr (h : s'.lists = s.lists) (id : Int) :
    s'.findEnabledList id = s.findEnabledList id := by
  unfold findEnabledList
  rw [findList_congr h]

theorem retireAll_lists {rows : List ItemRow} {all : List Retired}
    (h : retireAll rows s = .ok (all, s')) : s'.lists = s.lists := by
  induction rows generalizing s all with
  | nil => cases h; rfl
  | cons row rows ih =>
    obtain ⟨retired, more, s₁, hfirst, hrest, rfl⟩ := retireAll_cons_eq_ok h
    obtain ⟨-, -, rfl⟩ := retire_eq_ok hfirst
    have hlists := ih hrest
    exact hlists

theorem ItemWrite.lists (h : ItemWrite now s s') : s'.lists = s.lists := by
  cases h with
  | create _ _ run =>
    obtain ⟨s₁, hretire, -, -, -, rfl⟩ := createItem_eq_ok run
    have hlists := retireAll_lists hretire
    exact hlists
  | update _ _ run =>
    obtain ⟨row, s₁, -, hretire, -, -, -, rfl⟩ := updateItem_eq_ok run
    have hlists := retireAll_lists hretire
    exact hlists
  | disable run =>
    obtain ⟨row, -, -, -, rfl⟩ := disableItem_eq_ok run
    rfl
  | disableMatching found run => exact retireAll_lists (disableMatching_eq_ok found run)
  | markRead => rfl

/-- A committed write of items is a chain of edits. -/
theorem ItemWrite.edits (hs : s.Ordered) (h : ItemWrite now s s') :
    ReflTransGen (Edit now) s s' := by
  cases h with
  | @create draft item list written _ normal listed run =>
    obtain ⟨s₁, hretire, hroom, -, -, rfl⟩ := createItem_eq_ok run
    obtain ⟨hedits, hclear⟩ := retireOverlapping_edits hs hretire
    have hlists := findEnabledList_congr (retireAll_lists hretire) item.listId
    exact hedits.tail (.add normal (hlists.trans listed) hclear hroom)
  | @update id draft item written _ normal stays run =>
    obtain ⟨row, s₁, hrow, hretire, hroom, -, -, rfl⟩ := updateItem_eq_ok run
    obtain ⟨hfind, hmem, rfl, hlive⟩ := liveItem?_eq_some hrow
    obtain ⟨hedits, hclear⟩ := retireOverlapping_edits hs hretire
    have hlist : row.listId = item.listId := by simpa [itemListId?, hfind] using stays
    have hstay : row ∈ s₁.items.rows := by
      rw [retireAll_overlapping_eq_ok hs hretire]
      exact mem_afterRetiring_overlapping item hmem
    exact hedits.tail (.revise hstay hlive normal hlist.symm hclear hroom)
  | disable run =>
    obtain ⟨row, hrow, hroom, -, rfl⟩ := disableItem_eq_ok run
    obtain ⟨-, hmem, -, hlive⟩ := liveItem?_eq_some hrow
    exact .single (.retire hmem hlive hroom)
  | disableMatching found run =>
    apply retireAll_edits _ (nodup_ids_filter hs.items _) (disableMatching_eq_ok found run)
    intro r hr
    obtain ⟨hmem, hmatch⟩ := List.mem_filter.mp hr
    simp only [Bool.and_eq_true] at hmatch
    exact ⟨hmem, hmatch.1.1.1⟩
  | markRead scope => exact .single (.markRead scope)

/-- A committed transaction is a chain of edits. -/
theorem Write.edits (hs : s.Ordered) (h : Write now s s') : ReflTransGen (Edit now) s s' := by
  cases h with
  | items write => exact write.edits hs
  | lists write => exact .single (.lists write)

end Store

end FirewallLists
