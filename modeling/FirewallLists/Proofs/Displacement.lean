import FirewallLists.Proofs.Overlap
import FirewallLists.Proofs.Service.Retirement

/-
  What an item takes the place of. Comparing octets finds the rows of a list that meet an item: for
  an item of a range those with an address of it, for an item for every address those for every
  address (`ItemRow.overlaps_iff_meets`). These are switched off one after the other, and the item
  gets the version after theirs (`GivesWay`). So a new item or a revised one puts out of the way
  what meets it and nothing else, as long as there are versions for all of them
  (`overlaps_give_way`). What a row holds after that is said column by column, apart from the
  functions that write it.
-/

namespace FirewallLists

open Net Relation ServiceM

/-! ## Rows that meet an item -/

/-- Ranges of one family whose bounds cross have an address in common. -/
theorem Net.Range.exists_contains_both {f g : Range} (hfamily : f.family = g.family)
    (hfg : f.low.number ≤ g.high.number) (hgf : g.low.number ≤ f.high.number) :
    ∃ a, f.contains a ∧ g.contains a := by
  have hf := f.le
  have hg := g.le
  -- the higher of the lower bounds is in both
  by_cases hle : f.low.number ≤ g.low.number
  · exact ⟨g.low, ⟨hfamily.symm, hle, hgf⟩, rfl, Nat.le_refl _, hg⟩
  · exact ⟨f.low, ⟨rfl, Nat.le_refl _, hf⟩, hfamily, by omega, hfg⟩

/-- The row and an item of this range have an address in common. An item for every address meets
only rows for every address. -/
def ItemRow.Meets (r : ItemRow) : Option Range → Prop
  | none => r.Spans none
  | some f => ∃ g a, r.Spans (some g) ∧ g.contains a ∧ f.contains a

/-- The octets of a row and an item overlap exactly if the row meets the item. -/
theorem ItemRow.overlaps_iff_meets {r : ItemRow} {range : Option Range} (hr : r.Spans range)
    (item : NewItem) : r.overlaps item.family item.fromKey item.toKey ↔ r.Meets item.range := by
  have hitem := spans_ofNew item false 0 0 0
  obtain ⟨listId, other, _⟩ := item
  cases other with
  | none =>
    constructor
    · intro hover
      have hnone := hr.eq_none_iff.mpr (overlaps_iff.mp hover).1
      rwa [hnone] at hr
    · intro hmeets
      exact Spans.overlaps_all hmeets hitem hmeets.family hitem.family
  | some f =>
    constructor
    · intro hover
      obtain ⟨hfamily, hlow, hhigh⟩ := overlaps_iff.mp hover
      cases range with
      | none =>
        have hall : "all" = f.family.name := hr.family.symm.trans hfamily
        exact absurd hall.symm (Family.name_ne_all _)
      | some g =>
        have hgf : g.low.family = f.low.family := Family.name_inj (hr.family.symm.trans hfamily)
        rw [hr.fromKey] at hlow
        rw [hr.toKey] at hhigh
        have hlow' := (Address.keyLe_key_iff (hgf.trans f.family_eq.symm)).mp hlow
        have hhigh' := (Address.keyLe_key_iff (hgf.symm.trans g.family_eq.symm)).mp hhigh
        obtain ⟨a, hg, hf⟩ := Range.exists_contains_both hgf hlow' hhigh'
        exact ⟨g, a, hr, hg, hf⟩
    · rintro ⟨g, a, hg, hga, hfa⟩
      exact hg.overlaps_of_contains hitem hga hfa

/-! ## What is written for an item -/

namespace ItemRow

/-- The columns that are written for a new item and for a revision alike: the address, the time
and the remarks of the item. -/
structure Bears (r : ItemRow) (item : NewItem) : Prop where
  spans : r.Spans item.range
  expiredAt : r.expiredAt = item.expiredAt
  reason : r.reason = item.reason
  eventLevel : r.eventLevel = item.eventLevel

/-- The columns of a row that was made for an item at this time, but for its id and its version. -/
structure IsMadeFor (r : ItemRow) (item : NewItem) (isRead : Bool) (now : Int) : Prop where
  bears : r.Bears item
  listId : r.listId = item.listId
  state : r.state = 1
  nodeId : r.nodeId = item.nodeId
  serverId : r.serverId = item.serverId
  source : r.source = item.source
  isRead : r.isRead = if isRead then 1 else 0
  createdAt : r.createdAt = now

/-- The columns of a row that has been revised, but for its version. -/
structure IsRevisionOf (r old : ItemRow) (item : NewItem) : Prop where
  bears : r.Bears item
  id : r.id = old.id
  listId : r.listId = old.listId
  state : r.state = old.state
  nodeId : r.nodeId = old.nodeId
  serverId : r.serverId = old.serverId
  source : r.source = old.source
  isRead : r.isRead = old.isRead
  createdAt : r.createdAt = old.createdAt

theorem isMadeFor_ofNew (item : NewItem) (isRead : Bool) (now version id : Int) :
    (ofNew item isRead now version id).IsMadeFor item isRead now :=
  ⟨⟨spans_ofNew item isRead now version id, rfl, rfl, rfl⟩, rfl, rfl, rfl, rfl, rfl, rfl, rfl⟩

theorem isRevisionOf_revise (r : ItemRow) (item : NewItem) (version : Int) :
    (r.revise item version).IsRevisionOf r item :=
  ⟨⟨spans_revise r item version, rfl, rfl, rfl⟩, rfl, rfl, rfl, rfl, rfl, rfl, rfl, rfl⟩

end ItemRow

namespace Store

variable {s s' : Store} {gone : List ItemRow} {row : ItemRow} {now : Int}

/-! ## Items that take the place of others -/

/-- These rows, in the order of their ids, are in the way of an item: they are switched on in its
list and meet it. One may be spared. -/
structure InTheWay (s : Store) (item : NewItem) (spared : Option Int) (gone : List ItemRow) :
    Prop where
  ascending : gone.Pairwise fun r q => r.id < q.id
  mem_iff : ∀ r, r ∈ gone ↔
    r ∈ s.items.rows ∧ r.isLive ∧ r.listId = item.listId ∧ r.Meets item.range ∧ spared ≠ some r.id

/-- Rows have been switched off in this order, and a row has been written after them: in the place
of the one with its id, or else as a new one. Each of them has the next version. Those switched off
keep their other columns, and all else is as it was. -/
structure GivesWay (s : Store) (gone : List ItemRow) (row : ItemRow) (s' : Store) : Prop where
  sequence : s'.sequence = s.sequence + gone.length + 1
  version : row.version = s'.sequence
  ordered : s'.items.Ordered
  lastId : s'.items.lastId = max s.items.lastId row.id
  mem_iff : ∀ r, r ∈ s'.items.rows ↔ r = row ∨
    (∃ (i : Nat) (q : ItemRow), gone[i]? = some q ∧
      r = { q with state := 0, version := s.sequence + i + 1 }) ∨
    (r ∈ s.items.rows ∧ r ∉ gone ∧ r.id ≠ row.id)
  rest : s' = { s with items := s'.items, sequence := s'.sequence }

/-- What the tables look for is what is in the way. -/
theorem inTheWay_overlapping (hs : s.Ordered) (hspanned : s.Spanned) (item : NewItem)
    (exclude : Int) : s.InTheWay item (some exclude) (s.overlapping item exclude) where
  ascending := hs.items.ascending.sublist List.filter_sublist
  mem_iff := by
    intro r
    rw [mem_overlapping]
    constructor
    · rintro ⟨hr, hlist, hlive, hover, hid⟩
      obtain ⟨range, hrange⟩ := hspanned r hr
      exact ⟨hr, hlive, hlist, (ItemRow.overlaps_iff_meets hrange item).mp hover,
        fun heq => hid (Option.some.inj heq).symm⟩
    · rintro ⟨hr, hlive, hlist, hmeets, hid⟩
      obtain ⟨range, hrange⟩ := hspanned r hr
      exact ⟨hr, hlist, hlive, (ItemRow.overlaps_iff_meets hrange item).mpr hmeets,
        fun heq => hid (congrArg some heq.symm)⟩

/-- Sparing an id that no row has spares nothing. -/
theorem InTheWay.of_absent {item : NewItem} {id : Int} (h : s.InTheWay item (some id) gone)
    (habsent : ∀ r ∈ s.items.rows, r.id ≠ id) : s.InTheWay item none gone where
  ascending := h.ascending
  mem_iff := by
    intro r
    rw [h.mem_iff]
    constructor
    · rintro ⟨hr, hlive, hlist, hmeets, -⟩
      exact ⟨hr, hlive, hlist, hmeets, nofun⟩
    · rintro ⟨hr, hlive, hlist, hmeets, -⟩
      exact ⟨hr, hlive, hlist, hmeets, fun heq => habsent r hr (Option.some.inj heq).symm⟩

theorem givesWay_of_touches (hs : s.Ordered) (hgone : ∀ r ∈ gone, r ∈ s.items.rows ∧ r.id ≠ row.id)
    (hids : (gone.map (·.id)).Nodup) (h : Touches row (s.afterRetiring gone) s')
    (hordered : s'.items.Ordered) (hlast : s'.items.lastId = max s.items.lastId row.id)
    (hrest : s' = { s with items := s'.items, sequence := s'.sequence }) :
    s.GivesWay gone row s' where
  sequence := h.sequence
  version := h.version.trans h.sequence.symm
  ordered := hordered
  lastId := hlast
  mem_iff := by
    intro r
    rw [h.mem_iff, mem_afterRetiring_iff hs (fun q hq => (hgone q hq).1) hids]
    constructor
    · rintro (rfl | ⟨hgoes | ⟨hr, hnot⟩, hid⟩)
      · exact Or.inl rfl
      · exact Or.inr (Or.inl hgoes)
      · exact Or.inr (Or.inr ⟨hr, hnot, hid⟩)
    · rintro (rfl | ⟨i, q, hi, rfl⟩ | ⟨hr, hnot, hid⟩)
      · exact Or.inl rfl
      · exact Or.inr ⟨Or.inl ⟨i, q, hi, rfl⟩, (hgone q (List.mem_of_getElem? hi)).2⟩
      · exact Or.inr ⟨Or.inr ⟨hr, hnot⟩, hid⟩
  rest := hrest

/-! ## Creating and revising -/

/-- No more ids are used than versions. -/
theorem invariant_lastId : Invariant fun s => s.items.lastId ≤ s.sequence where
  empty := by decide
  edit := by
    intro now s s' _ hle h
    cases h with
    | retire => exact Int.le_trans hle (Int.le_of_lt (Int.lt_succ _))
    | revise => exact Int.le_trans hle (Int.le_of_lt (Int.lt_succ _))
    | add =>
      show max s.items.lastId (s.items.lastId + 1) ≤ s.sequence + 1
      omega
    | markRead => exact hle
    | lists write =>
      rw [write.items.1, write.items.2]
      exact hle
  directory := fun _ h => h

section Writes

variable (hs : s.Ordered) (hv : s.Versioned) (hbounded : s.sequence ≤ maxInteger) (item : NewItem)

include hs hv hbounded

theorem retireAll_overlapping_eq (exclude : Int) :
    retireAll (s.overlapping item exclude) s =
      if s.sequence + (s.overlapping item exclude).length ≤ maxInteger
      then .ok (s.retirements (s.overlapping item exclude),
        s.afterRetiring (s.overlapping item exclude))
      else .error .noVersionLeft :=
  retireAll_eq hs hv hbounded (fun _ hr => (mem_overlapping.mp hr).1) (nodup_ids_filter hs.items _)

/-- If there is room for a version more, all that is in the way can be switched off, and the
versions stay in order. -/
theorem retireAll_overlapping_of_room {exclude : Int}
    (hroom : s.sequence + (s.overlapping item exclude).length < maxInteger) :
    retireAll (s.overlapping item exclude) s = .ok (s.retirements (s.overlapping item exclude),
        s.afterRetiring (s.overlapping item exclude)) ∧
      (s.afterRetiring (s.overlapping item exclude)).Versioned := by
  have hretire := retireAll_overlapping_eq hs hv hbounded item exclude
  rw [if_pos (Int.le_of_lt hroom)] at hretire
  have hedits : ReflTransGen (Edit 0) s _ := (retireOverlapping_edits hs hretire).1
  exact ⟨hretire, (invariant_versioned.edits hs hv hedits).2⟩

/-- While there are versions for all that it takes the place of and for itself, an item can be
made. -/
theorem createItem_of_room (hlast : s.items.lastId ≤ s.sequence)
    (hroom : s.sequence + (s.overlapping item 0).length < maxInteger) (isRead : Bool) (now : Int) :
    ∃ row s', s.createItem item isRead now = .ok (⟨s.items.lastId + 1,
        s.sequence + (s.overlapping item 0).length + 1, s.retirements (s.overlapping item 0)⟩, s') ∧
      row.id = s.items.lastId + 1 ∧ row.IsMadeFor item isRead now ∧
      s.GivesWay (s.overlapping item 0) row s' := by
  obtain ⟨hretire, hversioned⟩ := retireAll_overlapping_of_room hs hv hbounded item hroom
  have hordered := hs.afterRetiring (s.overlapping item 0)
  have hversion := nextVersion_of_room (s := s.afterRetiring (s.overlapping item 0)) hroom
  have hid : s.items.nextId = .ok (s.items.lastId + 1) := by
    rw [Table.nextId, if_pos (by omega)]
  have htouches := touches_add hordered item isRead now
  have hinsert := insertItem_of_next hversioned _ htouches.version
  have hnew : ∀ r ∈ s.overlapping item 0, r ∈ s.items.rows ∧ r.id ≠ s.items.lastId + 1 := by
    intro r hr
    have hmem := (mem_overlapping.mp hr).1
    exact ⟨hmem, hs.id_ne_next hmem⟩
  have hgives := givesWay_of_touches hs hnew (nodup_ids_filter hs.items _) htouches
    (hordered.items.insert rfl) rfl rfl
  refine ⟨_, _, ?_, rfl, ItemRow.isMadeFor_ofNew item isRead now _ _, hgives⟩
  rw [createItem_eq]
  exact bind_eq_ok.mpr ⟨_, hretire, bind_eq_ok.mpr ⟨_, hversion, bind_eq_ok.mpr ⟨_, hid,
    bind_eq_ok.mpr ⟨_, hinsert, rfl⟩⟩⟩⟩

theorem createItem_of_no_room
    (hroom : ¬s.sequence + (s.overlapping item 0).length < maxInteger) (isRead : Bool)
    (now : Int) : s.createItem item isRead now = .error .noVersionLeft := by
  have hretire := retireAll_overlapping_eq hs hv hbounded item 0
  rw [createItem_eq]
  split at hretire
  · rw [bind_of_ok hretire]
    exact bind_of_error (nextVersion_of_exhausted hroom) _
  · exact bind_of_error hretire _

/-- While there are versions for all that it takes the place of and for itself, an item that is
switched on can be revised. -/
theorem updateItem_of_room {old : ItemRow} (hrow : s.liveItem? old.id = some old)
    (hroom : s.sequence + (s.overlapping item old.id).length < maxInteger) :
    ∃ row s', s.updateItem old.id item = .ok (some ⟨old.id,
        s.sequence + (s.overlapping item old.id).length + 1,
        s.retirements (s.overlapping item old.id)⟩, s') ∧
      row.IsRevisionOf old item ∧ s.GivesWay (s.overlapping item old.id) row s' := by
  obtain ⟨hretire, hversioned⟩ := retireAll_overlapping_of_room hs hv hbounded item hroom
  obtain ⟨-, hmem, -, -⟩ := liveItem?_eq_some hrow
  have hordered := hs.afterRetiring (s.overlapping item old.id)
  have hversion := nextVersion_of_room (s := s.afterRetiring (s.overlapping item old.id)) hroom
  have htouches := touches_revise hordered (mem_afterRetiring_overlapping item hmem) item
  have hreplace := replaceItem_of_next hversioned _ htouches.version
  have hlast := hs.items.le_last old hmem
  have hgives := givesWay_of_touches hs (fun r hr => (mem_overlapping.mp hr).imp_right (·.2.2.2))
    (nodup_ids_filter hs.items _) htouches (hordered.items.replace _)
    (Int.max_eq_left hlast).symm rfl
  refine ⟨_, _, ?_, ItemRow.isRevisionOf_revise old item _, hgives⟩
  rw [updateItem_of_live hrow]
  exact bind_eq_ok.mpr ⟨_, hretire, bind_eq_ok.mpr ⟨_, hversion,
    bind_eq_ok.mpr ⟨_, hreplace, rfl⟩⟩⟩

theorem updateItem_of_no_room {row : ItemRow} (hrow : s.liveItem? row.id = some row)
    (hroom : ¬s.sequence + (s.overlapping item row.id).length < maxInteger) :
    s.updateItem row.id item = .error .noVersionLeft := by
  have hretire := retireAll_overlapping_eq hs hv hbounded item row.id
  rw [updateItem_of_live hrow]
  split at hretire
  · rw [bind_of_ok hretire]
    exact bind_of_error (nextVersion_of_exhausted hroom) _
  · exact bind_of_error hretire _

end Writes

end Store

/-- In every reachable state a new item of a list takes the place of what is in its way and of
nothing else: these rows are switched off in the order of their ids, and the item gets the version
after theirs. A revision of an item does the same and spares the item itself, which keeps all that
a revision does not write. When there are not enough versions for all of these, nothing is written.
A revision of an item that is not switched on comes to nothing but a version that has been reserved
for it, and the call that asked for it gives this one back: whoever may ask is told that there is
no such item, if there is a version left. -/
theorem overlaps_give_way {st : State} (h : Reachable st) (item : NewItem) :
    (∃ gone, st.store.InTheWay item none gone ∧ ∀ (isRead : Bool) (now : Int),
      (st.store.sequence + gone.length < maxInteger →
        ∃ row s', st.store.createItem item isRead now = .ok (⟨st.store.items.lastId + 1,
            st.store.sequence + gone.length + 1, st.store.retirements gone⟩, s') ∧
          row.id = st.store.items.lastId + 1 ∧ row.IsMadeFor item isRead now ∧
          st.store.GivesWay gone row s') ∧
      (¬st.store.sequence + gone.length < maxInteger →
        st.store.createItem item isRead now = .error .noVersionLeft)) ∧
    (∀ old ∈ st.store.items.rows, old.isLive →
      ∃ gone, st.store.InTheWay item (some old.id) gone ∧
      (st.store.sequence + gone.length < maxInteger →
        ∃ row s', st.store.updateItem old.id item = .ok (some ⟨old.id,
            st.store.sequence + gone.length + 1, st.store.retirements gone⟩, s') ∧
          row.IsRevisionOf old item ∧ st.store.GivesWay gone row s') ∧
      (¬st.store.sequence + gone.length < maxInteger →
        st.store.updateItem old.id item = .error .noVersionLeft)) ∧
    (∀ id, (∀ row ∈ st.store.items.rows, row.id = id → row.isLive = false) →
      (st.store.sequence < maxInteger → st.store.updateItem id item =
        .ok (none, { st.store with sequence := st.store.sequence + 1 })) ∧
      (¬st.store.sequence < maxInteger →
        st.store.updateItem id item = .error .noVersionLeft) ∧
      ∀ (caller : Caller) (listId : Int) (draft : ItemDraft), st.isOpen →
        st.store.itemListId? id = some listId → caller.MayRevise st listId →
        ({ draft with listId := listId } : ItemDraft).normalize = .ok item →
          outcome (Items.update caller id draft) st = (.error
            (if st.store.sequence < maxInteger then .itemNotFound id
              else .storage .noVersionLeft), st)) := by
  have hs := h.ordered
  have hv := h.versioned
  have hspanned := h.holds Store.invariant_spanned
  have hlast := h.holds Store.invariant_lastId
  have hbounded := h.holds Store.invariant_bounded
  refine ⟨⟨st.store.overlapping item 0, ?_, fun isRead now => ⟨?_, ?_⟩⟩,
    fun row hrow hlive => ⟨st.store.overlapping item row.id, ?_, ?_, ?_⟩, fun id hoff => ?_⟩
  · refine (Store.inTheWay_overlapping hs hspanned item 0).of_absent fun r hr hid => ?_
    have hpositive := hs.items.positive r hr
    rw [ItemRow.identified] at hpositive
    omega
  · exact fun hroom => Store.createItem_of_room hs hv hbounded item hlast hroom isRead now
  · exact fun hroom => Store.createItem_of_no_room hs hv hbounded item hroom isRead now
  · exact Store.inTheWay_overlapping hs hspanned item row.id
  · exact Store.updateItem_of_room hs hv hbounded item (Store.liveItem?_of_mem hs hrow hlive)
  · exact Store.updateItem_of_no_room hs hv hbounded item (Store.liveItem?_of_mem hs hrow hlive)
  · have hnone : st.store.liveItem? id = none := by
      rw [Option.eq_none_iff_forall_ne_some]
      intro row hrow
      obtain ⟨-, hmem, hid, hlive⟩ := Store.liveItem?_eq_some hrow
      rw [hoff row hmem hid] at hlive
      cases hlive
    have hupdate := Store.updateItem_of_off hnone item
    refine ⟨fun hroom => ?_, fun hroom => ?_, ?_⟩
    · rw [hupdate, if_pos hroom]
      rfl
    · rw [hupdate, if_neg hroom]
    · intro caller listId draft hopen hlist hmay hnormal
      rw [Items.outcome_update hmay hopen hlist draft hnormal, hupdate]
      by_cases hroom : st.store.sequence < maxInteger
      · rw [if_pos hroom, if_pos hroom]
      · rw [if_neg hroom, if_neg hroom]

/-- Addresses from the last one of a block up to a single one take the place of both. The address
behind them and the item for every address stay. -/
theorem overlaps_give_way_of_crossing :
    let st := State.after { now := 0 } (adminCalls [.createList publicBlackList,
      .createItem { listId := 1, value := "10.0.0.0/30" },
      .createItem { listId := 1, value := "10.0.0.8" },
      .createItem { listId := 1, value := "10.0.0.9" },
      .createItem { listId := 1, type := "all" }])
    ∃ item gone row s', ({ listId := 1, value := "10.0.0.3-10.0.0.8" } : ItemDraft).normalize =
        .ok item ∧ st.store.InTheWay item none gone ∧
      st.store.createItem item true 0 = .ok (⟨5, 7, [⟨1, 1, 5⟩, ⟨2, 1, 6⟩]⟩, s') ∧
      row.id = 5 ∧ row.IsMadeFor item true 0 ∧ st.store.GivesWay gone row s' := by
  intro st
  have hreach : Reachable st := reachable_after 0 _
  have hmade : ({ listId := 1, value := "10.0.0.3-10.0.0.8" } : ItemDraft).normalize.toOption.map
      (fun item => (st.store.createItem item true 0).toOption.map (·.1)) =
        some (some ⟨5, 7, [⟨1, 1, 5⟩, ⟨2, 1, 6⟩]⟩) := by decide +kernel
  clear_value st
  obtain ⟨item, hnormal⟩ := ItemDraft.exists_normal
    { listId := 1, value := "10.0.0.3-10.0.0.8" } (by decide +kernel)
  rw [hnormal] at hmade
  have hwritten : (st.store.createItem item true 0).toOption.map (·.1) = some _ :=
    Option.some.inj hmade
  obtain ⟨⟨gone, hway, hcreate⟩, -⟩ := overlaps_give_way hreach item
  obtain ⟨hmakes, hfails⟩ := hcreate true 0
  by_cases hroom : st.store.sequence + gone.length < maxInteger
  · obtain ⟨row, s', hrun, hrow, hmade, hgives⟩ := hmakes hroom
    rw [hrun] at hwritten
    obtain ⟨hid, hversion, hgone⟩ := Store.Written.mk.inj (Option.some.inj hwritten)
    rw [hid, hversion, hgone] at hrun
    exact ⟨item, gone, row, s', hnormal, hway, hrun, hrow.trans hid, hmade, hgives⟩
  · rw [hfails hroom] at hwritten
    cases hwritten

/-- In some reachable state there is no version left for any new item. -/
theorem no_item_made_after_last_version :
    ∃ st : State, Reachable st ∧ ∃ (draft : ItemDraft) (item : NewItem),
      draft.normalize = .ok item ∧ ∀ (isRead : Bool) (now : Int),
        st.store.createItem item isRead now = .error .noVersionLeft := by
  obtain ⟨st, hreach, -, hlast, -⟩ := exists_exhausted
  obtain ⟨item, hnormal⟩ := ItemDraft.exists_normal { listId := 1, value := "10.0.0.3" }
    (by decide +kernel)
  refine ⟨st, hreach, _, item, hnormal, fun isRead now => ?_⟩
  refine Store.createItem_of_no_room hreach.ordered hreach.versioned (Int.le_of_eq hlast) item ?_
    isRead now
  rw [hlast]
  omega

end FirewallLists
