import FirewallLists.Proofs.Activity
import FirewallLists.Proofs.Canonical
import FirewallLists.Proofs.Net.RangeMeaning
import FirewallLists.Proofs.Overlap
import FirewallLists.Proofs.Service.Room
import FirewallLists.Rpc.Body
import FirewallLists.Rpc.Reply

/-
  Writing back what was read. What is shown of an item reads as the range and the type that its row
  tells of (`ItemDraft.Repeats.normalize`), and nothing else in its list is in the way of these. So
  a revision of an item with what was shown of it changes no row but its own and nothing of that
  one but the version (`write_back_refreshes`).
-/

namespace FirewallLists

open Net ServiceM Text

/-! ## Drafts that repeat an item -/

/-- The draft has the address, the type, the time and the remarks that are shown of an item. -/
structure ItemDraft.Repeats (draft : ItemDraft) (item : Item) : Prop where
  value : draft.value = item.shownValue
  ipFrom : draft.ipFrom = item.ipFrom
  ipTo : draft.ipTo = item.ipTo
  type : draft.type = item.type.name
  expiredAt : draft.expiredAt = item.expiredAt
  reason : draft.reason = item.reason
  eventLevel : draft.eventLevel = item.eventLevel

/-- The numbers that an item and a draft have in common fit in 64 bits. -/
structure Item.Fits (item : Item) : Prop where
  listId : fits64 item.listId
  expiredAt : fits64 item.expiredAt
  nodeId : fits64 item.nodeId
  serverId : fits64 item.serverId
  source : ∀ id ∈ [item.source.nodeId, item.source.serverId, item.source.policyId,
    item.source.ruleGroupId, item.source.ruleSetId], id.all fits64

theorem Json.RecordField.ofJson?_nullableInteger {σ : Type} (name : String)
    (set : Option Int → σ → σ) {id : Option Int} (h : id.all fits64) :
    (nullableInteger name set).ofJson? (ofOption .int id) = some (set id) := by
  cases id with
  | none => rfl
  | some n => simpa [nullableInteger, ofOption, integer?] using h

theorem Json.RecordField.name_nullableInteger {σ : Type} (name : String)
    (set : Option Int → σ → σ) : (nullableInteger name set).name = name := rfl

/-- The object of an item reads as a draft that repeats it. -/
theorem Item.Fits.exists_draft {item : Item} (h : item.Fits) :
    ∃ draft, ItemDraft.ofMembers? item.members = some draft ∧ draft.Repeats item := by
  have hsource := h.source
  simp only [List.forall_mem_cons] at hsource
  obtain ⟨hnode, hserver, hpolicy, hgroup, hset, -⟩ := hsource
  -- the members that a draft does not know are left for what caused the item
  have hdraft : Json.takeFields ItemDraft.fields {} item.members = some
      (⟨item.listId, item.shownValue, item.ipFrom, item.ipTo, item.type.name, item.expiredAt,
        item.reason, item.eventLevel, item.nodeId, item.serverId, {}⟩,
      [("id", .int item.id), ("version", .int item.version)] ++ item.source.members ++
        [("isRead", .bool item.isRead), ("createdAt", .int item.createdAt)]) := by
    simp [Json.takeFields, Json.takeFields.go, Item.members, Provenance.members, ItemDraft.fields,
      Json.RecordField.integer, Json.RecordField.text, Json.integer?, h.listId, h.expiredAt,
      h.nodeId, h.serverId]
  have hcause : Json.takeFields Provenance.fields {}
      ([("id", .int item.id), ("version", .int item.version)] ++ item.source.members ++
        [("isRead", .bool item.isRead), ("createdAt", .int item.createdAt)]) = some
      (item.source, [("id", .int item.id), ("version", .int item.version),
        ("isRead", .bool item.isRead), ("createdAt", .int item.createdAt)]) := by
    simp [Json.takeFields, Json.takeFields.go, Provenance.members, Provenance.fields,
      Json.RecordField.name_nullableInteger, Json.RecordField.ofJson?_nullableInteger, hnode,
      hserver, hpolicy, hgroup, hset]
  have hread : ItemDraft.ofMembers? item.members = some _ :=
    Option.bind_eq_some_iff.mpr ⟨_, hdraft, Option.bind_eq_some_iff.mpr ⟨_, hcause, rfl⟩⟩
  exact ⟨_, hread, rfl, rfl, rfl, rfl, rfl, rfl, rfl⟩

/-- The name of a type asks for the type. -/
theorem ItemDraft.requestedType_of_name {draft : ItemDraft} {type : ItemType}
    (h : draft.type = type.name) : draft.requestedType = .ok (some type) := by
  unfold requestedType
  rw [h]
  cases type <;> rfl

theorem ItemDraft.writtenRange_of_value {draft : ItemDraft} {f : Range}
    (h : Range.ofValue draft.value = .ok f) :
    draft.writtenRange (some (.ofFamily f.family)) = .ok (some f) := by
  have hnamed : draft.namedRange = .ok f := by
    rw [namedRange, Range.not_blank_of_ofValue h, if_neg Bool.false_ne_true, h]
  unfold writtenRange
  rw [hnamed]
  cases hfamily : f.family <;> simp [ItemType.ofFamily, Except.mapError, bind, Except.bind, hfamily]

/-- Rows that tell of a range differ only in what the range does not tell. -/
theorem ItemRow.revise_eq_of_spans {row : ItemRow} {n : NewItem} (hrow : row.Spans n.range)
    (htime : n.expiredAt = row.expiredAt) (hreason : n.reason = row.reason)
    (hlevel : n.eventLevel = row.eventLevel) (version : Int) :
    row.revise n version = { row with version := version } := by
  have hspans := spans_revise row n version
  have hvalue : n.value = row.value := hspans.value.trans hrow.value.symm
  have hfrom : n.ipFrom = row.ipFrom := hspans.ipFrom.trans hrow.ipFrom.symm
  have hto : n.ipTo = row.ipTo := hspans.ipTo.trans hrow.ipTo.symm
  have hfamily : n.family = row.family := hspans.family.trans hrow.family.symm
  have hfromKey : n.fromKey = row.fromKey := hspans.fromKey.trans hrow.fromKey.symm
  have htoKey : n.toKey = row.toKey := hspans.toKey.trans hrow.toKey.symm
  have htype : n.type.name = row.type := hspans.type.trans hrow.type.symm
  rw [revise, hvalue, hfrom, hto, hfamily, hfromKey, htoKey, htype, htime, hreason, hlevel]

/-- The text that is shown of a row is that of its range. -/
theorem ItemRow.Spans.shownValue {row : ItemRow} {f : Range} {item : Item}
    (h : row.Spans (some f)) (hf : f.Normal) (hitem : item.value = row.value) :
    item.shownValue = f.toText := by
  have hvalue : item.value = f.toText := hitem.trans h.value
  have hempty : f.toText ≠ "" := by
    intro hempty
    have hblank := Range.not_blank_of_ofValue (Range.ofValue_toText hf)
    rw [hempty] at hblank
    revert hblank
    decide
  rw [Item.shownValue, hvalue, if_pos hempty]

/-- What is shown of a row is read as an item that changes nothing of the row. -/
theorem ItemDraft.Repeats.normalize {draft : ItemDraft} {item : Item} {row : ItemRow}
    (h : draft.Repeats item) (hitem : row.toItem = .ok item) (hrow : row.Regular) :
    ∃ n : NewItem, ({ draft with listId := row.listId } : ItemDraft).normalize = .ok n ∧
      n.listId = row.listId ∧
      ∀ version, row.revise n version = { row with version := version } := by
  obtain ⟨range, hrange, hnormal⟩ := hrow.spans
  obtain ⟨type, htype, hfields⟩ := bind_eq_ok.mp hitem
  cases hfields
  have htypes := Except.ok.inj (htype.symm.trans hrange.itemType)
  have hrequested : ({ draft with listId := row.listId } : ItemDraft).requestedType =
      .ok (some type) := requestedType_of_name h.type
  have hwritten : ({ draft with listId := row.listId } : ItemDraft).writtenRange (some type) =
      .ok range := by
    cases range with
    | none =>
      rw [htypes]
      rfl
    | some f =>
      have hf := hnormal f rfl
      have hvalue : draft.value = f.toText := h.value.trans (hrange.shownValue hf rfl)
      rw [htypes]
      exact writtenRange_of_value (hvalue ▸ Range.ofValue_toText hf)
  refine ⟨⟨row.listId, range, draft.expiredAt, draft.reason, draft.eventLevel, max draft.nodeId 0,
    max draft.serverId 0, draft.source.normalized⟩, ?_, rfl, ?_⟩
  · have hlist : ¬row.listId ≤ 0 := Int.not_le.mpr hrow.listId
    have htime : ¬draft.expiredAt < 0 := by
      rw [h.expiredAt]
      exact Int.not_lt.mpr hrow.expiredAt
    unfold ItemDraft.normalize
    dsimp only
    rw [if_neg hlist, if_neg htime]
    exact bind_eq_ok.mpr ⟨_, hrequested, bind_eq_ok.mpr ⟨_, hwritten, rfl⟩⟩
  · exact fun version => ItemRow.revise_eq_of_spans hrange h.expiredAt h.reason h.eventLevel version

/-! ## Nothing in the way -/

/-- An item that is switched on has no other one in its way when its row tells of it already. -/
theorem Store.Apart.overlapping_eq_nil {s : Store} (h : s.Apart) {row : ItemRow}
    (hrow : row ∈ s.items.rows) (hlive : row.isLive) {n : NewItem} (hlist : n.listId = row.listId)
    (hsame : ∀ version, row.revise n version = { row with version := version }) :
    s.overlapping n row.id = [] := by
  have hfamily : n.family = row.family := congrArg ItemRow.family (hsame 0)
  have hfromKey : n.fromKey = row.fromKey := congrArg ItemRow.fromKey (hsame 0)
  have htoKey : n.toKey = row.toKey := congrArg ItemRow.toKey (hsame 0)
  rw [List.eq_nil_iff_forall_not_mem]
  intro r hr
  obtain ⟨hr, hsameList, hrlive, hover, hid⟩ := mem_overlapping.mp hr
  rw [hfamily, hfromKey, htoKey] at hover
  exact h r hr row hrow hid ⟨hrlive, hlive, hsameList.trans hlist, hover⟩

/-! ## Reading and writing back -/

namespace Gate

variable {gate : Gate} {token : Option String} {caller : Caller} {st st' : State} {row : ItemRow}

/-- Whoever may revise an active item is shown it. -/
theorem serve_findItem (h : Reachable st) (hrow : row ∈ st.store.items.rows)
    (hactive : row.isActive st.now) (hauth : gate.authenticate token = .ok caller)
    (hmay : caller.MayRevise st row.listId) (hopen : st.isOpen) :
    ∃ item st', outcome (gate.serve token (.findItem row.id)) st =
      (.ok (.item (some item)), st') := by
  obtain ⟨item, hitem, hfound⟩ := Store.findActiveItem_of_mem h.ordered
    (h.holds Store.invariant_spanned) (h.holds Store.invariant_timed) hrow st.now
  rw [if_pos hactive] at hfound
  have hopen' : (st.counted (.findItem row.id)).isOpen := hopen
  have hmay' := hmay.counted (.findItem row.id)
  have hfind := Contents.outcome_find hmay'.outcome_require hopen' hfound fun i hi => by
    cases hi
    rw [(ItemRow.toItem_eq_ok hitem).2.1]
    exact hmay'.list
  exact ⟨item, _, serve_of_ok hauth (outcome_map_eq_ok.mpr ⟨_, hfind, rfl⟩)⟩

/-- Whoever is shown an item has reached the tables, sees what the row holds and changes nothing. -/
theorem serve_findItem_eq_ok (h : Reachable st) (hrow : row ∈ st.store.items.rows) {item : Item}
    (hfind : outcome (gate.serve token (.findItem row.id)) st = (.ok (.item (some item)), st')) :
    st.isOpen ∧ row.toItem = .ok item ∧ st' = st.counted (.findItem row.id) := by
  obtain ⟨caller, -, hrun⟩ := serve_eq_ok hfind
  obtain ⟨_, hrun, hreply⟩ := outcome_map_eq_ok.mp hrun
  cases hreply
  have hst' := (Contents.looks_find caller row.id).eq_of_outcome hrun
  obtain ⟨_, -, hrun⟩ := (looks_require _ _).bind_eq_ok hrun
  obtain ⟨time, htime, hrun⟩ := looks_now.bind_eq_ok hrun
  cases htime
  obtain ⟨found, hopen, hfound, hrun⟩ := outcome_query_bind_eq_ok.mp hrun
  obtain ⟨shown, hshown, hrow'⟩ := Store.findActiveItem_of_mem h.ordered
    (h.holds Store.invariant_spanned) (h.holds Store.invariant_timed) hrow st.now
  have heq : found = if row.isActive st.now then some shown else none :=
    Except.ok.inj (hfound.symm.trans hrow')
  cases found with
  | none => cases hrun
  | some i =>
    obtain ⟨_, -, hrun⟩ := (Ownership.looks_checkCallerList _ _).bind_eq_ok hrun
    cases hrun
    split at heq
    · cases heq
      exact ⟨hopen, hshown, hst'⟩
    · cases heq

/-- A revision with what is shown of an item that is switched on gives its row the next version and
does nothing else, or there is no version left. -/
theorem serve_updateItem_of_repeats (h : Reachable st) (hrow : row ∈ st.store.items.rows)
    (hlive : row.isLive) (hauth : gate.authenticate token = .ok caller)
    (hmay : caller.MayRevise st row.listId) (hopen : st.isOpen) {item : Item}
    (hitem : row.toItem = .ok item) {draft : ItemDraft} (hdraft : draft.Repeats item) :
    ∃ st', (st.store.sequence < maxInteger →
        outcome (gate.serve token (.updateItem row.id draft)) st = (.ok .done, st') ∧
        st'.store = st.store.renew { row with version := st.store.next }) ∧
      (¬st.store.sequence < maxInteger →
        outcome (gate.serve token (.updateItem row.id draft)) st =
          (.error (.storage .noVersionLeft), st') ∧ st'.store = st.store) := by
  have hs := h.ordered
  have hregular := h.holds (Store.invariant_rows Store.lasting_regular) row hrow
  obtain ⟨n, hnormal, hlist, hsame⟩ := hdraft.normalize hitem hregular
  have hlistId : st.store.itemListId? row.id = some row.listId := by
    rw [Store.itemListId?, Store.find?_of_mem hs hrow, Option.map_some]
  by_cases hroom : st.store.sequence < maxInteger
  · have hclear := (h.holds Store.invariant_apart).overlapping_eq_nil hrow hlive hlist hsame
    have hwrite := Store.updateItem_of_clear h.versioned hroom
      (Store.liveItem?_of_mem hs hrow hlive) hclear
    rw [hsame] at hwrite
    obtain ⟨st', hserve, hstore⟩ :=
      serve_updateItem hauth hmay hopen hlistId draft hnormal hwrite
    exact ⟨st', fun _ => ⟨hserve, hstore⟩, fun hnone => absurd hroom hnone⟩
  · obtain ⟨st', hserve, hstore⟩ := serve_updateItem_of_error hauth hmay hopen hlistId draft hnormal
      (Store.updateItem_of_exhausted hroom row.id n)
    exact ⟨st', fun hsome => absurd hsome hroom, fun _ => ⟨hserve, hstore⟩⟩

end Gate

/-- Whoever may revise an active item is shown it, while the tables can be reached. The object that
shows an item can be sent back as it is. A revision with what is shown of the item, by whomever it
was read and whatever list is named, changes one thing: the item gets the next version, which
becomes the last one given out. Only when no version is left does it fail, and then it changes
nothing. -/
theorem write_back_refreshes {st : State} (h : Reachable st) {row : ItemRow}
    (hrow : row ∈ st.store.items.rows) (hactive : row.isActive st.now) {gate : Gate}
    {token : Option String} {caller : Caller} (hauth : gate.authenticate token = .ok caller)
    (hmay : caller.MayRevise st row.listId) :
    (st.isOpen → ∃ item st₁, outcome (gate.serve token (.findItem row.id)) st =
      (.ok (.item (some item)), st₁)) ∧
    ∀ (reader : Gate) (shown : Option String) (item : Item) (st₁ : State),
      outcome (reader.serve shown (.findItem row.id)) st = (.ok (.item (some item)), st₁) →
        (item.Fits → ∃ draft, ItemDraft.ofMembers? item.members = some draft ∧
          draft.Repeats item) ∧
        ∀ draft : ItemDraft, draft.Repeats item → ∃ st₂,
          (st.store.sequence < maxInteger →
            outcome (gate.serve token (.updateItem row.id draft)) st₁ = (.ok .done, st₂) ∧
            st₂.store = { st.store with
              items := st.store.items.replace { row with version := st.store.sequence + 1 }
              sequence := st.store.sequence + 1 }) ∧
          (¬st.store.sequence < maxInteger →
            outcome (gate.serve token (.updateItem row.id draft)) st₁ =
              (.error (.storage .noVersionLeft), st₂) ∧ st₂.store = st.store) := by
  have hlive : row.isLive := (Bool.and_eq_true_iff.mp hactive).1
  refine ⟨fun hopen => Gate.serve_findItem h hrow hactive hauth hmay hopen, ?_⟩
  intro reader shown item st₁ hfind
  refine ⟨Item.Fits.exists_draft, fun draft hdraft => ?_⟩
  have hnext := next_call reader shown (.findItem row.id) st
  obtain ⟨hopen, hitem, hst₁⟩ := Gate.serve_findItem_eq_ok h hrow hfind
  rw [hfind] at hnext
  have hreach : Reachable st₁ := h.run (.single hnext)
  subst hst₁
  exact Gate.serve_updateItem_of_repeats hreach hrow hlive hauth (hmay.counted _) hopen hitem hdraft

/-- A tenant writes a block of mapped addresses back and names another list. -/
theorem write_back_refreshes_of_mapped_block :
    let st := State.after { now := 0 } (adminCalls [.createList (privateList none (some 5)),
      .createItem { listId := 1, value := "::ffff:010.1.2.3/126", reason := "seen" }])
    ∃ row ∈ st.store.items.rows, ∃ item st₁ st₂,
      outcome (tenantGate.serve (some "five") (.findItem 1)) st =
        (.ok (.item (some item)), st₁) ∧
      item.shownValue = "::ffff:10.1.2.0/126" ∧
      outcome (tenantGate.serve (some "five") (.updateItem 1 {
        listId := 9, value := item.shownValue, ipFrom := item.ipFrom, ipTo := item.ipTo,
        type := item.type.name, reason := item.reason })) st₁ = (.ok .done, st₂) ∧
      st₂.store = { st.store with
        items := st.store.items.replace { row with version := 2 }, sequence := 2 } := by
  intro st
  have hreach : Reachable st := reachable_after 0 _
  have hopen : st.isOpen := by decide +kernel
  have hsequence : st.store.sequence = 1 := by decide +kernel
  obtain ⟨row, hrow, hid, hlist, hactive, hshown⟩ : ∃ row ∈ st.store.items.rows,
      row.id = 1 ∧ row.listId = 1 ∧ row.isActive st.now ∧
      row.toItem.map (fun i => (i.shownValue, i.expiredAt, i.eventLevel)) =
        .ok ("::ffff:10.1.2.0/126", 0, "") := by decide +kernel
  have hauth : tenantGate.authenticate (some "five") = .ok ⟨.user, 5⟩ := by decide +kernel
  have hchecked : (outcome (Ownership.checkCallerList ⟨.user, 5⟩ 1) st).1 = .ok () := by
    decide +kernel
  have hmay : Caller.MayRevise ⟨.user, 5⟩ st row.listId :=
    ⟨by decide, hlist ▸ Prod.ext hchecked (Ownership.looks_checkCallerList _ _ st)⟩
  obtain ⟨hfound, hwritten⟩ := write_back_refreshes hreach hrow hactive hauth hmay
  obtain ⟨item, st₁, hfind⟩ := hfound hopen
  have hfind' := hid ▸ hfind
  obtain ⟨-, hitem, -⟩ := Gate.serve_findItem_eq_ok hreach hrow hfind
  rw [hitem] at hshown
  obtain ⟨hvalue, hrest⟩ := Prod.mk.inj (Except.ok.inj hshown)
  obtain ⟨htime, hlevel⟩ := Prod.mk.inj hrest
  obtain ⟨-, hupdate⟩ := hwritten tenantGate (some "five") item st₁ hfind
  obtain ⟨st₂, hdone, -⟩ := hupdate {
    listId := 9, value := item.shownValue, ipFrom := item.ipFrom, ipTo := item.ipTo,
    type := item.type.name, reason := item.reason }
    ⟨rfl, rfl, rfl, rfl, htime.symm, rfl, hlevel.symm⟩
  obtain ⟨hserve, hstore⟩ := hdone (by rw [hsequence]; decide)
  rw [hid] at hserve
  rw [hsequence] at hstore
  exact ⟨row, hrow, item, st₁, st₂, hfind', hvalue, hserve, hstore⟩

/-- In some reachable state no version is left to write an item back that has been read. -/
theorem no_write_back_after_last_version :
    ∃ (st st₁ st₂ : State) (row : ItemRow) (item : Item) (draft : ItemDraft),
      Reachable st ∧ row ∈ st.store.items.rows ∧ row.isActive st.now ∧
      Caller.MayRevise ⟨.admin, 1⟩ st row.listId ∧
      outcome (adminGate.serve (some "key") (.findItem row.id)) st =
        (.ok (.item (some item)), st₁) ∧
      draft.Repeats item ∧
      outcome (adminGate.serve (some "key") (.updateItem row.id draft)) st₁ =
        (.error (.storage .noVersionLeft), st₂) := by
  obtain ⟨st, hreach, hopen, hlast, row, hrow, hactive⟩ := exists_exhausted
  have hlive : row.isLive := (Bool.and_eq_true_iff.mp hactive).1
  have hauth : adminGate.authenticate (some "key") = .ok ⟨.admin, 1⟩ := by decide +kernel
  have hmay : Caller.MayRevise ⟨.admin, 1⟩ st row.listId := .of_admin rfl st row.listId
  obtain ⟨item, st₁, hfind⟩ := Gate.serve_findItem hreach hrow hactive hauth hmay hopen
  have hnext := next_call adminGate (some "key") (.findItem row.id) st
  obtain ⟨-, hitem, hst₁⟩ := Gate.serve_findItem_eq_ok hreach hrow hfind
  rw [hfind] at hnext
  have hreach₁ : Reachable st₁ := hreach.run (.single hnext)
  subst hst₁
  have hdraft : ItemDraft.Repeats {
      value := item.shownValue, ipFrom := item.ipFrom, ipTo := item.ipTo, type := item.type.name,
      expiredAt := item.expiredAt, reason := item.reason, eventLevel := item.eventLevel } item :=
    ⟨rfl, rfl, rfl, rfl, rfl, rfl, rfl⟩
  obtain ⟨st₂, -, hfails⟩ := Gate.serve_updateItem_of_repeats hreach₁ hrow hlive hauth
    (hmay.counted _) hopen hitem hdraft
  have hnone : ¬st.store.sequence < maxInteger := by rw [hlast]; decide
  exact ⟨st, _, st₂, row, item, _, hreach, hrow, hactive, hmay, hfind, hdraft, (hfails hnone).1⟩

end FirewallLists
