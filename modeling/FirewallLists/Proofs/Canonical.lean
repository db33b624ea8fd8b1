import FirewallLists.Proofs.Net.KeyOrder
import FirewallLists.Proofs.Net.RangeText
import FirewallLists.Proofs.Service.Run

/-
  Rows are canonical. One range fills six columns of a row, and whatever a caller writes, one
  address, two with a dash, a block, two bounds or a type, the columns come from a range that its
  own text names. So the text to show, the texts of the bounds and the keys always tell of the same
  two addresses, and the family and the type of which kind they are (`rows_canonical`).
-/

namespace FirewallLists

open Net

/-! ## Drafts -/

namespace ItemDraft

variable {draft : ItemDraft} {f : Range}

theorem normal_of_namedRange (h : draft.namedRange = .ok f) : f.Normal := by
  unfold namedRange at h
  split at h
  · exact Range.normal_of_ofBounds h
  · exact Range.normal_of_ofValue h

theorem normal_of_writtenRange {requested : Option ItemType}
    (h : draft.writtenRange requested = .ok (some f)) : f.Normal := by
  unfold writtenRange at h
  split at h
  · cases h
  · obtain ⟨g, hg, h⟩ := bind_eq_ok.mp h
    have hnormal := normal_of_namedRange (ServiceM.mapError_eq_ok.mp hg)
    split at h
    · split at h
      · cases h; exact hnormal
      · cases h
    · cases h; exact hnormal

end ItemDraft

/-! ## Columns of a row -/

/-- Ids are missing or positive. -/
def Provenance.Positive (p : Provenance) : Prop :=
  ∀ id ∈ [p.nodeId, p.serverId, p.policyId, p.ruleGroupId, p.ruleSetId],
    id = none ∨ ∃ n, id = some n ∧ 0 < n

theorem Provenance.positive_normalized (p : Provenance) : p.normalized.Positive := by
  have hpositive : ∀ id, positiveId id = none ∨ ∃ n, positiveId id = some n ∧ 0 < n := by
    intro id
    cases hid : positiveId id with
    | none => exact Or.inl rfl
    | some n =>
      obtain ⟨-, hn⟩ := Option.filter_eq_some_iff.mp hid
      exact Or.inr ⟨n, rfl, by simpa using hn⟩
  simp only [Positive, normalized, List.forall_mem_cons]
  exact ⟨hpositive _, hpositive _, hpositive _, hpositive _, hpositive _,
    fun _ h => absurd h List.not_mem_nil⟩

namespace ItemRow

/-- The row is for every address in all its columns. -/
structure Boundless (r : ItemRow) : Prop where
  family : r.family = "all"
  type : r.type = "all"
  texts : r.value = "" ∧ r.ipFrom = "" ∧ r.ipTo = ""
  keys : r.fromKey = [] ∧ r.toKey = []

/-- The row is for the addresses from one to another in all its columns. -/
structure Bounded (r : ItemRow) (low high : Address) : Prop where
  kind : (low.family = .v4 ∧ r.family = "v4" ∧ r.type = "ipv4" ∧
      r.fromKey.length = 4 ∧ r.toKey.length = 4) ∨
    (low.family = .v6 ∧ r.family = "v6" ∧ r.type = "ipv6" ∧
      r.fromKey.length = 16 ∧ r.toKey.length = 16)
  family : high.family = low.family
  keys : r.fromKey = low.key ∧ r.toKey = high.key
  le : keyLe r.fromKey r.toKey
  ipFrom : r.ipFrom = low.toText
  ipTo : r.ipTo = if r.fromKey = r.toKey then "" else high.toText
  value : ∃ f, Range.ofValue r.value = .ok f ∧ f.low = low ∧ f.high = high ∧
    f.toText = r.value ∧ f.lowText = r.ipFrom ∧ f.highText = r.ipTo

theorem Spans.boundless {r : ItemRow} (h : r.Spans none) : r.Boundless :=
  ⟨h.family, h.type, ⟨h.value, h.ipFrom, h.ipTo⟩, ⟨h.fromKey, h.toKey⟩⟩

/-- The columns that tell of a range tell of its bounds. -/
theorem Spans.bounded {r : ItemRow} {f : Range} (h : r.Spans (some f)) (hf : f.Normal) :
    r.Bounded f.low f.high := by
  obtain ⟨hvalue, hfrom, hto, hfamily, hfromKey, htoKey, htype⟩ := h
  dsimp only [Option.map_some, Option.getD_some] at hvalue hfrom hto hfamily hfromKey htoKey htype
  refine ⟨?_, f.family_eq, ⟨hfromKey, htoKey⟩, ?_, hfrom, ?_, f, ?_⟩
  · rw [hfamily, htype, hfromKey, htoKey, Address.length_key, Address.length_key, f.family_eq]
    unfold Range.family
    cases f.low.family
    · exact Or.inl ⟨rfl, rfl, rfl, rfl, rfl⟩
    · exact Or.inr ⟨rfl, rfl, rfl, rfl, rfl⟩
  · rw [hfromKey, htoKey]
    exact (Address.keyLe_key_iff f.family_eq.symm).mpr f.le
  · -- the keys agree exactly if the addresses do
    have hkeys : r.fromKey = r.toKey ↔ f.low = f.high := by
      rw [hfromKey, htoKey]
      exact ⟨Address.key_inj f.family_eq.symm, congrArg Address.key⟩
    simp only [hto, Range.highText, Range.isSingle, beq_iff_eq, hkeys]
  · rw [hvalue]
    exact ⟨Range.ofValue_toText hf, rfl, rfl, rfl, hfrom.symm, hto.symm⟩

/-- What the rows of normal drafts have in common. -/
structure Regular (r : ItemRow) : Prop where
  spans : ∃ range, r.Spans range ∧ ∀ f, range = some f → f.Normal
  listId : 0 < r.listId
  expiredAt : 0 ≤ r.expiredAt
  nodeId : 0 ≤ r.nodeId
  serverId : 0 ≤ r.serverId
  source : r.source.Positive

end ItemRow

theorem Store.lasting_regular : Store.Lasting ItemRow.Regular where
  agrees := by
    rintro r _ ⟨_, rfl⟩ h
    obtain ⟨range, hrange, hnormal⟩ := h.spans
    exact ⟨⟨range, ItemRow.Agrees.spans ⟨_, rfl⟩ hrange, hnormal⟩, h.listId, h.expiredAt, h.nodeId,
      h.serverId, h.source⟩
  retire := by
    intro r version h
    obtain ⟨range, hrange, hnormal⟩ := h.spans
    exact ⟨⟨range, hrange.retire version, hnormal⟩, h.listId, h.expiredAt, h.nodeId, h.serverId,
      h.source⟩
  revise := by
    intro r draft item version hitem h
    obtain ⟨_, range, -, htime, -, hrange, rfl⟩ := ItemDraft.normalize_eq_ok.mp hitem
    refine ⟨⟨range, ItemRow.spans_revise _ _ _, ?_⟩, h.listId, htime, h.nodeId, h.serverId, h.source⟩
    rintro f rfl
    exact ItemDraft.normal_of_writtenRange hrange
  ofNew := by
    intro draft item isRead now version id hitem
    obtain ⟨_, range, hlist, htime, -, hrange, rfl⟩ := ItemDraft.normalize_eq_ok.mp hitem
    have hnonneg : ∀ n : Int, 0 ≤ max n 0 := fun n => by omega
    refine ⟨⟨range, ItemRow.spans_ofNew _ _ _ _ _, ?_⟩, hlist, htime, hnonneg _, hnonneg _,
      draft.source.positive_normalized⟩
    rintro f rfl
    exact ItemDraft.normal_of_writtenRange hrange

/-! ## All rows -/

/-- Every row of a reachable state is canonical. It is for every address and its other columns are
empty, or its columns tell of the same two addresses, and its value reads as the range between
them with these texts and no others. Its list is named, no number of it is negative, and of what
caused it only positive ids are kept. -/
theorem rows_canonical {st : State} (h : Reachable st) :
    ∀ r ∈ st.store.items.rows,
      (r.Boundless ∨ ∃ low high, r.Bounded low high) ∧
      0 < r.listId ∧ 0 ≤ r.expiredAt ∧ 0 ≤ r.nodeId ∧ 0 ≤ r.serverId ∧ r.source.Positive := by
  intro r hr
  have hregular := h.holds (Store.invariant_rows Store.lasting_regular) r hr
  refine ⟨?_, hregular.listId, hregular.expiredAt, hregular.nodeId, hregular.serverId,
    hregular.source⟩
  obtain ⟨range, hrange, hnormal⟩ := hregular.spans
  cases range with
  | none => exact Or.inl hrange.boundless
  | some f => exact Or.inr ⟨f.low, f.high, hrange.bounded (hnormal f rfl)⟩

/-- A block that is revised to an address, two addresses given the wrong way round, one address
given twice, and an item for every address. -/
theorem rows_canonical_of_revised :
    let st := State.after { now := 0 } (adminCalls [.createList publicBlackList,
      .createItem { listId := 1, value := "2001:db8::7/64", source := { nodeId := some (-3) } },
      .createItem { listId := 1, value := "10.0.0.7/30", nodeId := -1 },
      .createItem { listId := 1, ipFrom := "10.0.2.9", ipTo := "10.0.2.1" },
      .createItem { listId := 1, value := "10.0.3.1-10.0.3.1" },
      .createItem { listId := 1, type := "all" },
      .updateItem 1 { listId := 1, value := "::ffff:0a00:0001" }])
    st.store.items.rows.map (fun r => (r.family, r.value, r.ipFrom, r.ipTo)) =
        [("v6", "::ffff:10.0.0.1", "::ffff:10.0.0.1", ""),
          ("v4", "10.0.0.4/30", "10.0.0.4", "10.0.0.7"),
          ("v4", "10.0.2.1-10.0.2.9", "10.0.2.1", "10.0.2.9"),
          ("v4", "10.0.3.1", "10.0.3.1", ""), ("all", "", "", "")] ∧
      ∀ r ∈ st.store.items.rows,
        (r.Boundless ∨ ∃ low high, r.Bounded low high) ∧
        0 < r.listId ∧ 0 ≤ r.expiredAt ∧ 0 ≤ r.nodeId ∧ 0 ≤ r.serverId ∧ r.source.Positive :=
  ⟨by decide +kernel, rows_canonical (reachable_after 0 _)⟩

end FirewallLists
