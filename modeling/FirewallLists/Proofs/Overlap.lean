import FirewallLists.Proofs.Net.KeyOrder
import FirewallLists.Proofs.Service.Run
import FirewallLists.Proofs.Store.Change

/-
  Items of a list that are switched on do not overlap. The tables look for what is in the way of
  an item by comparing octets, and an edit switches an item on only where nothing is in its way, so
  no two rows ever clash (`Edit.apart`). Octets order as addresses do, so rows of one family that do
  not clash have no address in common.
-/

namespace FirewallLists

open Net

/-! ## Rows that clash -/

namespace ItemRow

/-- Both rows are switched on and in one list, and their bounds meet. -/
structure Clashes (r q : ItemRow) : Prop where
  left_live : r.isLive
  right_live : q.isLive
  listId : r.listId = q.listId
  overlaps : r.overlaps q.family q.fromKey q.toKey

theorem overlaps_iff {r : ItemRow} {family : String} {j k : List UInt8} :
    r.overlaps family j k ↔ r.family = family ∧ keyLe r.fromKey k ∧ keyLe j r.toKey := by
  simp [ItemRow.overlaps, and_assoc]

theorem Clashes.symm {r q : ItemRow} (h : r.Clashes q) : q.Clashes r := by
  obtain ⟨hfamily, hlow, hhigh⟩ := overlaps_iff.mp h.overlaps
  exact ⟨h.right_live, h.left_live, h.listId.symm,
    overlaps_iff.mpr ⟨hfamily.symm, hhigh, hlow⟩⟩

theorem Agrees.clashes {r r' q q' : ItemRow} (hr : r.Agrees r') (hq : q.Agrees q')
    (h : r'.Clashes q') : r.Clashes q := by
  obtain ⟨_, rfl⟩ := hr
  obtain ⟨_, rfl⟩ := hq
  exact ⟨h.left_live, h.right_live, h.listId, h.overlaps⟩

end ItemRow

namespace Store

/-- No two items clash. -/
def Apart (s : Store) : Prop :=
  ∀ r ∈ s.items.rows, ∀ q ∈ s.items.rows, r.id ≠ q.id → ¬r.Clashes q

variable {s s' : Store} {now : Int} {row : ItemRow}

theorem Quiet.apart (h : Quiet s s') (hapart : s.Apart) : s'.Apart := by
  intro r' hr' q' hq' hne hclash
  obtain ⟨r, hr, hrr⟩ := h.known r' hr'
  obtain ⟨q, hq, hqq⟩ := h.known q' hq'
  rw [hrr.id, hqq.id] at hne
  exact hapart r hr q hq hne (hrr.clashes hqq hclash)

/-- A row that clashes with no other may be written. -/
theorem Touches.apart (h : Touches row s s') (hapart : s.Apart)
    (hclear : ∀ q ∈ s.items.rows, q.id ≠ row.id → ¬q.Clashes row) : s'.Apart := by
  intro r hr q hq hne hclash
  rcases (h.mem_iff r).mp hr with rfl | ⟨hr, hrid⟩
  · rcases (h.mem_iff q).mp hq with rfl | ⟨hq, hqid⟩
    · exact hne rfl
    · exact hclear q hq hqid hclash.symm
  · rcases (h.mem_iff q).mp hq with rfl | ⟨hq, -⟩
    · exact hclear r hr hrid hclash
    · exact hapart r hr q hq hne hclash

/-- A row with the bounds of an item clashes with no other when nothing is in the item's way. -/
theorem not_clashes_of_overlapping {item : NewItem} {exclude : Int}
    (hclear : s.overlapping item exclude = []) (hlist : row.listId = item.listId)
    (hfamily : row.family = item.family) (hfrom : row.fromKey = item.fromKey)
    (hto : row.toKey = item.toKey) {q : ItemRow} (hq : q ∈ s.items.rows) (hid : q.id ≠ exclude) :
    ¬q.Clashes row := by
  intro hclash
  have hover := hclash.overlaps
  rw [hfamily, hfrom, hto] at hover
  have hmem : q ∈ s.overlapping item exclude :=
    mem_overlapping.mpr ⟨hq, hclash.listId.trans hlist, hclash.left_live, hover, hid⟩
  rw [hclear] at hmem
  cases hmem

/-- Every edit leaves the items apart. -/
theorem Edit.apart (hs : s.Ordered) (hapart : s.Apart) (h : Edit now s s') : s'.Apart := by
  cases h with
  | retire mem =>
    refine (touches_retire hs mem).apart hapart fun q _ _ hclash => ?_
    have hoff := hclash.right_live
    rw [ItemRow.isLive_retire] at hoff
    cases hoff
  | revise mem live normal stays clear room =>
    refine (touches_revise hs mem _).apart hapart fun q hq hid => ?_
    refine not_clashes_of_overlapping clear ?_ rfl rfl rfl hq hid
    exact stays.symm
  | add normal listed clear room =>
    refine (touches_add hs _ _ _).apart hapart fun q hq _ => ?_
    have hpositive := hs.items.positive q hq
    rw [ItemRow.identified] at hpositive
    exact not_clashes_of_overlapping clear rfl rfl rfl rfl hq (by omega)
  | markRead scope => exact (quiet_markRead s scope).apart hapart
  | lists write => exact write.quiet.apart hapart

theorem invariant_apart : Invariant Apart where
  empty := fun _ hr => absurd hr List.not_mem_nil
  edit := Edit.apart
  directory := fun _ h => h

theorem invariant_spanned : Invariant Spanned :=
  invariant_rows lasting_spans

end Store

/-! ## Addresses in common -/

namespace ItemRow

variable {r q : ItemRow} {f g : Range} {range other : Option Range} {a : Address}

/-- A row without a range is the one kind that is of no family of addresses. -/
theorem Spans.eq_none_iff (h : r.Spans range) : range = none ↔ r.family = "all" := by
  have hfamily := h.family
  cases range with
  | none => exact iff_of_true rfl hfamily
  | some f =>
    rw [hfamily]
    exact iff_of_false (by simp) (Family.name_ne_all f.family)

/-- Rows for every address overlap. -/
theorem Spans.overlaps_all (hr : r.Spans range) (hq : q.Spans other) (hrall : r.family = "all")
    (hqall : q.family = "all") : r.overlaps q.family q.fromKey q.toKey := by
  have hrnone := hr.eq_none_iff.mpr hrall
  have hqnone := hq.eq_none_iff.mpr hqall
  subst hrnone hqnone
  refine overlaps_iff.mpr ⟨hrall.trans hqall.symm, ?_, ?_⟩
  · rw [hr.fromKey]; rfl
  · rw [hq.fromKey]; rfl

/-- Rows with an address in common overlap. -/
theorem Spans.overlaps_of_contains (hr : r.Spans (some f)) (hq : q.Spans (some g))
    (hf : f.contains a) (hg : g.contains a) : r.overlaps q.family q.fromKey q.toKey := by
  obtain ⟨hff, hflow, hfhigh⟩ := hf
  obtain ⟨hgf, hglow, hghigh⟩ := hg
  have hfamily : f.low.family = g.low.family := hff.symm.trans hgf
  refine overlaps_iff.mpr ⟨?_, ?_, ?_⟩
  · rw [hr.family, hq.family]
    exact congrArg Family.name hfamily
  · rw [hr.fromKey, hq.toKey]
    exact (Address.keyLe_key_iff (hfamily.trans g.family_eq.symm)).mpr (Nat.le_trans hflow hghigh)
  · rw [hr.toKey, hq.fromKey]
    exact (Address.keyLe_key_iff (hfamily.symm.trans f.family_eq.symm)).mpr
      (Nat.le_trans hglow hfhigh)

/-- A row covers the addresses of its range. -/
theorem Spans.covers_iff (hr : r.Spans (some f)) : r.covers a ↔ f.contains a := by
  have hname : f.family.name ≠ "all" := Family.name_ne_all _
  have hrow : r.family = f.family.name := hr.family
  simp only [covers, hrow, Bool.or_eq_true, Bool.and_eq_true, beq_iff_eq, hname, false_or,
    and_assoc]
  constructor
  · rintro ⟨hfamily, hlow, hhigh⟩
    have ha : f.low.family = a.family := Family.name_inj hfamily
    rw [hr.fromKey] at hlow
    rw [hr.toKey] at hhigh
    exact ⟨ha.symm, (Address.keyLe_key_iff ha).mp hlow,
      (Address.keyLe_key_iff (ha.symm.trans f.family_eq.symm)).mp hhigh⟩
  · rintro ⟨ha, hlow, hhigh⟩
    refine ⟨congrArg Family.name ha.symm, ?_, ?_⟩
    · rw [hr.fromKey]
      exact (Address.keyLe_key_iff ha.symm).mpr hlow
    · rw [hr.toKey]
      exact (Address.keyLe_key_iff (ha.trans f.family_eq.symm)).mpr hhigh

/-- Rows of one family that cover one address overlap. -/
theorem Spans.overlaps_of_covers (hr : r.Spans range) (hq : q.Spans other)
    (hfamily : r.family = q.family) (hra : r.covers a) (hqa : q.covers a) :
    r.overlaps q.family q.fromKey q.toKey := by
  cases range with
  | none => exact hr.overlaps_all hq hr.family (hfamily.symm.trans hr.family)
  | some f =>
    cases other with
    | none => exact hr.overlaps_all hq (hfamily.trans hq.family) hq.family
    | some g => exact hr.overlaps_of_contains hq (hr.covers_iff.mp hra) (hq.covers_iff.mp hqa)

end ItemRow

/-! ## Items that are switched on -/

theorem length_filter_le_one {α : Type} {l : List α} {p : α → Bool} (hl : l.Nodup)
    (h : ∀ x ∈ l, ∀ y ∈ l, p x → p y → x = y) : (l.filter p).length ≤ 1 := by
  have hnodup := hl.filter p
  match hfilter : l.filter p with
  | [] => simp
  | [x] => simp
  | x :: y :: rest =>
    have hx : x ∈ l.filter p := by rw [hfilter]; simp
    have hy : y ∈ l.filter p := by rw [hfilter]; simp
    rw [List.mem_filter] at hx hy
    have hxy := h x hx.1 y hy.1 hx.2 hy.2
    rw [hfilter, hxy] at hnodup
    simp at hnodup

/-- In every reachable state the columns of each row tell of one range. Two rows of one list and
family that are switched on have no address in common, and neither is for every address. So of a
list at most one row for every address is switched on, and at most one row of each family that
covers a given address. -/
theorem live_items_disjoint {st : State} (h : Reachable st) :
    (∀ r ∈ st.store.items.rows, ∃ range, r.Spans range) ∧
    (∀ r ∈ st.store.items.rows, ∀ q ∈ st.store.items.rows, r.id ≠ q.id → r.isLive → q.isLive →
      r.listId = q.listId → r.family = q.family →
        r.family ≠ "all" ∧
          ∀ f g a, r.Spans (some f) → q.Spans (some g) → ¬(f.contains a ∧ g.contains a)) ∧
    (∀ listId, (st.store.items.rows.filter fun r =>
      r.isLive && r.listId == listId && r.family == "all").length ≤ 1) ∧
    (∀ listId family a, (st.store.items.rows.filter fun r =>
      r.isLive && r.listId == listId && r.family == family && r.covers a).length ≤ 1) := by
  have hspanned := h.holds Store.invariant_spanned
  have hapart := h.holds Store.invariant_apart
  have hnodup : st.store.items.rows.Nodup := h.ordered.items.nodup_ids.of_map
  -- rows that are live in one list and overlap are one row
  have unique : ∀ r ∈ st.store.items.rows, ∀ q ∈ st.store.items.rows, r.isLive → q.isLive →
      r.listId = q.listId → r.overlaps q.family q.fromKey q.toKey → r = q := by
    intro r hr q hq hrlive hqlive hlist hover
    by_contra hne
    have hid : r.id ≠ q.id := fun hid => hne (h.ordered.items.eq_of_id hr hq hid)
    exact hapart r hr q hq hid ⟨hrlive, hqlive, hlist, hover⟩
  refine ⟨hspanned, ?_, ?_, ?_⟩
  · intro r hr q hq hid hrlive hqlive hlist hfamily
    have hclear : ¬r.overlaps q.family q.fromKey q.toKey :=
      fun hover => hid (by rw [unique r hr q hq hrlive hqlive hlist hover])
    refine ⟨fun hall => ?_, fun f g a hf hg hboth => ?_⟩
    · obtain ⟨_, hrange⟩ := hspanned r hr
      obtain ⟨_, hother⟩ := hspanned q hq
      exact hclear (hrange.overlaps_all hother hall (hfamily.symm.trans hall))
    · exact hclear (hf.overlaps_of_contains hg hboth.1 hboth.2)
  · intro listId
    refine length_filter_le_one hnodup fun r hr q hq hpr hpq => ?_
    simp only [Bool.and_eq_true, beq_iff_eq] at hpr hpq
    obtain ⟨⟨hrlive, hrlist⟩, hrall⟩ := hpr
    obtain ⟨⟨hqlive, hqlist⟩, hqall⟩ := hpq
    obtain ⟨_, hrange⟩ := hspanned r hr
    obtain ⟨_, hother⟩ := hspanned q hq
    have hover := hrange.overlaps_all hother hrall hqall
    exact unique r hr q hq hrlive hqlive (hrlist.trans hqlist.symm) hover
  · intro listId family a
    refine length_filter_le_one hnodup fun r hr q hq hpr hpq => ?_
    simp only [Bool.and_eq_true, beq_iff_eq] at hpr hpq
    obtain ⟨⟨⟨hrlive, hrlist⟩, hrfamily⟩, hra⟩ := hpr
    obtain ⟨⟨⟨hqlive, hqlist⟩, hqfamily⟩, hqa⟩ := hpq
    obtain ⟨_, hrange⟩ := hspanned r hr
    obtain ⟨_, hother⟩ := hspanned q hq
    have hover := hrange.overlaps_of_covers hother (hrfamily.trans hqfamily.symm) hra hqa
    exact unique r hr q hq hrlive hqlive (hrlist.trans hqlist.symm) hover

/-- An address takes the place of the block around it, and an item for every address stands
beside it. -/
theorem live_items_disjoint_of_replaced :
    let st := State.after { now := 0 } (adminCalls [.createList publicBlackList,
      .createItem { listId := 1, value := "10.0.0.0/8" },
      .createItem { listId := 1, value := "10.1.2.3" },
      .createItem { listId := 1, type := "all" }])
    st.store.items.rows.map (fun r => (r.value, r.isLive)) =
        [("10.0.0.0/8", false), ("10.1.2.3", true), ("", true)] ∧
      ∀ listId family a, (st.store.items.rows.filter fun r =>
        r.isLive && r.listId == listId && r.family == family && r.covers a).length ≤ 1 :=
  ⟨by decide +kernel, (live_items_disjoint (reachable_after 0 _)).2.2.2⟩

end FirewallLists
