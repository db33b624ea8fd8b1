import FirewallLists.Proofs.Service.Run
import FirewallLists.Proofs.Store.Change
import FirewallLists.Store.ItemQuery

/-
  Versions of items. Every edit that nodes have to hear of gives the next version to one row, so
  all versions are different and the last one given out is the highest of the table
  (`Store.Versioned`). What is not above the last version of an earlier state has not changed since
  then (`Store.Since`), and so a node that asks for what is above a version misses nothing.
-/

namespace FirewallLists

open Relation ServiceM

namespace Store

variable {s s' : Store} {now : Int} {row : ItemRow}

/-! ## All versions are different -/

/-- The versions are positive and different, and the last one given out is the highest. -/
structure Versioned (s : Store) : Prop where
  positive : ∀ r ∈ s.items.rows, 0 < r.version
  le_sequence : ∀ r ∈ s.items.rows, r.version ≤ s.sequence
  distinct : ∀ r ∈ s.items.rows, ∀ q ∈ s.items.rows, r.version = q.version → r.id = q.id
  attained : s.sequence = 0 ∨ ∃ r ∈ s.items.rows, r.version = s.sequence

theorem Versioned.sequence_nonneg (h : s.Versioned) : 0 ≤ s.sequence := by
  rcases h.attained with hzero | ⟨r, hr, hversion⟩
  · omega
  · have := h.positive r hr
    omega

theorem Quiet.versioned (h : Quiet s s') (hv : s.Versioned) : s'.Versioned where
  positive := by
    intro r' hr'
    obtain ⟨r, hr, hagrees⟩ := h.known r' hr'
    rw [hagrees.version]
    exact hv.positive r hr
  le_sequence := by
    intro r' hr'
    obtain ⟨r, hr, hagrees⟩ := h.known r' hr'
    rw [hagrees.version, h.sequence]
    exact hv.le_sequence r hr
  distinct := by
    intro r' hr' q' hq' heq
    obtain ⟨r, hr, hrr⟩ := h.known r' hr'
    obtain ⟨q, hq, hqq⟩ := h.known q' hq'
    rw [hrr.id, hqq.id]
    rw [hrr.version, hqq.version] at heq
    exact hv.distinct r hr q hq heq
  attained := by
    rw [h.sequence]
    refine hv.attained.imp_right fun ⟨r, hr, hversion⟩ => ?_
    obtain ⟨r', hr', hagrees⟩ := h.kept r hr
    exact ⟨r', hr', hagrees.version.trans hversion⟩

theorem Touches.versioned (h : Touches row s s') (hv : s.Versioned) : s'.Versioned where
  positive := by
    intro r hr
    rcases (h.mem_iff r).mp hr with rfl | ⟨hr, -⟩
    · have := hv.sequence_nonneg
      rw [h.version, next]
      omega
    · exact hv.positive r hr
  le_sequence := by
    intro r hr
    rw [h.sequence]
    rcases (h.mem_iff r).mp hr with rfl | ⟨hr, -⟩
    · exact Int.le_of_eq h.version
    · have := hv.le_sequence r hr
      rw [next]
      omega
  distinct := by
    -- the new version is above all others
    have hnew : ∀ r ∈ s.items.rows, r.version ≠ row.version := by
      intro r hr
      have := hv.le_sequence r hr
      rw [h.version, next]
      omega
    intro r hr q hq heq
    rcases (h.mem_iff r).mp hr with rfl | ⟨hr, -⟩
    · rcases (h.mem_iff q).mp hq with rfl | ⟨hq, -⟩
      · rfl
      · exact absurd heq.symm (hnew q hq)
    · rcases (h.mem_iff q).mp hq with rfl | ⟨hq, -⟩
      · exact absurd heq (hnew r hr)
      · exact hv.distinct r hr q hq heq
  attained := Or.inr ⟨row, h.mem, h.version.trans h.sequence.symm⟩

theorem invariant_versioned : Invariant Versioned where
  empty := by
    refine ⟨?_, ?_, ?_, Or.inl rfl⟩
    · exact fun _ hr => absurd hr List.not_mem_nil
    · exact fun _ hr => absurd hr List.not_mem_nil
    · exact fun _ hr => absurd hr List.not_mem_nil
  edit := by
    intro now s s' hs hv h
    rcases h.quiet_or_touches hs with hquiet | ⟨row, htouches⟩
    · exact hquiet.versioned hv
    · exact htouches.versioned hv
  directory := fun _ hv => ⟨hv.positive, hv.le_sequence, hv.distinct, hv.attained⟩

/-! ## Every version is assigned -/

theorem Ordered.afterRetiring (hs : s.Ordered) (rows : List ItemRow) :
    (s.afterRetiring rows).Ordered :=
  ⟨hs.items.update fun _ _ => ItemRow.afterRetiring_id, hs.lists⟩

/-- The versions that switching items off takes go to these items. -/
theorem afterRetiring_assigns {rows : List ItemRow} (hrows : ∀ r ∈ rows, r ∈ s.items.rows)
    (hids : (rows.map (·.id)).Nodup) {v : Int} (hlow : s.sequence < v)
    (hhigh : v ≤ (s.afterRetiring rows).sequence) :
    ∃ q ∈ rows, ∃ r ∈ (s.afterRetiring rows).items.rows, r.id = q.id ∧ r.version = v := by
  obtain ⟨q, hq, hversion⟩ := ItemRow.exists_version_afterRetiring hids hlow hhigh
  exact ⟨q, hq, _, Table.mem_update.mpr ⟨q, hrows q hq, rfl⟩, ItemRow.afterRetiring_id, hversion⟩

theorem overlapping_assigns (hs : s.Ordered) {item : NewItem} {exclude : Int} {v : Int}
    (hlow : s.sequence < v)
    (hhigh : v ≤ (s.afterRetiring (s.overlapping item exclude)).sequence) :
    ∃ r ∈ (s.afterRetiring (s.overlapping item exclude)).items.rows,
      r.id ≠ exclude ∧ r.version = v := by
  have hrows : ∀ r ∈ s.overlapping item exclude, r ∈ s.items.rows :=
    fun r hr => (mem_overlapping.mp hr).1
  obtain ⟨q, hq, r, hr, hid, hversion⟩ :=
    afterRetiring_assigns hrows (nodup_ids_filter hs.items _) hlow hhigh
  exact ⟨r, hr, hid ▸ (mem_overlapping.mp hq).2.2.2.2, hversion⟩

theorem Touches.assigns (h : Touches row s s') {v : Int} (hhigh : v ≤ s'.sequence)
    (hbefore : v ≤ s.sequence → ∃ r ∈ s.items.rows, r.id ≠ row.id ∧ r.version = v) :
    ∃ r ∈ s'.items.rows, r.version = v := by
  by_cases hv : v ≤ s.sequence
  · obtain ⟨r, hr, hid, hversion⟩ := hbefore hv
    exact ⟨r, (h.mem_iff r).mpr (Or.inr ⟨hr, hid⟩), hversion⟩
  · refine ⟨row, h.mem, ?_⟩
    have hsequence := h.sequence
    rw [h.version]
    unfold next at hsequence ⊢
    omega

/-- Every version that a transaction takes is the version of a row when it commits. -/
theorem Write.assigns (hs : s.Ordered) (h : Write now s s') {v : Int} (hlow : s.sequence < v)
    (hhigh : v ≤ s'.sequence) : ∃ r ∈ s'.items.rows, r.version = v := by
  cases h with
  | lists write =>
    rw [write.items.2] at hhigh
    omega
  | items write =>
    cases write with
    | @create _ item _ _ _ _ _ run =>
      obtain ⟨s₁, hretire, -, -, -, rfl⟩ := createItem_eq_ok run
      have hs' := retireAll_overlapping_eq_ok hs hretire
      subst hs'
      have hs₁ := hs.afterRetiring (s.overlapping item 0)
      refine (touches_add hs₁ _ _ _).assigns hhigh fun hv => ?_
      obtain ⟨r, hr, -, hversion⟩ := overlapping_assigns hs hlow hv
      exact ⟨r, hr, hs₁.id_ne_next hr, hversion⟩
    | @update _ _ item _ _ _ _ run =>
      obtain ⟨row, s₁, hrow, hretire, -, -, -, rfl⟩ := updateItem_eq_ok run
      obtain ⟨-, hmem, rfl, -⟩ := liveItem?_eq_some hrow
      have hs' := retireAll_overlapping_eq_ok hs hretire
      subst hs'
      have hs₁ := hs.afterRetiring (s.overlapping item row.id)
      have hstay := mem_afterRetiring_overlapping item hmem
      exact (touches_revise hs₁ hstay _).assigns hhigh (overlapping_assigns hs hlow)
    | disable run =>
      obtain ⟨row, hrow, -, -, rfl⟩ := disableItem_eq_ok run
      obtain ⟨-, hmem, -, -⟩ := liveItem?_eq_some hrow
      exact (touches_retire hs hmem).assigns hhigh fun hv => by omega
    | @disableMatching scope range _ _ found run =>
      have hids := nodup_ids_filter hs.items fun r =>
        r.isLive && r.ipFrom == range.lowText && r.ipTo == range.highText && scope.admits r.listId
      have hs' := retireAll_eq_ok hids (disableMatching_eq_ok found run)
      subst hs'
      have hrows : ∀ r ∈ s.withBounds scope range, r ∈ s.items.rows :=
        fun r hr => List.mem_of_mem_filter hr
      obtain ⟨_, -, r, hr, -, hversion⟩ := afterRetiring_assigns hrows hids hlow hhigh
      exact ⟨r, hr, hversion⟩
    | markRead scope => exact absurd hhigh (by show ¬v ≤ s.sequence; omega)

/-- No transaction of a chain leaves a version that it takes unassigned. -/
theorem writes_assign (hs : s.Ordered) (h : ReflTransGen (Write now) s s') :
    ReflTransGen (fun s s' => Write now s s' ∧
      ∀ v, s.sequence < v → v ≤ s'.sequence → ∃ r ∈ s'.items.rows, r.version = v) s s' := by
  induction h with
  | refl => exact .refl
  | tail hwrites hwrite ih =>
    have hordered := (invariant_ordered.writes hs hs hwrites).1
    exact ih.tail ⟨hwrite, fun v hlow hhigh => hwrite.assigns hordered hlow hhigh⟩

/-! ## What has changed since -/

/-- Versions only go up, and no row goes or leaves its list. What is not above the last version
given out before has not changed since then. -/
structure Since (s s' : Store) : Prop where
  sequence_le : s.sequence ≤ s'.sequence
  kept : ∀ r ∈ s.items.rows, ∃ r' ∈ s'.items.rows, r'.id = r.id ∧ r'.listId = r.listId
  fresh : ∀ r' ∈ s'.items.rows, s.sequence < r'.version ∨ ∃ r ∈ s.items.rows, r.Agrees r'

instance : Std.Refl Since where
  refl _ := ⟨Int.le_refl _, fun r hr => ⟨r, hr, rfl, rfl⟩, fun r hr => Or.inr ⟨r, hr, .refl r⟩⟩

instance : IsTrans Store Since where
  trans s s₁ s₂ h h' := by
    refine ⟨Int.le_trans h.sequence_le h'.sequence_le, fun r hr => ?_, fun r₂ hr₂ => ?_⟩
    · obtain ⟨r₁, hr₁, hid, hlist⟩ := h.kept r hr
      obtain ⟨r₂, hr₂, hid', hlist'⟩ := h'.kept r₁ hr₁
      exact ⟨r₂, hr₂, hid'.trans hid, hlist'.trans hlist⟩
    · rcases h'.fresh r₂ hr₂ with hnew | ⟨r₁, hr₁, hagrees⟩
      · exact Or.inl (Int.lt_of_le_of_lt h.sequence_le hnew)
      · rw [hagrees.version]
        exact (h.fresh r₁ hr₁).imp_right fun ⟨r, hr, hr'⟩ => ⟨r, hr, hr'.trans hagrees⟩

theorem Quiet.since (h : Quiet s s') : Since s s' where
  sequence_le := Int.le_of_eq h.sequence.symm
  kept := by
    intro r hr
    obtain ⟨r', hr', hagrees⟩ := h.kept r hr
    exact ⟨r', hr', hagrees.id, hagrees.listId⟩
  fresh := fun r' hr' => Or.inr (h.known r' hr')

theorem Touches.since (h : Touches row s s') : Since s s' where
  sequence_le := by
    rw [h.sequence, next]
    omega
  kept := by
    intro r hr
    by_cases hid : r.id = row.id
    · exact ⟨row, h.mem, hid.symm, (h.stays r hr hid).symm⟩
    · exact ⟨r, (h.mem_iff r).mpr (Or.inr ⟨hr, hid⟩), rfl, rfl⟩
  fresh := by
    intro r hr
    rcases (h.mem_iff r).mp hr with rfl | ⟨hr, -⟩
    · left
      rw [h.version, next]
      omega
    · exact Or.inr ⟨r, hr, .refl r⟩

theorem Edit.since (hs : s.Ordered) (h : Edit now s s') : Since s s' := by
  rcases h.quiet_or_touches hs with hquiet | ⟨row, htouches⟩
  · exact hquiet.since
  · exact htouches.since

/-- A row that has kept its version has not changed. -/
theorem Since.agrees_of_version (h : Since s s') (hs : s.Ordered) (hv : s.Versioned)
    {r r' : ItemRow} (hr : r ∈ s.items.rows) (hr' : r' ∈ s'.items.rows)
    (hversion : r'.version = r.version) : r.Agrees r' := by
  rcases h.fresh r' hr' with hnew | ⟨q, hq, hagrees⟩
  · have := hv.le_sequence r hr
    omega
  · have hid := hv.distinct q hq r hr (hagrees.version.symm.trans hversion)
    rw [← hs.items.eq_of_id hq hr hid]
    exact hagrees

/-- A row that has changed has a new version. -/
theorem Since.lt_version (h : Since s s') (hs : s.Ordered) {r r' : ItemRow}
    (hr : r ∈ s.items.rows) (hr' : r' ∈ s'.items.rows) (hid : r'.id = r.id)
    (hchanged : ¬r.Agrees r') : s.sequence < r'.version := by
  rcases h.fresh r' hr' with hnew | ⟨q, hq, hagrees⟩
  · exact hnew
  · rw [hs.items.eq_of_id hq hr (hagrees.id.symm.trans hid)] at hagrees
    exact absurd hagrees hchanged

/-- All rows above a version are served when no limit is set. -/
theorem mem_rowsAfter {version : Int} {r : ItemRow} :
    r ∈ s.rowsAfter version (-1) ↔ r ∈ s.items.rows ∧ version < r.version := by
  simp [rowsAfter, page]

end Store

theorem Reachable.versioned {st : State} (h : Reachable st) : st.store.Versioned :=
  h.holds Store.invariant_versioned

theorem Reachable.since {st st' : State} (h : Reachable st) (hrun : ReflTransGen Next st st') :
    Store.Since st.store st'.store := by
  refine h.related (fun hs hedit => hedit.since hs) (fun s directory => ?_) hrun
  exact ⟨Int.le_refl _, fun r hr => ⟨r, hr, rfl, rfl⟩, fun r hr => Or.inr ⟨r, hr, .refl r⟩⟩

/-! ## Versions of all that is reachable -/

/-- In every reachable state the versions of items are positive and different, and the last one
given out is the highest, or zero when there is no item. No run gives a version to another row, or
to the same row when it has changed. Each transaction of a call assigns all versions that it takes,
and a call after which no item has a new version has taken none. -/
theorem versions_exact {st : State} (h : Reachable st) :
    (st.store.items.rows.map (·.version)).Nodup ∧
    (∀ r ∈ st.store.items.rows, 0 < r.version ∧ r.version ≤ st.store.sequence) ∧
    (if st.store.items.rows = [] then st.store.sequence = 0
      else ∃ r ∈ st.store.items.rows, r.version = st.store.sequence) ∧
    (∀ st', ReflTransGen Next st st' → ∀ r ∈ st.store.items.rows, ∀ r' ∈ st'.store.items.rows,
      r'.version = r.version → r.Agrees r') ∧
    (∀ (gate : Gate) (token : Option String) (call : Call),
      ReflTransGen
        (fun s s' => Store.Write st.now s s' ∧
          ∀ v, s.sequence < v → v ≤ s'.sequence → ∃ r ∈ s'.items.rows, r.version = v)
        st.store (outcome (gate.serve token call) st).2.store) ∧
    (∀ (gate : Gate) (token : Option String) (call : Call),
      (∀ r' ∈ (outcome (gate.serve token call) st).2.store.items.rows,
        ∃ r ∈ st.store.items.rows, r'.version = r.version) →
      (outcome (gate.serve token call) st).2.store.sequence = st.store.sequence) := by
  have hs := h.ordered
  have hv := h.versioned
  have hnodup : st.store.items.rows.Nodup := hs.items.nodup_ids.of_map
  refine ⟨?_, ?_, ?_, ?_, ?_, ?_⟩
  · refine hnodup.map_on fun r hr q hq heq => ?_
    exact hs.items.eq_of_id hr hq (hv.distinct r hr q hq heq)
  · exact fun r hr => ⟨hv.positive r hr, hv.le_sequence r hr⟩
  · rcases hv.attained with hzero | ⟨r, hr, hversion⟩
    · have hempty : st.store.items.rows = [] := by
        rw [List.eq_nil_iff_forall_not_mem]
        intro r hr
        have := hv.positive r hr
        have := hv.le_sequence r hr
        omega
      rw [if_pos hempty]
      exact hzero
    · rw [if_neg (List.ne_nil_of_mem hr)]
      exact ⟨r, hr, hversion⟩
  · intro st' hrun r hr r' hr' hversion
    exact (h.since hrun).agrees_of_version hs hv hr hr' hversion
  · intro gate token call
    exact Store.writes_assign hs (gate.serve_progress token call st).writes
  · intro gate token call hold
    have hnext := next_call gate token call st
    have hle := (h.since (.single hnext)).sequence_le
    rcases (h.next hnext).versioned.attained with hzero | ⟨r', hr', hversion⟩
    · have := hv.sequence_nonneg
      omega
    · obtain ⟨r, hr, heq⟩ := hold r' hr'
      have := hv.le_sequence r hr
      omega

/-- A run in which a block is replaced, an item is switched off, and a second attempt to switch it
off finds nothing. -/
theorem versions_exact_of_replaced :
    let st := State.after { now := 0 } (adminCalls [.createList publicBlackList,
      .createItem { listId := 1, value := "10.0.0.0/8" },
      .createItem { listId := 1, value := "10.1.2.3" },
      .deleteItem { value := "10.1.2.3" },
      .deleteItem { value := "10.1.2.3" }])
    st.store.items.rows.map (·.version) = [2, 4] ∧ st.store.sequence = 4 ∧
      ∀ st', ReflTransGen Next st st' → ∀ r ∈ st.store.items.rows, ∀ r' ∈ st'.store.items.rows,
        r'.version = r.version → r.Agrees r' :=
  ⟨by decide +kernel, by decide +kernel, (versions_exact (reachable_after 0 _)).2.2.2.1⟩

/-- Whatever call is made in a reachable state, and however it ends, no item goes. An item that is
new afterwards, or changed in more than whether it has been read, has a version above the last one
given out before, and an item with the version it had is the same otherwise. The last version given
out does not go down. So whatever happens later, an item that is not above a version given out
before the call is as it was then. -/
theorem changes_take_fresh_versions {st : State} (h : Reachable st) (gate : Gate)
    (token : Option String) (call : Call) :
    let st' := (outcome (gate.serve token call) st).2
    (∀ r ∈ st.store.items.rows, ∃ r' ∈ st'.store.items.rows, r'.id = r.id) ∧
    (∀ r' ∈ st'.store.items.rows, (∀ r ∈ st.store.items.rows, r.id ≠ r'.id) →
      st.store.sequence < r'.version) ∧
    (∀ r ∈ st.store.items.rows, ∀ r' ∈ st'.store.items.rows, r'.id = r.id → ¬r.Agrees r' →
      st.store.sequence < r'.version) ∧
    (∀ r ∈ st.store.items.rows, ∀ r' ∈ st'.store.items.rows, r'.id = r.id →
      r'.version = r.version → r.Agrees r') ∧
    st.store.sequence ≤ st'.store.sequence ∧
    (∀ cursor ≤ st.store.sequence, ∀ later, ReflTransGen Next st' later →
      ∀ r' ∈ later.store.items.rows, r' ∉ later.store.rowsAfter cursor (-1) →
        ∃ r ∈ st.store.items.rows, r.Agrees r') := by
  intro st'
  have hs := h.ordered
  have hnext : Next st st' := next_call gate token call st
  have hsince := h.since (.single hnext)
  refine ⟨?_, ?_, ?_, ?_, hsince.sequence_le, ?_⟩
  · intro r hr
    obtain ⟨r', hr', hid, -⟩ := hsince.kept r hr
    exact ⟨r', hr', hid⟩
  · intro r' hr' hinserted
    rcases hsince.fresh r' hr' with hnew | ⟨r, hr, hagrees⟩
    · exact hnew
    · exact absurd hagrees.id.symm (hinserted r hr)
  · intro r hr r' hr' hid hchanged
    exact hsince.lt_version hs hr hr' hid hchanged
  · intro r hr r' hr' _ hversion
    exact hsince.agrees_of_version hs h.versioned hr hr' hversion
  · intro cursor hcursor later hrun r' hr' hunseen
    rw [Store.mem_rowsAfter, not_and] at hunseen
    have hlow := hunseen hr'
    rcases (h.since (hrun.head hnext)).fresh r' hr' with hnew | hold
    · omega
    · exact hold

/-- The replaced block and the item in its place are above the version of the block. -/
theorem changes_take_fresh_versions_of_replaced :
    let st := State.after { now := 0 } (adminCalls [.createList publicBlackList,
      .createItem { listId := 1, value := "10.0.0.0/8" }])
    let st' := st.after (adminCalls [.createItem { listId := 1, value := "10.1.2.3" }])
    st.store.sequence = 1 ∧ st'.store.items.rows.map (·.version) = [2, 3] ∧
      ∀ r ∈ st.store.items.rows, ∀ r' ∈ st'.store.items.rows, r'.id = r.id → ¬r.Agrees r' →
        st.store.sequence < r'.version :=
  ⟨by decide +kernel, by decide +kernel,
    (changes_take_fresh_versions (reachable_after 0 _) _ _ _).2.2.1⟩

end FirewallLists
