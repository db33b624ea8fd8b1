import FirewallLists.Proofs.Service.Run
import FirewallLists.Proofs.Store.Change

/-
  The life of a row. A row is added once and never taken away. While it is switched on it may be
  revised, but what tells it from others and where it came from stay as they were, and once read it
  stays read. When it is switched off its life is over: nothing of it changes any more
  (`retired_rows_final`). An edit may only touch a row that is live, so each of these is kept by
  every edit (`Edit.lasts`), and by runs because they compose.
-/

namespace FirewallLists

open Relation

/-! ## One row at two times -/

/-- The second row is what has become of the first. -/
structure ItemRow.Becomes (r q : ItemRow) : Prop where
  id : q.id = r.id
  listId : q.listId = r.listId
  nodeId : q.nodeId = r.nodeId
  serverId : q.serverId = r.serverId
  source : q.source = r.source
  createdAt : q.createdAt = r.createdAt
  isRead : q.isRead = r.isRead ∨ (r.isRead = 0 ∧ q.isRead = 1)
  final : r.isLive = false → q = r

namespace ItemRow.Becomes

variable {r q p : ItemRow}

theorem refl (r : ItemRow) : r.Becomes r :=
  ⟨rfl, rfl, rfl, rfl, rfl, rfl, Or.inl rfl, fun _ => rfl⟩

theorem trans (h : r.Becomes q) (h' : q.Becomes p) : r.Becomes p where
  id := h'.id.trans h.id
  listId := h'.listId.trans h.listId
  nodeId := h'.nodeId.trans h.nodeId
  serverId := h'.serverId.trans h.serverId
  source := h'.source.trans h.source
  createdAt := h'.createdAt.trans h.createdAt
  isRead := by
    have hfirst := h.isRead
    have hsecond := h'.isRead
    omega
  final := by
    intro hoff
    have hq := h.final hoff
    subst hq
    exact h'.final hoff

theorem retire (hlive : r.isLive) (version : Int) : r.Becomes (r.retire version) :=
  ⟨rfl, rfl, rfl, rfl, rfl, rfl, Or.inl rfl, fun hoff => by rw [hlive] at hoff; cases hoff⟩

theorem revise (hlive : r.isLive) (item : NewItem) (version : Int) :
    r.Becomes (r.revise item version) :=
  ⟨rfl, rfl, rfl, rfl, rfl, rfl, Or.inl rfl, fun hoff => by rw [hlive] at hoff; cases hoff⟩

end ItemRow.Becomes

/-! ## All rows at two times -/

namespace Store

variable {s s' : Store} {now : Int} {row : ItemRow}

/-- Every row is still there, as what has become of it. -/
def Lasts (s s' : Store) : Prop :=
  ∀ r ∈ s.items.rows, ∃ q ∈ s'.items.rows, r.Becomes q

instance : Std.Refl Lasts where
  refl _ := fun r hr => ⟨r, hr, .refl r⟩

instance : IsTrans Store Lasts where
  trans s s₁ s₂ h h' := by
    intro r hr
    obtain ⟨q, hq, hrq⟩ := h r hr
    obtain ⟨p, hp, hqp⟩ := h' q hq
    exact ⟨p, hp, hrq.trans hqp⟩

/-- Only what was in the place of the row that is touched has to become that row. -/
theorem Touches.lasts (h : Touches row s s')
    (hrow : ∀ r ∈ s.items.rows, r.id = row.id → r.Becomes row) : Lasts s s' := by
  intro r hr
  by_cases hid : r.id = row.id
  · exact ⟨row, h.mem, hrow r hr hid⟩
  · exact ⟨r, (h.mem_iff r).mpr (Or.inr ⟨hr, hid⟩), .refl r⟩

theorem lasts_markRead (s : Store) (scope : Scope) : Lasts s (s.markRead scope).2 := by
  intro r hr
  refine ⟨_, Table.mem_update.mpr ⟨r, hr, rfl⟩, ?_⟩
  split
  · next hunread =>
    simp only [isUnreadIn, Bool.and_eq_true, beq_iff_eq] at hunread
    refine ⟨rfl, rfl, rfl, rfl, rfl, rfl, Or.inr ⟨hunread.1.2, rfl⟩, fun hoff => ?_⟩
    rw [hunread.1.1] at hoff
    cases hoff
  · exact .refl r

/-- An edit touches live rows only, and of those it leaves alone what makes them the same row. -/
theorem Edit.lasts (hs : s.Ordered) (h : Edit now s s') : Lasts s s' := by
  cases h with
  | @retire row mem live =>
    refine (touches_retire hs mem).lasts fun r hr hid => ?_
    rw [hs.items.eq_of_id hr mem hid]
    exact .retire live _
  | @revise row _ item mem live =>
    refine (touches_revise hs mem item).lasts fun r hr hid => ?_
    rw [hs.items.eq_of_id hr mem hid]
    exact .revise live item _
  | add => exact (touches_add hs _ _ _).lasts fun r hr hid => absurd hid (hs.id_ne_next hr)
  | markRead scope => exact lasts_markRead s scope
  | lists write =>
    intro r hr
    exact ⟨r, by rw [write.items.1]; exact hr, .refl r⟩

end Store

/-! ## Runs -/

/-- Whatever happens after a reachable state, each of its rows is still the one row with its id. Its
list, its node, its server, what caused it and when it was made are as they were, and it has been
read if it was. A row that was off is as it was in every column. -/
theorem retired_rows_final {st st' : State} (h : Reachable st) (hrun : ReflTransGen Next st st') :
    ∀ r ∈ st.store.items.rows, ∃ q ∈ st'.store.items.rows,
      (∀ p ∈ st'.store.items.rows, p.id = r.id → p = q) ∧
      q.id = r.id ∧ q.listId = r.listId ∧ q.nodeId = r.nodeId ∧ q.serverId = r.serverId ∧
      q.source = r.source ∧ q.createdAt = r.createdAt ∧
      (q.isRead = r.isRead ∨ (r.isRead = 0 ∧ q.isRead = 1)) ∧
      (r.isLive = false → q = r) := by
  intro r hr
  have hlasts : Store.Lasts st.store st'.store :=
    h.related Store.Edit.lasts (fun _ _ r hr => ⟨r, hr, .refl r⟩) hrun
  obtain ⟨q, hq, hbecomes⟩ := hlasts r hr
  refine ⟨q, hq, fun p hp hid => ?_, hbecomes.id, hbecomes.listId, hbecomes.nodeId,
    hbecomes.serverId, hbecomes.source, hbecomes.createdAt, hbecomes.isRead, hbecomes.final⟩
  exact (h.run hrun).ordered.items.eq_of_id hp hq (hid.trans hbecomes.id.symm)

/-- An item that a detector wrote is replaced by one with the same address. Then it is to be revised
and deleted again, once and twice over, and its successor is revised and read. -/
theorem retired_rows_final_of_replaced :
    let st := State.after { now := 0 } (adminCalls [.createList publicBlackList,
      .createItem { listId := 1, value := "10.0.0.1", nodeId := 7, source := { policyId := some 3 } },
      .createItem { listId := 1, value := "10.0.0.0/24", source := { serverId := some 4 } }])
    let events := adminCalls [.updateItem 1 { listId := 1, value := "10.0.0.2" },
      .deleteItem { itemId := 1 }, .deleteItems [1, 1],
      .updateItem 2 { listId := 1, value := "10.0.1.0/24" }, .markRead]
    st.store.items.rows.map (fun r => (r.id, r.value, r.isLive, r.isRead)) =
        [(1, "10.0.0.1", false, 0), (2, "10.0.0.0/24", true, 0)] ∧
      (st.after events).store.items.rows.map (fun r => (r.id, r.value, r.isLive, r.isRead)) =
        [(1, "10.0.0.1", false, 0), (2, "10.0.1.0/24", true, 1)] ∧
      ∀ r ∈ st.store.items.rows, ∃ q ∈ (st.after events).store.items.rows,
        (∀ p ∈ (st.after events).store.items.rows, p.id = r.id → p = q) ∧
        q.id = r.id ∧ q.listId = r.listId ∧ q.nodeId = r.nodeId ∧ q.serverId = r.serverId ∧
        q.source = r.source ∧ q.createdAt = r.createdAt ∧
        (q.isRead = r.isRead ∨ (r.isRead = 0 ∧ q.isRead = 1)) ∧
        (r.isLive = false → q = r) :=
  ⟨by decide +kernel, by decide +kernel,
    retired_rows_final (reachable_after 0 _) (run_after _ _)⟩

end FirewallLists
