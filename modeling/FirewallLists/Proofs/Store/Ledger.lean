import FirewallLists.Proofs.Store.Change
import FirewallLists.Proofs.Store.Commit

/-
  Why rows are written. An `Entry` is the change that tells of a row together with the cause of
  it, and a `Ledger` leads from one store to another by such entries. In tables in the order of
  their ids every transaction keeps one (`Written.entries`, `retireAll_ledger`). An entry adds a
  row, puts one in the place of a live one, or switches a live one off; so how many rows there are
  and how many of them are live can be read off the causes (`Ledger.length_rows`,
  `Ledger.liveCount`). Of entries that only switch off the changes are those of the rows that have
  gone from live to off (`Ledger.mem_iff_off`).
-/

namespace FirewallLists

/-! ## Causes -/

/-- Why a row of an item is written: a caller has asked for it, or the item is an orphan. -/
inductive Cause where
  | asked (kind : WriteKind)
  | orphaned
  deriving DecidableEq, Repr

namespace Cause

/-- What rows that are written for this cause are counted as. -/
def sample : Cause → Sample
  | asked kind => .itemsWritten kind
  | orphaned => .orphansDisabled

/-- The row is switched off. -/
def switchesOff : Cause → Bool
  | asked .create | asked .update => false
  | asked .replace | asked .delete | orphaned => true

theorem sample_inj {c c' : Cause} : c.sample = c'.sample ↔ c = c' := by
  cases c <;> cases c' <;> simp [sample]

end Cause

/-- A row has been written, for this cause and told of by this change. -/
structure Entry where
  cause : Cause
  change : Change
  deriving DecidableEq, Repr

/-- How many rows have been written for a cause. -/
def tally (cause : Cause) (entries : List Entry) : Nat :=
  (entries.map (·.cause)).count cause

section

variable {cause : Cause} {entries more : List Entry}

@[simp]
theorem tally_nil : tally cause [] = 0 := rfl

theorem tally_cons (e : Entry) :
    tally cause (e :: entries) = tally cause entries + if e.cause = cause then 1 else 0 := by
  simp [tally, List.count_cons]

@[simp]
theorem tally_append : tally cause (entries ++ more) = tally cause entries + tally cause more := by
  simp [tally]

theorem tally_of_cause {c : Cause} (h : ∀ e ∈ entries, e.cause = c) :
    tally cause entries = if c = cause then entries.length else 0 := by
  have hcauses : entries.map (·.cause) = List.replicate entries.length c :=
    List.eq_replicate_iff.mpr ⟨List.length_map _, by simpa using h⟩
  rw [tally, hcauses, List.count_replicate]
  simp

/-- Every row is written for one cause. -/
theorem sum_tally (entries : List Entry) :
    tally (.asked .create) entries + tally (.asked .update) entries +
      tally (.asked .replace) entries + tally (.asked .delete) entries + tally .orphaned entries =
        entries.length := by
  induction entries with
  | nil => rfl
  | cons e entries ih =>
    simp only [tally_cons, List.length_cons]
    rcases e with ⟨kind | _, change⟩
    · cases kind <;> simp <;> omega
    · simp
      omega

theorem countP_switchesOff (entries : List Entry) :
    entries.countP (·.cause.switchesOff) = tally (.asked .replace) entries +
      tally (.asked .delete) entries + tally .orphaned entries := by
  induction entries with
  | nil => rfl
  | cons e entries ih =>
    simp only [tally_cons, List.countP_cons, ih]
    rcases e with ⟨kind | _, change⟩
    · cases kind <;> simp [Cause.switchesOff] <;> omega
    · simp [Cause.switchesOff]
      omega

end

/-! ## Counting rows -/

namespace Table

variable {α : Type} [Identified α] {t : Table α} {r row : α}

/-- The row that is put in the place of another one takes its place in the order. -/
theorem exists_rows_replace (ht : t.Ordered) (hr : r ∈ t.rows)
    (hid : Identified.id r = Identified.id row) :
    ∃ before after, t.rows = before ++ r :: after ∧
      (t.replace row).rows = before ++ row :: after := by
  obtain ⟨before, after, hrows⟩ := List.append_of_mem hr
  refine ⟨before, after, hrows, ?_⟩
  have hnodup := ht.nodup_ids
  rw [hrows, List.map_append, List.map_cons] at hnodup
  have hothers : ∀ s ∈ before ++ after, Identified.id s ≠ Identified.id row := by
    intro s hs heq
    have hcons := (List.perm_middle.nodup_iff).mp hnodup
    rw [List.nodup_cons, ← List.map_append] at hcons
    exact hcons.1 (hid ▸ heq ▸ List.mem_map_of_mem hs)
  have hsame : ∀ {part : List α}, (∀ s ∈ part, s ∈ before ++ after) →
      part.map (fun s => if Identified.id s = Identified.id row then row else s) = part :=
    fun hpart => (List.map_congr_left fun s hs => if_neg (hothers s (hpart s hs))).trans
      (List.map_id' _)
  show t.rows.map _ = _
  rw [hrows, List.map_append, List.map_cons, if_pos hid,
    hsame fun s hs => List.mem_append_left after hs,
    hsame fun s hs => List.mem_append_right before hs]

theorem length_replace (t : Table α) (row : α) : (t.replace row).rows.length = t.rows.length :=
  List.length_map _

/-- Only the row that goes and the one that comes make a difference. -/
theorem countP_replace (ht : t.Ordered) (hr : r ∈ t.rows) (row : α)
    (hid : Identified.id r = Identified.id row) (p : α → Bool) :
    (t.replace row).rows.countP p + (if p r then 1 else 0) =
      t.rows.countP p + if p row then 1 else 0 := by
  obtain ⟨before, after, hrows, hreplaced⟩ := exists_rows_replace ht hr hid
  rw [hrows, hreplaced, List.countP_append, List.countP_append, List.countP_cons, List.countP_cons]
  omega

end Table

namespace Store

variable {s s₁ s' : Store} {e : Entry} {entries more : List Entry}

/-- How many items are switched on. -/
def liveCount (s : Store) : Nat :=
  s.items.rows.countP (·.isLive)

/-- But for whether they have been read, the rows are the same. -/
theorem Quiet.map_rows (h : Quiet s s') (hs : s.Ordered) (hs' : s'.Ordered) :
    s'.items.rows.map (fun r => { r with isRead := 0 }) =
      s.items.rows.map fun r => { r with isRead := 0 } := by
  have hascending : ∀ {s : Store}, s.Ordered →
      (s.items.rows.map fun r => { r with isRead := 0 }).Pairwise fun r q => r.id < q.id :=
    fun hs => List.pairwise_map.mpr hs.items.ascending
  refine eq_of_ascending ItemRow.id (hascending hs') (hascending hs) fun row => ?_
  rw [List.mem_map, List.mem_map]
  constructor
  · rintro ⟨r', hr', rfl⟩
    obtain ⟨r, hr, _, rfl⟩ := h.known r' hr'
    exact ⟨r, hr, rfl⟩
  · rintro ⟨r, hr, rfl⟩
    obtain ⟨_, hr', _, rfl⟩ := h.kept r hr
    exact ⟨_, hr', rfl⟩

theorem Quiet.length_rows (h : Quiet s s') (hs : s.Ordered) (hs' : s'.Ordered) :
    s'.items.rows.length = s.items.rows.length := by
  have hlength := congrArg List.length (h.map_rows hs hs')
  rwa [List.length_map, List.length_map] at hlength

theorem Quiet.liveCount (h : Quiet s s') (hs : s.Ordered) (hs' : s'.Ordered) :
    s'.liveCount = s.liveCount := by
  have hcount := congrArg (List.countP (·.isLive)) (h.map_rows hs hs')
  rwa [List.countP_map, List.countP_map] at hcount

/-! ## Entries -/

/-- One row is written: a new one, or one in the place of a live one. -/
inductive Enters (s : Store) : Entry → Store → Prop where
  | add {row : ItemRow} (new : row.id = s.items.lastId + 1) (version : row.version = s.next)
      (live : row.isLive) : Enters s ⟨.asked .create, row.change⟩ (s.append row)
  | revise {row : ItemRow} (item : NewItem) (mem : row ∈ s.items.rows) (live : row.isLive) :
      Enters s ⟨.asked .update, (row.revise item s.next).change⟩
        (s.renew (row.revise item s.next))
  | retire {row : ItemRow} {cause : Cause} (off : cause.switchesOff) (mem : row ∈ s.items.rows)
      (live : row.isLive) :
      Enters s ⟨cause, (row.retire s.next).change⟩ (s.renew (row.retire s.next))

/-- Rows are written one after the other. -/
inductive Ledger : Store → List Entry → Store → Prop where
  | nil (s : Store) : Ledger s [] s
  | cons {s s₁ s' : Store} {e : Entry} {entries : List Entry} (first : Enters s e s₁)
      (rest : Ledger s₁ entries s') : Ledger s (e :: entries) s'

namespace Enters

theorem ordered (hs : s.Ordered) (h : Enters s e s') : s'.Ordered := by
  cases h with
  | add new _ _ => exact ⟨hs.items.insert new, hs.lists⟩
  | revise => exact ⟨hs.items.replace _, hs.lists⟩
  | retire => exact ⟨hs.items.replace _, hs.lists⟩

theorem length_rows (hs : s.Ordered) (h : Enters s e s') :
    s'.items.rows.length = s.items.rows.length + tally (.asked .create) [e] := by
  cases h with
  | add new _ _ =>
    show (s.items.insert _).rows.length = _
    rw [Table.rows_insert hs.items new, List.length_append]
    rfl
  | revise => exact Table.length_replace _ _
  | @retire row cause off _ _ =>
    have hcause : cause ≠ .asked .create := by
      rintro rfl
      cases off
    rw [tally_cons, if_neg hcause]
    exact Table.length_replace _ _

theorem liveCount (hs : s.Ordered) (h : Enters s e s') :
    s'.liveCount + (if e.cause.switchesOff then 1 else 0) =
      s.liveCount + tally (.asked .create) [e] := by
  cases h with
  | @add row new _ live =>
    show (s.items.insert row).rows.countP (·.isLive) + 0 = _
    rw [Table.rows_insert hs.items new, List.countP_append, List.countP_singleton, if_pos live]
    rfl
  | @revise row item mem live =>
    have hlive : (row.revise item s.next).isLive := live
    have hcount := Table.countP_replace hs.items mem (row.revise item s.next) rfl (·.isLive)
    rw [if_pos live, if_pos hlive] at hcount
    exact Nat.add_right_cancel hcount
  | @retire row cause off mem live =>
    have hcause : cause ≠ .asked .create := by
      rintro rfl
      cases off
    have hcount := Table.countP_replace hs.items mem (row.retire s.next) rfl (·.isLive)
    rw [if_pos live, row.isLive_retire, if_neg Bool.false_ne_true] at hcount
    rw [if_pos off, tally_cons, if_neg hcause]
    exact hcount

end Enters

namespace Ledger

theorem append (h : Ledger s entries s₁) (h' : Ledger s₁ more s') :
    Ledger s (entries ++ more) s' := by
  induction h with
  | nil _ => exact h'
  | cons first _ ih => exact .cons first (ih h')

theorem single (h : Enters s e s') : Ledger s [e] s' :=
  .cons h (.nil s')

theorem ordered (hs : s.Ordered) (h : Ledger s entries s') : s'.Ordered := by
  induction h with
  | nil _ => exact hs
  | cons first _ ih => exact ih (first.ordered hs)

/-- Every row has been created once. -/
theorem length_rows (hs : s.Ordered) (h : Ledger s entries s') :
    s'.items.rows.length = s.items.rows.length + tally (.asked .create) entries := by
  induction h with
  | nil _ => rfl
  | cons first _ ih =>
    have hfirst := first.length_rows hs
    have hrest := ih (first.ordered hs)
    rw [tally_cons, tally_nil] at hfirst
    rw [tally_cons]
    omega

/-- Every live row has been created and not been switched off. -/
theorem liveCount (hs : s.Ordered) (h : Ledger s entries s') :
    s'.liveCount + entries.countP (·.cause.switchesOff) =
      s.liveCount + tally (.asked .create) entries := by
  induction h with
  | nil _ => rfl
  | cons first _ ih =>
    have hfirst := first.liveCount hs
    have hrest := ih (first.ordered hs)
    rw [tally_cons, tally_nil] at hfirst
    rw [tally_cons, List.countP_cons]
    omega

section

variable (hs : s.Ordered) (h : Ledger s entries s') (hoff : ∀ e ∈ entries, e.cause.switchesOff)

include hs h hoff

/-- Switching off leaves rows that are off as they are. -/
theorem mem_of_off {r : ItemRow} (hr : r ∈ s.items.rows) (hrow : r.isLive = false) :
    r ∈ s'.items.rows := by
  induction h with
  | nil _ => exact hr
  | cons first _ ih =>
    refine ih (first.ordered hs) (fun e he => hoff e (List.mem_cons_of_mem _ he)) ?_
    have hfirst := hoff _ List.mem_cons_self
    cases first with
    | add | revise => cases hfirst
    | retire _ mem live =>
      refine ((touches_retire hs mem).mem_iff r).mpr (Or.inr ⟨hr, fun hid => ?_⟩)
      rw [hs.items.eq_of_id hr mem hid, live] at hrow
      cases hrow

/-- The changes are those of the rows that were live before and are off afterwards. -/
theorem mem_iff_off (c : Change) :
    c ∈ entries.map (·.change) ↔ ∃ r ∈ s.items.rows, ∃ q ∈ s'.items.rows,
      q.id = r.id ∧ r.isLive ∧ q.isLive = false ∧ q.change = c := by
  induction h with
  | nil s =>
    refine iff_of_false List.not_mem_nil ?_
    rintro ⟨r, hr, q, hq, hid, hlive, hdead, -⟩
    rw [hs.items.eq_of_id hq hr hid, hlive] at hdead
    cases hdead
  | @cons s s₁ s' e entries first rest ih =>
    have hrest : ∀ e ∈ entries, e.cause.switchesOff :=
      fun e he => hoff e (List.mem_cons_of_mem _ he)
    have hs₁ := first.ordered hs
    have hs' := rest.ordered hs₁
    rw [List.map_cons, List.mem_cons, ih hs₁ hrest]
    have hfirst := hoff _ List.mem_cons_self
    cases first with
    | add | revise => cases hfirst
    | @retire row cause _ mem live =>
      have htouches := touches_retire hs mem
      have hstays : row.retire s.next ∈ s'.items.rows :=
        rest.mem_of_off hs₁ hrest htouches.mem rfl
      constructor
      · rintro (rfl | ⟨r, hr, q, hq, hid, hlive, hrow⟩)
        · exact ⟨row, mem, _, hstays, rfl, live, rfl, rfl⟩
        · refine ⟨r, ?_, q, hq, hid, hlive, hrow⟩
          rcases (htouches.mem_iff r).mp hr with rfl | ⟨hr, -⟩
          · cases hlive
          · exact hr
      · rintro ⟨r, hr, q, hq, hid, hlive, hdead, rfl⟩
        by_cases hsame : r.id = row.id
        · left
          rw [hs'.items.eq_of_id hq hstays (hid.trans hsame)]
        · exact Or.inr ⟨r, (htouches.mem_iff r).mpr (Or.inr ⟨hr, hsame⟩), q, hq, hid, hlive, hdead,
            rfl⟩

end

end Ledger

end Store

/-! ## What transactions enter -/

namespace Store

/-- The entry of an item that is switched off for a cause. -/
def Retired.entry (cause : Cause) (retired : Retired) : Entry :=
  ⟨cause, retired.change⟩

@[simp]
theorem map_change_entry (cause : Cause) (all : List Retired) :
    (all.map (·.entry cause)).map (·.change) = all.map (·.change) :=
  List.map_map

theorem cause_of_mem_entry {cause : Cause} {all : List Retired} {e : Entry}
    (h : e ∈ all.map (·.entry cause)) :
    e.cause = cause := by
  obtain ⟨retired, -, rfl⟩ := List.mem_map.mp h
  rfl

@[simp]
theorem tally_entry (cause c : Cause) (all : List Retired) :
    tally cause (all.map (·.entry c)) = if c = cause then all.length else 0 := by
  rw [tally_of_cause fun _ => cause_of_mem_entry, List.length_map]

/-- The entries of a write: those of what made room for the item, and then its own. -/
def Written.entries (written : Written) (kind : WriteKind) (listId : Int) : List Entry :=
  written.replaced.map (·.entry (.asked .replace)) ++
    [⟨.asked kind, ⟨written.itemId, listId, written.version⟩⟩]

@[simp]
theorem map_change_entries (written : Written) (kind : WriteKind) (listId : Int) :
    (written.entries kind listId).map (·.change) = written.changes listId := by
  rw [Written.entries, List.map_append, map_change_entry]
  rfl

variable {s s' : Store} {now : Int} {item : NewItem}

theorem retireAll_ledger {cause : Cause} (off : cause.switchesOff) {rows : List ItemRow}
    {all : List Retired} (hrows : ∀ r ∈ rows, r ∈ s.items.rows ∧ r.isLive)
    (hids : (rows.map (·.id)).Nodup) (h : retireAll rows s = .ok (all, s')) :
    Ledger s (all.map (·.entry cause)) s' := by
  induction rows generalizing s all with
  | nil => cases h; exact .nil _
  | cons row rows ih =>
    rw [List.map_cons, List.nodup_cons] at hids
    obtain ⟨retired, more, s₁, hfirst, hrest, rfl⟩ := retireAll_cons_eq_ok h
    obtain ⟨-, rfl, rfl⟩ := retire_eq_ok hfirst
    obtain ⟨hmem, hlive⟩ := hrows row List.mem_cons_self
    refine .cons (.retire off hmem hlive) (ih (fun r hr => ?_) hids.2 hrest)
    -- the others have other ids, so they are still there
    obtain ⟨hr', hlive'⟩ := hrows r (List.mem_cons_of_mem _ hr)
    have hne : r.id ≠ row.id := fun heq => hids.1 (heq ▸ List.mem_map_of_mem hr)
    exact ⟨Table.mem_replace_of_ne hr' hne, hlive'⟩

theorem retireOverlapping_ledger (hs : s.Ordered) {exclude : Int} {all : List Retired}
    (h : retireAll (s.overlapping item exclude) s = .ok (all, s')) :
    Ledger s (all.map (·.entry (.asked .replace))) s' := by
  refine retireAll_ledger rfl (fun r hr => ?_) (nodup_ids_filter hs.items _) h
  obtain ⟨hmem, -, hlive, -⟩ := mem_overlapping.mp hr
  exact ⟨hmem, hlive⟩

theorem createItem_ledger (hs : s.Ordered) {isRead : Bool} {written : Written}
    (h : s.createItem item isRead now = .ok (written, s')) :
    Ledger s (written.entries .create item.listId) s' := by
  obtain ⟨s₁, hretire, -, hid, hversion, rfl⟩ := createItem_eq_ok h
  refine (retireOverlapping_ledger hs hretire).append ?_
  rw [hid, hversion]
  have hadd : Enters s₁ ⟨.asked .create,
      (ItemRow.ofNew item isRead now s₁.next (s₁.items.lastId + 1)).change⟩ _ := .add rfl rfl rfl
  exact .single hadd

theorem updateItem_ledger (hs : s.Ordered) {id listId : Int} {written : Written}
    (hlist : s.itemListId? id = some listId)
    (h : s.updateItem id item = .ok (some written, s')) :
    Ledger s (written.entries .update listId) s' := by
  obtain ⟨row, s₁, hrow, hretire, -, hid, hversion, rfl⟩ := updateItem_eq_ok h
  obtain ⟨hfind, hmem, rfl, hlive⟩ := liveItem?_eq_some hrow
  refine (retireOverlapping_ledger hs hretire).append ?_
  have hlist' : row.listId = listId := by simpa [itemListId?, hfind] using hlist
  have hstay : row ∈ s₁.items.rows := by
    rw [retireAll_overlapping_eq_ok hs hretire]
    exact mem_afterRetiring_overlapping item hmem
  rw [hid, hversion, ← hlist']
  exact .single (.revise item hstay hlive)

theorem disableItem_ledger {cause : Cause} (off : cause.switchesOff) {id : Int}
    {retired : Retired} (h : s.disableItem id = .ok (some retired, s')) :
    Ledger s [retired.entry cause] s' := by
  obtain ⟨row, hrow, -, rfl, rfl⟩ := disableItem_eq_ok h
  obtain ⟨-, hmem, -, hlive⟩ := liveItem?_eq_some hrow
  exact .single (.retire off hmem hlive)

theorem disableMatching_ledger (hs : s.Ordered) {scope : Scope} {range : Net.Range}
    {all : List Retired} (hfound : all ≠ [])
    (h : s.disableMatching scope range = .ok (all, s')) :
    Ledger s (all.map (·.entry (.asked .delete))) s' := by
  refine retireAll_ledger rfl (fun r hr => ?_) (nodup_ids_filter hs.items _)
    (disableMatching_eq_ok hfound h)
  obtain ⟨hmem, hmatch⟩ := List.mem_filter.mp hr
  simp only [Bool.and_eq_true] at hmatch
  exact ⟨hmem, hmatch.1.1.1⟩

end Store

end FirewallLists
