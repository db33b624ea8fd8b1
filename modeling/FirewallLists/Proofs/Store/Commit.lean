import FirewallLists.Proofs.Store.Edit
import FirewallLists.Service.State

/-
  What a chain of writes has committed. Each row that is written takes the next version and is told
  of by a `Change`; `Commits` lists these changes in the order in which they were made. How many
  there are and which version comes last can be read off the tables before and after
  (`Commits.sequence`, `Commits.row_of_last`), so every way of telling the story of two states
  agrees on both. Nothing is asked of the tables: their rows may have been written by anybody.
-/

namespace FirewallLists

/-- The change that a row tells of. -/
def ItemRow.change (r : ItemRow) : Change :=
  ⟨r.id, r.listId, r.version⟩

namespace Table

variable {α : Type} [Identified α] {t : Table α}

theorem mem_place {r s : α} {rows : List α} : s ∈ place r rows ↔ s = r ∨ s ∈ rows := by
  induction rows with
  | nil => simp [place]
  | cons q rows ih =>
    rw [place]
    split
    · simp
    · simp [ih, or_left_comm]

/-- A row with this id is in the table. -/
def Has (t : Table α) (id : Int) : Prop :=
  ∃ r ∈ t.rows, Identified.id r = id

theorem Has.replace {id : Int} (h : t.Has id) (r : α) : (t.replace r).Has id := by
  obtain ⟨s, hs, rfl⟩ := h
  by_cases hid : Identified.id s = Identified.id r
  · exact ⟨r, self_mem_replace hs hid, hid.symm⟩
  · exact ⟨s, mem_replace_of_ne hs hid, rfl⟩

theorem Has.insert {id : Int} (h : t.Has id) (r : α) : (t.insert r).Has id := by
  obtain ⟨s, hs, hid⟩ := h
  exact ⟨s, mem_place.mpr (Or.inr hs), hid⟩

end Table

namespace Store

variable {s s₁ s' : Store}

/-! ## Changes in order -/

/-- One row with the next version has been written, in the place of one with its id or as a new
one. -/
inductive Puts (s : Store) (row : ItemRow) : Store → Prop where
  | renew (known : s.items.Has row.id) (version : row.version = s.next) : Puts s row (s.renew row)
  | append (version : row.version = s.next) : Puts s row (s.append row)

/-- Rows have been written one after the other, and these changes tell of them. -/
inductive Commits : Store → List Change → Store → Prop where
  | nil (s : Store) : Commits s [] s
  | cons {s s₁ s' : Store} {row : ItemRow} {changes : List Change} (first : Puts s row s₁)
      (rest : Commits s₁ changes s') : Commits s (row.change :: changes) s'

theorem Puts.sequence {row : ItemRow} (h : Puts s row s') :
    s'.sequence = s.sequence + 1 ∧ row.version = s'.sequence := by
  cases h with
  | renew _ version => exact ⟨rfl, version⟩
  | append version => exact ⟨rfl, version⟩

theorem Puts.mem {row : ItemRow} (h : Puts s row s') : row ∈ s'.items.rows := by
  cases h with
  | renew known _ =>
    obtain ⟨r, hr, hid⟩ := known
    exact Table.self_mem_replace hr hid
  | append _ => exact Table.mem_place.mpr (Or.inl rfl)

theorem Puts.has {row : ItemRow} {id : Int} (h : Puts s row s') (hid : s.items.Has id) :
    s'.items.Has id := by
  cases h with
  | renew _ _ => exact hid.replace row
  | append _ => exact hid.insert row

theorem Puts.commits {row : ItemRow} (h : Puts s row s') : Commits s [row.change] s' :=
  .cons h (.nil s')

namespace Commits

variable {changes more : List Change}

theorem append (h : Commits s changes s₁) (h' : Commits s₁ more s') :
    Commits s (changes ++ more) s' := by
  induction h with
  | nil _ => exact h'
  | cons first _ ih => exact .cons first (ih h')

/-- Every change has taken one version. -/
theorem sequence (h : Commits s changes s') : s'.sequence = s.sequence + changes.length := by
  induction h with
  | nil s => simp
  | cons first _ ih =>
    have hfirst := first.sequence.1
    rw [List.length_cons]
    omega

/-- The versions are those given out since then. -/
theorem versions (h : Commits s changes s') {change : Change} (hchange : change ∈ changes) :
    s.sequence < change.version ∧ change.version ≤ s'.sequence := by
  induction h with
  | nil _ => cases hchange
  | @cons s s₁ s' row changes first rest ih =>
    obtain ⟨hnext, hversion⟩ := first.sequence
    rcases List.mem_cons.mp hchange with rfl | hchange
    · have hrest := rest.sequence
      have hrow : row.change.version = row.version := rfl
      omega
    · have hrest := ih hchange
      omega

theorem ascending (h : Commits s changes s') :
    changes.Pairwise fun c d => c.version < d.version := by
  induction h with
  | nil _ => exact .nil
  | @cons s s₁ s' row changes first rest ih =>
    refine .cons (fun d hd => ?_) ih
    have hfirst : row.change.version = s₁.sequence := first.sequence.2
    rw [hfirst]
    exact (rest.versions hd).1

theorem nil_iff (h : Commits s changes s') : changes = [] ↔ s'.sequence = s.sequence := by
  rw [h.sequence, ← List.length_eq_zero_iff]
  omega

theorem eq_of_nil (h : Commits s [] s') : s' = s := by
  cases h
  rfl

theorem has {id : Int} (h : Commits s changes s') (hid : s.items.Has id) : s'.items.Has id := by
  induction h with
  | nil _ => exact hid
  | cons first _ ih => exact ih (first.has hid)

/-- The last change is that of a row, and has the last version. -/
theorem row_of_last (h : Commits s changes s') {last : Change} (hlast : last ∈ changes.getLast?) :
    last.version = s'.sequence ∧ ∃ row ∈ s'.items.rows, row.change = last := by
  induction h with
  | nil _ => cases hlast
  | @cons s s₁ s' row changes first rest ih =>
    cases changes with
    | nil =>
      cases hlast
      rw [rest.eq_of_nil]
      exact ⟨first.sequence.2, row, first.mem, rfl⟩
    | cons change changes => exact ih (by rwa [List.getLast?_cons_cons] at hlast)

end Commits

/-! ## What transactions commit -/

theorem retire_puts {row : ItemRow} {retired : Retired} (hrow : s.items.Has row.id)
    (h : s.retire row = .ok (retired, s')) :
    Puts s (row.retire s.next) s' ∧ retired.change = (row.retire s.next).change := by
  obtain ⟨-, rfl, rfl⟩ := retire_eq_ok h
  exact ⟨.renew hrow rfl, rfl⟩

theorem retireAll_commits {rows : List ItemRow} {all : List Retired}
    (hrows : ∀ r ∈ rows, s.items.Has r.id) (h : retireAll rows s = .ok (all, s')) :
    Commits s (all.map (·.change)) s' := by
  induction rows generalizing s all with
  | nil => cases h; exact .nil _
  | cons row rows ih =>
    obtain ⟨retired, more, s₁, hfirst, hrest, rfl⟩ := retireAll_cons_eq_ok h
    obtain ⟨hputs, hchange⟩ := retire_puts (hrows row List.mem_cons_self) hfirst
    rw [List.map_cons, hchange]
    exact .cons hputs (ih (fun r hr => hputs.has (hrows r (List.mem_cons_of_mem _ hr))) hrest)

theorem retireOverlapping_commits {item : NewItem} {exclude : Int} {all : List Retired}
    (h : retireAll (s.overlapping item exclude) s = .ok (all, s')) :
    Commits s (all.map (·.change)) s' :=
  retireAll_commits (fun r hr => ⟨r, (mem_overlapping.mp hr).1, rfl⟩) h

/-- The changes of a write: those of what made room for the item, and then its own. -/
def Written.changes (written : Written) (listId : Int) : List Change :=
  written.replaced.map (·.change) ++ [⟨written.itemId, listId, written.version⟩]

theorem createItem_commits {item : NewItem} {isRead : Bool} {now : Int} {written : Written}
    (h : s.createItem item isRead now = .ok (written, s')) :
    Commits s (written.changes item.listId) s' := by
  obtain ⟨s₁, hretire, -, hid, hversion, rfl⟩ := createItem_eq_ok h
  refine (retireOverlapping_commits hretire).append ?_
  have hputs : Puts s₁ (.ofNew item isRead now s₁.next (s₁.items.lastId + 1)) _ := .append rfl
  rw [hid, hversion]
  exact hputs.commits

theorem updateItem_commits {item : NewItem} {id listId : Int} {written : Written}
    (hlist : s.itemListId? id = some listId)
    (h : s.updateItem id item = .ok (some written, s')) :
    Commits s (written.changes listId) s' := by
  obtain ⟨row, s₁, hrow, hretire, -, hid, hversion, rfl⟩ := updateItem_eq_ok h
  obtain ⟨hfind, hmem, rfl, -⟩ := liveItem?_eq_some hrow
  have hretired := retireOverlapping_commits hretire
  have hlist' : row.listId = listId := by simpa [itemListId?, hfind] using hlist
  refine hretired.append ?_
  have hputs : Puts s₁ (row.revise item s₁.next) _ :=
    .renew (hretired.has ⟨row, hmem, rfl⟩) rfl
  rw [hid, hversion, ← hlist']
  exact hputs.commits

theorem disableItem_commits {id : Int} {retired : Retired}
    (h : s.disableItem id = .ok (some retired, s')) : Commits s [retired.change] s' := by
  obtain ⟨row, hrow, -, rfl, rfl⟩ := disableItem_eq_ok h
  obtain ⟨-, hmem, -, -⟩ := liveItem?_eq_some hrow
  have hputs : Puts s (row.retire s.next) _ := .renew ⟨row, hmem, rfl⟩ rfl
  exact hputs.commits

theorem disableMatching_commits {scope : Scope} {range : Net.Range} {all : List Retired}
    (hfound : all ≠ []) (h : s.disableMatching scope range = .ok (all, s')) :
    Commits s (all.map (·.change)) s' :=
  retireAll_commits (fun r hr => ⟨r, List.mem_of_mem_filter hr, rfl⟩)
    (disableMatching_eq_ok hfound h)

end Store

end FirewallLists
