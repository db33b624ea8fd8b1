import FirewallLists.Proofs.Store.Retire
import FirewallLists.Store.ItemQuery

/-
  What filters find: the rows that they accept, from the highest id down, and on the pages of what
  they find nothing else. A search fails when it takes too many values, or when its keyword is too
  long to look for and there is a row on which it is tried. Which rows these are depends on what is
  asked of the search, and so does the number of values; what it finds does not (`search_eq_ok`,
  `exists_search_iff`). A row that is found is always one of those, so a search that is answered
  though its keyword is too long finds nothing (`search_eq_nil`).
-/

namespace FirewallLists

theorem page_sublist {α : Type} (offset size : Int) (rows : List α) :
    (page offset size rows).Sublist rows := by
  unfold page
  dsimp only
  split
  · exact List.drop_sublist _ _
  · exact (List.take_sublist _ _).trans (List.drop_sublist _ _)

theorem mem_of_mem_page {α : Type} {offset size : Int} {rows : List α} {r : α}
    (h : r ∈ page offset size rows) : r ∈ rows :=
  (page_sublist offset size rows).mem h

/-- A page from before the start is the first one. -/
theorem page_of_nonpos {α : Type} {offset : Int} (h : offset ≤ 0) (size : Int) (rows : List α) :
    page offset size rows = page 0 size rows := by
  unfold page
  rw [Int.toNat_of_nonpos h]
  rfl

theorem length_page_le_size {α : Type} {size : Int} (h : 0 < size) (offset : Int)
    (rows : List α) : (page offset size rows).length ≤ size := by
  unfold page
  dsimp only
  rw [if_neg (by omega), List.length_take]
  omega

theorem length_page_le {α : Type} (offset size : Int) (rows : List α) :
    (page offset size rows).length ≤ rows.length :=
  (page_sublist offset size rows).length_le

namespace Store

variable {s : Store} {kind : SearchKind} {scope : Scope} {f : SearchFilter} {now : Int}
  {rows : List ItemRow}

/-- What is found are the rows in scope that are active and accepted, the last one first. -/
theorem search_eq_ok (h : s.search kind scope f now = .ok rows) :
    rows = (s.items.rows.filter fun r => f.accepts r (s.lists.find? r.listId) &&
      (r.isActive now && scope.admits r.listId)).reverse := by
  obtain ⟨_, -, h⟩ := bind_eq_ok.mp h
  dsimp only at h
  split at h
  · cases h
  · cases h
    rw [activeIn, List.filter_filter]

theorem mem_search (h : s.search kind scope f now = .ok rows) {r : ItemRow} :
    r ∈ rows ↔ r ∈ s.items.rows ∧ r.isActive now ∧ scope.admits r.listId ∧
      f.accepts r (s.lists.find? r.listId) := by
  simp only [search_eq_ok h, List.mem_reverse, List.mem_filter, Bool.and_eq_true]
  exact ⟨fun ⟨hr, haccepts, hactive, hscope⟩ => ⟨hr, hactive, hscope, haccepts⟩,
    fun ⟨hr, hactive, hscope, haccepts⟩ => ⟨hr, haccepts, hactive, hscope⟩⟩

/-- Rows are found from the highest id down. -/
theorem descending_ids (hs : s.items.Ordered) (p : ItemRow → Bool) :
    ((s.items.rows.filter p).reverse.map (·.id)).Pairwise (· > ·) := by
  rw [List.map_reverse, List.pairwise_reverse, List.pairwise_map]
  exact hs.ascending.sublist List.filter_sublist

theorem descending_search (hs : s.items.Ordered) (h : s.search kind scope f now = .ok rows) :
    (rows.map (·.id)).Pairwise (· > ·) :=
  search_eq_ok h ▸ descending_ids hs _

theorem nodup_ids_search (hs : s.items.Ordered) (h : s.search kind scope f now = .ok rows) :
    (rows.map (·.id)).Nodup :=
  (descending_search hs h).imp fun hlt => by omega

/-- No more rows are found than have a property of all that can be found. -/
theorem length_search_le_filter (h : s.search kind scope f now = .ok rows) {P : ItemRow → Bool}
    (hP : ∀ r, r.isActive now → scope.admits r.listId →
      f.accepts r (s.lists.find? r.listId) → P r) :
    rows.length ≤ (s.items.rows.filter P).length := by
  rw [search_eq_ok h, List.length_reverse, ← List.countP_eq_length_filter,
    ← List.countP_eq_length_filter]
  refine List.countP_mono_left fun r _ hr => ?_
  rw [Bool.and_eq_true, Bool.and_eq_true] at hr
  exact hP r hr.2.1 hr.2.2 hr.1

theorem length_search_le (h : s.search kind scope f now = .ok rows) :
    rows.length ≤
      (s.items.rows.filter fun r => r.isActive now && scope.admits r.listId).length :=
  length_search_le_filter h fun _ hactive hscope _ => Bool.and_eq_true_iff.mpr ⟨hactive, hscope⟩

/-! ## Searches that are answered -/

/-- The keyword of a filter is tried on this row. -/
def IsTried (s : Store) (kind : SearchKind) (scope : Scope) (f : SearchFilter) (now : Int)
    (r : ItemRow) : Prop :=
  r ∈ s.items.rows ∧ r.isActive now ∧ scope.admits r.listId ∧
    f.triesKeyword kind scope r (s.lists.find? r.listId)

/-- The search does not take too many values, and its keyword can be looked for or is tried on no
row. -/
structure CanSearch (s : Store) (kind : SearchKind) (scope : Scope) (f : SearchFilter)
    (now : Int) : Prop where
  values : f.values kind scope ≤ maxValues
  keyword : isEvaluable f.keyword ∨ ∀ r, ¬s.IsTried kind scope f now r

theorem exists_search_iff : (∃ rows, s.search kind scope f now = .ok rows) ↔
    s.CanSearch kind scope f now := by
  have htried : ((s.activeIn scope now).any fun r =>
      f.triesKeyword kind scope r (s.lists.find? r.listId)) = true ↔
        ∃ r, s.IsTried kind scope f now r := by
    simp only [List.any_eq_true, activeIn, List.mem_filter, Bool.and_eq_true, IsTried, and_assoc]
  constructor
  · rintro ⟨rows, h⟩
    obtain ⟨_, hvalues, h⟩ := bind_eq_ok.mp h
    refine ⟨le_of_checkValues hvalues, ?_⟩
    dsimp only at h
    split at h
    · cases h
    · next hnot =>
      rw [← not_exists, ← htried]
      cases hkeyword : isEvaluable f.keyword <;> simp_all
  · rintro ⟨hvalues, hkeyword⟩
    refine ⟨_, bind_eq_ok.mpr ⟨(), checkValues_of_le hvalues, if_neg ?_⟩⟩
    rw [← not_exists, ← htried] at hkeyword
    rcases hkeyword with hkeyword | hkeyword <;> simp [hkeyword]

/-- A search that is not answered takes too many values, or else its keyword is too long. -/
theorem search_eq_error (h : ¬s.CanSearch kind scope f now) : ∃ e,
    s.search kind scope f now = .error e ∧
      ((e = .tooManyValues ∧ ¬f.values kind scope ≤ maxValues) ∨
        (e = .patternTooLong ∧ f.values kind scope ≤ maxValues ∧ ¬isEvaluable f.keyword)) := by
  by_cases hvalues : f.values kind scope ≤ maxValues
  · have hlong : ¬isEvaluable f.keyword := fun hkeyword => h ⟨hvalues, Or.inl hkeyword⟩
    refine ⟨.patternTooLong, ?_, Or.inr ⟨rfl, hvalues, hlong⟩⟩
    rw [← exists_search_iff] at h
    unfold search at h ⊢
    rw [bind_of_ok (checkValues_of_le hvalues)] at h ⊢
    dsimp only at h ⊢
    split
    · rfl
    · next hnot => exact absurd ⟨_, if_neg hnot⟩ h
  · refine ⟨.tooManyValues, ?_, Or.inl ⟨rfl, hvalues⟩⟩
    exact bind_of_error (checkValues_of_lt hvalues) _

/-- A filter that asks for something of the list of an item accepts the item only if there is a
list that it asks for. -/
theorem acceptsList_of_accepts {r : ItemRow} {list : Option ListRow} (hasks : f.asksForList)
    (h : f.accepts r list) : list.any f.acceptsList := by
  simp only [SearchFilter.accepts, Bool.and_eq_true] at h
  obtain ⟨⟨-, htype⟩, hglobal⟩ := h
  cases list with
  | none => cases hlistType : f.listType <;> simp_all [SearchFilter.asksForList]
  | some l => cases hlistType : f.listType <;> simp_all [SearchFilter.acceptsList]

/-- A row that a filter accepts is one on which its keyword is tried. -/
theorem triesKeyword_of_accepts {r : ItemRow} {list : Option ListRow} (h : f.accepts r list)
    (kind : SearchKind) (scope : Scope) : f.triesKeyword kind scope r list := by
  cases scope with
  | everywhere => rfl
  | lists ids =>
    rw [SearchFilter.triesKeyword]
    split
    · rfl
    · next hasks =>
      split
      · simp only [SearchFilter.accepts, Bool.and_eq_true] at h
        exact h.1.1.1.1.2
      · exact acceptsList_of_accepts (by simpa using hasks) h

/-- Where a keyword that cannot be looked for is tried on no row, nothing is found. -/
theorem search_eq_nil (hkeyword : ¬isEvaluable f.keyword)
    (h : s.search kind scope f now = .ok rows) : rows = [] := by
  have hcan := exists_search_iff.mp ⟨rows, h⟩
  rw [List.eq_nil_iff_forall_not_mem]
  intro r hr
  obtain ⟨hmem, hactive, hscope, haccepts⟩ := (mem_search h).mp hr
  exact hcan.keyword.resolve_left hkeyword r
    ⟨hmem, hactive, hscope, triesKeyword_of_accepts haccepts kind scope⟩

/-- A page takes two values more than a count. -/
theorem values_page (f : SearchFilter) (scope : Scope) :
    f.values .page scope = f.values .count scope + 2 := rfl

/-- A search in all lists takes few values. -/
theorem values_everywhere_le (f : SearchFilter) (kind : SearchKind) :
    f.values kind .everywhere ≤ maxValues := by
  have hkeyword : (if f.keyword == "" then 0 else 2) ≤ 2 := by split <;> omega
  have haddress : (if f.address.isSome then 3 else 0) ≤ 3 := by split <;> omega
  have hlevel : (if f.eventLevel == "" then 0 else 1) ≤ 1 := by split <;> omega
  have htype : (if f.listType.isSome then 1 else 0) ≤ 1 := by split <;> omega
  have hkind : kind.values ≤ 2 := by cases kind <;> decide
  have hmax : maxValues = 32766 := rfl
  have hscope : Scope.everywhere.values = 0 := rfl
  unfold SearchFilter.values
  omega

/-! ## The items of one list -/

section

variable {f : ListFilter}

theorem filterList_eq_ok (h : s.filterList f now = .ok rows) :
    rows = (s.items.rows.filter fun r => f.accepts r && f.concerns now r).reverse := by
  unfold filterList at h
  dsimp only at h
  split at h
  · cases h
  · cases h
    rw [List.filter_filter]

theorem mem_filterList (h : s.filterList f now = .ok rows) {r : ItemRow} :
    r ∈ rows ↔ r ∈ s.items.rows ∧ f.concerns now r ∧ f.accepts r := by
  rw [filterList_eq_ok h, List.mem_reverse, List.mem_filter, Bool.and_eq_true,
    and_comm (a := f.accepts r)]

/-- Texts are only looked into where there are rows to look at. -/
theorem exists_found_iff {keyword : String} {candidates found : List ItemRow} :
    (∃ rows, (if !isEvaluable keyword && !candidates.isEmpty
        then Except.error StorageError.patternTooLong else .ok found) = .ok rows) ↔
      isEvaluable keyword ∨ candidates = [] := by
  cases isEvaluable keyword <;> cases candidates <;> simp

theorem exists_filterList_iff : (∃ rows, s.filterList f now = .ok rows) ↔
    isEvaluable f.keyword ∨ ∀ r ∈ s.items.rows, r.listId = f.listId → ¬r.isActive now := by
  rw [filterList, exists_found_iff, List.filter_eq_nil_iff]
  simp only [ListFilter.concerns, Bool.and_eq_true, beq_iff_eq, not_and]

end

end Store

end FirewallLists
