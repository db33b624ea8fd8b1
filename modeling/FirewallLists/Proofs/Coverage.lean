import FirewallLists.Proofs.Drain
import FirewallLists.Proofs.Service.Pages
import FirewallLists.Proofs.Store.Cover

/-
  Who covers an address. A check of one list compares octets in the tables, a search of all lists
  compares them beside filters and pages, and a node compares the texts that it has pulled. They
  agree (`readers_agree`): each of them is told to be about the active rows of the list that enclose
  the address (`Store.Covering`).
-/

namespace FirewallLists

open Net ServiceM

/-! ## A check of one list -/

namespace Contents

/-- The list covers the address. -/
def Status.isFound : Status → Bool
  | covered _ _ => true
  | _ => false

/-- What a check tells of the item that was found. -/
def Status.ofItem (list : IpList) : Option Item → Status
  | some item => covered item list.type.isAllowing
  | none => absent

theorem Status.isFound_ofItem (list : IpList) (found : Option Item) :
    (ofItem list found).isFound = found.isSome := by
  cases found <;> rfl

theorem outcome_check {caller : Caller} {listId : Int} {list : IpList} {text : String}
    {a : Address} {found : Option Item} {st : State} (hkind : caller.kind = .admin)
    (hopen : st.isOpen) (hlist : st.store.findEnabledList listId = .ok (some list))
    (htext : Address.ofText? text = some a)
    (hfound : st.store.findCovering listId a st.now = .ok found) :
    outcome (check caller listId text) st = (.ok (.ofItem list found), st) := by
  have hlist' : outcome (query (·.findEnabledList listId)) st = (.ok (some list), st) := by
    rw [outcome_query_of_isOpen hopen, hlist]
    rfl
  have hfound' : outcome (query (·.findCovering listId a st.now)) st = (.ok found, st) := by
    rw [outcome_query_of_isOpen hopen, hfound]
    rfl
  rw [check, outcome_bind_of_ok (outcome_require_of_admin st hkind (by decide)), htext]
  dsimp only
  rw [outcome_bind_of_ok hlist']
  dsimp only
  rw [outcome_bind_of_ok (outcome_now st), outcome_bind_of_ok hfound']
  cases found <;> rfl

end Contents

/-! ## A search of all lists -/

namespace Store

variable {s : Store} {now listId : Int} {a : Address} {text : String}

/-- The filter of a search for an address. -/
def addressFilter (a : Address) : SearchFilter where
  keyword := ""
  address := some a
  unreadOnly := false
  eventLevel := ""
  listType := none
  globalOnly := false

theorem filter_address (htext : Address.ofText? text = some a) :
    ({ address := text } : SearchQuery).filter = .ok (addressFilter a) := by
  simp only [SearchQuery.filter, Address.allBlank_of_ofText? htext, htext, Bool.false_eq_true,
    if_false]
  rfl

theorem exists_search_address (s : Store) (a : Address) (now : Int) :
    ∃ rows, s.search .page .everywhere (addressFilter a) now = .ok rows :=
  ⟨_, rfl⟩

/-- Searching everywhere for an address finds the active rows that enclose it. -/
theorem mem_search_address (hspanned : s.Spanned) {rows : List ItemRow}
    (hrows : s.search .page .everywhere (addressFilter a) now = .ok rows) (r : ItemRow) :
    r ∈ rows ↔ s.Covering r.listId a now r := by
  rw [mem_search hrows, Covering]
  refine and_congr_right fun hr => ?_
  rw [hspanned.encloses_iff hr]
  simp [Scope.admits, SearchFilter.accepts, addressFilter, mentions, equalsIfGiven]

/-- The rows found hold one of a list exactly if a row of the list covers the address. -/
theorem exists_id_of_list_iff (hs : s.Ordered) (hspanned : s.Spanned) {rows : List ItemRow}
    (hrows : s.search .page .everywhere (addressFilter a) now = .ok rows) (listId : Int) :
    (∃ id ∈ rows.map (·.id), s.itemListId? id = some listId) ↔
      ∃ r, s.Covering listId a now r := by
  have hlistId : ∀ r ∈ s.items.rows, s.itemListId? r.id = some r.listId := by
    intro r hr
    have hfind : s.items.find? r.id = some r := hs.items.find?_eq_some.mpr ⟨hr, rfl⟩
    rw [itemListId?, hfind]
    rfl
  constructor
  · rintro ⟨_, hid, hlist⟩
    obtain ⟨r, hr, rfl⟩ := List.mem_map.mp hid
    have hcovering := (mem_search_address hspanned hrows r).mp hr
    rw [hlistId r hcovering.1] at hlist
    cases hlist
    exact ⟨r, hcovering⟩
  · rintro ⟨r, hcovering⟩
    have hsame := hcovering.2.1
    subst hsame
    exact ⟨r.id, List.mem_map_of_mem ((mem_search_address hspanned hrows r).mpr hcovering),
      hlistId r hcovering.1⟩

end Store

/-! ## What nodes pull -/

/-- The item is for every address, or the texts of its bounds enclose this one. -/
def PulledItem.Encloses (p : PulledItem) (a : Address) : Prop :=
  p.type = .all ∨ Net.Encloses p.ipFrom p.ipTo a

theorem ItemType.eq_all_iff (t : ItemType) : t = .all ↔ t.name = ItemType.all.name := by
  cases t <;> decide

/-- What is seen of a row encloses the addresses that the row does. -/
theorem Store.Sees.encloses_iff {s : Store} {now : Int} {r : ItemRow} {p : PulledItem}
    {range : Option Range} (h : s.Sees now r p) (hrange : r.Spans range) (a : Address) :
    p.Encloses a ↔ r.Encloses a := by
  obtain ⟨item, list, hitem, -, -, hproject⟩ := h
  obtain ⟨-, htype, hfrom, hto⟩ := Pull.project_columns hproject
  obtain ⟨type, hread, hitem⟩ := bind_eq_ok.mp hitem
  cases hitem
  have hname : type.name = r.type := by
    rw [hrange.itemType] at hread
    cases hread
    exact hrange.type.symm
  unfold PulledItem.Encloses ItemRow.Encloses
  rw [htype, hfrom, hto, ItemType.eq_all_iff, hname]

theorem Store.Sees.ids {s : Store} {now : Int} {r : ItemRow} {p : PulledItem}
    (h : s.Sees now r p) : p.id = r.id ∧ p.listId = r.listId := by
  obtain ⟨item, list, hitem, -, -, hproject⟩ := h
  obtain ⟨hid, hlistId, -⟩ := Pull.project_eq_some hproject
  obtain ⟨hid', hlistId', -⟩ := ItemRow.toItem_eq_ok hitem
  exact ⟨hid.trans hid', hlistId.trans hlistId'⟩

/-- Of a list that is switched on, a node sees the rows that are active as items that are not
deleted. -/
theorem Store.Sees.isActive_iff {s : Store} {now : Int} {list : IpList} {r : ItemRow}
    {p : PulledItem} (h : s.Sees now r p) (htimed : s.Timed) (hr : r ∈ s.items.rows)
    (hlist : s.findEnabledList r.listId = .ok (some list)) :
    p.isDeleted = false ↔ r.isActive now := by
  obtain ⟨item, found, hitem, hfound, -, hproject⟩ := h
  have hfound' := findEnabledList_eq_some hlist
  rw [hfound] at hfound'
  cases hfound'
  rw [(Pull.project_eq_some hproject).2.2.2, ← ItemRow.isActive_toItem hitem (htimed r hr) now]
  simp [enabled_of_findEnabledList hlist]

/-- Of a list that is switched on, a node sees the rows that cover an address as items that are not
deleted and enclose it. -/
theorem Store.Sees.covering_iff {s : Store} {now listId : Int} {list : IpList} {r : ItemRow}
    {p : PulledItem} (h : s.Sees now r p) (hspanned : s.Spanned) (htimed : s.Timed)
    (hr : r ∈ s.items.rows) (hlist : s.findEnabledList listId = .ok (some list)) (a : Address) :
    (p.listId = listId ∧ p.isDeleted = false ∧ p.Encloses a) ↔ s.Covering listId a now r := by
  obtain ⟨range, hrange⟩ := hspanned r hr
  rw [h.encloses_iff hrange, Store.Covering, and_iff_right hr, h.ids.2]
  refine and_congr_right fun hsame => and_congr_left' ?_
  subst hsame
  exact h.isActive_iff htimed hr hlist

/-- All that is seen of a list that is not grey holds an item that is not deleted and encloses an
address exactly if a row of the list covers it. -/
theorem Store.exists_seen_iff {s : Store} {now listId : Int} {list : IpList} {items : List Item}
    (hspanned : s.Spanned) (htimed : s.Timed) (hlisted : s.Listed) (hv : s.Versioned)
    (hlist : s.findEnabledList listId = .ok (some list)) (hgrey : list.type ≠ .grey)
    (hitems : s.itemsAfter 0 (-1) = .ok items) (a : Address) :
    (∃ p ∈ s.seen now items, p.listId = listId ∧ p.isDeleted = false ∧ p.Encloses a) ↔
      ∃ r, s.Covering listId a now r := by
  constructor
  · rintro ⟨p, hp, hshown⟩
    obtain ⟨r, hr, -, hsees⟩ := (mem_seen_iff hlisted hitems).mp hp
    exact ⟨r, (hsees.covering_iff hspanned htimed hr hlist a).mp hshown⟩
  · rintro ⟨r, hcovering⟩
    have hr := hcovering.1
    rcases grey_or_sees hspanned hlisted now hr with ⟨found, hfound, hgrey'⟩ | ⟨p, hsees⟩
    · rw [hcovering.2.1, findEnabledList_eq_some hlist] at hfound
      cases hfound
      exact absurd hgrey' hgrey
    · exact ⟨p, (mem_seen_iff hlisted hitems).mpr ⟨r, hr, hv.positive r hr, hsees⟩,
        (hsees.covering_iff hspanned htimed hr hlist a).mpr hcovering⟩

/-! ## All readers -/

theorem ListType.isAllowing_iff (t : ListType) : t.isAllowing ↔ t = .white ∨ t = .grey := by
  cases t <;> decide

/-- In every reachable state, for a list that is switched on and a text that is read as an address,
all that ask find the same. A check of the list finds an item, the pages of a search for the address
hold the id of an item of the list, and, if the list is not grey, all that a node pulls holds an
item of the list that is not deleted and encloses the address, each exactly when an active row of
the list encloses the address. The item that the check finds is the newest of these rows, and it is
told to let traffic through exactly if the list is white or grey. -/
theorem readers_agree {st : State} (h : Reachable st) (hopen : st.isOpen) {listId : Int}
    {list : IpList} (hlist : st.store.findEnabledList listId = .ok (some list)) {text : String}
    {a : Address} (htext : Address.ofText? text = some a) :
    ∃ (status : Contents.Status) (ids : List Int) (items : List PulledItem),
      (∀ (gate : Gate) (token : Option String) (caller : Caller),
        gate.authenticate token = .ok caller → caller.kind = .admin →
          (outcome (gate.serve token (.checkStatus listId text)) st).1 = .ok (.status status) ∧
          ∀ sizes : Nat → Int, (∀ i, 0 < gate.settings.pageSize (sizes i)) →
            ∃ n, (outcome (collectIds gate token { address := text }
              ((List.range n).map sizes) 0) st).1 = .ok (some ids)) ∧
      (∀ (gate : Gate) (token : Option String) (caller : Caller),
        gate.authenticate token = .ok caller → caller.pulls →
          ∀ sizes : Nat → Int, (∀ i, 0 < sizes i) →
            ∃ n cursor, (outcome (drain gate token ((List.range n).map sizes) 0) st).1 =
              .ok (some ⟨items, cursor⟩)) ∧
      (status.isFound ↔ ∃ r, st.store.Covering listId a st.now r) ∧
      ((∃ id ∈ ids, st.store.itemListId? id = some listId) ↔
        ∃ r, st.store.Covering listId a st.now r) ∧
      (list.type ≠ .grey →
        ((∃ p ∈ items, p.listId = listId ∧ p.isDeleted = false ∧ p.Encloses a) ↔
          ∃ r, st.store.Covering listId a st.now r)) ∧
      ∀ item allowing, status = .covered item allowing →
        (∃ r, st.store.Covering listId a st.now r ∧ r.toItem = .ok item ∧
          ∀ q, st.store.Covering listId a st.now q → q = r ∨ q.version < r.version) ∧
        (allowing ↔ list.type = .white ∨ list.type = .grey) := by
  have hs := h.ordered
  have hv := h.versioned
  have hspanned := h.spanned
  have htimed := h.holds Store.invariant_timed
  obtain ⟨rows, hrows⟩ := st.store.exists_search_address a st.now
  obtain ⟨items, hitems⟩ := hspanned.itemsAfter (max 0 0) (-1)
  obtain ⟨found, hfound, hsome, hnewest⟩ :=
    Store.exists_findCovering hspanned listId a st.now
  refine ⟨.ofItem list found, rows.map (·.id), st.store.seen st.now items, ?check, ?pull, ?found,
    Store.exists_id_of_list_iff hs hspanned hrows listId, fun hgrey =>
      Store.exists_seen_iff hspanned htimed h.listed hv hlist hgrey hitems a, ?newest⟩
  case check =>
    intro gate token caller hauth hkind
    refine ⟨?_, fun sizes hsizes => ?_⟩
    · have hopen' : (st.counted (.checkStatus listId text)).isOpen := hopen
      rw [Gate.reply_serve hauth, Call.run, outcome_map,
        Contents.outcome_check hkind hopen' hlist htext hfound]
      rfl
    · obtain ⟨n, -, st', hpages⟩ := outcome_collectIds hauth hkind hopen
        (Store.filter_address htext) (Int.le_refl 0) hrows sizes hsizes 0
      exact ⟨n, congrArg Prod.fst hpages⟩
  case pull =>
    intro gate token caller hauth hcaller sizes hsizes
    obtain ⟨n, -, st', hdrain, -⟩ :=
      outcome_drain h.coherent hopen hs hv hauth hcaller sizes hsizes hitems
    exact ⟨n, _, congrArg Prod.fst hdrain⟩
  case found =>
    rw [Contents.Status.isFound_ofItem]
    exact hsome
  case newest =>
    intro item allowing hstatus
    cases found with
    | none => cases hstatus
    | some item =>
      cases hstatus
      obtain ⟨r, hcovering, hitem, hhigh⟩ := hnewest item rfl
      refine ⟨⟨r, hcovering, hitem, fun q hq => ?_⟩, list.type.isAllowing_iff⟩
      -- no other row has the version
      by_cases hversion : q.version = r.version
      · have hid := hv.distinct q hq.1 r hcovering.1 hversion
        exact Or.inl (hs.items.eq_of_id hq.1 hcovering.1 hid)
      · have := hhigh q hq
        exact Or.inr (by omega)

/-- A block around the address, and beside it a newer item for every address. The text of the
address is not the one that the block's bounds would show. -/
theorem readers_agree_of_block :
    let st := State.after { now := 0 } (adminCalls [.createList publicBlackList,
      .createItem { listId := 1, value := "2001:db8::/64", expiredAt := 9 },
      .createItem { listId := 1, type := "all" }])
    let a : Address := ⟨.v6, 0x20010db8000000000000000000000007, by decide⟩
    ∃ (status : Contents.Status) (ids : List Int) (items : List PulledItem),
      (outcome (adminGate.serve (some "key") (.checkStatus 1 " 2001:DB8:0::7")) st).1 =
          .ok (.status status) ∧
        (∃ item, status = .covered item false ∧ item.id = 2) ∧
      (∃ n, (outcome (collectIds adminGate (some "key") { address := " 2001:DB8:0::7" }
          ((List.range n).map fun _ => 1) 0) st).1 = .ok (some ids)) ∧
        (∃ id ∈ ids, st.store.itemListId? id = some 1) ∧
      (∃ n cursor, (outcome (drain adminGate (some "key") ((List.range n).map fun _ => 1) 0) st).1 =
          .ok (some ⟨items, cursor⟩)) ∧
        ∃ p ∈ items, p.listId = 1 ∧ p.isDeleted = false ∧ p.Encloses a := by
  intro st a
  have hreach : Reachable st := reachable_after 0 _
  have hlist : ∃ list, st.store.findEnabledList 1 = .ok (some list) ∧ list.type = .black := by
    refine ⟨⟨1, "blocked", .black, true, true, none, none, "", true, 0⟩, ?_, rfl⟩
    decide +kernel
  obtain ⟨list, hlist, htype⟩ := hlist
  have htext : Address.ofText? " 2001:DB8:0::7" = some a := by decide +kernel
  have hcovering : ∃ r ∈ st.store.items.rows, r.id = 2 ∧ r.listId = 1 ∧ r.isActive st.now ∧
      r.Encloses a ∧ ∀ q ∈ st.store.items.rows, q.version ≤ r.version := by
    decide +kernel
  obtain ⟨row, hrow, hid, hone, hactive, hencloses, hlast⟩ := hcovering
  have hrowCovers : st.store.Covering 1 a st.now row := ⟨hrow, hone, hactive, hencloses⟩
  have hcovers : ∃ r, st.store.Covering 1 a st.now r := ⟨row, hrowCovers⟩
  obtain ⟨status, ids, items, hanswers, hpulls, hfound, hids, hitems, hnewest⟩ :=
    readers_agree hreach (by decide +kernel) hlist htext
  obtain ⟨hcheck, hpages⟩ := hanswers adminGate (some "key") ⟨.admin, 1⟩ rfl rfl
  have hdrained := hpulls adminGate (some "key") ⟨.admin, 1⟩ rfl (by simp [Caller.pulls])
    (fun _ => 1) (by simp)
  refine ⟨status, ids, items, hcheck, ?_, hpages (fun _ => 1) (fun _ => by decide),
    hids.mpr hcovers, hdrained, (hitems (by rw [htype]; decide)).mpr hcovers⟩
  have hstatus := hfound.mpr hcovers
  cases status with
  | covered item allowing =>
    obtain ⟨⟨r, hr, hitem, hhigh⟩, hallowing⟩ := hnewest item allowing rfl
    have hsame : row = r := by
      refine (hhigh row hrowCovers).resolve_right fun hlt => ?_
      have := hlast r hr.1
      omega
    have hblack : allowing = false := by simpa [htype] using hallowing
    exact ⟨item, by rw [hblack], by rw [(ItemRow.toItem_eq_ok hitem).1, ← hsame, hid]⟩
  | invalidAddress | listNotFound | absent => cases hstatus

end FirewallLists
