import FirewallLists.Proofs.Json.Record
import FirewallLists.Proofs.Net.RangeText
import FirewallLists.Proofs.Paging
import FirewallLists.Proofs.Text.Wildcards
import FirewallLists.Rpc.Body

/-
  What keywords find. A request for the items of a list is read as it is written and then trimmed
  (`ListRequest.read_eq`). A filter finds, of the rows that it would find without its keyword, those
  that mention the keyword in one of their texts (`ListFilter.finds_iff_mentions`,
  `SearchQuery.finds_iff_mentions`), and what is found is counted and listed
  (`keywords_found_as_patterns`). As wildcards in a keyword are not told from other characters, more
  can be found than the items with the keyword in a text (`keyword_found_where_it_is_not`).
-/

namespace FirewallLists

open ServiceM Text

/-! ## Requests -/

namespace ListRequest

/-- The fields of a request, with their texts as they are written. -/
def writtenFields : List (Json.RecordField ListRequest) :=
  [.integer "ipListId" fun n r => { r with filter.listId := n },
   .text "keyword" fun s r => { r with filter.keyword := s },
   .text "ipFrom" fun s r => { r with filter.ipFrom := s },
   .text "ipTo" fun s r => { r with filter.ipTo := s },
   .text "eventLevel" fun s r => { r with filter.eventLevel := s },
   .integer "offset" fun n r => { r with page.offset := n },
   .integer "size" fun n r => { r with page.size := n }]

/-- Read a request as it is written. -/
def written : Json.Reader ListRequest :=
  Json.closedRecord writtenFields {}

/-- The request without the blank characters around its texts. -/
def trimmed (r : ListRequest) : ListRequest where
  filter := {
    listId := r.filter.listId
    keyword := trim r.filter.keyword
    ipFrom := trim r.filter.ipFrom
    ipTo := trim r.filter.ipTo
    eventLevel := trim r.filter.eventLevel }
  page := r.page

theorem fields_carried :
    List.Forall₂ (Json.RecordField.Carried trimmed) writtenFields fields := by
  refine .cons (.integer _ ?_) <| .cons (.text _ ?_) <| .cons (.text _ ?_) <|
    .cons (.text _ ?_) <| .cons (.text _ ?_) <| .cons (.integer _ ?_) <| .cons (.integer _ ?_) .nil
  all_goals exact fun _ _ => rfl

/-- However a request is written, it is read and then trimmed. -/
theorem read_eq : read = trimmed <$> written :=
  Json.closedRecord_carried fields_carried {}

end ListRequest

/-! ## What a keyword finds -/

/-- A filter finds what it would find without its keyword, if it mentions the keyword. -/
theorem ListFilter.finds_iff_mentions {f : ListFilter} (hkeyword : f.keyword ≠ "") {now : Int}
    {r : ItemRow} : f.Finds now r ↔ { f with keyword := "" }.Finds now r ∧
      ∃ text ∈ [r.value, r.ipFrom, r.ipTo, r.reason], Like.Mentions f.keyword text := by
  simp only [← Like.isMatch_containing_iff]
  constructor
  · intro h
    exact ⟨⟨h.list, h.active, Or.inl rfl, h.ipFrom, h.ipTo, h.eventLevel⟩,
      h.keyword.resolve_left hkeyword⟩
  · rintro ⟨h, hmentions⟩
    exact ⟨h.list, h.active, Or.inr hmentions, h.ipFrom, h.ipTo, h.eventLevel⟩

theorem SearchFilter.finds_iff_mentions {f : SearchFilter} (hkeyword : f.keyword ≠ "") {s : Store}
    {now : Int} {r : ItemRow} : f.Finds s now r ↔ { f with keyword := "" }.Finds s now r ∧
      ∃ text ∈ [r.value, r.reason], Like.Mentions f.keyword text := by
  simp only [← Like.isMatch_containing_iff]
  constructor
  · intro h
    exact ⟨⟨h.active, Or.inl rfl, h.address, h.unread, h.eventLevel, h.listType, h.global⟩,
      h.keyword.resolve_left hkeyword⟩
  · rintro ⟨h, hmentions⟩
    exact ⟨h.active, Or.inr hmentions, h.address, h.unread, h.eventLevel, h.listType, h.global⟩

/-- The keyword of a query is the keyword of its filter, and no more depends on it. -/
theorem SearchQuery.filter_without_keyword (q : SearchQuery) :
    { q with keyword := "" }.filter = q.filter.map fun f => { f with keyword := "" } := by
  unfold SearchQuery.filter
  dsimp only
  repeat' split
  all_goals rfl

theorem SearchQuery.finds_iff_mentions {q : SearchQuery} (hkeyword : q.keyword ≠ "") {st : State}
    {caller : Caller} {r : ItemRow} : q.Finds st caller r ↔
      { q with keyword := "" }.Finds st caller r ∧
        ∃ text ∈ [r.value, r.reason], Like.Mentions q.keyword text := by
  have hwithout := q.filter_without_keyword
  rcases hfilter : q.filter with e | filter
  · rw [hfilter] at hwithout
    refine iff_of_false ?_ fun ⟨h, _⟩ => ?_
    · rintro ⟨_, hok, -⟩
      cases hfilter.symm.trans hok
    · obtain ⟨_, hok, -⟩ := h
      cases hwithout.symm.trans hok
  · rw [hfilter] at hwithout
    have hsame := SearchQuery.keyword_filter hfilter
    rw [SearchQuery.finds_iff hfilter, SearchQuery.finds_iff hwithout,
      SearchFilter.finds_iff_mentions (hsame ▸ hkeyword), hsame, and_right_comm]
    rfl

/-! ## Texts without a NUL -/

theorem Net.Address.IsWritten.ne_nul {c : Char} (h : IsWritten c) : c ≠ '\x00' := by
  have hdigit : ∀ d < 16, Nat.digitChar d ≠ '\x00' := by decide
  rcases h with rfl | rfl | ⟨d, hd, rfl⟩
  · decide
  · decide
  · exact hdigit d hd

theorem Net.Range.nul_not_mem_toText (f : Range) : '\x00' ∉ f.toText.toList := by
  intro h
  rcases isWritten_of_mem_toText h with hwritten | hslash | hdash
  · exact hwritten.ne_nul rfl
  · exact absurd hslash (by decide)
  · exact absurd hdash (by decide)

/-- The texts that tell of a range have no NUL. -/
theorem ItemRow.Spans.nul_not_mem {r : ItemRow} {range : Option Net.Range} (h : r.Spans range) :
    ∀ text ∈ [r.value, r.ipFrom, r.ipTo], '\x00' ∉ text.toList := by
  have haddress : ∀ a : Net.Address, '\x00' ∉ a.toText.toList := by
    intro a
    rw [← Net.Range.toText_single]
    exact Net.Range.nul_not_mem_toText _
  have hhigh : ∀ f : Net.Range, '\x00' ∉ f.highText.toList := by
    intro f
    unfold Net.Range.highText
    split
    · exact List.not_mem_nil
    · exact haddress _
  simp only [List.forall_mem_cons, h.value, h.ipFrom, h.ipTo]
  cases range with
  | none => exact ⟨List.not_mem_nil, List.not_mem_nil, List.not_mem_nil, nofun⟩
  | some f => exact ⟨f.nul_not_mem_toText, haddress _, hhigh f, nofun⟩

/-! ## What callers are told -/

/-- In every reachable state a keyword that is not blank narrows what is found without it to the
items that mention it. When the items of a list are counted, the blanks around the keyword are
dropped, and the value, the bounds and the reason are looked at; in a search the keyword is taken as
it is written, and the value and the reason are looked at. Whoever is not answered is refused. A
text mentions the keyword as a pattern, which is to have it as it is written exactly if all its
characters are literal. Nothing is found behind a NUL, and only a reason can hold one. -/
theorem keywords_found_as_patterns {st : State} (h : Reachable st) {gate : Gate}
    {token : Option String} {caller : Caller} (hauth : gate.authenticate token = .ok caller) :
    ListRequest.read = ListRequest.trimmed <$> ListRequest.written ∧
    (∀ request : ListRequest, allBlank request.filter.keyword = false →
      let filter := request.trimmed.filter
      let reply := (outcome (gate.serve token (.countInList filter)) st).1
      let found := st.store.items.rows.filter fun r =>
        { filter with keyword := "" }.Finds st.now r ∧
          ∃ text ∈ [r.value, r.ipFrom, r.ipTo, r.reason],
            Like.Mentions (trim request.filter.keyword) text
      (Contents.Answers st caller filter → reply = .ok (.count found.length)) ∧
      (¬Contents.Answers st caller filter → ∃ e, reply = .error e)) ∧
    (∀ q : SearchQuery, allBlank q.keyword = false →
      let count := (outcome (gate.serve token (.countAll q)) st).1
      let ids := fun offset size => (outcome (gate.serve token (.searchIds q offset size)) st).1
      let found := st.store.items.rows.filter fun r =>
        { q with keyword := "" }.Finds st caller r ∧
          ∃ text ∈ [r.value, r.reason], Like.Mentions q.keyword text
      (Search.Answers st .count caller q → count = .ok (.count found.length)) ∧
      (Search.Answers st .page caller q → ∀ offset size, ids offset size =
        .ok (.itemIds (page offset (gate.settings.pageSize size) (found.reverse.map (·.id))))) ∧
      (¬Search.Answers st .count caller q → ∃ e, count = .error e) ∧
      (¬Search.Answers st .page caller q →
        ∃ e, ∀ offset size, ids offset size = .error e)) ∧
    (∀ keyword : String, (∀ c ∈ keyword.toList, Like.Literal c) ↔
      ∀ text : String, '\x00' ∉ text.toList →
        (Like.Mentions keyword text ↔ Occurs keyword.toList text.toList)) ∧
    ∀ r ∈ st.store.items.rows, ∀ text ∈ [r.value, r.ipFrom, r.ipTo], '\x00' ∉ text.toList := by
  refine ⟨ListRequest.read_eq, ?_, ?_, fun _ => Like.forall_literal_iff, ?_⟩
  · intro request hblank filter reply found
    have hkeyword : filter.keyword ≠ "" := trim_ne_empty hblank
    refine ⟨fun hanswers => ?_, fun hno => ?_⟩
    · have hreply := hanswers.reply_countInList hauth
      simp only [ListFilter.finds_iff_mentions hkeyword] at hreply
      exact hreply
    · obtain ⟨e, hrefused, -⟩ := Contents.exists_refused hauth hno
      exact ⟨e, hrefused⟩
  · intro q hblank count ids found
    have hkeyword : q.keyword ≠ "" := ne_of_apply_ne allBlank (by rw [hblank]; decide)
    refine ⟨fun hanswers => ?_, fun hanswers => ?_, Search.exists_count_refused hauth,
      Search.exists_page_refused hauth⟩
    · have hcount := hanswers.reply_countAll hauth h.ordered
      simp only [SearchQuery.finds_iff_mentions hkeyword] at hcount
      exact hcount
    · have hids := hanswers.reply_searchIds hauth h.ordered
      simp only [SearchQuery.finds_iff_mentions hkeyword] at hids
      exact hids
  · intro r hr
    obtain ⟨range, hrange⟩ := h.spanned r hr
    exact hrange.nul_not_mem

/-- A keyword of three characters is found in one reason, as its wildcard takes one character and
the blanks around it do not count. With the other wildcard the keyword is found in two. -/
theorem keywords_found_as_patterns_of_wildcards :
    let st := State.after { now := 0 } (adminCalls [.createList publicBlackList,
      .createItem { listId := 1, value := "10.0.0.1", reason := "scan" },
      .createItem { listId := 1, value := "10.0.0.2", reason := "Sun spot" },
      .createItem { listId := 1, value := "10.0.0.3", reason := "http" }])
    let request : ListRequest := { filter := ⟨1, " s_n ", "", "", ""⟩ }
    let q : SearchQuery := { keyword := "s%n" }
    Reachable st ∧
      (outcome (adminGate.serve (some "key") (.countInList request.trimmed.filter)) st).1 =
        .ok (.count 1) ∧
      (outcome (adminGate.serve (some "key") (.searchIds q 0 10)) st).1 =
        .ok (.itemIds [2, 1]) := by
  intro st request q
  have hreach : Reachable st := reachable_after 0 _
  have hauth : adminGate.authenticate (some "key") = .ok ⟨.admin, 1⟩ := rfl
  have hopen : st.isOpen := by decide +kernel
  obtain ⟨-, hlist, hsearch, -⟩ := keywords_found_as_patterns hreach hauth
  have hcount := (hlist request (by decide +kernel)).1
    ⟨hopen, .of_admin rfl st 1, Or.inl (by decide +kernel)⟩
  have hids := (hsearch q (by decide +kernel)).2.1
    ⟨hopen, by decide, nofun, _, rfl, Store.values_everywhere_le _ _, Or.inl (by decide)⟩ 0 10
  refine ⟨hreach, hcount.trans ?_, hids.trans ?_⟩
  · exact congrArg (fun n => Except.ok (Reply.count n)) (by decide +kernel)
  · exact congrArg (fun found => Except.ok (Reply.itemIds found)) (by decide +kernel)

/-- Of two items in a list one has the keyword in its reason. Both are counted and listed, as the
last character of the keyword is a wildcard. -/
theorem keyword_found_where_it_is_not :
    let st := State.after { now := 0 } (adminCalls [.createList publicBlackList,
      .createItem { listId := 1, value := "10.0.0.1", reason := "cpu at 100%" },
      .createItem { listId := 1, value := "10.0.0.2", reason := "1000 requests" }])
    let request : ListRequest := { filter := ⟨1, "100%", "", "", ""⟩ }
    let q : SearchQuery := { keyword := "100%" }
    Reachable st ∧ allBlank "100%" = false ∧
      (st.store.items.rows.filter fun r => r.listId = 1 ∧ r.isActive st.now ∧
        ∃ text ∈ [r.value, r.ipFrom, r.ipTo, r.reason],
          Occurs (trim "100%").toList text.toList).length = 1 ∧
      (outcome (adminGate.serve (some "key") (.countInList request.trimmed.filter)) st).1 =
        .ok (.count 2) ∧
      (st.store.items.rows.filter fun r => r.isActive st.now ∧
        ∃ text ∈ [r.value, r.reason], Occurs "100%".toList text.toList).map (·.id) = [1] ∧
      (outcome (adminGate.serve (some "key") (.countAll q)) st).1 = .ok (.count 2) ∧
      (outcome (adminGate.serve (some "key") (.searchIds q 0 10)) st).1 =
        .ok (.itemIds [2, 1]) := by
  intro st request q
  have hauth : adminGate.authenticate (some "key") = .ok ⟨.admin, 1⟩ := rfl
  have hopen : st.isOpen := by decide +kernel
  have hordered : st.store.Ordered := (reachable_after 0 _).ordered
  have hlist : Contents.Answers st ⟨.admin, 1⟩ request.trimmed.filter :=
    ⟨hopen, .of_admin rfl st 1, Or.inl (by decide +kernel)⟩
  have hsearch : ∀ kind, Search.Answers st kind ⟨.admin, 1⟩ q := fun kind =>
    ⟨hopen, by decide, nofun, _, rfl, Store.values_everywhere_le _ _, Or.inl (by decide)⟩
  refine ⟨reachable_after 0 _, by decide, by decide +kernel, ?_, by decide +kernel, ?_, ?_⟩
  · rw [hlist.reply_countInList hauth]
    exact congrArg (fun n => Except.ok (Reply.count n)) (by decide +kernel)
  · rw [(hsearch .count).reply_countAll hauth hordered]
    exact congrArg (fun n => Except.ok (Reply.count n)) (by decide +kernel)
  · rw [(hsearch .page).reply_searchIds hauth hordered]
    exact congrArg (fun found => Except.ok (Reply.itemIds found)) (by decide +kernel)

end FirewallLists
