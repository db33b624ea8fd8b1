import FirewallLists.Proofs.Paging

/-
  What a configuration is told to be wrong with. Which problems it has is said by `Config.Has`, one
  by one and without the order in which they are looked for. The report holds exactly those, each
  once and in the order of their places (`mem_problems_iff`, `pairwise_problems`,
  `problems_reported_and_accepted_unambiguous`). The tokens of an accepted configuration have texts
  of their own, so that each text is known as one caller (`Config.nodup_tokens`,
  `Token.resolve?_eq_some_iff`).
-/

namespace FirewallLists

/-! ## The problems of a configuration -/

/-- The problem is one that the configuration has. A token is repeated if an earlier one has its
text, whatever else is wrong with that one; nothing but that is said of an empty token. -/
def Config.Has (directoryExists : String → Bool) (c : Config) : Problem → Prop
  | .noServerName => c.server.name = ""
  | .noStoreDirectory path => path = c.storePath ∧ path ≠ ":memory:" ∧
      ∃ directory, Path.parent? path = some directory ∧ directory ≠ "" ∧
        directoryExists directory = false
  | .maxPageSize size => size = c.settings.maxPageSize ∧ size ≤ 0
  | .defaultPageSize size => size = c.settings.defaultPageSize ∧ 0 < c.settings.maxPageSize ∧
      ¬(1 ≤ size ∧ size ≤ c.settings.maxPageSize)
  | .noTokens => c.tokens = []
  | .emptyToken i => ∃ t, c.tokens[i]? = some t ∧ t.token = ""
  | .repeatedToken i => ∃ t, c.tokens[i]? = some t ∧ t.token ≠ "" ∧
      ∃ j < i, ∃ earlier, c.tokens[j]? = some earlier ∧ earlier.token = t.token
  | .tokenId i caller => ∃ t, c.tokens[i]? = some t ∧ t.token ≠ "" ∧ t.caller = caller ∧
      caller.kind ≠ .admin ∧ caller.id ≤ 0

/-- Where a problem stands in a report. A token has two places, of which the first is for what is
wrong with its text. -/
def Problem.place : Problem → Nat
  | .noServerName => 0
  | .noStoreDirectory _ => 1
  | .maxPageSize _ => 2
  | .defaultPageSize _ => 3
  | .noTokens => 4
  | .emptyToken i => 5 + 2 * i
  | .repeatedToken i => 5 + 2 * i
  | .tokenId i _ => 6 + 2 * i

namespace Config

/-! ## Tokens -/

section Tokens

variable {earlier ts : List Token} {t : Token} {p : Problem}

theorem mem_tokenProblems : p ∈ tokenProblems earlier t ↔
    p = .emptyToken earlier.length ∧ t.token = "" ∨
    p = .repeatedToken earlier.length ∧ t.token ≠ "" ∧ (∃ e ∈ earlier, e.token = t.token) ∨
    p = .tokenId earlier.length t.caller ∧ t.token ≠ "" ∧
      t.caller.kind ≠ .admin ∧ t.caller.id ≤ 0 := by
  by_cases hempty : t.token = ""
  · simp [tokenProblems, hempty]
  · have hrepeated : earlier.any (·.token == t.token) ↔ ∃ e ∈ earlier, e.token = t.token := by
      simp
    rw [tokenProblems, if_neg hempty, List.mem_append, List.mem_ite_nil_right,
      List.mem_ite_nil_right, List.mem_singleton, List.mem_singleton, hrepeated]
    simp only [hempty, ne_eq, not_false_eq_true, and_false, false_or, true_and]
    rw [and_comm, and_comm (a := _ ∧ _)]

/-- What is wrong with tokens is what is wrong with one of them, given those before it. -/
theorem mem_tokensProblems : p ∈ tokensProblems earlier ts ↔
    ∃ i t, ts[i]? = some t ∧ p ∈ tokenProblems (earlier ++ ts.take i) t := by
  induction ts generalizing earlier with
  | nil => simp [tokensProblems]
  | cons t ts ih =>
    rw [tokensProblems, List.mem_append, ih]
    constructor
    · rintro (hhead | ⟨i, u, hu, hp⟩)
      · exact ⟨0, t, rfl, by simpa using hhead⟩
      · exact ⟨i + 1, u, hu, by simpa using hp⟩
    · rintro ⟨i, u, hu, hp⟩
      cases i with
      | zero =>
        cases hu
        exact Or.inl (by simpa using hp)
      | succ i => exact Or.inr ⟨i, u, hu, by simpa using hp⟩

end Tokens

/-! ## The report -/

section Report

variable {directoryExists : String → Bool} {c : Config} {p : Problem}

theorem mem_serverProblems : p ∈ c.serverProblems ↔ p = .noServerName ∧ c.server.name = "" := by
  rw [serverProblems, List.mem_ite_nil_right, List.mem_singleton, and_comm]

theorem storeDirectory?_eq_some {directory : String} : c.storeDirectory? = some directory ↔
    c.storePath ≠ ":memory:" ∧ Path.parent? c.storePath = some directory ∧ directory ≠ "" := by
  rw [storeDirectory?]
  split <;> simp_all [Option.filter_eq_some_iff]

theorem mem_storeProblems : p ∈ c.storeProblems directoryExists ↔
    p = .noStoreDirectory c.storePath ∧ c.storePath ≠ ":memory:" ∧
      ∃ directory, Path.parent? c.storePath = some directory ∧ directory ≠ "" ∧
        directoryExists directory = false := by
  have hdirectory : p ∈ c.storeProblems directoryExists ↔ ∃ directory,
      c.storeDirectory? = some directory ∧ directoryExists directory = false ∧
        p = .noStoreDirectory c.storePath := by
    rw [storeProblems]
    cases c.storeDirectory? <;> simp
  rw [hdirectory]
  simp only [storeDirectory?_eq_some]
  tauto

theorem mem_pageProblems {s : Settings} : p ∈ pageProblems s ↔
    p = .maxPageSize s.maxPageSize ∧ s.maxPageSize ≤ 0 ∨
    p = .defaultPageSize s.defaultPageSize ∧ 0 < s.maxPageSize ∧
      ¬(1 ≤ s.defaultPageSize ∧ s.defaultPageSize ≤ s.maxPageSize) := by
  rw [pageProblems]
  split_ifs with hmax hdefault
  · rw [List.mem_singleton]
    constructor
    · exact fun h => Or.inl ⟨h, hmax⟩
    · rintro (⟨h, -⟩ | ⟨-, hpositive, -⟩)
      · exact h
      · omega
  · rw [List.mem_singleton]
    constructor
    · exact fun h => Or.inr ⟨h, by omega, by omega⟩
    · rintro (⟨-, hnone⟩ | ⟨h, -⟩)
      · omega
      · exact h
  · refine iff_of_false List.not_mem_nil ?_
    rintro (⟨-, hnone⟩ | ⟨-, -, hbad⟩) <;> omega

theorem mem_noTokens :
    p ∈ (if c.tokens.isEmpty then [Problem.noTokens] else []) ↔ p = .noTokens ∧ c.tokens = [] := by
  rw [List.mem_ite_nil_right, List.isEmpty_iff, List.mem_singleton, and_comm]

/-- What is wrong with the tokens, by their numbers. -/
theorem mem_tokensProblems_nil {ts : List Token} : p ∈ tokensProblems [] ts ↔
    ∃ i t, ts[i]? = some t ∧
      (p = .emptyToken i ∧ t.token = "" ∨
       p = .repeatedToken i ∧ t.token ≠ "" ∧
         (∃ j < i, ∃ e, ts[j]? = some e ∧ e.token = t.token) ∨
       p = .tokenId i t.caller ∧ t.token ≠ "" ∧ t.caller.kind ≠ .admin ∧ t.caller.id ≤ 0) := by
  rw [mem_tokensProblems]
  refine exists_congr fun i => exists_congr fun t => and_congr_right fun ht => ?_
  have hlength : ([] ++ ts.take i).length = i := by
    have := (List.getElem?_eq_some_iff.mp ht).1
    simp only [List.nil_append, List.length_take]
    omega
  have hearlier : (∃ e ∈ [] ++ ts.take i, e.token = t.token) ↔
      ∃ j < i, ∃ e, ts[j]? = some e ∧ e.token = t.token := by
    simp only [List.nil_append, List.mem_iff_getElem?, List.getElem?_take]
    constructor
    · rintro ⟨e, ⟨j, he⟩, htext⟩
      split_ifs at he with hj
      exact ⟨j, hj, e, he, htext⟩
    · rintro ⟨j, hj, e, he, htext⟩
      exact ⟨e, ⟨j, by rwa [if_pos hj]⟩, htext⟩
  rw [mem_tokenProblems, hlength, hearlier]

/-- A report holds what a configuration has, and nothing else. -/
theorem mem_problems_iff : p ∈ c.problems directoryExists ↔ c.Has directoryExists p := by
  simp only [problems, List.mem_append, mem_serverProblems, mem_storeProblems, mem_pageProblems,
    mem_noTokens, mem_tokensProblems_nil]
  constructor
  · rintro ((((⟨rfl, hname⟩ | ⟨rfl, hpath⟩) | ⟨rfl, hmax⟩ | ⟨rfl, hdefault⟩) | ⟨rfl, hnone⟩) |
      ⟨i, t, ht, ⟨rfl, hempty⟩ | ⟨rfl, htext, hrepeated⟩ | ⟨rfl, htext, hid⟩⟩)
    · exact hname
    · exact ⟨rfl, hpath⟩
    · exact ⟨rfl, hmax⟩
    · exact ⟨rfl, hdefault⟩
    · exact hnone
    · exact ⟨t, ht, hempty⟩
    · exact ⟨t, ht, htext, hrepeated⟩
    · exact ⟨t, ht, htext, rfl, hid⟩
  · intro h
    cases p with
    | noServerName => exact Or.inl (Or.inl (Or.inl (Or.inl ⟨rfl, h⟩)))
    | noStoreDirectory path =>
      obtain ⟨rfl, hpath⟩ := h
      exact Or.inl (Or.inl (Or.inl (Or.inr ⟨rfl, hpath⟩)))
    | maxPageSize size =>
      obtain ⟨rfl, hmax⟩ := h
      exact Or.inl (Or.inl (Or.inr (Or.inl ⟨rfl, hmax⟩)))
    | defaultPageSize size =>
      obtain ⟨rfl, hdefault⟩ := h
      exact Or.inl (Or.inl (Or.inr (Or.inr ⟨rfl, hdefault⟩)))
    | noTokens => exact Or.inl (Or.inr ⟨rfl, h⟩)
    | emptyToken i =>
      obtain ⟨t, ht, hempty⟩ := h
      exact Or.inr ⟨i, t, ht, Or.inl ⟨rfl, hempty⟩⟩
    | repeatedToken i =>
      obtain ⟨t, ht, htext, hrepeated⟩ := h
      exact Or.inr ⟨i, t, ht, Or.inr (Or.inl ⟨rfl, htext, hrepeated⟩)⟩
    | tokenId i caller =>
      obtain ⟨t, ht, htext, rfl, hid⟩ := h
      exact Or.inr ⟨i, t, ht, Or.inr (Or.inr ⟨rfl, htext, hid⟩)⟩

end Report

/-! ## The order of a report -/

/-- The problems are in the order of their places, which all lie between two bounds. -/
structure Placed (lo hi : Nat) (ps : List Problem) : Prop where
  le : lo ≤ hi
  ascending : ps.Pairwise (·.place < ·.place)
  bounds : ∀ p ∈ ps, lo ≤ p.place ∧ p.place < hi

namespace Placed

variable {lo mid hi : Nat} {ps qs : List Problem} {p : Problem}

theorem nil (h : lo ≤ hi) : Placed lo hi [] where
  le := h
  ascending := List.Pairwise.nil
  bounds := by simp

theorem single (hlo : lo ≤ p.place) (hhi : p.place < hi) : Placed lo hi [p] where
  le := hlo.trans hhi.le
  ascending := List.pairwise_singleton _ p
  bounds := by simp [hlo, hhi]

theorem append (hps : Placed lo mid ps) (hqs : Placed mid hi qs) : Placed lo hi (ps ++ qs) where
  le := hps.le.trans hqs.le
  ascending := List.pairwise_append.mpr ⟨hps.ascending, hqs.ascending, fun p hp q hq =>
    (hps.bounds p hp).2.trans_le (hqs.bounds q hq).1⟩
  bounds p hmem := by
    rcases List.mem_append.mp hmem with hp | hq
    · exact ⟨(hps.bounds p hp).1, (hps.bounds p hp).2.trans_le hqs.le⟩
    · exact ⟨hps.le.trans (hqs.bounds p hq).1, (hqs.bounds p hq).2⟩

/-- A problem that is reported on a condition. -/
theorem ite (P : Prop) [Decidable P] (hlo : lo ≤ p.place) (hhi : p.place < hi) :
    Placed lo hi (if P then [p] else []) := by
  split
  · exact single hlo hhi
  · exact nil (hlo.trans hhi.le)

end Placed

theorem placed_tokenProblems (earlier : List Token) (t : Token) :
    Placed (5 + 2 * earlier.length) (7 + 2 * earlier.length) (tokenProblems earlier t) := by
  rw [tokenProblems]
  split
  · exact .single le_rfl (by rw [Problem.place]; omega)
  · have hrepeated : Placed (5 + 2 * earlier.length) (6 + 2 * earlier.length)
        (if earlier.any (·.token == t.token) then [.repeatedToken earlier.length] else []) :=
      .ite _ le_rfl (by rw [Problem.place]; omega)
    exact hrepeated.append (.ite _ le_rfl (by rw [Problem.place]; omega))

theorem placed_tokensProblems (earlier ts : List Token) :
    Placed (5 + 2 * earlier.length) (5 + 2 * (earlier.length + ts.length))
      (tokensProblems earlier ts) := by
  induction ts generalizing earlier with
  | nil => exact .nil le_rfl
  | cons t ts ih =>
    have hrest := ih (earlier ++ [t])
    rw [List.length_append, List.length_singleton] at hrest
    rw [tokensProblems, List.length_cons, Nat.add_comm ts.length, ← Nat.add_assoc]
    exact (placed_tokenProblems earlier t).append (by convert hrest using 1; omega)

theorem placed_storeProblems (directoryExists : String → Bool) (c : Config) :
    Placed 1 2 (c.storeProblems directoryExists) := by
  rw [storeProblems]
  split
  · split
    · exact .nil (by decide)
    · exact .single le_rfl (by rw [Problem.place]; omega)
  · exact .nil (by decide)

theorem placed_pageProblems (s : Settings) : Placed 2 4 (pageProblems s) := by
  rw [pageProblems]
  split
  · exact .single le_rfl (by rw [Problem.place]; omega)
  · exact .ite _ (by rw [Problem.place]; omega) (by rw [Problem.place]; omega)

/-- No two problems of a report have one place, and they stand in the order of their places. -/
theorem pairwise_problems (directoryExists : String → Bool) (c : Config) :
    (c.problems directoryExists).Pairwise (·.place < ·.place) := by
  have hserver : Placed 0 1 c.serverProblems := .ite _ le_rfl (by decide)
  have hstore := placed_storeProblems directoryExists c
  have hpages := placed_pageProblems c.settings
  have hnone : Placed 4 5 (if c.tokens.isEmpty then [Problem.noTokens] else []) :=
    .ite _ le_rfl (by decide)
  have htokens : Placed 5 _ (tokensProblems [] c.tokens) := placed_tokensProblems [] c.tokens
  exact ((((hserver.append hstore).append hpages).append hnone).append htokens).ascending

end Config

/-! ## Accepted configurations -/

section Accepted

variable {directoryExists : String → Bool} {c : Config} {t : Token} {text : String}

theorem Config.not_has_of_accepted (h : c.problems directoryExists = []) (p : Problem) :
    ¬c.Has directoryExists p := by
  rw [← mem_problems_iff, h]
  exact List.not_mem_nil

theorem Config.token_ne_empty (h : c.problems directoryExists = []) (ht : t ∈ c.tokens) :
    t.token ≠ "" := by
  obtain ⟨i, hi⟩ := List.mem_iff_getElem?.mp ht
  exact fun hempty => not_has_of_accepted h (.emptyToken i) ⟨t, hi, hempty⟩

/-- The tokens of an accepted configuration have texts of their own. -/
theorem Config.nodup_tokens (h : c.problems directoryExists = []) :
    (c.tokens.map (·.token)).Nodup := by
  rw [List.nodup_iff_pairwise_ne, List.pairwise_map, List.pairwise_iff_getElem]
  intro j i hj hi hlt heq
  have hne : c.tokens[i].token ≠ "" := token_ne_empty h (List.getElem_mem hi)
  exact not_has_of_accepted h (.repeatedToken i) ⟨_, List.getElem?_eq_getElem hi, hne, j, hlt, _,
    List.getElem?_eq_getElem hj, heq⟩

theorem Config.pageProblems_of_accepted (h : c.problems directoryExists = []) :
    pageProblems c.settings = [] := by
  simp only [problems, List.append_eq_nil_iff] at h
  exact h.1.1.2

namespace Token

variable {ts : List Token}

/-- Where texts are not used twice, a text is known as the one whose token has it. -/
theorem resolve?_eq_some_iff (h : (ts.map (·.token)).Nodup) {caller : Caller} :
    resolve? ts text = some caller ↔ ∃ t ∈ ts, t.token = text ∧ t.caller = caller := by
  have hreverse : (ts.reverse.map (·.token)).Nodup := by
    rwa [List.map_reverse, List.nodup_reverse]
  simp only [resolve?, Option.map_eq_some_iff, find?_key_eq_some hreverse, List.mem_reverse,
    and_assoc]

theorem countDistinct_of_nodup (h : (ts.map (·.token)).Nodup) : countDistinct ts = ts.length := by
  induction ts with
  | nil => rfl
  | cons t ts ih =>
    rw [List.map_cons, List.nodup_cons] at h
    have hnew : ¬ts.any (·.token == t.token) := by
      simpa using h.1
    rw [countDistinct, if_neg hnew, ih h.2, List.length_cons]

end Token
end Accepted

/-! ## What validation tells and what it lets through -/

/-- A report holds the problems that the configuration has and no others, each once and in the order
of their places. If it is empty, each token is kept under a text of its own and known as the one
that calls with it, and pages are of a size that is positive and at most the largest one. -/
theorem problems_reported_and_accepted_unambiguous (directoryExists : String → Bool) (c : Config) :
    (∀ p, p ∈ c.problems directoryExists ↔ c.Has directoryExists p) ∧
    (c.problems directoryExists).Pairwise (·.place < ·.place) ∧
    (c.problems directoryExists = [] →
      Token.countDistinct c.tokens = c.tokens.length ∧
      (∀ t ∈ c.tokens, Token.resolve? c.tokens t.token = some t.caller) ∧
      ∀ size, 1 ≤ c.settings.pageSize size ∧
        c.settings.pageSize size ≤ c.settings.maxPageSize) := by
  refine ⟨fun p => Config.mem_problems_iff, Config.pairwise_problems directoryExists c,
    fun haccepted => ⟨?_, ?_, ?_⟩⟩
  · exact Token.countDistinct_of_nodup (Config.nodup_tokens haccepted)
  · intro t ht
    exact (Token.resolve?_eq_some_iff (Config.nodup_tokens haccepted)).mpr ⟨t, ht, rfl, rfl⟩
  · exact fun size => Settings.pageSize_bounds (Config.pageProblems_of_accepted haccepted) size

/-- A configuration with this server and these tokens in which all else is right. -/
def Config.ofTokens (server : ServerConfig) (tokens : List Token) : Config :=
  { server, storePath := "lists.db", tokens }

-- an empty token is not reported for its id, and one that is repeated may be
example :
    (Config.ofTokens { name := "edge" } [⟨"", ⟨.user, 0⟩⟩, ⟨"a", ⟨.user, 0⟩⟩, ⟨"a", ⟨.node, -1⟩⟩,
      ⟨"", ⟨.admin, 0⟩⟩, ⟨"a", ⟨.admin, 0⟩⟩]).problems (fun _ => true) =
    [.emptyToken 0, .tokenId 1 ⟨.user, 0⟩, .repeatedToken 2, .tokenId 2 ⟨.node, -1⟩, .emptyToken 3,
      .repeatedToken 4] := by
  decide +kernel

/-- The tokens of an administrator and of a tenant are accepted, and each is known as its own. -/
theorem two_tokens_accepted_unambiguous :
    let c := Config.ofTokens { name := "edge" } [⟨"alpha", ⟨.admin, 0⟩⟩, ⟨"beta", ⟨.user, 5⟩⟩]
    c.problems (fun _ => true) = [] ∧ Token.countDistinct c.tokens = 2 ∧
      (∀ t ∈ c.tokens, Token.resolve? c.tokens t.token = some t.caller) ∧
      ∀ size, 1 ≤ c.settings.pageSize size ∧ c.settings.pageSize size ≤ 1000 := by
  intro c
  have haccepted : c.problems (fun _ => true) = [] := by decide +kernel
  exact ⟨haccepted,
    (problems_reported_and_accepted_unambiguous (fun _ => true) c).2.2 haccepted⟩

end FirewallLists
