import FirewallLists.Proofs.Net.RangeMeaning

/-
  Addresses in front of a prefix length are read by a looser grammar than addresses that stand
  alone. Whatever the stricter of two grammars reads, the looser one reads as the same address
  (`Grammar.address_of_within`), so a text that stands alone may also be used to write a block, and
  the block around the whole address is the address itself (`block_agrees_with_address`).
-/

namespace FirewallLists.Net

open FirewallLists.Text

namespace Grammar

/-- The second grammar allows all that the first one does. -/
structure Within (g h : Grammar) : Prop where
  leadingZeros : g.leadingZeros → h.leadingZeros
  emptyGap : g.emptyGap → h.emptyGap

theorem plain_within_network : plain.Within network :=
  ⟨fun _ => rfl, fun _ => rfl⟩

variable {g h : Grammar} {cs : List Char}

/-! ## One grammar within another -/

theorem octet_of_within (hwithin : g.Within h) {n : Nat} (hread : g.octet cs = some n) :
    h.octet cs = some n := by
  unfold octet at hread ⊢
  split at hread
  · next hstrict => rwa [if_pos ⟨hstrict.1, hstrict.2.imp_left hwithin.leadingZeros⟩]
  · cases hread

theorem quad_of_within (hwithin : g.Within h) {n : Nat} (hread : g.quad cs = some n) :
    h.quad cs = some n := by
  unfold quad at hread ⊢
  split at hread
  · simp only [Option.bind_eq_bind, Option.bind_eq_some_iff] at hread ⊢
    obtain ⟨a, ha, b, hb, c, hc, d, hd, hvalue⟩ := hread
    exact ⟨a, octet_of_within hwithin ha, b, octet_of_within hwithin hb,
      c, octet_of_within hwithin hc, d, octet_of_within hwithin hd, hvalue⟩
  · cases hread

theorem groups_of_within (hwithin : g.Within h) {ws : List (List Char)} {ns : List Nat}
    (hread : g.groups ws = some ns) : h.groups ws = some ns := by
  induction ws generalizing ns with
  | nil => exact hread
  | cons w ws ih =>
    cases ws with
    | nil =>
      -- only the last word may be a quad
      unfold groups at hread ⊢
      split at hread
      · exact hread
      · obtain ⟨n, hquad, hpair⟩ := Option.map_eq_some_iff.mp hread
        rw [quad_of_within hwithin hquad]
        exact congrArg some hpair
    | cons v ws =>
      rw [groups] at hread ⊢
      · simp only [Option.bind_eq_bind, Option.bind_eq_some_iff] at hread ⊢
        obtain ⟨n, hfirst, rest, hrest, heq⟩ := hread
        exact ⟨n, hfirst, rest, ih hrest, heq⟩
      · simp
      · simp

theorem side_of_within (hwithin : g.Within h) {ns : List Nat} (hread : g.side cs = some ns) :
    h.side cs = some ns := by
  unfold side at hread ⊢
  split
  · next hempty => rwa [if_pos hempty] at hread
  · next hempty =>
    rw [if_neg hempty] at hread
    exact groups_of_within hwithin hread

/-- A gap that hides a group is one that the looser grammar allows, and it stands for as many. -/
theorem colons_of_within (hwithin : g.Within h) {n : Nat} (hread : g.colons cs = some n) :
    h.colons cs = some n := by
  cases hcut : cutPair ':' cs with
  | none =>
    rw [colons, hcut] at hread ⊢
    obtain ⟨gs, hgroups, hvalue⟩ := Option.bind_eq_some_iff.mp hread
    exact Option.bind_eq_some_iff.mpr ⟨gs, groups_of_within hwithin hgroups, hvalue⟩
  | some sides =>
    obtain ⟨left, right⟩ := sides
    -- the left side holds no quad, so it is read the same in both
    rw [colons_of_cutPair _ hcut] at hread ⊢
    obtain ⟨hs, hleft, hread⟩ := Option.bind_eq_some_iff.mp hread
    obtain ⟨ts, hright, hvalue⟩ := Option.bind_eq_some_iff.mp hread
    obtain ⟨⟨hseven, hfit⟩, hvalue⟩ := Option.ite_none_right_eq_some.mp hvalue
    have hroom : (if g.emptyGap then 8 else 7) ≤ (if h.emptyGap then 8 else 7) := by
      by_cases hgap : g.emptyGap
      · rw [if_pos hgap, if_pos (hwithin.emptyGap hgap)]
      · rw [if_neg hgap]
        split <;> decide
    rw [hleft, Option.bind_some, side_of_within hwithin hright, Option.bind_some,
      if_pos ⟨hseven, hfit.trans hroom⟩]
    exact hvalue

/-! ## Quads and groups -/

theorem colon_not_mem_of_quad {n : Nat} (hread : g.quad cs = some n) : ':' ∉ cs := by
  intro hcolon
  rcases isDecimal_of_quad hread _ hcolon with heq | hdigit
  · revert heq
    decide
  · revert hdigit
    decide

/-- One word counts for two groups at most. -/
theorem length_groups_singleton {w : List Char} {ns : List Nat} (hread : g.groups [w] = some ns) :
    ns.length ≤ 2 := by
  unfold groups at hread
  split at hread
  · cases hread
    exact Nat.le_succ 1
  · obtain ⟨n, -, rfl⟩ := Option.map_eq_some_iff.mp hread
    exact Nat.le_refl 2

theorem colon_mem_of_colons {n : Nat} (hread : g.colons cs = some n) : ':' ∈ cs := by
  by_contra hcolon
  have hcut : cutPair ':' cs = none := by
    have happend := cutPair_append hcolon []
    rwa [List.append_nil] at happend
  rw [colons, hcut] at hread
  dsimp only at hread
  rw [splitOn_of_not_mem hcolon] at hread
  obtain ⟨gs, hgroups, hvalue⟩ := Option.bind_eq_some_iff.mp hread
  have htwo := length_groups_singleton hgroups
  rw [if_neg (by omega)] at hvalue
  cases hvalue

/-- What a grammar reads, a looser one reads as the same address. -/
theorem address_of_within (hwithin : g.Within h) {a : Address} (hread : g.address cs = some a) :
    h.address cs = some a := by
  unfold address at hread ⊢
  split at hread
  · next n hquad => rwa [quad_of_within hwithin hquad]
  · obtain ⟨n, hcolons, hnumber⟩ := Option.bind_eq_some_iff.mp hread
    -- the colons keep the looser grammar from reading a quad instead
    have hquad : h.quad cs = none := by
      by_contra hsome
      obtain ⟨m, hquad⟩ := Option.ne_none_iff_exists'.mp hsome
      exact colon_not_mem_of_quad hquad (colon_mem_of_colons hcolons)
    rw [hquad, colons_of_within hwithin hcolons]
    exact hnumber

end Grammar

/-! ## The block around an address -/

theorem Address.IsRead.not_blank {c : Char} (h : IsRead c) : isBlank c = false := by
  rcases h with rfl | rfl | h
  · decide
  · decide
  · have hrange : 48 ≤ c.toNat ∧ c.toNat ≤ 102 := by
      rw [hexDigit?] at h
      simp only [Char.le_def, UInt32.le_iff_toNat_le] at h
      split at h
      · next hc => exact ⟨hc.1, hc.2.trans (by decide)⟩
      · split at h
        · next hc => exact ⟨Nat.le_trans (by decide) hc.1, hc.2⟩
        · split at h
          · next hc => exact ⟨Nat.le_trans (by decide) hc.1, hc.2.trans (by decide)⟩
          · cases h
    -- the blank characters next to this range are the space and the one with number 133
    simp only [isBlank, Bool.or_eq_false_iff, Bool.and_eq_false_iff, decide_eq_false_iff_not,
      beq_eq_false_iff_ne]
    omega

section

variable {s : String} {a : Address}

theorem address_of_trimmed (hread : Address.ofText? s = some a) (htrim : trim s = s) :
    Grammar.plain.address s.toList = some a := by
  rwa [← Address.ofText?_trim, Address.ofText?, trim, String.toList_ofList, trimChars_trimChars,
    ← String.toList_ofList (l := trimChars s.toList), ← trim, htrim] at hread

theorem not_blank_of_trimmed (hread : Address.ofText? s = some a) (htrim : trim s = s) :
    ∀ c ∈ s.toList, isBlank c = false :=
  fun c hc => (Grammar.isRead_of_address (address_of_trimmed hread htrim) c hc).not_blank

/-- A text that stands alone as an address writes its blocks too. -/
theorem writtenBy_block (hread : Address.ofText? s = some a) (htrim : trim s = s) {p : Nat}
    (hp : p ≤ a.family.width) : (Form.block ⟨a, p, hp⟩).WrittenBy (s ++ "/" ++ toString p) := by
  have hnetwork : Grammar.network.address s.toList = some a :=
    Grammar.address_of_within Grammar.plain_within_network (address_of_trimmed hread htrim)
  have hchars : (s ++ "/" ++ toString p).toList = s.toList ++ '/' :: Nat.toDigits 10 p := by simp
  have hblank : ∀ c ∈ (s ++ "/" ++ toString p).toList, isBlank c = false := by
    intro c hc
    rw [hchars, List.mem_append, List.mem_cons] at hc
    rcases hc with hc | rfl | hc
    · exact not_blank_of_trimmed hread htrim c hc
    · decide
    · exact Address.not_blank_of_mem_toDigits hc
  have hdigits := Block.length_toDigits_prefixLength ⟨a, p, hp⟩
  rw [Form.WrittenBy, trim_of_not_blank hblank, hchars, Block.ofChars?,
    cut_append_cons (Address.not_mem_of_ofText? hread).1]
  simp only [Option.bind_eq_bind, Option.bind_some, hnetwork, if_pos hdigits, decimal?_toDigits,
    dif_pos hp]

/-- The text of an address on both sides of a dash writes the range from it to itself. -/
theorem writtenBy_span (hread : Address.ofText? s = some a) (htrim : trim s = s) :
    (Form.span a a rfl).WrittenBy (s ++ "-" ++ s) := by
  have hblank : ∀ c ∈ (s ++ "-" ++ s).toList, isBlank c = false := by
    intro c hc
    rw [String.toList_append, String.toList_append, List.mem_append, List.mem_append] at hc
    rcases hc with (hc | hc) | hc
    · exact not_blank_of_trimmed hread htrim c hc
    · rw [List.mem_singleton.mp hc]
      decide
    · exact not_blank_of_trimmed hread htrim c hc
  have haround : AroundDash (s ++ "-" ++ s) s s :=
    ⟨trim_of_not_blank hblank, (Address.not_mem_of_ofText? hread).2⟩
  exact ⟨slash_not_mem_of_around haround hread hread, s, s, haround, hread, hread⟩

end

/-- The block around all bits of an address is the address. -/
theorem Range.ofBlock_whole (a : Address) (hp : a.family.width ≤ a.family.width) :
    ofBlock ⟨a, a.family.width, hp⟩ = single a := by
  have hsize : Block.size ⟨a, a.family.width, hp⟩ = 1 := by
    rw [Block.size, Nat.sub_self]
  have hfirst : Block.first ⟨a, a.family.width, hp⟩ = a := by
    refine Address.ext rfl ?_
    show a.number / Block.size _ * Block.size _ = a.number
    rw [hsize, Nat.div_one, Nat.mul_one]
  have hlast : Block.last ⟨a, a.family.width, hp⟩ = a := by
    refine Address.ext rfl ?_
    show a.number / Block.size _ * Block.size _ + (Block.size _ - 1) = a.number
    rw [hsize, Nat.div_one, Nat.mul_one, Nat.sub_self, Nat.add_zero]
  rw [ofBlock, if_pos (hfirst.trans hlast.symm), hfirst]

/-- Every text that names an address, without blank characters around it, names the blocks around
that address as well when a prefix length follows it, each of which contains the address. The block
of the whole width is the range that the text names alone, and on both sides of a dash. -/
theorem block_agrees_with_address {s : String} {a : Address} {p : Nat}
    (hread : Address.ofText? s = some a) (htrim : trim s = s) (hp : p ≤ a.family.width) :
    ∃ f, Range.ofValue (s ++ "/" ++ toString p) = .ok f ∧ f.contains a ∧ f.family = a.family ∧
      (p = a.family.width →
        Range.ofValue s = .ok f ∧ Range.ofValue (s ++ "-" ++ s) = .ok f) := by
  have hslash := (Address.not_mem_of_ofText? hread).1
  have hcontains : (Range.ofBlock ⟨a, p, hp⟩).contains a :=
    Range.contains_ofBlock.mpr ⟨rfl, fun _ _ => rfl⟩
  refine ⟨.ofBlock ⟨a, p, hp⟩, (writtenBy_block hread htrim hp).ofValue, hcontains,
    hcontains.1.symm, ?_⟩
  rintro rfl
  have halone : (Form.address a).WrittenBy s := ⟨hslash, hread⟩
  have hbetween : Range.between a a rfl = .single a := dif_pos (Nat.le_refl _)
  rw [Range.ofBlock_whole, halone.ofValue, (writtenBy_span hread htrim).ofValue, Form.range,
    Form.range, hbetween]
  exact ⟨rfl, rfl⟩

/-- An address with a quad behind a gap. -/
theorem block_agrees_with_address_of_gap :
    ∃ f, Range.ofValue "2001:DB8::198.51.100.7/128" = .ok f ∧
      Range.ofValue "2001:DB8::198.51.100.7" = .ok f ∧
      Range.ofValue "2001:DB8::198.51.100.7-2001:DB8::198.51.100.7" = .ok f ∧
      f.contains ⟨.v6, 0x20010db80000000000000000c6336407, by decide⟩ := by
  have hread : Address.ofText? "2001:DB8::198.51.100.7" =
      some ⟨.v6, 0x20010db80000000000000000c6336407, by decide⟩ := by decide +kernel
  obtain ⟨f, hblock, hcontains, -, hwhole⟩ :=
    block_agrees_with_address hread (by decide +kernel) (Nat.le_refl 128)
  obtain ⟨halone, hspan⟩ := hwhole rfl
  exact ⟨f, hblock, halone, hspan, hcontains⟩

end FirewallLists.Net
