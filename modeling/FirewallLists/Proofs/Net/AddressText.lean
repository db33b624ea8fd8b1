import FirewallLists.Net.Range
import FirewallLists.Proofs.Text.Words
import Mathlib.Algebra.Group.Nat.Defs

/-
  The canonical text of an address reads as the address (`Address.ofText?_toText`), whichever of the
  three forms it has: a dotted quad, groups with their longest gap left out, or a dotted quad behind
  the prefix of mapped addresses. So the bounds that a range shows enclose what the range contains.
-/

namespace FirewallLists.Net

open FirewallLists.Text

/-! ## Digits of a number -/

theorem foldl_lastDigits (base count n : Nat) :
    (lastDigits base count n).foldl (fun m d => m * base + d) 0 = n % base ^ count := by
  induction count generalizing n with
  | zero => simp [lastDigits, Nat.mod_one]
  | succ count ih =>
    rw [lastDigits, List.foldl_append, ih, Nat.pow_succ', Nat.mod_mul]
    simp only [List.foldl_cons, List.foldl_nil]
    rw [Nat.mul_comm, Nat.add_comm]

theorem lt_of_mem_lastDigits {base count n d : Nat} (hbase : 0 < base)
    (h : d ∈ lastDigits base count n) : d < base := by
  induction count generalizing n with
  | zero => cases h
  | succ count ih =>
    rw [lastDigits, List.mem_append, List.mem_singleton] at h
    rcases h with h | rfl
    · exact ih h
    · exact Nat.mod_lt n hbase

/-- Digits are neither a dot nor a colon. -/
theorem not_mem_toDigits {base : Nat} (hbase : 1 < base) {sep : Char} (hsep : sep = '.' ∨ sep = ':')
    (n : Nat) : sep ∉ Nat.toDigits base n := by
  intro h
  obtain ⟨d, -, hd⟩ := exists_digitChar_of_mem_toDigits hbase h
  rcases hsep with rfl | rfl
  · exact Nat.digitChar_ne '.' (by decide) hd.symm
  · exact Nat.digitChar_ne ':' (by decide) hd.symm

theorem not_mem_joinWith_toDigits {base : Nat} (hbase : 1 < base) {sep other : Char}
    (hother : other = '.' ∨ other = ':') (hne : other ≠ sep) (ns : List Nat) :
    other ∉ joinWith sep (ns.map (Nat.toDigits base)) := by
  intro h
  rcases mem_joinWith h with heq | ⟨w, hw, hc⟩
  · exact hne heq
  · obtain ⟨n, -, rfl⟩ := List.mem_map.mp hw
    exact not_mem_toDigits hbase hother n hc

/-! ## Dotted quads -/

namespace Grammar

/-- No digit of an octet is one that only the looser grammars read. -/
theorem octet_toDigits (g : Grammar) {n : Nat} (h : n < 256) :
    g.octet (Nat.toDigits 10 n) = some n := by
  have hdigits : ∀ n < 256, (Nat.toDigits 10 n).length ≤ 3 ∧
      ((Nat.toDigits 10 n).length ≤ 1 ∨ (Nat.toDigits 10 n).head? ≠ some '0') ∧
        (decimal? (Nat.toDigits 10 n)).filter (· < 256) = some n := by
    decide +kernel
  obtain ⟨hlength, hhead, hvalue⟩ := hdigits n h
  rw [octet, if_pos ⟨hlength, Or.inr hhead⟩, hvalue]

theorem octet_eq_none {g : Grammar} {cs : List Char} (h : 3 < cs.length) : g.octet cs = none := by
  rw [octet, if_neg (by omega)]

/-- The quad of a number reads as the number. -/
theorem quad_quadChars (g : Grammar) {n : Nat} (h : n < Family.v4.size) :
    g.quad (quadChars n) = some n := by
  have hwords : splitOn '.' (quadChars n) = (lastDigits 256 4 n).map (Nat.toDigits 10) := by
    refine splitOn_joinWith (by simp [lastDigits]) fun w hw => ?_
    obtain ⟨d, -, rfl⟩ := List.mem_map.mp hw
    exact not_mem_toDigits (by decide) (Or.inl rfl) d
  have hvalue : ((n / 256 / 256 / 256 % 256 * 256 + n / 256 / 256 % 256) * 256 + n / 256 % 256)
      * 256 + n % 256 = n := by
    have hn : n < 4294967296 := h
    omega
  have hoctet := fun d => g.octet_toDigits (Nat.mod_lt d (by decide : 0 < 256))
  rw [quad, hwords]
  simp only [lastDigits, List.nil_append, List.cons_append, List.map_cons, List.map_nil, hoctet]
  simp [hvalue]

/-- A text without a dot is no quad. -/
theorem quad_eq_none {g : Grammar} {cs : List Char} (h : '.' ∉ cs) : g.quad cs = none := by
  rw [quad, splitOn_of_not_mem h]

/-! ## Groups -/

theorem group_toDigits {n : Nat} (h : n < 65536) : group (Nat.toDigits 16 n) = some n := by
  have hlength : (Nat.toDigits 16 n).length ≤ 4 :=
    (Nat.length_toDigits_le_iff (by decide) (by decide)).mpr h
  rw [group, if_pos hlength, hexadecimal?_toDigits]

variable {gs : List Nat}

theorem groups_toDigits (g : Grammar) (h : ∀ n ∈ gs, n < 65536) :
    g.groups (gs.map (Nat.toDigits 16)) = some gs := by
  induction gs with
  | nil => rfl
  | cons n gs ih =>
    have hfirst := group_toDigits (h n List.mem_cons_self)
    have hrest := ih fun m hm => h m (List.mem_cons_of_mem _ hm)
    cases gs with
    | nil => simp [groups, hfirst]
    | cons m gs =>
      rw [List.map_cons] at hrest
      simp [groups, hfirst, hrest]

theorem mapM_group_toDigits (h : ∀ n ∈ gs, n < 65536) :
    (gs.map (Nat.toDigits 16)).mapM group = some gs := by
  induction gs with
  | nil => rfl
  | cons n gs ih =>
    have hfirst := group_toDigits (h n List.mem_cons_self)
    have hrest := ih fun m hm => h m (List.mem_cons_of_mem _ hm)
    rw [List.map_cons, List.mapM_cons, hfirst, hrest]
    rfl

theorem splitOn_groupChars (hne : gs ≠ []) :
    splitOn ':' (groupChars gs) = gs.map (Nat.toDigits 16) := by
  refine splitOn_joinWith (by simpa using hne) fun w hw => ?_
  obtain ⟨n, -, rfl⟩ := List.mem_map.mp hw
  exact not_mem_toDigits (by decide) (Or.inr rfl) n

theorem groupChars_eq_nil (h : groupChars gs = []) : gs = [] := by
  refine List.map_eq_nil_iff.mp (joinWith_eq_nil (fun w hw => ?_) h)
  obtain ⟨n, -, rfl⟩ := List.mem_map.mp hw
  exact Nat.toDigits_ne_nil

theorem cutPair_groupChars_append (gs : List Nat) (cs : List Char) :
    cutPair ':' (groupChars gs ++ cs) =
      (cutPair ':' cs).map fun (l, r) => (groupChars gs ++ l, r) := by
  refine cutPair_joinWith_append (fun w hw => ?_) cs
  obtain ⟨n, -, rfl⟩ := List.mem_map.mp hw
  exact ⟨Nat.toDigits_ne_nil, not_mem_toDigits (by decide) (Or.inr rfl) n⟩

theorem side_groupChars (g : Grammar) (h : ∀ n ∈ gs, n < 65536) :
    g.side (groupChars gs) = some gs := by
  by_cases hgs : gs = []
  · subst hgs
    rfl
  · rw [side, if_neg fun hempty => hgs (groupChars_eq_nil (List.isEmpty_iff.mp hempty)),
      splitOn_groupChars hgs, groups_toDigits g h]

end Grammar

/-! ## Gaps -/

/-- A gap is a run of zeros. -/
theorem length_longestGap (gs : List Nat) : (longestGap gs).2 = 0 ∨
    (longestGap gs).2 = ((gs.drop (longestGap gs).1).takeWhile (· == 0)).length := by
  unfold longestGap
  refine List.foldlRecOn (motive := fun best : Nat × Nat => best.2 = 0 ∨
    best.2 = ((gs.drop best.1).takeWhile (· == 0)).length) _ _ (Or.inl rfl) ?_
  intro best hbest i _
  dsimp only
  split
  · exact Or.inr rfl
  · exact hbest

theorem eq_of_longestGap {gs : List Nat} {start length : Nat}
    (h : longestGap gs = (start, length)) :
    gs = gs.take start ++ List.replicate length 0 ++ gs.drop (start + length) := by
  have hgap := length_longestGap gs
  rw [h] at hgap
  have htake : (gs.drop start).take length = List.replicate length 0 := by
    rcases hgap with hzero | hlength
    · dsimp only at hzero
      subst hzero
      rfl
    · dsimp only at hlength
      rw [hlength, ← List.prefix_iff_eq_take.mp (List.takeWhile_prefix _)]
      refine List.eq_replicate_iff.mpr ⟨rfl, fun n hn => ?_⟩
      have hzero := List.mem_takeWhile_imp hn
      exact beq_iff_eq.mp hzero
  rw [← htake, List.append_assoc, ← List.drop_drop, List.take_append_drop, List.take_append_drop]

/-! ## Addresses of the larger family -/

theorem length_groupsOf (n : Nat) : (groupsOf n).length = 8 :=
  length_lastDigits 65536 8 n

theorem lt_of_mem_groupsOf {n m : Nat} (h : m ∈ groupsOf n) : m < 65536 :=
  lt_of_mem_lastDigits (by decide) h

namespace Grammar

theorem join_groupsOf {n : Nat} (h : n < Family.v6.size) : join (groupsOf n) = n := by
  rw [join, groupsOf, foldl_lastDigits]
  exact Nat.mod_eq_of_lt h

theorem dot_not_mem_groupChars (gs : List Nat) : '.' ∉ groupChars gs :=
  not_mem_joinWith_toDigits (by decide) (Or.inl rfl) (by decide) gs

theorem dot_not_mem_colonChars (gs : List Nat) : '.' ∉ colonChars gs := by
  unfold colonChars
  dsimp only
  split
  · simp [dot_not_mem_groupChars]
  · exact dot_not_mem_groupChars gs

/-- What stands on either side of a gap is read apart. -/
theorem colons_of_cutPair (g : Grammar) {cs left right : List Char}
    (h : cutPair ':' cs = some (left, right)) :
    g.colons cs = (if left.isEmpty then some [] else (splitOn ':' left).mapM group).bind fun hs =>
      (g.side right).bind fun ts =>
        if hs.length ≤ 7 ∧ hs.length + ts.length ≤ (if g.emptyGap then 8 else 7) then
          some (join (hs ++ List.replicate (8 - hs.length - ts.length) 0 ++ ts))
        else none := by
  rw [colons, h]
  dsimp only
  split <;> rfl

/-- A gap reads as the zeros that are left out. -/
theorem colons_gap {g : Grammar} {before after : List Nat} {right : List Char}
    (h : ∀ n ∈ before, n < 65536) (hright : g.side right = some after)
    (hlength : before.length + after.length ≤ 7) :
    g.colons (groupChars before ++ ':' :: ':' :: right) =
      some (join (before ++ List.replicate (8 - before.length - after.length) 0 ++ after)) := by
  have hcut : cutPair ':' (groupChars before ++ ':' :: ':' :: right) =
      some (groupChars before, right) := by
    rw [cutPair_groupChars_append]
    simp [cutPair]
  have hfit : before.length ≤ 7 ∧
      before.length + after.length ≤ (if g.emptyGap then 8 else 7) := by
    split <;> omega
  rw [g.colons_of_cutPair hcut]
  by_cases hnil : before = []
  · subst hnil
    have hempty : (groupChars []).isEmpty := rfl
    rw [if_pos hempty, hright]
    exact if_pos hfit
  · rw [if_neg fun hempty => hnil (groupChars_eq_nil (List.isEmpty_iff.mp hempty)),
      splitOn_groupChars hnil, mapM_group_toDigits h, hright]
    exact if_pos hfit

/-- Groups, with a gap or without, read as the number. -/
theorem colons_colonChars (g : Grammar) {n : Nat} (h : n < Family.v6.size) :
    g.colons (colonChars (groupsOf n)) = some n := by
  have hlt : ∀ m ∈ groupsOf n, m < 65536 := fun m hm => lt_of_mem_groupsOf hm
  have hlength := length_groupsOf n
  have hjoin := join_groupsOf h
  generalize groupsOf n = gs at hlt hlength hjoin
  rcases hgap : longestGap gs with ⟨start, length⟩
  unfold colonChars
  rw [hgap]
  dsimp only
  split
  · next hlong =>
    have hgs := eq_of_longestGap hgap
    have hsum := congrArg List.length hgs
    rw [List.length_append, List.length_append, List.length_replicate, hlength] at hsum
    have hbefore : ∀ m ∈ gs.take start, m < 65536 := fun m hm => hlt m (List.mem_of_mem_take hm)
    have hafter : ∀ m ∈ gs.drop (start + length), m < 65536 :=
      fun m hm => hlt m (List.mem_of_mem_drop hm)
    have hzeros : 8 - (gs.take start).length - (gs.drop (start + length)).length = length := by
      omega
    rw [colons_gap hbefore (side_groupChars g hafter) (by omega), hzeros, ← hgs, hjoin]
  · have hne : gs ≠ [] := by
      rintro rfl
      cases hlength
    have hcut : cutPair ':' (groupChars gs) = none := by
      have happend := cutPair_groupChars_append gs []
      rwa [List.append_nil] at happend
    rw [colons, hcut]
    dsimp only
    rw [splitOn_groupChars hne, groups_toDigits g hlt]
    simp [hlength, hjoin]

/-- A quad is longer than a group or an octet. -/
theorem length_quadChars (n : Nat) : 7 ≤ (quadChars n).length := by
  have hpos : ∀ d, 0 < (Nat.toDigits 10 d).length := fun _ => Nat.length_toDigits_pos
  have h₁ := hpos (n / 256 / 256 / 256 % 256)
  have h₂ := hpos (n / 256 / 256 % 256)
  have h₃ := hpos (n / 256 % 256)
  have h₄ := hpos (n % 256)
  simp only [quadChars, lastDigits, List.nil_append, List.cons_append, List.map_cons, List.map_nil,
    joinWith, List.length_append, List.length_cons]
  omega

/-- A quad behind the prefix of mapped addresses is no quad of its own: its first octet is too
long. -/
theorem quad_mapped (g : Grammar) (n : Nat) :
    g.quad ("::ffff:".toList ++ quadChars n) = none := by
  have hdot : '.' ∉ "::ffff:".toList ++ Nat.toDigits 10 (n / 256 / 256 / 256 % 256) := by
    rw [List.mem_append, not_or]
    exact ⟨by decide, not_mem_toDigits (by decide) (Or.inl rfl) _⟩
  have hchars : "::ffff:".toList ++ quadChars n =
      ("::ffff:".toList ++ Nat.toDigits 10 (n / 256 / 256 / 256 % 256)) ++ '.' ::
        joinWith '.' ((lastDigits 256 3 n).map (Nat.toDigits 10)) := rfl
  have hoctet : g.octet ("::ffff:".toList ++ Nat.toDigits 10 (n / 256 / 256 / 256 % 256)) =
      none := octet_eq_none (by simp)
  rw [quad, hchars, splitOn_append_cons hdot]
  split
  · next hwords =>
    obtain ⟨rfl, -⟩ := List.cons.inj hwords
    rw [hoctet]
    rfl
  · rfl

/-- A quad behind the prefix of mapped addresses reads as the two last groups. -/
theorem colons_mapped (g : Grammar) {n : Nat} (h : isMapped n) :
    g.colons ("::ffff:".toList ++ quadChars (n % Family.v4.size)) = some n := by
  have hquad := g.quad_quadChars (Nat.mod_lt n (by decide : 0 < Family.v4.size))
  have hcolon : ':' ∉ quadChars (n % Family.v4.size) :=
    not_mem_joinWith_toDigits (by decide) (Or.inr rfl) (by decide) _
  have hlong : group (quadChars (n % Family.v4.size)) = none := by
    have := length_quadChars (n % Family.v4.size)
    rw [group, if_neg (by omega)]
  have hright : g.side ("ffff:".toList ++ quadChars (n % Family.v4.size)) =
      some [65535, n % Family.v4.size / 65536, n % Family.v4.size % 65536] := by
    have hsplit : splitOn ':' ("ffff:".toList ++ quadChars (n % Family.v4.size)) =
        ["ffff".toList, quadChars (n % Family.v4.size)] := by
      have hlead : ':' ∉ "ffff".toList := by decide
      have hcons := splitOn_append_cons hlead (quadChars (n % Family.v4.size))
      rwa [splitOn_of_not_mem hcolon] at hcons
    rw [side, if_neg (by simp), hsplit]
    simp only [groups, hlong, hquad]
    rfl
  have hmapped : n / Family.v4.size = 65535 := beq_iff_eq.mp h
  have hvalue : join (List.replicate 5 0 ++
      [65535, n % Family.v4.size / 65536, n % Family.v4.size % 65536]) = n := by
    have hsize : Family.v4.size = 4294967296 := rfl
    rw [hsize] at hmapped ⊢
    simp [join, List.replicate]
    omega
  have hnothing : ∀ m ∈ ([] : List Nat), m < 65536 := by simp
  have hgap := colons_gap hnothing hright (by simp)
  exact hgap.trans (congrArg some hvalue)

/-- The characters of an address read as the address, however strict the grammar. -/
theorem address_chars (g : Grammar) (a : Address) : g.address a.chars = some a := by
  rcases a with ⟨family, n, hlt⟩
  cases family with
  | v4 =>
    rw [address, Address.chars, quad_quadChars g hlt]
    exact Address.ofNumber?_self ⟨.v4, n, hlt⟩
  | v6 =>
    -- a text that is no quad has to be read as groups
    have hread : ∀ cs, g.quad cs = none → g.colons cs = some n →
        g.address cs = some ⟨.v6, n, hlt⟩ := by
      intro cs hquad hcolons
      rw [address, hquad, hcolons]
      exact Address.ofNumber?_self ⟨.v6, n, hlt⟩
    rw [Address.chars]
    dsimp only
    split
    · next hmapped => exact hread _ (g.quad_mapped _) (g.colons_mapped hmapped)
    · exact hread _ (quad_eq_none (dot_not_mem_colonChars _)) (g.colons_colonChars hlt)

end Grammar

/-! ## Texts -/

namespace Address

/-- A character that addresses are written with. -/
def IsWritten (c : Char) : Prop :=
  c = '.' ∨ c = ':' ∨ ∃ d < 16, c = Nat.digitChar d

theorem isWritten_of_mem_joinWith {base : Nat} (hbase : 1 < base) (hle : base ≤ 16) {sep c : Char}
    (hsep : IsWritten sep) {ns : List Nat} (h : c ∈ joinWith sep (ns.map (Nat.toDigits base))) :
    IsWritten c := by
  rcases mem_joinWith h with rfl | ⟨w, hw, hc⟩
  · exact hsep
  · obtain ⟨n, -, rfl⟩ := List.mem_map.mp hw
    obtain ⟨d, hd, rfl⟩ := exists_digitChar_of_mem_toDigits hbase hc
    exact Or.inr (Or.inr ⟨d, by omega, rfl⟩)

theorem isWritten_of_mem_chars {a : Address} {c : Char} (h : c ∈ a.chars) : IsWritten c := by
  have hcolon : IsWritten ':' := Or.inr (Or.inl rfl)
  have hquad : ∀ n, c ∈ quadChars n → IsWritten c :=
    fun _ => isWritten_of_mem_joinWith (by decide) (by decide) (Or.inl rfl)
  have hgroups : ∀ gs, c ∈ groupChars gs → IsWritten c :=
    fun _ => isWritten_of_mem_joinWith (by decide) (by decide) hcolon
  unfold chars at h
  split at h
  · exact hquad _ h
  · split at h
    · have hlead : "::ffff:".toList.all fun c => c = ':' ∨ c = Nat.digitChar 15 := by decide
      rcases List.mem_append.mp h with h | h
      · have hc := of_decide_eq_true (List.all_eq_true.mp hlead c h)
        exact Or.inr (hc.imp_right fun hc => ⟨15, by decide, hc⟩)
      · exact hquad _ h
    · unfold colonChars at h
      dsimp only at h
      split at h
      · simp only [List.mem_append, List.mem_cons] at h
        rcases h with h | rfl | rfl | h
        · exact hgroups _ h
        · exact hcolon
        · exact hcolon
        · exact hgroups _ h
      · exact hgroups _ h

/-- Addresses are written without blanks, slashes and dashes. -/
theorem IsWritten.ne {c : Char} (h : IsWritten c) : isBlank c = false ∧ c ≠ '/' ∧ c ≠ '-' := by
  have hdigit : ∀ d < 16, isBlank (Nat.digitChar d) = false ∧ Nat.digitChar d ≠ '/' ∧
      Nat.digitChar d ≠ '-' := by
    decide
  rcases h with rfl | rfl | ⟨d, hd, rfl⟩
  · decide
  · decide
  · exact hdigit d hd

theorem not_blank_of_mem_chars {a : Address} {c : Char} (h : c ∈ a.chars) : isBlank c = false :=
  (isWritten_of_mem_chars h).ne.1

theorem not_blank_of_mem_toDigits {n : Nat} {c : Char} (h : c ∈ Nat.toDigits 10 n) :
    isBlank c = false := by
  obtain ⟨d, hd, rfl⟩ := exists_digitChar_of_mem_toDigits (by decide) h
  have hwritten : IsWritten (Nat.digitChar d) := Or.inr (Or.inr ⟨d, by omega, rfl⟩)
  exact hwritten.ne.1

/-- The canonical text of an address reads as the address. -/
theorem ofText?_toText (a : Address) : ofText? a.toText = some a := by
  rw [ofText?, toText, String.toList_ofList, trimChars_of_not_blank fun _ => not_blank_of_mem_chars,
    Grammar.address_chars]

theorem toText_ne_empty (a : Address) : a.toText ≠ "" := by
  intro h
  have hread := ofText?_toText a
  rw [h] at hread
  cases hread

/-- A text that names an address is not blank. -/
theorem allBlank_of_ofText? {s : String} {a : Address} (h : ofText? s = some a) :
    allBlank s = false := by
  by_contra hblank
  rw [Bool.not_eq_false] at hblank
  rw [ofText?, trimChars_of_allBlank hblank] at h
  cases h

end Address

/-! ## Ranges -/

/-- Bounds that are given as texts enclose the address. Without an upper bound the lower one is the
only address. -/
def Encloses (lower upper : String) (a : Address) : Prop :=
  ∃ low high, Address.ofText? lower = some low ∧
    Address.ofText? (if upper = "" then lower else upper) = some high ∧
    a.family = low.family ∧ a.family = high.family ∧ low.number ≤ a.number ∧ a.number ≤ high.number

instance (lower upper : String) (a : Address) : Decidable (Encloses lower upper a) :=
  decidable_of_iff
    (∃ low ∈ Address.ofText? lower, ∃ high ∈ Address.ofText? (if upper = "" then lower else upper),
      a.family = low.family ∧ a.family = high.family ∧ low.number ≤ a.number ∧
        a.number ≤ high.number)
    (by simp [Encloses])

/-- The texts of a range's bounds enclose what the range contains. -/
theorem Range.encloses_iff (f : Range) (a : Address) :
    Encloses f.lowText f.highText a ↔ f.contains a := by
  have hhigh : Address.ofText? (if f.highText = "" then f.lowText else f.highText) =
      some f.high := by
    unfold highText lowText
    by_cases hsingle : f.isSingle
    · have heq : f.low = f.high := beq_iff_eq.mp hsingle
      rw [if_pos hsingle, if_pos rfl, heq]
      exact Address.ofText?_toText f.high
    · rw [if_neg hsingle, if_neg (Address.toText_ne_empty _)]
      exact Address.ofText?_toText f.high
  have hlow : Address.ofText? f.lowText = some f.low := Address.ofText?_toText f.low
  unfold Encloses
  rw [hlow, hhigh]
  constructor
  · rintro ⟨_, _, heqlow, heqhigh, hfamily, -, hle, hge⟩
    cases heqlow
    cases heqhigh
    exact ⟨hfamily, hle, hge⟩
  · rintro ⟨hfamily, hle, hge⟩
    exact ⟨_, _, rfl, rfl, hfamily, hfamily.trans f.family_eq.symm, hle, hge⟩

end FirewallLists.Net
