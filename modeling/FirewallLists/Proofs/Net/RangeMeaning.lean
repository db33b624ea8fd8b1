import FirewallLists.Proofs.Net.KeyOrder
import FirewallLists.Proofs.Net.RangeText
import Mathlib.Data.Nat.Bitwise

/-
  What texts name. A text is read as a range exactly if it has one of three forms: an address, two
  addresses of one family around its first dash, or a network block. Each form means certain
  addresses, a block those that share its leading bits, and the range contains just these
  (`Form.contains_range`); so forms that mean the same addresses give the same bounds, however they
  are written (`value_denotes`). What has been read once is written in a form that reads as itself
  (`normal_texts_read_again`).
-/

namespace FirewallLists.Net

open FirewallLists.Text

/-! ## Characters that addresses are read from -/

namespace Address

/-- A dot, a colon, or a digit of either case. -/
def IsRead (c : Char) : Prop :=
  c = '.' ∨ c = ':' ∨ (hexDigit? c).isSome

theorem IsRead.ne {c : Char} (h : IsRead c) : c ≠ '/' ∧ c ≠ '-' := by
  rcases h with rfl | rfl | h
  · decide
  · decide
  · constructor
    · rintro rfl
      revert h
      decide
    · rintro rfl
      revert h
      decide

end Address

namespace Grammar

open Address

variable {g : Grammar} {cs : List Char}

theorem isDecimal_of_octet {n : Nat} (h : g.octet cs = some n) :
    ∀ c ∈ cs, (decimalDigit? c).isSome := by
  unfold octet at h
  split at h
  · exact isSome_of_decimal? (Option.filter_eq_some_iff.mp h).1
  · cases h

theorem isDecimal_of_quad {n : Nat} (h : g.quad cs = some n) :
    ∀ c ∈ cs, c = '.' ∨ (decimalDigit? c).isSome := by
  intro c hc
  unfold quad at h
  split at h
  · next w₁ w₂ w₃ w₄ hwords =>
    simp only [Option.bind_eq_bind, Option.bind_eq_some_iff] at h
    obtain ⟨_, h₁, _, h₂, _, h₃, _, h₄, -⟩ := h
    rcases exists_word_of_mem hc with hdot | ⟨w, hw, hcw⟩
    · exact Or.inl hdot
    · rw [hwords] at hw
      simp only [List.mem_cons, List.not_mem_nil, or_false] at hw
      rcases hw with rfl | rfl | rfl | rfl
      · exact Or.inr (isDecimal_of_octet h₁ c hcw)
      · exact Or.inr (isDecimal_of_octet h₂ c hcw)
      · exact Or.inr (isDecimal_of_octet h₃ c hcw)
      · exact Or.inr (isDecimal_of_octet h₄ c hcw)
  · cases h

theorem isRead_of_quad {n : Nat} (h : g.quad cs = some n) : ∀ c ∈ cs, IsRead c := by
  intro c hc
  refine (isDecimal_of_quad h c hc).imp_right fun hdigit => ?_
  exact Or.inr (isSome_hexDigit?_of_decimalDigit? hdigit)

theorem isRead_of_group {n : Nat} (h : group cs = some n) : ∀ c ∈ cs, IsRead c := by
  intro c hc
  unfold group at h
  split at h
  · exact Or.inr (Or.inr (isSome_of_hexadecimal? h c hc))
  · cases h

theorem isRead_of_groups {ws : List (List Char)} {ns : List Nat} (h : g.groups ws = some ns) :
    ∀ w ∈ ws, ∀ c ∈ w, IsRead c := by
  induction ws generalizing ns with
  | nil => exact fun _ hw => absurd hw List.not_mem_nil
  | cons w ws ih =>
    cases ws with
    | nil =>
      refine List.forall_mem_singleton.mpr ?_
      unfold groups at h
      split at h
      · next n hgroup => exact isRead_of_group hgroup
      · obtain ⟨n, hquad, -⟩ := Option.map_eq_some_iff.mp h
        exact isRead_of_quad hquad
    | cons v ws =>
      rw [groups] at h
      · simp only [Option.bind_eq_bind, Option.bind_eq_some_iff] at h
        obtain ⟨_, hfirst, _, hrest, -⟩ := h
        exact List.forall_mem_cons.mpr ⟨isRead_of_group hfirst, ih hrest⟩
      · simp

/-- What is read word by word between colons is read character by character. -/
theorem isRead_of_words (h : ∀ w ∈ splitOn ':' cs, ∀ c ∈ w, IsRead c) : ∀ c ∈ cs, IsRead c := by
  intro c hc
  rcases exists_word_of_mem hc with hcolon | ⟨w, hw, hcw⟩
  · exact Or.inr (Or.inl hcolon)
  · exact h w hw c hcw

theorem isRead_of_mapM_group {ws : List (List Char)} {ns : List Nat}
    (h : ws.mapM group = some ns) : ∀ w ∈ ws, ∀ c ∈ w, IsRead c := by
  induction ws generalizing ns with
  | nil => exact fun _ hw => absurd hw List.not_mem_nil
  | cons w ws ih =>
    rw [List.mapM_cons] at h
    simp only [Option.bind_eq_bind, Option.bind_eq_some_iff] at h
    obtain ⟨_, hfirst, _, hrest, -⟩ := h
    exact List.forall_mem_cons.mpr ⟨isRead_of_group hfirst, ih hrest⟩

theorem isRead_of_side {ns : List Nat} (h : g.side cs = some ns) : ∀ c ∈ cs, IsRead c := by
  unfold side at h
  split at h
  · next hempty =>
    rw [List.isEmpty_iff.mp hempty]
    exact fun _ hc => absurd hc List.not_mem_nil
  · exact isRead_of_words (isRead_of_groups h)

theorem isRead_of_colons {n : Nat} (h : g.colons cs = some n) : ∀ c ∈ cs, IsRead c := by
  cases hcut : cutPair ':' cs with
  | none =>
    rw [colons, hcut] at h
    obtain ⟨_, hgroups, -⟩ := Option.bind_eq_some_iff.mp h
    exact isRead_of_words (isRead_of_groups hgroups)
  | some sides =>
    obtain ⟨left, right⟩ := sides
    rw [g.colons_of_cutPair hcut] at h
    obtain ⟨_, hleft, h⟩ := Option.bind_eq_some_iff.mp h
    obtain ⟨_, hright, -⟩ := Option.bind_eq_some_iff.mp h
    have hread : ∀ c ∈ left, IsRead c := by
      split at hleft
      · next hempty =>
        rw [List.isEmpty_iff.mp hempty]
        exact fun _ hc => absurd hc List.not_mem_nil
      · exact isRead_of_words (isRead_of_mapM_group hleft)
    intro c hc
    rw [cutPair_eq_some hcut, List.mem_append, List.mem_cons, List.mem_cons] at hc
    rcases hc with hc | hc | hc | hc
    · exact hread c hc
    · exact Or.inr (Or.inl hc)
    · exact Or.inr (Or.inl hc)
    · exact isRead_of_side hright c hc

theorem isRead_of_address {a : Address} (h : g.address cs = some a) : ∀ c ∈ cs, IsRead c := by
  unfold address at h
  split at h
  · next hquad => exact isRead_of_quad hquad
  · obtain ⟨_, hcolons, -⟩ := Option.bind_eq_some_iff.mp h
    exact isRead_of_colons hcolons

end Grammar

namespace Address

/-- A text that names an address has neither a slash nor a dash. -/
theorem not_mem_of_ofText? {s : String} {a : Address} (h : ofText? s = some a) :
    '/' ∉ s.toList ∧ '-' ∉ s.toList := by
  constructor
  · intro hmem
    exact (Grammar.isRead_of_address h _ (mem_trimChars hmem (by decide))).ne.1 rfl
  · intro hmem
    exact (Grammar.isRead_of_address h _ (mem_trimChars hmem (by decide))).ne.2 rfl

/-- Blank characters around a text do not matter. -/
theorem ofText?_trim (s : String) : ofText? (trim s) = ofText? s := by
  rw [ofText?, trim, String.toList_ofList, trimChars_trimChars, ofText?]

/-! ## Leading bits -/

/-- The bit of the address at a place; the first one has place zero. -/
def bit (a : Address) (i : Nat) : Bool :=
  a.number.testBit (a.family.width - 1 - i)

end Address

/-- Numbers agree on their first bits exactly if they agree without the bits that follow. -/
theorem testBit_agree_iff {x y width length : Nat} (hx : x < 2 ^ width) (hy : y < 2 ^ width)
    (hle : length ≤ width) :
    (∀ i < length, x.testBit (width - 1 - i) = y.testBit (width - 1 - i)) ↔
      x / 2 ^ (width - length) = y / 2 ^ (width - length) := by
  constructor
  · intro h
    refine Nat.eq_of_testBit_eq fun j => ?_
    rw [Nat.testBit_div_two_pow, Nat.testBit_div_two_pow]
    by_cases hj : j < length
    · have hbit := h (length - 1 - j) (by omega)
      have hplace : width - 1 - (length - 1 - j) = j + (width - length) := by omega
      rwa [hplace] at hbit
    · -- no number has bits above the width
      have hpow : 2 ^ width ≤ 2 ^ (j + (width - length)) :=
        Nat.pow_le_pow_right (by decide) (by omega)
      rw [Nat.testBit_lt_two_pow (by omega), Nat.testBit_lt_two_pow (by omega)]
  · intro h i hi
    have hbit := congrArg (Nat.testBit · (length - 1 - i)) h
    have hplace : length - 1 - i + (width - length) = width - 1 - i := by omega
    simpa only [Nat.testBit_div_two_pow, hplace] using hbit

/-! ## Addresses of a range -/

namespace Range

variable {f g : Range}

theorem contains_low (f : Range) : f.contains f.low :=
  ⟨rfl, Nat.le_refl _, f.le⟩

theorem contains_high (f : Range) : f.contains f.high :=
  ⟨f.family_eq, f.le, Nat.le_refl _⟩

/-- Ranges of the same addresses have the same bounds. -/
theorem bounds_eq_of_contains (h : ∀ x, f.contains x ↔ g.contains x) :
    f.low = g.low ∧ f.high = g.high := by
  obtain ⟨hfamily, hlow, -⟩ := (h f.low).mp f.contains_low
  obtain ⟨-, hlow', -⟩ := (h g.low).mpr g.contains_low
  obtain ⟨-, -, hhigh⟩ := (h f.high).mp f.contains_high
  obtain ⟨-, -, hhigh'⟩ := (h g.high).mpr g.contains_high
  refine ⟨Address.ext hfamily (Nat.le_antisymm hlow' hlow), Address.ext ?_ ?_⟩
  · exact f.family_eq.trans (hfamily.trans g.family_eq.symm)
  · exact Nat.le_antisymm hhigh hhigh'

theorem highText_eq_empty_iff (f : Range) : f.highText = "" ↔ f.low = f.high := by
  unfold highText isSingle
  by_cases h : f.low = f.high
  · simp [h]
  · simp [h, Address.toText_ne_empty]

theorem contains_single {a x : Address} : (single a).contains x ↔ x = a := by
  constructor
  · rintro ⟨hfamily, hlow, hhigh⟩
    exact Address.ext hfamily (Nat.le_antisymm hhigh hlow)
  · rintro rfl
    exact contains_low (single x)

theorem contains_between {a b x : Address} (h : a.family = b.family) :
    (between a b h).contains x ↔ x.family = a.family ∧
      min a.number b.number ≤ x.number ∧ x.number ≤ max a.number b.number := by
  unfold between
  split
  · next hab => rw [Nat.min_eq_left hab, Nat.max_eq_right hab]; rfl
  · next hab =>
    have hba : b.number ≤ a.number := by omega
    rw [Nat.min_eq_right hba, Nat.max_eq_left hba, h]
    rfl

theorem low_ofBlock (b : Block) : (ofBlock b).low = b.first := by
  unfold ofBlock
  split <;> rfl

theorem high_ofBlock (b : Block) : (ofBlock b).high = b.last := by
  unfold ofBlock
  split
  · next h => exact h
  · rfl

/-- A block holds the addresses that share its leading bits. -/
theorem contains_ofBlock {b : Block} {x : Address} :
    (ofBlock b).contains x ↔ x.family = b.address.family ∧
      ∀ i < b.prefixLength, x.bit i = b.address.bit i := by
  unfold contains family
  rw [low_ofBlock, high_ofBlock]
  refine and_congr_right fun hfamily => ?_
  have hfamily' : x.family = b.address.family := hfamily
  have hx : x.number < 2 ^ b.address.family.width := hfamily' ▸ x.number_lt
  unfold Address.bit
  rw [hfamily', testBit_agree_iff hx b.address.number_lt b.le_width]
  -- the block starts at the number whose other bits are all zero
  show b.address.number / b.size * b.size ≤ x.number ∧
      x.number ≤ b.address.number / b.size * b.size + (b.size - 1) ↔
    x.number / b.size = b.address.number / b.size
  have hsize := b.size_pos
  rw [Nat.div_eq_iff hsize]
  constructor
  · rintro ⟨hlow, hhigh⟩
    exact ⟨hlow, by omega⟩
  · rintro ⟨hlow, hhigh⟩
    exact ⟨hlow, by omega⟩

end Range

/-! ## Forms -/

/-- What a text can write down. -/
inductive Form where
  | address (a : Address)
  /-- Two addresses in any order. -/
  | span (a b : Address) (family : a.family = b.family)
  | block (b : Block)

/-- These texts stand before and after the first dash of a text, blank characters around it
aside. -/
def AroundDash (s left right : String) : Prop :=
  trim s = left ++ "-" ++ right ∧ '-' ∉ left.toList

/-- The texts around the first dash of a text name addresses of different families. -/
def Mixes (s left right : String) : Prop :=
  AroundDash s left right ∧ ∃ a b, Address.ofText? left = some a ∧ Address.ofText? right = some b ∧
    a.family ≠ b.family

namespace Form

/-- The addresses that are meant. -/
def Means : Form → Address → Prop
  | address a, x => x = a
  | span a b _, x => x.family = a.family ∧
      min a.number b.number ≤ x.number ∧ x.number ≤ max a.number b.number
  | block b, x => x.family = b.address.family ∧ ∀ i < b.prefixLength, x.bit i = b.address.bit i

/-- The text has the form, blank characters around it aside. -/
def WrittenBy : Form → String → Prop
  | address a, s => '/' ∉ s.toList ∧ Address.ofText? s = some a
  | span a b _, s => '/' ∉ s.toList ∧ ∃ left right, AroundDash s left right ∧
      Address.ofText? left = some a ∧ Address.ofText? right = some b
  | block b, s => Block.ofChars? (trim s).toList = some b

/-- The range of the form. -/
def range : Form → Range
  | address a => .single a
  | span a b h => .between a b h
  | block b => .ofBlock b

/-- The range of a form contains what the form means. -/
theorem contains_range (form : Form) (x : Address) : form.range.contains x ↔ form.Means x := by
  cases form with
  | address a => exact Range.contains_single
  | span a b h => exact Range.contains_between h
  | block b => exact Range.contains_ofBlock

end Form

/-! ## Reading forms -/

theorem aroundDash_iff {s left right : String} :
    AroundDash s left right ↔ cut '-' (trim s).toList = some (left.toList, right.toList) := by
  have happend : (left ++ "-" ++ right).toList = left.toList ++ '-' :: right.toList := by simp
  constructor
  · rintro ⟨htrim, hdash⟩
    rw [htrim, happend, cut_append_cons hdash]
  · intro hcut
    obtain ⟨hchars, hdash⟩ := cut_eq_some hcut
    exact ⟨String.toList_injective (hchars.trans happend.symm), hdash⟩

/-- Trimming takes no slash away. -/
theorem slash_mem_trim (s : String) : '/' ∈ (trim s).toList ↔ '/' ∈ s.toList := by
  rw [trim, String.toList_ofList]
  exact ⟨fun h => (trimChars_sublist _).subset h, fun h => mem_trimChars h (by decide)⟩

theorem slash_not_mem_of_around {s left right : String} {a b : Address}
    (haround : AroundDash s left right) (hleft : Address.ofText? left = some a)
    (hright : Address.ofText? right = some b) : '/' ∉ s.toList := by
  rw [← slash_mem_trim, haround.1]
  simp [(Address.not_mem_of_ofText? hleft).1, (Address.not_mem_of_ofText? hright).1]

namespace Range

variable {s left right : String}

theorem ofValue_of_slash (h : '/' ∈ s.toList) :
    ofValue s = match Block.ofChars? (trim s).toList with
      | some b => .ok (ofBlock b)
      | none => .error (.value (trim s)) := by
  have hchars : (trim s).toList = trimChars s.toList := String.toList_ofList
  have hslash : (trimChars s.toList).contains '/' := by
    rw [List.contains_iff_mem, ← hchars, slash_mem_trim]
    exact h
  rw [ofValue, hchars]
  dsimp only
  rw [if_pos hslash]
  rfl

theorem ofValue_of_around (h : '/' ∉ s.toList) (haround : AroundDash s left right) :
    ofValue s = match Address.ofText? left, Address.ofText? right with
      | some a, some b => ofPair a b (trim left) (trim right)
      | _, _ => .error (.value (trim s)) := by
  have hchars : (trim s).toList = trimChars s.toList := String.toList_ofList
  have hslash : ¬(trimChars s.toList).contains '/' := by
    rw [List.contains_iff_mem, ← hchars, slash_mem_trim]
    exact h
  have hcut := aroundDash_iff.mp haround
  rw [hchars] at hcut
  rw [ofValue]
  dsimp only
  rw [if_neg hslash, hcut]
  dsimp only
  have htrim : ∀ t : String, String.ofList (trimChars t.toList) = trim t := fun _ => rfl
  rw [htrim, htrim, Address.ofText?_trim, Address.ofText?_trim]
  rfl

theorem ofValue_of_no_dash (h : '/' ∉ s.toList) (hdash : cut '-' (trim s).toList = none) :
    ofValue s = match Address.ofText? s with
      | some a => .ok (single a)
      | none => .error (.value (trim s)) := by
  have hchars : (trim s).toList = trimChars s.toList := String.toList_ofList
  have hslash : ¬(trimChars s.toList).contains '/' := by
    rw [List.contains_iff_mem, ← hchars, slash_mem_trim]
    exact h
  rw [hchars] at hdash
  rw [ofValue]
  dsimp only
  rw [if_neg hslash, hdash]
  rfl

/-- A text that names a range is not blank. -/
theorem not_blank_of_ofValue {f : Range} (h : ofValue s = .ok f) : allBlank s = false := by
  by_contra hblank
  rw [Bool.not_eq_false] at hblank
  have htrim : (trim s).toList = [] := by
    rw [trim, String.toList_ofList, trimChars_of_allBlank hblank]
  have hslash : '/' ∉ s.toList := by
    rw [← slash_mem_trim, htrim]
    exact List.not_mem_nil
  have hdash : cut '-' (trim s).toList = none := by
    rw [htrim]
    rfl
  rw [ofValue_of_no_dash hslash hdash] at h
  cases hread : Address.ofText? s with
  | none =>
    rw [hread] at h
    cases h
  | some a =>
    rw [Address.allBlank_of_ofText? hread] at hblank
    cases hblank

theorem not_blank_of_ofBounds {lower upper : String} {f : Range}
    (h : ofBounds lower upper = .ok f) : allBlank lower = false := by
  unfold ofBounds at h
  split at h
  · cases h
  · next a hread => exact Address.allBlank_of_ofText? hread

end Range

/-- A text of a form reads as the range of the form. -/
theorem Form.WrittenBy.ofValue {form : Form} {s : String} (h : form.WrittenBy s) :
    Range.ofValue s = .ok form.range := by
  cases form with
  | address a =>
    obtain ⟨hslash, hread⟩ := h
    have hdash : cut '-' (trim s).toList = none := by
      rw [← Address.ofText?_trim] at hread
      exact cut_of_not_mem (Address.not_mem_of_ofText? hread).2
    rw [Range.ofValue_of_no_dash hslash hdash, hread]
    rfl
  | span a b hfamily =>
    obtain ⟨hslash, left, right, haround, hleft, hright⟩ := h
    rw [Range.ofValue_of_around hslash haround, hleft, hright]
    exact dif_pos hfamily
  | block b =>
    have hslash : '/' ∈ s.toList := by
      obtain ⟨⟨left, right⟩, hcut, -⟩ := Option.bind_eq_some_iff.mp h
      rw [← slash_mem_trim, (cut_eq_some hcut).1]
      simp
    rw [Range.ofValue_of_slash hslash, h]
    rfl

theorem Mixes.ofValue {s left right : String} (h : Mixes s left right) :
    Range.ofValue s = .error (.families (trim left) (trim right)) := by
  obtain ⟨haround, a, b, hleft, hright, hfamily⟩ := h
  rw [Range.ofValue_of_around (slash_not_mem_of_around haround hleft hright) haround, hleft, hright]
  exact dif_neg hfamily

/-- A text that has none of the forms and mixes no families names nothing. -/
theorem written_or_mixes_or_invalid (s : String) :
    (∃ form : Form, form.WrittenBy s) ∨ (∃ left right, Mixes s left right) ∨
      Range.ofValue s = .error (.value (trim s)) := by
  by_cases hslash : '/' ∈ s.toList
  · rw [Range.ofValue_of_slash hslash]
    cases hblock : Block.ofChars? (trim s).toList with
    | some b => exact Or.inl ⟨.block b, hblock⟩
    | none => exact Or.inr (Or.inr rfl)
  · cases hcut : cut '-' (trim s).toList with
    | some parts =>
      obtain ⟨left, right⟩ := parts
      have haround : AroundDash s (String.ofList left) (String.ofList right) := by
        rw [aroundDash_iff, String.toList_ofList, String.toList_ofList, hcut]
      rw [Range.ofValue_of_around hslash haround]
      cases hleft : Address.ofText? (String.ofList left) with
      | none => exact Or.inr (Or.inr rfl)
      | some a =>
        cases hright : Address.ofText? (String.ofList right) with
        | none => exact Or.inr (Or.inr rfl)
        | some b =>
          by_cases hfamily : a.family = b.family
          · exact Or.inl ⟨.span a b hfamily, hslash, _, _, haround, hleft, hright⟩
          · exact Or.inr (Or.inl ⟨_, _, haround, a, b, hleft, hright, hfamily⟩)
    | none =>
      rw [Range.ofValue_of_no_dash hslash hcut]
      cases hread : Address.ofText? s with
      | some a => exact Or.inl ⟨.address a, hslash, hread⟩
      | none => exact Or.inr (Or.inr rfl)

/-! ## Meaning -/

namespace Range

variable {s : String}

theorem exists_ofValue_iff : (∃ f, ofValue s = .ok f) ↔ ∃ form : Form, form.WrittenBy s := by
  constructor
  · rintro ⟨f, hread⟩
    rcases written_or_mixes_or_invalid s with hform | ⟨_, _, hmixes⟩ | hinvalid
    · exact hform
    · rw [hmixes.ofValue] at hread
      cases hread
    · rw [hinvalid] at hread
      cases hread
  · rintro ⟨form, hform⟩
    exact ⟨form.range, hform.ofValue⟩

theorem ofValue_eq_error_iff {e : RangeError} : ofValue s = .error e ↔
    (∃ left right, Mixes s left right ∧ e = .families (trim left) (trim right)) ∨
    ((∀ form : Form, ¬form.WrittenBy s) ∧ (∀ left right, ¬Mixes s left right) ∧
      e = .value (trim s)) := by
  constructor
  · intro hread
    rcases written_or_mixes_or_invalid s with ⟨_, hform⟩ | ⟨left, right, hmixes⟩ | hinvalid
    · rw [hform.ofValue] at hread
      cases hread
    · rw [hmixes.ofValue] at hread
      cases hread
      exact Or.inl ⟨left, right, hmixes, rfl⟩
    · rw [hinvalid] at hread
      cases hread
      refine Or.inr ⟨fun form hform => ?_, fun left right hmixes => ?_, rfl⟩
      · rw [hform.ofValue] at hinvalid
        cases hinvalid
      · rw [hmixes.ofValue] at hinvalid
        cases hinvalid
  · rintro (⟨left, right, hmixes, rfl⟩ | ⟨hforms, hmixes, rfl⟩)
    · exact hmixes.ofValue
    · rcases written_or_mixes_or_invalid s with ⟨form, hform⟩ | ⟨left, right, hmix⟩ | hinvalid
      · exact absurd hform (hforms form)
      · exact absurd hmix (hmixes left right)
      · exact hinvalid

end Range

/-- A text of a form is read as the range of the form and as no other. -/
theorem Form.WrittenBy.range_eq {form : Form} {s : String} {f : Range} (h : form.WrittenBy s)
    (hread : Range.ofValue s = .ok f) : f = form.range :=
  Except.ok.inj (hread.symm.trans h.ofValue)

/-- A text is read exactly if it has a form. The two sides of a dash are named in the error when
they are addresses of different families, the whole text is in any other case. What is read contains
the addresses that the form means, between bounds in ascending order of which the upper one is left
empty when it is the lower one. Bounds and keys depend on the addresses alone. -/
theorem value_denotes (s : String) :
    ((∃ f, Range.ofValue s = .ok f) ↔ ∃ form : Form, form.WrittenBy s) ∧
    (∀ e, Range.ofValue s = .error e ↔
      (∃ left right, Mixes s left right ∧ e = .families (trim left) (trim right)) ∨
      ((∀ form : Form, ¬form.WrittenBy s) ∧ (∀ left right, ¬Mixes s left right) ∧
        e = .value (trim s))) ∧
    (∀ (f : Range) (form : Form), Range.ofValue s = .ok f → form.WrittenBy s →
      (∀ x, f.contains x ↔ form.Means x) ∧
      f.high.family = f.low.family ∧ f.low.number ≤ f.high.number ∧
      (f.highText = "" ↔ f.low = f.high) ∧
      ∀ (t : String) (g : Range) (other : Form), Range.ofValue t = .ok g → other.WrittenBy t →
        (∀ x, form.Means x ↔ other.Means x) →
          f.lowText = g.lowText ∧ f.highText = g.highText ∧
          f.low.key = g.low.key ∧ f.high.key = g.high.key) := by
  refine ⟨Range.exists_ofValue_iff, fun e => Range.ofValue_eq_error_iff, ?_⟩
  intro f form hread hform
  cases hform.range_eq hread
  refine ⟨form.contains_range, form.range.family_eq, form.range.le,
    form.range.highText_eq_empty_iff, ?_⟩
  intro t g other hread' hother hsame
  cases hother.range_eq hread'
  have hcontains : ∀ x, form.range.contains x ↔ other.range.contains x := fun x =>
    (form.contains_range x).trans ((hsame x).trans (other.contains_range x).symm)
  obtain ⟨hlow, hhigh⟩ := Range.bounds_eq_of_contains hcontains
  refine ⟨congrArg Address.toText hlow, ?_, congrArg Address.key hlow, congrArg Address.key hhigh⟩
  rw [Range.highText, Range.highText, Range.isSingle, Range.isSingle, hlow, hhigh]

/-- A block of mapped addresses that is written with a leading zero and around an address inside
it. -/
theorem value_denotes_of_mapped_block :
    ∃ f, Range.ofValue "::ffff:010.1.2.3/126" = .ok f ∧
      f.lowText = "::ffff:10.1.2.0" ∧ f.highText = "::ffff:10.1.2.3" ∧
      ∀ x, f.contains x ↔
        x.family = .v6 ∧ ∀ i < 126, x.bit i = Address.bit ⟨.v6, 0xffff0a010203, by decide⟩ i := by
  have hform : (Form.block ⟨⟨.v6, 0xffff0a010203, by decide⟩, 126, by decide⟩).WrittenBy
      "::ffff:010.1.2.3/126" := by
    show Block.ofChars? _ = some _
    decide +kernel
  have htexts : (Range.ofValue "::ffff:010.1.2.3/126").toOption.map
      (fun f => (f.lowText, f.highText)) = some ("::ffff:10.1.2.0", "::ffff:10.1.2.3") := by
    decide +kernel
  obtain ⟨f, hread⟩ := (value_denotes _).1.mpr ⟨_, hform⟩
  rw [hread] at htexts
  obtain ⟨hlow, hhigh⟩ := Prod.mk.inj (Option.some.inj htexts)
  exact ⟨f, hread, hlow, hhigh, ((value_denotes _).2.2 f _ hread hform).1⟩

/-! ## Reading the texts of a range again -/

/-- The range between the bounds of a range has no prefix length. -/
theorem Range.between_bounds (f : Range) :
    Range.between f.low f.high f.family_eq.symm =
      ⟨f.low, f.high, none, f.family_eq, f.le⟩ :=
  dif_pos f.le

/-- The texts of the bounds read as the range between them. -/
theorem Range.ofBounds_texts (f : Range) :
    Range.ofBounds f.lowText f.highText = .ok (.between f.low f.high f.family_eq.symm) := by
  have hlow : Address.ofText? f.lowText = some f.low := Address.ofText?_toText f.low
  rw [Range.ofBounds, hlow]
  dsimp only
  by_cases hsingle : f.low = f.high
  · have hblank : f.highText = "" := f.highText_eq_empty_iff.mpr hsingle
    rw [hblank, if_pos (by decide), f.between_bounds]
    simp only [Range.single, hsingle]
  · have htext : f.highText = f.high.toText := by simp [Range.highText, Range.isSingle, hsingle]
    have hhigh : Address.ofText? f.high.toText = some f.high := Address.ofText?_toText f.high
    rw [htext, if_neg (by simp [Address.allBlank_of_ofText? hhigh]), hhigh]
    exact dif_pos f.family_eq.symm

/-- A range that a text or a pair of bounds was read as is read again from its own text, and its
bounds from their texts, written the same. -/
theorem normal_texts_read_again {f : Range}
    (h : (∃ s, Range.ofValue s = .ok f) ∨ ∃ lower upper, Range.ofBounds lower upper = .ok f) :
    Range.ofValue f.toText = .ok f ∧
      ∃ g, Range.ofBounds f.lowText f.highText = .ok g ∧ g.low = f.low ∧ g.high = f.high ∧
        g.lowText = f.lowText ∧ g.highText = f.highText := by
  have hnormal : f.Normal := by
    rcases h with ⟨_, hread⟩ | ⟨_, _, hread⟩
    · exact Range.normal_of_ofValue hread
    · exact Range.normal_of_ofBounds hread
  refine ⟨Range.ofValue_toText hnormal, _, Range.ofBounds_texts f, ?_⟩
  rw [f.between_bounds]
  exact ⟨rfl, rfl, rfl, rfl⟩

/-- A block of mapped addresses, which reads as itself and whose bounds read without its length. -/
theorem normal_texts_read_again_of_mapped_block :
    (Range.ofValue "::ffff:010.1.2.3/126").toOption.map Range.toText =
        some "::ffff:10.1.2.0/126" ∧
      ∃ f, Range.ofValue "::ffff:010.1.2.3/126" = .ok f ∧
        Range.ofValue "::ffff:10.1.2.0/126" = .ok f ∧
        ∃ g, Range.ofBounds f.lowText f.highText = .ok g ∧ g.low = f.low ∧ g.high = f.high := by
  have htext : (Range.ofValue "::ffff:010.1.2.3/126").toOption.map Range.toText =
      some "::ffff:10.1.2.0/126" := by decide +kernel
  refine ⟨htext, ?_⟩
  cases hread : Range.ofValue "::ffff:010.1.2.3/126" with
  | error e =>
    rw [hread] at htext
    cases htext
  | ok f =>
    rw [hread] at htext
    obtain ⟨hagain, g, hbounds, hlow, hhigh, -⟩ := normal_texts_read_again (Or.inl ⟨_, hread⟩)
    rw [Option.some.inj htext] at hagain
    exact ⟨f, rfl, hagain, g, hbounds, hlow, hhigh⟩

end FirewallLists.Net
