import FirewallLists.Proofs.Net.AddressText

/-
  The canonical text of a range reads as the range (`Range.ofValue_toText`), in each of the three
  ways it is written: one address, two with a dash between them, or a block. A block is read by a
  looser grammar than addresses that stand alone, but canonical texts read the same in both, and
  the block around its own first address is the same block again (`Block.ofBlock_atFirst`).
-/

namespace FirewallLists.Net

open FirewallLists.Text

/-! ## Blocks -/

namespace Block

variable (b : Block)

/-- The block of the same length around the first address. -/
def atFirst : Block :=
  ⟨b.first, b.prefixLength, b.le_width⟩

theorem first_atFirst : b.atFirst.first = b.first := by
  have hsize : b.atFirst.size = b.size := rfl
  have hnumber : b.atFirst.firstNumber = b.firstNumber := by
    show b.firstNumber / b.atFirst.size * b.atFirst.size = b.firstNumber
    rw [hsize, firstNumber, Nat.mul_div_cancel _ b.size_pos]
  exact Address.ext rfl hnumber

theorem last_atFirst : b.atFirst.last = b.last := by
  have hfirst := congrArg Address.number b.first_atFirst
  have hnumber : b.atFirst.firstNumber = b.firstNumber := hfirst
  have hlast : b.atFirst.firstNumber + (b.atFirst.size - 1) = b.firstNumber + (b.size - 1) := by
    rw [hnumber]
    rfl
  exact Address.ext rfl hlast

/-- A block is that around its own first address. -/
theorem ofBlock_atFirst : Range.ofBlock b.atFirst = Range.ofBlock b := by
  have hfirst := b.first_atFirst
  have hlast := b.last_atFirst
  unfold Range.ofBlock
  simp only [hfirst, hlast]
  rfl

theorem length_toDigits_prefixLength :
    (Nat.toDigits 10 b.prefixLength).length ≤ prefixDigits b.address.family := by
  have hle := b.le_width
  cases hfamily : b.address.family with
  | v4 =>
    rw [hfamily] at hle
    have hlt : b.prefixLength < 10 ^ 2 := Nat.lt_of_le_of_lt hle (by decide)
    exact (Nat.length_toDigits_le_iff (by decide) (by decide)).mpr hlt
  | v6 =>
    rw [hfamily] at hle
    have hlt : b.prefixLength < 10 ^ 3 := Nat.lt_of_le_of_lt hle (by decide)
    exact (Nat.length_toDigits_le_iff (by decide) (by decide)).mpr hlt

/-- An address before a slash and a prefix length reads as their block. -/
theorem ofChars?_chars :
    ofChars? (b.address.chars ++ '/' :: Nat.toDigits 10 b.prefixLength) = some b := by
  have hslash : '/' ∉ b.address.chars :=
    fun hmem => (Address.isWritten_of_mem_chars hmem).ne.2.1 rfl
  rw [ofChars?, cut_append_cons hslash]
  simp only [Option.bind_eq_bind, Option.bind_some, Grammar.address_chars,
    if_pos b.length_toDigits_prefixLength, decimal?_toDigits, dif_pos b.le_width]

end Block

namespace Range

/-! ## Ranges that texts name -/

/-- The range is one that texts name: a prefix length comes with the bounds of its block. -/
def Normal (f : Range) : Prop :=
  f.blockPrefix = none ∨ ∃ b, f = ofBlock b

variable {f : Range}

theorem normal_single (a : Address) : (single a).Normal :=
  Or.inl rfl

theorem normal_of_ofPair {a b : Address} {lower upper : String}
    (h : ofPair a b lower upper = .ok f) : f.Normal := by
  unfold ofPair at h
  split at h
  · cases h
    unfold between
    split <;> exact Or.inl rfl
  · cases h

theorem normal_of_ofValue {s : String} (h : ofValue s = .ok f) : f.Normal := by
  unfold ofValue at h
  dsimp only at h
  split at h
  · split at h
    · next b _ => cases h; exact Or.inr ⟨b, rfl⟩
    · cases h
  · split at h
    · split at h
      · exact normal_of_ofPair h
      · cases h
    · split at h
      · cases h; exact normal_single _
      · cases h

theorem normal_of_ofBounds {lower upper : String} (h : ofBounds lower upper = .ok f) :
    f.Normal := by
  unfold ofBounds at h
  split at h
  · cases h
  · split at h
    · cases h; exact normal_single _
    · split at h
      · cases h
      · exact normal_of_ofPair h

/-! ## Reading the text again -/

theorem not_mem_chars {c : Char} (hc : c = '/' ∨ c = '-') (a : Address) : c ∉ a.chars := by
  intro hmem
  obtain ⟨-, hslash, hdash⟩ := (Address.isWritten_of_mem_chars hmem).ne
  exact hc.elim hslash hdash

theorem ofValue_single (a : Address) : ofValue a.toText = .ok (single a) := by
  have hchars : a.toText.toList = a.chars := String.toList_ofList
  have hslash : a.chars.contains '/' = false := by
    simpa using not_mem_chars (Or.inl rfl) a
  rw [ofValue, hchars, trimChars_of_not_blank fun _ => Address.not_blank_of_mem_chars]
  simp only [hslash, cut_of_not_mem (not_mem_chars (Or.inr rfl) a), Address.ofText?_toText]
  rfl

theorem ofValue_pair {a b : Address} (h : a.family = b.family) (hle : a.number ≤ b.number) :
    ofValue (a.toText ++ "-" ++ b.toText) = .ok ⟨a, b, none, h.symm, hle⟩ := by
  have hchars : (a.toText ++ "-" ++ b.toText).toList = a.chars ++ '-' :: b.chars := by
    simp [Address.toText]
  have hblank : ∀ c ∈ a.chars ++ '-' :: b.chars, isBlank c = false := by
    intro c hc
    rcases List.mem_append.mp hc with hc | hc
    · exact Address.not_blank_of_mem_chars hc
    · rcases List.mem_cons.mp hc with rfl | hc
      · decide
      · exact Address.not_blank_of_mem_chars hc
  have hslash : (a.chars ++ '-' :: b.chars).contains '/' = false := by
    simp [not_mem_chars (Or.inl rfl)]
  have htrim : ∀ a : Address, String.ofList (trimChars a.chars) = a.toText := by
    intro a
    rw [trimChars_of_not_blank fun _ => Address.not_blank_of_mem_chars]
    rfl
  rw [ofValue, hchars, trimChars_of_not_blank hblank]
  simp only [hslash, cut_append_cons (not_mem_chars (Or.inr rfl) a), htrim,
    Address.ofText?_toText, ofPair, dif_pos h, between, dif_pos hle]
  rfl

theorem ofValue_block (b : Block) :
    ofValue (b.address.toText ++ "/" ++ toString b.prefixLength) = .ok (ofBlock b) := by
  have hchars : (b.address.toText ++ "/" ++ toString b.prefixLength).toList =
      b.address.chars ++ '/' :: Nat.toDigits 10 b.prefixLength := by
    simp [Address.toText]
  have hblank : ∀ c ∈ b.address.chars ++ '/' :: Nat.toDigits 10 b.prefixLength,
      isBlank c = false := by
    intro c hc
    rcases List.mem_append.mp hc with hc | hc
    · exact Address.not_blank_of_mem_chars hc
    · rcases List.mem_cons.mp hc with rfl | hc
      · decide
      · exact Address.not_blank_of_mem_toDigits hc
  rw [ofValue, hchars, trimChars_of_not_blank hblank]
  simp [b.ofChars?_chars]

theorem toText_single (a : Address) : (single a).toText = a.toText := by
  simp [toText, isSingle, single]

theorem toText_ofBlock {b : Block} (h : b.first ≠ b.last) :
    (ofBlock b).toText = b.first.toText ++ "/" ++ toString b.prefixLength := by
  rw [ofBlock, if_neg h]
  simp [toText, isSingle, h]

/-- The canonical text of a range that texts name reads as the range. -/
theorem ofValue_toText (h : f.Normal) : ofValue f.toText = .ok f := by
  rcases h with hnone | ⟨b, rfl⟩
  · obtain ⟨low, high, blockPrefix, hfamily, hle⟩ := f
    dsimp only at hnone
    subst hnone
    by_cases hsingle : low = high
    · subst hsingle
      have hread := ofValue_single low
      rw [← toText_single] at hread
      exact hread
    · have hread := ofValue_pair hfamily.symm hle
      simpa [toText, isSingle, hsingle] using hread
  · by_cases hsingle : b.first = b.last
    · rw [ofBlock, if_pos hsingle, toText_single, ofValue_single]
    · have hread := ofValue_block b.atFirst
      rw [b.ofBlock_atFirst] at hread
      rw [toText_ofBlock hsingle]
      exact hread

/-! ## The characters of the text -/

/-- A range is written with the characters of addresses and with a slash or a dash. -/
theorem isWritten_of_mem_toText {c : Char} (h : c ∈ f.toText.toList) :
    Address.IsWritten c ∨ c = '/' ∨ c = '-' := by
  have haddress : ∀ a : Address, c ∈ a.toText.toList → Address.IsWritten c :=
    fun a hc => Address.isWritten_of_mem_chars (String.toList_ofList ▸ hc)
  unfold toText at h
  split at h
  · exact Or.inl (haddress _ h)
  · split at h
    · next length _ =>
      have hchars : (f.low.toText ++ "/" ++ toString length).toList =
          f.low.toText.toList ++ '/' :: Nat.toDigits 10 length := by
        simp
      rw [hchars, List.mem_append, List.mem_cons] at h
      rcases h with hlow | rfl | hlength
      · exact Or.inl (haddress _ hlow)
      · exact Or.inr (Or.inl rfl)
      · obtain ⟨d, hd, rfl⟩ := exists_digitChar_of_mem_toDigits (by decide) hlength
        exact Or.inl (Or.inr (Or.inr ⟨d, by omega, rfl⟩))
    · have hchars : (f.low.toText ++ "-" ++ f.high.toText).toList =
          f.low.toText.toList ++ '-' :: f.high.toText.toList := by
        simp
      rw [hchars, List.mem_append, List.mem_cons] at h
      rcases h with hlow | rfl | hhigh
      · exact Or.inl (haddress _ hlow)
      · exact Or.inr (Or.inr rfl)
      · exact Or.inl (haddress _ hhigh)

end Range

end FirewallLists.Net
