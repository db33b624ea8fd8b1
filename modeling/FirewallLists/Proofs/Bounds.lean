import FirewallLists.Proofs.Net.RangeMeaning
import FirewallLists.Proofs.Service.Progress

/-
  Two bounds, and one text with a dash between them. The text is cut at its first dash, and since no
  address has a dash or a slash, it names two addresses exactly if the texts on both sides of the
  dash do, with blank characters anywhere around them (`Range.ofValue_dash`). So bounds and the text
  made of them are read alike, in either order, and an item is the same whichever of the two it is
  written by (`bounds_agree_with_value`).
-/

namespace FirewallLists

open Net Text

namespace Net

/-! ## A dash between two texts -/

theorem toList_dash (a b : String) : (a ++ "-" ++ b).toList = a.toList ++ '-' :: b.toList := by
  simp

theorem not_blank_dash (a b : String) : allBlank (a ++ "-" ++ b) = false := by
  have hdash : isBlank '-' = false := by decide
  rw [allBlank, toList_dash]
  simp [hdash]

/-- The first dash of two texts with a dash between them, if the first text has none. -/
theorem aroundDash_append {a : String} (h : '-' ∉ a.toList) (b : String) :
    AroundDash (a ++ "-" ++ b) (String.ofList (a.toList.dropWhile isBlank))
      (String.ofList (b.toList.rdropWhile isBlank)) := by
  have htrim : (trim (a ++ "-" ++ b)).toList =
      a.toList.dropWhile isBlank ++ '-' :: b.toList.rdropWhile isBlank := by
    rw [trim, String.toList_ofList, toList_dash, trimChars_append_cons (by decide)]
  rw [aroundDash_iff, htrim, String.toList_ofList, String.toList_ofList]
  exact cut_append_cons (fun hmem => h ((List.dropWhile_sublist isBlank).subset hmem)) _

theorem trim_front (a : String) : trim (String.ofList (a.toList.dropWhile isBlank)) = trim a := by
  rw [trim, String.toList_ofList, trimChars_dropWhile, trim]

theorem trim_back (b : String) : trim (String.ofList (b.toList.rdropWhile isBlank)) = trim b := by
  rw [trim, String.toList_ofList, trimChars_rdropWhile, trim]

namespace Address

/-- Texts that are trimmed to the same name the same address. -/
theorem ofText?_of_trim {s t : String} (h : trim s = trim t) : ofText? s = ofText? t := by
  rw [← ofText?_trim, h, ofText?_trim]

theorem ofText?_of_dash {s : String} (h : '-' ∈ s.toList) : ofText? s = none := by
  cases hread : ofText? s with
  | none => rfl
  | some x => exact absurd h (not_mem_of_ofText? hread).2

end Address

/-- A block has no dash. -/
theorem Block.ofChars?_of_dash {cs : List Char} (h : '-' ∈ cs) : ofChars? cs = none := by
  cases hread : ofChars? cs with
  | none => rfl
  | some block =>
    simp only [ofChars?, Option.bind_eq_bind, Option.bind_eq_some_iff] at hread
    obtain ⟨⟨left, right⟩, hcut, address, haddress, hread⟩ := hread
    rw [(cut_eq_some hcut).1, List.mem_append, List.mem_cons] at h
    rcases h with h | h | h
    · exact absurd rfl (Grammar.isRead_of_address haddress _ h).ne.2
    · cases h
    · split at hread
      · obtain ⟨length, hlength, -⟩ := Option.bind_eq_some_iff.mp hread
        exact absurd (isSome_of_decimal? hlength _ h) (by decide)
      · cases hread

namespace Range

/-- Two texts with a dash between them are read one by one. -/
theorem ofValue_dash (a b : String) :
    ofValue (a ++ "-" ++ b) = match Address.ofText? a, Address.ofText? b with
      | some x, some y => ofPair x y (trim a) (trim b)
      | _, _ => .error (.value (trim (a ++ "-" ++ b))) := by
  by_cases hslash : '/' ∈ (a ++ "-" ++ b).toList
  · have hdash : '-' ∈ (trim (a ++ "-" ++ b)).toList := by
      rw [trim, String.toList_ofList]
      exact mem_trimChars (by simp) (by decide)
    rw [ofValue_of_slash hslash, Block.ofChars?_of_dash hdash]
    rw [toList_dash, List.mem_append, List.mem_cons] at hslash
    cases hleft : Address.ofText? a with
    | none => rfl
    | some x =>
      cases hright : Address.ofText? b with
      | none => rfl
      | some y =>
        have hnot := (Address.not_mem_of_ofText? hleft).1
        have hnot' := (Address.not_mem_of_ofText? hright).1
        simp [hnot, hnot'] at hslash
  · by_cases hdash : '-' ∈ a.toList
    · -- the first dash is within the first text, so there is another one behind it
      obtain ⟨left, right, hcut, hnot⟩ := List.eq_append_cons_of_mem hdash
      have hsides :
          a ++ "-" ++ b = String.ofList left ++ "-" ++ (String.ofList right ++ "-" ++ b) :=
        String.toList_injective (by simp [hcut])
      have hnot' : '-' ∉ (String.ofList left).toList := by rwa [String.toList_ofList]
      have hnone : Address.ofText? (String.ofList right ++ "-" ++ b) = none :=
        Address.ofText?_of_dash (by simp)
      rw [Address.ofText?_of_dash hdash]
      rw [hsides] at hslash ⊢
      rw [ofValue_of_around hslash (aroundDash_append hnot' _),
        Address.ofText?_of_trim (trim_back _), hnone]
      split
      · next hsome => cases hsome
      · rfl
    · have haround := ofValue_of_around hslash (aroundDash_append hdash b)
      rw [Address.ofText?_of_trim (trim_front a), Address.ofText?_of_trim (trim_back b),
        trim_front, trim_back] at haround
      exact haround

/-! ## Two bounds -/

variable {a b : String} {f : Range}

theorem between_comm {x y : Address} (h : x.family = y.family) :
    between x y h = between y x h.symm := by
  unfold between
  split
  · next hle =>
    split
    · next hge =>
      obtain rfl : x = y := Address.ext h (Nat.le_antisymm hle hge)
      rfl
    · rfl
  · next hgt => rw [dif_pos (by omega)]

theorem ofPair_eq_ok_iff {x y : Address} {lower upper : String} :
    ofPair x y lower upper = .ok f ↔ ∃ h : x.family = y.family, f = between x y h := by
  unfold ofPair
  split
  · next h => simp [h, eq_comm]
  · next h => simp [h]

theorem ofPair_eq_families_iff {x y : Address} {lower upper lower' upper' : String} :
    ofPair x y lower upper = .error (.families lower' upper') ↔
      x.family ≠ y.family ∧ lower' = lower ∧ upper' = upper := by
  unfold ofPair
  split
  · next h => simp [h]
  · next h => simp [h, eq_comm]

/-- The texts name two addresses of one family, which are the bounds of the range. -/
def Bounded (a b : String) (f : Range) : Prop :=
  ∃ x y, Address.ofText? a = some x ∧ Address.ofText? b = some y ∧
    ∃ h : x.family = y.family, f = between x y h

/-- The texts name addresses of different families. -/
def Clash (a b : String) : Prop :=
  ∃ x y, Address.ofText? a = some x ∧ Address.ofText? b = some y ∧ x.family ≠ y.family

theorem Bounded.symm (h : Bounded a b f) : Bounded b a f := by
  obtain ⟨x, y, hx, hy, hfamily, rfl⟩ := h
  exact ⟨y, x, hy, hx, hfamily.symm, between_comm hfamily⟩

theorem ofValue_dash_eq_ok_iff : ofValue (a ++ "-" ++ b) = .ok f ↔ Bounded a b f := by
  unfold Bounded
  rw [ofValue_dash]
  cases Address.ofText? a with
  | none => simp
  | some x =>
    cases Address.ofText? b with
    | none => simp
    | some y => simp [ofPair_eq_ok_iff]

theorem ofValue_dash_eq_families_iff {lower upper : String} :
    ofValue (a ++ "-" ++ b) = .error (.families lower upper) ↔
      Clash a b ∧ lower = trim a ∧ upper = trim b := by
  unfold Clash
  rw [ofValue_dash]
  cases Address.ofText? a with
  | none => simp
  | some x =>
    cases Address.ofText? b with
    | none => simp
    | some y => simp [ofPair_eq_families_iff]

section

variable (hb : allBlank b = false)

include hb

theorem ofBounds_eq_ok_iff : ofBounds a b = .ok f ↔ Bounded a b f := by
  unfold Bounded ofBounds
  cases Address.ofText? a with
  | none => simp
  | some x =>
    cases Address.ofText? b with
    | none => simp [hb]
    | some y => simp [hb, ofPair_eq_ok_iff]

theorem ofBounds_eq_families_iff {lower upper : String} :
    ofBounds a b = .error (.families lower upper) ↔ Clash a b ∧ lower = a ∧ upper = b := by
  unfold Clash ofBounds
  cases Address.ofText? a with
  | none => simp
  | some x =>
    cases Address.ofText? b with
    | none => simp [hb]
    | some y => simp [hb, ofPair_eq_families_iff]

end

/-- With a blank upper bound the lower one is the whole range, and it is read alike as a value. -/
theorem ofValue_of_ofBounds_blank (hb : allBlank b) (h : ofBounds a b = .ok f) :
    ofValue a = .ok f ∧ f.highText = "" := by
  unfold ofBounds at h
  cases hread : Address.ofText? a with
  | none =>
    rw [hread] at h
    cases h
  | some x =>
    rw [hread] at h
    dsimp only at h
    rw [if_pos hb] at h
    cases h
    have halone : (Form.address x).WrittenBy a := ⟨(Address.not_mem_of_ofText? hread).1, hread⟩
    exact ⟨halone.ofValue, (single x).highText_eq_empty_iff.mpr rfl⟩

end Range

end Net

/-! ## Items -/

namespace ItemDraft

/-- The draft with an address that is written like this. -/
def spelled (draft : ItemDraft) (value lower upper : String) : ItemDraft :=
  { draft with value := value, ipFrom := lower, ipTo := upper }

section

variable {draft other : ItemDraft}
  (hrange : ∀ f, draft.namedRange = .ok f → other.namedRange = .ok f)

include hrange

theorem writtenRange_of_namedRange {requested : Option ItemType} {range : Option Range}
    (hwritten : draft.writtenRange requested = .ok range) :
    other.writtenRange requested = .ok range := by
  unfold writtenRange at hwritten ⊢
  cases hnamed : draft.namedRange with
  | ok f =>
    rw [hnamed] at hwritten
    rw [hrange f hnamed]
    exact hwritten
  | error e =>
    -- only a draft that asks for all addresses needs none
    rw [hnamed] at hwritten
    split at hwritten
    · exact hwritten
    · cases hwritten

/-- A draft is written as the same item when its address is spelled in a way that reads the same. -/
theorem normalize_of_namedRange (hother : other = draft.spelled other.value other.ipFrom other.ipTo)
    {item : NewItem} (h : draft.normalize = .ok item) : other.normalize = .ok item := by
  obtain ⟨requested, range, hlist, htime, hrequested, hwritten, rfl⟩ := normalize_eq_ok.mp h
  have hwritten' := writtenRange_of_namedRange hrange hwritten
  rw [hother] at hwritten' ⊢
  exact normalize_eq_ok.mpr ⟨requested, range, hlist, htime, hrequested, hwritten', rfl⟩

end

variable (draft : ItemDraft) {a b blank : String} {item : NewItem}

theorem namedRange_spelled_of_blank (hblank : allBlank blank) :
    (draft.spelled blank a b).namedRange = Range.ofBounds a b :=
  if_pos hblank

theorem namedRange_spelled_of_not_blank {value : String} (hvalue : allBlank value = false)
    (lower upper : String) :
    (draft.spelled value lower upper).namedRange = Range.ofValue value :=
  if_neg (by rw [spelled, hvalue]; exact Bool.false_ne_true)

variable (hblank : allBlank blank) (lower upper : String)

include hblank

/-- The bounds of an item may be written as its value, with a dash between them. -/
theorem normalize_dash_iff (hb : allBlank b = false) :
    (draft.spelled blank a b).normalize = .ok item ↔
      (draft.spelled (a ++ "-" ++ b) lower upper).normalize = .ok item := by
  have hbounds := draft.namedRange_spelled_of_blank (a := a) (b := b) hblank
  have hdash := draft.namedRange_spelled_of_not_blank (not_blank_dash a b) lower upper
  have hsame : ∀ f, (draft.spelled blank a b).namedRange = .ok f ↔
      (draft.spelled (a ++ "-" ++ b) lower upper).namedRange = .ok f := by
    intro f
    rw [hbounds, hdash, Range.ofBounds_eq_ok_iff hb, Range.ofValue_dash_eq_ok_iff]
  constructor
  · exact normalize_of_namedRange (fun f => (hsame f).mp) rfl
  · exact normalize_of_namedRange (fun f => (hsame f).mpr) rfl

/-- A lower bound that stands alone may be written as the value. -/
theorem normalize_of_lower (hb : allBlank b)
    (h : (draft.spelled blank a b).normalize = .ok item) :
    (draft.spelled a lower upper).normalize = .ok item := by
  refine normalize_of_namedRange (fun f hf => ?_) rfl h
  rw [draft.namedRange_spelled_of_blank hblank] at hf
  rw [draft.namedRange_spelled_of_not_blank (Range.not_blank_of_ofBounds hf) lower upper]
  exact (Range.ofValue_of_ofBounds_blank hb hf).1

end ItemDraft

/-- Bounds of which the upper one is not blank are read as a range exactly if the text with a dash
between them is, as the same range, and in the other order if neither is blank. They are refused for
their families exactly if that text is. With a blank upper bound they are read as the lower one is
read alone, with an empty upper bound. So an item that is written by its bounds may be written by
its value, whatever bounds then stand beside it. -/
theorem bounds_agree_with_value (a b : String) :
    (allBlank b = false →
      (∀ f, Range.ofBounds a b = .ok f ↔ Range.ofValue (a ++ "-" ++ b) = .ok f) ∧
      (allBlank a = false → ∀ f, Range.ofBounds a b = .ok f ↔ Range.ofBounds b a = .ok f) ∧
      ((∃ lower upper, Range.ofBounds a b = .error (.families lower upper)) ↔
        ∃ lower upper, Range.ofValue (a ++ "-" ++ b) = .error (.families lower upper))) ∧
    (allBlank b → ∀ f, Range.ofBounds a b = .ok f → Range.ofValue a = .ok f ∧ f.highText = "") ∧
    ∀ (draft : ItemDraft) (item : NewItem) (blank lower upper : String), allBlank blank →
      (allBlank b = false → ((draft.spelled blank a b).normalize = .ok item ↔
        (draft.spelled (a ++ "-" ++ b) lower upper).normalize = .ok item)) ∧
      (allBlank b → (draft.spelled blank a b).normalize = .ok item →
        (draft.spelled a lower upper).normalize = .ok item) := by
  refine ⟨fun hb => ⟨fun f => ?_, fun ha f => ?_, ?_⟩, fun hb f => ?_, ?_⟩
  · rw [Range.ofBounds_eq_ok_iff hb, Range.ofValue_dash_eq_ok_iff]
  · rw [Range.ofBounds_eq_ok_iff hb, Range.ofBounds_eq_ok_iff ha]
    exact ⟨Range.Bounded.symm, Range.Bounded.symm⟩
  · simp only [Range.ofBounds_eq_families_iff hb, Range.ofValue_dash_eq_families_iff]
    simp
  · exact Range.ofValue_of_ofBounds_blank hb
  · intro draft item blank lower upper hblank
    exact ⟨draft.normalize_dash_iff hblank lower upper,
      draft.normalize_of_lower hblank lower upper⟩

/-- Bounds the wrong way round, with blank characters of several kinds around them, and bounds of
different families. -/
theorem bounds_agree_with_value_of_swapped :
    (∃ f, Range.ofBounds "\u00a0 10.0.0.9" "10.0.0.1\u2003\t" = .ok f ∧
      Range.ofValue "\u00a0 10.0.0.9-10.0.0.1\u2003\t" = .ok f ∧
      Range.ofBounds "10.0.0.1\u2003\t" "\u00a0 10.0.0.9" = .ok f ∧
      f.toText = "10.0.0.1-10.0.0.9") ∧
    (∃ lower upper, Range.ofValue " ::1 - 10.0.0.1 " = .error (.families lower upper)) ∧
    ∃ item, ItemDraft.normalize { listId := 1, ipFrom := " ::1 ", ipTo := "\u3000" } =
        .ok item ∧
      ItemDraft.normalize { listId := 1, value := " ::1 ", ipFrom := "left" } = .ok item := by
  have hblank : allBlank "10.0.0.1\u2003\t" = false ∧ allBlank "\u00a0 10.0.0.9" = false ∧
      allBlank " 10.0.0.1 " = false ∧ allBlank "\u3000" := by decide +kernel
  have htext : (Range.ofBounds "\u00a0 10.0.0.9" "10.0.0.1\u2003\t").toOption.map Range.toText =
      some "10.0.0.1-10.0.0.9" := by decide +kernel
  have hmixed : Range.ofBounds " ::1 " " 10.0.0.1 " = .error (.families " ::1 " " 10.0.0.1 ") := by
    decide +kernel
  have hitem : (ItemDraft.normalize
      { listId := 1, ipFrom := " ::1 ", ipTo := "\u3000" }).toOption.isSome := by decide +kernel
  refine ⟨?_, ?_, ?_⟩
  · have hdash : "\u00a0 10.0.0.9" ++ "-" ++ "10.0.0.1\u2003\t" =
        "\u00a0 10.0.0.9-10.0.0.1\u2003\t" := by decide +kernel
    obtain ⟨hvalue, hswap, -⟩ :=
      (bounds_agree_with_value "\u00a0 10.0.0.9" "10.0.0.1\u2003\t").1 hblank.1
    rw [hdash] at hvalue
    cases hread : Range.ofBounds "\u00a0 10.0.0.9" "10.0.0.1\u2003\t" with
    | error e =>
      rw [hread] at htext
      cases htext
    | ok f =>
      rw [hread] at htext
      exact ⟨f, rfl, (hvalue f).mp hread, (hswap hblank.2.1 f).mp hread, Option.some.inj htext⟩
  · have hdash : " ::1 " ++ "-" ++ " 10.0.0.1 " = " ::1 - 10.0.0.1 " := by decide +kernel
    obtain ⟨-, -, hfamilies⟩ := (bounds_agree_with_value " ::1 " " 10.0.0.1 ").1 hblank.2.2.1
    rw [hdash] at hfamilies
    exact hfamilies.mp ⟨_, _, hmixed⟩
  · cases hnormal : ItemDraft.normalize { listId := 1, ipFrom := " ::1 ", ipTo := "\u3000" } with
    | error e =>
      rw [hnormal] at hitem
      cases hitem
    | ok item =>
      have hagrees := (bounds_agree_with_value " ::1 " "\u3000").2.2 { listId := 1 } item "" "left"
        "" (by decide)
      exact ⟨item, rfl, hagrees.2 hblank.2.2.2 hnormal⟩

end FirewallLists
