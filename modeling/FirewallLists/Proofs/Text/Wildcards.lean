import FirewallLists.Text.Like
import Mathlib.Data.List.Forall2
import Mathlib.Data.List.Infix
import Mathlib.Data.List.TakeWhile

/-
  What a pattern stands for, apart from how it is looked for (`Like.Fits`). Matching marks every
  suffix of the text from the shortest up, and every mark is right (`Like.marks_suffixes`), so what
  matches is what fits (`Like.isMatch_iff`). A keyword between two wildcards is found wherever a run
  of the text fits it (`Like.isMatch_containing_iff`). That is where it stands in the text as it is
  written exactly if none of its characters means something else to a pattern
  (`Like.forall_literal_iff`).
-/

namespace FirewallLists.Text

/-- The characters of the keyword stand in the text one behind the other, ASCII letters in either
case. -/
def Occurs (keyword text : List Char) : Prop :=
  keyword.map Char.toLower <:+: text.map Char.toLower

instance (keyword text : List Char) : Decidable (Occurs keyword text) :=
  inferInstanceAs (Decidable (keyword.map Char.toLower <:+: text.map Char.toLower))

namespace Like

/-! ## What fits a pattern -/

/-- The text is one that the pattern stands for: behind `%` it goes on anywhere, and any other
character of the pattern takes one of the text. -/
def Fits : List Char → List Char → Prop
  | [], text => text = []
  | p :: ps, text =>
    if p = '%' then ∃ rest, rest <:+ text ∧ Fits ps rest
    else ∃ c rest, text = c :: rest ∧ (p = '_' ∨ fold p = fold c) ∧ Fits ps rest

theorem fits_nil {text : List Char} : Fits [] text ↔ text = [] := Iff.rfl

theorem fits_run {ps text : List Char} :
    Fits ('%' :: ps) text ↔ ∃ rest, rest <:+ text ∧ Fits ps rest := by
  rw [Fits, if_pos rfl]

theorem fits_run_nil {ps : List Char} : Fits ('%' :: ps) [] ↔ Fits ps [] := by
  simp only [fits_run, List.suffix_nil, exists_eq_left]

section

variable {p : Char} {ps : List Char}

theorem not_fits_cons_nil (hp : p ≠ '%') : ¬Fits (p :: ps) [] := by
  rw [Fits, if_neg hp]
  rintro ⟨c, rest, htext, -⟩
  cases htext

theorem fits_cons_cons (hp : p ≠ '%') {c : Char} {cs : List Char} :
    Fits (p :: ps) (c :: cs) ↔ (p = '_' ∨ fold p = fold c) ∧ Fits ps cs := by
  rw [Fits, if_neg hp]
  constructor
  · rintro ⟨_, _, htext, hfits⟩
    cases htext
    exact hfits
  · exact fun hfits => ⟨c, cs, rfl, hfits⟩

end

/-- A run of characters is empty, or it starts with the next one. -/
theorem fits_run_cons {ps cs : List Char} {c : Char} :
    Fits ('%' :: ps) (c :: cs) ↔ Fits ps (c :: cs) ∨ Fits ('%' :: ps) cs := by
  simp only [fits_run, List.suffix_cons_iff]
  constructor
  · rintro ⟨rest, rfl | hsuffix, hfits⟩
    · exact Or.inl hfits
    · exact Or.inr ⟨rest, hsuffix, hfits⟩
  · rintro (hfits | ⟨rest, hsuffix, hfits⟩)
    · exact ⟨_, Or.inl rfl, hfits⟩
    · exact ⟨rest, Or.inr hsuffix, hfits⟩

/-- A pattern in two parts stands for texts in two parts. -/
theorem fits_append {ps qs text : List Char} :
    Fits (ps ++ qs) text ↔ ∃ front back, text = front ++ back ∧ Fits ps front ∧ Fits qs back := by
  induction ps generalizing text with
  | nil =>
    simp only [List.nil_append, fits_nil]
    exact ⟨fun h => ⟨[], text, rfl, rfl, h⟩, by rintro ⟨_, back, rfl, rfl, h⟩; exact h⟩
  | cons p ps ih =>
    by_cases hp : p = '%'
    · subst hp
      simp only [List.cons_append, fits_run, ih]
      constructor
      · rintro ⟨_, ⟨skipped, rfl⟩, front, back, rfl, hfront, hback⟩
        exact ⟨skipped ++ front, back, (List.append_assoc ..).symm,
          ⟨front, List.suffix_append _ _, hfront⟩, hback⟩
      · rintro ⟨_, back, rfl, ⟨front, ⟨skipped, rfl⟩, hfront⟩, hback⟩
        exact ⟨front ++ back, ⟨skipped, (List.append_assoc ..).symm⟩, front, back, rfl, hfront, hback⟩
    · simp only [List.cons_append, Fits, if_neg hp, ih]
      constructor
      · rintro ⟨c, _, rfl, hc, front, back, rfl, hfront, hback⟩
        exact ⟨c :: front, back, rfl, ⟨c, front, rfl, hc, hfront⟩, hback⟩
      · rintro ⟨_, back, rfl, ⟨c, front, rfl, hc, hfront⟩, hback⟩
        exact ⟨c, front ++ back, rfl, hc, front, back, rfl, hfront, hback⟩

/-! ## Matching -/

/-- The marks tell for every suffix of the text, longest first, whether it fits the pattern. -/
def Marks (pattern : List Char) (marks : List Bool) (text : List Char) : Prop :=
  List.Forall₂ (fun mark rest => mark = true ↔ Fits pattern rest) marks text.tails

theorem Marks.headD {pattern text : List Char} {marks : List Bool} (h : Marks pattern marks text) :
    marks.headD false = true ↔ Fits pattern text := by
  cases text <;> cases h <;> assumption

theorem marks_step {p : Char} {ps text : List Char} {marks : List Bool} (h : Marks ps marks text) :
    Marks (p :: ps) (suffixes.step p text marks) text := by
  -- by induction on the text, as the marks are made from its end
  induction text generalizing marks with
  | nil =>
    rw [suffixes.step]
    by_cases hp : p = '%'
    · subst hp
      obtain ⟨mark, _, hmark, hnil, rfl⟩ := List.forall₂_cons_right_iff.mp h
      cases hnil
      exact .cons (hmark.trans fits_run_nil.symm) .nil
    · rw [if_neg hp]
      exact .cons (iff_of_false Bool.false_ne_true (not_fits_cons_nil hp)) .nil
  | cons c cs ih =>
    obtain ⟨mark, later, hmark, hlater, rfl⟩ := List.forall₂_cons_right_iff.mp h
    have hrest : Marks ps later cs := hlater
    have hnext := ih hrest
    refine .cons ?_ hnext
    by_cases hp : p = '%'
    · subst hp
      simp only [List.drop_one, List.tail_cons, if_true, List.headD_cons, Bool.or_eq_true,
        hmark, hnext.headD, fits_run_cons]
    · simp only [List.drop_one, List.tail_cons, if_neg hp, Bool.and_eq_true, Bool.or_eq_true,
        beq_iff_eq, hrest.headD, fits_cons_cons hp]

/-- Every mark is right, by induction on the pattern. -/
theorem marks_suffixes (pattern text : List Char) :
    Marks pattern (suffixes pattern text) text := by
  induction pattern with
  | nil =>
    rw [suffixes]
    induction text with
    | nil => exact .cons (iff_of_true rfl rfl) .nil
    | cons c cs ih => exact .cons (iff_of_false Bool.false_ne_true (List.cons_ne_nil c cs)) ih
  | cons p ps ih => exact marks_step ih

theorem isMatch_iff {pattern text : String} :
    isMatch pattern text ↔ Fits (untilNul pattern) (untilNul text) :=
  (marks_suffixes _ _).headD

/-! ## Keywords -/

/-- The keyword is found in the text, both up to their first NUL, when a run of the text fits it.
Behind a NUL the keyword has no wildcard that would let the text go on. -/
def Mentions (keyword text : String) : Prop :=
  ∃ before run after, untilNul text = before ++ run ++ after ∧ Fits (untilNul keyword) run ∧
    ('\x00' ∈ keyword.toList → after = [])

theorem mem_of_mem_untilNul {s : String} {c : Char} (h : c ∈ untilNul s) :
    c ∈ s.toList ∧ c ≠ '\x00' :=
  ⟨(List.takeWhile_prefix _).mem h, by simpa using List.mem_takeWhile_imp h⟩

theorem untilNul_eq_self_iff {s : String} : untilNul s = s.toList ↔ '\x00' ∉ s.toList := by
  rw [untilNul, List.takeWhile_eq_self_iff]
  simp only [bne_iff_ne]
  exact ⟨fun h hmem => h _ hmem rfl, fun h c hc => ne_of_mem_of_not_mem hc h⟩

theorem untilNul_containing (keyword : String) : untilNul (containing keyword) =
    '%' :: (untilNul keyword ++ if '\x00' ∈ keyword.toList then [] else ['%']) := by
  have hlist : (containing keyword).toList = '%' :: (keyword.toList ++ ['%']) := by
    simp [containing, String.toList_append]
  rw [untilNul, hlist, List.takeWhile_cons_of_pos (by decide), List.cons_inj_right]
  by_cases hnul : '\x00' ∈ keyword.toList
  · rw [if_pos hnul, List.append_nil, List.takeWhile_append, if_neg]
    · rfl
    · intro hlength
      exact untilNul_eq_self_iff.mp ((List.takeWhile_prefix _).eq_of_length hlength) hnul
  · rw [if_neg hnul, untilNul_eq_self_iff.mpr hnul, List.takeWhile_append_of_pos]
    · rfl
    · intro c hc
      exact bne_iff_ne.mpr (ne_of_mem_of_not_mem hc hnul)

/-- Between two wildcards a keyword is looked for anywhere in a text. -/
theorem isMatch_containing_iff {keyword text : String} :
    isMatch (containing keyword) text ↔ Mentions keyword text := by
  rw [isMatch_iff, untilNul_containing, fits_run]
  simp only [fits_append]
  have hback : ∀ after, Fits (if '\x00' ∈ keyword.toList then [] else ['%']) after ↔
      ('\x00' ∈ keyword.toList → after = []) := by
    intro after
    split
    · next hnul => exact ⟨fun h _ => h, fun h => h hnul⟩
    · next hnul => exact iff_of_true (fits_run.mpr ⟨[], List.nil_suffix, rfl⟩) fun h => absurd h hnul
  simp only [hback]
  constructor
  · rintro ⟨_, ⟨before, htext⟩, run, after, rfl, hfits, hafter⟩
    exact ⟨before, run, after, by rw [← htext, List.append_assoc], hfits, hafter⟩
  · rintro ⟨before, run, after, htext, hfits, hafter⟩
    exact ⟨run ++ after, ⟨before, by rw [htext, List.append_assoc]⟩, run, after, rfl, hfits, hafter⟩

instance (keyword text : String) : Decidable (Mentions keyword text) :=
  decidable_of_iff _ isMatch_containing_iff

/-! ## Keywords that are taken literally -/

/-- The character means nothing to a pattern but itself, in either case if it is an ASCII letter. -/
def Literal (c : Char) : Prop :=
  c ∉ ['%', '_', '\x00', '\uFFFD', '\uFFFE', '\uFFFF']

instance (c : Char) : Decidable (Literal c) :=
  inferInstanceAs (Decidable (c ∉ ['%', '_', '\x00', '\uFFFD', '\uFFFE', '\uFFFF']))

/-- Only letters come out of other characters. -/
theorem eq_of_toLower {c d : Char} (h : c.toLower = d) (hd : 'z' < d) : c = d := by
  unfold Char.toLower at h
  split at h
  · next hupper =>
    subst h
    have hle : c.val.toNat ≤ 90 := UInt32.le_iff_toNat_le.mp hupper.2
    have hlt : 122 < (c.val + 32).toNat := UInt32.lt_iff_toNat_lt.mp hd
    rw [UInt32.toNat_add] at hlt
    have : (32 : UInt32).toNat = 32 := rfl
    omega
  · exact h

theorem fold_eq_iff {p c : Char} (hp : Literal p) : fold p = fold c ↔ p.toLower = c.toLower := by
  simp only [Literal, List.mem_cons, List.not_mem_nil, or_false, not_or] at hp
  obtain ⟨-, -, -, hFFFD, hFFFE, hFFFF⟩ := hp
  rw [fold, if_neg (not_or.mpr ⟨hFFFE, hFFFF⟩), fold]
  split
  · next hc =>
    refine iff_of_false (fun h => hFFFD (eq_of_toLower h (by decide))) fun h => ?_
    rcases hc with rfl | rfl
    · exact hFFFE (eq_of_toLower h (by decide))
    · exact hFFFF (eq_of_toLower h (by decide))
  · rfl

theorem fits_literal {ps run : List Char} (h : ∀ p ∈ ps, Literal p) :
    Fits ps run ↔ ps.map Char.toLower = run.map Char.toLower := by
  induction ps generalizing run with
  | nil => rw [fits_nil, List.map_nil, eq_comm (a := []), List.map_eq_nil_iff]
  | cons p ps ih =>
    obtain ⟨hp, hps⟩ := List.forall_mem_cons.mp h
    have hrun : p ≠ '%' := fun heq => hp (by rw [heq]; decide)
    have hone : p ≠ '_' := fun heq => hp (by rw [heq]; decide)
    cases run with
    | nil => exact iff_of_false (not_fits_cons_nil hrun) (List.cons_ne_nil _ _)
    | cons c cs =>
      rw [fits_cons_cons hrun, or_iff_right hone, fold_eq_iff hp, ih hps, List.map_cons,
        List.map_cons, List.cons.injEq]

theorem mentions_iff_occurs {keyword text : String} (hkeyword : ∀ c ∈ keyword.toList, Literal c)
    (htext : '\x00' ∉ text.toList) :
    Mentions keyword text ↔ Occurs keyword.toList text.toList := by
  have hnul : '\x00' ∉ keyword.toList := fun h => hkeyword _ h (by decide)
  rw [Mentions, untilNul_eq_self_iff.mpr hnul, untilNul_eq_self_iff.mpr htext]
  simp only [fits_literal hkeyword]
  constructor
  · rintro ⟨before, run, after, htext, hrun, -⟩
    exact ⟨before.map Char.toLower, after.map Char.toLower, by
      rw [htext, hrun, List.map_append, List.map_append]⟩
  · rintro ⟨_, _, htext⟩
    obtain ⟨front, after, hfront, hmap, -⟩ := List.map_eq_append_iff.mp htext.symm
    obtain ⟨before, run, rfl, -, hrun⟩ := List.map_eq_append_iff.mp hmap
    exact ⟨before, run, after, hfront, hrun.symm, fun h => absurd h hnul⟩

/-- A character that this one finds too, another one if this one is not literal. -/
def mistaken (c : Char) : Char :=
  if c = '%' ∨ c = '_' then 'x'
  else if c = '\uFFFD' then '\uFFFE'
  else if c = '\uFFFE' ∨ c = '\uFFFF' then '\uFFFD'
  else c

theorem mistaken_finds {c : Char} (hrun : c ≠ '%') : c = '_' ∨ fold c = fold (mistaken c) := by
  unfold mistaken
  split
  · next h => exact Or.inl (h.resolve_left hrun)
  · split
    · next h => subst h; exact Or.inr (by decide)
    · split
      · next h => rcases h with rfl | rfl <;> exact Or.inr (by decide)
      · exact Or.inr rfl

theorem mistaken_ne_nul {c : Char} (h : c ≠ '\x00') : mistaken c ≠ '\x00' := by
  unfold mistaken
  split_ifs
  · decide
  · decide
  · decide
  · exact h

theorem toLower_mistaken_ne {c : Char} (h : ¬Literal c) (hnul : c ≠ '\x00') :
    c.toLower ≠ (mistaken c).toLower := by
  simp only [Literal, not_not, List.mem_cons, List.not_mem_nil, or_false] at h
  rcases h with rfl | rfl | rfl | rfl | rfl | rfl
  case inr.inr.inl => exact absurd rfl hnul
  all_goals decide

theorem fits_mistaken (ps : List Char) : Fits ps (ps.map mistaken) := by
  induction ps with
  | nil => rfl
  | cons p ps ih =>
    by_cases hrun : p = '%'
    · subst hrun
      exact fits_run.mpr ⟨_, List.suffix_cons _ _, ih⟩
    · exact (fits_cons_cons hrun).mpr ⟨mistaken_finds hrun, ih⟩

/-- A keyword is found where it stands, and nowhere else, exactly if all its characters are
literal. -/
theorem forall_literal_iff {keyword : String} :
    (∀ c ∈ keyword.toList, Literal c) ↔ ∀ text : String, '\x00' ∉ text.toList →
      (Mentions keyword text ↔ Occurs keyword.toList text.toList) := by
  refine ⟨fun h text => mentions_iff_occurs h, fun h => ?_⟩
  -- the keyword itself, up to its first NUL, with each character mistaken for another
  let text := String.ofList ((untilNul keyword).map mistaken)
  have hlist : text.toList = (untilNul keyword).map mistaken := String.toList_ofList
  have htext : '\x00' ∉ text.toList := by
    rw [hlist, List.mem_map]
    rintro ⟨c, hc, hnul⟩
    exact mistaken_ne_nul (mem_of_mem_untilNul hc).2 hnul
  have hmentions : Mentions keyword text := by
    refine ⟨[], text.toList, [], ?_, hlist ▸ fits_mistaken _, fun _ => rfl⟩
    rw [untilNul_eq_self_iff.mpr htext, List.nil_append, List.append_nil]
  have hoccurs : Occurs keyword.toList text.toList := (h text htext).mp hmentions
  have hprefix : untilNul keyword <+: keyword.toList := List.takeWhile_prefix _
  have hwhole : untilNul keyword = keyword.toList := by
    refine hprefix.eq_of_length (Nat.le_antisymm hprefix.length_le ?_)
    have := hoccurs.length_le
    rwa [List.length_map, List.length_map, hlist, List.length_map] at this
  rw [Occurs, hlist, hwhole] at hoccurs
  have hsame := hoccurs.eq_of_length (by simp only [List.length_map])
  rw [List.map_map, List.map_inj_left] at hsame
  intro c hc
  by_contra hliteral
  exact toLower_mistaken_ne hliteral (mem_of_mem_untilNul (hwhole ▸ hc)).2 (hsame c hc)

end Like

end FirewallLists.Text
