import FirewallLists.Text.Blank
import FirewallLists.Text.Split
import Mathlib.Data.List.DropRight
import Mathlib.Data.List.TakeWhile

/-
  Words and digits read back. Words without the separator are what the text made of them is cut into
  (`splitOn_joinWith`), and when none of them is empty the separator is first doubled behind them
  (`cutPair_joinWith_append`). The digits of a number read as that number (`readDigits_toDigits`).
  Only the ends are trimmed of what stands around a character that is not blank
  (`trimChars_append_cons`).
-/

namespace FirewallLists.Text

/-! ## Words -/

section Words

variable {sep : Char} {w : List Char} {ws : List (List Char)}

theorem splitOn_of_not_mem (h : sep ∉ w) : splitOn sep w = [w] := by
  induction w with
  | nil => rfl
  | cons c w ih =>
    rw [List.mem_cons, not_or] at h
    rw [splitOn, if_neg (Ne.symm h.1), ih h.2]

theorem splitOn_append_cons (h : sep ∉ w) (cs : List Char) :
    splitOn sep (w ++ sep :: cs) = w :: splitOn sep cs := by
  induction w with
  | nil => rw [List.nil_append, splitOn, if_pos rfl]
  | cons c w ih =>
    rw [List.mem_cons, not_or] at h
    rw [List.cons_append, splitOn, if_neg (Ne.symm h.1), ih h.2]

theorem cut_of_not_mem (h : sep ∉ w) : cut sep w = none := by
  induction w with
  | nil => rfl
  | cons c w ih =>
    rw [List.mem_cons, not_or] at h
    rw [cut, if_neg (Ne.symm h.1), ih h.2]
    rfl

theorem cut_append_cons (h : sep ∉ w) (cs : List Char) : cut sep (w ++ sep :: cs) = some (w, cs) := by
  induction w with
  | nil => rw [List.nil_append, cut, if_pos rfl]
  | cons c w ih =>
    rw [List.mem_cons, not_or] at h
    rw [List.cons_append, cut, if_neg (Ne.symm h.1), ih h.2]
    rfl

theorem splitOn_joinWith (hne : ws ≠ []) (h : ∀ w ∈ ws, sep ∉ w) :
    splitOn sep (joinWith sep ws) = ws := by
  induction ws with
  | nil => exact absurd rfl hne
  | cons w ws ih =>
    have hw : sep ∉ w := h w List.mem_cons_self
    cases ws with
    | nil => exact splitOn_of_not_mem hw
    | cons v ws =>
      have hrest := ih (by simp) fun u hu => h u (List.mem_cons_of_mem _ hu)
      rw [joinWith, splitOn_append_cons hw, hrest]

theorem mem_joinWith {c : Char} (h : c ∈ joinWith sep ws) : c = sep ∨ ∃ w ∈ ws, c ∈ w := by
  induction ws with
  | nil => cases h
  | cons w ws ih =>
    cases ws with
    | nil => exact Or.inr ⟨w, List.mem_cons_self, h⟩
    | cons v ws =>
      rw [joinWith, List.mem_append, List.mem_cons] at h
      rcases h with hw | hsep | hrest
      · exact Or.inr ⟨w, List.mem_cons_self, hw⟩
      · exact Or.inl hsep
      · rcases ih hrest with hsep | ⟨u, hu, hc⟩
        · exact Or.inl hsep
        · exact Or.inr ⟨u, List.mem_cons_of_mem _ hu, hc⟩

/-- A character of a text is a separator or stands in one of the words. -/
theorem exists_word_of_mem {c : Char} {cs : List Char} (h : c ∈ cs) :
    c = sep ∨ ∃ w ∈ splitOn sep cs, c ∈ w := by
  rw [← joinWith_splitOn sep cs] at h
  exact mem_joinWith h

/-- Words of which none is empty make an empty text only if there are none. -/
theorem joinWith_eq_nil (hws : ∀ w ∈ ws, w ≠ []) (h : joinWith sep ws = []) : ws = [] := by
  match ws with
  | [] => rfl
  | [w] => exact absurd h (hws w List.mem_cons_self)
  | w :: v :: ws => simp [joinWith] at h

theorem cutPair_append (h : sep ∉ w) (cs : List Char) :
    cutPair sep (w ++ cs) = (cutPair sep cs).map fun (l, r) => (w ++ l, r) := by
  induction w with
  | nil => simp
  | cons c w ih =>
    rw [List.mem_cons, not_or] at h
    rw [List.cons_append]
    cases hrest : w ++ cs with
    | nil =>
      obtain ⟨rfl, rfl⟩ := List.append_eq_nil_iff.mp hrest
      rfl
    | cons d ds =>
      rw [cutPair, if_neg fun hc => h.1 hc.1.symm, ← hrest, ih h.2, Option.map_map]
      rfl

theorem cutPair_eq_some {cs l r : List Char} (h : cutPair sep cs = some (l, r)) :
    cs = l ++ sep :: sep :: r := by
  induction cs generalizing l with
  | nil => cases h
  | cons c cs ih =>
    cases cs with
    | nil => cases h
    | cons d cs =>
      rw [cutPair] at h
      split at h
      · next hpair =>
        cases h
        rw [hpair.1, hpair.2, List.nil_append]
      · obtain ⟨⟨l', r'⟩, hcut, heq⟩ := Option.map_eq_some_iff.mp h
        cases heq
        rw [ih hcut, List.cons_append]

theorem cutPair_cons_of_ne {d : Char} (h : d ≠ sep) (cs : List Char) :
    cutPair sep (sep :: d :: cs) = (cutPair sep (d :: cs)).map fun (l, r) => (sep :: l, r) := by
  rw [cutPair, if_neg fun hc => h hc.2]

/-- Words of which none is empty hold no doubled separator, and none at their end. -/
theorem cutPair_joinWith_append (h : ∀ w ∈ ws, w ≠ [] ∧ sep ∉ w) (cs : List Char) :
    cutPair sep (joinWith sep ws ++ cs) =
      (cutPair sep cs).map fun (l, r) => (joinWith sep ws ++ l, r) := by
  induction ws with
  | nil => simp [joinWith]
  | cons w ws ih =>
    have hw := (h w List.mem_cons_self).2
    cases ws with
    | nil => exact cutPair_append hw cs
    | cons v ws =>
      have hrest := ih fun u hu => h u (List.mem_cons_of_mem _ hu)
      -- behind the separator stands the first character of the next word
      obtain ⟨hv, hsep⟩ := h v (by simp)
      obtain ⟨c, hhead⟩ : ∃ c, c ≠ sep ∧ ∃ us, joinWith sep (v :: ws) = c :: us := by
        obtain ⟨c, us, rfl⟩ := List.exists_cons_of_ne_nil hv
        refine ⟨c, fun hc => hsep (hc ▸ List.mem_cons_self), ?_⟩
        cases ws with
        | nil => exact ⟨us, rfl⟩
        | cons u ws => exact ⟨_, rfl⟩
      obtain ⟨hc, us, hjoin⟩ := hhead
      rw [joinWith, List.append_assoc, cutPair_append hw, List.cons_append]
      rw [hjoin] at hrest ⊢
      rw [List.cons_append, cutPair_cons_of_ne hc, ← List.cons_append, hrest, Option.map_map,
        Option.map_map]
      simp [Function.comp_def]

end Words

/-! ## Digits -/

section Digits

variable {digit? : Char → Option Nat} {base : Nat}

theorem readDigits_append (n : Nat) (cs ds : List Char) :
    readDigits digit? base n (cs ++ ds) =
      (readDigits digit? base n cs).bind fun m => readDigits digit? base m ds := by
  induction cs generalizing n with
  | nil => rfl
  | cons c cs ih =>
    rw [List.cons_append, readDigits, readDigits]
    cases digit? c with
    | none => rfl
    | some d => exact ih _

/-- Only digits are read. -/
theorem isSome_of_readDigits {n m : Nat} {cs : List Char}
    (h : readDigits digit? base n cs = some m) : ∀ c ∈ cs, (digit? c).isSome := by
  induction cs generalizing n with
  | nil => exact fun _ hc => absurd hc List.not_mem_nil
  | cons c cs ih =>
    rw [readDigits] at h
    split at h
    · next d hd =>
      refine List.forall_mem_cons.mpr ⟨?_, ih h⟩
      rw [hd]
      rfl
    · cases h

theorem isSome_of_decimal? {n : Nat} {cs : List Char} (h : decimal? cs = some n) :
    ∀ c ∈ cs, (decimalDigit? c).isSome := by
  unfold decimal? at h
  split at h
  · cases h
  · exact isSome_of_readDigits h

theorem isSome_of_hexadecimal? {n : Nat} {cs : List Char} (h : hexadecimal? cs = some n) :
    ∀ c ∈ cs, (hexDigit? c).isSome := by
  unfold hexadecimal? at h
  split at h
  · cases h
  · exact isSome_of_readDigits h

/-- Decimal digits are hexadecimal ones. -/
theorem isSome_hexDigit?_of_decimalDigit? {c : Char} (h : (decimalDigit? c).isSome) :
    (hexDigit? c).isSome := by
  unfold decimalDigit? at h
  split at h
  · next hc =>
    rw [hexDigit?, if_pos hc]
    rfl
  · cases h

/-- The digits of a number read as the number. -/
theorem readDigits_toDigits (hbase : 1 < base)
    (hdigit : ∀ d < base, digit? (Nat.digitChar d) = some d) (n : Nat) :
    readDigits digit? base 0 (Nat.toDigits base n) = some n := by
  -- by induction on the number without its last digit
  induction n using Nat.strongRecOn with
  | _ n ih =>
    rw [Nat.toDigits_eq_if hbase]
    split
    · next hlt => simp [readDigits, hdigit n hlt]
    · next hge =>
      have hshorter : n / base < n := Nat.div_lt_self (by omega) hbase
      have hlast := hdigit (n % base) (Nat.mod_lt n (by omega))
      rw [readDigits_append, ih _ hshorter, Option.bind_some, readDigits, hlast]
      simp [readDigits, Nat.div_add_mod']

theorem hexadecimal?_toDigits (n : Nat) : hexadecimal? (Nat.toDigits 16 n) = some n := by
  have hdigit : ∀ d < 16, hexDigit? (Nat.digitChar d) = some d := by decide
  have hread := readDigits_toDigits (by decide) hdigit n
  unfold hexadecimal?
  split
  · next hnil => exact absurd hnil Nat.toDigits_ne_nil
  · exact hread

theorem decimal?_toDigits (n : Nat) : decimal? (Nat.toDigits 10 n) = some n := by
  have hdigit : ∀ d < 10, decimalDigit? (Nat.digitChar d) = some d := by decide
  have hread := readDigits_toDigits (by decide) hdigit n
  unfold decimal?
  split
  · next hnil => exact absurd hnil Nat.toDigits_ne_nil
  · exact hread

theorem exists_digitChar_of_mem_toDigits (hbase : 1 < base) {n : Nat} {c : Char}
    (h : c ∈ Nat.toDigits base n) : ∃ d < base, c = Nat.digitChar d := by
  induction n using Nat.strongRecOn with
  | _ n ih =>
    rw [Nat.toDigits_eq_if hbase] at h
    split at h
    · next hlt => exact ⟨n, hlt, List.mem_singleton.mp h⟩
    · next hge =>
      rcases List.mem_append.mp h with hinit | hlast
      · exact ih _ (Nat.div_lt_self (by omega) hbase) hinit
      · exact ⟨n % base, Nat.mod_lt n (by omega), List.mem_singleton.mp hlast⟩

end Digits

/-! ## Blanks -/

theorem trimChars_of_not_blank {cs : List Char} (h : ∀ c ∈ cs, isBlank c = false) :
    trimChars cs = cs := by
  have hkeep : ∀ ds : List Char, (∀ c ∈ ds, isBlank c = false) → ds.dropWhile isBlank = ds :=
    fun ds hds => List.dropWhile_eq_self_iff.mpr fun hl => by
      rw [hds _ (List.getElem_mem hl)]
      decide
  rw [trimChars, hkeep cs h, hkeep cs.reverse fun c hc => h c (List.mem_reverse.mp hc),
    List.reverse_reverse]

theorem trim_of_not_blank {s : String} (h : ∀ c ∈ s.toList, isBlank c = false) : trim s = s := by
  rw [trim, trimChars_of_not_blank h, String.ofList_toList]

theorem mem_trimChars {c : Char} {cs : List Char} (h : c ∈ cs) (hc : isBlank c = false) :
    c ∈ trimChars cs := by
  -- what is dropped from either end is blank
  have hkept : ∀ {ds : List Char}, c ∈ ds → c ∈ ds.dropWhile isBlank := by
    intro ds hds
    rw [← List.takeWhile_append_dropWhile (p := isBlank) (l := ds), List.mem_append] at hds
    refine hds.resolve_left fun htake => ?_
    have hblank := List.mem_takeWhile_imp htake
    rw [hc] at hblank
    cases hblank
  rw [trimChars, List.mem_reverse]
  exact hkept (List.mem_reverse.mpr (hkept h))

/-- The front is trimmed first, then the back. -/
theorem trimChars_front (cs : List Char) : trimChars cs <+: cs.dropWhile isBlank :=
  List.rdropWhile_prefix isBlank _

theorem trimChars_sublist (cs : List Char) : (trimChars cs).Sublist cs :=
  (trimChars_front cs).sublist.trans (List.dropWhile_sublist isBlank)

theorem trimChars_trimChars (cs : List Char) : trimChars (trimChars cs) = trimChars cs := by
  have hfront : (trimChars cs).dropWhile isBlank = trimChars cs := by
    refine List.dropWhile_eq_self_iff.mpr fun hlength => ?_
    have hlength' := Nat.lt_of_lt_of_le hlength (trimChars_front cs).length_le
    rw [(trimChars_front cs).getElem hlength]
    exact List.dropWhile_get_zero_not _ _ hlength'
  have hback : trimChars (trimChars cs) = List.rdropWhile isBlank (trimChars cs) := by
    rw [trimChars, hfront]
    rfl
  rw [hback]
  exact List.rdropWhile_idempotent isBlank _

/-- What is dropped in front of a character that stays is dropped in front of all behind it. -/
theorem dropWhile_append_cons {p : Char → Bool} {c : Char} (hc : p c = false)
    (cs ds : List Char) : (cs ++ c :: ds).dropWhile p = cs.dropWhile p ++ c :: ds := by
  rw [List.dropWhile_append]
  split
  · next hempty =>
    rw [List.isEmpty_iff.mp hempty, List.nil_append, List.dropWhile_cons_of_neg (by simp [hc])]
  · rfl

theorem rdropWhile_append_cons {p : Char → Bool} {c : Char} (hc : p c = false)
    (cs ds : List Char) : (cs ++ c :: ds).rdropWhile p = cs ++ c :: ds.rdropWhile p := by
  rw [List.rdropWhile, List.reverse_append, List.reverse_cons, List.append_assoc,
    List.singleton_append, dropWhile_append_cons hc]
  simp [List.rdropWhile]

/-- Around a character that is not blank the front is trimmed before it and the back behind it. -/
theorem trimChars_append_cons {c : Char} (hc : isBlank c = false) (cs ds : List Char) :
    trimChars (cs ++ c :: ds) = cs.dropWhile isBlank ++ c :: ds.rdropWhile isBlank := by
  show List.rdropWhile isBlank ((cs ++ c :: ds).dropWhile isBlank) = _
  rw [dropWhile_append_cons hc, rdropWhile_append_cons hc]

theorem trimChars_dropWhile (cs : List Char) :
    trimChars (cs.dropWhile isBlank) = trimChars cs := by
  rw [trimChars, List.dropWhile_idempotent, trimChars]

theorem trimChars_rdropWhile (cs : List Char) :
    trimChars (cs.rdropWhile isBlank) = trimChars cs := by
  by_cases hblank : ∀ c ∈ cs, isBlank c
  · have hback : cs.rdropWhile isBlank = [] := List.rdropWhile_eq_nil_iff.mpr hblank
    have hfront : cs.dropWhile isBlank = [] := List.dropWhile_eq_nil_iff.mpr hblank
    rw [hback, trimChars, trimChars, hfront]
    rfl
  · -- the back ends behind the last character that stays, so the front does not reach it
    push Not at hblank
    obtain ⟨c, hmem, hc⟩ := hblank
    have hc' : isBlank c = false := by simpa using hc
    obtain ⟨ds, es, rfl⟩ := List.append_of_mem hmem
    rw [rdropWhile_append_cons hc', trimChars_append_cons hc', trimChars_append_cons hc',
      List.rdropWhile_idempotent]

theorem trimChars_of_allBlank {s : String} (h : allBlank s) : trimChars s.toList = [] := by
  have hnil : s.toList.dropWhile isBlank = [] :=
    List.dropWhile_eq_nil_iff.mpr (List.all_eq_true.mp h)
  rw [trimChars, hnil]
  rfl

theorem trim_ne_empty {s : String} (h : allBlank s = false) : trim s ≠ "" := by
  obtain ⟨c, hc, hblank⟩ := List.all_eq_false.mp h
  intro hempty
  have hmem : c ∈ (trim s).toList := by
    rw [trim, String.toList_ofList]
    exact mem_trimChars hc (by simpa using hblank)
  rw [hempty] at hmem
  exact absurd hmem List.not_mem_nil

end FirewallLists.Text
