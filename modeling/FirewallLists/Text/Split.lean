/-
  Cutting a list of characters at a separator, and reading plain numbers from one.
-/

namespace FirewallLists.Text

/-- The words between the separators; a text without a separator is one word. -/
def splitOn (sep : Char) : List Char → List (List Char)
  | [] => [[]]
  | c :: cs =>
    if c = sep then [] :: splitOn sep cs
    else match splitOn sep cs with
      | [] => [[c]]
      | w :: ws => (c :: w) :: ws

/-- What stands before and after the first separator, if there is one. -/
def cut (sep : Char) : List Char → Option (List Char × List Char)
  | [] => none
  | c :: cs => if c = sep then some ([], cs) else (cut sep cs).map fun (l, r) => (c :: l, r)

/-- What stands before and after the first place where the separator is doubled. -/
def cutPair (sep : Char) : List Char → Option (List Char × List Char)
  | c :: d :: cs =>
    if c = sep ∧ d = sep then some ([], cs)
    else (cutPair sep (d :: cs)).map fun (l, r) => (c :: l, r)
  | _ => none

/-- The words with the separator put between them. -/
def joinWith (sep : Char) : List (List Char) → List Char
  | [] => []
  | [w] => w
  | w :: v :: ws => w ++ sep :: joinWith sep (v :: ws)

/-- The value of a decimal digit. -/
def decimalDigit? (c : Char) : Option Nat :=
  if '0' ≤ c ∧ c ≤ '9' then some (c.toNat - '0'.toNat) else none

/-- The value of a hexadecimal digit of either case. -/
def hexDigit? (c : Char) : Option Nat :=
  if '0' ≤ c ∧ c ≤ '9' then some (c.toNat - '0'.toNat)
  else if 'a' ≤ c ∧ c ≤ 'f' then some (c.toNat - 'a'.toNat + 10)
  else if 'A' ≤ c ∧ c ≤ 'F' then some (c.toNat - 'A'.toNat + 10)
  else none

/-- Read further digits behind a number already read. -/
def readDigits (digit? : Char → Option Nat) (base : Nat) : Nat → List Char → Option Nat
  | n, [] => some n
  | n, c :: cs =>
    match digit? c with
    | some d => readDigits digit? base (n * base + d) cs
    | none => none

/-- The number written by one or more decimal digits. -/
def decimal? : List Char → Option Nat
  | [] => none
  | cs => readDigits decimalDigit? 10 0 cs

/-- The sign in front, if there is one, and what stands behind it. -/
def signed : List Char → Bool × List Char
  | '-' :: cs => (true, cs)
  | '+' :: cs => (false, cs)
  | cs => (false, cs)

/-- The integer written by one or more digits, perhaps with a sign in front. -/
def signedDecimal? (cs : List Char) : Option Int :=
  let (negative, body) := signed cs
  (decimal? body).map fun n => if negative then -(n : Int) else n

/-- The number written by one or more hexadecimal digits. -/
def hexadecimal? : List Char → Option Nat
  | [] => none
  | cs => readDigits hexDigit? 16 0 cs

theorem splitOn_ne_nil (sep : Char) (cs : List Char) : splitOn sep cs ≠ [] := by
  cases cs with
  | nil => simp [splitOn]
  | cons c cs =>
    simp only [splitOn]
    split
    · simp
    · split <;> simp

theorem joinWith_splitOn (sep : Char) (cs : List Char) : joinWith sep (splitOn sep cs) = cs := by
  induction cs with
  | nil => rfl
  | cons c cs ih =>
    cases hs : splitOn sep cs with
    | nil => exact absurd hs (splitOn_ne_nil sep cs)
    | cons w ws =>
      rw [hs] at ih
      by_cases h : c = sep
      · subst h
        simp [splitOn, hs, joinWith, ih]
      · cases ws with
        | nil => simpa [splitOn, h, hs, joinWith] using ih
        | cons v ws => simpa [splitOn, h, hs, joinWith] using ih

theorem cut_eq_some {sep : Char} {cs l r : List Char} (h : cut sep cs = some (l, r)) :
    cs = l ++ sep :: r ∧ sep ∉ l := by
  induction cs generalizing l with
  | nil => simp [cut] at h
  | cons c cs ih =>
    by_cases hc : c = sep
    · simp [cut, hc] at h
      obtain ⟨rfl, rfl⟩ := h
      simp [hc]
    · simp only [cut, if_neg hc, Option.map_eq_some_iff] at h
      obtain ⟨⟨l', r'⟩, h', e⟩ := h
      obtain ⟨rfl, rfl⟩ := Prod.mk.inj e
      obtain ⟨e, hn⟩ := ih h'
      subst e
      exact ⟨rfl, by simp [Ne.symm hc, hn]⟩

end FirewallLists.Text
