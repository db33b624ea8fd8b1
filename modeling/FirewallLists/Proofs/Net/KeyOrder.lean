import FirewallLists.Net.Range
import Mathlib.Algebra.Group.Nat.Defs

/-
  Keys order as addresses do. Within a family the dictionary order of the keys is the order of the
  numbers (`keyLe_key_iff`) and a key names one address (`key_inj`), so what the tables find out by
  comparing octets is true of the addresses.
-/

namespace FirewallLists.Net

/-! ## Dictionary order -/

/-- The last octets decide only when those before them agree. -/
theorem keyLe_append {as bs : List UInt8} (h : as.length = bs.length) (cs ds : List UInt8) :
    keyLe (as ++ cs) (bs ++ ds) = if as = bs then keyLe cs ds else keyLe as bs := by
  induction as generalizing bs with
  | nil =>
    have hbs : bs = [] := List.length_eq_zero_iff.mp h.symm
    simp [hbs]
  | cons a as ih =>
    cases bs with
    | nil => simp at h
    | cons b bs =>
      have hlen : as.length = bs.length := by simpa using h
      simp only [List.cons_append, keyLe, ih hlen, List.cons.injEq]
      by_cases hab : a = b
      · simp [hab]
      · rcases UInt8.lt_or_lt_of_ne hab with hlt | hlt
        · simp [hab, hlt]
        · simp [hab, hlt, UInt8.not_lt.mpr (UInt8.le_of_lt hlt)]

/-! ## Octets of a number -/

theorem bigEndian_succ (count n : Nat) :
    bigEndian (count + 1) n = bigEndian count (n / 256) ++ [UInt8.ofNat (n % 256)] := by
  simp [bigEndian, lastDigits]

theorem toNat_ofNat_mod (n : Nat) : (UInt8.ofNat (n % 256)).toNat = n % 256 := by
  rw [UInt8.toNat_ofNat']
  omega

theorem bigEndian_inj {count m n : Nat} (hm : m < 256 ^ count) (hn : n < 256 ^ count)
    (h : bigEndian count m = bigEndian count n) : m = n := by
  induction count generalizing m n with
  | zero => rw [Nat.pow_zero] at hm hn; omega
  | succ count ih =>
    rw [Nat.pow_succ] at hm hn
    rw [bigEndian_succ, bigEndian_succ] at h
    obtain ⟨hhigh, hlow⟩ := List.append_inj h (by simp [length_bigEndian])
    have hdiv : m / 256 = n / 256 := ih (by omega) (by omega) hhigh
    have hmod : m % 256 = n % 256 := by
      rw [← toNat_ofNat_mod m, ← toNat_ofNat_mod n, List.singleton_inj.mp hlow]
    omega

theorem keyLe_bigEndian {count m n : Nat} (hm : m < 256 ^ count) (hn : n < 256 ^ count) :
    keyLe (bigEndian count m) (bigEndian count n) = decide (m ≤ n) := by
  induction count generalizing m n with
  | zero =>
    rw [Nat.pow_zero] at hm hn
    have hmn : m ≤ n := by omega
    simp [bigEndian, lastDigits, keyLe, hmn]
  | succ count ih =>
    rw [Nat.pow_succ] at hm hn
    have hm' : m / 256 < 256 ^ count := by omega
    have hn' : n / 256 < 256 ^ count := by omega
    rw [bigEndian_succ, bigEndian_succ, keyLe_append (by simp [length_bigEndian])]
    by_cases hdiv : m / 256 = n / 256
    · rw [if_pos (by rw [hdiv])]
      simp only [keyLe, UInt8.lt_iff_toNat_lt, toNat_ofNat_mod]
      by_cases hmn : m ≤ n
      · simp [hmn]; omega
      · simp [hmn]; omega
    · rw [if_neg (fun h => hdiv (bigEndian_inj hm' hn' h)), ih hm' hn']
      by_cases hmn : m ≤ n
      · simp [hmn]; omega
      · simp [hmn]; omega

/-! ## Keys of addresses -/

theorem Family.size_eq (f : Family) : f.size = 256 ^ (f.width / 8) := by
  cases f <;> rfl

/-- Within a family keys order as numbers do. -/
theorem Address.keyLe_key_iff {a b : Address} (h : a.family = b.family) :
    keyLe a.key b.key = true ↔ a.number ≤ b.number := by
  have ha : a.number < 256 ^ (b.family.width / 8) := by
    rw [← Family.size_eq, ← h]; exact a.number_lt
  have hb : b.number < 256 ^ (b.family.width / 8) := by
    rw [← Family.size_eq]; exact b.number_lt
  rw [Address.key, Address.key, h, keyLe_bigEndian ha hb]
  exact decide_eq_true_iff

/-- Within a family a key names one address. -/
theorem Address.key_inj {a b : Address} (h : a.family = b.family) (hk : a.key = b.key) :
    a = b := by
  apply Address.ext h
  have hab := (keyLe_key_iff h).mp (by rw [hk]; exact keyLe_refl _)
  have hba := (keyLe_key_iff h.symm).mp (by rw [hk]; exact keyLe_refl _)
  omega

theorem Family.name_inj {f g : Family} (h : f.name = g.name) : f = g := by
  cases f <;> cases g <;> simp_all [Family.name]

theorem Family.name_ne_all (f : Family) : f.name ≠ "all" := by
  cases f <;> decide

end FirewallLists.Net
