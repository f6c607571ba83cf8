import Mathlib.Data.Nat.Digits.Lemmas
import Mathlib.Data.List.TakeWhile

/-!
Numbers as texts of digits.

`digits` are the digits of a number in a base, most significant first, and `value` reads them
back. The decimal text is what `%llu` prints, and `strtoull` reads decimal texts.
-/

namespace EvmDb.Digits

/-- The digits of a number, most significant first; zero has one. -/
def digits (b n : ℕ) : List ℕ := if n = 0 then [0] else (Nat.digits b n).reverse

/-- The number some digits denote. -/
def value (b : ℕ) (ds : List ℕ) : ℕ := ds.foldl (fun n d => n * b + d) 0

lemma value_snoc (b : ℕ) (ds : List ℕ) (d : ℕ) : value b (ds ++ [d]) = value b ds * b + d := by
  simp [value, List.foldl_append]

lemma value_reverse (b : ℕ) (ds : List ℕ) : value b ds.reverse = Nat.ofDigits b ds := by
  induction ds with
  | nil => rfl
  | cons d ds ih =>
    rw [List.reverse_cons, value_snoc, ih, Nat.ofDigits_cons]
    simp [Nat.mul_comm, Nat.add_comm]

@[simp] lemma value_digits (b n : ℕ) : value b (digits b n) = n := by
  unfold digits
  split_ifs with h
  · simp [value, h]
  · rw [value_reverse, Nat.ofDigits_digits]

lemma digits_ne_nil (b n : ℕ) : digits b n ≠ [] := by
  unfold digits
  split_ifs with h
  · simp
  · simpa [Nat.digits_eq_nil_iff_eq_zero] using h

lemma digits_lt {b : ℕ} (hb : 1 < b) (n : ℕ) : ∀ d ∈ digits b n, d < b := by
  intro d hd
  unfold digits at hd
  split_ifs at hd with h
  · rw [List.mem_singleton.mp hd]
    omega
  · exact Nat.digits_lt_base hb (List.mem_reverse.mp hd)

lemma length_digits_le {b n k : ℕ} (hb : 1 < b) (hk : 0 < k) (h : n < b ^ k) :
    (digits b n).length ≤ k := by
  unfold digits
  split_ifs
  · exact hk
  · rw [List.length_reverse]
    exact (Nat.digits_length_le_iff hb n).mpr h

/-! ### Decimal texts -/

/-- The character of a decimal digit. -/
def decimalChar (d : ℕ) : UInt8 := UInt8.ofNat (48 + d)

/-- What `%llu` prints. -/
def decimal (n : ℕ) : List UInt8 := (digits 10 n).map decimalChar

def isSpace (c : UInt8) : Bool := c = 32 ∨ (9 ≤ c ∧ c ≤ 13)

def isDigit (c : UInt8) : Bool := 48 ≤ c ∧ c ≤ 57

/-- A sign in front of digits. -/
def sign : List UInt8 → Bool × List UInt8
  | 45 :: t => (true, t)
  | 43 :: t => (false, t)
  | t => (false, t)

/-- `strtoull` in base 10: spaces, a sign, and the digits up to the first other character; the
largest word if they denote more than that. -/
def strtoull (s : List UInt8) : UInt64 :=
  let (negative, s) := sign (s.dropWhile isSpace)
  let n := value 10 ((s.takeWhile isDigit).map fun c => c.toNat - 48)
  if n ≥ 2 ^ 64 then UInt64.ofNat (2 ^ 64 - 1)
  else if negative then 0 - UInt64.ofNat n
  else UInt64.ofNat n

/-- `atol`: as `strtoull` in base 10, but a signed number, the nearest one there is. -/
def atol (s : List UInt8) : ℤ :=
  let (negative, s) := sign (s.dropWhile isSpace)
  let n := value 10 ((s.takeWhile isDigit).map fun c => c.toNat - 48)
  if negative then max (-n) (-2 ^ 63) else min n (2 ^ 63 - 1)

/-- The value of a character as a digit in a base up to 16. -/
def digitVal (c : UInt8) : Option ℕ :=
  if 48 ≤ c ∧ c ≤ 57 then some (c.toNat - 48)
  else if 97 ≤ c ∧ c ≤ 102 then some (c.toNat - 87)
  else if 65 ≤ c ∧ c ≤ 70 then some (c.toNat - 55)
  else none

/-- The base that the first characters of a number announce, and the number without them. -/
def numberBase : List UInt8 → ℕ × List UInt8
  | 48 :: 120 :: t => (16, t)
  | 48 :: 88 :: t => (16, t)
  | 48 :: t => (8, t)
  | t => (10, t)

/-- `strtoull` in base 0: as in base 10, but a prefix `0x` announces base 16, and a zero base 8. -/
def strtoullAnyBase (s : List UInt8) : UInt64 :=
  let (negative, s) := sign (s.dropWhile isSpace)
  let (base, s) := numberBase s
  let isDigit (c : UInt8) : Bool := (digitVal c).any (· < base)
  let n := value base ((s.takeWhile isDigit).map fun c => (digitVal c).getD 0)
  if n ≥ 2 ^ 64 then UInt64.ofNat (2 ^ 64 - 1)
  else if negative then 0 - UInt64.ofNat n
  else UInt64.ofNat n

lemma toNat_decimalChar {d : ℕ} (h : d < 10) : (decimalChar d).toNat = 48 + d := by
  rw [decimalChar, UInt8.toNat_ofNat', Nat.mod_eq_of_lt (by omega)]

lemma isDigit_decimalChar {d : ℕ} (h : d < 10) : isDigit (decimalChar d) = true := by
  have hn := toNat_decimalChar h
  simp only [isDigit, UInt8.le_iff_toNat_le, hn, decide_eq_true_eq]
  exact ⟨by simp, by simp; omega⟩

lemma isDigit_decimal (n : ℕ) : ∀ c ∈ decimal n, isDigit c = true := by
  intro c hc
  obtain ⟨d, hd, rfl⟩ := List.mem_map.mp hc
  exact isDigit_decimalChar (digits_lt (by omega) n d hd)

/-- The digits of a text denote the number that was printed. -/
lemma value_map_decimal (n : ℕ) : value 10 ((decimal n).map fun c => c.toNat - 48) = n := by
  have hmap : (decimal n).map (fun c => c.toNat - 48) = digits 10 n := by
    unfold decimal
    rw [List.map_map]
    conv_rhs => rw [← List.map_id (digits 10 n)]
    refine List.map_congr_left fun d hd => ?_
    show (decimalChar d).toNat - 48 = d
    rw [toNat_decimalChar (digits_lt (by omega) _ d hd)]
    omega
  rw [hmap, value_digits]

lemma isSpace_of_isDigit {c : UInt8} (h : isDigit c = true) : isSpace c = false := by
  simp only [isDigit, isSpace, UInt8.le_iff_toNat_le, decide_eq_true_eq, decide_eq_false_iff_not,
    ← UInt8.toNat_inj] at h ⊢
  simp at h ⊢
  omega

/-- A decimal text is scanned as it is: it begins with a digit and has nothing else. -/
lemma scan_decimal (n : ℕ) : (decimal n).dropWhile isSpace = decimal n ∧
    sign (decimal n) = (false, decimal n) ∧ (decimal n).takeWhile isDigit = decimal n := by
  have hall := isDigit_decimal n
  obtain ⟨c, t, hc⟩ : ∃ c t, decimal n = c :: t :=
    List.exists_cons_of_ne_nil (by simpa [decimal] using digits_ne_nil 10 n)
  have hdig : isDigit c = true := hall c (by rw [hc]; exact List.mem_cons_self)
  refine ⟨?_, ?_, List.takeWhile_eq_self_iff.mpr hall⟩
  · rw [hc, List.dropWhile_cons_of_neg (by simp [isSpace_of_isDigit hdig])]
  · rw [hc]
    unfold sign
    split
    · rename_i h; cases h; cases hdig
    · rename_i h; cases h; cases hdig
    · rfl

/-- **A printed number is read back.** -/
theorem strtoull_decimal (v : UInt64) : strtoull (decimal v.toNat) = v := by
  obtain ⟨hspace, hsign, htake⟩ := scan_decimal v.toNat
  unfold strtoull
  rw [hspace, hsign]
  simp only [htake, value_map_decimal]
  rw [if_neg (by have := v.toNat_lt; omega), if_neg (by simp), UInt64.ofNat_toNat]

/-- A printed number is read back by `atol`, up to the largest one there is. -/
theorem atol_decimal (n : ℕ) : atol (decimal n) = min (n : ℤ) (2 ^ 63 - 1) := by
  obtain ⟨hspace, hsign, htake⟩ := scan_decimal n
  unfold atol
  rw [hspace, hsign]
  simp only [htake, value_map_decimal]
  rfl

end EvmDb.Digits
