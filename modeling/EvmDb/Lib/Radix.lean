import Mathlib.Data.Nat.Digits.Lemmas
import Mathlib.Data.List.DropRight
import Mathlib.Tactic.Ring
import Mathlib.Tactic.NormNum

/-!
Byte strings as numbers in base 256, most significant byte first.

`value` reads a byte string, `minimal` writes the shortest one, and `strip` and `pad` take
leading zeros away and put them back. The lemmas say how far a byte string and its value
determine each other.
-/

namespace EvmDb.Radix

/-- The number a byte string denotes, most significant byte first. -/
def value (bs : List UInt8) : ℕ := bs.foldl (fun n b => n * 256 + b.toNat) 0

/-- The shortest byte string denoting a number; zero has none. -/
def minimal (n : ℕ) : List UInt8 := ((Nat.digits 256 n).map UInt8.ofNat).reverse

/-- A byte string without its leading zeros. -/
def strip (bs : List UInt8) : List UInt8 := bs.dropWhile (· == 0)

/-- How many zeros a byte string begins with. -/
def leadingZeros (bs : List UInt8) : ℕ := (bs.takeWhile (· == 0)).length

/-- A byte string filled up with leading zeros to `k` bytes. -/
def pad (k : ℕ) (bs : List UInt8) : List UInt8 := List.replicate (k - bs.length) 0 ++ bs

/-- No leading zero. -/
def Minimal (bs : List UInt8) : Prop := bs.head? ≠ some 0

instance (bs : List UInt8) : Decidable (Minimal bs) := by unfold Minimal; infer_instance

/-! ### Values -/

lemma foldl_value (bs : List UInt8) (n : ℕ) :
    bs.foldl (fun n b => n * 256 + b.toNat) n = n * 256 ^ bs.length + value bs := by
  induction bs generalizing n with
  | nil => simp [value]
  | cons b bs ih =>
    simp only [value, List.foldl_cons, List.length_cons] at ih ⊢
    rw [ih, ih (0 * 256 + b.toNat)]
    ring

@[simp] lemma value_nil : value [] = 0 := rfl

lemma value_cons (b : UInt8) (bs : List UInt8) :
    value (b :: bs) = b.toNat * 256 ^ bs.length + value bs := by
  have := foldl_value bs b.toNat
  simpa [value] using this

lemma value_snoc (bs : List UInt8) (b : UInt8) : value (bs ++ [b]) = value bs * 256 + b.toNat := by
  simp [value, List.foldl_append]

lemma value_lt (bs : List UInt8) : value bs < 256 ^ bs.length := by
  induction bs with
  | nil => simp
  | cons b bs ih =>
    have hb : b.toNat < 256 := b.toNat_lt
    have hle : b.toNat * 256 ^ bs.length ≤ 255 * 256 ^ bs.length :=
      Nat.mul_le_mul_right _ (by omega)
    rw [value_cons, List.length_cons, pow_succ]
    omega

/-- Byte strings of one length are told apart by their values. -/
lemma value_inj {as bs : List UInt8} (hlen : as.length = bs.length)
    (h : value as = value bs) : as = bs := by
  induction as generalizing bs with
  | nil => exact (List.length_eq_zero_iff.mp hlen.symm).symm
  | cons a as ih =>
    rcases bs with _ | ⟨b, bs⟩
    · simp at hlen
    have hl : as.length = bs.length := by simpa using hlen
    rw [value_cons, value_cons, hl] at h
    have ha := value_lt as
    have hb := value_lt bs
    rw [hl] at ha
    have hab : a.toNat = b.toNat := by
      rcases Nat.lt_trichotomy a.toNat b.toNat with hlt | heq | hgt
      · have := Nat.mul_le_mul_right (256 ^ bs.length) (show a.toNat + 1 ≤ b.toNat from hlt)
        rw [Nat.add_mul] at this; omega
      · exact heq
      · have := Nat.mul_le_mul_right (256 ^ bs.length) (show b.toNat + 1 ≤ a.toNat from hgt)
        rw [Nat.add_mul] at this; omega
    rw [hab] at h
    rw [UInt8.toNat_inj.mp hab, ih hl (by omega)]

/-! ### Shortest byte strings -/

@[simp] lemma minimal_zero : minimal 0 = [] := by simp [minimal]

lemma minimal_pos {n : ℕ} (h : 0 < n) :
    minimal n = minimal (n / 256) ++ [UInt8.ofNat (n % 256)] := by
  unfold minimal
  rw [Nat.digits_def' (by omega) h]
  simp

@[simp] lemma value_minimal (n : ℕ) : value (minimal n) = n := by
  induction n using Nat.strong_induction_on with
  | _ n ih =>
    rcases Nat.eq_zero_or_pos n with rfl | hn
    · simp
    · rw [minimal_pos hn, value_snoc, ih (n / 256) (by omega), UInt8.toNat_ofNat']
      omega

lemma length_minimal_le {n k : ℕ} (h : n < 256 ^ k) : (minimal n).length ≤ k := by
  simpa [minimal] using (Nat.digits_length_le_iff (by omega) n).mpr h

lemma length_minimal_pos {n : ℕ} (h : 0 < n) : 0 < (minimal n).length := by
  rw [minimal_pos h]; simp

/-- A loop that takes at most `k` bytes off the low end of `n` and puts them in front. -/
def takeBytes : ℕ → ℕ → List UInt8 → List UInt8
  | 0, _, acc => acc
  | k + 1, n, acc => if n > 0 then takeBytes k (n / 256) (UInt8.ofNat (n % 256) :: acc) else acc

lemma takeBytes_eq {k n : ℕ} (h : n < 256 ^ k) (acc : List UInt8) :
    takeBytes k n acc = minimal n ++ acc := by
  induction k generalizing n acc with
  | zero =>
    have h0 : n = 0 := by simpa using h
    subst h0
    simp [takeBytes]
  | succ k ih =>
    rw [takeBytes]
    split_ifs with hn
    · have hlt : n / 256 < 256 ^ k := Nat.div_lt_of_lt_mul (by rw [pow_succ] at h; omega)
      rw [ih hlt, minimal_pos hn, List.append_assoc, List.singleton_append]
    · have h0 : n = 0 := by omega
      subst h0
      simp

/-! ### Leading zeros -/

lemma value_replicate_zero (k : ℕ) (bs : List UInt8) :
    value (List.replicate k 0 ++ bs) = value bs := by
  induction k with
  | zero => simp
  | succ k ih => rw [List.replicate_succ, List.cons_append, value_cons, ih]; simp

@[simp] lemma value_pad (k : ℕ) (bs : List UInt8) : value (pad k bs) = value bs :=
  value_replicate_zero _ _

lemma length_pad {k : ℕ} {bs : List UInt8} (h : bs.length ≤ k) : (pad k bs).length = k := by
  simp [pad]; omega

lemma drop_leadingZeros (bs : List UInt8) : bs.drop (leadingZeros bs) = strip bs := by
  induction bs with
  | nil => rfl
  | cons b bs ih =>
    by_cases hb : b = 0
    · simpa [leadingZeros, strip, hb] using ih
    · simp [leadingZeros, strip, hb]

/-- A byte string is some zeros and then its stripped form. -/
lemma exists_zeros (bs : List UInt8) : ∃ k, bs = List.replicate k 0 ++ strip bs := by
  induction bs with
  | nil => exact ⟨0, rfl⟩
  | cons b bs ih =>
    by_cases hb : b = 0
    · obtain ⟨k, hk⟩ := ih
      refine ⟨k + 1, ?_⟩
      subst hb
      rw [List.replicate_succ, List.cons_append]
      simpa [strip] using hk
    · exact ⟨0, by simp [strip, hb]⟩

@[simp] lemma value_strip (bs : List UInt8) : value (strip bs) = value bs := by
  obtain ⟨k, hk⟩ := exists_zeros bs
  conv_rhs => rw [hk]
  exact (value_replicate_zero _ _).symm

lemma length_strip_le (bs : List UInt8) : (strip bs).length ≤ bs.length :=
  (List.dropWhile_suffix _).length_le

/-- Stripping and padding back to the old length changes nothing. -/
lemma pad_strip {k : ℕ} {bs : List UInt8} (h : bs.length = k) : pad k (strip bs) = bs := by
  have hle := length_strip_le bs
  refine value_inj ?_ (by simp)
  rw [length_pad (by omega), h]

/-- Byte strings without leading zeros are told apart by their values. -/
lemma Minimal.value_inj {as bs : List UInt8} (ha : Minimal as) (hb : Minimal bs)
    (h : value as = value bs) : as = bs := by
  refine Radix.value_inj ?_ h
  -- the longer one would have a larger value, its first byte not being zero
  have key : ∀ {xs ys : List UInt8}, Minimal xs → value xs = value ys →
      xs.length ≤ ys.length := by
    intro xs ys hx hv
    rcases xs with _ | ⟨x, xs⟩
    · simp
    · have hx0 : 0 < x.toNat := by
        refine Nat.pos_of_ne_zero fun h0 => hx ?_
        simp only [List.head?_cons, Option.some.injEq]
        exact UInt8.toNat_inj.mp (by simpa using h0)
      by_contra hlt
      have h1 : 256 ^ ys.length ≤ 256 ^ xs.length :=
        Nat.pow_le_pow_right (by omega) (by simp at hlt; omega)
      have h2 := value_lt ys
      have h3 : 256 ^ xs.length ≤ x.toNat * 256 ^ xs.length := Nat.le_mul_of_pos_left _ hx0
      rw [value_cons] at hv
      omega
  exact Nat.le_antisymm (key ha h) (key hb h.symm)

/-! ### Bytes shifted into a word -/

/-- A 64-bit word after the bytes have been shifted in, the first one first. -/
def word (bs : List UInt8) : UInt64 := bs.foldl (fun w b => (w <<< 8) ||| b.toUInt64) 0

lemma toNat_shift_or (w : UInt64) (b : UInt8) :
    ((w <<< 8) ||| b.toUInt64).toNat = (w.toNat * 256 + b.toNat) % 2 ^ 64 := by
  have hb : b.toNat < 2 ^ 8 := b.toNat_lt
  have hw : w.toNat < 2 ^ 64 := w.toNat_lt
  have hsplit : (w.toNat * 2 ^ 8) % 2 ^ 64 = (w.toNat % 2 ^ 56) * 2 ^ 8 := by omega
  rw [UInt64.toNat_or, UInt64.toNat_shiftLeft, UInt8.toNat_toUInt64]
  simp only [UInt64.reduceToNat, Nat.shiftLeft_eq, Nat.reduceMod]
  rw [hsplit, ← Nat.shiftLeft_eq, ← Nat.shiftLeft_add_eq_or_of_lt hb, Nat.shiftLeft_eq]
  omega

lemma toNat_word_mod (bs : List UInt8) : (word bs).toNat = value bs % 2 ^ 64 := by
  induction bs using List.reverseRecOn with
  | nil => rfl
  | append_singleton bs b ih =>
    have hstep : word (bs ++ [b]) = (word bs <<< 8) ||| b.toUInt64 := by
      simp [word, List.foldl_append]
    rw [hstep, toNat_shift_or, ih, value_snoc]
    omega

/-- Up to eight bytes are read exactly. -/
lemma toNat_word {bs : List UInt8} (h : bs.length ≤ 8) : (word bs).toNat = value bs := by
  have hlt := value_lt bs
  have hle : 256 ^ bs.length ≤ 256 ^ 8 := Nat.pow_le_pow_right (by omega) h
  rw [toNat_word_mod, Nat.mod_eq_of_lt (by norm_num at hle ⊢; omega)]

lemma word_minimal (v : UInt64) : word (minimal v.toNat) = v := by
  have hlen : (minimal v.toNat).length ≤ 8 := length_minimal_le (by simpa using v.toNat_lt)
  apply UInt64.toNat_inj.mp
  rw [toNat_word hlen, value_minimal]

end EvmDb.Radix
