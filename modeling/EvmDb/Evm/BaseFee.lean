import Mathlib.Data.UInt
import Mathlib.Tactic.Ring
import Mathlib.Algebra.Order.Ring.Abs

/-!
The base fee of `src/evm/gas.c`.

The product of the fee and the gas is taken in a word, and so is the new fee. A gas limit below two
has no target to divide by.
-/

namespace EvmDb.BaseFee

def elasticityMultiplier : UInt64 := 2

def changeDenominator : UInt64 := 8

/-- A division of words. There is no result where the machine would divide by zero. -/
def divide (a b : UInt64) : Option UInt64 := if b = 0 then none else some (a / b)

/-- `evmdb_gas_calc_base_fee`. -/
def gasCalcBaseFee (parentBaseFee parentGasUsed parentGasLimit : UInt64) : Option UInt64 :=
  let parentGasTarget := parentGasLimit / elasticityMultiplier
  if parentGasUsed = parentGasTarget then some parentBaseFee
  else if parentGasUsed > parentGasTarget then do
    let gasUsedDelta := parentGasUsed - parentGasTarget
    let quotient ← divide (parentBaseFee * gasUsedDelta) parentGasTarget
    let feeDelta := quotient / changeDenominator
    let feeDelta := if feeDelta < 1 then 1 else feeDelta
    some (parentBaseFee + feeDelta)
  else do
    let gasUsedDelta := parentGasTarget - parentGasUsed
    let quotient ← divide (parentBaseFee * gasUsedDelta) parentGasTarget
    let feeDelta := quotient / changeDenominator
    if feeDelta ≥ parentBaseFee then some 1 else some (parentBaseFee - feeDelta)

/-! ### The formula -/

/-- The fee of the next block, over the integers. -/
def nextFee (fee used target : ℤ) : ℤ :=
  if used = target then fee
  else if used > target then fee + max 1 (fee * (used - target) / target / 8)
  else if 0 < fee - fee * (target - used) / target / 8 then
    fee - fee * (target - used) / target / 8
  else 1

/-- The new fee is computed, and it is the one of the formula. -/
def Exact (fee used limit : UInt64) : Prop :=
  ∃ next, gasCalcBaseFee fee used limit = some next ∧
    (next.toNat : ℤ) = nextFee fee.toNat used.toNat (limit.toNat / 2 : ℕ)

/-- What a product has in excess of a word does not show in a quotient. -/
def Negligible (product divisor : ℕ) : Prop :=
  2 ^ 64 * (product / 2 ^ 64) ≤ product % divisor

/-- The conditions on the fee, the gas used, and the target. -/
def Representable (fee used target : ℕ) : Prop :=
  used = target ∨
    target ≠ 0 ∧
      (used < target → Negligible (fee * (target - used)) (8 * target)) ∧
      (target < used →
        (Negligible (fee * (used - target)) (8 * target) ∨
          fee * (used - target) < 2 * (8 * target)) ∧
        fee + 1 < 2 ^ 64 ∧ fee * (used - target) < 8 * target * (2 ^ 64 - fee))

instance (product divisor : ℕ) : Decidable (Negligible product divisor) := by
  unfold Negligible; infer_instance

/-! ### Quotients of wrapped products -/

lemma wrapped_div_le (p d : ℕ) : p % 2 ^ 64 / d ≤ p / d := Nat.div_le_div_right (Nat.mod_le _ _)

lemma wrapped_div_eq_iff {p d : ℕ} (hd : 0 < d) : p % 2 ^ 64 / d = p / d ↔ Negligible p d := by
  have hle := wrapped_div_le p d
  have hsplit := Nat.div_add_mod p (2 ^ 64)
  have hquot := Nat.div_add_mod p d
  have hiff : p / d ≤ p % 2 ^ 64 / d ↔ d * (p / d) ≤ p % 2 ^ 64 := by
    rw [Nat.le_div_iff_mul_le hd, mul_comm]
  unfold Negligible
  constructor
  · intro h
    have := hiff.mp h.ge
    omega
  · intro h
    exact le_antisymm hle (hiff.mpr (by omega))

lemma max_wrapped_div_eq_iff {p d : ℕ} (hd : 0 < d) :
    max 1 (p % 2 ^ 64 / d) = max 1 (p / d) ↔ Negligible p d ∨ p < 2 * d := by
  have hle := wrapped_div_le p d
  have hsmall : p / d < 2 ↔ p < 2 * d := Nat.div_lt_iff_lt_mul hd
  rw [← wrapped_div_eq_iff hd, ← hsmall]
  omega

/-! ### The three branches -/

section

variable {fee used limit : UInt64}

lemma toNat_target : (limit / elasticityMultiplier).toNat = limit.toNat / 2 := UInt64.toNat_div ..

lemma toNat_feeDelta (delta target : UInt64) :
    (fee * delta / target / changeDenominator).toNat =
      fee.toNat * delta.toNat % 2 ^ 64 / (8 * target.toNat) := by
  rw [UInt64.toNat_div, UInt64.toNat_div, UInt64.toNat_mul, Nat.div_div_eq_div_mul, mul_comm 8]
  rfl

lemma toNat_atLeastOne (d : UInt64) : (if d < 1 then 1 else d).toNat = max 1 d.toNat := by
  split_ifs with h
  all_goals
    rw [UInt64.lt_iff_toNat_lt, UInt64.toNat_one] at h
    try rw [UInt64.toNat_one]
    omega

lemma gasCalcBaseFee_at_target (h : used.toNat = limit.toNat / 2) :
    gasCalcBaseFee fee used limit = some fee := by
  have heq : used = limit / elasticityMultiplier := UInt64.toNat_inj.mp (by rw [h, toNat_target])
  simp [gasCalcBaseFee, heq]

lemma gasCalcBaseFee_above (h : limit.toNat / 2 < used.toNat) :
    gasCalcBaseFee fee used limit = if limit.toNat / 2 = 0 then none else
      some (UInt64.ofNat (fee.toNat + max 1
        (fee.toNat * (used.toNat - limit.toNat / 2) % 2 ^ 64 / (8 * (limit.toNat / 2))))) := by
  have hne : used ≠ limit / elasticityMultiplier := by
    rintro rfl
    rw [toNat_target] at h
    omega
  have hgt : used > limit / elasticityMultiplier := by
    rw [gt_iff_lt, UInt64.lt_iff_toNat_lt, toNat_target]
    exact h
  have hzero : limit / elasticityMultiplier = 0 ↔ limit.toNat / 2 = 0 := by
    rw [← UInt64.toNat_inj, toNat_target]
    rfl
  have hsub : (used - limit / elasticityMultiplier).toNat = used.toNat - limit.toNat / 2 := by
    rw [UInt64.toNat_sub_of_le _ _ (UInt64.le_of_lt hgt), toNat_target]
  unfold gasCalcBaseFee
  dsimp only
  rw [if_neg hne, if_pos hgt]
  unfold divide
  simp only [hzero]
  split_ifs with h0
  · rfl
  · refine congrArg some (UInt64.toNat_inj.mp ?_)
    rw [UInt64.toNat_add, toNat_atLeastOne, toNat_feeDelta, hsub, toNat_target,
      UInt64.toNat_ofNat']

lemma gasCalcBaseFee_below (h : used.toNat < limit.toNat / 2) :
    gasCalcBaseFee fee used limit = some (UInt64.ofNat (max 1 (fee.toNat -
      fee.toNat * (limit.toNat / 2 - used.toNat) % 2 ^ 64 / (8 * (limit.toNat / 2))))) := by
  have hne : used ≠ limit / elasticityMultiplier := by
    rintro rfl
    rw [toNat_target] at h
    omega
  have hle : used ≤ limit / elasticityMultiplier := by
    rw [UInt64.le_iff_toNat_le, toNat_target]
    exact h.le
  have hngt : ¬ used > limit / elasticityMultiplier := UInt64.not_lt.mpr hle
  have hzero : limit / elasticityMultiplier ≠ 0 := by
    rw [ne_eq, ← UInt64.toNat_inj, toNat_target, UInt64.toNat_zero]
    omega
  have hsub : (limit / elasticityMultiplier - used).toNat = limit.toNat / 2 - used.toNat := by
    rw [UInt64.toNat_sub_of_le _ _ hle, toNat_target]
  have hdelta := @toNat_feeDelta fee (limit / elasticityMultiplier - used)
    (limit / elasticityMultiplier)
  rw [hsub, toNat_target] at hdelta
  unfold gasCalcBaseFee
  dsimp only
  rw [if_neg hne, if_neg hngt]
  unfold divide
  rw [if_neg hzero, Option.bind_eq_bind, Option.bind_some]
  rw [← hdelta]
  have hfee : fee.toNat < 2 ^ 64 := fee.toNat_lt
  split_ifs with hmin
  all_goals
    rw [ge_iff_le, UInt64.le_iff_toNat_le] at hmin
    refine congrArg some (UInt64.toNat_inj.mp ?_)
    rw [UInt64.toNat_ofNat', Nat.mod_eq_of_lt (by omega)]
  · rw [UInt64.toNat_one]
    omega
  · rw [UInt64.toNat_sub_of_le _ _ (UInt64.le_iff_toNat_le.mpr (by omega))]
    omega

end

/-! ### The formula over the natural numbers -/

section

variable {fee used target : ℕ}

lemma nextFee_at_target (h : used = target) : nextFee fee used target = fee := by
  simp [nextFee, h]

lemma nextFee_above (h : target < used) :
    nextFee fee used target = (fee + max 1 (fee * (used - target) / (8 * target)) : ℕ) := by
  unfold nextFee
  rw [if_neg (by omega), if_pos (by omega)]
  push_cast [Nat.cast_sub h.le]
  rw [Int.ediv_ediv_of_nonneg (by omega), mul_comm (target : ℤ) 8]

lemma nextFee_below (h : used < target) :
    nextFee fee used target = (max 1 (fee - fee * (target - used) / (8 * target)) : ℕ) := by
  have hdelta : (fee * (target - used) / target / 8 : ℤ) =
      (fee * (target - used) / (8 * target) : ℕ) := by
    push_cast [Nat.cast_sub h.le]
    rw [Int.ediv_ediv_of_nonneg (by omega), mul_comm (target : ℤ) 8]
  unfold nextFee
  rw [if_neg (by omega), if_neg (by omega), hdelta]
  split_ifs <;> omega

/-- A fee falls by an eighth at most. -/
lemma delta_le {d : ℕ} (h : d ≤ target) : fee * d / (8 * target) ≤ fee / 8 := by
  rcases Nat.eq_zero_or_pos target with rfl | hpos
  · simp
  · calc fee * d / (8 * target) ≤ fee * target / (8 * target) :=
          Nat.div_le_div_right (Nat.mul_le_mul_left _ h)
      _ = fee / 8 := Nat.mul_div_mul_right _ _ hpos

end

/-! ### Exactness -/

section

variable {fee used limit : UInt64}

lemma exact_below_iff (h : used.toNat < limit.toNat / 2) : Exact fee used limit ↔
    Negligible (fee.toNat * (limit.toNat / 2 - used.toNat)) (8 * (limit.toNat / 2)) := by
  have hfee : fee.toNat < 2 ^ 64 := fee.toNat_lt
  have hle := @delta_le fee.toNat (limit.toNat / 2) (limit.toNat / 2 - used.toNat) (by omega)
  have hwrap := wrapped_div_le (fee.toNat * (limit.toNat / 2 - used.toNat)) (8 * (limit.toNat / 2))
  unfold Exact
  rw [← wrapped_div_eq_iff (by omega), gasCalcBaseFee_below h, nextFee_below h]
  simp only [Option.some.injEq, exists_eq_left', UInt64.toNat_ofNat', Nat.cast_inj]
  generalize fee.toNat * (limit.toNat / 2 - used.toNat) % 2 ^ 64 / (8 * (limit.toNat / 2)) = d at *
  generalize fee.toNat * (limit.toNat / 2 - used.toNat) / (8 * (limit.toNat / 2)) = d' at *
  omega

lemma exact_above_iff (h : limit.toNat / 2 < used.toNat) (h0 : limit.toNat / 2 ≠ 0) :
    Exact fee used limit ↔
      (Negligible (fee.toNat * (used.toNat - limit.toNat / 2)) (8 * (limit.toNat / 2)) ∨
        fee.toNat * (used.toNat - limit.toNat / 2) < 2 * (8 * (limit.toNat / 2))) ∧
      fee.toNat + 1 < 2 ^ 64 ∧ fee.toNat * (used.toNat - limit.toNat / 2) <
        8 * (limit.toNat / 2) * (2 ^ 64 - fee.toNat) := by
  have hwrap := wrapped_div_le (fee.toNat * (used.toNat - limit.toNat / 2)) (8 * (limit.toNat / 2))
  -- the bound on the product says that the new fee fits into a word
  have hfits : fee.toNat * (used.toNat - limit.toNat / 2) / (8 * (limit.toNat / 2)) <
      2 ^ 64 - fee.toNat ↔ fee.toNat * (used.toNat - limit.toNat / 2) <
        8 * (limit.toNat / 2) * (2 ^ 64 - fee.toNat) := by
    rw [Nat.div_lt_iff_lt_mul (by omega), mul_comm (2 ^ 64 - fee.toNat)]
  unfold Exact
  rw [← max_wrapped_div_eq_iff (by omega), ← hfits, gasCalcBaseFee_above h, if_neg h0,
    nextFee_above h]
  simp only [Option.some.injEq, exists_eq_left', UInt64.toNat_ofNat', Nat.cast_inj]
  generalize fee.toNat * (used.toNat - limit.toNat / 2) % 2 ^ 64 / (8 * (limit.toNat / 2)) = d at *
  generalize fee.toNat * (used.toNat - limit.toNat / 2) / (8 * (limit.toNat / 2)) = d' at *
  omega

/-- **The base fee is exact** where the gas limit leaves a target and no result exceeds a word in
a way that shows. -/
theorem exact_iff (fee used limit : UInt64) :
    Exact fee used limit ↔ Representable fee.toNat used.toNat (limit.toNat / 2) := by
  unfold Representable
  rcases lt_trichotomy used.toNat (limit.toNat / 2) with h | h | h
  · rw [exact_below_iff h]
    have h0 : limit.toNat / 2 ≠ 0 := by omega
    simp [h, h.ne, h.not_gt, h0]
  · have hexact : Exact fee used limit :=
      ⟨fee, gasCalcBaseFee_at_target h, (nextFee_at_target h).symm⟩
    simp [h, hexact]
  · by_cases h0 : limit.toNat / 2 = 0
    · have hnone : ¬ Exact fee used limit := by
        rintro ⟨next, hnext, -⟩
        rw [gasCalcBaseFee_above h, if_pos h0] at hnext
        cases hnext
      simp [hnone, h0, (h0 ▸ h).ne']
    · rw [exact_above_iff h h0]
      simp [h, h.ne', h.not_gt, h0]

/-- A gas limit of one is halved to zero, and a fee of ten thousand gwei wraps in a full block. -/
theorem not_exact :
    gasCalcBaseFee 7 1 1 = none ∧
      gasCalcBaseFee 10000000000000 30000000 30000000 = some 10020217061752 ∧
      nextFee 10000000000000 30000000 15000000 = 11250000000000 ∧
      ¬ ∀ fee used limit, Exact fee used limit := by
  refine ⟨by decide, by decide, by decide, fun hall => ?_⟩
  obtain ⟨next, hnext, -⟩ := hall 7 1 1
  have hnone : gasCalcBaseFee 7 1 1 = none := by decide
  rw [hnone] at hnext
  cases hnext

end

/-! ### Steps of an eighth -/

/-- No result on the way to the new fee exceeds a word, however much of the limit is used. -/
def Fits (fee limit : ℕ) : Prop :=
  ∀ used ≤ limit, fee * (limit / 2 - used) < 2 ^ 64 ∧ fee * (used - limit / 2) < 2 ^ 64 ∧
    (limit / 2 < used → fee + max 1 (fee * (used - limit / 2) / (8 * (limit / 2))) < 2 ^ 64)

/-- Whatever part of the limit is used, there is a new fee; it grows with the gas used, and it
differs from the old one by an eighth at most, or by one. -/
structure Steady (fee limit : UInt64) : Prop where
  defined : ∀ used, used ≤ limit → (gasCalcBaseFee fee used limit).isSome
  mono : ∀ used₁ used₂ next₁ next₂, used₁ ≤ used₂ → used₂ ≤ limit →
    gasCalcBaseFee fee used₁ limit = some next₁ → gasCalcBaseFee fee used₂ limit = some next₂ →
    next₁ ≤ next₂
  bounded : ∀ used next, used ≤ limit → gasCalcBaseFee fee used limit = some next →
    |(next.toNat : ℤ) - fee.toNat| ≤ max 1 (fee.toNat / 8 : ℕ)

/-- There is a fee to raise or lower, and the last unit of an odd limit, which has no counterpart
below the target, does not raise it by more than an eighth. -/
def Regular (fee limit : ℕ) : Prop :=
  fee ≠ 0 ∧ (limit % 2 = 0 ∨ fee * (limit / 2 + 1) < 8 * (limit / 2) * (max 1 (fee / 8) + 1))

instance (fee limit : ℕ) : Decidable (Fits fee limit) := by unfold Fits; infer_instance

instance (fee limit : ℕ) : Decidable (Regular fee limit) := by unfold Regular; infer_instance

section

variable {fee target used used₁ used₂ : ℕ}

lemma nextFee_le (hfee : fee ≠ 0) (h : used ≤ target) : nextFee fee used target ≤ fee := by
  rcases h.lt_or_eq with h | h
  · rw [nextFee_below h]
    exact Nat.cast_le.mpr (max_le (by omega) (Nat.sub_le _ _))
  · rw [nextFee_at_target h]

lemma le_nextFee (h : target ≤ used) : fee ≤ nextFee fee used target := by
  rcases h.lt_or_eq with h | h
  · rw [nextFee_above h]
    omega
  · rw [nextFee_at_target h.symm]

/-- **The formula is monotone in the gas used.** -/
theorem nextFee_mono (hfee : fee ≠ 0) (h : used₁ ≤ used₂) :
    nextFee fee used₁ target ≤ nextFee fee used₂ target := by
  rcases lt_or_ge used₂ target with h₂ | h₂
  · have hdelta : fee * (target - used₂) / (8 * target) ≤ fee * (target - used₁) / (8 * target) :=
      Nat.div_le_div_right (Nat.mul_le_mul_left _ (by omega))
    rw [nextFee_below h₂, nextFee_below (by omega)]
    omega
  · rcases le_or_gt used₁ target with h₁ | h₁
    · exact (nextFee_le hfee h₁).trans (le_nextFee h₂)
    · have hdelta : fee * (used₁ - target) / (8 * target) ≤ fee * (used₂ - target) / (8 * target) :=
        Nat.div_le_div_right (Nat.mul_le_mul_left _ (by omega))
      rw [nextFee_above h₁, nextFee_above (by omega)]
      omega

/-- A fall is by an eighth at most. -/
lemma fee_sub_nextFee_le (h : used ≤ target) :
    fee - nextFee fee used target ≤ max 1 (fee / 8 : ℕ) := by
  rcases h.lt_or_eq with h | h
  · have hle := @delta_le fee target (target - used) (by omega)
    rw [nextFee_below h]
    omega
  · rw [nextFee_at_target h]
    omega

/-- A rise is by an eighth at most exactly when the gas above the target says so. -/
lemma nextFee_sub_fee_le_iff (h0 : target ≠ 0) (h : target < used) :
    nextFee fee used target - fee ≤ max 1 (fee / 8 : ℕ) ↔
      fee * (used - target) < 8 * target * (max 1 (fee / 8) + 1) := by
  rw [nextFee_above h, ← mul_comm (max 1 (fee / 8) + 1), ← Nat.div_lt_iff_lt_mul (by omega)]
  omega

end

section

variable {fee limit : UInt64}

/-- A product that fits a word is not wrapped. -/
lemma negligible_of_lt {product divisor : ℕ} (h : product < 2 ^ 64) :
    Negligible product divisor := by
  rw [Negligible, Nat.div_eq_of_lt h]
  exact Nat.zero_le _

lemma exact_of_fits (hlimit : 2 ≤ limit.toNat) (hfits : Fits fee.toNat limit.toNat)
    {used : UInt64} (h : used ≤ limit) : Exact fee used limit := by
  obtain ⟨hbelow, habove, hsum⟩ := hfits used.toNat (UInt64.le_iff_toNat_le.mp h)
  have h0 : limit.toNat / 2 ≠ 0 := by omega
  rcases lt_trichotomy used.toNat (limit.toNat / 2) with h | h | h
  · exact (exact_below_iff h).mpr (negligible_of_lt hbelow)
  · exact ⟨fee, gasCalcBaseFee_at_target h, (nextFee_at_target h).symm⟩
  · have hquot : fee.toNat * (used.toNat - limit.toNat / 2) / (8 * (limit.toNat / 2)) <
        2 ^ 64 - fee.toNat := by
      have := hsum h
      omega
    rw [Nat.div_lt_iff_lt_mul (by omega), mul_comm (2 ^ 64 - fee.toNat)] at hquot
    refine (exact_above_iff h h0).mpr ⟨Or.inl (negligible_of_lt habove), ?_, hquot⟩
    have := hsum h
    omega

/-- What is computed is the formula. -/
lemma toNat_next (hlimit : 2 ≤ limit.toNat) (hfits : Fits fee.toNat limit.toNat)
    {used next : UInt64} (h : used ≤ limit) (hnext : gasCalcBaseFee fee used limit = some next) :
    (next.toNat : ℤ) = nextFee fee.toNat used.toNat (limit.toNat / 2 : ℕ) := by
  obtain ⟨next', hnext', hvalue⟩ := exact_of_fits hlimit hfits h
  rw [hnext] at hnext'
  cases hnext'
  exact hvalue

/-- Only a fee that is not zero is monotone: below the target, zero becomes one. -/
lemma Steady.fee_ne_zero (hlimit : 2 ≤ limit.toNat) (hfits : Fits fee.toNat limit.toNat)
    (hsteady : Steady fee limit) : fee.toNat ≠ 0 := by
  intro hfee
  have htarget : (limit / elasticityMultiplier).toNat = limit.toNat / 2 := toNat_target
  have hle : limit / elasticityMultiplier ≤ limit := by
    rw [UInt64.le_iff_toNat_le, htarget]
    omega
  have hzero : (0 : UInt64) ≤ limit / elasticityMultiplier := UInt64.le_iff_toNat_le.mpr (by simp)
  obtain ⟨next, hnext, hvalue⟩ := exact_of_fits hlimit hfits (UInt64.le_trans hzero hle)
  have hmono := hsteady.mono _ _ next fee hzero hle hnext (gasCalcBaseFee_at_target htarget)
  have hone : (next.toNat : ℤ) = 1 := by
    rw [hvalue, UInt64.toNat_zero, nextFee_below (by omega), hfee]
    simp
  rw [UInt64.le_iff_toNat_le] at hmono
  omega

/-- A full block raises the fee by no more than an eighth. -/
lemma Steady.full_block (hlimit : 2 ≤ limit.toNat) (hfits : Fits fee.toNat limit.toNat)
    (hsteady : Steady fee limit) :
    fee.toNat * (limit.toNat - limit.toNat / 2) <
      8 * (limit.toNat / 2) * (max 1 (fee.toNat / 8) + 1) := by
  obtain ⟨next, hnext, hvalue⟩ := exact_of_fits hlimit hfits (UInt64.le_refl limit)
  have hbound := hsteady.bounded limit next (UInt64.le_refl limit) hnext
  rw [hvalue] at hbound
  exact (nextFee_sub_fee_le_iff (by omega) (by omega)).mp (le_of_abs_le hbound)

/-- Above the target, the fee rises by no more than in a full block. -/
lemma Regular.rise {used : ℕ} (hlimit : 2 ≤ limit.toNat) (hregular : Regular fee.toNat limit.toNat)
    (h : used ≤ limit.toNat) : fee.toNat * (used - limit.toNat / 2) <
      8 * (limit.toNat / 2) * (max 1 (fee.toNat / 8) + 1) := by
  obtain ⟨-, heven | hodd⟩ := hregular
  · calc fee.toNat * (used - limit.toNat / 2) ≤ fee.toNat * (limit.toNat / 2) :=
          Nat.mul_le_mul_left _ (by omega)
      _ < 8 * (max 1 (fee.toNat / 8) + 1) * (limit.toNat / 2) :=
          Nat.mul_lt_mul_of_pos_right (by omega) (by omega)
      _ = 8 * (limit.toNat / 2) * (max 1 (fee.toNat / 8) + 1) := by ring
  · exact (Nat.mul_le_mul_left _ (by omega)).trans_lt hodd

lemma steady_of_regular (hlimit : 2 ≤ limit.toNat) (hfits : Fits fee.toNat limit.toNat)
    (hregular : Regular fee.toNat limit.toNat) : Steady fee limit := by
  refine ⟨fun used h => ?_, fun used₁ used₂ next₁ next₂ h₁ h₂ hnext₁ hnext₂ => ?_,
    fun used next h hnext => ?_⟩
  · obtain ⟨next, hnext, -⟩ := exact_of_fits hlimit hfits h
    rw [hnext]
    rfl
  · have hmono := @nextFee_mono fee.toNat (limit.toNat / 2) _ _ hregular.1
      (UInt64.le_iff_toNat_le.mp h₁)
    rw [← toNat_next hlimit hfits (UInt64.le_trans h₁ h₂) hnext₁,
      ← toNat_next hlimit hfits h₂ hnext₂] at hmono
    exact UInt64.le_iff_toNat_le.mpr (by exact_mod_cast hmono)
  · rw [toNat_next hlimit hfits h hnext]
    rw [UInt64.le_iff_toNat_le] at h
    rcases le_or_gt used.toNat (limit.toNat / 2) with hle | hgt
    · have hfall := @fee_sub_nextFee_le fee.toNat _ _ hle
      have hle' := nextFee_le hregular.1 hle
      exact abs_le.mpr ⟨by omega, by omega⟩
    · have hrise := (nextFee_sub_fee_le_iff (by omega) hgt).mpr (hregular.rise hlimit h)
      have hge := @le_nextFee fee.toNat _ _ hgt.le
      exact abs_le.mpr ⟨by omega, hrise⟩

/-- **The fee moves steadily** exactly when it is not zero, and the odd unit of the limit, if it
has one, does not raise it by more than an eighth. -/
theorem steady_iff (hlimit : 2 ≤ limit.toNat) (hfits : Fits fee.toNat limit.toNat) :
    Steady fee limit ↔ Regular fee.toNat limit.toNat := by
  constructor
  · intro hsteady
    refine ⟨hsteady.fee_ne_zero hlimit hfits, ?_⟩
    rcases Nat.mod_two_eq_zero_or_one limit.toNat with heven | hodd
    · exact Or.inl heven
    · have hfull := hsteady.full_block hlimit hfits
      rw [show limit.toNat - limit.toNat / 2 = limit.toNat / 2 + 1 by omega] at hfull
      exact Or.inr hfull
  · exact steady_of_regular hlimit hfits

theorem steady_thousand : Steady 1000 10 :=
  (steady_iff (by decide) (by decide)).mpr (by decide)

/-- A fee of zero becomes one below the target only, and a full block of three raises a fee of
eight by a quarter. -/
theorem not_steady :
    gasCalcBaseFee 0 0 4 = some 1 ∧ gasCalcBaseFee 0 2 4 = some 0 ∧
      gasCalcBaseFee 8 3 3 = some 10 ∧ Fits 0 4 ∧ Fits 8 3 ∧ ¬ Steady 0 4 ∧ ¬ Steady 8 3 := by
  refine ⟨by decide, by decide, by decide, by decide, by decide, fun h => ?_, fun h => ?_⟩
  · have hmono := h.mono 0 2 1 0 (by decide) (by decide) (by decide) (by decide)
    exact absurd hmono (by decide)
  · have hbound := h.bounded 3 10 (by decide) (by decide)
    exact absurd hbound (by decide)

end

end EvmDb.BaseFee
