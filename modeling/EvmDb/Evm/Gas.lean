import EvmDb.Evm.Effects

/-!
Gas: `src/evm/gas.c`, and how `evmdb_evm_execute_tx` accounts for it.

The gas of calldata is a sum of small numbers, so it does not reach `2 ^ 64` below `2 ^ 59` bytes.
-/

namespace EvmDb.Gas

open EvmDb.Types EvmDb.Program EvmDb.Redis EvmDb.RedisState EvmDb.Host EvmDb.Executor EvmDb.Plan
open EvmDb.Effects

/-! ### Intrinsic gas -/

/-- `evmdb_gas_intrinsic`. -/
def gasIntrinsic (data : Bytes) (isCreate : Bool) : UInt64 :=
  data.foldl (fun gas b => gas + if b = 0 then 4 else 16) (if isCreate then 53000 else 21000)

/-- The gas of some calldata: 4 for every zero, 16 for every other byte. -/
def calldataGas (data : Bytes) : ℕ := (data.map fun b => if b = 0 then 4 else 16).sum

lemma calldataGas_le (data : Bytes) : calldataGas data ≤ 16 * data.length := by
  unfold calldataGas
  induction data with
  | nil => simp
  | cons b data ih =>
    rw [List.map_cons, List.sum_cons, List.length_cons]
    split_ifs <;> omega

/-- The loop over the calldata adds up, as long as the sum fits 64 bits. -/
lemma toNat_foldl {data : Bytes} {gas : UInt64} (h : gas.toNat + calldataGas data < 2 ^ 64) :
    (data.foldl (fun gas b => gas + if b = 0 then 4 else 16) gas).toNat =
      gas.toNat + calldataGas data := by
  unfold calldataGas at h ⊢
  induction data generalizing gas with
  | nil => rfl
  | cons b data ih =>
    rw [List.map_cons, List.sum_cons] at h ⊢
    have hstep : (gas + if b = 0 then 4 else 16).toNat = gas.toNat + if b = 0 then 4 else 16 := by
      rw [UInt64.toNat_add]
      split_ifs at h ⊢
      · exact Nat.mod_eq_of_lt (show gas.toNat + 4 < 2 ^ 64 by omega)
      · exact Nat.mod_eq_of_lt (show gas.toNat + 16 < 2 ^ 64 by omega)
    rw [List.foldl_cons, ih (by rw [hstep]; omega), hstep, Nat.add_assoc]

variable {data : Bytes}

lemma toNat_gasIntrinsic (h : data.length < 2 ^ 59) (isCreate : Bool) :
    (gasIntrinsic data isCreate).toNat =
      (if isCreate then 53000 else 21000) + calldataGas data := by
  have hle := calldataGas_le data
  have hbase : (if isCreate then 53000 else 21000 : UInt64).toNat =
      if isCreate then 53000 else 21000 := by
    cases isCreate <;> rfl
  unfold gasIntrinsic
  rw [toNat_foldl (by rw [hbase]; split_ifs <;> omega), hbase]

lemma toNat_intrinsicGas (h : data.length < 2 ^ 59) :
    (intrinsicGas data).toNat = 21000 + calldataGas data :=
  toNat_gasIntrinsic h false

/-! ### The gas of a transaction -/

variable {evm : Evm} {tx : Tx} {blockCtx : Option BlockContext} {s : Store}

/-- The gas a contract's run leaves, as it is counted. -/
def gasLeft (r : EvmcResult) : UInt64 := if r.gasLeft > 0 then r.gasLeft.toUInt64 else 0

/-- The cast to a signed number. -/
lemma toInt_toInt64 (n : UInt64) :
    n.toInt64.toInt = if n.toNat < 2 ^ 63 then (n.toNat : ℤ) else (n.toNat : ℤ) - 2 ^ 64 := by
  have hcast : n.toInt64.toInt =
      if 2 * n.toNat < 2 ^ 64 then (n.toNat : ℤ) else (n.toNat : ℤ) - (2 ^ 64 : ℕ) :=
    BitVec.toInt_eq_toNat_cond n.toBitVec
  rw [hcast]
  split_ifs <;> omega

/-- No more is left than was given. -/
lemma gasLeft_le {gas : UInt64} {r : EvmcResult} (h : r.gasLeft ≤ gas.toInt64) :
    (gasLeft r).toNat ≤ gas.toNat := by
  unfold gasLeft
  split_ifs with hpos
  · have hle := Int64.le_iff_toInt_le.mp h
    have hlt := Int64.lt_iff_toInt_lt.mp hpos
    have hleft := toInt_toInt64 r.gasLeft.toUInt64
    rw [Int64.toInt64_toUInt64] at hleft
    rw [toInt_toInt64, hleft] at hle
    rw [hleft] at hlt
    have hzero : (0 : Int64).toInt = 0 := rfl
    have hltg := gas.toNat_lt
    have hltl := r.gasLeft.toUInt64.toNat_lt
    rw [hzero] at hlt
    split_ifs at hle hlt <;> omega
  · exact Nat.zero_le _

/-- The gas that is left for the execution. -/
def executionGas (tx : Tx) : UInt64 := tx.gasLimit - intrinsicGas tx.data

/-- A transaction executes code: it calls an address that has some. -/
def Executes (tx : Tx) (s : Store) : Prop := tx.toIsNull = false ∧ storedCode s tx.toAddr ≠ []

instance (tx : Tx) (s : Store) : Decidable (Executes tx s) :=
  inferInstanceAs (Decidable (_ ∧ _))

/-- The gas that is given back: all of it, where no code is executed. -/
def refunded (evm : Evm) (tx : Tx) (blockCtx : Option BlockContext) (s : Store) : UInt64 :=
  if Executes tx s then gasLeft (contractResult evm tx blockCtx s) else executionGas tx

/-- The gas of a transaction as numbers: no addition or subtraction on the way wraps. -/
structure Accounted (tx : Tx) (refunded gasUsed : UInt64) : Prop where
  intrinsic : ∀ n, (intrinsicGas (tx.data.take n)).toNat = 21000 + calldataGas (tx.data.take n)
  execution : (executionGas tx).toNat + (intrinsicGas tx.data).toNat = tx.gasLimit.toNat
  used : (executionGas tx - refunded).toNat + refunded.toNat = (executionGas tx).toNat
  total : gasUsed.toNat = (executionGas tx - refunded).toNat + (intrinsicGas tx.data).toNat

lemma toNat_sub {a b : UInt64} (h : b.toNat ≤ a.toNat) :
    (a - b).toNat + b.toNat = a.toNat := by
  rw [UInt64.toNat_sub_of_le _ _ (UInt64.le_iff_toNat_le.mpr h)]
  omega

lemma accounted {refunded : UInt64} (hlen : tx.data.length < 2 ^ 59)
    (hgas : intrinsicGas tx.data ≤ tx.gasLimit)
    (hrefunded : refunded.toNat ≤ (executionGas tx).toNat) :
    Accounted tx refunded (executionGas tx - refunded + intrinsicGas tx.data) := by
  have hexecution := toNat_sub (UInt64.le_iff_toNat_le.mp hgas)
  have hused := toNat_sub hrefunded
  have hlimit := tx.gasLimit.toNat_lt
  unfold executionGas at hrefunded hused ⊢
  refine ⟨fun n => toNat_intrinsicGas ?_, hexecution, hused, ?_⟩
  · rw [List.length_take]
    omega
  · rw [UInt64.toNat_add]
    exact Nat.mod_eq_of_lt (by omega)

/-- What is used is the outcome's, and is what is not given back. -/
lemma outcome_gasUsed : (outcome evm tx blockCtx s).gasUsed =
    executionGas tx - refunded evm tx blockCtx s + intrinsicGas tx.data := by
  have hself : executionGas tx - executionGas tx + intrinsicGas tx.data = intrinsicGas tx.data := by
    rw [UInt64.sub_self, UInt64.zero_add]
  unfold outcome refunded
  by_cases hnull : tx.toIsNull = true
  · have hno : ¬ Executes tx s := fun h => by simp [Executes, hnull] at h
    rw [if_pos hnull, if_neg hno, hself]
  rw [if_neg hnull]
  by_cases hcode : storedCode s tx.toAddr = []
  · have hno : ¬ Executes tx s := fun h => h.2 hcode
    rw [if_pos hcode, if_neg hno, hself]
  · have hexecutes : Executes tx s := ⟨Bool.eq_false_iff.mpr hnull, hcode⟩
    rw [if_neg hcode, if_pos hexecutes]
    rfl

/-- **Gas accounting does not wrap.** What is used lies between the intrinsic gas and the limit, and
is the intrinsic gas where no code is executed. -/
theorem gas_accounted {result : ExecResult} (hlen : tx.data.length < 2 ^ 59)
    (hleft : Executes tx s →
      (contractResult evm tx blockCtx s).gasLeft ≤ (executionGas tx).toInt64)
    (hrc : (run server (executeTx evm tx blockCtx result) s).1.1 = 0) :
    let gasUsed := (run server (executeTx evm tx blockCtx result) s).1.2.gasUsed
    Accounted tx (refunded evm tx blockCtx s) gasUsed ∧
      intrinsicGas tx.data ≤ gasUsed ∧ gasUsed ≤ tx.gasLimit ∧
      (¬ Executes tx s → gasUsed = intrinsicGas tx.data) := by
  rw [run_executeTx] at hrc ⊢
  obtain ⟨-, -, -, hgas, heff⟩ := (run_planTx_rc server tx blockCtx result s).mp hrc
  rw [run_planTx_eq server tx blockCtx result s hrc]
  obtain ⟨-, hused, -⟩ := planEffects_result tx blockCtx tx.nonce _ s heff
  have hrefunded : (refunded evm tx blockCtx s).toNat ≤ (executionGas tx).toNat := by
    unfold refunded
    split_ifs with hexecutes
    · exact gasLeft_le (hleft hexecutes)
    · exact le_rfl
  have haccounted := accounted hlen hgas hrefunded
  rw [← outcome_gasUsed] at haccounted
  dsimp only
  rw [run_getNonce, hused]
  obtain ⟨-, hexecution, hrefund, htotal⟩ := id haccounted
  refine ⟨haccounted, UInt64.le_iff_toNat_le.mpr (by omega),
    UInt64.le_iff_toNat_le.mpr (by omega), fun hno => ?_⟩
  rw [outcome_gasUsed, refunded, if_neg hno, UInt64.sub_self, UInt64.zero_add]

/-- A call of a contract at the address zero, which returns at once and leaves no gas: all is
used. -/
theorem gas_accounted_contract :
    let s := put (fun _ => none) (codeCell (.zero 20)) [0]
    let tx := { plainTx with gasLimit := 30000 }
    let gasUsed := (run server (executeTx idle tx none ⟨false, 0, [], []⟩) s).1.2.gasUsed
    Accounted tx (refunded idle tx none s) gasUsed ∧
      intrinsicGas tx.data ≤ gasUsed ∧ gasUsed ≤ tx.gasLimit ∧
      (¬ Executes tx s → gasUsed = intrinsicGas tx.data) :=
  gas_accounted (by decide) (fun _ => by decide +kernel) (by decide +kernel)

end EvmDb.Gas
