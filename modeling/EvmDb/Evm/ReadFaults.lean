import EvmDb.Evm.Plan
import EvmDb.Lib.Counters

/-!
Transactions one after the other, on a server whose reads fail.

A failed read of the nonce counts as nonce 0, so it lets a transaction with nonce 0 through.
Where it does not, and no nonce is the last of its range, the nonces are counters that number
the transactions of their accounts.
-/

namespace EvmDb.ReadFaults

open EvmDb.Types EvmDb.Digits EvmDb.Program EvmDb.Redis EvmDb.RedisState EvmDb.Host
open EvmDb.Executor EvmDb.Plan

/-- The commands that may fail. -/
abbrev readsFail (c : Command) : Bool := !c.isWrite

/-- A transaction that is to be executed, and the reads that will fail. -/
structure Attempt where
  evm : Evm
  tx : Tx
  blockCtx : Option BlockContext
  result : ExecResult
  faults : Faults

/-- An attempt, its result code, and the stores before and after it. -/
structure Step where
  attempt : Attempt
  before : Store
  rc : ℤ
  after : Store

def Attempt.execute (a : Attempt) (s : Store) : Step :=
  let ((rc, _), s', _) :=
    run (faultyServer readsFail) (executeTx a.evm a.tx a.blockCtx a.result) (s, a.faults)
  ⟨a, s, rc, s'⟩

/-- The attempts one after the other. -/
def executeAll : List Attempt → Store → List Step
  | [], _ => []
  | a :: as, s => a.execute s :: executeAll as (a.execute s).after

/-- The sender and the nonce of a transaction that was executed. -/
def Step.executed (st : Step) : Option (Address × ℕ) :=
  if st.rc = 0 then some (st.attempt.tx.fromAddr, st.attempt.tx.nonce.toNat) else none

/-- A transaction is only executed with the nonce that is stored, no stored nonce decreases, and
no nonce of an account is executed twice. -/
structure Authorised (steps : List Step) : Prop where
  stored : ∀ st ∈ steps, st.rc = 0 →
    st.attempt.tx.nonce = storedNonce st.before st.attempt.tx.fromAddr
  increasing : ∀ st ∈ steps, ∀ addr,
    (storedNonce st.before addr).toNat ≤ (storedNonce st.after addr).toNat
  once : (steps.map Step.executed).reduceOption.Nodup

/-! ### When an attempt goes right -/

/-- The attempt is rejected for no other reason than its nonce: it passes the other checks, and
the interpreter does not report an error of its own. -/
def Attempt.Passes (a : Attempt) (s : Store) : Prop :=
  a.evm.initialized = true ∧ chainIdRejected a.tx a.blockCtx = false ∧
    intrinsicGas a.tx.data ≤ a.tx.gasLimit ∧
      (run (faultyServer readsFail)
        (planEffects a.evm a.tx a.blockCtx a.tx.nonce { a.result with output := [] })
        (s, a.faults.tail)).1.rc = 0

/-- If the read of the nonce fails, nonce 0 is the right one or not the transaction's; if it does
not, the right nonce is not the last of the range. -/
def Attempt.NonceRead (a : Attempt) (s : Store) : Prop :=
  a.Passes s →
    (a.faults 0 ≠ none → a.tx.nonce = 0 → storedNonce s a.tx.fromAddr = 0) ∧
    (a.faults 0 = none → a.tx.nonce = storedNonce s a.tx.fromAddr → a.tx.nonce.toNat < 2 ^ 64 - 1)

/-- What the read of the nonce gives. -/
def Attempt.readNonce (a : Attempt) (s : Store) : UInt64 :=
  if a.faults 0 = none then storedNonce s a.tx.fromAddr else 0

variable (a : Attempt) (s : Store)

lemma run_getNonce_faulty :
    run (faultyServer readsFail) (getNonce a.tx.fromAddr) (s, a.faults) =
      (a.readNonce s, (s, a.faults.tail)) := by
  unfold getNonce Attempt.readNonce
  simp only [run_bind, run_issue, faultyServer, readsFail, Command.isWrite]
  rcases a.faults 0 with _ | f
  · rfl
  · cases f <;> rfl

/-- An attempt is its reading phase and then its writes, which do not fail. -/
lemma execute_eq :
    TxOk a.tx (run (faultyServer readsFail) (planTx a.evm a.tx a.blockCtx a.result)
        (s, a.faults)).1 ∧
      (a.execute s).rc = (run (faultyServer readsFail)
        (planTx a.evm a.tx a.blockCtx a.result) (s, a.faults)).1.rc ∧
      (a.execute s).after = puts (run (faultyServer readsFail)
        (planTx a.evm a.tx a.blockCtx a.result) (s, a.faults)).1.writes s := by
  obtain ⟨hstore, hok⟩ := run_reads_of_faults
    (reads_of_stateReads (@issues_planTx a.evm a.tx a.blockCtx a.result)) readsFail s a.faults
  have hwrites : ∀ c : Command, c.isWrite = true → readsFail c = false := by
    intro c hc
    simp [readsFail, hc]
  revert hstore hok
  unfold Attempt.execute
  rw [executeTx_eq, run_bind]
  generalize run (faultyServer readsFail) (planTx a.evm a.tx a.blockCtx a.result)
    (s, a.faults) = plan
  rintro rfl hok
  refine ⟨hok, ?_, ?_⟩
  · rw [finish, run_bind]
    rfl
  · rw [finish, run_bind]
    exact run_perform_of_reads_fail hwrites _ _ _

lemma execute_rc : (a.execute s).rc = 0 ↔ a.Passes s ∧ a.tx.nonce = a.readNonce s := by
  obtain ⟨-, hrc, -⟩ := execute_eq a s
  rw [hrc, run_planTx_rc, run_getNonce_faulty]
  unfold Attempt.Passes
  tauto

lemma execute_after (addr : Address) :
    storedNonce (a.execute s).after addr =
      if (a.execute s).rc = 0 ∧ addr = a.tx.fromAddr then a.tx.nonce + 1
      else storedNonce s addr := by
  obtain ⟨hok, hrc, hafter⟩ := execute_eq a s
  rw [hrc, hafter]
  exact hok.storedNonce_puts s addr

/-! ### Runs -/

/-- An attempt whose nonce is read right is only executed with the stored nonce. -/
lemma Attempt.NonceRead.stored {a : Attempt} {s : Store} (h : a.NonceRead s)
    (hrc : (a.execute s).rc = 0) :
    a.tx.nonce = storedNonce s a.tx.fromAddr ∧ a.tx.nonce.toNat < 2 ^ 64 - 1 := by
  obtain ⟨hpass, hnonce⟩ := (execute_rc a s).mp hrc
  obtain ⟨hfail, hlast⟩ := h hpass
  unfold Attempt.readNonce at hnonce
  split_ifs at hnonce with hf
  · exact ⟨hnonce, hlast hf hnonce⟩
  · refine ⟨hnonce.trans (hfail hf hnonce).symm, ?_⟩
    rw [hnonce]
    simp

lemma nonces_of_executed (hrc : (a.execute s).rc = 0) (hlt : a.tx.nonce.toNat < 2 ^ 64 - 1) :
    nonces (a.execute s).after =
      Function.update (nonces s) a.tx.fromAddr (a.tx.nonce.toNat + 1) := by
  ext addr
  unfold nonces
  rw [execute_after, Function.update_apply]
  by_cases haddr : addr = a.tx.fromAddr
  · rw [if_pos ⟨hrc, haddr⟩, if_pos haddr, toNat_succ hlt]
  · rw [if_neg fun hc => haddr hc.2, if_neg haddr]

lemma nonces_of_rejected (hrc : (a.execute s).rc ≠ 0) :
    nonces (a.execute s).after = nonces s := by
  ext addr
  unfold nonces
  rw [execute_after, if_neg fun hc => hrc hc.1]

/-- An attempt whose nonce is read right uses up the nonce of its sender, or leaves all nonces as
they are. -/
lemma execute_step (h : a.NonceRead s) :
    Counters.Step (nonces s) (a.execute s).executed (nonces (a.execute s).after) := by
  unfold Step.executed
  by_cases hrc : (a.execute s).rc = 0
  · obtain ⟨hstored, hlt⟩ := h.stored hrc
    have hcounter : a.tx.nonce.toNat = nonces s a.tx.fromAddr := congrArg UInt64.toNat hstored
    rw [if_pos hrc, nonces_of_executed a s hrc hlt]
    show Counters.Step _ (some (a.tx.fromAddr, a.tx.nonce.toNat)) _
    rw [hcounter]
    exact .use _ _ (Nat.lt_succ_self _)
  · rw [if_neg hrc, nonces_of_rejected a s hrc]
    exact .idle

/-- An attempt that does no harm has read its nonce right. -/
lemma nonceRead_of_step
    (hstored : (a.execute s).rc = 0 → a.tx.nonce = storedNonce s a.tx.fromAddr)
    (hincr : nonces s a.tx.fromAddr ≤ nonces (a.execute s).after a.tx.fromAddr) :
    a.NonceRead s := by
  intro hpass
  constructor
  · intro hf h0
    have hrc : (a.execute s).rc = 0 :=
      (execute_rc a s).mpr ⟨hpass, by unfold Attempt.readNonce; rw [if_neg hf, h0]⟩
    rw [← hstored hrc, h0]
  · intro hf hnonce
    have hrc : (a.execute s).rc = 0 :=
      (execute_rc a s).mpr ⟨hpass, by unfold Attempt.readNonce; rw [if_pos hf, ← hnonce]⟩
    unfold nonces at hincr
    rw [execute_after, if_pos ⟨hrc, rfl⟩, ← hnonce, UInt64.toNat_add, UInt64.toNat_one] at hincr
    have hlt := a.tx.nonce.toNat_lt
    -- the last nonce would be followed by zero
    by_contra hlast
    rw [show a.tx.nonce.toNat + 1 = 2 ^ 64 by omega, Nat.mod_self] at hincr
    omega

lemma executeAll_run {attempts : List Attempt} {s : Store}
    (h : ∀ st ∈ executeAll attempts s, st.attempt.NonceRead st.before) :
    ∃ t, Counters.Run (nonces s) ((executeAll attempts s).map Step.executed) t := by
  induction attempts generalizing s with
  | nil => exact ⟨_, .nil _⟩
  | cons a as ih =>
    obtain ⟨t, ht⟩ := ih fun st hst => h st (List.mem_cons_of_mem _ hst)
    exact ⟨t, .cons (execute_step a s (h _ List.mem_cons_self)) ht⟩

lemma mem_executeAll {attempts : List Attempt} {s : Store} {st : Step}
    (h : st ∈ executeAll attempts s) : st = st.attempt.execute st.before := by
  induction attempts generalizing s with
  | nil => cases h
  | cons a as ih =>
    rcases List.mem_cons.mp h with rfl | h
    · rfl
    · exact ih h

/-- **A failed read authorises nothing exactly when every nonce is read right.** -/
theorem authorised_iff (attempts : List Attempt) (s : Store) :
    Authorised (executeAll attempts s) ↔
      ∀ st ∈ executeAll attempts s, st.attempt.NonceRead st.before := by
  constructor
  · intro h st hst
    have hexec := mem_executeAll hst
    apply nonceRead_of_step
    · rw [← hexec]
      exact h.stored st hst
    · rw [← hexec]
      exact h.increasing st hst _
  · intro h
    have hstep : ∀ st ∈ executeAll attempts s,
        Counters.Step (nonces st.before) st.executed (nonces st.after) := by
      intro st hst
      have hs := execute_step _ _ (h st hst)
      rwa [← mem_executeAll hst] at hs
    obtain ⟨t, hrun⟩ := executeAll_run h
    refine ⟨?_, ?_, hrun.nodup⟩
    · intro st hst hrc
      rw [mem_executeAll hst] at hrc
      exact ((h st hst).stored hrc).1
    · intro st hst addr
      exact (hstep st hst).mono addr

/-- The nonce of the account is 5, but reading it fails, and the plain transaction with nonce 0 is
executed. -/
theorem not_authorised_plainTx :
    ¬ Authorised (executeAll [⟨idle, plainTx, none, .zero, fun _ => some .null⟩]
      (put (fun _ => none) (nonceCell plainTx.fromAddr) (decimal 5))) := by
  intro h
  have hrc : (Attempt.execute ⟨idle, plainTx, none, .zero, fun _ => some .null⟩
      (put (fun _ => none) (nonceCell plainTx.fromAddr) (decimal 5))).rc = 0 :=
    (execute_rc _ _).mpr ⟨⟨rfl, rfl, UInt64.le_refl _, rfl⟩, rfl⟩
  have hnonce := h.stored _ List.mem_cons_self hrc
  have hstored : storedNonce (put (fun _ => none) (nonceCell plainTx.fromAddr) (decimal 5))
      plainTx.fromAddr = 5 := storedNonce_of_cell (put_same _ _ _)
  cases hnonce.trans hstored

end EvmDb.ReadFaults
