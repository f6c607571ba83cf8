import EvmDb.Evm.Plan

/-!
A transaction on a server whose writes fail.

The setters look at no reply, so the commit does not notice a failure: the transaction is
executed in part and reported as executed.
-/

namespace EvmDb.WriteFaults

open EvmDb.Types EvmDb.Digits EvmDb.Program EvmDb.Redis EvmDb.RedisState EvmDb.Host
open EvmDb.Executor EvmDb.Plan

/-- The result code and the store, when the writes fail as the pattern says. -/
def executeTxFaulty (evm : Evm) (tx : Tx) (blockCtx : Option BlockContext) (result : ExecResult)
    (fs : Faults) (s : Store) : ℤ × Store :=
  let ((rc, _), s, _) :=
    run (faultyServer Command.isWrite) (executeTx evm tx blockCtx result) (s, fs)
  (rc, s)

/-- The writes a transaction makes on a store: those of its overlay or its code, and the nonce.
They are known before the first of them is made. -/
def dueWrites (evm : Evm) (tx : Tx) (blockCtx : Option BlockContext) (result : ExecResult)
    (s : Store) : List Write :=
  (run server (planTx evm tx blockCtx result) s).1.writes

/-- Either nothing has happened and the result code says so, or everything has: the store is the
one that the transaction leads to when nothing fails. -/
def AllOrNothing (evm : Evm) (tx : Tx) (blockCtx : Option BlockContext) (result : ExecResult)
    (fs : Faults) (s : Store) : Prop :=
  let (rc, s') := executeTxFaulty evm tx blockCtx result fs s
  (rc ≠ 0 ∧ s' = s) ∨ (rc = 0 ∧ s' = (run server (executeTx evm tx blockCtx result) s).2)

variable (evm : Evm) (tx : Tx) (blockCtx : Option BlockContext) (result : ExecResult)
  (fs : Faults) (s : Store)

lemma due_ok : TxOk tx (run server (planTx evm tx blockCtx result) s).1 :=
  (run_reads (reads_of_stateReads (issues_planTx tx blockCtx result)) s).2

/-- The failures are noticed neither by the reading phase nor by the result code. -/
lemma executeTxFaulty_eq :
    executeTxFaulty evm tx blockCtx result fs s =
      ((run server (planTx evm tx blockCtx result) s).1.rc,
        putsFaulty fs (dueWrites evm tx blockCtx result s) s) := by
  have hplan := run_reads_faulty
    (reads_of_stateReads (@issues_planTx evm tx blockCtx result)) s fs
  have hperform : (run (faultyServer Command.isWrite)
      (perform (dueWrites evm tx blockCtx result s)) (s, fs)).2.1 =
        putsFaulty fs (dueWrites evm tx blockCtx result s) s :=
    run_perform_faulty (fun _ h => h) _ s fs
  unfold executeTxFaulty
  rw [executeTx_eq, run_bind, hplan, finish, run_bind]
  exact Prod.ext rfl hperform

/-- The result code says what is due, so only the store can be wrong. -/
lemma allOrNothing_iff_puts :
    AllOrNothing evm tx blockCtx result fs s ↔
      putsFaulty fs (dueWrites evm tx blockCtx result s) s =
        puts (dueWrites evm tx blockCtx result s) s := by
  have hfull : (run server (executeTx evm tx blockCtx result) s).2 =
      puts (dueWrites evm tx blockCtx result s) s := by
    rw [run_executeTx]
    rfl
  unfold AllOrNothing
  rw [executeTxFaulty_eq, hfull]
  cases due_ok evm tx blockCtx result s with
  | rejected hrc hws =>
    have hdue : dueWrites evm tx blockCtx result s = [] := hws
    rw [hdue]
    exact ⟨fun _ => rfl, fun _ => Or.inl ⟨hrc, rfl⟩⟩
  | executed hrc effects hws heffects hnodup =>
    constructor
    · rintro (⟨hne, -⟩ | ⟨-, h⟩)
      · exact absurd hrc hne
      · exact h
    · intro h
      exact Or.inr ⟨hrc, h⟩

/-- **Failing writes are without consequence exactly when they would have changed nothing.** -/
theorem allOrNothing_iff :
    AllOrNothing evm tx blockCtx result fs s ↔
      ∀ i w, (dueWrites evm tx blockCtx result s)[i]? = some w → fs i ≠ none →
        s w.1 = some w.2 := by
  calc AllOrNothing evm tx blockCtx result fs s
      ↔ putsFaulty fs (dueWrites evm tx blockCtx result s) s =
          puts (dueWrites evm tx blockCtx result s) s := allOrNothing_iff_puts ..
    _ ↔ _ := putsFaulty_eq_puts_iff (due_ok evm tx blockCtx result s).nodup fs s

/-- **A nonce write that fails is always missed**: the transaction is reported as executed, and
can be executed again. -/
theorem not_allOrNothing_of_nonce {n : ℕ}
    (hn : (dueWrites evm tx blockCtx result s)[n]? = some (nonceWrite tx.fromAddr (tx.nonce + 1)))
    (hfail : fs n ≠ none) : ¬ AllOrNothing evm tx blockCtx result fs s := by
  intro h
  have hok := due_ok evm tx blockCtx result s
  have hputs := (allOrNothing_iff_puts evm tx blockCtx result fs s).mp h
  have hcell := (putsFaulty_eq_puts_iff hok.nodup fs s).mp hputs n _ hn hfail
  cases hok with
  | rejected hrc hws =>
    have hdue : dueWrites evm tx blockCtx result s = [] := hws
    rw [hdue] at hn
    cases hn
  | executed hrc effects hws heffects hnodup =>
    obtain ⟨-, -, hnonce, -⟩ := (run_planTx_rc server tx blockCtx result s).mp hrc
    rw [run_getNonce, storedNonce_of_cell hcell] at hnonce
    simp at hnonce

/-! ### A nonce that is not written -/

/-- The first write of the plain transaction is its nonce; it fails, nothing is stored, and the
transaction is reported as executed. -/
theorem not_allOrNothing_plainTx :
    ¬ AllOrNothing idle plainTx none .zero (fun i => if i = 0 then some .error else none)
      (fun _ => none) := by
  have hdue : dueWrites idle plainTx none .zero (fun _ => none) = [nonceWrite plainTx.fromAddr 1] :=
    rfl
  refine not_allOrNothing_of_nonce idle plainTx none .zero _ _ (n := 0) ?_ (by simp)
  rw [hdue]
  rfl

end EvmDb.WriteFaults
