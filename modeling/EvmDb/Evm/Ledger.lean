import EvmDb.Evm.Overlay
import EvmDb.State.Layout

/-!
Executing a transaction on the state of the chain.

Here a state is a value for every component, a contract writes to its storage at once, and there
are no commands and no texts. The executor on a store does to the components what is said here.
-/

namespace EvmDb.Ledger

open EvmDb.Types EvmDb.Digits EvmDb.Program EvmDb.Redis EvmDb.RedisState EvmDb.StateLayout
open EvmDb.Host EvmDb.Executor EvmDb.Plan EvmDb.Effects EvmDb.Overlay
open EvmDb.Keccak (keccak256)

/-! ### Contracts -/

/-- A callback on the state of the chain, with what is told about the transaction and its block. -/
def callback (context : TxContext) : Handler HostCall HostCall.Answer State
  | t, .accountExists addr =>
    (decide (t (.nonce addr) ≠ (0 : UInt64) ∨ t (.balance addr) ≠ FixedBytes.zero 32 ∨
      t (.code addr) ≠ ([] : Bytes)), t)
  | t, .getStorage addr key => (t (.storage addr key), t)
  | t, .setStorage addr key value =>
    (storageStatus (t (.storage addr key)) value, Function.update t (.storage addr key) value)
  | t, .getBalance addr => (t (.balance addr), t)
  | t, .getCodeSize addr => (List.length (t (.code addr)), t)
  | t, .getCodeHash addr => (keccak256 (t (.code addr)), t)
  | t, .copyCode addr offset size => (List.take size (List.drop offset (t (.code addr))), t)
  | t, .selfdestruct _ _ => (false, t)
  | t, .call _ => (⟨1, 0, []⟩, t)
  | t, .getTxContext => (context, t)
  | t, .getBlockHash _ => (.zero 32, t)
  | t, .emitLog _ _ _ => ((), t)
  | t, .accessAccount _ => (.cold, t)
  | t, .accessStorage _ _ => (.cold, t)
  | t, .getTransientStorage _ _ => (.zero 32, t)
  | t, .setTransientStorage _ _ _ => ((), t)

/-- What a contract is told about a transaction and its block. -/
def contextOf (block : BlockContext) (origin : Address) : TxContext :=
  hostGetTxContext (contextFor (some block) origin)

/-- A message as the executor sends it, for an account with the code that is there. -/
structure Execution where
  sender : Address
  recipient : Address
  data : Bytes
  gas : UInt64
  flags : UInt32

/-- Executing the code of an account: the result and the next state, or an error message. Without
code nothing happens; a contract that does not succeed changes nothing. -/
def execute (evm : Evm) (block : BlockContext) (x : Execution) (t : State) :
    Except Bytes (ExecResult × State) :=
  if t (.code x.recipient) = ([] : Bytes) then .ok (⟨true, 0, [], []⟩, t)
  else
    let ended := run (callback (contextOf block x.sender))
      (evm.execute (messageFor x.sender x.recipient x.data (.zero 32) x.gas x.flags)
        (t (.code x.recipient))) t
    let r := ended.1
    let message := (evm.statusCodeToString r.statusCode).take 255
    if r.statusCode < 0 then .error message
    else
      let gasLeft := if r.gasLeft > 0 then r.gasLeft.toUInt64 else 0
      if r.statusCode = 0 then .ok (⟨true, x.gas - gasLeft, r.output, []⟩, ended.2)
      else .ok (⟨false, x.gas - gasLeft, r.output, message⟩, t)

/-! ### Transactions -/

/-- Why a transaction is not admitted in a state, if it is not. -/
def rejection (evm : Evm) (block : BlockContext) (tx : Tx) (t : State) : Option Bytes :=
  if evm.initialized = false then some (ascii "EVM not initialized")
  else if tx.chainId ≠ 0 ∧ tx.chainId ≠ block.chainId then
    some (chainIdMismatch block.chainId tx.chainId)
  else if tx.nonce ≠ t (.nonce tx.fromAddr) then
    some (nonceMismatch (t (.nonce tx.fromAddr)) tx.nonce)
  else if intrinsicGas tx.data > tx.gasLimit then some (ascii "intrinsic gas too low")
  else none

/-- The execution of a transaction that is not a contract creation. -/
def executionOf (tx : Tx) : Execution :=
  ⟨tx.fromAddr, tx.toAddr, tx.data, tx.gasLimit - intrinsicGas tx.data, 0⟩

/-- What a transaction that is admitted does, besides using up its nonce: its success, the gas it
has used, and the next state. -/
def effects (evm : Evm) (block : BlockContext) (tx : Tx) (t : State) :
    Except Bytes (Bool × UInt64 × State) :=
  if tx.toIsNull then
    .ok (true, intrinsicGas tx.data,
      Function.update t (.code (computeCreateAddress tx.fromAddr tx.nonce)) tx.data)
  else do
    let (r, t') ← execute evm block (executionOf tx) t
    return (r.success, r.gasUsed + intrinsicGas tx.data, t')

/-- A transaction on the state of the chain. -/
def transact (evm : Evm) (block : BlockContext) (tx : Tx) (t : State) :
    Except Bytes (Bool × UInt64 × State) :=
  match rejection evm block tx t with
  | some message => .error (message.take 255)
  | none => do
    let (success, gasUsed, t') ← effects evm block tx t
    return (success, gasUsed, Function.update t' (.nonce tx.fromAddr) (tx.nonce + 1))

/-! ### What a transaction leaves alone -/

variable {evm : Evm} {block : BlockContext} {tx : Tx} {t t' : State} {success : Bool}
  {gasUsed : UInt64}

/-- A contract changes slots only. -/
lemma run_callback_frame {α : Type} (context : TxContext) (p : EvmProg α) (t : State)
    {c : Component} (hc : ∀ addr key, c ≠ .storage addr key) :
    (run (callback context) p t).2 c = t c := by
  refine ((issues_true p).run_inv (I := fun u : State => u c = t c) (fun u call _ hu => ?_) rfl).1
  cases call with
  | setStorage addr key value =>
    exact (Function.update_of_ne (hc addr key) value u).trans hu
  | _ => exact hu

lemma execute_frame {x : Execution} {r : ExecResult} (h : execute evm block x t = .ok (r, t'))
    {c : Component} (hc : ∀ addr key, c ≠ .storage addr key) : t' c = t c := by
  have hframe := run_callback_frame (contextOf block x.sender)
    (evm.execute (messageFor x.sender x.recipient x.data (.zero 32) x.gas x.flags)
      (t (.code x.recipient))) t hc
  unfold execute at h
  split_ifs at h with hcode
  · cases h
    rfl
  dsimp only at h
  generalize run (callback (contextOf block x.sender)) _ t = ended at h hframe
  by_cases hneg : ended.1.statusCode < 0
  · rw [if_pos hneg] at h
    cases h
  rw [if_neg hneg] at h
  by_cases hzero : ended.1.statusCode = 0
  · rw [if_pos hzero] at h
    cases h
    exact hframe
  · rw [if_neg hzero] at h
    cases h
    rfl

/-- **What a transaction does besides its slots**: it uses up its nonce, and stores the code of a
contract that it creates. -/
lemma transact_frame (h : transact evm block tx t = .ok (success, gasUsed, t')) :
    t (.nonce tx.fromAddr) = tx.nonce ∧
      ∀ c : Component, (∀ addr key, c ≠ .storage addr key) → t' c =
        Function.update (if tx.toIsNull then
          Function.update t (.code (computeCreateAddress tx.fromAddr tx.nonce)) tx.data else t)
          (.nonce tx.fromAddr) (tx.nonce + 1) c := by
  unfold transact at h
  split at h
  · cases h
  rename_i hadmitted
  have hnonce : t (.nonce tx.fromAddr) = tx.nonce := by
    unfold rejection at hadmitted
    split_ifs at hadmitted with _ _ hne
    exact (not_not.mp hne).symm
  refine ⟨hnonce, fun c hc => ?_⟩
  cases heff : effects evm block tx t with
  | error message =>
    rw [heff] at h
    cases h
  | ok e =>
    obtain ⟨success₁, gasUsed₁, t₁⟩ := e
    rw [heff] at h
    cases h
    have hframe : t₁ c = (if tx.toIsNull then
        Function.update t (.code (computeCreateAddress tx.fromAddr tx.nonce)) tx.data else t) c := by
      unfold effects at heff
      split_ifs at heff ⊢ with hnull
      · cases heff
        rfl
      · cases hexec : execute evm block (executionOf tx) t with
        | error message =>
          rw [hexec] at heff
          cases heff
        | ok e =>
          rw [hexec] at heff
          cases heff
          exact execute_frame hexec hc
    by_cases hcn : c = .nonce tx.fromAddr
    · subst hcn
      rw [Function.update_self, Function.update_self]
    · rw [Function.update_of_ne hcn, Function.update_of_ne hcn, hframe]

/-! ### The view of a store -/

/-- What a store says about the chain, words being decoded into the memory at `out`. -/
def chainOf (out : Bytes32) (s : Store) : State := (layout out).view s

variable {out : Bytes32}

lemma chainOf_nonce (s : Store) (addr : Address) :
    chainOf out s (.nonce addr) = storedNonce s addr := rfl

lemma chainOf_code (s : Store) (addr : Address) :
    chainOf out s (.code addr) = storedCode s addr := rfl

/-- Writing the cell of a component sets the component. -/
lemma chainOf_put (s : Store) (c : Component) (v : c.Value) :
    chainOf out (put s c.cell (c.encode v)) = Function.update (chainOf out s) c v :=
  (layout out).view_put s c v

/-! ### Contracts on a store -/

variable {env : HostEnv}

/-- **One callback on a store that is written at once is the callback on the components.** -/
lemma callback_direct (ctx : ExecContext) (s : Store) (c : HostCall) :
    (directHandler env ctx s c).1 =
        (callback (hostGetTxContext ctx) (chainOf env.uninit s) c).1 ∧
      chainOf env.uninit (directHandler env ctx s c).2 =
        (callback (hostGetTxContext ctx) (chainOf env.uninit s) c).2 := by
  cases c with
  | accountExists addr =>
    refine ⟨?_, rfl⟩
    show decide (storedNonce s addr ≠ 0 ∨
        bytes32IsZero (chainOf env.uninit s (.balance addr)) = false ∨
          (storedCode s addr).length ≠ 0) =
      decide (storedNonce s addr ≠ 0 ∨ chainOf env.uninit s (.balance addr) ≠ .zero 32 ∨
        storedCode s addr ≠ [])
    have hbalance := @bytes32IsZero_iff (chainOf env.uninit s (.balance addr))
    have hcode := @List.length_eq_zero_iff _ (storedCode s addr)
    rw [decide_eq_decide, ← Bool.not_eq_true, hbalance, ne_eq (List.length _), hcode]
  | setStorage addr key value =>
    exact ⟨rfl, chainOf_put s (.storage addr key) value⟩
  | copyCode addr offset size =>
    refine ⟨?_, rfl⟩
    show (if offset < (storedCode s addr).length then ((storedCode s addr).drop offset).take size
      else []) = ((storedCode s addr).drop offset).take size
    split_ifs with hlt
    · rfl
    · rw [List.drop_eq_nil_of_le (by omega), List.take_nil]
  | _ => exact ⟨rfl, rfl⟩

/-- What a contract does to a store that is written at once, seen on the components. -/
lemma run_callback {α : Type} (ctx : ExecContext) (p : EvmProg α) (s : Store) :
    (run (directHandler env ctx) p s).1 =
        (run (callback (hostGetTxContext ctx)) p (chainOf env.uninit s)).1 ∧
      chainOf env.uninit (run (directHandler env ctx) p s).2 =
        (run (callback (hostGetTxContext ctx)) p (chainOf env.uninit s)).2 := by
  have hstep : ∀ (s : Store) (t : State) (c : HostCall), chainOf env.uninit s = t →
      (directHandler env ctx s c).1 = (callback (hostGetTxContext ctx) t c).1 ∧
        chainOf env.uninit (directHandler env ctx s c).2 =
          (callback (hostGetTxContext ctx) t c).2 := by
    rintro s t c rfl
    exact callback_direct ctx s c
  obtain ⟨hres, -, hend⟩ := run_sim hstep p (rfl : chainOf env.uninit s = _)
  exact ⟨hres, hend⟩

/-- A contract that is run through the overlay, seen on the components: what it answers, and what
committing its overlay does. -/
lemma run_interp_callback (hr : ∀ n, env.realloc n = true) {α : Type} (block : BlockContext)
    (origin : Address) (p : EvmProg α) (s : Store) :
    ∃ ctx' s', run server (interp (hostInterface env) p (contextFor (some block) origin)) s =
        (((run (callback (contextOf block origin)) p (chainOf env.uninit s)).1, ctx'), s) ∧
      run server (execContextCommit ctx') s = (0, s') ∧ chainOf env.uninit s' =
        (run (callback (contextOf block origin)) p (chainOf env.uninit s)).2 := by
  obtain ⟨-, -, ⟨ctx', hrun, hcommit⟩, -⟩ := overlay_refines env hr p (some block) origin s
  obtain ⟨hres, hend⟩ := @run_callback env α (contextFor (some block) origin) p s
  rw [hres] at hrun
  exact ⟨ctx', _, hrun, hcommit, hend⟩

/-- How a run of the executor on a store shows on the components: an error leaves the store as it
is, and a result comes with the next state, if that is to be committed. -/
def Shows (out : Bytes32) (commitState : Bool) (s : Store) (y : (ℤ × ExecResult) × Store) :
    Except Bytes (ExecResult × State) → Prop
  | .error message => y.1.1 ≠ 0 ∧ y.1.2.error = message ∧ y.2 = s
  | .ok (r, t) => y.1 = (0, r) ∧ if commitState then chainOf out y.2 = t else y.2 = s

/-- **`execute_contract` executes the code of an account.** -/
lemma run_executeContract (hr : ∀ n, evm.realloc n = true) (block : BlockContext) (x : Execution)
    (commitState : Bool) (result : ExecResult) (s : Store) :
    Shows evm.uninit commitState s
      (run server (executeContract evm (some block) x.sender x.sender x.recipient x.data (.zero 32)
        x.gas x.flags commitState result) s)
      (execute evm block x (chainOf evm.uninit s)) := by
  have hcode : run server (getCode x.recipient) s = (storedCode s x.recipient, s) := rfl
  obtain ⟨ctx', s', hinterp, hcommit, hend⟩ := run_interp_callback hr block x.sender
    (evm.execute (messageFor x.sender x.recipient x.data (.zero 32) x.gas x.flags)
      (storedCode s x.recipient)) s
  unfold executeContract execute
  rw [run_bind, hcode, chainOf_code]
  dsimp only
  by_cases hnone : storedCode s x.recipient = []
  · rw [if_pos hnone, if_pos (List.length_eq_zero_iff.mpr hnone)]
    refine ⟨rfl, ?_⟩
    split_ifs <;> rfl
  rw [if_neg hnone, if_neg fun h => hnone (List.length_eq_zero_iff.mp h), run_bind, hinterp]
  dsimp only
  generalize run (callback (contextOf block x.sender))
    (evm.execute (messageFor x.sender x.recipient x.data (.zero 32) x.gas x.flags)
      (storedCode s x.recipient)) (chainOf evm.uninit s) = ended at hend
  obtain ⟨r, t⟩ := ended
  dsimp only at hend ⊢
  by_cases hneg : r.statusCode < 0
  · rw [if_pos hneg, if_pos hneg]
    exact ⟨by simp, rfl, rfl⟩
  rw [if_neg hneg, if_neg hneg]
  by_cases hfail : r.statusCode = 0
  · rw [if_neg (not_not_intro hfail), if_pos hfail, decide_eq_true hfail]
    cases commitState
    · exact ⟨rfl, rfl⟩
    · rw [if_pos rfl, run_bind, hcommit]
      exact ⟨rfl, hend⟩
  · rw [if_pos hfail, if_neg hfail, decide_eq_false hfail]
    refine ⟨rfl, ?_⟩
    split_ifs <;> rfl

/-! ### Transactions on a store -/

/-- How a run of `evmdb_evm_execute_tx` on a store shows on the components. -/
def TxShows (out : Bytes32) (s : Store) (y : (ℤ × ExecResult) × Store) :
    Except Bytes (Bool × UInt64 × State) → Prop
  | .error message => y.1.1 ≠ 0 ∧ y.1.2.error = message ∧ y.2 = s
  | .ok (success, gasUsed, t) =>
    y.1.1 = 0 ∧ y.1.2.success = success ∧ y.1.2.gasUsed = gasUsed ∧ chainOf out y.2 = t

lemma run_executeEffects (hr : ∀ n, evm.realloc n = true) (block : BlockContext) (tx : Tx)
    (result : ExecResult) (s : Store) :
    TxShows evm.uninit s (run server (executeEffects evm tx (some block) tx.nonce result) s)
      (effects evm block tx (chainOf evm.uninit s)) := by
  unfold executeEffects effects
  by_cases hnull : tx.toIsNull = true
  · rw [if_pos hnull, if_pos hnull]
    exact ⟨rfl, rfl, rfl, chainOf_put s (.code (computeCreateAddress tx.fromAddr tx.nonce)) tx.data⟩
  rw [if_neg hnull, if_neg hnull, run_bind]
  have hshows := run_executeContract hr block (executionOf tx) true result s
  unfold executionOf at hshows ⊢
  dsimp only at hshows
  revert hshows
  generalize run server (executeContract evm (some block) tx.fromAddr tx.fromAddr tx.toAddr tx.data
    (.zero 32) (tx.gasLimit - intrinsicGas tx.data) 0 true result) s = y
  generalize execute evm block _ _ = ended
  obtain ⟨⟨rc, r⟩, s'⟩ := y
  intro hshows
  cases ended with
  | error message =>
    obtain ⟨hrc, herror, hs⟩ := hshows
    dsimp only at hrc ⊢
    rw [if_pos hrc]
    exact ⟨hrc, herror, hs⟩
  | ok e =>
    obtain ⟨hres, hend⟩ := hshows
    obtain ⟨rfl, rfl⟩ := Prod.mk.inj hres
    rw [if_pos rfl] at hend
    exact ⟨rfl, rfl, rfl, hend⟩

/-- **`evmdb_evm_execute_tx` is a transaction on the state of the chain.** -/
theorem run_executeTx_shows (hr : ∀ n, evm.realloc n = true) (block : BlockContext) (tx : Tx)
    (s : Store) :
    TxShows evm.uninit s (run server (executeTx evm tx (some block) .zero) s)
      (transact evm block tx (chainOf evm.uninit s)) := by
  have hrejected : ∀ message, TxShows evm.uninit s
      (run server (.ret (-1, ExecResult.zero.withError message)) s) (.error (message.take 255)) :=
    fun message => ⟨by simp, rfl, rfl⟩
  have hchain : chainIdRejected tx (some block) = true ↔
      tx.chainId ≠ 0 ∧ tx.chainId ≠ block.chainId := by
    simp [chainIdRejected]
  unfold executeTx transact rejection
  by_cases hinit : evm.initialized = false
  · rw [if_pos hinit, if_pos hinit]
    exact hrejected _
  rw [if_neg hinit, if_neg hinit]
  by_cases hmismatch : tx.chainId ≠ 0 ∧ tx.chainId ≠ block.chainId
  · rw [if_pos hmismatch, if_pos (hchain.mpr hmismatch)]
    exact hrejected _
  rw [if_neg hmismatch, if_neg fun h => hmismatch (hchain.mp h), run_bind, run_getNonce,
    chainOf_nonce]
  by_cases hnonce : tx.nonce ≠ storedNonce s tx.fromAddr
  · rw [if_pos hnonce, if_pos hnonce]
    exact hrejected _
  rw [if_neg hnonce, if_neg hnonce]
  by_cases hgas : intrinsicGas tx.data > tx.gasLimit
  · rw [if_pos hgas, if_pos hgas]
    exact hrejected _
  rw [if_neg hgas, if_neg hgas, run_bind]
  rw [ne_eq, Decidable.not_not] at hnonce
  dsimp only
  rw [← hnonce]
  have hshows := run_executeEffects hr block tx { ExecResult.zero with output := [] } s
  revert hshows
  generalize run server (executeEffects evm tx (some block) tx.nonce _) s = y
  generalize effects evm block tx _ = done
  obtain ⟨⟨rc, r⟩, s'⟩ := y
  intro hshows
  cases done with
  | error message =>
    obtain ⟨hrc, herror, hs⟩ := hshows
    dsimp only at hrc ⊢
    rw [if_pos hrc]
    exact ⟨hrc, herror, hs⟩
  | ok e =>
    obtain ⟨hrc, hsuccess, hgasUsed, hend⟩ := hshows
    dsimp only at hrc hend ⊢
    rw [if_neg (not_not_intro hrc)]
    refine ⟨rfl, hsuccess, hgasUsed, ?_⟩
    show chainOf evm.uninit (put s' (nonceCell tx.fromAddr) (decimal (tx.nonce + 1).toNat)) = _
    rw [← hend]
    exact chainOf_put s' (.nonce tx.fromAddr) (tx.nonce + 1)

end EvmDb.Ledger
