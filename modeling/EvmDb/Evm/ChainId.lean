import EvmDb.Block.TxItems
import EvmDb.Block.TxRecover
import EvmDb.Evm.Plan

/-!
The chain a transaction is for.

A signer commits to a chain id in the fields of an EIP-1559 transaction, or in the `v` of a
legacy one. The executor compares it with its own, but takes chain id 0 for none at all.
-/

namespace EvmDb.ChainId

open EvmDb.Checked EvmDb.Checked.Read EvmDb.Types EvmDb.Digits EvmDb.Program EvmDb.Redis
open EvmDb.RedisState EvmDb.Rlp EvmDb.TxDecode EvmDb.TxItems EvmDb.TxSigning EvmDb.TxRecover
open EvmDb.Executor EvmDb.Plan

/-! ### The decoder -/

lemma gives_decodeTo {post : Tx → Prop} {raw : Bytes} {item : RlpReader.Slice} {tx : Tx}
    (hnull : post { tx with toIsNull := true })
    (haddr : ∀ addr, post { tx with toAddr := addr }) : Gives post (decodeTo raw item tx) := by
  unfold decodeTo
  split_ifs
  · exact gives_ok.mpr hnull
  · exact gives_bind fun addr => gives_ok.mpr (haddr addr)

lemma gives_decodeSignature {post : Tx → Prop} {raw : Bytes} {lr : RlpReader.Reader} {tx : Tx}
    (h : ∀ v r s, post { tx with v := v, r := r, s := s }) :
    Gives post (decodeSignature raw lr tx) := by
  unfold decodeSignature
  iterate 6 refine gives_bind fun _ => ?_
  exact gives_ok.mpr (h _ _ _)

lemma gives_decodeLegacy (malloc : Malloc) (raw : Bytes) (lr : RlpReader.Reader) {tx : Tx}
    (ht : tx.type = .legacy) (hc : tx.chainId = 0) :
    Gives (fun tx => tx.type = .legacy ∧ tx.chainId = chainIdOf tx.v)
      (decodeLegacy malloc raw lr tx) := by
  unfold decodeLegacy
  iterate 7 refine gives_bind fun _ => ?_
  refine Gives.bind (m := fun tx => tx.type = .legacy ∧ tx.chainId = 0)
    (gives_decodeTo ⟨ht, hc⟩ fun _ => ⟨ht, hc⟩) ?_
  rintro tx₁ ⟨ht₁, hc₁⟩
  iterate 4 refine gives_bind fun _ => ?_
  refine Gives.bind (m := fun tx => tx.type = .legacy ∧ tx.chainId = 0)
    (gives_decodeSignature fun _ _ _ => ⟨ht₁, hc₁⟩) ?_
  rintro tx₂ ⟨ht₂, hc₂⟩
  rw [pure_eq, gives_ok]
  split_ifs with hv
  · exact ⟨ht₂, (if_pos hv).symm⟩
  · exact ⟨ht₂, hc₂.trans (if_neg hv).symm⟩

lemma gives_decodeEip1559 (malloc : Malloc) (raw : Bytes) (lr : RlpReader.Reader) {tx : Tx}
    (ht : tx.type = .eip1559) :
    Gives (fun tx => tx.type = .eip1559) (decodeEip1559 malloc raw lr tx) := by
  unfold decodeEip1559
  iterate 11 refine gives_bind fun _ => ?_
  refine Gives.bind (m := fun tx => tx.type = .eip1559)
    (gives_decodeTo ht fun _ => ht) ?_
  intro tx₁ ht₁
  iterate 5 refine gives_bind fun _ => ?_
  exact gives_decodeSignature fun _ _ _ => ht₁

/-- **The chain id of a decoded legacy transaction** is the one of its `v`. -/
lemma chainId_of_decoded {malloc : Malloc} {raw : Bytes} {tx : Tx}
    (h : txDecode malloc raw = .ok tx) (ht : tx.type = .legacy) : tx.chainId = chainIdOf tx.v := by
  suffices hg : Gives (fun tx => tx.type = .legacy → tx.chainId = chainIdOf tx.v)
      (txDecode malloc raw) from
    hg tx h ht
  unfold txDecode
  split_ifs
  · exact fun _ hc => by cases hc
  · exact fun _ hc => by cases hc
  refine gives_bind fun first => ?_
  rcases txType first with ⟨type, payload⟩
  refine gives_bind fun _ => ?_
  cases type with
  | eip1559 =>
    refine (gives_decodeEip1559 _ _ _ rfl).bind fun tx₁ ht₁ => gives_ok.mpr fun hc => ?_
    rw [show tx₁.type = .legacy from hc] at ht₁
    cases ht₁
  | legacy => exact (gives_decodeLegacy _ _ _ rfl rfl).bind fun tx₁ h₁ => gives_ok.mpr fun _ => h₁.2
  | eip2930 => exact gives_ok.mpr fun hc => by cases hc

/-! ### The executor -/

/-- The transaction is decoded from the bytes, and its sender recovered. -/
def Received (malloc : Malloc) (realloc : ℕ → Bool) (secp : Secp256k1) (raw : Bytes) (tx : Tx) :
    Prop :=
  ∃ decoded, txDecode malloc raw = .ok decoded ∧ txRecoverSender realloc secp decoded = (0, tx)

/-- The transaction is executed: the result code is 0. -/
def Executes (evm : Evm) (tx : Tx) (ctx : BlockContext) (result : ExecResult) (s : Store) : Prop :=
  (run server (executeTx evm tx (some ctx) result) s).1.1 = 0

def CommitsToChain (tx : Tx) : Prop := tx.type = .eip1559 ∨ (tx.type = .legacy ∧ 35 ≤ tx.v)

/-- The chain id in the fields of an EIP-1559 transaction, or in the `v` of a legacy one. -/
def committedChainId (tx : Tx) : UInt64 :=
  if tx.type = .eip1559 then tx.chainId else (tx.v - 35) / 2

/-- A transaction that commits to a chain is executed on no other, and one that can be executed
on every chain is a legacy transaction from before there were chain ids. -/
structure ReplayProtected (malloc : Malloc) (realloc : ℕ → Bool) (secp : Secp256k1)
    (raw : Bytes) : Prop where
  chain : ∀ tx, Received malloc realloc secp raw tx → CommitsToChain tx →
    ∀ evm ctx result s, ctx.chainId ≠ 0 → Executes evm tx ctx result s →
      committedChainId tx = ctx.chainId
  everyChain : ∀ tx, Received malloc realloc secp raw tx →
    (∀ c ≠ 0, ∃ evm ctx result s, ctx.chainId = c ∧ Executes evm tx ctx result s) →
      tx.type = .legacy ∧ (tx.v = 27 ∨ tx.v = 28)

variable {malloc : Malloc} {realloc : ℕ → Bool} {secp : Secp256k1} {raw : Bytes} {tx : Tx}

/-- The field the executor looks at is the chain id that is committed to. -/
lemma Received.chainId (h : Received malloc realloc secp raw tx) (hc : CommitsToChain tx) :
    tx.chainId = committedChainId tx := by
  obtain ⟨decoded, hdec, hrec⟩ := h
  have htx := recovered_eq hrec
  unfold committedChainId
  rcases hc with ht | ⟨ht, hv⟩
  · rw [if_pos ht]
  · rw [if_neg (by rw [ht]; simp)]
    rw [htx] at ht hv ⊢
    exact (chainId_of_decoded hdec ht).trans (if_pos hv)

lemma executes_iff {evm : Evm} {ctx : BlockContext} {result : ExecResult} {s : Store} :
    Executes evm tx ctx result s ↔
      evm.initialized = true ∧ chainIdRejected tx (some ctx) = false ∧
        tx.nonce = storedNonce s tx.fromAddr ∧ intrinsicGas tx.data ≤ tx.gasLimit ∧
          (run server (planEffects evm tx (some ctx) tx.nonce { result with output := [] })
            s).1.rc = 0 := by
  unfold Executes
  rw [run_executeTx]
  exact run_planTx_rc server tx (some ctx) result s

/-- With an interpreter that returns at once, the effects do not fail. -/
lemma idle_effects (tx : Tx) (blockCtx : Option BlockContext) (nonce : UInt64)
    (result : ExecResult) (s : Store) :
    (run server (planEffects idle tx blockCtx nonce result) s).1.rc = 0 := by
  unfold planEffects
  split_ifs
  · rfl
  · unfold planContract
    rw [run_bind, run_bind]
    split_ifs <;> rfl

/-- A transaction without a chain id is executed on some store of any chain, if its gas suffices. -/
lemma executes_of_no_chainId (h0 : tx.chainId = 0) (hgas : intrinsicGas tx.data ≤ tx.gasLimit)
    (ctx : BlockContext) :
    Executes idle tx ctx .zero (put (fun _ => none) (nonceCell tx.fromAddr)
      (decimal tx.nonce.toNat)) := by
  rw [executes_iff]
  refine ⟨rfl, ?_, ?_, hgas, idle_effects _ _ _ _ _⟩
  · simp [chainIdRejected, h0]
  · exact (storedNonce_of_cell (put_same _ _ _)).symm

lemma chainId_of_executes {evm : Evm} {ctx : BlockContext} {result : ExecResult} {s : Store}
    (h : Executes evm tx ctx result s) (h0 : tx.chainId ≠ 0) : tx.chainId = ctx.chainId := by
  obtain ⟨-, hchain, -⟩ := executes_iff.mp h
  simpa [chainIdRejected, h0] using hchain

/-- A transaction without a committed chain id is an old legacy transaction. -/
lemma Received.preEip155 (h : Received malloc realloc secp raw tx) (hno : ¬ CommitsToChain tx) :
    tx.type = .legacy ∧ (tx.v = 27 ∨ tx.v = 28) := by
  obtain ⟨decoded, -, hrec⟩ := h
  have htx := recovered_eq hrec
  have hsame : tx.type = decoded.type ∧ tx.v = decoded.v := by
    rw [htx]
    exact ⟨rfl, rfl⟩
  have htype := type_of_recovered (congrArg Prod.fst hrec)
  rw [← hsame.1, ← hsame.2] at htype
  unfold CommitsToChain at hno
  tauto

/-- A received transaction with a chain id other than 0 is executed on its own chain only. -/
lemma Received.chain_of_executes (h : Received malloc realloc secp raw tx)
    (hc : CommitsToChain tx) (h0 : committedChainId tx ≠ 0) {evm : Evm} {ctx : BlockContext}
    {result : ExecResult} {s : Store} (hex : Executes evm tx ctx result s) :
    committedChainId tx = ctx.chainId := by
  rw [← h.chainId hc] at h0 ⊢
  exact chainId_of_executes hex h0

/-- **A transaction is protected against replay on other chains exactly when the chain id it
commits to is not zero**, or its gas is too low for it to be executed at all. -/
theorem replayProtected_iff (malloc : Malloc) (realloc : ℕ → Bool) (secp : Secp256k1)
    (raw : Bytes) :
    ReplayProtected malloc realloc secp raw ↔
      ∀ tx, Received malloc realloc secp raw tx → CommitsToChain tx →
        committedChainId tx ≠ 0 ∨ tx.gasLimit < intrinsicGas tx.data := by
  constructor
  · intro h tx hrec hc
    by_contra hno
    rw [not_or, ne_eq, Decidable.not_not, UInt64.not_lt] at hno
    have h0 : tx.chainId = 0 := (hrec.chainId hc).trans hno.1
    have hone := h.chain tx hrec hc idle ⟨0, 0, .zero 20, 0, 0, 1⟩ .zero _ (by simp)
      (executes_of_no_chainId h0 hno.2 _)
    rw [hno.1] at hone
    cases hone
  · intro h
    have hchain : ∀ tx, Received malloc realloc secp raw tx → CommitsToChain tx →
        ∀ evm ctx result s, Executes evm tx ctx result s →
          committedChainId tx = ctx.chainId := by
      intro tx hrec hc evm ctx result s hex
      obtain ⟨-, -, -, hgas, -⟩ := executes_iff.mp hex
      exact hrec.chain_of_executes hc
        ((h tx hrec hc).resolve_right (UInt64.not_lt.mpr hgas)) hex
    refine ⟨fun tx hrec hc evm ctx result s _ => hchain tx hrec hc evm ctx result s, ?_⟩
    intro tx hrec hevery
    apply hrec.preEip155
    intro hc
    -- it would be executed on the chains 1 and 2
    obtain ⟨evm₁, ctx₁, result₁, s₁, h₁, hex₁⟩ := hevery 1 (by simp)
    obtain ⟨evm₂, ctx₂, result₂, s₂, h₂, hex₂⟩ := hevery 2 (by simp)
    have e₁ := hchain tx hrec hc evm₁ ctx₁ result₁ s₁ hex₁
    have e₂ := hchain tx hrec hc evm₂ ctx₂ result₂ s₂ hex₂
    rw [e₁, h₁, h₂] at e₂
    cases e₂

/-! ### A transaction for chain 0 -/

/-- A transaction for chain 0, with just enough gas. -/
def chainZero : Eip1559 where
  chainId := []
  nonce := []
  maxPriorityFee := []
  maxFeePerGas := []
  gasLimit := [0x52, 0x08]
  recipient := []
  value := []
  data := []
  accessList := .list []
  v := []
  r := [5]
  s := [6]

def rawChainZero : Bytes := [0x02] ++ encode (.list chainZero.items)

/-- What is decoded from it. -/
def txChainZero : Tx := chainZero.decoded (fun _ => true) [] [5] [6] rawChainZero

lemma received_chainZero : Received (fun _ => true) (fun _ => true) (fun _ _ _ _ => some (.zero 65))
    rawChainZero (txRecoverSender (fun _ => true) (fun _ _ _ _ => some (.zero 65)) txChainZero).2 := by
  have hdec : txDecode (fun _ => true) rawChainZero = .ok txChainZero :=
    txDecode_eip1559 rfl chainZero [] rfl (by decide) rfl
  have hrc : (txRecoverSender (fun _ => true) (fun _ _ _ _ => some (.zero 65)) txChainZero).1 = 0 :=
    rfl
  exact ⟨txChainZero, hdec, Prod.ext hrc rfl⟩

/-- It is executed on chain 1. -/
theorem not_replayProtected_chainZero :
    ¬ ReplayProtected (fun _ => true) (fun _ => true) (fun _ _ _ _ => some (.zero 65))
      rawChainZero := by
  intro h
  have hone := h.chain _ received_chainZero (Or.inl rfl) idle ⟨0, 0, .zero 20, 0, 0, 1⟩ .zero _
    (by simp) (executes_of_no_chainId rfl (by decide) _)
  cases hone

end EvmDb.ChainId
