import EvmDb.Block.TxDecode
import EvmDb.Block.TxSigning

/-!
`evmdb_tx_recover_sender`: the account whose key a transaction is signed with.

The curve is a parameter: it gives the uncompressed public key for a hash, a signature and a
recovery id, or none.
-/

namespace EvmDb.TxRecover

open EvmDb.Checked EvmDb.Types EvmDb.Keccak EvmDb.RlpReader EvmDb.TxDecode EvmDb.TxSigning

/-- Recovery of a public key from a hash, the two halves of a signature, and a recovery id. -/
abbrev Secp256k1 := Hash → Bytes32 → Bytes32 → ℕ → Option (FixedBytes 65)

/-- The recovery id that `v` stands for. -/
def recoveryId (type : TxType) (v : UInt64) : Option ℕ :=
  if type = .eip1559 ∨ type = .eip2930 then
    if v > 1 then none else some v.toNat
  else if v = 27 ∨ v = 28 then some (v - 27).toNat
  else if v ≥ 35 then some ((v - 35) % 2).toNat
  else none

/-- `evmdb_tx_recover_sender`: the result code and the transaction. -/
def txRecoverSender (realloc : ℕ → Bool) (secp : Secp256k1) (tx : Tx) : ℤ × Tx :=
  match txSigningHash realloc tx, recoveryId tx.type tx.v with
  | some signingHash, some recid =>
    match secp signingHash tx.r tx.s recid with
    | some pubkey => (0, { tx with fromAddr := addressOfHash (keccak256 (pubkey.bytes.drop 1)) })
    | none => (-1, { tx with fromAddr := .zero 20 })
  | _, _ => (-1, tx)

variable {realloc : ℕ → Bool} {secp : Secp256k1} {tx : Tx}

lemma v_of_recoveryId {v : UInt64} {recid : ℕ} (h : recoveryId .legacy v = some recid) :
    v = 27 ∨ v = 28 ∨ 35 ≤ v := by
  unfold recoveryId at h
  rw [if_neg (by simp)] at h
  split_ifs at h with h₁ h₂
  · exact h₁.elim Or.inl fun h28 => Or.inr (Or.inl h28)
  · exact Or.inr (Or.inr h₂)

/-- **What recovery says about a transaction**: it is an EIP-1559 transaction, or a legacy one
whose `v` says how it is signed. -/
lemma type_of_recovered (h : (txRecoverSender realloc secp tx).1 = 0) :
    tx.type = .eip1559 ∨ (tx.type = .legacy ∧ (tx.v = 27 ∨ tx.v = 28 ∨ 35 ≤ tx.v)) := by
  unfold txRecoverSender at h
  split at h
  · rename_i hash recid hhash hrecid
    cases ht : tx.type with
    | eip1559 => exact Or.inl rfl
    | eip2930 =>
      unfold txSigningHash txSigningPayload at hhash
      rw [ht] at hhash
      cases hhash
    | legacy =>
      rw [ht] at hrecid
      exact Or.inr ⟨rfl, v_of_recoveryId hrecid⟩
  · cases h

/-- Recovery fills in the sender and nothing else. -/
lemma recovered_eq {tx' : Tx} {rc : ℤ} (h : txRecoverSender realloc secp tx = (rc, tx')) :
    tx' = { tx with fromAddr := tx'.fromAddr } := by
  unfold txRecoverSender at h
  split at h
  · split at h
    · cases h
      rfl
    · cases h
      rfl
  · cases h
    rfl

end EvmDb.TxRecover
