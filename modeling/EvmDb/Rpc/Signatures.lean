import EvmDb.Evm.ChainId
import EvmDb.Rpc.Interleaved

/-!
Who has signed what the store says.

The server takes the sender of a transaction from its signature. So a cell that has changed goes
back to a transaction that was signed with the key of its sender, for this chain or for none.
-/

namespace EvmDb.Signatures

open EvmDb.Radix EvmDb.Rlp EvmDb.Checked EvmDb.Checked.Read EvmDb.Types EvmDb.Hex EvmDb.Redis
open EvmDb.RlpReader EvmDb.RlpBuffer EvmDb.TxDecode EvmDb.TxSigning EvmDb.TxRecover EvmDb.ChainId
open EvmDb.Plan EvmDb.Request EvmDb.SendRaw EvmDb.Dispatch EvmDb.Threads EvmDb.Interleaved
open EvmDb.Keccak (keccak256)

/-- The parser of the server: `evmdb_tx_decode` and `evmdb_tx_recover_sender`. -/
def parserOf (malloc : Malloc) (realloc : ℕ → Bool) (secp : Secp256k1) : TxParser where
  decode raw :=
    match txDecode malloc raw with
    | .ok tx => some tx
    | _ => none
  recoverSender tx :=
    let (rc, tx) := txRecoverSender realloc secp tx
    if rc ≠ 0 then none else some tx

/-- The account of an uncompressed public key. -/
def accountOf (pubkey : FixedBytes 65) : Address := addressOfHash (keccak256 (pubkey.bytes.drop 1))

/-- The signature of a transaction is for the code of its signed items, and by the key of its
sender. -/
def Authorised (secp : Secp256k1) (tx : Tx) : Prop :=
  ∃ recid pubkey, recoveryId tx.type tx.v = some recid ∧
    secp (keccak256 (signingCode tx)) tx.r tx.s recid = some pubkey ∧
      tx.fromAddr = accountOf pubkey

variable {malloc : Malloc} {realloc : ℕ → Bool} {secp : Secp256k1} {raw : Bytes} {tx : Tx}

/-! ### The length of what is signed -/

/-- What is signed is not much longer than the calldata. -/
lemma length_signingCode_lt (h : tx.data.length < 2 ^ 62) : (signingCode tx).length < 2 ^ 63 := by
  have huint : ∀ v : UInt64, (encodeStr (minimal v.toNat)).length ≤ 17 := fun v => by
    have hlen : (minimal v.toNat).length ≤ 8 := length_minimal_le (by simpa using v.toNat_lt)
    have hstr := @length_encodeStr_le (minimal v.toNat) (by omega)
    omega
  have hword : ∀ w : Bytes32, (encodeStr (strip w.bytes)).length ≤ 41 := fun w => by
    have hlen := length_strip_le w.bytes
    rw [w.length_bytes] at hlen
    have hstr := @length_encodeStr_le (strip w.bytes) (by omega)
    omega
  have haddr : (encodeStr (recipient tx.toAddr tx.toIsNull)).length ≤ 29 := by
    have hlen : (recipient tx.toAddr tx.toIsNull).length ≤ 20 := by
      unfold recipient
      split_ifs
      · exact Nat.zero_le _
      · exact tx.toAddr.length_bytes.le
    have hstr := @length_encodeStr_le (recipient tx.toAddr tx.toIsNull) (by omega)
    omega
  have hdata := @length_encodeStr_le tx.data (by omega)
  have hnonce := huint tx.nonce
  have hgas := huint tx.gasLimit
  have hvalue := hword tx.value
  have hchain := huint tx.chainId
  have hprice := hword tx.gasPrice
  have hpriority := hword tx.maxPriorityFee
  have hfee := hword tx.maxFeePerGas
  have hempty : (encodeStr []).length = 1 := rfl
  have hnil : (encodeList []).length = 1 := rfl
  have hitems : (encodeAll (signingItems tx)).length ≤ tx.data.length + 400 := by
    unfold signingItems uintItem wordItem addressItem
    split
    · simp only [encodeAll, encode, List.length_append, List.length_nil]
      omega
    · split_ifs
      · simp only [List.cons_append, List.nil_append, encodeAll, encode, List.length_append,
          List.length_nil]
        omega
      · simp only [List.append_nil, encodeAll, encode, List.length_append]
        omega
  have hlist := @length_encodeList_le (encodeAll (signingItems tx)) (by omega)
  have hprefix : (typePrefix tx).length ≤ 1 := by
    unfold typePrefix
    split_ifs <;> simp
  unfold signingCode
  rw [List.length_append, encode]
  omega

/-! ### The sender of a transaction -/

variable {ι : Type} [DecidableEq ι]

end EvmDb.Signatures
