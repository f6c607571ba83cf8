import EvmDb.Block.RlpReader
import EvmDb.Core.Keccak

/-!
`evmdb_tx_decode`: from the bytes of a signed transaction to its fields.

The fields are read one after the other from a reader over the content of the outer item. The
length of that content is the one the outer header declares.
-/

namespace EvmDb.TxDecode

open EvmDb.Radix EvmDb.Rlp EvmDb.Checked EvmDb.Types EvmDb.RlpReader EvmDb.Keccak
open EvmDb.Checked.Read

/-- Whether an allocation of a size succeeds. -/
abbrev Malloc := ℕ → Bool

/-- The recipient: an empty item is contract creation. -/
def decodeTo (raw : Bytes) (item : Slice) (tx : Tx) : Read Tx :=
  if item.len = 0 then .ok { tx with toIsNull := true }
  else do
    let addr ← rlpToAddress raw item
    return { tx with toAddr := addr }

/-- The calldata, copied to memory of its own if there is any left. -/
def decodeData (malloc : Malloc) (raw : Bytes) (item : Slice) : Read Bytes :=
  if item.len > 0 ∧ malloc item.len = true then bytesAt raw item.data item.len else .ok []

/-- The signature, the last three items of either type. -/
def decodeSignature (raw : Bytes) (lr : Reader) (tx : Tx) : Read Tx := do
  let (item, lr) ← rlpDecodeItem raw lr
  let v ← rlpToUint64 raw item
  let tx := { tx with v := v }
  let (item, lr) ← rlpDecodeItem raw lr
  let r ← rlpToBytes32 raw item
  let tx := { tx with r := r }
  let (item, _) ← rlpDecodeItem raw lr
  let s ← rlpToBytes32 raw item
  return { tx with s := s }

/-- The fields of an EIP-1559 transaction. -/
def decodeEip1559 (malloc : Malloc) (raw : Bytes) (lr : Reader) (tx : Tx) : Read Tx := do
  let (item, lr) ← rlpDecodeItem raw lr
  let chainId ← rlpToUint64 raw item
  let tx := { tx with chainId := chainId }
  let (item, lr) ← rlpDecodeItem raw lr
  let nonce ← rlpToUint64 raw item
  let tx := { tx with nonce := nonce }
  let (item, lr) ← rlpDecodeItem raw lr
  let maxPriorityFee ← rlpToBytes32 raw item
  let tx := { tx with maxPriorityFee := maxPriorityFee }
  let (item, lr) ← rlpDecodeItem raw lr
  let maxFeePerGas ← rlpToBytes32 raw item
  let tx := { tx with maxFeePerGas := maxFeePerGas }
  let (item, lr) ← rlpDecodeItem raw lr
  let gasLimit ← rlpToUint64 raw item
  let tx := { tx with gasLimit := gasLimit }
  let (item, lr) ← rlpDecodeItem raw lr
  let tx ← decodeTo raw item tx
  let (item, lr) ← rlpDecodeItem raw lr
  let value ← rlpToBytes32 raw item
  let tx := { tx with value := value }
  let (item, lr) ← rlpDecodeItem raw lr
  let data ← decodeData malloc raw item
  let tx := { tx with data := data }
  -- the access list; its content is not looked at
  let (_, lr) ← rlpDecodeItem raw lr
  decodeSignature raw lr tx

/-- The fields of a legacy transaction. -/
def decodeLegacy (malloc : Malloc) (raw : Bytes) (lr : Reader) (tx : Tx) : Read Tx := do
  let (item, lr) ← rlpDecodeItem raw lr
  let nonce ← rlpToUint64 raw item
  let tx := { tx with nonce := nonce }
  let (item, lr) ← rlpDecodeItem raw lr
  let gasPrice ← rlpToBytes32 raw item
  let tx := { tx with gasPrice := gasPrice }
  let (item, lr) ← rlpDecodeItem raw lr
  let gasLimit ← rlpToUint64 raw item
  let tx := { tx with gasLimit := gasLimit }
  let (item, lr) ← rlpDecodeItem raw lr
  let tx ← decodeTo raw item tx
  let (item, lr) ← rlpDecodeItem raw lr
  let value ← rlpToBytes32 raw item
  let tx := { tx with value := value }
  let (item, lr) ← rlpDecodeItem raw lr
  let data ← decodeData malloc raw item
  let tx := { tx with data := data }
  let tx ← decodeSignature raw lr tx
  -- EIP-155
  return if tx.v ≥ 35 then { tx with chainId := (tx.v - 35) / 2 } else tx

/-- The type a first byte announces, and where the payload begins. -/
def txType (first : UInt8) : TxType × ℕ :=
  if first = 0x01 then (.eip2930, 1)
  else if first = 0x02 then (.eip1559, 1)
  else (.legacy, 0)

/-- `evmdb_tx_decode`; `reject` is the return value -1. The fields of an EIP-2930 transaction
are not decoded. -/
def txDecode (malloc : Malloc) (raw : Bytes) : Read Tx :=
  if raw.length = 0 then .reject
  else if malloc raw.length = false then .reject
  else do
    let first ← byteAt raw 0
    let (type, payload) := txType first
    let reader : Reader := ⟨payload, 0, raw.length - payload⟩
    let (list, _) ← rlpDecodeItem raw reader
    let lr : Reader := ⟨list.data, 0, list.len⟩
    let tx := { Tx.zero with type := type, raw := raw }
    let tx ← match type with
      | .eip1559 => decodeEip1559 malloc raw lr tx
      | .legacy => decodeLegacy malloc raw lr tx
      | .eip2930 => .ok tx
    return { tx with hash := keccak256 raw }

end EvmDb.TxDecode
