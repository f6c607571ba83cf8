import EvmDb.Evm.Effects
import EvmDb.Rpc.Request

/-!
`eth_sendRawTransaction`: `handle_send_raw_transaction` of `src/rpc/handlers.c`.

A transaction is one block: if it is executed, the block number and a receipt follow its effects
and its nonce. Decoding and the recovery of the sender are parameters.
-/

namespace EvmDb.SendRaw

open EvmDb.Types EvmDb.Digits EvmDb.Hex EvmDb.Program EvmDb.Redis EvmDb.RedisState EvmDb.Host
open EvmDb.Executor EvmDb.Plan EvmDb.Effects EvmDb.Request

/-! ### The handler -/

/-- `struct evmdb_rpc`, as far as requests depend on it. -/
structure Rpc where
  evm : Evm
  chainId : UInt64
  gasLimit : UInt64
  baseFee : UInt64

/-- `evmdb_tx_decode` and `evmdb_tx_recover_sender`; none stands for their error codes. -/
structure TxParser where
  decode : Bytes → Option Tx
  recoverSender : Tx → Option Tx

/-- The block context for the number of the latest block. -/
def blockContext (rpc : Rpc) (time blockNum : UInt64) : BlockContext where
  number := blockNum
  timestamp := time
  coinbase := .zero 20
  gasLimit := rpc.gasLimit
  baseFee := rpc.baseFee
  chainId := rpc.chainId

/-- `make_block_context`, at a time. -/
def makeBlockContext (rpc : Rpc) (time : UInt64) : RedisProg BlockContext := do
  let blockNum ← getBlockNumber
  return blockContext rpc time blockNum

/-- The receipt of a transaction that was executed. -/
def receiptFor (rpc : Rpc) (tx : Tx) (minedBlockNumber : UInt64) (success : Bool)
    (gasUsed : UInt64) : Receipt where
  transactionHash := tx.hash
  blockNumber := minedBlockNumber
  fromAddr := tx.fromAddr
  toAddr := if tx.toIsNull then none else some tx.toAddr
  gasUsed := gasUsed
  contractAddress := if tx.toIsNull then some (computeCreateAddress tx.fromAddr tx.nonce) else none
  success := success
  effectiveGasPrice := rpc.baseFee
  type := tx.type

/-- The handler, from the block context on. -/
def executeAndRecord (rpc : Rpc) (time : UInt64) (id : Bytes) (tx : Tx) : RedisProg Response := do
  let blockCtx ← makeBlockContext rpc time
  let (rc, result) ← executeTx rpc.evm tx (some blockCtx) .zero
  if rc ≠ 0 then return .error id (-32603) result.error
  else
    let minedBlockNumber := blockCtx.number + 1
    let _ ← setBlockNumber minedBlockNumber
    let receipt := receiptFor rpc tx minedBlockNumber result.success result.gasUsed
    let _ ← setReceipt tx.hash receipt.text
    return .result id (quoted ((hexEncode tx.hash.bytes 67).getD []))

/-- `handle_send_raw_transaction`; its allocations succeed. -/
def handleSendRawTransaction (rpc : Rpc) (parser : TxParser) (time : UInt64)
    (id request : Bytes) : RedisProg Response :=
  match extractFirstParamString (cstr request) with
  | none => return .error id (-32602) (ascii "missing raw transaction parameter")
  | some rawHex =>
    let (byteLen, raw) := hexDecode rawHex (rawHex.length / 2)
    if byteLen ≤ 0 then return .error id (-32602) (ascii "invalid hex data")
    else
      match parser.decode (raw.take byteLen.toNat) with
      | none => return .error id (-32602) (ascii "failed to decode transaction")
      | some tx =>
        match parser.recoverSender tx with
        | none => return .error id (-32602) (ascii "failed to recover sender")
        | some tx => executeAndRecord rpc time id tx

/-! ### What a request is for -/

/-- The transaction a request carries, with its sender. -/
def sentTx (parser : TxParser) (request : Bytes) : Option Tx := do
  let rawHex ← extractFirstParamString (cstr request)
  let (byteLen, raw) := hexDecode rawHex (rawHex.length / 2)
  if byteLen ≤ 0 then none
  else
    let tx ← parser.decode (raw.take byteLen.toNat)
    parser.recoverSender tx

/-- What is said of a request without a transaction. -/
def noTransaction : List Bytes :=
  [ascii "missing raw transaction parameter", ascii "invalid hex data",
    ascii "failed to decode transaction", ascii "failed to recover sender"]

/-- A request without a transaction is answered with an error at once. -/
lemma handleSendRawTransaction_eq (parser : TxParser) (id request : Bytes) :
    (∃ tx, sentTx parser request = some tx ∧ ∀ rpc time,
        handleSendRawTransaction rpc parser time id request = executeAndRecord rpc time id tx) ∨
      sentTx parser request = none ∧ ∃ message ∈ noTransaction, ∀ rpc time,
        handleSendRawTransaction rpc parser time id request =
          .ret (.error id (-32602) message) := by
  unfold sentTx handleSendRawTransaction noTransaction
  rcases extractFirstParamString (cstr request) with _ | rawHex
  · exact Or.inr ⟨rfl, _, by simp, fun _ _ => rfl⟩
  dsimp only [Option.bind_eq_bind, Option.bind_some]
  rcases hexDecode rawHex (rawHex.length / 2) with ⟨byteLen, raw⟩
  dsimp only
  by_cases hlen : byteLen ≤ 0
  · exact Or.inr ⟨if_pos hlen, ascii "invalid hex data", by simp, fun _ _ => if_pos hlen⟩
  rw [if_neg hlen]
  simp only [if_neg hlen]
  rcases parser.decode (raw.take byteLen.toNat) with _ | tx
  · exact Or.inr ⟨rfl, ascii "failed to decode transaction", by simp, fun _ _ => rfl⟩
  dsimp only [Option.bind_some]
  rcases parser.recoverSender tx with _ | tx'
  · exact Or.inr ⟨rfl, ascii "failed to recover sender", by simp, fun _ _ => rfl⟩
  · exact Or.inl ⟨tx', rfl, fun _ _ => rfl⟩

/-- The number of the latest block. -/
def storedBlock (s : Store) : UInt64 := numberOf (some (.ofCell (s blockCell)))

/-- The block context of a request that is handled on a store. -/
def contextOn (rpc : Rpc) (time : UInt64) (s : Store) : BlockContext :=
  blockContext rpc time (storedBlock s)

/-- The receipt of a transaction that is executed on a store. -/
def receiptOn (rpc : Rpc) (time : UInt64) (tx : Tx) (s : Store) : Receipt :=
  let o := outcome rpc.evm tx (some (contextOn rpc time s)) s
  receiptFor rpc tx (storedBlock s + 1) o.success o.gasUsed

/-- One store comes from another by executing a transaction as a block of its own. -/
structure Mined (rpc : Rpc) (time : UInt64) (tx : Tx) (s s' : Store) : Prop where
  checked : storedNonce s tx.fromAddr = tx.nonce
  nonce : s' (nonceCell tx.fromAddr) = some (decimal (storedNonce s tx.fromAddr + 1).toNat)
  block : s' blockCell = some (decimal (storedBlock s + 1).toNat)
  receipt : s' (receiptCell tx.hash) = some (receiptOn rpc time tx s).json
  code : ∀ addr, (receiptOn rpc time tx s).contractAddress = some addr →
    s' (codeCell addr) = some tx.data
  slots : ∀ addr key, s' (storageCell addr key) =
    (((outcome rpc.evm tx (some (contextOn rpc time s)) s).slots addr key).map bytes32ToHex).or
      (s (storageCell addr key))
  rest : ∀ c, c ≠ nonceCell tx.fromAddr → c ≠ blockCell → c ≠ receiptCell tx.hash →
    (∀ addr, (receiptOn rpc time tx s).contractAddress = some addr → c ≠ codeCell addr) →
      (∀ addr key, c ≠ storageCell addr key) → s' c = s c

/-! ### Cells -/

lemma receiptCell_ne_blockCell (h : Hash) : receiptCell h ≠ blockCell := by
  intro hc
  have hk := congrArg List.head? (Cell.key.inj hc)
  simp [receiptKey, blockKey, ascii] at hk

lemma codeCell_ne_blockCell (a : Address) : codeCell a ≠ blockCell := by
  intro hc
  have hk := congrArg List.head? (Cell.key.inj hc)
  simp [codeKey, blockKey, ascii] at hk

/-! ### The effect of a request -/

variable (rpc : Rpc) (parser : TxParser) (time : UInt64) (id request : Bytes)

/-- What a request with a transaction does, after the transaction. -/
lemma run_executeAndRecord (tx : Tx) (s : Store) :
    let ((rc, result), s₁) := run server (executeTx rpc.evm tx (some (contextOn rpc time s)) .zero) s
    run server (executeAndRecord rpc time id tx) s =
      if rc ≠ 0 then (.error id (-32603) result.error, s₁)
      else (.result id (quoted ((hexEncode tx.hash.bytes 67).getD [])),
        put (put s₁ blockCell (decimal (storedBlock s + 1).toNat)) (receiptCell tx.hash)
          (receiptFor rpc tx (storedBlock s + 1) result.success result.gasUsed).text) := by
  have hctx : run server (makeBlockContext rpc time) s = (contextOn rpc time s, s) := rfl
  unfold executeAndRecord
  rw [run_bind, hctx, run_bind]
  dsimp only
  rcases run server (executeTx rpc.evm tx (some (contextOn rpc time s)) .zero) s with
    ⟨⟨rc, result⟩, s₁⟩
  dsimp only
  by_cases hrc : rc ≠ 0
  · rw [if_pos hrc, if_pos hrc]
    rfl
  · rw [if_neg hrc, if_neg hrc]
    rfl

lemma contractAddress_eq {tx : Tx} {s : Store} {addr : Address}
    (h : (receiptOn rpc time tx s).contractAddress = some addr) :
    tx.toIsNull = true ∧ addr = computeCreateAddress tx.fromAddr tx.nonce := by
  have hc : (if tx.toIsNull then some (computeCreateAddress tx.fromAddr tx.nonce) else none) =
      some addr := h
  split_ifs at hc with hnull
  exact ⟨hnull, (Option.some.inj hc).symm⟩

/-- The effects, the nonce, the block number and the receipt are in different places. -/
lemma mined_of_realises {tx : Tx} {s s₁ : Store} (hnonce : tx.nonce = storedNonce s tx.fromAddr)
    (h : Realises (outcome rpc.evm tx (some (contextOn rpc time s)) s)
      (computeCreateAddress tx.fromAddr tx.nonce) s s₁) :
    Mined rpc time tx s
      (put (put (put s₁ (nonceCell tx.fromAddr) (decimal (tx.nonce + 1).toNat)) blockCell
        (decimal (storedBlock s + 1).toNat)) (receiptCell tx.hash) (receiptOn rpc time tx s).text) := by
  have hcode := outcome_code rpc.evm tx (some (contextOn rpc time s)) s
  constructor
  case checked => exact hnonce.symm
  case nonce =>
    have hr : nonceCell tx.fromAddr ≠ receiptCell tx.hash := nofun
    have hb : nonceCell tx.fromAddr ≠ blockCell := nofun
    rw [put_of_ne _ _ hr, put_of_ne _ _ hb, put_same, hnonce]
  case block => rw [put_of_ne _ _ (receiptCell_ne_blockCell _).symm, put_same]
  case receipt => rw [put_same, Receipt.text_eq]
  case code =>
    intro addr haddr
    obtain ⟨hnull, rfl⟩ := contractAddress_eq rpc time haddr
    rw [put_of_ne _ _ (codeCell_ne_receiptCell _ _), put_of_ne _ _ (codeCell_ne_blockCell _),
      put_of_ne _ _ (codeCell_ne_nonceCell _ _), h.code, hcode, if_pos hnull]
    rfl
  case slots =>
    intro addr key
    have hr : storageCell addr key ≠ receiptCell tx.hash := nofun
    have hb : storageCell addr key ≠ blockCell := nofun
    rw [put_of_ne _ _ hr, put_of_ne _ _ hb, put_of_ne _ _ (storageCell_ne_nonceCell _ _ _),
      h.slots]
  case rest =>
    intro c hn hb hr ha hs
    rw [put_of_ne _ _ hr, put_of_ne _ _ hb, put_of_ne _ _ hn]
    by_cases hc : c = codeCell (computeCreateAddress tx.fromAddr tx.nonce)
    · -- the address of a contract that is not created
      have hnull : ¬ tx.toIsNull = true := fun hnull => ha _ (if_pos hnull) hc
      rw [hc, h.code, hcode, if_neg hnull]
      rfl
    · exact h.rest c hc hs

/-- **A request that sends a transaction is atomic.** An error leaves the store as it is; any other
response comes with exactly the effect of executing the transaction as a block. -/
theorem sendRawTransaction_atomic (hr : ∀ n, rpc.evm.realloc n = true) (s : Store) :
    let (response, s') := run server (handleSendRawTransaction rpc parser time id request) s
    (response.isError = true → s' = s) ∧
      (response.isError = false →
        ∃ tx, sentTx parser request = some tx ∧ Mined rpc time tx s s') := by
  rcases handleSendRawTransaction_eq parser id request with
    ⟨tx, htx, hrun⟩ | ⟨-, message, -, hrun⟩
  · rw [hrun, run_executeAndRecord]
    have hrej := @executeTx_rejected rpc.evm tx (some (contextOn rpc time s)) .zero s
    have hout := executeTx_outcome hr tx (some (contextOn rpc time s)) .zero s
    revert hrej hout
    rcases run server (executeTx rpc.evm tx (some (contextOn rpc time s)) .zero) s with
      ⟨⟨rc, result⟩, s₁⟩
    intro hrej hout
    by_cases hrc : rc ≠ 0
    · simp only [if_pos hrc]
      exact ⟨fun _ => hrej hrc, nofun⟩
    · simp only [if_neg hrc]
      refine ⟨nofun, fun _ => ⟨tx, htx, ?_⟩⟩
      obtain ⟨hnonce, hsuccess, hgas, s₂, hreal, hstore⟩ := hout (not_not.mp hrc)
      have hmined := mined_of_realises rpc time hnonce hreal
      rw [← hstore] at hmined
      rw [hsuccess, hgas]
      exact hmined
  · rw [hrun]
    exact ⟨fun _ => rfl, nofun⟩

/-- A server with an interpreter that returns at once. -/
def idleRpc : Rpc := ⟨idle, 1, 0, 0⟩

/-- A parser to which every input is the plain transaction. -/
def plainParser : TxParser := ⟨fun _ => some plainTx, some⟩

def plainRequest : Bytes := ascii "\x7b\"params\":[\"0x00\"]\x7d"

/-- A server with a contract that counts. -/
def countingRpc : Rpc := ⟨counting, 1, 0, 0⟩

/-- A parser to which every input is a call of the contract at the address zero. -/
def callParser : TxParser := ⟨fun _ => some (callTx (.rightAlign 20 [1]) (.zero 20)), some⟩

/-- Sent to a store with the contract, a call becomes block 1, and the count goes from 6 to 7. -/
theorem sendRawTransaction_counting :
    let s := counter (.zero 20) 6 fun _ => none
    let s' := (run server (handleSendRawTransaction countingRpc callParser 0 [49] plainRequest) s).2
    (∃ tx, sentTx callParser plainRequest = some tx ∧ Mined countingRpc 0 tx s s') ∧
      s' (storageCell (.zero 20) (.zero 32)) = some (bytes32ToHex (bytes32FromUint64 7)) := by
  refine ⟨?_, by decide +kernel⟩
  exact (sendRawTransaction_atomic countingRpc callParser 0 [49] plainRequest (fun _ => rfl)
    (counter (.zero 20) 6 fun _ => none)).2 (by decide +kernel)

end EvmDb.SendRaw
