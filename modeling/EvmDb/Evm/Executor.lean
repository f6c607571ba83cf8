import EvmDb.Evm.Host

/-!
Executing a transaction: `execute_contract` and `evmdb_evm_execute_tx` of
`src/evm/executor.c`.

The interpreter is a parameter: what it does with a message and a code. The allocations for
the code and the output succeed.
-/

namespace EvmDb.Executor

open EvmDb.Radix EvmDb.Types EvmDb.Digits EvmDb.Keccak EvmDb.Program EvmDb.Redis
open EvmDb.RedisState EvmDb.Host

/-- `evmdb_evm_t`, with the interpreter behind it and what its host depends on. -/
structure Evm extends HostEnv where
  initialized : Bool
  execute : Message → Bytes → EvmProg EvmcResult
  statusCodeToString : ℤ → Bytes

/-- `evmdb_exec_result_t`; there are never any logs. -/
structure ExecResult where
  success : Bool
  gasUsed : UInt64
  output : Bytes
  error : Bytes
  deriving DecidableEq

/-- A result record after `memset` to zero. -/
def ExecResult.zero : ExecResult := ⟨false, 0, [], []⟩

/-- The error of a result, printed to its buffer of 256 bytes. -/
def ExecResult.withError (result : ExecResult) (text : Bytes) : ExecResult :=
  { result with error := text.take 255 }

/-- `copy_output`; the allocation succeeds. -/
def copyOutput (result : ExecResult) (data : Bytes) : ExecResult := { result with output := data }

/-- The loop over the entries of the overlay. -/
def commitWrites : List StorageWrite → RedisProg ℤ
  | [] => return 0
  | write :: writes => do
    let rc ← setStorage write.address write.key write.value
    if rc ≠ 0 then return -1 else commitWrites writes

/-- `exec_context_commit`. -/
def execContextCommit (ctx : ExecContext) : RedisProg ℤ := commitWrites ctx.writes

/-- The message a contract is executed with. -/
def messageFor (sender to_ : Address) (data : Bytes) (value : Bytes32) (gas : UInt64)
    (flags : UInt32) : Message where
  kind := .call
  flags := flags
  depth := 0
  gas := gas.toInt64
  recipient := to_
  sender := sender
  input := data
  value := value
  codeAddress := to_

def contextFor (blockCtx : Option BlockContext) (origin : Address) : ExecContext :=
  let blockCtx := blockCtx.getD ⟨0, 0, .zero 20, 0, 0, 0⟩
  ⟨blockCtx, origin, bytes32FromUint64 blockCtx.baseFee, [], 0⟩

/-- `execute_contract`: the result code and the result record. -/
def executeContract (evm : Evm) (blockCtx : Option BlockContext) (origin sender to_ : Address)
    (data : Bytes) (value : Bytes32) (gas : UInt64) (flags : UInt32) (commitState : Bool)
    (result : ExecResult) : RedisProg (ℤ × ExecResult) := do
  let code ← getCode to_
  if code.length = 0 then
    return (0, ⟨true, 0, [], []⟩)
  else
    let msg := messageFor sender to_ data value gas flags
    let (execResult, execCtx) ←
      interp (hostInterface evm.toHostEnv) (evm.execute msg code) (contextFor blockCtx origin)
    let status := execResult.statusCode
    if status < 0 then
      return (-1, result.withError (evm.statusCodeToString status))
    else
      let gasLeft := if execResult.gasLeft > 0 then execResult.gasLeft.toUInt64 else 0
      let result := copyOutput ⟨status = 0, gas - gasLeft, [], []⟩ execResult.output
      if status ≠ 0 then
        return (0, result.withError (evm.statusCodeToString status))
      else if commitState then do
        let rc ← execContextCommit execCtx
        if rc ≠ 0 then
          return (-1, { result.withError (ascii "failed to commit state changes") with output := [] })
        else return (0, result)
      else return (0, result)

/-! ### Contract addresses -/

def rlpEncodeBytes (data : Bytes) : Bytes :=
  if data.length = 1 ∧ (data.headD 0).toNat ≤ 0x7f then [data.headD 0]
  else UInt8.ofNat (0x80 + data.length) :: data

def rlpEncodeUint64 (value : UInt64) : Bytes :=
  if value = 0 then [0x80] else rlpEncodeBytes (takeBytes 8 value.toNat [])

def rlpEncodeList (payload : Bytes) : Bytes := UInt8.ofNat (0xc0 + payload.length) :: payload

/-- `evmdb_evm_compute_create_address`. -/
def computeCreateAddress (sender : Address) (nonce : UInt64) : Address :=
  addressOfHash (keccak256 (rlpEncodeList (rlpEncodeBytes sender.bytes ++ rlpEncodeUint64 nonce)))

/-! ### Transactions -/

/-- The gas of a transaction before anything is executed, as `evmdb_evm_execute_tx` counts it. -/
def intrinsicGas (data : Bytes) : UInt64 :=
  data.foldl (fun gas b => gas + if b = 0 then 4 else 16) 21000

def chainIdMismatch (expected got : UInt64) : Bytes :=
  ascii "chain id mismatch: expected " ++ decimal expected.toNat ++ ascii ", got " ++
    decimal got.toNat

def nonceMismatch (expected got : UInt64) : Bytes :=
  ascii "nonce mismatch: expected " ++ decimal expected.toNat ++ ascii ", got " ++
    decimal got.toNat

/-- The chain id check fails: there is a block context, and the transaction has a chain id that
is not zero and not the context's. -/
def chainIdRejected (tx : Tx) (blockCtx : Option BlockContext) : Bool :=
  match blockCtx with
  | some ctx => tx.chainId ≠ 0 ∧ tx.chainId ≠ ctx.chainId
  | none => false

/-- What a transaction does after the checks: it stores code, or executes a contract. -/
def executeEffects (evm : Evm) (tx : Tx) (blockCtx : Option BlockContext) (currentNonce : UInt64)
    (result : ExecResult) : RedisProg (ℤ × ExecResult) :=
  if tx.toIsNull then do
    let contract := computeCreateAddress tx.fromAddr currentNonce
    let _ ← setCode contract tx.data
    return (0, { result with success := true, gasUsed := intrinsicGas tx.data, error := [] })
  else do
    let (rc, result) ← executeContract evm blockCtx tx.fromAddr tx.fromAddr tx.toAddr tx.data
      (.zero 32) (tx.gasLimit - intrinsicGas tx.data) 0 true result
    if rc ≠ 0 then return (rc, result)
    else return (0, { result with gasUsed := result.gasUsed + intrinsicGas tx.data })

/-- `evmdb_evm_execute_tx`: the result code and the result record. -/
def executeTx (evm : Evm) (tx : Tx) (blockCtx : Option BlockContext) (result : ExecResult) :
    RedisProg (ℤ × ExecResult) :=
  if evm.initialized = false then
    return (-1, result.withError (ascii "EVM not initialized"))
  else if chainIdRejected tx blockCtx then
    return (-1, result.withError
      (chainIdMismatch ((blockCtx.map (·.chainId)).getD 0) tx.chainId))
  else do
    let currentNonce ← getNonce tx.fromAddr
    if tx.nonce ≠ currentNonce then
      return (-1, result.withError (nonceMismatch currentNonce tx.nonce))
    else if intrinsicGas tx.data > tx.gasLimit then
      return (-1, result.withError (ascii "intrinsic gas too low"))
    else
      let (rc, result) ← executeEffects evm tx blockCtx currentNonce { result with output := [] }
      if rc ≠ 0 then return (rc, result)
      else
        let _ ← setNonce tx.fromAddr (currentNonce + 1)
        return (0, result)

/-- `evmdb_evm_call`. -/
def evmCall (evm : Evm) (from_ to_ : Address) (data : Bytes) (blockCtx : Option BlockContext)
    (gas : UInt64) (result : ExecResult) : RedisProg (ℤ × ExecResult) :=
  if evm.initialized = false then
    return (-1, result.withError (ascii "EVM not initialized"))
  else executeContract evm blockCtx from_ from_ to_ data (.zero 32) gas 1 false result

/-! ### Small cases -/

/-- An interpreter that returns at once. -/
def idle : Evm where
  realloc := fun _ => true
  uninit := .zero 32
  initialized := true
  execute := fun _ _ => .ret ⟨0, 0, []⟩
  statusCodeToString := fun _ => []

/-- A transaction without calldata, with nonce 0 and just enough gas. -/
def plainTx : Tx := { Tx.zero with gasLimit := 21000 }

/-- An interpreter to which every code counts in the first slot of its account. -/
def counting : Evm where
  realloc := fun _ => true
  uninit := .zero 32
  initialized := true
  execute := fun msg _ => .cmd (.getStorage msg.recipient (.zero 32)) fun count =>
    .cmd (.setStorage msg.recipient (.zero 32) (bytes32FromUint64 (word (count.bytes.drop 24) + 1)))
      fun _ => .ret ⟨0, 1000, []⟩
  statusCodeToString := fun _ => []

/-- A store with a code at an address, and a number in its first slot. -/
def counter (addr : Address) (count : UInt64) (s : Store) : Store :=
  put (put s (codeCell addr) [0]) (storageCell addr (.zero 32))
    (bytes32ToHex (bytes32FromUint64 count))

/-- A transaction that calls the contract at an address, with some gas for it. -/
def callTx (sender to_ : Address) : Tx :=
  { Tx.zero with fromAddr := sender, toAddr := to_, gasLimit := 30000 }

end EvmDb.Executor
