import EvmDb.Core.Keccak
import EvmDb.State.RedisState

/-!
The host side of `src/evm/executor.c`: the callbacks the interpreter runs its code against.

Storage writes are kept in an overlay and read back from it; everything else is read from the
store. The interpreter itself is a program over the callbacks, so it may choose each call by
the answers to the calls before.
-/

namespace EvmDb.Host

open EvmDb.Types EvmDb.Keccak EvmDb.Program EvmDb.Redis EvmDb.RedisState

/-! ### The EVMC interface -/

inductive StorageStatus
  | assigned
  | added
  | deleted
  | modified
  deriving DecidableEq

inductive AccessStatus
  | cold
  | warm
  deriving DecidableEq

inductive CallKind
  | call
  | delegatecall
  | callcode
  | create
  | create2
  deriving DecidableEq

/-- `evmc_message`. -/
structure Message where
  kind : CallKind
  flags : UInt32
  depth : Int32
  gas : Int64
  recipient : Address
  sender : Address
  input : Bytes
  value : Bytes32
  codeAddress : Address

/-- `evmc_result`, as far as the executor reads it. -/
structure EvmcResult where
  statusCode : ℤ
  gasLeft : Int64
  output : Bytes

/-- `evmc_tx_context`. -/
structure TxContext where
  txGasPrice : Bytes32
  txOrigin : Address
  blockCoinbase : Address
  blockNumber : Int64
  blockTimestamp : Int64
  blockGasLimit : Int64
  chainId : Bytes32
  blockBaseFee : Bytes32

/-- The callbacks of `evmc_host_interface`. -/
inductive HostCall
  | accountExists (addr : Address)
  | getStorage (addr : Address) (key : Bytes32)
  | setStorage (addr : Address) (key value : Bytes32)
  | getBalance (addr : Address)
  | getCodeSize (addr : Address)
  | getCodeHash (addr : Address)
  | copyCode (addr : Address) (offset size : ℕ)
  | selfdestruct (addr beneficiary : Address)
  | call (msg : Message)
  | getTxContext
  | getBlockHash (number : Int64)
  | emitLog (addr : Address) (data : Bytes) (topics : List Bytes32)
  | accessAccount (addr : Address)
  | accessStorage (addr : Address) (key : Bytes32)
  | getTransientStorage (addr : Address) (key : Bytes32)
  | setTransientStorage (addr : Address) (key value : Bytes32)

abbrev HostCall.Answer : HostCall → Type
  | .accountExists _ | .selfdestruct _ _ => Bool
  | .getStorage _ _ | .getBalance _ | .getCodeHash _ | .getBlockHash _
  | .getTransientStorage _ _ => Bytes32
  | .setStorage _ _ _ => StorageStatus
  | .getCodeSize _ => ℕ
  | .copyCode _ _ _ => Bytes
  | .call _ => EvmcResult
  | .getTxContext => TxContext
  | .emitLog _ _ _ | .setTransientStorage _ _ _ => Unit
  | .accessAccount _ | .accessStorage _ _ => AccessStatus

/-- What the interpreter does: a program over the callbacks. -/
abbrev EvmProg := Prog HostCall HostCall.Answer

/-! ### The execution context -/

/-- `storage_write_t`. -/
structure StorageWrite where
  address : Address
  key : Bytes32
  value : Bytes32
  deriving DecidableEq

/-- `evm_exec_context_t`. -/
structure ExecContext where
  blockCtx : BlockContext
  txOrigin : Address
  txGasPrice : Bytes32
  writes : List StorageWrite
  writeCap : ℕ

/-- A write concerns a slot. -/
def StorageWrite.isFor (address : Address) (key : Bytes32) (write : StorageWrite) : Bool :=
  write.address = address ∧ write.key = key

/-- `exec_context_get_write`: the last entry for a slot. -/
def execContextGetWrite (ctx : ExecContext) (address : Address) (key : Bytes32) :
    Option Bytes32 :=
  (ctx.writes.reverse.find? (·.isFor address key)).map (·.value)

/-- The loop over the entries: the first one for the slot is overwritten. -/
def overwrite (address : Address) (key value : Bytes32) :
    List StorageWrite → Option (List StorageWrite)
  | [] => none
  | write :: writes =>
    if write.isFor address key then some ({ write with value := value } :: writes)
    else (overwrite address key value writes).map (write :: ·)

/-- `exec_context_set_write`: the result code and the context. -/
def execContextSetWrite (realloc : ℕ → Bool) (ctx : ExecContext) (address : Address)
    (key value : Bytes32) : ℤ × ExecContext :=
  match overwrite address key value ctx.writes with
  | some writes => (0, { ctx with writes := writes })
  | none =>
    let append (cap : ℕ) : ℤ × ExecContext :=
      (0, { ctx with writes := ctx.writes ++ [⟨address, key, value⟩], writeCap := cap })
    if ctx.writes.length = ctx.writeCap then
      let newCap := if ctx.writeCap ≠ 0 then ctx.writeCap * 2 else 8
      if realloc newCap = true then append newCap else (-1, ctx)
    else append ctx.writeCap

def bytes32IsZero (value : Bytes32) : Bool := value.bytes.all (· == 0)

lemma bytes32IsZero_iff {w : Bytes32} : bytes32IsZero w = true ↔ w = .zero 32 := by
  unfold bytes32IsZero
  rw [List.all_eq_true]
  refine ⟨fun h => FixedBytes.ext ?_, fun h => ?_⟩
  · refine List.eq_replicate_iff.mpr ⟨w.length_bytes, fun b hb => ?_⟩
    simpa using h b hb
  · rw [h]
    intro b hb
    rw [List.eq_of_mem_replicate hb]
    rfl

/-- `bytes32_from_uint64`. -/
def bytes32FromUint64 (value : UInt64) : Bytes32 := .rightAlign 32 (Radix.minimal value.toNat)

/-! ### The callbacks -/

/-- What the callbacks depend on: whether the overlay can grow to a size, and what a word on
the stack holds before it is written. -/
structure HostEnv where
  realloc : ℕ → Bool
  uninit : Bytes32

variable (env : HostEnv)

def hostAccountExists (addr : Address) : RedisProg Bool := do
  let nonce ← getNonce addr
  let balance ← getBalance addr env.uninit
  let code ← getCode addr
  return nonce ≠ 0 ∨ bytes32IsZero balance = false ∨ code.length ≠ 0

/-- The value of a slot: from the overlay, else from the store. -/
def currentStorage (ctx : ExecContext) (addr : Address) (key : Bytes32) : RedisProg Bytes32 :=
  match execContextGetWrite ctx addr key with
  | some value => return value
  | none => getStorage addr key env.uninit

def hostGetStorage (ctx : ExecContext) (addr : Address) (key : Bytes32) : RedisProg Bytes32 :=
  currentStorage env ctx addr key

def storageStatus (current next : Bytes32) : StorageStatus :=
  if current = next then .assigned
  else if bytes32IsZero current ∧ ¬ bytes32IsZero next then .added
  else if ¬ bytes32IsZero current ∧ bytes32IsZero next then .deleted
  else .modified

def hostSetStorage (ctx : ExecContext) (addr : Address) (key next : Bytes32) :
    RedisProg (StorageStatus × ExecContext) := do
  let current ← currentStorage env ctx addr key
  let (rc, ctx) := execContextSetWrite env.realloc ctx addr key next
  return (if rc ≠ 0 then .assigned else storageStatus current next, ctx)

def hostGetBalance (addr : Address) : RedisProg Bytes32 := getBalance addr env.uninit

def hostGetCodeSize (addr : Address) : RedisProg ℕ := do
  let code ← getCode addr
  return code.length

def hostGetCodeHash (addr : Address) : RedisProg Bytes32 := do
  let code ← getCode addr
  return keccak256 code

def hostCopyCode (addr : Address) (offset size : ℕ) : RedisProg Bytes := do
  let code ← getCode addr
  return if offset < code.length then (code.drop offset).take size else []

def hostSelfdestruct (_addr _beneficiary : Address) : Bool := false

/-- `host_call`: a call from a contract fails, with `EVMC_FAILURE` and no gas left. -/
def hostCall (_msg : Message) : EvmcResult := ⟨1, 0, []⟩

def hostGetTxContext (ctx : ExecContext) : TxContext where
  txGasPrice := ctx.txGasPrice
  txOrigin := ctx.txOrigin
  blockCoinbase := ctx.blockCtx.coinbase
  blockNumber := ctx.blockCtx.number.toInt64
  blockTimestamp := ctx.blockCtx.timestamp.toInt64
  blockGasLimit := ctx.blockCtx.gasLimit.toInt64
  chainId := bytes32FromUint64 ctx.blockCtx.chainId
  blockBaseFee := bytes32FromUint64 ctx.blockCtx.baseFee

def hostGetBlockHash (_number : Int64) : Bytes32 := .zero 32

def hostEmitLog (_addr : Address) (_data : Bytes) (_topics : List Bytes32) : Unit := ()

def hostAccessAccount (_addr : Address) : AccessStatus := .cold

def hostAccessStorage (_addr : Address) (_key : Bytes32) : AccessStatus := .cold

def hostGetTransientStorage (_addr : Address) (_key : Bytes32) : Bytes32 := .zero 32

def hostSetTransientStorage (_addr : Address) (_key _value : Bytes32) : Unit := ()

/-- `HOST_INTERFACE`: every callback as a program over the store. -/
def hostInterface : (c : HostCall) → ExecContext → RedisProg (c.Answer × ExecContext)
  | .accountExists addr, ctx => do
    let exists_ ← hostAccountExists env addr
    return (exists_, ctx)
  | .getStorage addr key, ctx => do
    let value ← hostGetStorage env ctx addr key
    return (value, ctx)
  | .setStorage addr key value, ctx => hostSetStorage env ctx addr key value
  | .getBalance addr, ctx => do
    let balance ← hostGetBalance env addr
    return (balance, ctx)
  | .getCodeSize addr, ctx => do
    let size ← hostGetCodeSize addr
    return (size, ctx)
  | .getCodeHash addr, ctx => do
    let hash ← hostGetCodeHash addr
    return (hash, ctx)
  | .copyCode addr offset size, ctx => do
    let copied ← hostCopyCode addr offset size
    return (copied, ctx)
  | .selfdestruct addr beneficiary, ctx => return (hostSelfdestruct addr beneficiary, ctx)
  | .call msg, ctx => return (hostCall msg, ctx)
  | .getTxContext, ctx => return (hostGetTxContext ctx, ctx)
  | .getBlockHash number, ctx => return (hostGetBlockHash number, ctx)
  | .emitLog addr data topics, ctx => return (hostEmitLog addr data topics, ctx)
  | .accessAccount addr, ctx => return (hostAccessAccount addr, ctx)
  | .accessStorage addr key, ctx => return (hostAccessStorage addr key, ctx)
  | .getTransientStorage addr key, ctx => return (hostGetTransientStorage addr key, ctx)
  | .setTransientStorage addr key value, ctx =>
    return (hostSetTransientStorage addr key value, ctx)

end EvmDb.Host
