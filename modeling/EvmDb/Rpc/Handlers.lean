import EvmDb.Lib.Checked
import EvmDb.Rpc.Json
import EvmDb.Rpc.SendRaw

/-!
The method handlers of `src/rpc/handlers.c`, besides the one that sends a transaction.

Their allocations succeed. A buffer on the stack holds what the host finds in a word before it is
written.
-/

namespace EvmDb.Handlers

open EvmDb.Checked EvmDb.Types EvmDb.Digits EvmDb.Hex EvmDb.Program EvmDb.Redis EvmDb.RedisState
open EvmDb.Executor EvmDb.Request EvmDb.SendRaw

/-! ### Arguments -/

/-- `evmdb_hex_decode` to a buffer that has to be filled. -/
def decodeExact (n : ℕ) (hex : Bytes) : Option (FixedBytes n) :=
  if (hexDecode hex n).1 = n then some (decodeInto hex (.zero n)) else none

/-- `extract_param_field_string`. -/
def extractParamFieldString (request key : Bytes) : Option Bytes := do
  let params ← findParamsArray request
  let pos ← strstr (quoted key) params
  extractQuotedString ((pos.drop (quoted key).length).dropWhile isBeforeValue)

/-- `intrinsic_gas_for_data`. -/
def intrinsicGasForData (data : Bytes) : UInt64 :=
  data.foldl (fun gas b => gas + if b = 0 then 4 else 16) 21000

/-- `decode_hex_bytes`; none stands for its error code. -/
def decodeHexBytes : Option Bytes → Option Bytes
  | none => some []
  | some hex =>
    if hex.length / 2 = 0 then some []
    else
      let (byteLen, data) := hexDecode hex (hex.length / 2)
      if byteLen < 0 then none else some (data.take byteLen.toNat)

/-- `parse_hex_uint64_or`. -/
def parseHexUint64Or (value : Option Bytes) (fallback : UInt64) : UInt64 :=
  match value with
  | none | some [] => fallback
  | some text => strtoullAnyBase text

/-- A number in quotes, as `evmdb_hex_from_uint64` prints it. -/
def quotedNumber (n : UInt64) : Bytes := quoted (hexNumber n)

/-- Some bytes in quotes, printed to a buffer of their size. -/
def quotedBytes (data : Bytes) : Bytes := quoted ((hexEncode data (data.length * 2 + 3)).getD [])

/-! ### Accounts -/

variable (rpc : Rpc) (time : UInt64) (id : Bytes)

/-- A handler that takes an address. -/
def withAddress (params : List Bytes) (handle : Address → RedisProg Response) :
    RedisProg Response :=
  match params with
  | [] => return .error id (-32602) (ascii "missing address parameter")
  | param :: _ =>
    match decodeExact 20 param with
    | none => return .error id (-32602) (ascii "invalid address")
    | some addr => handle addr

/-- The loop over the zeros in front; the last character stays. -/
def skipZeros : Bytes → Bytes
  | 48 :: c :: t => skipZeros (c :: t)
  | t => t

/-- `handle_get_balance`. -/
def handleGetBalance (params : List Bytes) : RedisProg Response :=
  withAddress id params fun addr => do
    let balance ← getBalance addr rpc.evm.uninit
    let hex := (hexEncode balance.bytes 67).getD []
    return .result id (quoted (ascii "0x" ++ skipZeros (hex.drop 2)))

/-- `handle_get_transaction_count`. -/
def handleGetTransactionCount (params : List Bytes) : RedisProg Response :=
  withAddress id params fun addr => do
    let nonce ← getNonce addr
    return .result id (quotedNumber nonce)

/-- `handle_get_code`. -/
def handleGetCode (params : List Bytes) : RedisProg Response :=
  withAddress id params fun addr => do
    let code ← getCode addr
    if code.length = 0 then return .result id (ascii "\"0x\"")
    else return .result id (quotedBytes code)

/-- `handle_get_storage_at`. -/
def handleGetStorageAt (params : List Bytes) : RedisProg Response :=
  match params with
  | address :: slot :: _ =>
    match decodeExact 20 address with
    | none => return .error id (-32602) (ascii "invalid address")
    | some addr =>
      match decodeExact 32 slot with
      | none => return .error id (-32602) (ascii "invalid storage key")
      | some key => do
        let value ← getStorage addr key rpc.evm.uninit
        return .result id (quoted ((hexEncode value.bytes 67).getD []))
  | _ => return .error id (-32602) (ascii "missing parameters")

/-! ### The chain -/

/-- `handle_chain_id`. -/
def handleChainId : RedisProg Response := return .result id (quotedNumber rpc.chainId)

/-- `handle_block_number`. -/
def handleBlockNumber : RedisProg Response := do
  let num ← getBlockNumber
  return .result id (quotedNumber num)

/-- `handle_gas_price`. -/
def handleGasPrice : RedisProg Response := return .result id (quotedNumber rpc.baseFee)

/-- The object that the format string of a block spells out. -/
def blockJson (ctx : BlockContext) : Bytes :=
  123 :: joined
    [field "number" (quotedNumber ctx.number),
      field "hash" (zeroHex 64),
      field "parentHash" (zeroHex 64),
      field "nonce" (zeroHex 16),
      field "sha3Uncles" (quoted (ascii
        "0x1dcc4de8dec75d7aab85b567b6ccd41ad312451b948a7413f0a142fd40d49347")),
      field "logsBloom" (zeroHex 512),
      field "transactionsRoot" (quoted (ascii
        "0x56e81f171bcc55a6ff8345e692c0f86e5b48e01b996cadc001622fb5e363b421")),
      field "stateRoot" (zeroHex 64),
      field "receiptsRoot" (quoted (ascii
        "0x56e81f171bcc55a6ff8345e692c0f86e5b48e01b996cadc001622fb5e363b421")),
      field "miner" (zeroHex 40),
      field "difficulty" (zeroHex 1),
      field "totalDifficulty" (zeroHex 1),
      field "extraData" (zeroHex 0),
      field "size" (zeroHex 1),
      field "gasLimit" (quotedNumber ctx.gasLimit),
      field "gasUsed" (zeroHex 1),
      field "timestamp" (quotedNumber ctx.timestamp),
      field "transactions" (ascii "[]"),
      field "uncles" (ascii "[]"),
      field "baseFeePerGas" (quotedNumber ctx.baseFee)] ++ [125]

/-- `handle_get_block_by_number`, for every block; its buffer has 2048 bytes. -/
def handleGetBlockByNumber : RedisProg Response := do
  let ctx ← makeBlockContext rpc time
  return .result id ((blockJson ctx).take 2047)

/-- Some values in brackets. -/
def arrayJson (values : List Bytes) : Bytes := 91 :: joined values ++ [93]

/-- The object that the format string of the fee history spells out. -/
def feeHistoryJson (blockNum baseFee : UInt64) : Bytes :=
  123 :: joined
    [field "oldestBlock" (quotedNumber blockNum),
      field "baseFeePerGas" (arrayJson [quotedNumber baseFee, quotedNumber baseFee]),
      field "gasUsedRatio" (arrayJson [ascii "0.0"]),
      field "reward" (arrayJson [arrayJson [quotedNumber baseFee]])] ++ [125]

/-- `handle_fee_history`; its buffer has 512 bytes. -/
def handleFeeHistory : RedisProg Response := do
  let blockNum ← getBlockNumber
  return .result id ((feeHistoryJson blockNum rpc.baseFee).take 511)

/-- `handle_net_version`; its buffer has 32 bytes. -/
def handleNetVersion : RedisProg Response :=
  return .result id ((quoted (decimal rpc.chainId.toNat)).take 31)

/-- `handle_web3_client_version`. -/
def handleWeb3ClientVersion : RedisProg Response := return .result id (ascii "\"evmdb/0.2.0\"")

/-! ### Calls -/

/-- What a call is made with. -/
structure CallArgs where
  fromAddr : Address
  toAddr : Address
  data : Bytes
  gas : UInt64

/-- The arguments of a call, or the error message. -/
def callArgs (gasLimit : UInt64) (request : Bytes) : Except Bytes CallArgs :=
  match extractParamFieldString request (ascii "to") with
  | none => .error (ascii "missing to address")
  | some toHex =>
    match decodeExact 20 toHex with
    | none => .error (ascii "invalid to address")
    | some toAddr =>
      match (extractParamFieldString request (ascii "from")).elim (some (.zero 20))
          (decodeExact 20) with
      | none => .error (ascii "invalid from address")
      | some fromAddr =>
        match decodeHexBytes (extractParamFieldString request (ascii "data")) with
        | none => .error (ascii "invalid call data")
        | some data =>
          .ok ⟨fromAddr, toAddr, data,
            parseHexUint64Or (extractParamFieldString request (ascii "gas")) gasLimit⟩

/-- The message of a result, or what is said if there is none. -/
def errorOr (result : ExecResult) (text : Bytes) : Bytes :=
  if result.error = [] then text else result.error

/-- The response to a call that has been made. -/
def callResponse (rc : ℤ) (result : ExecResult) : Response :=
  if rc ≠ 0 then .error id (-32603) (errorOr result (ascii "execution failed"))
  else if result.success = false then
    .error id (-32000) (errorOr result (ascii "execution reverted"))
  else if result.output.length = 0 then .result id (ascii "\"0x\"")
  else .result id (quotedBytes result.output)

/-- `handle_call`. -/
def handleCall (request : Bytes) : RedisProg Response := do
  let blockCtx ← makeBlockContext rpc time
  match callArgs rpc.gasLimit request with
  | .error message => return .error id (-32602) message
  | .ok args => do
    let (rc, result) ←
      evmCall rpc.evm args.fromAddr args.toAddr args.data (some blockCtx) args.gas .zero
    return callResponse id rc result

/-- `handle_estimate_gas`. -/
def handleEstimateGas (request : Bytes) : RedisProg Response :=
  match extractParamFieldString request (ascii "data") with
  | none => return .result id (quotedNumber 21000)
  | some dataHex =>
    let (byteLen, data) := hexDecode dataHex (dataHex.length / 2)
    if byteLen < 0 then return .error id (-32602) (ascii "invalid transaction data")
    else return .result id (quotedNumber (intrinsicGasForData (data.take byteLen.toNat)))

/-! ### Receipts -/

/-- The C string in a buffer: it is read up to the first NUL. -/
def stringAt (buffer : Bytes) : Read Bytes :=
  if 0 ∈ buffer then .ok (cstr buffer) else .outside buffer.length

/-- `handle_get_transaction_receipt`: the buffer of a receipt has the size of the receipt. -/
def handleGetTransactionReceipt (params : List Bytes) : RedisProg (Read Response) :=
  match params with
  | [] => return .ok (.error id (-32602) (ascii "missing transaction hash parameter"))
  | param :: _ =>
    match decodeExact 32 param with
    | none => return .ok (.error id (-32602) (ascii "invalid transaction hash"))
    | some txHash => do
      let receipt ← getReceipt txHash
      if receipt.length = 0 then return .ok (.result id (ascii "null"))
      else return (stringAt receipt >>= fun text => .ok (.result id text))

end EvmDb.Handlers
