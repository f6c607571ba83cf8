import EvmDb.Lib.Radix
import EvmDb.Lib.Digits
import EvmDb.Lib.Rlp
import EvmDb.Lib.Checked
import EvmDb.Lib.Program
import EvmDb.Lib.Redis
import EvmDb.Lib.Redo
import EvmDb.Lib.Footprints
import EvmDb.Lib.Machines
import EvmDb.Lib.Counters
import EvmDb.Lib.Threads
import EvmDb.Lib.Paths
import EvmDb.Lib.Turns
import EvmDb.Lib.JsonText
import EvmDb.Lib.JsonScan
import EvmDb.Lib.JsonTokens
import EvmDb.Lib.KeccakF
import EvmDb.Lib.Ripple
import EvmDb.Lib.Routines
import EvmDb.Types
import EvmDb.Core.Keccak
import EvmDb.Core.KeccakReference
import EvmDb.Core.Hex
import EvmDb.Core.HexCodec
import EvmDb.Core.ConfigFile
import EvmDb.Block.RlpReader
import EvmDb.Block.TxDecode
import EvmDb.Block.RlpBuffer
import EvmDb.Block.TxSigning
import EvmDb.Block.TxRecover
import EvmDb.Block.TxItems
import EvmDb.Block.TxReads
import EvmDb.Block.StringItems
import EvmDb.Block.TxRoundTrip
import EvmDb.Block.TxAccessList
import EvmDb.Block.TxCanonical
import EvmDb.State.RedisState
import EvmDb.State.Layout
import EvmDb.State.Balances
import EvmDb.Evm.Host
import EvmDb.Evm.Executor
import EvmDb.Evm.Plan
import EvmDb.Evm.Effects
import EvmDb.Evm.Gas
import EvmDb.Evm.AccountView
import EvmDb.Evm.Overlay
import EvmDb.Evm.Ledger
import EvmDb.Evm.StorageStatus
import EvmDb.Evm.WriteFaults
import EvmDb.Evm.ReadFaults
import EvmDb.Evm.ChainId
import EvmDb.Evm.Immutable
import EvmDb.Evm.CreateAddress
import EvmDb.Evm.Commute
import EvmDb.Evm.BaseFee
import EvmDb.Rpc.Request
import EvmDb.Rpc.Json
import EvmDb.Rpc.FirstParam
import EvmDb.Rpc.RequestFields
import EvmDb.Rpc.SendRaw
import EvmDb.Rpc.TxEnvironment
import EvmDb.Rpc.Concurrent
import EvmDb.Rpc.BlockNumbers
import EvmDb.Rpc.Handlers
import EvmDb.Rpc.Quantities
import EvmDb.Rpc.IntrinsicGas
import EvmDb.Rpc.Dispatch
import EvmDb.Rpc.Batch
import EvmDb.Rpc.Params
import EvmDb.Rpc.ReadOnly
import EvmDb.Rpc.Chain
import EvmDb.Rpc.History
import EvmDb.Rpc.WriteOrder
import EvmDb.Rpc.Retries
import EvmDb.Rpc.Interleaved
import EvmDb.Rpc.Linearizable
import EvmDb.Rpc.Serialized
import EvmDb.Rpc.Signatures
import EvmDb.Rpc.GasLimit
import EvmDb.Rpc.Receipts
import EvmDb.Rpc.Responses
import EvmDb.Rpc.JsonResponses
import EvmDb.Rpc.BatchBuffer
import EvmDb.Rpc.Server
import EvmDb.Rpc.Segments
import EvmDb.Rpc.Wire
import EvmDb.Rpc.Http
