import EvmDb.Rpc.Dispatch

/-!
Which requests write to the store.

Every handler but one only reads. A call runs a contract like a transaction does, but its overlay
is not committed.
-/

namespace EvmDb.ReadOnly

open EvmDb.Types EvmDb.Program EvmDb.Redis EvmDb.RedisState EvmDb.Host EvmDb.Executor EvmDb.Plan
open EvmDb.Request EvmDb.Json EvmDb.SendRaw EvmDb.Handlers EvmDb.Dispatch

variable {rpc : Rpc} {time : UInt64} {id : Bytes}

/-- A program that only reads. -/
abbrev OnlyReads {α : Type} (p : RedisProg α) : Prop := Issues Reads (fun _ => True) p

lemma onlyReads_determined {p : RedisProg Response} (hp : OnlyReads p) : OnlyReads (determined p) :=
  hp.bind fun _ _ => trivial

lemma onlyReads_withAddress {params : List Bytes} {handle : Address → RedisProg Response}
    (hh : ∀ addr, OnlyReads (handle addr)) : OnlyReads (withAddress id params handle) := by
  unfold withAddress
  split
  · trivial
  · split
    · trivial
    · exact hh _

lemma onlyReads_getCode (params : List Bytes) : OnlyReads (handleGetCode id params) :=
  onlyReads_withAddress fun addr => issues_read (P := Reads) rfl _ fun code => by
    split_ifs <;> trivial

lemma onlyReads_getStorageAt (params : List Bytes) :
    OnlyReads (handleGetStorageAt rpc id params) := by
  unfold handleGetStorageAt
  split
  · split
    · trivial
    · split
      · trivial
      · exact ⟨rfl, fun _ => trivial⟩
  · trivial

/-- **A call writes nothing**, whatever the contract does: its overlay is dropped. -/
theorem onlyReads_evmCall (evm : Evm) (fromAddr toAddr : Address) (data : Bytes)
    (blockCtx : Option BlockContext) (gas : UInt64) (result : ExecResult) :
    OnlyReads (evmCall evm fromAddr toAddr data blockCtx gas result) := by
  unfold evmCall
  split_ifs
  · trivial
  · rw [executeContract_eq]
    have hplan := @issues_planContract_of evm (fun p => p.writes = []) (fun _ _ => rfl)
      blockCtx fromAddr fromAddr toAddr data (.zero 32) gas 1 false nofun result
    refine (reads_of_stateReads hplan).bind fun p hp => ?_
    unfold finish
    rw [hp]
    trivial

lemma onlyReads_call (request : Bytes) : OnlyReads (handleCall rpc time id request) := by
  refine ⟨rfl, fun r => ?_⟩
  dsimp only
  split
  · trivial
  · exact (onlyReads_evmCall _ _ _ _ _ _ _).bind fun _ _ => trivial

lemma onlyReads_estimateGas (request : Bytes) : OnlyReads (handleEstimateGas id request) := by
  unfold handleEstimateGas
  split
  · trivial
  · dsimp only
    split <;> trivial

lemma onlyReads_getTransactionReceipt (params : List Bytes) :
    OnlyReads (handleGetTransactionReceipt id params) := by
  unfold handleGetTransactionReceipt
  split
  · trivial
  · split
    · trivial
    · exact issues_read (P := Reads) rfl _ fun receipt => by split_ifs <;> trivial

/-- A request with any other method only reads. -/
lemma onlyReads_dispatchSingle (parser : TxParser) {request : Bytes}
    (h : methodOf request ≠ ascii "eth_sendRawTransaction") :
    OnlyReads (dispatchSingle rpc parser time request) := by
  refine dispatchSingle_of rpc parser time request trivial ?_
  simp only [handlers, List.forall_mem_cons, List.not_mem_nil, false_implies, implies_true,
    and_true]
  -- a handler that reads at most once is seen to do so; the others have lemmas
  refine ⟨fun _ => trivial, fun _ => ⟨rfl, fun _ => trivial⟩, fun _ => trivial,
    fun _ => onlyReads_determined (onlyReads_withAddress fun _ => ⟨rfl, fun _ => trivial⟩),
    fun _ => onlyReads_determined (onlyReads_withAddress fun _ => ⟨rfl, fun _ => trivial⟩),
    fun _ => onlyReads_determined (onlyReads_getCode _), fun hm => absurd hm h,
    fun _ => trivial, fun _ => trivial, fun _ => onlyReads_determined (onlyReads_call _),
    fun _ => onlyReads_determined (onlyReads_estimateGas _), fun _ => ⟨rfl, fun _ => trivial⟩,
    fun _ => ⟨rfl, fun _ => trivial⟩, fun _ => trivial,
    fun _ => onlyReads_getTransactionReceipt _, fun _ => trivial,
    fun _ => ⟨rfl, fun _ => trivial⟩, fun _ => trivial, fun _ => trivial, fun _ => trivial,
    fun _ => trivial, fun _ => trivial, fun _ => onlyReads_determined (onlyReads_getStorageAt _),
    fun _ => trivial, fun _ => trivial, fun _ => trivial⟩

/-- **Only `eth_sendRawTransaction` changes the store.** A request from which it is not dispatched
leaves the store as it is, whatever contracts it runs. -/
theorem only_send_writes (rpc : Rpc) (parser : TxParser) (clock : ℕ → UInt64) (request : Bytes)
    (s : Store) (h : ∀ item ∈ dispatched request, methodOf item ≠ ascii "eth_sendRawTransaction") :
    (run server (handleRequest rpc parser clock request) s).2 = s := by
  refine handleRequest_keeps rpc parser request (I := fun s' => s' = s) ?_ clock rfl
  rintro item hitem time s' rfl
  exact (run_reads (onlyReads_dispatchSingle parser (h item hitem)) s').1

/-- An interpreter to which every code writes to the first slot of its account. -/
def writing : Evm where
  realloc := fun _ => true
  uninit := .zero 32
  initialized := true
  execute := fun msg _ => .cmd (.setStorage msg.recipient (.zero 32) (bytes32FromUint64 1))
    fun _ => .ret ⟨0, 0, []⟩
  statusCodeToString := fun _ => []

/-- A store with a contract at the address zero. -/
def contractStore : Store := put (fun _ => none) (codeCell (.zero 20)) [0]

/-- A call of the contract at the address zero. -/
def callRequest : Bytes := ascii
  "\x7b\"method\":\"eth_call\",\"params\":[\x7b\"to\":\"0x0000000000000000000000000000000000000000\"\x7d]\x7d"

/-- The contract is run, and its write is dropped. -/
theorem only_send_writes_call :
    (run server (handleRequest ⟨writing, 1, 21000, 0⟩ plainParser (fun _ => 0) callRequest)
      contractStore).2 = contractStore :=
  only_send_writes _ _ _ _ _ (by decide)

end EvmDb.ReadOnly
