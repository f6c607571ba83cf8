import EvmDb.Rpc.Handlers

/-!
`dispatch_single` and `evmdb_rpc_handle_request` of `src/rpc/handlers.c`.

A batch is cut into items by counting braces. Its items are handled one after the other, and each
reads the clock when its turn comes.
-/

namespace EvmDb.Dispatch

open EvmDb.Checked EvmDb.Types EvmDb.Hex EvmDb.Program EvmDb.Redis EvmDb.Request EvmDb.Json
open EvmDb.SendRaw EvmDb.Handlers

/-! ### A single request -/

/-- A response that reads nothing outside a buffer. -/
def determined (p : RedisProg Response) : RedisProg (Read Response) := do
  let response ← p
  return .ok response

/-- A response that is always the same. -/
def constant (id : Bytes) (value : String) : RedisProg (Read Response) :=
  determined (return .result id (ascii value))

/-- The methods and their handlers, in the order of the comparisons. -/
def handlers (rpc : Rpc) (parser : TxParser) (time : UInt64) (id : Bytes) (params : List Bytes)
    (request : Bytes) : List (Bytes × RedisProg (Read Response)) :=
  [(ascii "eth_chainId", determined (handleChainId rpc id)),
    (ascii "eth_blockNumber", determined (handleBlockNumber id)),
    (ascii "eth_gasPrice", determined (handleGasPrice rpc id)),
    (ascii "eth_getBalance", determined (handleGetBalance rpc id params)),
    (ascii "eth_getTransactionCount", determined (handleGetTransactionCount id params)),
    (ascii "eth_getCode", determined (handleGetCode id params)),
    (ascii "eth_sendRawTransaction",
      determined (handleSendRawTransaction rpc parser time id request)),
    (ascii "net_version", determined (handleNetVersion rpc id)),
    (ascii "web3_clientVersion", determined (handleWeb3ClientVersion id)),
    (ascii "eth_call", determined (handleCall rpc time id request)),
    (ascii "eth_estimateGas", determined (handleEstimateGas id request)),
    (ascii "eth_getBlockByNumber", determined (handleGetBlockByNumber rpc time id)),
    (ascii "eth_getBlockByHash", determined (handleGetBlockByNumber rpc time id)),
    (ascii "eth_getTransactionByHash", constant id "null"),
    (ascii "eth_getTransactionReceipt", handleGetTransactionReceipt id params),
    (ascii "eth_getLogs", constant id "[]"),
    (ascii "eth_feeHistory", determined (handleFeeHistory rpc id)),
    (ascii "eth_maxPriorityFeePerGas",
      determined (return .result id (quotedNumber rpc.baseFee))),
    (ascii "eth_accounts", constant id "[]"),
    (ascii "eth_syncing", constant id "false"),
    (ascii "eth_mining", constant id "false"),
    (ascii "eth_hashrate", constant id "\"0x0\""),
    (ascii "eth_getStorageAt", determined (handleGetStorageAt rpc id params)),
    (ascii "eth_getBlockTransactionCountByNumber", constant id "\"0x0\""),
    (ascii "eth_protocolVersion", constant id "\"0x42\""),
    (ascii "eth_subscribe",
      determined (return .error id (-32601) (ascii "subscriptions not supported over HTTP")))]

/-- The method of a request. -/
def methodOf (request : Bytes) : Bytes := (jsonParseMethod request 64 32).1

/-- The id of a request. -/
def idOf (request : Bytes) : Bytes := (jsonParseMethod request 64 32).2

/-- `dispatch_single`. -/
def dispatchSingle (rpc : Rpc) (parser : TxParser) (time : UInt64) (request : Bytes) :
    RedisProg (Read Response) :=
  let id := idOf request
  let params := jsonParseParams request 8
  ((handlers rpc parser time id params request).lookup (methodOf request)).getD
    (determined (return .error id (-32601) (ascii "method not found")))

/-! ### Batches -/

/-- A space, a tab or the end of a line. -/
def isWhitespace (c : UInt8) : Bool := c = 32 ∨ c = 9 ∨ c = 10 ∨ c = 13

/-- The items of a batch, with the depth of the braces and the item so far. A brace in a string
counts, and what stands between items is passed over. -/
def batchItems : ℕ → Bytes → Bytes → List Bytes
  | 0, _, [] => []
  | 0, _, c :: p =>
    if c = 93 then []
    else if c = 123 then batchItems 1 [123] p
    else batchItems 0 [] p
  | _ + 1, item, [] => [item]
  | depth + 1, item, c :: p =>
    if c = 123 then batchItems (depth + 2) (item ++ [c]) p
    else if c = 125 then
      if depth = 0 then (item ++ [c]) :: batchItems 0 [] p else batchItems depth (item ++ [c]) p
    else batchItems (depth + 1) (item ++ [c]) p

/-- The requests that are dispatched for a text. -/
def dispatched (request : Bytes) : List Bytes :=
  match (cstr request).dropWhile isWhitespace with
  | 91 :: p => batchItems 0 [] p
  | single => [single]

/-- Some requests, one after the other. -/
def dispatchAll (rpc : Rpc) (parser : TxParser) :
    (ℕ → UInt64) → List Bytes → RedisProg (List (Read Response))
  | _, [] => return []
  | clock, item :: items => do
    let response ← dispatchSingle rpc parser (clock 0) item
    let responses ← dispatchAll rpc parser (fun n => clock (n + 1)) items
    return response :: responses

/-- The text of the responses to a batch. -/
def batchText (responses : List (Read Response)) : Read Bytes := do
  let responses ← responses.mapM id
  return arrayJson (responses.map Response.text)

/-- `evmdb_rpc_handle_request`. -/
def handleRequest (rpc : Rpc) (parser : TxParser) (clock : ℕ → UInt64) (request : Bytes) :
    RedisProg (Read Bytes) :=
  match (cstr request).dropWhile isWhitespace with
  | 91 :: p => do
    let responses ← dispatchAll rpc parser clock (batchItems 0 [] p)
    return batchText responses
  | single => do
    let response ← dispatchSingle rpc parser (clock 0) single
    return (response >>= fun r => .ok r.text)

example : dispatched (ascii " [\x7b\"id\":1\x7d, \x7b\"a\":\x7b\x7d\x7d]") =
    [ascii "\x7b\"id\":1\x7d", ascii "\x7b\"a\":\x7b\x7d\x7d"] := by decide

/-! ### One case for every handler -/

variable (rpc : Rpc) (parser : TxParser) (time : UInt64) (request : Bytes)

/-- What holds of all handlers of a method, and of the response to an unknown method, holds of a
request with the method. -/
lemma dispatchSingle_of {P : RedisProg (Read Response) → Prop}
    (hnone : P (determined (return .error (idOf request) (-32601) (ascii "method not found"))))
    (hsome : ∀ h ∈ handlers rpc parser time (idOf request) (jsonParseParams request 8) request,
      methodOf request = h.1 → P h.2) : P (dispatchSingle rpc parser time request) := by
  unfold dispatchSingle
  dsimp only
  generalize handlers rpc parser time (idOf request) (jsonParseParams request 8) request =
    hs at hsome
  induction hs with
  | nil => exact hnone
  | cons h hs ih =>
    rw [List.lookup_cons]
    by_cases hm : methodOf request = h.1
    · rw [hm, beq_self_eq_true]
      exact hsome h List.mem_cons_self hm
    · rw [beq_false_of_ne hm]
      exact ih fun h' hh => hsome h' (List.mem_cons_of_mem _ hh)

lemma dispatchSingle_send (h : methodOf request = ascii "eth_sendRawTransaction") :
    dispatchSingle rpc parser time request =
      determined (handleSendRawTransaction rpc parser time (idOf request) request) := by
  unfold dispatchSingle
  rw [h]
  rfl

lemma dispatchSingle_call (h : methodOf request = ascii "eth_call") :
    dispatchSingle rpc parser time request =
      determined (handleCall rpc time (idOf request) request) := by
  unfold dispatchSingle
  rw [h]
  rfl

lemma dispatchSingle_getTransactionReceipt
    (h : methodOf request = ascii "eth_getTransactionReceipt") :
    dispatchSingle rpc parser time request =
      handleGetTransactionReceipt (idOf request) (jsonParseParams request 8) := by
  unfold dispatchSingle
  rw [h]
  rfl

lemma run_determined {σ : Type} (h : Handler Command (fun _ => Option Reply) σ)
    (p : RedisProg Response) (s : σ) :
    run h (determined p) s = (.ok (run h p s).1, (run h p s).2) := by
  unfold determined
  rw [run_bind]
  rfl

/-! ### One step for every item -/

/-- What every request of a list keeps, the list keeps. -/
lemma dispatchAll_keeps {I : Store → Prop} {items : List Bytes}
    (h : ∀ item ∈ items, ∀ time s, I s → I (run server (dispatchSingle rpc parser time item) s).2)
    (clock : ℕ → UInt64) {s : Store} (hs : I s) :
    I (run server (dispatchAll rpc parser clock items) s).2 := by
  induction items generalizing clock s with
  | nil => exact hs
  | cons item items ih =>
    unfold dispatchAll
    rw [run_bind, run_bind]
    exact ih (fun item' hi => h item' (List.mem_cons_of_mem _ hi)) _
      (h item List.mem_cons_self _ s hs)

/-- A request is a batch or a single one. -/
lemma handleRequest_cases (clock : ℕ → UInt64) :
    handleRequest rpc parser clock request =
        (dispatchAll rpc parser clock (dispatched request) >>= fun responses =>
          return batchText responses) ∨
      ∃ single, dispatched request = [single] ∧ handleRequest rpc parser clock request =
        (dispatchSingle rpc parser (clock 0) single >>= fun response =>
          return (response >>= fun r => .ok r.text)) := by
  unfold dispatched handleRequest
  generalize (cstr request).dropWhile isWhitespace = text
  cases text with
  | nil => exact Or.inr ⟨[], rfl, rfl⟩
  | cons c p =>
    by_cases hc : c = 91
    · subst hc
      exact Or.inl rfl
    · refine Or.inr ⟨c :: p, ?_, ?_⟩ <;> split
      any_goals rfl
      all_goals
        rename_i h
        exact absurd (List.cons.inj h).1 hc

/-- **What every dispatched request keeps, the whole request keeps.** -/
theorem handleRequest_keeps {I : Store → Prop}
    (h : ∀ item ∈ dispatched request, ∀ time s, I s →
      I (run server (dispatchSingle rpc parser time item) s).2)
    (clock : ℕ → UInt64) {s : Store} (hs : I s) :
    I (run server (handleRequest rpc parser clock request) s).2 := by
  rcases handleRequest_cases rpc parser request clock with hrun | ⟨single, hitems, hrun⟩
  · rw [hrun, run_bind]
    exact dispatchAll_keeps rpc parser h _ hs
  · rw [hrun, run_bind]
    exact h single (hitems ▸ List.mem_singleton.mpr rfl) _ s hs

end EvmDb.Dispatch
