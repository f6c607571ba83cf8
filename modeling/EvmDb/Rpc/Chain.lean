import EvmDb.Lib.Machines
import EvmDb.Evm.Ledger
import EvmDb.Rpc.Dispatch

/-!
The server as a machine on the state of the chain.

A request is answered from the components of the chain, and a transaction that is executed makes
the next state. The handlers of `src/rpc/handlers.c` on a store refine this: what they answer, and
what becomes of the components, depends on nothing else in the store.
-/

namespace EvmDb.Chain

open EvmDb.Checked EvmDb.Types EvmDb.Digits EvmDb.Hex EvmDb.Program EvmDb.Redis EvmDb.RedisState
open EvmDb.StateLayout EvmDb.Executor EvmDb.Effects EvmDb.Ledger EvmDb.Request EvmDb.Json
open EvmDb.SendRaw EvmDb.Handlers EvmDb.Dispatch

variable (rpc : Rpc) (parser : TxParser) (time : UInt64)

/-! ### Transactions -/

/-- The transaction a request carries, or what is said of a request without one. -/
def readTransaction (request : Bytes) : Except Bytes Tx :=
  match extractFirstParamString (cstr request) with
  | none => .error (ascii "missing raw transaction parameter")
  | some rawHex =>
    let (byteLen, raw) := hexDecode rawHex (rawHex.length / 2)
    if byteLen ≤ 0 then .error (ascii "invalid hex data")
    else
      match parser.decode (raw.take byteLen.toNat) with
      | none => .error (ascii "failed to decode transaction")
      | some tx =>
        match parser.recoverSender tx with
        | none => .error (ascii "failed to recover sender")
        | some tx => .ok tx

/-- The block that a request sees. -/
def blockOf (t : State) : BlockContext := blockContext rpc time (t .blockNumber)

/-- The state after a transaction has become the next block. -/
def mine (tx : Tx) (number : UInt64) (success : Bool) (gasUsed : UInt64) (t : State) : State :=
  Function.update (Function.update t .blockNumber number) (.receipt tx.hash)
    (receiptFor rpc tx number success gasUsed).json

/-- The answer to a request: the response, the transactions it has executed, the next state. -/
structure Answer where
  response : Read Response
  mined : List Tx
  state : State

/-- An answer that leaves the chain as it is. -/
def same (t : State) (response : Response) : Answer := ⟨.ok response, [], t⟩

/-- The answer to a request that sends this transaction: it is executed as the next block. -/
def sendTx (id : Bytes) (tx : Tx) (t : State) : Answer :=
  match transact rpc.evm (blockOf rpc time t) tx t with
  | .error message => same t (.error id (-32603) message)
  | .ok (success, gasUsed, t') =>
    ⟨.ok (.result id (quoted (hashToHex tx.hash))), [tx],
      mine rpc tx (t .blockNumber + 1) success gasUsed t'⟩

/-- The answer to a request that sends a transaction. -/
def send (id request : Bytes) (t : State) : Answer :=
  match readTransaction parser request with
  | .error message => same t (.error id (-32602) message)
  | .ok tx => sendTx rpc time id tx t

/-! ### Queries -/

/-- The response about an account. -/
def aboutAccount (id : Bytes) (params : List Bytes) (value : Address → Bytes) : Response :=
  match params with
  | [] => .error id (-32602) (ascii "missing address parameter")
  | param :: _ =>
    match decodeExact 20 param with
    | none => .error id (-32602) (ascii "invalid address")
    | some addr => .result id (value addr)

/-- The response about a slot. -/
def aboutSlot (id : Bytes) (params : List Bytes) (t : State) : Response :=
  match params with
  | address :: slot :: _ =>
    match decodeExact 20 address with
    | none => .error id (-32602) (ascii "invalid address")
    | some addr =>
      match decodeExact 32 slot with
      | none => .error id (-32602) (ascii "invalid storage key")
      | some key => .result id (quoted (bytes32ToHex (t (.storage addr key))))
  | _ => .error id (-32602) (ascii "missing parameters")

/-- The response about a receipt; a text without a NUL is read beyond its end. -/
def aboutReceipt (id : Bytes) (params : List Bytes) (t : State) : Read Response :=
  match params with
  | [] => .ok (.error id (-32602) (ascii "missing transaction hash parameter"))
  | param :: _ =>
    match decodeExact 32 param with
    | none => .ok (.error id (-32602) (ascii "invalid transaction hash"))
    | some txHash =>
      if t (.receipt txHash) = ([] : Bytes) then .ok (.result id (ascii "null"))
      else stringAt (t (.receipt txHash)) >>= fun text => .ok (.result id text)

/-- The response to a call: the code is executed, and the next state is dropped. -/
def callOn (id request : Bytes) (t : State) : Response :=
  match callArgs rpc.gasLimit request with
  | .error message => .error id (-32602) message
  | .ok args =>
    if rpc.evm.initialized = false then .error id (-32603) (ascii "EVM not initialized")
    else
      match execute rpc.evm (blockOf rpc time t)
          ⟨args.fromAddr, args.toAddr, args.data, args.gas, 1⟩ t with
      | .error message =>
        .error id (-32603) (if message = [] then ascii "execution failed" else message)
      | .ok (result, _) => callResponse id 0 result

/-- The response to an estimate: the gas of some data before anything is executed. -/
def estimate (id request : Bytes) : Response :=
  match extractParamFieldString request (ascii "data") with
  | none => .result id (quotedNumber 21000)
  | some dataHex =>
    let (byteLen, data) := hexDecode dataHex (dataHex.length / 2)
    if byteLen < 0 then .error id (-32602) (ascii "invalid transaction data")
    else .result id (quotedNumber (intrinsicGasForData (data.take byteLen.toNat)))

/-- The methods and their answers. -/
def answers (id : Bytes) (params : List Bytes) (request : Bytes) (t : State) :
    List (Bytes × Answer) :=
  let constant (value : Bytes) : Answer := same t (.result id value)
  let block := constant ((blockJson (blockOf rpc time t)).take 2047)
  [(ascii "eth_chainId", constant (quotedNumber rpc.chainId)),
    (ascii "eth_blockNumber", constant (quotedNumber (t .blockNumber))),
    (ascii "eth_gasPrice", constant (quotedNumber rpc.baseFee)),
    (ascii "eth_getBalance", same t (aboutAccount id params fun addr =>
      quoted (ascii "0x" ++ skipZeros ((bytes32ToHex (t (.balance addr))).drop 2)))),
    (ascii "eth_getTransactionCount", same t (aboutAccount id params fun addr =>
      quotedNumber (t (.nonce addr)))),
    (ascii "eth_getCode", same t (aboutAccount id params fun addr =>
      if t (.code addr) = ([] : Bytes) then ascii "\"0x\"" else quotedBytes (t (.code addr)))),
    (ascii "eth_sendRawTransaction", send rpc parser time id request t),
    (ascii "net_version", constant ((quoted (decimal rpc.chainId.toNat)).take 31)),
    (ascii "web3_clientVersion", constant (ascii "\"evmdb/0.2.0\"")),
    (ascii "eth_call", same t (callOn rpc time id request t)),
    (ascii "eth_estimateGas", same t (estimate id request)),
    (ascii "eth_getBlockByNumber", block),
    (ascii "eth_getBlockByHash", block),
    (ascii "eth_getTransactionByHash", constant (ascii "null")),
    (ascii "eth_getTransactionReceipt", ⟨aboutReceipt id params t, [], t⟩),
    (ascii "eth_getLogs", constant (ascii "[]")),
    (ascii "eth_feeHistory",
      constant ((feeHistoryJson (t .blockNumber) rpc.baseFee).take 511)),
    (ascii "eth_maxPriorityFeePerGas", constant (quotedNumber rpc.baseFee)),
    (ascii "eth_accounts", constant (ascii "[]")),
    (ascii "eth_syncing", constant (ascii "false")),
    (ascii "eth_mining", constant (ascii "false")),
    (ascii "eth_hashrate", constant (ascii "\"0x0\"")),
    (ascii "eth_getStorageAt", same t (aboutSlot id params t)),
    (ascii "eth_getBlockTransactionCountByNumber", constant (ascii "\"0x0\"")),
    (ascii "eth_protocolVersion", constant (ascii "\"0x42\"")),
    (ascii "eth_subscribe",
      same t (.error id (-32601) (ascii "subscriptions not supported over HTTP")))]

/-- The answer to a request that is dispatched. -/
def answer (request : Bytes) (t : State) : Answer :=
  let id := idOf request
  ((answers rpc parser time id (jsonParseParams request 8) request t).lookup
      (methodOf request)).getD
    (same t (.error id (-32601) (ascii "method not found")))

/-- Some requests, one after the other. -/
def answerAll : (ℕ → UInt64) → List Bytes → State → List (Read Response) × List Tx × State
  | _, [], t => ([], [], t)
  | clock, item :: items, t =>
    let a := answer rpc parser (clock 0) item t
    let (responses, mined, t') := answerAll (fun n => clock (n + 1)) items a.state
    (a.response :: responses, a.mined ++ mined, t')

/-- A request, and the clock while it is handled. -/
structure Input where
  clock : ℕ → UInt64
  text : Bytes

/-- The machine on the chain: the text of the response, and the transactions executed. -/
def chain : Machines.Machine Input (Read Bytes × List Tx) State := fun i t =>
  match (cstr i.text).dropWhile isWhitespace with
  | 91 :: p =>
    let (responses, mined, t') := answerAll rpc parser i.clock (batchItems 0 [] p) t
    ((batchText responses, mined), t')
  | single =>
    let a := answer rpc parser (i.clock 0) single t
    ((a.response >>= fun r => .ok r.text, a.mined), a.state)

/-- The machine on a store: `evmdb_rpc_handle_request`. -/
def served : Machines.Machine Input (Read Bytes) Store := fun i s =>
  run server (handleRequest rpc parser i.clock i.text) s

/-! ### A request that sends a transaction -/

/-- How the run of a handler on a store shows on the components. -/
structure Shows (out : Bytes32) (y : Read Response × Store) (a : Answer) : Prop where
  response : y.1 = a.response
  state : chainOf out y.2 = a.state

variable {rpc parser time}

/-- A handler that leaves the store as it is. -/
lemma shows_same {out : Bytes32} {s : Store} {r r' : Response} (h : r = r') :
    Shows out (.ok r, s) (same (chainOf out s) r') := ⟨congrArg Read.ok h, rfl⟩

/-- The handler reads the transaction of a request. -/
lemma handleSendRawTransaction_read (id request : Bytes) :
    handleSendRawTransaction rpc parser time id request =
      match readTransaction parser request with
      | .error message => .ret (.error id (-32602) message)
      | .ok tx => executeAndRecord rpc time id tx := by
  unfold handleSendRawTransaction readTransaction
  rcases extractFirstParamString (cstr request) with _ | rawHex
  · rfl
  dsimp only
  rcases hexDecode rawHex (rawHex.length / 2) with ⟨byteLen, raw⟩
  dsimp only
  by_cases hlen : byteLen ≤ 0
  · rw [if_pos hlen, if_pos hlen]
    rfl
  rw [if_neg hlen, if_neg hlen]
  rcases parser.decode (raw.take byteLen.toNat) with _ | tx
  · rfl
  dsimp only
  rcases parser.recoverSender tx with _ | tx'
  · rfl
  · rfl

/-- **`eth_sendRawTransaction` on a store is sending on the chain.** -/
lemma run_send (hr : ∀ n, rpc.evm.realloc n = true) (id request : Bytes) (s : Store) :
    Shows rpc.evm.uninit
      (run server (determined (handleSendRawTransaction rpc parser time id request)) s)
      (send rpc parser time id request (chainOf rpc.evm.uninit s)) := by
  rw [run_determined, handleSendRawTransaction_read]
  unfold send
  cases readTransaction parser request with
  | error message => exact shows_same rfl
  | ok tx =>
    dsimp only
    unfold sendTx
    rw [run_executeAndRecord]
    have hshows := run_executeTx_shows hr (contextOn rpc time s) tx s
    have hblock : blockOf rpc time (chainOf rpc.evm.uninit s) = contextOn rpc time s := rfl
    rw [hblock]
    revert hshows
    generalize run server (executeTx rpc.evm tx (some (contextOn rpc time s)) .zero) s = y
    generalize transact rpc.evm (contextOn rpc time s) tx _ = done
    obtain ⟨⟨rc, result⟩, s₁⟩ := y
    intro hshows
    cases done with
    | error message =>
      obtain ⟨hrc, rfl, rfl⟩ := hshows
      dsimp only at hrc ⊢
      rw [if_pos hrc]
      exact shows_same rfl
    | ok e =>
      obtain ⟨hrc, hsuccess, hgas, hstate⟩ := hshows
      dsimp only at hrc hsuccess hgas hstate ⊢
      rw [if_neg (not_not_intro hrc), hsuccess, hgas, ← hstate, Receipt.text_eq]
      refine ⟨rfl, ?_⟩
      unfold mine
      rw [← chainOf_put s₁ .blockNumber]
      exact chainOf_put _ (.receipt tx.hash) _

/-! ### Queries on a store -/

/-- A handler that answers from the components. -/
lemma run_query {out : Bytes32} {p : RedisProg Response} {s : Store} {r : Response}
    (h : run server p s = (r, s)) :
    Shows out (run server (determined p) s) (same (chainOf out s) r) := by
  rw [run_determined, h]
  exact shows_same rfl

lemma run_withAddress {id : Bytes} {params : List Bytes} {handle : Address → RedisProg Response}
    {value : Address → Bytes} {s : Store}
    (h : ∀ addr, run server (handle addr) s = (.result id (value addr), s)) :
    run server (withAddress id params handle) s = (aboutAccount id params value, s) := by
  unfold withAddress aboutAccount
  cases params with
  | nil => rfl
  | cons param params =>
    dsimp only
    cases decodeExact 20 param with
    | none => rfl
    | some addr => exact h addr

lemma run_getCode_query (id : Bytes) (params : List Bytes) (out : Bytes32) (s : Store) :
    run server (handleGetCode id params) s =
      (aboutAccount id params fun addr =>
        if chainOf out s (.code addr) = ([] : Bytes) then ascii "\"0x\""
        else quotedBytes (chainOf out s (.code addr)), s) := by
  refine run_withAddress fun addr => ?_
  have hcode : run server (getCode addr) s = (storedCode s addr, s) := rfl
  rw [run_bind, hcode, chainOf_code]
  dsimp only
  by_cases hnone : storedCode s addr = []
  · rw [if_pos hnone, if_pos (List.length_eq_zero_iff.mpr hnone)]
    rfl
  · rw [if_neg hnone, if_neg fun h => hnone (List.length_eq_zero_iff.mp h)]
    rfl

lemma run_getStorageAt_query (id : Bytes) (params : List Bytes) (s : Store) :
    run server (handleGetStorageAt rpc id params) s =
      (aboutSlot id params (chainOf rpc.evm.uninit s), s) := by
  unfold handleGetStorageAt aboutSlot
  rcases params with _ | ⟨address, _ | ⟨slot, params⟩⟩
  · rfl
  · rfl
  dsimp only
  cases decodeExact 20 address with
  | none => rfl
  | some addr =>
    dsimp only
    cases decodeExact 32 slot with
    | none => rfl
    | some key => rfl

lemma run_getTransactionReceipt_query (id : Bytes) (params : List Bytes) (out : Bytes32)
    (s : Store) :
    Shows out (run server (handleGetTransactionReceipt id params) s)
      ⟨aboutReceipt id params (chainOf out s), [], chainOf out s⟩ := by
  unfold handleGetTransactionReceipt aboutReceipt
  cases params with
  | nil => exact ⟨rfl, rfl⟩
  | cons param params =>
    dsimp only
    cases decodeExact 32 param with
    | none => exact ⟨rfl, rfl⟩
    | some txHash =>
      have hreceipt : run server (getReceipt txHash) s =
          (chainOf out s (.receipt txHash), s) := rfl
      dsimp only
      rw [run_bind, hreceipt]
      dsimp only
      by_cases hnone : chainOf out s (.receipt txHash) = ([] : Bytes)
      · rw [if_pos hnone, if_pos (List.length_eq_zero_iff.mpr hnone)]
        exact ⟨rfl, rfl⟩
      · rw [if_neg hnone, if_neg fun h => hnone (List.length_eq_zero_iff.mp h)]
        exact ⟨rfl, rfl⟩

lemma run_estimateGas_query (id request : Bytes) (s : Store) :
    run server (handleEstimateGas id request) s = (estimate id request, s) := by
  unfold handleEstimateGas estimate
  cases extractParamFieldString request (ascii "data") with
  | none => rfl
  | some dataHex =>
    dsimp only
    split_ifs <;> rfl

lemma evmCall_uninitialized {evm : Evm} (h : evm.initialized = false) (fromAddr toAddr : Address)
    (data : Bytes) (block : Option BlockContext) (gas : UInt64) (result : ExecResult) :
    evmCall evm fromAddr toAddr data block gas result =
      .ret (-1, result.withError (ascii "EVM not initialized")) := if_pos h

/-- **`eth_call` on a store executes the code on the chain**, and drops what it does. -/
lemma run_call_query (hr : ∀ n, rpc.evm.realloc n = true) (id request : Bytes) (s : Store) :
    run server (handleCall rpc time id request) s =
      (callOn rpc time id request (chainOf rpc.evm.uninit s), s) := by
  have hctx : run server (makeBlockContext rpc time) s = (contextOn rpc time s, s) := rfl
  have hblock : blockOf rpc time (chainOf rpc.evm.uninit s) = contextOn rpc time s := rfl
  unfold handleCall callOn
  rw [run_bind, hctx, hblock]
  dsimp only
  cases callArgs rpc.gasLimit request with
  | error message => rfl
  | ok args =>
    dsimp only
    rw [run_bind]
    by_cases hinit : rpc.evm.initialized = false
    · rw [if_pos hinit, evmCall_uninitialized hinit]
      rfl
    rw [if_neg hinit]
    unfold evmCall
    rw [if_neg hinit]
    have hshows := run_executeContract hr (contextOn rpc time s)
      ⟨args.fromAddr, args.toAddr, args.data, args.gas, 1⟩ false .zero s
    dsimp only at hshows
    revert hshows
    generalize run server (executeContract rpc.evm _ _ _ _ _ _ _ _ _ _) s = y
    generalize execute rpc.evm _ _ _ = ended
    obtain ⟨⟨rc, result⟩, s'⟩ := y
    intro hshows
    cases ended with
    | error message =>
      obtain ⟨hrc, rfl, rfl⟩ := hshows
      dsimp only at hrc ⊢
      unfold callResponse errorOr
      rw [if_pos hrc]
      rfl
    | ok e =>
      obtain ⟨hres, hs⟩ := hshows
      obtain ⟨rfl, rfl⟩ := Prod.mk.inj hres
      have hsame : s' = s := hs
      rw [hsame]
      rfl

/-! ### Requests on a store -/

/-- Two lists with the same keys and related values are looked up alike. -/
lemma getD_lookup_of_forall₂ {A B : Type} {P : A → B → Prop} {xs : List (Bytes × A)}
    {ys : List (Bytes × B)} (h : List.Forall₂ (fun x y => x.1 = y.1 ∧ P x.2 y.2) xs ys) (k : Bytes)
    {a : A} {b : B} (hab : P a b) : P ((xs.lookup k).getD a) ((ys.lookup k).getD b) := by
  induction h with
  | nil => exact hab
  | @cons x y xs ys hxy _ ih =>
    obtain ⟨hkey, hvalue⟩ := hxy
    rw [List.lookup_cons, List.lookup_cons, ← hkey]
    cases k == x.1
    · exact ih
    · exact hvalue

/-- Every handler answers as is said for its method. -/
lemma forall₂_answers (hr : ∀ n, rpc.evm.realloc n = true) (id : Bytes) (params : List Bytes)
    (request : Bytes) (s : Store) :
    List.Forall₂ (fun h a => h.1 = a.1 ∧ Shows rpc.evm.uninit (run server h.2 s) a.2)
      (handlers rpc parser time id params request)
      (answers rpc parser time id params request (chainOf rpc.evm.uninit s)) := by
  unfold handlers answers
  refine .cons ⟨rfl, run_query rfl⟩ <| .cons ⟨rfl, run_query rfl⟩ <| .cons ⟨rfl, run_query rfl⟩ <|
    .cons ⟨rfl, run_query (run_withAddress fun _ => rfl)⟩ <|
    .cons ⟨rfl, run_query (run_withAddress fun _ => rfl)⟩ <|
    .cons ⟨rfl, run_query (run_getCode_query id params _ s)⟩ <|
    .cons ⟨rfl, run_send hr id request s⟩ <|
    .cons ⟨rfl, run_query rfl⟩ <| .cons ⟨rfl, run_query rfl⟩ <|
    .cons ⟨rfl, run_query (run_call_query hr id request s)⟩ <|
    .cons ⟨rfl, run_query (run_estimateGas_query id request s)⟩ <|
    .cons ⟨rfl, run_query rfl⟩ <| .cons ⟨rfl, run_query rfl⟩ <| .cons ⟨rfl, run_query rfl⟩ <|
    .cons ⟨rfl, run_getTransactionReceipt_query id params _ s⟩ <|
    .cons ⟨rfl, run_query rfl⟩ <| .cons ⟨rfl, run_query rfl⟩ <| .cons ⟨rfl, run_query rfl⟩ <|
    .cons ⟨rfl, run_query rfl⟩ <| .cons ⟨rfl, run_query rfl⟩ <| .cons ⟨rfl, run_query rfl⟩ <|
    .cons ⟨rfl, run_query rfl⟩ <|
    .cons ⟨rfl, run_query (run_getStorageAt_query id params s)⟩ <|
    .cons ⟨rfl, run_query rfl⟩ <| .cons ⟨rfl, run_query rfl⟩ <| .cons ⟨rfl, run_query rfl⟩ .nil

/-- **A dispatched request is answered from the chain.** -/
theorem run_dispatchSingle (hr : ∀ n, rpc.evm.realloc n = true) (request : Bytes) (s : Store) :
    Shows rpc.evm.uninit (run server (dispatchSingle rpc parser time request) s)
      (answer rpc parser time request (chainOf rpc.evm.uninit s)) :=
  getD_lookup_of_forall₂
    (P := fun p a => Shows rpc.evm.uninit (run server p s) a)
    (forall₂_answers hr _ _ request s) (methodOf request) (run_query rfl)

lemma run_dispatchAll (hr : ∀ n, rpc.evm.realloc n = true) (clock : ℕ → UInt64)
    (items : List Bytes) (s : Store) :
    (run server (dispatchAll rpc parser clock items) s).1 =
        (answerAll rpc parser clock items (chainOf rpc.evm.uninit s)).1 ∧
      chainOf rpc.evm.uninit (run server (dispatchAll rpc parser clock items) s).2 =
        (answerAll rpc parser clock items (chainOf rpc.evm.uninit s)).2.2 := by
  induction items generalizing clock s with
  | nil => exact ⟨rfl, rfl⟩
  | cons item items ih =>
    obtain ⟨hresponse, hstate⟩ :=
      @run_dispatchSingle rpc parser (clock 0) hr item s
    obtain ⟨hresponses, hend⟩ := ih (fun n => clock (n + 1))
      (run server (dispatchSingle rpc parser (clock 0) item) s).2
    rw [hstate] at hresponses hend
    unfold dispatchAll answerAll
    rw [run_bind, run_bind]
    exact ⟨congrArg₂ _ hresponse hresponses, hend⟩

/-- A request is a batch, or a single one. -/
lemma batch_or_single (rpc : Rpc) (parser : TxParser) (i : Input) :
    (∃ p, handleRequest rpc parser i.clock i.text =
        (dispatchAll rpc parser i.clock (batchItems 0 [] p) >>=
          fun responses => return batchText responses) ∧
      ∀ t, chain rpc parser i t =
        let r := answerAll rpc parser i.clock (batchItems 0 [] p) t
        ((batchText r.1, r.2.1), r.2.2)) ∨
    ∃ single, handleRequest rpc parser i.clock i.text =
        (dispatchSingle rpc parser (i.clock 0) single >>=
          fun response => return (response >>= fun r => .ok r.text)) ∧
      ∀ t, chain rpc parser i t =
        let a := answer rpc parser (i.clock 0) single t
        ((a.response >>= fun r => .ok r.text, a.mined), a.state) := by
  unfold handleRequest chain
  generalize (cstr i.text).dropWhile isWhitespace = text
  by_cases hbatch : ∃ p, text = 91 :: p
  · obtain ⟨p, rfl⟩ := hbatch
    exact Or.inl ⟨p, rfl, fun _ => rfl⟩
  · refine Or.inr ⟨text, ?_⟩
    rcases text with _ | ⟨c, p⟩
    · exact ⟨rfl, fun _ => rfl⟩
    have hc : c ≠ 91 := fun h => hbatch ⟨p, by rw [h]⟩
    constructor
    · split
      · rename_i heq
        exact absurd (List.cons.inj heq).1 hc
      · rfl
    · intro t
      split
      · rename_i heq
        exact absurd (List.cons.inj heq).1 hc
      · rfl

/-- **One request on a store is one step on the chain.** -/
lemma refines_step (hr : ∀ n, rpc.evm.realloc n = true) :
    Machines.Refines (served rpc parser) (chain rpc parser) Prod.fst (chainOf rpc.evm.uninit) := by
  intro i s
  unfold served
  rcases batch_or_single rpc parser i with ⟨p, hserved, hchain⟩ | ⟨single, hserved, hchain⟩
  · obtain ⟨hresponses, hend⟩ := @run_dispatchAll rpc parser hr i.clock (batchItems 0 [] p) s
    rw [hserved, hchain, run_bind]
    exact ⟨congrArg batchText hresponses, hend⟩
  · obtain ⟨hresponse, hend⟩ := @run_dispatchSingle rpc parser (i.clock 0) hr single s
    rw [hserved, hchain, run_bind]
    exact ⟨congrArg (fun r : Read Response => r >>= fun r => .ok r.text) hresponse, hend⟩

/-- **The server is a machine on the chain.** Over any run of requests, single ones and batches, on
any store, the responses are those of the machine on the components, and so are the components
afterwards. -/
theorem requests_refine (rpc : Rpc) (parser : TxParser) (hr : ∀ n, rpc.evm.realloc n = true)
    (inputs : List Input) (s : Store) :
    (Machines.run (served rpc parser) inputs s).1 =
        (Machines.run (chain rpc parser) inputs (chainOf rpc.evm.uninit s)).1.map Prod.fst ∧
      chainOf rpc.evm.uninit (Machines.run (served rpc parser) inputs s).2 =
        (Machines.run (chain rpc parser) inputs (chainOf rpc.evm.uninit s)).2 :=
  (refines_step hr).run inputs s

/-- A batch that sends the plain transaction and asks for the number of the latest block. -/
def sendAndAsk : Input where
  clock _ := 0
  text := ascii "[\x7b\"method\":\"eth_sendRawTransaction\",\"params\":[\"0x00\"]\x7d," ++
    ascii "\x7b\"method\":\"eth_blockNumber\"\x7d]"

/-- On an empty store, the transaction is the first block. -/
theorem requests_refine_sendAndAsk :
    chainOf (.zero 32) (Machines.run (served idleRpc plainParser) [sendAndAsk] fun _ => none).2
      .blockNumber = (1 : UInt64) := by
  have hchain := (requests_refine idleRpc plainParser (fun _ => rfl) [sendAndAsk] fun _ => none).2
  refine (congrFun hchain .blockNumber).trans ?_
  decide +kernel

end EvmDb.Chain
