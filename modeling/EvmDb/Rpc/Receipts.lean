import EvmDb.Rpc.Responses

/-!
Receipts from the transaction that stores them to the request that fetches them.

A receipt is stored with its length and without a NUL. It is fetched into a buffer of this length
and then read as a C string.
-/

namespace EvmDb.Receipts

open EvmDb.Checked EvmDb.Types EvmDb.Hex EvmDb.Program EvmDb.Redis EvmDb.RedisState EvmDb.Executor
open EvmDb.Plan EvmDb.Request EvmDb.Json EvmDb.SendRaw EvmDb.Handlers EvmDb.Dispatch
open EvmDb.ReadOnly EvmDb.Responses

/-! ### Requests -/

/-- A request that is dispatched, with what it is handled with. -/
structure Incoming where
  rpc : Rpc
  parser : TxParser
  time : UInt64
  request : Bytes

def Incoming.run (i : Incoming) (s : Store) : Read Response × Store :=
  Program.run server (dispatchSingle i.rpc i.parser i.time i.request) s

/-- The store after some requests. -/
def runAll (requests : List Incoming) (s : Store) : Store :=
  requests.foldl (fun s i => (i.run s).2) s

/-- The request sends a transaction, and succeeds with a hash for its result. -/
def Incoming.Sends (i : Incoming) (h : Hash) (s : Store) : Prop :=
  methodOf i.request = ascii "eth_sendRawTransaction" ∧
    (i.run s).1 = .ok (.result (idOf i.request) (quoted (hashToHex h)))

/-- None of the requests sends a transaction with the hash. -/
def NoneSends (h : Hash) : List Incoming → Store → Prop
  | [], _ => True
  | i :: requests, s => ¬ i.Sends h s ∧ NoneSends h requests (i.run s).2

/-- The hash that a request fetches the receipt of. -/
def fetchedHash (request : Bytes) : Option Hash :=
  if methodOf request = ascii "eth_getTransactionReceipt" then
    (jsonParseParams request 8).head?.bind (decodeExact 32)
  else none

/-- The text that is stored for a hash. -/
def storedReceipt (s : Store) (h : Hash) : Bytes := bytesOf (some (.ofCell (s (receiptCell h))))

/-! ### What happens to receipts -/

lemma executeTx_receipt (evm : Evm) (tx : Tx) (blockCtx : Option BlockContext)
    (result : ExecResult) (s : Store) (h : Hash) :
    (run server (executeTx evm tx blockCtx result) s).2 (receiptCell h) = s (receiptCell h) := by
  have hok := (run_reads (reads_of_stateReads (@issues_planTx evm tx blockCtx result)) s).2
  rw [run_executeTx]
  cases hok with
  | rejected _ hws =>
    dsimp only
    rw [hws]
    rfl
  | executed _ effects hws heffects =>
    dsimp only
    refine puts_of_notMem ?_ s
    rw [hws, List.map_append, List.mem_append, not_or]
    refine ⟨fun hmem => ?_, fun hmem => ?_⟩
    · obtain ⟨w, hw, hcell⟩ := List.mem_map.mp hmem
      rcases heffects w hw with ⟨a, ha⟩ | ⟨a, k, ha⟩
      · exact codeCell_ne_receiptCell a h (ha.symm.trans hcell)
      · cases ha.symm.trans hcell
    · cases List.mem_singleton.mp hmem

/-- A request that sends a transaction stores a receipt for its hash; any other leaves the
receipt of a hash as it is. -/
lemma receipt_step (i : Incoming) (h : Hash) (s : Store) :
    (i.Sends h s → ∃ r : Receipt, (i.run s).2 (receiptCell h) = some r.text) ∧
      (¬ i.Sends h s → (i.run s).2 (receiptCell h) = s (receiptCell h)) := by
  by_cases hm : methodOf i.request = ascii "eth_sendRawTransaction"
  · unfold Incoming.Sends Incoming.run
    rw [dispatchSingle_send _ _ _ _ hm, run_determined]
    rcases handleSendRawTransaction_eq i.parser (idOf i.request) i.request with
      ⟨tx, -, hrun⟩ | ⟨-, message, -, hrun⟩
    · rw [hrun, run_executeAndRecord]
      have hcell := executeTx_receipt i.rpc.evm tx (some (contextOn i.rpc i.time s)) .zero s h
      revert hcell
      rcases run server (executeTx i.rpc.evm tx (some (contextOn i.rpc i.time s)) .zero) s with
        ⟨⟨rc, result⟩, s₁⟩
      intro hcell
      dsimp only
      by_cases hrc : rc ≠ 0
      · rw [if_pos hrc]
        exact ⟨fun hsends => (nomatch hsends.2), fun _ => hcell⟩
      · rw [if_neg hrc]
        dsimp only
        rcases eq_or_ne h tx.hash with rfl | hne
        · exact ⟨fun _ => ⟨_, put_same _ _ _⟩, fun hno => absurd ⟨hm, rfl⟩ hno⟩
        · have hcells : receiptCell h ≠ receiptCell tx.hash := fun hc => hne (receiptCell_inj.mp hc)
          refine ⟨fun hsends => ?_, fun _ => ?_⟩
          · have hquoted := (Response.result.inj (Read.ok.inj hsends.2)).2
            have hhex : hashToHex tx.hash = hashToHex h :=
              List.append_cancel_right (List.cons.inj hquoted).2
            exact absurd (hashToHex_inj hhex).symm hne
          · rw [put_of_ne _ _ hcells, put_of_ne _ _ (receiptCell_ne_blockCell h)]
            exact hcell
    · rw [hrun]
      exact ⟨fun hsends => (nomatch hsends.2), fun _ => rfl⟩
  · refine ⟨fun hsends => absurd hsends.1 hm, fun _ => ?_⟩
    have hreads : OnlyReads (dispatchSingle i.rpc i.parser i.time i.request) :=
      onlyReads_dispatchSingle i.parser hm
    exact congrFun (run_reads hreads s).1 (receiptCell h)

/-- Requests that do not send a transaction with the hash leave its receipt as it is. -/
lemma receipt_runAll {h : Hash} {requests : List Incoming} {s : Store}
    (hnone : NoneSends h requests s) : runAll requests s (receiptCell h) = s (receiptCell h) := by
  induction requests generalizing s with
  | nil => rfl
  | cons i requests ih => exact (ih hnone.2).trans ((receipt_step i h s).2 hnone.1)

/-! ### Fetching -/

lemma run_fetch {i : Incoming} {h : Hash} (hfetch : fetchedHash i.request = some h) (s : Store) :
    (i.run s).1 = if storedReceipt s h = [] then .ok (.result (idOf i.request) (ascii "null"))
      else stringAt (storedReceipt s h) >>= fun text => .ok (.result (idOf i.request) text) := by
  unfold fetchedHash at hfetch
  split_ifs at hfetch with hm
  obtain ⟨param, hparam, hdecode⟩ := Option.bind_eq_some_iff.mp hfetch
  obtain ⟨params, hparams⟩ := List.head?_eq_some_iff.mp hparam
  have hrun : run server (getReceipt h) s = (storedReceipt s h, s) := rfl
  unfold Incoming.run
  rw [dispatchSingle_getTransactionReceipt _ _ _ _ hm, hparams]
  unfold handleGetTransactionReceipt
  dsimp only
  rw [hdecode]
  dsimp only
  rw [run_bind, hrun]
  dsimp only
  simp only [List.length_eq_zero_iff]
  split_ifs <;> rfl

lemma stringAt_of_notMem {buffer : Bytes} (h : 0 ∉ buffer) :
    stringAt buffer = .outside buffer.length := if_neg h

lemma text_ne_nil (r : Receipt) : r.text ≠ [] := by
  rw [Receipt.text_eq]
  exact List.cons_ne_nil _ _

/-- The request is answered with exactly the text that is stored for a hash. -/
def Incoming.Answers (i : Incoming) (h : Hash) (s : Store) : Prop :=
  (i.run s).1 = .ok (.result (idOf i.request) (storedReceipt s h))

lemma run_fetch_outside {i : Incoming} {h : Hash} (hfetch : fetchedHash i.request = some h)
    {s : Store} (hne : storedReceipt s h ≠ []) (hnul : 0 ∉ storedReceipt s h) :
    (i.run s).1 = .outside (storedReceipt s h).length := by
  rw [run_fetch hfetch, if_neg hne, stringAt_of_notMem hnul]
  rfl

/-- A receipt that was sent is still stored when it is fetched, and is read outside its buffer. -/
lemma fetch_sent {sent fetch : Incoming} {later : List Incoming} {h : Hash} {s s' : Store}
    (hfetch : fetchedHash fetch.request = some h) (hsends : sent.Sends h s)
    (hnone : NoneSends h later (sent.run s).2) (hs' : runAll later (sent.run s).2 = s') :
    (∃ r : Receipt, storedReceipt s' h = r.text) ∧
      (fetch.run s').1 = .outside (storedReceipt s' h).length ∧ ¬ fetch.Answers h s' := by
  obtain ⟨r, hr⟩ := (receipt_step sent h s).1 hsends
  have hstored : storedReceipt s' h = r.text := by
    have hcell : s' (receiptCell h) = some r.text :=
      (congrFun hs' _).symm.trans ((receipt_runAll hnone).trans hr)
    unfold storedReceipt
    rw [hcell]
    rfl
  have hrun := @run_fetch_outside _ _ hfetch s' (by rw [hstored]; exact text_ne_nil r)
    (by rw [hstored]; exact (value_receipt r).zero_notMem)
  refine ⟨⟨r, hstored⟩, hrun, fun hanswers => ?_⟩
  unfold Incoming.Answers at hanswers
  rw [hrun] at hanswers
  cases hanswers

/-- **No receipt is fetched.** The buffer is read inside exactly if there is nothing stored, or if
what is stored has a NUL. A receipt that was sent is still stored when it is fetched, but has none,
so it is not what the request is answered with. -/
theorem receipt_roundTrip (fetch : Incoming) (h : Hash)
    (hfetch : fetchedHash fetch.request = some h) :
    (∀ s, (fetch.run s).1.Inside ↔ storedReceipt s h = [] ∨ 0 ∈ storedReceipt s h) ∧
      ∀ (sent : Incoming) (later : List Incoming) (s : Store), sent.Sends h s →
        NoneSends h later (sent.run s).2 →
          let s' := runAll later (sent.run s).2
          (∃ r : Receipt, storedReceipt s' h = r.text) ∧
            (fetch.run s').1 = .outside (storedReceipt s' h).length ∧ ¬ fetch.Answers h s' := by
  refine ⟨fun s => ?_, fun sent later s hsends hnone => fetch_sent hfetch hsends hnone rfl⟩
  by_cases hne : storedReceipt s h = []
  · rw [run_fetch hfetch, if_pos hne]
    exact ⟨fun _ => Or.inl hne, fun _ => Read.inside_ok _⟩
  by_cases hnul : 0 ∈ storedReceipt s h
  · have hstring : stringAt (storedReceipt s h) = .ok (cstr (storedReceipt s h)) := if_pos hnul
    rw [run_fetch hfetch, if_neg hne, hstring]
    exact ⟨fun _ => Or.inr hnul, fun _ => Read.inside_ok _⟩
  · rw [run_fetch_outside hfetch hne hnul]
    exact ⟨fun hin => absurd rfl (hin _), fun hor => absurd hor (not_or.mpr ⟨hne, hnul⟩)⟩

/-- The plain transaction, sent to a server with an interpreter that returns at once. -/
def sentPlain : Incoming :=
  ⟨idleRpc, plainParser, 0, ascii "\x7b\"method\":\"eth_sendRawTransaction\",\"params\":[\"0x00\"]\x7d"⟩

/-- The receipt of the plain transaction is fetched. -/
def fetchPlain : Incoming :=
  ⟨idleRpc, plainParser, 0, ascii (
    "\x7b\"method\":\"eth_getTransactionReceipt\",\"params\":[" ++
    "\"0x0000000000000000000000000000000000000000000000000000000000000000\"]\x7d")⟩

lemma fetchedHash_plain : fetchedHash fetchPlain.request = some (.zero 32) := by decide +kernel

lemma sends_plain : sentPlain.Sends (.zero 32) (fun _ => none) :=
  ⟨by decide, by decide +kernel⟩

/-- Sent and fetched at once, the receipt is read outside its buffer. -/
theorem receipt_roundTrip_plain :
    let s' := (sentPlain.run fun _ => none).2
    (∃ r : Receipt, storedReceipt s' (.zero 32) = r.text) ∧
      (fetchPlain.run s').1 = .outside (storedReceipt s' (.zero 32)).length ∧
        ¬ fetchPlain.Answers (.zero 32) s' :=
  (receipt_roundTrip fetchPlain (.zero 32) fetchedHash_plain).2 sentPlain [] _ sends_plain trivial

/-- The transaction has succeeded with the hash, but its receipt is not the answer. -/
theorem not_receipt_roundTrip_plain :
    sentPlain.Sends (.zero 32) (fun _ => none) ∧
      fetchedHash fetchPlain.request = some (.zero 32) ∧
        ¬ fetchPlain.Answers (.zero 32) (sentPlain.run fun _ => none).2 := by
  have hfetched := @fetch_sent _ _ [] _ _ _ fetchedHash_plain sends_plain trivial rfl
  exact ⟨sends_plain, fetchedHash_plain, hfetched.2.2⟩

end EvmDb.Receipts
