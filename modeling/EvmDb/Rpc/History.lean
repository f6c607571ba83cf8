import EvmDb.Rpc.Chain
import Mathlib.Data.List.Induction
import Mathlib.Data.UInt

/-!
What the transactions that were executed say about the chain.

Requests are handled one after the other. The block number and the nonces count the transactions
that were acknowledged, each of them has its receipt, and the balances never change.
-/

namespace EvmDb.History

open EvmDb.Checked EvmDb.Types EvmDb.Program EvmDb.Redis EvmDb.RedisState EvmDb.StateLayout
open EvmDb.Executor EvmDb.Ledger EvmDb.Request EvmDb.SendRaw EvmDb.Dispatch EvmDb.Chain

/-! ### The chain after some transactions -/

/-- The transaction creates a contract at an address. -/
def Creates (addr : Address) (tx : Tx) : Prop :=
  tx.toIsNull = true ∧ computeCreateAddress tx.fromAddr tx.nonce = addr

instance (addr : Address) (tx : Tx) : Decidable (Creates addr tx) :=
  inferInstanceAs (Decidable (_ ∧ _))

/-- The transactions of a sender. -/
def sentBy (addr : Address) (txs : List Tx) : List Tx := txs.filter (·.fromAddr = addr)

/-- The numbers from `n` on, as many as there are. -/
def numbersFrom (n : UInt64) (count : ℕ) : List UInt64 :=
  (List.range count).map fun k => n + UInt64.ofNat k

/-- What some transactions, each a block of its own, make of a state, besides the slots: they are
counted, and their code and their receipts are those that were stored last. -/
structure Extends (rpc : Rpc) (t : State) (txs : List Tx) (t' : State) : Prop where
  block : t' .blockNumber = (t .blockNumber : UInt64) + UInt64.ofNat txs.length
  nonce : ∀ addr, t' (.nonce addr) = (t (.nonce addr) : UInt64) + UInt64.ofNat (sentBy addr txs).length
  consecutive : ∀ addr,
    (sentBy addr txs).map (·.nonce) = numbersFrom (t (.nonce addr)) (sentBy addr txs).length
  code : ∀ addr, t' (.code addr) =
    (((txs.filter (Creates addr ·)).getLast?.map (·.data)).getD (t (.code addr)) : Bytes)
  receipt : ∀ k tx, txs[k]? = some tx → (∀ tx' ∈ txs.drop (k + 1), tx'.hash ≠ tx.hash) →
    ∃ success gasUsed, t' (.receipt tx.hash) =
      (receiptFor rpc tx (t .blockNumber + UInt64.ofNat (k + 1)) success gasUsed).json
  unsent : ∀ h, (∀ tx ∈ txs, tx.hash ≠ h) → t' (.receipt h) = t (.receipt h)
  balance : ∀ addr, t' (.balance addr) = t (.balance addr)
  codeHash : ∀ addr, t' (.codeHash addr) = t (.codeHash addr)

variable {rpc : Rpc} {parser : TxParser} {t u v : State} {xs ys : List Tx}

lemma sentBy_append (addr : Address) (xs ys : List Tx) :
    sentBy addr (xs ++ ys) = sentBy addr xs ++ sentBy addr ys := List.filter_append ..

lemma numbersFrom_add (n : UInt64) (a b : ℕ) :
    numbersFrom n (a + b) = numbersFrom n a ++ numbersFrom (n + UInt64.ofNat a) b := by
  unfold numbersFrom
  rw [List.range_add, List.map_append, List.map_map]
  congr 1
  refine List.map_congr_left fun k _ => ?_
  show n + UInt64.ofNat (a + k) = _
  rw [UInt64.ofNat_add, add_assoc]

/-- No transactions change nothing. -/
lemma extends_nil (t : State) : Extends rpc t [] t where
  block := (UInt64.add_zero _).symm
  nonce _ := (UInt64.add_zero _).symm
  consecutive _ := rfl
  code _ := rfl
  receipt k tx h := by simp at h
  unsent _ _ := rfl
  balance _ := rfl
  codeHash _ := rfl

/-- **Some transactions and then some more.** -/
lemma Extends.append (h : Extends rpc t xs u) (h' : Extends rpc u ys v) :
    Extends rpc t (xs ++ ys) v where
  block := by rw [h'.block, h.block, List.length_append, UInt64.ofNat_add, add_assoc]
  nonce addr := by
    rw [h'.nonce, h.nonce, sentBy_append, List.length_append, UInt64.ofNat_add, add_assoc]
  consecutive addr := by
    rw [sentBy_append, List.map_append, List.length_append, numbersFrom_add, h.consecutive,
      h'.consecutive, h.nonce]
  code addr := by
    rw [h'.code, h.code, List.filter_append, List.getLast?_append]
    cases (ys.filter (Creates addr ·)).getLast? <;> rfl
  receipt k tx hk hlast := by
    rcases lt_or_ge k xs.length with hlt | hge
    · rw [List.getElem?_append_left hlt] at hk
      rw [List.drop_append_of_le_length (by omega)] at hlast
      obtain ⟨success, gasUsed, hreceipt⟩ := h.receipt k tx hk fun tx' htx' =>
        hlast tx' (List.mem_append_left _ htx')
      refine ⟨success, gasUsed, ?_⟩
      rw [h'.unsent _ fun tx' htx' => hlast tx' (List.mem_append_right _ htx'), hreceipt]
    · rw [List.getElem?_append_right hge] at hk
      obtain ⟨success, gasUsed, hreceipt⟩ := h'.receipt (k - xs.length) tx hk fun tx' htx' => by
        refine hlast tx' ?_
        rw [List.drop_append, List.drop_eq_nil_of_le (by omega), List.nil_append]
        rwa [show k + 1 - xs.length = k - xs.length + 1 by omega]
      refine ⟨success, gasUsed, hreceipt.trans ?_⟩
      rw [h.block, add_assoc, ← UInt64.ofNat_add, show xs.length + (k - xs.length + 1) = k + 1 by omega]
  unsent k hno := by
    rw [h'.unsent k fun tx htx => hno tx (List.mem_append_right _ htx),
      h.unsent k fun tx htx => hno tx (List.mem_append_left _ htx)]
  balance addr := (h'.balance addr).trans (h.balance addr)
  codeHash addr := (h'.codeHash addr).trans (h.codeHash addr)

/-! ### One transaction -/

lemma mine_of_ne {tx : Tx} {number : UInt64} {success : Bool} {gasUsed : UInt64} {c : Component}
    (hb : c ≠ .blockNumber) (hr : c ≠ .receipt tx.hash) :
    mine rpc tx number success gasUsed t c = t c := by
  unfold mine
  rw [Function.update_of_ne hr, Function.update_of_ne hb]

lemma mine_block {tx : Tx} {number : UInt64} {success : Bool} {gasUsed : UInt64} :
    mine rpc tx number success gasUsed t .blockNumber = number := by
  unfold mine
  rw [Function.update_of_ne (by simp), Function.update_self]

lemma mine_receipt {tx : Tx} {number : UInt64} {success : Bool} {gasUsed : UInt64} :
    mine rpc tx number success gasUsed t (.receipt tx.hash) =
      (receiptFor rpc tx number success gasUsed).json := Function.update_self ..

/-- **A transaction that is executed is the next block.** -/
lemma extends_transact {tx : Tx} {block : BlockContext} {success : Bool} {gasUsed : UInt64}
    (h : transact rpc.evm block tx t = .ok (success, gasUsed, u)) :
    Extends rpc t [tx] (mine rpc tx (t .blockNumber + 1) success gasUsed u) := by
  obtain ⟨hnonce, hframe⟩ := transact_frame h
  have hsent : ∀ addr, sentBy addr [tx] = if tx.fromAddr = addr then [tx] else [] := by
    intro addr
    simp [sentBy, List.filter_cons]
  -- what is not a slot, a nonce or a code is left alone by the transaction itself
  have hother : ∀ c : Component, (∀ addr key, c ≠ .storage addr key) →
      (∀ addr, c ≠ .nonce addr) → (∀ addr, c ≠ .code addr) → u c = t c := by
    intro c hs hn hc
    rw [hframe c hs, Function.update_of_ne (hn _)]
    split_ifs
    · rw [Function.update_of_ne (hc _)]
    · rfl
  constructor
  case block => exact mine_block
  case nonce =>
    intro addr
    rw [mine_of_ne (by simp) (by simp), hframe _ (by simp), hsent]
    by_cases haddr : tx.fromAddr = addr
    · subst haddr
      rw [Function.update_self, if_pos rfl, hnonce]
      rfl
    · rw [Function.update_of_ne (by simpa using Ne.symm haddr), if_neg haddr]
      split_ifs
      · rw [Function.update_of_ne (by simp)]
        exact (UInt64.add_zero _).symm
      · exact (UInt64.add_zero _).symm
  case consecutive =>
    intro addr
    rw [hsent]
    split_ifs with haddr
    · subst haddr
      show [tx.nonce] = [t (.nonce tx.fromAddr) + 0]
      rw [hnonce, UInt64.add_zero]
    · rfl
  case code =>
    intro addr
    rw [mine_of_ne (by simp) (by simp), hframe _ (by simp), Function.update_of_ne (by simp)]
    by_cases hcreates : Creates addr tx
    · rw [List.filter_cons_of_pos (by simpa using hcreates), if_pos hcreates.1, ← hcreates.2,
        Function.update_self]
      rfl
    · rw [List.filter_cons_of_neg (by simpa using hcreates)]
      split_ifs with hnull
      · rw [Function.update_of_ne]
        · rfl
        · intro hc
          exact hcreates ⟨hnull, (Component.code.inj hc).symm⟩
      · rfl
  case receipt =>
    intro k tx' hk _
    obtain ⟨rfl, rfl⟩ : k = 0 ∧ tx = tx' := by
      rcases k with _ | k
      · exact ⟨rfl, Option.some.inj hk⟩
      · simp at hk
    exact ⟨success, gasUsed, mine_receipt⟩
  case unsent =>
    intro k hno
    have hne : tx.hash ≠ k := hno tx List.mem_cons_self
    rw [mine_of_ne (by simp) (by simpa using Ne.symm hne), hother _ (by simp) (by simp) (by simp)]
  case balance =>
    intro addr
    rw [mine_of_ne (by simp) (by simp), hother _ (by simp) (by simp) (by simp)]
  case codeHash =>
    intro addr
    rw [mine_of_ne (by simp) (by simp), hother _ (by simp) (by simp) (by simp)]

lemma extends_send (time : UInt64) (id request : Bytes) (t : State) :
    Extends rpc t (send rpc parser time id request t).mined
      (send rpc parser time id request t).state := by
  unfold send
  cases readTransaction parser request with
  | error message => exact extends_nil t
  | ok tx =>
    dsimp only
    unfold sendTx
    cases hdone : transact rpc.evm (blockOf rpc time t) tx t with
    | error message => exact extends_nil t
    | ok e =>
      obtain ⟨success, gasUsed, t'⟩ := e
      exact extends_transact hdone

/-! ### Acknowledgements -/

/-- A request that is dispatched, and the time of its handling. -/
structure Dispatched where
  time : UInt64
  text : Bytes

/-- The requests that are dispatched for an input. -/
def dispatchedBy (i : Input) : List Dispatched :=
  (dispatched i.text).mapIdx fun k text => ⟨i.clock k, text⟩

/-- The machine on a store: `dispatch_single`. -/
def dispatching (rpc : Rpc) (parser : TxParser) :
    Machines.Machine Dispatched (Read Response) Store := fun i s =>
  run server (dispatchSingle rpc parser i.time i.text) s

/-- The transaction a response acknowledges: it is sent by the request, and the response is not an
error. -/
def acknowledged (parser : TxParser) (i : Dispatched) (response : Read Response) : List Tx :=
  if methodOf i.text = ascii "eth_sendRawTransaction" then
    match readTransaction parser i.text, response with
    | .ok tx, .ok (.result _ _) => [tx]
    | _, _ => []
  else []

/-- What holds of the values of a key holds of the value that is found. -/
lemma getD_lookup_of {A : Type} {P : A → Prop} {xs : List (Bytes × A)} {k : Bytes} {a : A}
    (ha : P a) (h : ∀ x ∈ xs, k = x.1 → P x.2) : P ((xs.lookup k).getD a) := by
  induction xs with
  | nil => exact ha
  | cons x xs ih =>
    rw [List.lookup_cons]
    by_cases hk : k = x.1
    · rw [hk, beq_self_eq_true]
      exact h x List.mem_cons_self hk
    · rw [beq_false_of_ne hk]
      exact ih fun y hy => h y (List.mem_cons_of_mem _ hy)

/-- A request with any other method changes nothing. -/
lemma answer_other {time : UInt64} {request : Bytes}
    (h : methodOf request ≠ ascii "eth_sendRawTransaction") (t : State) :
    (answer rpc parser time request t).mined = [] ∧
      (answer rpc parser time request t).state = t := by
  refine getD_lookup_of (P := fun a : Answer => a.mined = [] ∧ a.state = t) ⟨rfl, rfl⟩ ?_
  simp only [answers, List.forall_mem_cons, List.not_mem_nil, false_implies, implies_true,
    and_true, true_and, same]
  exact fun hm => absurd hm h

lemma answer_send {time : UInt64} {request : Bytes}
    (h : methodOf request = ascii "eth_sendRawTransaction") (t : State) :
    answer rpc parser time request t = send rpc parser time (idOf request) request t := by
  unfold answer
  rw [h]
  rfl

/-- **A transaction is executed exactly if it is acknowledged.** -/
lemma mined_acknowledged (i : Dispatched) (t : State) :
    (answer rpc parser i.time i.text t).mined =
      acknowledged parser i (answer rpc parser i.time i.text t).response := by
  unfold acknowledged
  by_cases hm : methodOf i.text = ascii "eth_sendRawTransaction"
  · rw [if_pos hm, answer_send hm]
    unfold send
    cases readTransaction parser i.text with
    | error message => rfl
    | ok tx =>
      dsimp only
      unfold sendTx
      cases transact rpc.evm (blockOf rpc i.time t) tx t with
      | error message => rfl
      | ok e => rfl
  · rw [if_neg hm, (answer_other hm t).1]

lemma extends_answer (i : Dispatched) (t : State) :
    Extends rpc t (acknowledged parser i (answer rpc parser i.time i.text t).response)
      (answer rpc parser i.time i.text t).state := by
  rw [← mined_acknowledged]
  by_cases hm : methodOf i.text = ascii "eth_sendRawTransaction"
  · rw [answer_send hm]
    exact extends_send _ _ _ _
  · obtain ⟨hmined, hstate⟩ := @answer_other rpc parser i.time i.text hm t
    rw [hmined, hstate]
    exact extends_nil t

/-! ### Runs -/

lemma run_dispatchAll_dispatching (clock : ℕ → UInt64) (items : List Bytes) (s : Store) :
    (run server (dispatchAll rpc parser clock items) s).2 =
      (Machines.run (dispatching rpc parser)
        (items.mapIdx fun k text => (⟨clock k, text⟩ : Dispatched)) s).2 := by
  induction items generalizing clock s with
  | nil => rfl
  | cons item items ih =>
    unfold dispatchAll
    rw [run_bind, run_bind, List.mapIdx_cons, Machines.run_cons]
    exact ih (fun k => clock (k + 1)) _

/-- A request is its dispatched requests, one after the other. -/
lemma served_dispatching (i : Input) (s : Store) :
    (served rpc parser i s).2 = (Machines.run (dispatching rpc parser) (dispatchedBy i) s).2 := by
  unfold served dispatchedBy
  rcases handleRequest_cases rpc parser i.text i.clock with hrun | ⟨single, hitems, hrun⟩
  · rw [hrun, run_bind]
    exact run_dispatchAll_dispatching _ _ _
  · rw [hrun, run_bind, hitems]
    rfl

lemma run_served (inputs : List Input) (s : Store) :
    (Machines.run (served rpc parser) inputs s).2 =
      (Machines.run (dispatching rpc parser) (inputs.flatMap dispatchedBy) s).2 := by
  induction inputs generalizing s with
  | nil => rfl
  | cons i inputs ih =>
    rw [Machines.run_cons, List.flatMap_cons, Machines.run_append]
    dsimp only
    rw [ih, served_dispatching]

/-- The transactions that are acknowledged in a run on a store. -/
def history (rpc : Rpc) (parser : TxParser) (inputs : List Input) (s : Store) : List Tx :=
  let items := inputs.flatMap dispatchedBy
  (items.zip (Machines.run (dispatching rpc parser) items s).1).flatMap fun x =>
    acknowledged parser x.1 x.2

/-- **The acknowledged transactions determine the chain, besides the slots.** After any run of
requests, single ones and batches, on any store: the block number and the nonces have gone on by
the acknowledged transactions, the nonces of each sender without a gap; the code and the receipts
are those of the transactions that stored them last; the balances are what they were. -/
theorem history_extends (rpc : Rpc) (parser : TxParser) (hr : ∀ n, rpc.evm.realloc n = true)
    (inputs : List Input) (s : Store) :
    Extends rpc (chainOf rpc.evm.uninit s) (history rpc parser inputs s)
      (chainOf rpc.evm.uninit (Machines.run (served rpc parser) inputs s).2) := by
  rw [run_served]
  refine Machines.run_rel (m := dispatching rpc parser)
    (E := fun s xs s' => Extends rpc (chainOf rpc.evm.uninit s) xs (chainOf rpc.evm.uninit s'))
    (g := acknowledged parser) (fun s => extends_nil _)
    (fun _ _ _ _ _ h h' => h.append h') (fun i s => ?_) _ s
  have hshows := @run_dispatchSingle rpc parser i.time hr i.text s
  show Extends rpc _ (acknowledged parser i (run server _ s).1) (chainOf _ (run server _ s).2)
  rw [hshows.response, hshows.state]
  exact extends_answer i _

/-- The plain transaction, sent twice: it is acknowledged once. -/
theorem history_extends_twice :
    (chainOf (.zero 32) (Machines.run (served idleRpc plainParser) [sendAndAsk, sendAndAsk]
      fun _ => none).2 .blockNumber : UInt64) = 0 + UInt64.ofNat 1 := by
  have hblock := (history_extends idleRpc plainParser (fun _ => rfl) [sendAndAsk, sendAndAsk]
    fun _ => none).block
  have hone : (history idleRpc plainParser [sendAndAsk, sendAndAsk] fun _ => none).length = 1 := by
    decide +kernel
  rw [hone] at hblock
  exact hblock

end EvmDb.History
