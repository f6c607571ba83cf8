import EvmDb.Rpc.Interleaved

/-!
Requests that only read, in the company of others.

All methods but two need at most one command, so their responses are those of some moment. A call
of a contract reads as often as the contract does, and may see several moments.
-/

namespace EvmDb.Linearizable

open EvmDb.Checked EvmDb.Types EvmDb.Program EvmDb.Redis EvmDb.RedisState EvmDb.Plan
open EvmDb.Request EvmDb.Json EvmDb.SendRaw EvmDb.Handlers EvmDb.Dispatch EvmDb.ReadOnly
open EvmDb.Threads EvmDb.Paths EvmDb.Interleaved

/-! ### Programs with one command -/

/-- A program that has ended, or that ends after one command. -/
def OneShot {α : Type} (p : RedisProg α) : Prop :=
  (∃ a, p = .ret a) ∨ ∃ (c : Command) (f : Option Reply → α), p = .cmd c fun r => .ret (f r)

variable {α β : Type} {id : Bytes}

lemma OneShot.map {p : RedisProg α} (hp : OneShot p) (g : α → β) :
    OneShot (p >>= fun a => .ret (g a)) := by
  rcases hp with ⟨a, rfl⟩ | ⟨c, f, rfl⟩
  · exact Or.inl ⟨g a, rfl⟩
  · exact Or.inr ⟨c, fun r => g (f r), rfl⟩

/-- It ends after a command if it has ended whatever the reply is. -/
lemma oneShot_cmd {c : Command} {k : Option Reply → RedisProg α} (h : ∀ r, ∃ a, k r = .ret a) :
    OneShot (.cmd c k) := by
  choose f hf using h
  exact Or.inr ⟨c, f, by rw [funext hf]⟩

/-- On its way, such a program has issued at most one command. -/
lemma OneShot.length_path {p q : RedisProg α} (hp : OneShot p)
    {l : List ((_ : Command) × Option Reply)} (h : Path p l q) : l.length ≤ 1 := by
  rcases hp with ⟨a, rfl⟩ | ⟨c, f, rfl⟩
  · obtain ⟨rfl, -⟩ := Path.of_ret h
    exact Nat.zero_le 1
  · rcases Path.of_cmd h with ⟨rfl, -⟩ | ⟨r, l', rfl, hrest⟩
    · exact Nat.zero_le 1
    · obtain ⟨rfl, -⟩ := Path.of_ret hrest
      exact le_rfl

/-- A handler that takes an address is such a program if it is one for each address. -/
lemma oneShot_withAddress {params : List Bytes} {handle : Address → RedisProg Response}
    (hh : ∀ addr, OneShot (handle addr)) : OneShot (withAddress id params handle) := by
  unfold withAddress
  split
  · exact Or.inl ⟨_, rfl⟩
  · split
    · exact Or.inl ⟨_, rfl⟩
    · exact hh _

lemma oneShot_getCode (params : List Bytes) : OneShot (handleGetCode id params) := by
  refine oneShot_withAddress fun addr => oneShot_cmd fun r => ?_
  show ∃ a, (ite ((bytesOf r).length = 0) _ _ : RedisProg Response) = .ret a
  split_ifs <;> exact ⟨_, rfl⟩

lemma oneShot_getStorageAt (rpc : Rpc) (params : List Bytes) :
    OneShot (handleGetStorageAt rpc id params) := by
  unfold handleGetStorageAt
  split
  · split
    · exact Or.inl ⟨_, rfl⟩
    · split
      · exact Or.inl ⟨_, rfl⟩
      · exact Or.inr ⟨_, _, rfl⟩
  · exact Or.inl ⟨_, rfl⟩

lemma oneShot_estimateGas (request : Bytes) : OneShot (handleEstimateGas id request) := by
  unfold handleEstimateGas
  split
  · exact Or.inl ⟨_, rfl⟩
  · dsimp only
    split <;> exact Or.inl ⟨_, rfl⟩

lemma oneShot_getTransactionReceipt (params : List Bytes) :
    OneShot (handleGetTransactionReceipt id params) := by
  unfold handleGetTransactionReceipt
  split
  · exact Or.inl ⟨_, rfl⟩
  · split
    · exact Or.inl ⟨_, rfl⟩
    · refine oneShot_cmd fun r => ?_
      show ∃ a, (ite ((bytesOf r).length = 0) _ _ : RedisProg (Read Response)) = .ret a
      split_ifs <;> exact ⟨_, rfl⟩

/-- **All methods but two need at most one command.** -/
lemma oneShot_dispatchSingle (rpc : Rpc) (parser : TxParser) (time : UInt64) {request : Bytes}
    (hsend : methodOf request ≠ ascii "eth_sendRawTransaction")
    (hcall : methodOf request ≠ ascii "eth_call") :
    OneShot (dispatchSingle rpc parser time request) := by
  have hconst : ∀ response, OneShot (determined (.ret response)) :=
    fun response => Or.inl ⟨_, rfl⟩
  have hdetermined : ∀ {p : RedisProg Response}, OneShot p → OneShot (determined p) :=
    fun hp => hp.map _
  have hone : ∀ (c : Command) (f : Option Reply → Response),
      OneShot (determined (.cmd c fun r => .ret (f r))) := fun c f => Or.inr ⟨_, _, rfl⟩
  refine dispatchSingle_of rpc parser time request (hconst _) ?_
  simp only [handlers, List.forall_mem_cons, List.not_mem_nil, false_implies, implies_true,
    and_true]
  refine ⟨fun _ => hconst _, fun _ => hone _ _, fun _ => hconst _,
    fun _ => hdetermined (oneShot_withAddress fun _ => Or.inr ⟨_, _, rfl⟩),
    fun _ => hdetermined (oneShot_withAddress fun _ => Or.inr ⟨_, _, rfl⟩),
    fun _ => hdetermined (oneShot_getCode _), fun hm => absurd hm hsend,
    fun _ => hconst _, fun _ => hconst _, fun hm => absurd hm hcall,
    fun _ => hdetermined (oneShot_estimateGas _), fun _ => hone _ _,
    fun _ => hone _ _, fun _ => hconst _,
    fun _ => oneShot_getTransactionReceipt _, fun _ => hconst _,
    fun _ => hone _ _, fun _ => hconst _, fun _ => hconst _, fun _ => hconst _,
    fun _ => hconst _, fun _ => hconst _, fun _ => hdetermined (oneShot_getStorageAt _ _),
    fun _ => hconst _, fun _ => hconst _, fun _ => hconst _⟩

/-! ### Requests in company -/

/-- No dispatched request sends a transaction. -/
def Queries (c : Client) : Prop :=
  ∀ item ∈ dispatched c.request, methodOf item ≠ ascii "eth_sendRawTransaction"

lemma onlyReads_dispatchAll {rpc : Rpc} {parser : TxParser} {clock : ℕ → UInt64}
    {items : List Bytes} (h : ∀ item ∈ items, methodOf item ≠ ascii "eth_sendRawTransaction") :
    OnlyReads (dispatchAll rpc parser clock items) := by
  induction items generalizing clock with
  | nil => exact trivial
  | cons item items ih =>
    have hhead : OnlyReads (dispatchSingle rpc parser (clock 0) item) :=
      onlyReads_dispatchSingle parser (h item List.mem_cons_self)
    exact hhead.bind fun _ _ =>
      (ih fun item' hi => h item' (List.mem_cons_of_mem _ hi)).bind fun _ _ => trivial

lemma onlyReads_program {c : Client} (h : Queries c) : OnlyReads c.program := by
  unfold Client.program
  rcases handleRequest_cases c.rpc c.parser c.request c.clock with hrun | ⟨single, hitems, hrun⟩
  · rw [hrun]
    exact (onlyReads_dispatchAll h).bind fun _ _ => trivial
  · rw [hrun]
    have hsingle : OnlyReads (dispatchSingle c.rpc c.parser (c.clock 0) single) :=
      onlyReads_dispatchSingle c.parser (h single (by rw [hitems]; exact List.mem_singleton_self _))
    exact hsingle.bind fun _ _ => trivial

/-- A request of one item that is neither a transaction nor a call needs at most one command. -/
lemma oneShot_program {c : Client} {item : Bytes} (hitem : dispatched c.request = [item])
    (hsend : methodOf item ≠ ascii "eth_sendRawTransaction")
    (hcall : methodOf item ≠ ascii "eth_call") : OneShot c.program := by
  have hshot := fun time => oneShot_dispatchSingle c.rpc c.parser time hsend hcall
  unfold Client.program
  rcases handleRequest_cases c.rpc c.parser c.request c.clock with hrun | ⟨single, hitems, hrun⟩
  · rw [hrun, hitem]
    have hone : (dispatchAll c.rpc c.parser c.clock [item] >>= fun responses =>
        return batchText responses) =
          (dispatchSingle c.rpc c.parser (c.clock 0) item >>= fun response =>
            .ret (batchText [response])) := by
      unfold dispatchAll
      rw [bind_assoc]
      rfl
    rw [hone]
    exact (hshot _).map _
  · rw [hitem] at hitems
    rw [hrun, ← (List.cons.inj hitems).1]
    exact (hshot _).map _

variable {ι : Type} [DecidableEq ι]

/-- **Queries are answered as if they were handled at once.** In any company and by any schedule, a
request that only reads and that found the same store with all its commands is answered as if it
had been handled alone on that store; and a single request finds one store only, unless it calls a
contract. -/
theorem queries_linearizable (clients : ι → Client) (s : Store) (schedule : List ι) (i : ι)
    (hqueries : Queries (clients i)) :
    let run := Pool.run server schedule ⟨s, fun i => (clients i).program⟩
    (∀ a t, run.2.threads i = .ret a → (∀ e ∈ run.1, e.who = i → e.before = t) →
      Program.run server (clients i).program t = (a, t)) ∧
    ∀ item, dispatched (clients i).request = [item] → methodOf item ≠ ascii "eth_call" →
      ∃ t, ∀ e ∈ run.1, e.who = i → e.before = t := by
  intro run
  have hpath := run_path server (fun i => (clients i).program) s schedule i
  have hreads := onlyReads_program hqueries
  constructor
  · intro a t hend hsame
    rw [hend] at hpath
    have hrun : (Program.run server (clients i).program t).1 = a := by
      refine hpath.run_eq (fun x hx => ?_) fun x hx => ?_
      · obtain ⟨e, he, rfl⟩ := List.mem_map.mp hx
        obtain ⟨he, hwho⟩ := List.mem_filter.mp he
        rw [hsame e he (of_decide_eq_true hwho)]
      · exact exec_of_read ((hpath.issues hreads).1 x hx) t
    exact Prod.ext hrun (run_reads hreads t).1
  · intro item hitem hcall
    have hsend := hqueries item (by rw [hitem]; exact List.mem_singleton_self _)
    have hlen := (oneShot_program hitem hsend hcall).length_path hpath
    unfold own at hlen
    rw [List.length_map] at hlen
    rcases hown : run.1.filter (fun e => e.who = i) with _ | ⟨e₁, _ | ⟨e₂, es⟩⟩
    · refine ⟨s, fun e he hwho => ?_⟩
      have hmem : e ∈ run.1.filter (fun e => e.who = i) := List.mem_filter.mpr ⟨he, by simpa⟩
      rw [hown] at hmem
      cases hmem
    · refine ⟨e₁.before, fun e he hwho => ?_⟩
      have hmem : e ∈ run.1.filter (fun e => e.who = i) := List.mem_filter.mpr ⟨he, by simpa⟩
      rw [hown] at hmem
      rw [List.mem_singleton.mp hmem]
    · have hlen' : (run.1.filter (fun e => e.who = i)).length ≤ 1 := hlen
      rw [hown] at hlen'
      simp at hlen'

/-- A client that asks for the number of the latest block. -/
def askingClient : Client :=
  ⟨idleRpc, plainParser, fun _ => 0, ascii "\x7b\"method\":\"eth_blockNumber\"\x7d"⟩

/-- One client asks while the other one sends the plain transaction: there is a moment it asks at. -/
theorem queries_linearizable_asking : ∃ t, ∀ e ∈ (Pool.run server [true, true, false, true]
    ⟨fun _ => none, fun b : Bool => (if b then plainClient else askingClient).program⟩).1,
      e.who = false → e.before = t :=
  (queries_linearizable (fun b : Bool => if b then plainClient else askingClient) (fun _ => none)
    [true, true, false, true] false (by unfold Queries; decide +kernel)).2 askingClient.request
      (by decide +kernel) (by decide +kernel)

end EvmDb.Linearizable
