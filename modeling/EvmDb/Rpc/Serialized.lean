import EvmDb.Lib.Turns
import EvmDb.Rpc.Chain
import EvmDb.Rpc.Linearizable

/-!
Clients whose transactions do not overlap.

Each request is handled in a thread of its own. If the requests that send a transaction take turns,
the server is the machine on the chain for them, in the order in which they begin. The requests that
only ask may come at any time.
-/

namespace EvmDb.Serialized

open EvmDb.Checked EvmDb.Types EvmDb.Program EvmDb.Redis EvmDb.Ledger EvmDb.Json EvmDb.SendRaw
open EvmDb.Dispatch EvmDb.ReadOnly EvmDb.Chain EvmDb.Threads EvmDb.Turns EvmDb.Linearizable

/-- A thread of the server. -/
def thread (rpc : Rpc) (parser : TxParser) (i : Input) : RedisProg (Read Bytes) :=
  handleRequest rpc parser i.clock i.text

/-- A dispatched request sends a transaction. -/
def Sends (i : Input) : Prop :=
  ∃ item ∈ dispatched i.text, methodOf item = ascii "eth_sendRawTransaction"

instance (i : Input) : Decidable (Sends i) := inferInstanceAs (Decidable (∃ item ∈ _, _ = _))

/-- The other requests change nothing. -/
lemma silent_thread (rpc : Rpc) (parser : TxParser) {i : Input} (hi : ¬ Sends i) :
    Issues (Silent server) (fun _ => True) (thread rpc parser i) := by
  have hqueries : Queries ⟨rpc, parser, i.clock, i.text⟩ := fun item hitem hm =>
    hi ⟨item, hitem, hm⟩
  exact (onlyReads_program hqueries).mono (fun _ hc s => exec_of_read hc s) fun _ => id

variable {ι : Type} [DecidableEq ι]

/-- **Transactions that do not overlap are executed one after another.** In any company of requests
that only ask, and by any schedule in which the requests that send take turns and end, these get the
responses of the machine on the chain, in the order in which they begin, and the components
afterwards are those of the machine. -/
theorem senders_serialised (rpc : Rpc) (parser : TxParser) (hr : ∀ n, rpc.evm.realloc n = true)
    (inputs : ι → Input) (s : Store) (schedule : List ι)
    (hturns : TakeTurns server (fun i => thread rpc parser (inputs i)) (fun i => Sends (inputs i)) s
      schedule)
    (hend : ∀ i ∈ schedule, Sends (inputs i) → (result ((Pool.run server schedule
      ⟨s, fun i => thread rpc parser (inputs i)⟩).2.threads i)).isSome) :
    let order := begun (fun i => Sends (inputs i)) schedule
    let run := Pool.run server schedule ⟨s, fun i => thread rpc parser (inputs i)⟩
    let on := Machines.run (chain rpc parser) (order.map inputs) (chainOf rpc.evm.uninit s)
    order.map (fun i => result (run.2.threads i)) = on.1.map (fun out => some out.1) ∧
      chainOf rpc.evm.uninit run.2.state = on.2 := by
  intro order run on
  obtain ⟨hresults, hstate⟩ := run_turns (fun i hi => silent_thread rpc parser hi) hturns hend
  have hrefined := (@refines_step rpc parser hr).run (order.map inputs) s
  rw [← Machines.run_map] at hrefined
  obtain ⟨houts, hchain⟩ := hrefined
  have halone : alone server (fun i => thread rpc parser (inputs i)) =
      fun i => served rpc parser (inputs i) := rfl
  rw [halone] at hresults hstate
  refine ⟨?_, ?_⟩
  · refine hresults.trans ?_
    rw [houts, List.map_map]
    rfl
  · rw [← hchain]
    exact congrArg _ hstate

/-- Two clients send the plain transaction, and one asks for the number of the latest block. -/
def oneAsks : Fin 3 → Input
  | 0 => ⟨fun _ => 0, Interleaved.plainClient.request⟩
  | 1 => ⟨fun _ => 0, askingClient.request⟩
  | 2 => ⟨fun _ => 0, Interleaved.plainClient.request⟩

/-- The first one is asked between its commands; the second one comes too late. -/
theorem senders_serialised_oneAsks :
    (begun (fun i => Sends (oneAsks i)) [0, 0, 0, 1, 0, 0, 0, 2, 2]).map (fun i => result
        ((Pool.run server [0, 0, 0, 1, 0, 0, 0, 2, 2]
          ⟨fun _ => none, fun i => thread idleRpc plainParser (oneAsks i)⟩).2.threads i)) =
      (Machines.run (chain idleRpc plainParser)
        ((begun (fun i => Sends (oneAsks i)) [0, 0, 0, 1, 0, 0, 0, 2, 2]).map oneAsks)
        (chainOf idleRpc.evm.uninit fun _ => none)).1.map fun out => some out.1 :=
  (senders_serialised idleRpc plainParser (fun _ => rfl) oneAsks (fun _ => none)
    [0, 0, 0, 1, 0, 0, 0, 2, 2] (by unfold TakeTurns; decide +kernel) (by decide +kernel)).1

end EvmDb.Serialized
