import EvmDb.Evm.Gas
import EvmDb.Evm.Overlay
import EvmDb.Rpc.SendRaw

/-!
What a contract is told about its transaction, against the transaction's receipt.

The contract runs in the context of the latest block, and its receipt is that of the next one. The
gas price and the origin are the same in both.
-/

namespace EvmDb.TxEnvironment

open EvmDb.Types EvmDb.Program EvmDb.Redis EvmDb.RedisState EvmDb.Host EvmDb.Executor EvmDb.Plan
open EvmDb.Effects EvmDb.Gas EvmDb.Overlay EvmDb.Request EvmDb.SendRaw

variable (rpc : Rpc) (parser : TxParser) (time : UInt64) (id request : Bytes)

/-- The callbacks of the contract that a transaction executes, with what it was answered. -/
def contractHistory (tx : Tx) (s : Store) :
    List ((ExecContext × Store) × (c : HostCall) × c.Answer) :=
  history (hostHandler rpc.evm.toHostEnv)
    (rpc.evm.execute (messageFor tx.fromAddr tx.toAddr tx.data (.zero 32)
      (tx.gasLimit - intrinsicGas tx.data) 0) (storedCode s tx.toAddr))
    (contextFor (some (contextOn rpc time s)) tx.fromAddr, s)

/-- The contract of a transaction is shown this context. -/
def Shown (tx : Tx) (s : Store) (shown : TxContext) : Prop :=
  Executes tx s ∧ ∃ x, (x, (⟨.getTxContext, shown⟩ : (c : HostCall) × c.Answer)) ∈
    contractHistory rpc time tx s

/-- The contract of a transaction asks for its context. -/
def Asks (tx : Tx) (s : Store) : Prop :=
  Executes tx s ∧ .getTxContext ∈ contractCalls rpc.evm tx (some (contextOn rpc time s)) s

/-- A context says what a receipt says. -/
structure Agrees (shown : TxContext) (receipt : Receipt) : Prop where
  blockNumber : shown.blockNumber.toInt = receipt.blockNumber.toNat
  gasPrice : Radix.value shown.txGasPrice.bytes = receipt.effectiveGasPrice.toNat
  origin : shown.txOrigin = receipt.fromAddr

/-- The request leaves a receipt of the transaction, and what its contract was shown agrees with
the receipt. -/
structure EnvironmentAgrees (tx : Tx) (s : Store) : Prop where
  recorded : ∃ receipt : Receipt,
    (run server (handleSendRawTransaction rpc parser time id request) s).2 (receiptCell tx.hash) =
      some receipt.text
  agrees : ∀ (receipt : Receipt) (shown : TxContext),
    (run server (handleSendRawTransaction rpc parser time id request) s).2 (receiptCell tx.hash) =
      some receipt.text → Shown rpc time tx s shown → Agrees shown receipt

/-- The request leaves a receipt of the transaction, and whatever its contract was shown has the gas
price and the origin of the receipt. -/
def PriceAndOriginAgree (tx : Tx) (s : Store) : Prop :=
  ∃ receipt : Receipt,
    (run server (handleSendRawTransaction rpc parser time id request) s).2 (receiptCell tx.hash) =
      some receipt.text ∧
    ∀ shown, Shown rpc time tx s shown →
      Radix.value shown.txGasPrice.bytes = receipt.effectiveGasPrice.toNat ∧
        shown.txOrigin = receipt.fromAddr

/-! ### What is shown -/

variable {rpc parser time id request}

/-- No callback changes what the contract is told about its transaction. -/
lemma issues_txContext {env : HostEnv} (c : HostCall) (ctx : ExecContext) :
    Issues (fun _ => True) (fun p => hostGetTxContext p.2 = hostGetTxContext ctx)
      (hostInterface env c ctx) := by
  have hread : ∀ {β : Type} {post : β → Prop} {k : Bytes32 → RedisProg β} {addr key},
      (∀ v, Issues (fun _ => True) post (k v)) →
        Issues (fun _ => True) post (currentStorage env ctx addr key >>= k) := by
    intro β post k addr key hk
    unfold currentStorage
    split
    · exact hk _
    · exact issues_read (P := fun _ => True) trivial _ hk
  cases c with
  | accountExists addr => exact ⟨trivial, fun _ => ⟨trivial, fun _ => ⟨trivial, fun _ => rfl⟩⟩⟩
  | getStorage addr key => exact hread fun _ => rfl
  | setStorage addr key value => exact hread fun _ => txContext_setWrite ctx addr key value
  | copyCode addr offset size => exact ⟨trivial, fun _ => rfl⟩
  | getBalance addr => exact ⟨trivial, fun _ => rfl⟩
  | getCodeSize addr => exact ⟨trivial, fun _ => rfl⟩
  | getCodeHash addr => exact ⟨trivial, fun _ => rfl⟩
  | _ => rfl

lemma txContext_hostHandler {env : HostEnv} (x : ExecContext × Store) (c : HostCall) :
    hostGetTxContext (hostHandler env x c).2.1 = hostGetTxContext x.1 :=
  ((issues_txContext c x.1).run_inv (I := fun _ => True) (fun _ _ _ _ => trivial)
    (h := server) (s := x.2) trivial).2

section

variable {tx : Tx} {s : Store}

/-- Whoever asks is shown what the context was made of. -/
lemma shown_iff {shown : TxContext} : Shown rpc time tx s shown ↔ Asks rpc time tx s ∧
    shown = hostGetTxContext (contextFor (some (contextOn rpc time s)) tx.fromAddr) := by
  have hinv := forall_history (h := hostHandler rpc.evm.toHostEnv)
    (I := fun x => hostGetTxContext x.1 =
      hostGetTxContext (contextFor (some (contextOn rpc time s)) tx.fromAddr))
    (fun x c hx => (txContext_hostHandler x c).trans hx)
    (rpc.evm.execute (messageFor tx.fromAddr tx.toAddr tx.data (.zero 32)
      (tx.gasLimit - intrinsicGas tx.data) 0) (storedCode s tx.toAddr))
    (s := (contextFor (some (contextOn rpc time s)) tx.fromAddr, s)) rfl
  unfold Shown Asks contractCalls
  rw [← map_history]
  constructor
  · rintro ⟨hexecutes, x, hx⟩
    obtain ⟨hctx, hanswer⟩ := hinv _ hx
    exact ⟨⟨hexecutes, List.mem_map.mpr ⟨_, hx, rfl⟩⟩, hanswer.trans hctx⟩
  · rintro ⟨⟨hexecutes, hasked⟩, rfl⟩
    obtain ⟨⟨x, c, answer⟩, hx, hc⟩ := List.mem_map.mp hasked
    obtain ⟨hctx, hanswer⟩ := hinv _ hx
    dsimp only at hc hctx hanswer
    subst hc
    refine ⟨hexecutes, x, ?_⟩
    have hsame : answer =
        hostGetTxContext (contextFor (some (contextOn rpc time s)) tx.fromAddr) :=
      hanswer.trans hctx
    rw [← hsame]
    exact hx

lemma value_bytes32FromUint64 (n : UInt64) : Radix.value (bytes32FromUint64 n).bytes = n.toNat := by
  have hlen : (Radix.minimal n.toNat).length ≤ 32 :=
    Radix.length_minimal_le (n.toNat_lt.trans (by norm_num))
  rw [bytes32FromUint64, FixedBytes.rightAlign_of_le hlen, Radix.value_pad, Radix.value_minimal]

/-- The gas price and the origin are those of the receipt. -/
lemma price_and_origin {shown : TxContext} (h : Shown rpc time tx s shown) (number : UInt64)
    (success : Bool) (gasUsed : UInt64) :
    Radix.value shown.txGasPrice.bytes =
        (receiptFor rpc tx number success gasUsed).effectiveGasPrice.toNat ∧
      shown.txOrigin = (receiptFor rpc tx number success gasUsed).fromAddr := by
  obtain ⟨-, rfl⟩ := shown_iff.mp h
  exact ⟨value_bytes32FromUint64 rpc.baseFee, rfl⟩

/-- A number, as a signed one, is not the next number. -/
lemma toInt_toInt64_ne_succ (n : UInt64) : n.toInt64.toInt ≠ ((n + 1).toNat : ℤ) := by
  rw [toInt_toInt64, UInt64.toNat_add, UInt64.toNat_one]
  split_ifs <;> omega

/-- What a request that is not answered with an error records. -/
lemma receipt_recorded (htx : sentTx parser request = some tx)
    (hok : (run server (handleSendRawTransaction rpc parser time id request) s).1.isError = false) :
    ∃ success gasUsed,
      (run server (handleSendRawTransaction rpc parser time id request) s).2 (receiptCell tx.hash) =
        some (receiptFor rpc tx (storedBlock s + 1) success gasUsed).text := by
  rcases handleSendRawTransaction_eq parser id request with ⟨tx', htx', hrun⟩ | ⟨hnone, -⟩
  · rw [htx] at htx'
    cases htx'
    rw [hrun, run_executeAndRecord] at hok ⊢
    generalize run server (executeTx rpc.evm tx (some (contextOn rpc time s)) .zero) s = out
      at hok ⊢
    by_cases hrc : out.1.1 ≠ 0
    · rw [if_pos hrc] at hok
      cases hok
    · rw [if_neg hrc]
      exact ⟨_, _, put_same _ _ _⟩
  · rw [htx] at hnone
    cases hnone

/-- **The environment and the receipt agree** only as far as the contract does not look: the block
number it is shown is one behind. The gas price and the origin agree in any case. -/
theorem environmentAgrees_iff (htx : sentTx parser request = some tx)
    (hok : (run server (handleSendRawTransaction rpc parser time id request) s).1.isError = false) :
    (EnvironmentAgrees rpc parser time id request tx s ↔ ¬ Asks rpc time tx s) ∧
      PriceAndOriginAgree rpc parser time id request tx s := by
  obtain ⟨success, gasUsed, hreceipt⟩ := receipt_recorded htx hok
  refine ⟨⟨?_, ?_⟩, ?_⟩
  · intro hagrees hasks
    have hagree := hagrees.agrees _ _ hreceipt (shown_iff.mpr ⟨hasks, rfl⟩)
    exact toInt_toInt64_ne_succ (storedBlock s) hagree.blockNumber
  · intro hasks
    refine ⟨⟨_, hreceipt⟩, fun receipt shown _ hshown => ?_⟩
    exact (hasks (shown_iff.mp hshown).1).elim
  · exact ⟨_, hreceipt, fun shown hshown => price_and_origin hshown _ _ _⟩

/-- An interpreter whose contracts ask for their context and return. -/
def curious : Evm :=
  { idle with execute := fun _ _ => .cmd .getTxContext fun _ => .ret ⟨0, 0, []⟩ }

def curiousRpc : Rpc := ⟨curious, 1, 0, 0⟩

/-- A store with a contract at the address that the plain transaction calls. -/
def contractStore : Store := put (fun _ => none) (codeCell (.zero 20)) [0]

lemma curious_ok : (run server (handleSendRawTransaction curiousRpc plainParser 0 [49] plainRequest)
    contractStore).1.isError = false := by decide +kernel

lemma curious_asks : Asks curiousRpc 0 plainTx contractStore :=
  ⟨by decide +kernel, List.mem_cons_self⟩

/-- To a contract that asks, the first block is shown as block zero. -/
theorem not_environmentAgrees_curious :
    ¬ EnvironmentAgrees curiousRpc plainParser 0 [49] plainRequest plainTx contractStore := by
  intro hagrees
  obtain ⟨success, gasUsed, hreceipt⟩ := receipt_recorded rfl curious_ok
  have hagree := hagrees.agrees _ _ hreceipt (shown_iff.mpr ⟨curious_asks, rfl⟩)
  exact toInt_toInt64_ne_succ (storedBlock contractStore) hagree.blockNumber

/-- A contract that counts, and does not ask. -/
theorem environmentAgrees_counting :
    let tx := callTx (.rightAlign 20 [1]) (.zero 20)
    let s := counter (.zero 20) 6 fun _ => none
    Executes tx s ∧ EnvironmentAgrees countingRpc callParser 0 [49] plainRequest tx s := by
  refine ⟨by decide +kernel, (environmentAgrees_iff rfl (by decide +kernel)).1.mpr ?_⟩
  rintro ⟨-, hasked⟩
  have hcalls : contractCalls counting (callTx (.rightAlign 20 [1]) (.zero 20))
      (some (contextOn countingRpc 0 (counter (.zero 20) 6 fun _ => none)))
        (counter (.zero 20) 6 fun _ => none) =
      [.getStorage (.zero 20) (.zero 32), .setStorage (.zero 20) (.zero 32) _] := rfl
  rw [show countingRpc.evm = counting from rfl, hcalls] at hasked
  simp at hasked

end

end EvmDb.TxEnvironment
