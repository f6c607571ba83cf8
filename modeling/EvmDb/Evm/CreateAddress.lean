import EvmDb.Block.RlpBuffer
import EvmDb.Evm.Immutable

/-!
The address of a contract: what is hashed to it.

The executor encodes the sender and the nonce to buffers of a fixed size, without long headers.
The encoders of `src/block/tx.c` write the same list.
-/

namespace EvmDb.CreateAddress

open EvmDb.Radix EvmDb.Rlp EvmDb.Types EvmDb.Keccak EvmDb.RlpBuffer EvmDb.Executor
open EvmDb.Immutable

/-- The list of a sender and a nonce, as `rlp_append_address`, `rlp_append_uint64` and
`rlp_wrap_list` write it. -/
def rlpSenderNonce (realloc : ℕ → Bool) (sender : Address) (nonce : UInt64) : Option Buffer := do
  let payload ← (rlpAppendAddress realloc sender false .empty >>= rlpAppendUint64 realloc nonce)
  rlpWrapList realloc payload .empty

/-- What is written to `payload`. -/
def createPayload (sender : Address) (nonce : UInt64) : Bytes :=
  rlpEncodeBytes sender.bytes ++ rlpEncodeUint64 nonce

variable (sender : Address) (nonce : UInt64)

lemma createPayload_eq :
    createPayload sender nonce = encodeStr sender.bytes ++ encodeStr (minimal nonce.toNat) := by
  unfold createPayload
  rw [rlpEncodeBytes_eq (by simp), rlpEncodeUint64_eq]

/-- At most 21 bytes for the sender, and nine for the nonce. -/
lemma length_createPayload_le : (createPayload sender nonce).length ≤ 30 := by
  have hnonce : (minimal nonce.toNat).length ≤ 8 := minimal_length_le nonce.toNat_lt
  have hheader : ∀ bs : Bytes, bs.length ≤ 55 → (strHeader bs).length ≤ 1 := by
    intro bs hbs
    unfold strHeader header
    split_ifs <;> simp
  have hsender := hheader sender.bytes (by simp)
  have hword := hheader (minimal nonce.toNat) (by omega)
  rw [createPayload_eq, List.length_append, length_encodeStr, length_encodeStr,
    sender.length_bytes]
  omega

lemma createInput_eq : createInput sender nonce = encodeList (createPayload sender nonce) := by
  have hlen := length_createPayload_le sender nonce
  unfold encodeList listHeader header
  rw [if_pos (by omega)]
  rfl

lemma length_createInput_le : (createInput sender nonce).length ≤ 31 :=
  Nat.succ_le_succ (length_createPayload_le sender nonce)

/-- **The input of a contract's address** is the list the encoders of transactions write, it fits
the buffers of the executor, and no other sender and nonce have it. -/
theorem createInput_agrees :
    computeCreateAddress sender nonce = addressOfHash (keccak256 (createInput sender nonce)) ∧
      (∀ realloc out, rlpSenderNonce realloc sender nonce = some out →
        out.data = createInput sender nonce) ∧
      (∃ out, rlpSenderNonce (fun _ => true) sender nonce = some out) ∧
      (createPayload sender nonce).length ≤ 32 ∧ (createInput sender nonce).length ≤ 64 ∧
      ∀ sender' nonce', createInput sender' nonce' = createInput sender nonce →
        sender' = sender ∧ nonce' = nonce := by
  have hlen := length_createPayload_le sender nonce
  have hinput := length_createInput_le sender nonce
  have hwrites : ∀ realloc, Writes realloc
      (fun buf => rlpAppendAddress realloc sender false buf >>= rlpAppendUint64 realloc nonce)
      (createPayload sender nonce) := by
    intro realloc
    rw [createPayload_eq]
    exact (writes_appendAddress sender false).bind (writes_appendUint64 nonce)
  refine ⟨rfl, ?_, ?_, by omega, by omega, fun _ _ h => createInput_inj h⟩
  · intro realloc out hout
    obtain ⟨payload, hpayload, hwrap⟩ := Option.bind_eq_some_iff.mp hout
    have hdata : payload.data = createPayload sender nonce := (hwrites realloc).data_eq hpayload
    have hout' := (writes_wrapList (by rw [hdata]; omega)).data_eq hwrap
    rw [createInput_eq, ← hdata]
    exact hout'
  · obtain ⟨payload, hpayload⟩ := @Writes.returns _ _ _ (hwrites fun _ => true) (fun _ => rfl)
      .empty (by simp [Buffer.empty]; omega)
    have hdata : payload.data = createPayload sender nonce := (hwrites _).data_eq hpayload
    have hwrap := @writes_wrapList (fun _ => true) payload (by rw [hdata]; omega)
    rw [hdata, ← createInput_eq] at hwrap
    obtain ⟨out, hout⟩ := @Writes.returns _ _ _ hwrap (fun _ => rfl) .empty
      (by simp [Buffer.empty]; omega)
    exact ⟨out, Option.bind_eq_some_iff.mpr ⟨payload, hpayload, hout⟩⟩

end EvmDb.CreateAddress
