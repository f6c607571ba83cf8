import EvmDb.Block.TxItems
import EvmDb.Block.TxSigning

/-!
Decoding undoes encoding.

A transaction is serialised with the encoders of `src/block/tx.c` in the field order its
decoder expects. What comes back has the same fields; the chain id of a legacy transaction is
the one its `v` carries.
-/

namespace EvmDb.TxRoundTrip

open EvmDb.Radix EvmDb.Rlp EvmDb.Checked EvmDb.Types EvmDb.RlpReader EvmDb.RlpBuffer
open EvmDb.TxDecode EvmDb.TxItems EvmDb.TxSigning

variable (realloc : ℕ → Bool)

/-- The signature, behind the signed fields. -/
def payloadSignature (tx : Tx) (payload : Buffer) : Option Buffer := do
  let payload ← rlpAppendUint64 realloc tx.v payload
  let payload ← rlpAppendBytes32 realloc tx.r payload
  rlpAppendBytes32 realloc tx.s payload

/-- The fields of a signed legacy transaction. -/
def payloadSignedLegacy (tx : Tx) (payload : Buffer) : Option Buffer := do
  let payload ← rlpAppendUint64 realloc tx.nonce payload
  let payload ← rlpAppendBytes32 realloc tx.gasPrice payload
  let payload ← rlpAppendUint64 realloc tx.gasLimit payload
  let payload ← rlpAppendAddress realloc tx.toAddr tx.toIsNull payload
  let payload ← rlpAppendBytes32 realloc tx.value payload
  let payload ← rlpAppendBytes realloc tx.data payload
  payloadSignature realloc tx payload

/-- A transaction in the field order of the decoder. -/
def serialize (tx : Tx) : Option Bytes :=
  match tx.type with
  | .eip1559 => do
    let payload ← payloadEip1559 realloc tx .empty
    let payload ← payloadSignature realloc tx payload
    let encoded ← rlpBufferAppendByte realloc 0x02 .empty
    let encoded ← rlpWrapList realloc payload encoded
    return encoded.data
  | .legacy => do
    let payload ← payloadSignedLegacy realloc tx .empty
    let encoded ← rlpWrapList realloc payload .empty
    return encoded.data
  | .eip2930 => none

/-! ### The items of a transaction -/

/-- The contents of the items of a legacy transaction. -/
def legacyOf (tx : Tx) : Legacy where
  nonce := minimal tx.nonce.toNat
  gasPrice := strip tx.gasPrice.bytes
  gasLimit := minimal tx.gasLimit.toNat
  recipient := recipient tx.toAddr tx.toIsNull
  value := strip tx.value.bytes
  data := tx.data
  v := minimal tx.v.toNat
  r := strip tx.r.bytes
  s := strip tx.s.bytes

/-- The contents of the items of an EIP-1559 transaction. -/
def eip1559Of (tx : Tx) : Eip1559 where
  chainId := minimal tx.chainId.toNat
  nonce := minimal tx.nonce.toNat
  maxPriorityFee := strip tx.maxPriorityFee.bytes
  maxFeePerGas := strip tx.maxFeePerGas.bytes
  gasLimit := minimal tx.gasLimit.toNat
  recipient := recipient tx.toAddr tx.toIsNull
  value := strip tx.value.bytes
  data := tx.data
  accessList := .list []
  v := minimal tx.v.toNat
  r := strip tx.r.bytes
  s := strip tx.s.bytes

/-- The code of a transaction. -/
def code (tx : Tx) : Bytes :=
  match tx.type with
  | .eip1559 => 0x02 :: encode (.list (eip1559Of tx).items)
  | _ => encode (.list (legacyOf tx).items)

variable {realloc} {tx : Tx} {malloc : Malloc}

lemma writes_payloadSignature (tx : Tx) : Writes realloc (payloadSignature realloc tx)
    (encodeStr (minimal tx.v.toNat) ++
      (encodeStr (strip tx.r.bytes) ++ encodeStr (strip tx.s.bytes))) :=
  (writes_appendUint64 tx.v).bind <| (writes_appendBytes32 tx.r).bind (writes_appendBytes32 tx.s)

lemma writes_payloadSignedLegacy (hd : tx.data.length < 2 ^ 64) :
    Writes realloc (payloadSignedLegacy realloc tx) (encodeAll (legacyOf tx).items) := by
  have h : Writes realloc (payloadSignedLegacy realloc tx) _ :=
    (writes_appendUint64 tx.nonce).bind <| (writes_appendBytes32 tx.gasPrice).bind <|
    (writes_appendUint64 tx.gasLimit).bind <|
    (writes_appendAddress tx.toAddr tx.toIsNull).bind <| (writes_appendBytes32 tx.value).bind <|
    (writes_appendBytes hd).bind (writes_payloadSignature tx)
  simpa only [Legacy.items, legacyOf, encodeAll, encode, List.append_nil] using h

lemma writes_signedEip1559 (ht : tx.type = .eip1559) (hd : tx.data.length < 2 ^ 64) :
    Writes realloc (fun buf => payloadEip1559 realloc tx buf >>= payloadSignature realloc tx)
      (encodeAll (eip1559Of tx).items) := by
  have h := (@writes_payloadEip1559 realloc tx ht hd).bind (writes_payloadSignature tx)
  simpa only [signingItems, ht, Eip1559.items, Eip1559.signature, List.cons_append,
    List.nil_append, eip1559Of, encodeAll, encode, uintItem, wordItem,
    addressItem, List.append_nil, List.append_assoc] using h

/-- A payload, wrapped as a list behind what another encoder writes. -/
lemma wrapped {f g : Buffer → Option Buffer} {as bs : Bytes} (hf : Writes realloc f as)
    (hg : Writes realloc g bs) (hr : ∀ n, realloc n = true)
    (hlen : (bs ++ encodeList as).length < 2 ^ 63) :
    (do
      let payload ← f .empty
      let encoded ← g .empty
      let encoded ← rlpWrapList realloc payload encoded
      return encoded.data) = some (bs ++ encodeList as) := by
  rw [List.length_append, length_encodeList] at hlen
  obtain ⟨payload, hp⟩ := @Writes.returns _ _ _ hf hr .empty (by simp [Buffer.empty]; omega)
  obtain ⟨front, hfront⟩ := @Writes.returns _ _ _ hg hr .empty (by simp [Buffer.empty]; omega)
  have hpay : payload.data = as := hf.data_eq hp
  have hpre : front.data = bs := hg.data_eq hfront
  have hw := @writes_wrapList realloc payload (by rw [hpay]; omega)
  obtain ⟨out, ho⟩ := @Writes.returns _ _ _ hw hr front (by
    rw [hpay, hpre, length_encodeList]; omega)
  have hout := hw.data_eq ho
  simp only [hp, hfront, ho, Option.bind_eq_bind, Option.bind_some, Option.pure_def]
  rw [hout, hpay, hpre]

lemma length_data_le_code (tx : Tx) : tx.data.length ≤ (code tx).length := by
  unfold code
  split
  · simp [encode, length_encodeList, Eip1559.items, Eip1559.signature, encodeAll, length_encodeStr,
      eip1559Of]
    omega
  · simp [encode, length_encodeList, Legacy.items, encodeAll, length_encodeStr, legacyOf]
    omega

/-- Serialisation writes the code. -/
lemma serialize_eq (ht : tx.type ≠ .eip2930) (hr : ∀ n, realloc n = true)
    (hlen : (code tx).length < 2 ^ 63) : serialize realloc tx = some (code tx) := by
  have hd : tx.data.length < 2 ^ 64 := by
    have := length_data_le_code tx
    omega
  unfold serialize
  split
  case h_1 h =>
    have hcode : code tx = [0x02] ++ encodeList (encodeAll (eip1559Of tx).items) := by
      simp [code, h, encode]
    rw [hcode] at hlen ⊢
    rw [← wrapped (writes_signedEip1559 h hd) (writes_appendByte 0x02) hr hlen, bind_assoc]
  case h_2 h =>
    have hcode : code tx = [] ++ encodeList (encodeAll (legacyOf tx).items) := by
      simp [code, h, encode]
    have hnone : Writes realloc some [] :=
      ⟨fun h => by cases h; rw [List.append_nil], fun _ _ _ => ⟨_, rfl⟩⟩
    rw [hcode] at hlen ⊢
    rw [← wrapped (writes_payloadSignedLegacy hd) hnone hr hlen]
    rfl
  case h_3 h => exact absurd h ht

/-! ### Decoding -/

/-- The fields of two transactions agree, as far as their type has them. -/
structure SameFields (a b : Tx) : Prop where
  type : a.type = b.type
  chainId : a.type = .eip1559 → a.chainId = b.chainId
  nonce : a.nonce = b.nonce
  gasPrice : a.type = .legacy → a.gasPrice = b.gasPrice
  maxPriorityFee : a.type = .eip1559 → a.maxPriorityFee = b.maxPriorityFee
  maxFeePerGas : a.type = .eip1559 → a.maxFeePerGas = b.maxFeePerGas
  gasLimit : a.gasLimit = b.gasLimit
  toIsNull : a.toIsNull = b.toIsNull
  toAddr : a.toIsNull = false → a.toAddr = b.toAddr
  value : a.value = b.value
  data : a.data = b.data
  v : a.v = b.v
  r : a.r = b.r
  s : a.s = b.s

/-- The chain id of a decoded legacy transaction is the one its `v` carries. -/
structure ChainIdFromV (tx : Tx) : Prop where
  eip155 : ∀ c p : ℕ, p ≤ 1 → tx.v.toNat = 35 + 2 * c + p → tx.chainId.toNat = c
  preEip155 : tx.v = 27 ∨ tx.v = 28 → tx.chainId = 0

lemma word_uint (v : UInt64) : word ((minimal v.toNat).take 8) = v := by
  have hlen : (minimal v.toNat).length ≤ 8 := length_minimal_le (by simpa using v.toNat_lt)
  rw [List.take_of_length_le hlen, word_minimal]

lemma recipient_eq_nil {addr : Address} {isNull : Bool} :
    recipient addr isNull = [] ↔ isNull = true := by
  have hlen := addr.length_bytes
  unfold recipient
  cases isNull
  · simp only [Bool.false_eq_true, if_false, iff_false]
    intro h
    rw [h] at hlen
    cases hlen
  · simp

lemma chainIdFromV {tx : Tx} (h : tx.chainId = chainIdOf tx.v) : ChainIdFromV tx := by
  refine ⟨fun c p hp hv => ?_, fun hv => ?_⟩
  · have hle : tx.v ≥ 35 := by
      rw [ge_iff_le, UInt64.le_iff_toNat_le, hv]
      simp
      omega
    rw [h, chainIdOf, if_pos hle, UInt64.toNat_div, UInt64.toNat_sub_of_le _ _ hle, hv]
    simp
    omega
  · rcases hv with hv | hv <;> rw [h, hv] <;> rfl

lemma decode_legacy (h : tx.type = .legacy) (hm : ∀ n, malloc n = true)
    (hlen : (code tx).length < 2 ^ 63) :
    ∃ tx', txDecode malloc (code tx) = .ok tx' ∧ SameFields tx tx' ∧
      (tx'.type = .legacy → ChainIdFromV tx') := by
  refine ⟨_, txDecode_legacy (hm _) (legacyOf tx) [] (by simp [code, h]) (by omega), ?_, ?_⟩
  · constructor <;>
      simp [Legacy.decoded, legacyOf, h, word_uint, FixedBytes.rightAlign_strip,
        kept_of_malloc hm, recipient_eq_nil]
    intro hnull
    simp [hnull, recipient, FixedBytes.rightAlign_bytes]
  · intro _
    exact chainIdFromV rfl

lemma decode_eip1559 (h : tx.type = .eip1559) (hm : ∀ n, malloc n = true)
    (hlen : (code tx).length < 2 ^ 63) :
    ∃ tx', txDecode malloc (code tx) = .ok tx' ∧ SameFields tx tx' := by
  refine ⟨_, txDecode_eip1559 (hm _) (eip1559Of tx) [] (by simp [code, h]) (by omega) rfl, ?_⟩
  constructor <;>
    simp [Eip1559.decoded, eip1559Of, token, h, word_uint, FixedBytes.rightAlign_strip,
      kept_of_malloc hm, recipient_eq_nil]
  intro hnull
  simp [hnull, recipient, FixedBytes.rightAlign_bytes]

/-- **Decoding undoes encoding.** -/
theorem txDecode_serialize (ht : tx.type ≠ .eip2930) (hr : ∀ n, realloc n = true)
    (hm : ∀ n, malloc n = true) (hlen : (code tx).length < 2 ^ 63) :
    ∃ raw tx', serialize realloc tx = some raw ∧ txDecode malloc raw = .ok tx' ∧
      SameFields tx tx' ∧ (tx'.type = .legacy → ChainIdFromV tx') := by
  refine ⟨code tx, ?_⟩
  rcases h : tx.type with _ | _ | _
  case legacy =>
    obtain ⟨tx', hdec, hsame, hchain⟩ := decode_legacy h hm hlen
    exact ⟨tx', serialize_eq ht hr hlen, hdec, hsame, hchain⟩
  case eip2930 => exact absurd h ht
  case eip1559 =>
    obtain ⟨tx', hdec, hsame⟩ := decode_eip1559 h hm hlen
    refine ⟨tx', serialize_eq ht hr hlen, hdec, hsame, fun hl => ?_⟩
    rw [← hsame.type, h] at hl
    cases hl

/-- A transfer of one unit to the zero address, with `v` 37. -/
def transfer : Tx := { Tx.zero with nonce := 7, gasLimit := 21000, v := 37, value := .rightAlign 32 [1] }

/-- The transfer comes back, on chain 1. -/
theorem txDecode_serialize_transfer : ∃ raw tx', serialize (fun _ => true) transfer = some raw ∧
    txDecode (fun _ => true) raw = .ok tx' ∧ SameFields transfer tx' ∧
      (tx'.type = .legacy → ChainIdFromV tx') :=
  txDecode_serialize (by decide) (fun _ => rfl) (fun _ => rfl) (by decide)

end EvmDb.TxRoundTrip
