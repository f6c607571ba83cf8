import EvmDb.Block.RlpBuffer
import EvmDb.Core.Keccak

/-!
`evmdb_tx_signing_hash`: what a signature commits to.

The bytes handed to the hash are the code of a list of items, behind a type byte for an
EIP-1559 transaction. Codes of items come apart in one way, so the bytes determine every field
that went into them.
-/

namespace EvmDb.TxSigning

open EvmDb.Radix EvmDb.Rlp EvmDb.Types EvmDb.RlpBuffer EvmDb.Keccak

variable (realloc : ℕ → Bool)

/-- The signed fields of an EIP-1559 transaction. -/
def payloadEip1559 (tx : Tx) (payload : Buffer) : Option Buffer := do
  let payload ← rlpAppendUint64 realloc tx.chainId payload
  let payload ← rlpAppendUint64 realloc tx.nonce payload
  let payload ← rlpAppendBytes32 realloc tx.maxPriorityFee payload
  let payload ← rlpAppendBytes32 realloc tx.maxFeePerGas payload
  let payload ← rlpAppendUint64 realloc tx.gasLimit payload
  let payload ← rlpAppendAddress realloc tx.toAddr tx.toIsNull payload
  let payload ← rlpAppendBytes32 realloc tx.value payload
  let payload ← rlpAppendBytes realloc tx.data payload
  rlpAppendEmptyList realloc payload

/-- The chain id and two empty items, if there is a chain id. -/
def payloadChainId (tx : Tx) (payload : Buffer) : Option Buffer :=
  if tx.chainId ≠ 0 then do
    let payload ← rlpAppendUint64 realloc tx.chainId payload
    let payload ← rlpAppendBytes32 realloc (.zero 32) payload
    rlpAppendBytes32 realloc (.zero 32) payload
  else some payload

/-- The signed fields of a legacy transaction. -/
def payloadLegacy (tx : Tx) (payload : Buffer) : Option Buffer := do
  let payload ← rlpAppendUint64 realloc tx.nonce payload
  let payload ← rlpAppendBytes32 realloc tx.gasPrice payload
  let payload ← rlpAppendUint64 realloc tx.gasLimit payload
  let payload ← rlpAppendAddress realloc tx.toAddr tx.toIsNull payload
  let payload ← rlpAppendBytes32 realloc tx.value payload
  let payload ← rlpAppendBytes realloc tx.data payload
  payloadChainId realloc tx payload

/-- The bytes `evmdb_tx_signing_hash` hands to `evmdb_keccak256`, if it gets there. -/
def txSigningPayload (tx : Tx) : Option Bytes :=
  match tx.type with
  | .eip1559 => do
    let payload ← payloadEip1559 realloc tx .empty
    let encoded ← rlpBufferAppendByte realloc 0x02 .empty
    let encoded ← rlpWrapList realloc payload encoded
    return encoded.data
  | .legacy => do
    let payload ← payloadLegacy realloc tx .empty
    let encoded ← rlpWrapList realloc payload .empty
    return encoded.data
  | .eip2930 => none

/-- `evmdb_tx_signing_hash`. -/
def txSigningHash (tx : Tx) : Option Hash := (txSigningPayload realloc tx).map keccak256

/-! ### The signed items -/

/-- An integer as an item: its shortest bytes. -/
def uintItem (v : UInt64) : Item := .str (minimal v.toNat)

/-- A 256-bit word as an item: its bytes without leading zeros. -/
def wordItem (w : Bytes32) : Item := .str (strip w.bytes)

def addressItem (addr : Address) (isNull : Bool) : Item := .str (recipient addr isNull)

/-- The items a signature commits to. -/
def signingItems (tx : Tx) : List Item :=
  match tx.type with
  | .eip1559 =>
    [uintItem tx.chainId, uintItem tx.nonce, wordItem tx.maxPriorityFee,
      wordItem tx.maxFeePerGas, uintItem tx.gasLimit, addressItem tx.toAddr tx.toIsNull,
      wordItem tx.value, .str tx.data, .list []]
  | _ =>
    [uintItem tx.nonce, wordItem tx.gasPrice, uintItem tx.gasLimit,
      addressItem tx.toAddr tx.toIsNull, wordItem tx.value, .str tx.data]
      ++ if tx.chainId ≠ 0 then [uintItem tx.chainId, .str [], .str []] else []

/-- The byte in front of the list. -/
def typePrefix (tx : Tx) : Bytes := if tx.type = .eip1559 then [0x02] else []

/-- The code of what is signed. -/
def signingCode (tx : Tx) : Bytes := typePrefix tx ++ encode (.list (signingItems tx))

variable {realloc} {tx tx₁ tx₂ : Tx}

lemma strip_zero : strip (FixedBytes.zero 32).bytes = [] := by decide

lemma writes_payloadChainId (tx : Tx) : Writes realloc (payloadChainId realloc tx)
    (encodeAll (if tx.chainId ≠ 0 then [uintItem tx.chainId, .str [], .str []] else [])) := by
  unfold payloadChainId
  split_ifs
  · have hz : Writes realloc (rlpAppendBytes32 realloc (.zero 32)) (encodeStr []) := by
      rw [← strip_zero]
      exact writes_appendBytes32 _
    simpa [encodeAll, encode, uintItem] using
      (writes_appendUint64 tx.chainId).bind (hz.bind hz)
  · exact ⟨by rintro buf buf' h; cases h; simp [encodeAll], fun _ _ _ => ⟨_, rfl⟩⟩

lemma writes_payloadLegacy (ht : tx.type = .legacy) (hd : tx.data.length < 2 ^ 64) :
    Writes realloc (payloadLegacy realloc tx) (encodeAll (signingItems tx)) := by
  have h : Writes realloc (payloadLegacy realloc tx) _ :=
    (writes_appendUint64 tx.nonce).bind <| (writes_appendBytes32 tx.gasPrice).bind <|
    (writes_appendUint64 tx.gasLimit).bind <|
    (writes_appendAddress tx.toAddr tx.toIsNull).bind <| (writes_appendBytes32 tx.value).bind <|
    (writes_appendBytes hd).bind (writes_payloadChainId tx)
  simpa only [signingItems, ht, encodeAll_append, encodeAll, encode, uintItem, wordItem,
    addressItem, List.append_nil, List.append_assoc] using h

lemma writes_payloadEip1559 (ht : tx.type = .eip1559) (hd : tx.data.length < 2 ^ 64) :
    Writes realloc (payloadEip1559 realloc tx) (encodeAll (signingItems tx)) := by
  have h : Writes realloc (payloadEip1559 realloc tx) _ :=
    (writes_appendUint64 tx.chainId).bind <| (writes_appendUint64 tx.nonce).bind <|
    (writes_appendBytes32 tx.maxPriorityFee).bind <|
    (writes_appendBytes32 tx.maxFeePerGas).bind <| (writes_appendUint64 tx.gasLimit).bind <|
    (writes_appendAddress tx.toAddr tx.toIsNull).bind <| (writes_appendBytes32 tx.value).bind <|
    (writes_appendBytes hd).bind writes_appendEmptyList
  simpa only [signingItems, ht, encodeAll, encode, uintItem, wordItem, addressItem,
    List.append_nil, List.append_assoc] using h

lemma length_signingItems_le (tx : Tx) :
    (encodeAll (signingItems tx)).length ≤ (signingCode tx).length := by
  simp [signingCode, encode, length_encodeList]; omega

lemma length_data_le (tx : Tx) : tx.data.length ≤ (encodeAll (signingItems tx)).length := by
  unfold signingItems
  split <;> simp [encodeAll, encode, length_encodeStr] <;> omega

/-- **What is hashed for signing is the code of the signed items.** -/
theorem txSigningPayload_eq {p : Bytes} (hlen : (signingCode tx).length < 2 ^ 63)
    (h : txSigningPayload realloc tx = some p) : p = signingCode tx := by
  have hi := length_signingItems_le tx
  have hd := length_data_le tx
  unfold txSigningPayload at h
  split at h
  case h_1 ht =>
    obtain ⟨payload, hp, h⟩ := Option.bind_eq_some_iff.mp h
    obtain ⟨e1, he1, h⟩ := Option.bind_eq_some_iff.mp h
    obtain ⟨e2, he2, h⟩ := Option.bind_eq_some_iff.mp h
    have hpay : payload.data = encodeAll (signingItems tx) := by
      simpa [Buffer.empty] using (writes_payloadEip1559 ht (by omega)).data_eq hp
    have hw := (@writes_wrapList realloc payload (by rw [hpay]; omega)).data_eq he2
    cases h
    rw [hw, (writes_appendByte _).data_eq he1, hpay]
    simp [signingCode, typePrefix, ht, encode, Buffer.empty]
  case h_2 ht =>
    obtain ⟨payload, hp, h⟩ := Option.bind_eq_some_iff.mp h
    obtain ⟨e2, he2, h⟩ := Option.bind_eq_some_iff.mp h
    have hpay : payload.data = encodeAll (signingItems tx) := by
      simpa [Buffer.empty] using (writes_payloadLegacy ht (by omega)).data_eq hp
    have hw := (@writes_wrapList realloc payload (by rw [hpay]; omega)).data_eq he2
    cases h
    rw [hw, hpay]
    simp [signingCode, typePrefix, ht, encode, Buffer.empty]
  case h_3 => cases h

/-! ### The signed items determine the fields -/

lemma uintItem_inj {a b : UInt64} (h : uintItem a = uintItem b) : a = b := by
  have h' : minimal a.toNat = minimal b.toNat := by simpa [uintItem] using h
  apply UInt64.toNat_inj.mp
  rw [← value_minimal a.toNat, h', value_minimal]

lemma wordItem_inj {a b : Bytes32} (h : wordItem a = wordItem b) : a = b := by
  have h' : strip a.bytes = strip b.bytes := by simpa [wordItem] using h
  rw [← FixedBytes.rightAlign_strip a, h', FixedBytes.rightAlign_strip]

lemma addressItem_inj {a b : Address} {x y : Bool} (h : addressItem a x = addressItem b y) :
    x = y ∧ (x = false → a = b) := by
  have h' : recipient a x = recipient b y := by simpa [addressItem] using h
  have ha := a.length_bytes
  have hb := b.length_bytes
  cases x <;> cases y <;> simp only [recipient, if_true, if_false, Bool.false_eq_true] at h'
  · exact ⟨rfl, fun _ => FixedBytes.ext h'⟩
  · rw [h'] at ha; cases ha
  · rw [← h'] at hb; cases hb
  · exact ⟨rfl, fun h => by cases h⟩

/-- The code of a list does not begin with the type byte. -/
lemma encode_list_ne_cons (xs : List Item) (h : (encode (.list xs)).length < 2 ^ 63)
    (t : Bytes) : encode (.list xs) ≠ 0x02 :: t := by
  rw [encode, length_encodeList] at h
  intro he
  have hr := readHead_encodeList (p := encodeAll xs) (by omega) []
  rw [List.append_nil, ← encode, he] at hr
  simp [readHead] at hr

/-- The signed fields of two transactions agree. -/
structure SameSigned (a b : Tx) : Prop where
  type : a.type = b.type
  chainId : a.chainId = b.chainId
  nonce : a.nonce = b.nonce
  gasLimit : a.gasLimit = b.gasLimit
  toIsNull : a.toIsNull = b.toIsNull
  toAddr : a.toIsNull = false → a.toAddr = b.toAddr
  value : a.value = b.value
  data : a.data = b.data
  gasPrice : a.type = .legacy → a.gasPrice = b.gasPrice
  maxPriorityFee : a.type = .eip1559 → a.maxPriorityFee = b.maxPriorityFee
  maxFeePerGas : a.type = .eip1559 → a.maxFeePerGas = b.maxFeePerGas

lemma sameSigned_eip1559 (h₁ : tx₁.type = .eip1559) (h₂ : tx₂.type = .eip1559)
    (h : signingItems tx₁ = signingItems tx₂) : SameSigned tx₁ tx₂ := by
  simp only [signingItems, h₁, h₂, List.cons.injEq, Item.str.injEq, and_true] at h
  obtain ⟨hc, hn, hp, hm, hg, ht, hv, hd⟩ := h
  obtain ⟨hnull, haddr⟩ := addressItem_inj ht
  exact ⟨by rw [h₁, h₂], uintItem_inj hc, uintItem_inj hn, uintItem_inj hg, hnull, haddr,
    wordItem_inj hv, hd, by simp [h₁], fun _ => wordItem_inj hp, fun _ => wordItem_inj hm⟩

lemma sameSigned_legacy (h₁ : tx₁.type = .legacy) (h₂ : tx₂.type = .legacy)
    (h : signingItems tx₁ = signingItems tx₂) : SameSigned tx₁ tx₂ := by
  simp only [signingItems, h₁, h₂, List.cons_append, List.nil_append, List.cons.injEq,
    Item.str.injEq] at h
  obtain ⟨hn, hp, hg, ht, hv, hd, hc⟩ := h
  obtain ⟨hnull, haddr⟩ := addressItem_inj ht
  have hchain : tx₁.chainId = tx₂.chainId := by
    split_ifs at hc with h1 h2 h2
    · exact uintItem_inj (List.cons.inj hc).1
    · simp only [ne_eq, Decidable.not_not] at h1 h2
      rw [h1, h2]
  exact ⟨by rw [h₁, h₂], hchain, uintItem_inj hn, uintItem_inj hg, hnull, haddr,
    wordItem_inj hv, hd, fun _ => wordItem_inj hp, by simp [h₁], by simp [h₁]⟩

/-- **A signing payload commits to every field that is executed.** -/
theorem signing_payload_commits {p : Bytes} (hlen₁ : (signingCode tx₁).length < 2 ^ 63)
    (hlen₂ : (signingCode tx₂).length < 2 ^ 63) (h₁ : txSigningPayload realloc tx₁ = some p)
    (h₂ : txSigningPayload realloc tx₂ = some p) : SameSigned tx₁ tx₂ := by
  have hcode : signingCode tx₁ = signingCode tx₂ := by
    rw [← txSigningPayload_eq hlen₁ h₁, ← txSigningPayload_eq hlen₂ h₂]
  have hitems : typePrefix tx₁ = typePrefix tx₂ → signingItems tx₁ = signingItems tx₂ := by
    intro ht
    unfold signingCode at hcode hlen₁ hlen₂
    rw [ht] at hcode
    rw [List.length_append] at hlen₁ hlen₂
    obtain ⟨hx, -⟩ := encode_append_inj (.list (signingItems tx₁)) (.list (signingItems tx₂))
      (s := []) (t := []) (by omega) (by omega) (by simpa using List.append_cancel_left hcode)
    simpa using hx
  rcases t₁ : tx₁.type with _ | _ | _ <;> rcases t₂ : tx₂.type with _ | _ | _
  case legacy.legacy => exact sameSigned_legacy t₁ t₂ (hitems (by simp [typePrefix, t₁, t₂]))
  case eip1559.eip1559 =>
    exact sameSigned_eip1559 t₁ t₂ (hitems (by simp [typePrefix, t₁, t₂]))
  case legacy.eip1559 =>
    simp only [signingCode, typePrefix, t₁, t₂, reduceCtorEq, if_true, if_false,
      List.nil_append, List.singleton_append] at hcode hlen₁
    exact absurd hcode (encode_list_ne_cons _ hlen₁ _)
  case eip1559.legacy =>
    simp only [signingCode, typePrefix, t₁, t₂, reduceCtorEq, if_true, if_false,
      List.nil_append, List.singleton_append] at hcode hlen₂
    exact absurd hcode.symm (encode_list_ne_cons _ hlen₂ _)
  all_goals simp [txSigningPayload, t₁, t₂] at h₁ h₂

/-- Two records that differ in the signature only have one payload, and agree in what is
signed. -/
theorem signing_payload_commits_unsigned :
    SameSigned { Tx.zero with chainId := 1, v := 37 } { Tx.zero with chainId := 1, v := 38 } :=
  @signing_payload_commits (fun _ => true) _ _
    [0xdd, 0x80, 0x80, 0x80, 0x94, 0, 0, 0, 0, 0, 0, 0, 0, 0, 0, 0, 0, 0, 0, 0, 0, 0, 0, 0, 0,
      0x80, 0x80, 0x01, 0x80, 0x80] (by decide) (by decide) (by decide) (by decide)

end EvmDb.TxSigning
