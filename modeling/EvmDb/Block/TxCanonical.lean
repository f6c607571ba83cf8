import EvmDb.Block.TxItems

/-!
How far a decoded transaction determines the bytes it was decoded from.

The decoder ignores what follows the list, leading zeros, bytes beyond the eighth of an
integer, and more; two inputs can be decoded alike and have different hashes. On canonical
inputs it loses nothing.
-/

namespace EvmDb.TxCanonical

open EvmDb.Radix EvmDb.Rlp EvmDb.Checked EvmDb.Types EvmDb.TxDecode EvmDb.TxItems

variable {malloc : Malloc} {raw raw₁ raw₂ : Bytes} {tx₁ tx₂ : Tx}

/-- An integer of at most `k` bytes, without leading zeros. -/
def Integer (k : ℕ) (bs : Bytes) : Prop := Minimal bs ∧ bs.length ≤ k

instance (k : ℕ) (bs : Bytes) : Decidable (Integer k bs) := by unfold Integer; infer_instance

/-- A recipient: an address, or nothing. -/
def Recipient (bs : Bytes) : Prop := bs = [] ∨ bs.length = 20

/-- The items of a legacy transaction in their shortest form. -/
structure CanonicalLegacy (f : Legacy) : Prop where
  nonce : Integer 8 f.nonce
  gasPrice : Integer 32 f.gasPrice
  gasLimit : Integer 8 f.gasLimit
  recipient : Recipient f.recipient
  value : Integer 32 f.value
  v : Integer 8 f.v
  r : Integer 32 f.r
  s : Integer 32 f.s

/-- The items of an EIP-1559 transaction in their shortest form, with an empty access list. -/
structure CanonicalEip1559 (f : Eip1559) : Prop where
  chainId : Integer 8 f.chainId
  nonce : Integer 8 f.nonce
  maxPriorityFee : Integer 32 f.maxPriorityFee
  maxFeePerGas : Integer 32 f.maxFeePerGas
  gasLimit : Integer 8 f.gasLimit
  recipient : Recipient f.recipient
  value : Integer 32 f.value
  accessList : f.accessList = .list []
  v : Integer 8 f.v
  r : Integer 32 f.r
  s : Integer 32 f.s

/-- The code of canonical items, and nothing behind it. -/
inductive Canonical (raw : Bytes) : Prop
  | legacy (f : Legacy) (hf : CanonicalLegacy f) (hraw : raw = encode (.list f.items))
  | eip1559 (f : Eip1559) (hf : CanonicalEip1559 f) (hraw : raw = [0x02] ++ encode (.list f.items))

/-- Two decoded transactions agree in what was signed and in the signature. -/
structure Agree (a b : Tx) : Prop where
  type : a.type = b.type
  chainId : a.chainId = b.chainId
  nonce : a.nonce = b.nonce
  gasPrice : a.gasPrice = b.gasPrice
  maxPriorityFee : a.maxPriorityFee = b.maxPriorityFee
  maxFeePerGas : a.maxFeePerGas = b.maxFeePerGas
  gasLimit : a.gasLimit = b.gasLimit
  toIsNull : a.toIsNull = b.toIsNull
  toAddr : a.toAddr = b.toAddr
  value : a.value = b.value
  data : a.data = b.data
  v : a.v = b.v
  r : a.r = b.r
  s : a.s = b.s

/-! ### Canonical items are read back -/

lemma Integer.word_inj {as bs : Bytes} (ha : Integer 8 as) (hb : Integer 8 bs)
    (h : word (as.take 8) = word (bs.take 8)) : as = bs := by
  rw [List.take_of_length_le ha.2, List.take_of_length_le hb.2] at h
  refine ha.1.value_inj hb.1 ?_
  rw [← toNat_word ha.2, h, toNat_word hb.2]

lemma Integer.rightAlign_inj {as bs : Bytes} (ha : Integer 32 as) (hb : Integer 32 bs)
    (h : FixedBytes.rightAlign 32 as = FixedBytes.rightAlign 32 bs) : as = bs := by
  refine ha.1.value_inj hb.1 ?_
  have hbytes := congrArg FixedBytes.bytes h
  rw [FixedBytes.rightAlign_of_le ha.2, FixedBytes.rightAlign_of_le hb.2] at hbytes
  simpa using congrArg value hbytes

lemma Recipient.inj {as bs : Bytes} (ha : Recipient as) (hb : Recipient bs)
    (hnull : decide (as = []) = decide (bs = []))
    (h : (if as = [] then FixedBytes.zero 20 else .rightAlign 20 as) =
      if bs = [] then FixedBytes.zero 20 else .rightAlign 20 bs) : as = bs := by
  by_cases has : as = []
  · have hbs : bs = [] := by simpa [has] using hnull.symm
    rw [has, hbs]
  · have hbs : bs ≠ [] := by simpa [has] using hnull.symm
    rw [if_neg has, if_neg hbs] at h
    have hla : as.length = 20 := ha.resolve_left has
    have hlb : bs.length = 20 := hb.resolve_left hbs
    have hbytes := congrArg FixedBytes.bytes h
    rw [FixedBytes.rightAlign_of_le hla.le, FixedBytes.rightAlign_of_le hlb.le] at hbytes
    simpa [pad, hla, hlb] using hbytes

/-- The record determines the items of a canonical legacy transaction. -/
lemma legacy_inj (hm : ∀ n, malloc n = true) {f g : Legacy} (hf : CanonicalLegacy f)
    (hg : CanonicalLegacy g)
    (h : Agree (f.decoded malloc raw₁) (g.decoded malloc raw₂)) : f = g := by
  have hdata := h.data
  simp only [Legacy.decoded, kept_of_malloc hm] at hdata
  have hnonce := hf.nonce.word_inj hg.nonce h.nonce
  have hprice := hf.gasPrice.rightAlign_inj hg.gasPrice h.gasPrice
  have hlimit := hf.gasLimit.word_inj hg.gasLimit h.gasLimit
  have hto := hf.recipient.inj hg.recipient h.toIsNull h.toAddr
  have hvalue := hf.value.rightAlign_inj hg.value h.value
  have hv := hf.v.word_inj hg.v h.v
  have hr := hf.r.rightAlign_inj hg.r h.r
  have hs := hf.s.rightAlign_inj hg.s h.s
  cases f
  cases g
  rw [Legacy.mk.injEq]
  exact ⟨hnonce, hprice, hlimit, hto, hvalue, hdata, hv, hr, hs⟩

/-- The record determines the items of a canonical EIP-1559 transaction. -/
lemma eip1559_inj (hm : ∀ n, malloc n = true) {f g : Eip1559} (hf : CanonicalEip1559 f)
    (hg : CanonicalEip1559 g)
    (h : Agree (f.decoded malloc f.v f.r f.s raw₁) (g.decoded malloc g.v g.r g.s raw₂)) :
    f = g := by
  have hdata := h.data
  simp only [Eip1559.decoded, kept_of_malloc hm] at hdata
  have hchain := hf.chainId.word_inj hg.chainId h.chainId
  have hnonce := hf.nonce.word_inj hg.nonce h.nonce
  have hprio := hf.maxPriorityFee.rightAlign_inj hg.maxPriorityFee h.maxPriorityFee
  have hfee := hf.maxFeePerGas.rightAlign_inj hg.maxFeePerGas h.maxFeePerGas
  have hlimit := hf.gasLimit.word_inj hg.gasLimit h.gasLimit
  have hto := hf.recipient.inj hg.recipient h.toIsNull h.toAddr
  have hvalue := hf.value.rightAlign_inj hg.value h.value
  have hlist := hf.accessList.trans hg.accessList.symm
  have hv := hf.v.word_inj hg.v h.v
  have hr := hf.r.rightAlign_inj hg.r h.r
  have hs := hf.s.rightAlign_inj hg.s h.s
  cases f
  cases g
  rw [Eip1559.mk.injEq]
  exact ⟨hchain, hnonce, hprio, hfee, hlimit, hto, hvalue, hdata, hlist, hv, hr, hs⟩

/-- The record that is decoded from a canonical legacy transaction. -/
lemma eq_of_legacy (hm : ∀ n, malloc n = true) (hlen : raw.length < 2 ^ 64) {f : Legacy}
    (hraw : raw = encode (.list f.items)) (h : txDecode malloc raw = .ok tx₁) :
    tx₁ = f.decoded malloc raw := by
  rw [txDecode_legacy (hm _) f [] (by rw [hraw, List.append_nil]) hlen, Read.ok.injEq] at h
  exact h.symm

/-- The record that is decoded from a canonical EIP-1559 transaction. -/
lemma eq_of_eip1559 (hm : ∀ n, malloc n = true) (hlen : raw.length < 2 ^ 64) {f : Eip1559}
    (hf : CanonicalEip1559 f) (hraw : raw = [0x02] ++ encode (.list f.items))
    (h : txDecode malloc raw = .ok tx₁) : tx₁ = f.decoded malloc f.v f.r f.s raw := by
  -- the walk passes the empty access list
  have hsig : tokens 3 (ahead f.accessList f.signature) = [f.v, f.r, f.s] := by
    rw [hf.accessList]
    rfl
  rw [txDecode_eip1559 (hm _) f [] (by rw [hraw, List.append_nil]) hlen hsig, Read.ok.injEq] at h
  exact h.symm

/-- **A signed transaction has one canonical encoding.** -/
theorem canonical_unique (hm : ∀ n, malloc n = true) (hlen₁ : raw₁.length < 2 ^ 64)
    (hlen₂ : raw₂.length < 2 ^ 64) (hc₁ : Canonical raw₁) (hc₂ : Canonical raw₂)
    (h₁ : txDecode malloc raw₁ = .ok tx₁) (h₂ : txDecode malloc raw₂ = .ok tx₂)
    (h : Agree tx₁ tx₂) : raw₁ = raw₂ := by
  rcases hc₁ with ⟨f, hf, hraw₁⟩ | ⟨f, hf, hraw₁⟩ <;>
    rcases hc₂ with ⟨g, hg, hraw₂⟩ | ⟨g, hg, hraw₂⟩
  · rw [eq_of_legacy hm hlen₁ hraw₁ h₁, eq_of_legacy hm hlen₂ hraw₂ h₂] at h
    rw [hraw₁, hraw₂, legacy_inj hm hf hg h]
  · rw [eq_of_legacy hm hlen₁ hraw₁ h₁, eq_of_eip1559 hm hlen₂ hg hraw₂ h₂] at h
    cases h.type
  · rw [eq_of_eip1559 hm hlen₁ hf hraw₁ h₁, eq_of_legacy hm hlen₂ hraw₂ h₂] at h
    cases h.type
  · rw [eq_of_eip1559 hm hlen₁ hf hraw₁ h₁, eq_of_eip1559 hm hlen₂ hg hraw₂ h₂] at h
    rw [hraw₁, hraw₂, eip1559_inj hm hf hg h]

/-- The items of a contract creation without code, with `v` 27. -/
def creation : Legacy := ⟨[], [], [], [], [], [], [27], [1], [1]⟩

/-- The code of these items. -/
def rawCreation : Bytes := [0xc9, 0x80, 0x80, 0x80, 0x80, 0x80, 0x80, 0x1b, 0x01, 0x01]

lemma canonical_rawCreation : Canonical rawCreation := by
  refine .legacy creation ?_ (by decide)
  constructor <;> first | exact Or.inl rfl | decide

/-- The code decodes, and is the only canonical one. -/
theorem canonical_unique_creation : ∃ tx, txDecode (fun _ => true) rawCreation = .ok tx ∧
    ∀ raw, raw.length < 2 ^ 64 → Canonical raw → txDecode (fun _ => true) raw = .ok tx →
      raw = rawCreation := by
  refine ⟨_, txDecode_legacy rfl creation [] (by decide) (by decide), fun raw hlen hc h => ?_⟩
  exact canonical_unique (fun _ => rfl) hlen (by decide) hc canonical_rawCreation h
    (txDecode_legacy rfl creation [] (by decide) (by decide))
    ⟨rfl, rfl, rfl, rfl, rfl, rfl, rfl, rfl, rfl, rfl, rfl, rfl, rfl, rfl⟩

/-- A byte behind the list changes the input and nothing that is decoded but the hash. -/
theorem trailing_byte_ignored : ∃ tx₁ tx₂, txDecode (fun _ => true) rawCreation = .ok tx₁ ∧
    txDecode (fun _ => true) (rawCreation ++ [0]) = .ok tx₂ ∧ Agree tx₁ tx₂ ∧
      rawCreation ≠ rawCreation ++ [0] :=
  ⟨_, _, txDecode_legacy rfl creation [] (by decide) (by decide),
    txDecode_legacy rfl creation [0] (by decide) (by decide),
    ⟨rfl, rfl, rfl, rfl, rfl, rfl, rfl, rfl, rfl, rfl, rfl, rfl, rfl, rfl⟩, by decide⟩

end EvmDb.TxCanonical
