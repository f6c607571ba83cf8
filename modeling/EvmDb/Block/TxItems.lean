import EvmDb.Block.TxDecode

/-!
What `evmdb_tx_decode` makes of a list of items.

The decoder walks the items flat: a string is handed out and passed, a list is handed out and
then entered. On the code of a list whose items are strings it reads the fields in order; a
list among them is entered, and the fields after it are taken from inside.
-/

namespace EvmDb.TxItems

open EvmDb.Radix EvmDb.Rlp EvmDb.Checked EvmDb.Types EvmDb.RlpReader EvmDb.TxDecode
open EvmDb.Keccak
open EvmDb.Checked.Read

/-! ### The flat walk -/

/-- The content handed out for an item. -/
def token : Item → Bytes
  | .str bs => bs
  | .list xs => encodeAll xs

/-- The items ahead once `x` has been handed out in front of `xs`. -/
def ahead : Item → List Item → List Item
  | .str _, xs => xs
  | .list ys, xs => ys ++ xs

/-- The first so many contents handed out. -/
def tokens : ℕ → List Item → List Bytes
  | 0, _ => []
  | _ + 1, [] => []
  | n + 1, x :: xs => token x :: tokens n (ahead x xs)

variable {malloc : Malloc} {raw : Bytes} {r lr : Reader} {tx : Tx}

lemma next_item (h : Framed raw r) {x : Item} {xs : List Item}
    (hl : left raw r = encodeAll (x :: xs)) :
    ∃ item r', Next raw r (token x) (encodeAll (ahead x xs)) item r' := by
  rw [encodeAll] at hl
  cases x with
  | str bs => exact next_str h hl
  | list ys =>
    simp only [token, ahead, encodeAll_append]
    exact next_list h hl

/-- The content of an item inside the input, read from its beginning. -/
lemma framed_content {item : Slice} (h : item.Inside raw) (hsize : raw.length < 2 ^ 64) :
    Framed raw ⟨item.data, 0, item.len⟩ ∧
      left raw ⟨item.data, 0, item.len⟩ = content raw item :=
  ⟨⟨Nat.zero_le _, h, hsize⟩, rfl⟩

lemma decodeTo_inside {item : Slice} (h : item.Inside raw) :
    decodeTo raw item tx = .ok (if content raw item = [] then { tx with toIsNull := true }
      else { tx with toAddr := .rightAlign 20 (content raw item) }) := by
  have hlen := length_content h
  unfold decodeTo
  by_cases h0 : item.len = 0
  · have hnil : content raw item = [] := List.length_eq_zero_iff.mp (by omega)
    rw [if_pos h0, if_pos hnil]
  · have hne : content raw item ≠ [] := fun hnil => h0 (by rw [← hlen, hnil]; rfl)
    rw [if_neg h0, if_neg hne, rlpToAddress_inside h]
    rfl

/-- Calldata as it is kept: nothing, if there is no memory for it. -/
def kept (malloc : Malloc) (data : Bytes) : Bytes :=
  if malloc data.length = true then data else []

lemma kept_of_malloc (hm : ∀ n, malloc n = true) (data : Bytes) : kept malloc data = data :=
  if_pos (hm _)

lemma decodeData_inside {item : Slice} (h : item.Inside raw) :
    decodeData malloc raw item = .ok (kept malloc (content raw item)) := by
  have hlen := length_content h
  unfold decodeData kept
  rw [hlen]
  by_cases h0 : item.len > 0
  · simp only [h0, true_and]
    split_ifs
    · rw [bytesAt_of_le h]
      rfl
    · rfl
  · rw [if_neg (fun hc => h0 hc.1),
      List.length_eq_zero_iff.mp (by omega : (content raw item).length = 0), ite_self]

/-- A content of the walk is handed out. -/
lemma next_token (h : Framed raw r) {xs : List Item} (hl : left raw r = encodeAll xs) {n : ℕ}
    {x : Bytes} {ys : List Bytes} (ht : tokens (n + 1) xs = x :: ys) :
    ∃ item r' xs', Next raw r x (encodeAll xs') item r' ∧ tokens n xs' = ys := by
  rcases xs with _ | ⟨a, xs⟩
  · cases ht
  · simp only [tokens, List.cons.injEq] at ht
    obtain ⟨rfl, ht⟩ := ht
    obtain ⟨item, r', hn⟩ := next_item h hl
    exact ⟨item, r', _, hn, ht⟩

/-- The last three fields are the next three contents of the walk. -/
lemma decodeSignature_of_tokens (tx : Tx) (h : Framed raw lr) {xs : List Item}
    (hl : left raw lr = encodeAll xs) {x y z : Bytes} (ht : tokens 3 xs = [x, y, z]) :
    decodeSignature raw lr tx =
      .ok { tx with v := word (x.take 8), r := .rightAlign 32 y, s := .rightAlign 32 z } := by
  obtain ⟨i₁, r₁, xs₁, h₁, ht₁⟩ := next_token h hl ht
  obtain ⟨i₂, r₂, xs₂, h₂, ht₂⟩ := next_token h₁.framed h₁.left_eq ht₁
  obtain ⟨i₃, r₃, xs₃, h₃, -⟩ := next_token h₂.framed h₂.left_eq ht₂
  simp only [decodeSignature, h₁.call, h₂.call, h₃.call, ok_bind, pure_eq,
    rlpToUint64_inside h₁.inside, rlpToBytes32_inside h₂.inside, rlpToBytes32_inside h₃.inside,
    h₁.content_eq, h₂.content_eq, h₃.content_eq]

/-! ### Legacy transactions -/

/-- The contents of the items of a legacy transaction. -/
structure Legacy where
  nonce : Bytes
  gasPrice : Bytes
  gasLimit : Bytes
  recipient : Bytes
  value : Bytes
  data : Bytes
  v : Bytes
  r : Bytes
  s : Bytes

def Legacy.items (f : Legacy) : List Item :=
  [.str f.nonce, .str f.gasPrice, .str f.gasLimit, .str f.recipient, .str f.value, .str f.data,
    .str f.v, .str f.r, .str f.s]

/-- The chain id a legacy `v` carries. -/
def chainIdOf (v : UInt64) : UInt64 := if v ≥ 35 then (v - 35) / 2 else 0

/-- The record decoded from the items of a legacy transaction. -/
def Legacy.decoded (malloc : Malloc) (f : Legacy) (raw : Bytes) : Tx :=
  { Tx.zero with
    type := .legacy
    chainId := chainIdOf (word (f.v.take 8))
    nonce := word (f.nonce.take 8)
    gasPrice := .rightAlign 32 f.gasPrice
    gasLimit := word (f.gasLimit.take 8)
    toAddr := if f.recipient = [] then .zero 20 else .rightAlign 20 f.recipient
    toIsNull := decide (f.recipient = [])
    value := .rightAlign 32 f.value
    data := kept malloc f.data
    v := word (f.v.take 8)
    r := .rightAlign 32 f.r
    s := .rightAlign 32 f.s
    hash := keccak256 raw
    raw := raw }

/-! ### EIP-1559 transactions -/

/-- The contents of the items of an EIP-1559 transaction; the access list is any item. -/
structure Eip1559 where
  chainId : Bytes
  nonce : Bytes
  maxPriorityFee : Bytes
  maxFeePerGas : Bytes
  gasLimit : Bytes
  recipient : Bytes
  value : Bytes
  data : Bytes
  accessList : Item
  v : Bytes
  r : Bytes
  s : Bytes

def Eip1559.signature (f : Eip1559) : List Item := [.str f.v, .str f.r, .str f.s]

def Eip1559.items (f : Eip1559) : List Item :=
  [.str f.chainId, .str f.nonce, .str f.maxPriorityFee, .str f.maxFeePerGas, .str f.gasLimit,
    .str f.recipient, .str f.value, .str f.data, f.accessList] ++ f.signature

/-- The record decoded from the items of an EIP-1559 transaction, if `x`, `y` and `z` are the
contents handed out for the signature. -/
def Eip1559.decoded (malloc : Malloc) (f : Eip1559) (x y z raw : Bytes) : Tx :=
  { Tx.zero with
    type := .eip1559
    chainId := word (f.chainId.take 8)
    nonce := word (f.nonce.take 8)
    maxPriorityFee := .rightAlign 32 f.maxPriorityFee
    maxFeePerGas := .rightAlign 32 f.maxFeePerGas
    gasLimit := word (f.gasLimit.take 8)
    toAddr := if f.recipient = [] then .zero 20 else .rightAlign 20 f.recipient
    toIsNull := decide (f.recipient = [])
    value := .rightAlign 32 f.value
    data := kept malloc f.data
    v := word (x.take 8)
    r := .rightAlign 32 y
    s := .rightAlign 32 z
    hash := keccak256 raw
    raw := raw }

/-! ### Decoding a list of items -/

/-- The outer item of an input that is a type byte, if any, the code of a list, and any bytes
behind it. -/
lemma next_outer (pre t : Bytes) {p : Bytes} (hraw : raw = pre ++ encodeList p ++ t)
    (hsize : raw.length < 2 ^ 64) :
    ∃ item r', Next raw ⟨pre.length, 0, raw.length - pre.length⟩ p (p ++ t) item r' := by
  have hlen := congrArg List.length hraw
  rw [List.length_append, List.length_append] at hlen
  have hf : Framed raw ⟨pre.length, 0, raw.length - pre.length⟩ :=
    ⟨Nat.zero_le _, by show pre.length + (raw.length - pre.length) ≤ raw.length; omega, hsize⟩
  have hl : left raw ⟨pre.length, 0, raw.length - pre.length⟩ = encodeList p ++ t := by
    have htake : raw.length - pre.length = (encodeList p ++ t).length := by
      rw [List.length_append]; omega
    unfold left
    simp only [Nat.add_zero, Nat.sub_zero]
    rw [htake, hraw, List.append_assoc, List.drop_left, List.take_length]
  exact next_list hf hl

lemma decodeLegacy_items (malloc : Malloc) (hf : Framed raw lr) (f : Legacy)
    (hl : left raw lr = encodeAll f.items) (h0 : tx = { Tx.zero with raw := raw }) :
    decodeLegacy malloc raw lr tx = .ok { f.decoded malloc raw with hash := .zero 32 } := by
  obtain ⟨i₁, r₁, n₁⟩ := next_item hf hl
  obtain ⟨i₂, r₂, n₂⟩ := next_item n₁.framed n₁.left_eq
  obtain ⟨i₃, r₃, n₃⟩ := next_item n₂.framed n₂.left_eq
  obtain ⟨i₄, r₄, n₄⟩ := next_item n₃.framed n₃.left_eq
  obtain ⟨i₅, r₅, n₅⟩ := next_item n₄.framed n₄.left_eq
  obtain ⟨i₆, r₆, n₆⟩ := next_item n₅.framed n₅.left_eq
  have hsig := fun tx : Tx =>
    decodeSignature_of_tokens tx n₆.framed n₆.left_eq (x := f.v) (y := f.r) (z := f.s) rfl
  simp only [decodeLegacy, n₁.call, n₂.call, n₃.call, n₄.call, n₅.call, n₆.call, ok_bind, pure_eq,
    rlpToUint64_inside n₁.inside, rlpToBytes32_inside n₂.inside, rlpToUint64_inside n₃.inside,
    decodeTo_inside n₄.inside, rlpToBytes32_inside n₅.inside, decodeData_inside n₆.inside,
    hsig, n₁.content_eq, n₂.content_eq, n₃.content_eq,
    n₄.content_eq, n₅.content_eq, n₆.content_eq, token, h0]
  unfold Legacy.decoded chainIdOf
  by_cases hto : f.recipient = [] <;> split_ifs <;> simp [hto, Tx.zero]

lemma decodeEip1559_items (malloc : Malloc) (hf : Framed raw lr) (f : Eip1559)
    (hl : left raw lr = encodeAll f.items)
    (h0 : tx = { Tx.zero with type := .eip1559, raw := raw }) {x y z : Bytes}
    (ht : tokens 3 (ahead f.accessList f.signature) = [x, y, z]) :
    decodeEip1559 malloc raw lr tx = .ok { f.decoded malloc x y z raw with hash := .zero 32 } := by
  obtain ⟨i₁, r₁, n₁⟩ := next_item hf hl
  obtain ⟨i₂, r₂, n₂⟩ := next_item n₁.framed n₁.left_eq
  obtain ⟨i₃, r₃, n₃⟩ := next_item n₂.framed n₂.left_eq
  obtain ⟨i₄, r₄, n₄⟩ := next_item n₃.framed n₃.left_eq
  obtain ⟨i₅, r₅, n₅⟩ := next_item n₄.framed n₄.left_eq
  obtain ⟨i₆, r₆, n₆⟩ := next_item n₅.framed n₅.left_eq
  obtain ⟨i₇, r₇, n₇⟩ := next_item n₆.framed n₆.left_eq
  obtain ⟨i₈, r₈, n₈⟩ := next_item n₇.framed n₇.left_eq
  obtain ⟨i₉, r₉, n₉⟩ := next_item n₈.framed n₈.left_eq
  have hsig := fun tx : Tx => decodeSignature_of_tokens tx n₉.framed n₉.left_eq ht
  simp only [decodeEip1559, n₁.call, n₂.call, n₃.call, n₄.call, n₅.call, n₆.call, n₇.call,
    n₈.call, n₉.call, ok_bind, rlpToUint64_inside n₁.inside,
    rlpToUint64_inside n₂.inside, rlpToBytes32_inside n₃.inside, rlpToBytes32_inside n₄.inside,
    rlpToUint64_inside n₅.inside, decodeTo_inside n₆.inside, rlpToBytes32_inside n₇.inside,
    decodeData_inside n₈.inside, hsig, n₁.content_eq,
    n₂.content_eq, n₃.content_eq, n₄.content_eq, n₅.content_eq, n₆.content_eq, n₇.content_eq,
    n₈.content_eq, token, h0]
  unfold Eip1559.decoded
  split_ifs with hto <;> simp [hto, Tx.zero]

lemma encodeList_ne_nil (p : Bytes) : encodeList p ≠ [] := by
  have := length_header_pos 0xc0 0xf7 p.length
  intro h
  have hl := congrArg List.length h
  rw [length_encodeList, listHeader, List.length_nil] at hl
  omega

/-- The code of a list begins with a byte from `0xc0` on. -/
lemma txType_encodeList {p t : Bytes} (h : p.length < 2 ^ 64) {b : UInt8} {bs : Bytes}
    (hb : encodeList p ++ t = b :: bs) : txType b = (.legacy, 0) := by
  have hr := readHead_encodeList h t
  rw [hb] at hr
  unfold txType
  split_ifs with h1 h2
  · subst h1; simp [readHead] at hr
  · subst h2; simp [readHead] at hr
  · rfl

/-- **A list of nine strings is decoded field by field**; what is behind it is ignored. -/
theorem txDecode_legacy (hm : malloc raw.length = true) (f : Legacy) (t : Bytes)
    (hraw : raw = encode (.list f.items) ++ t) (hsize : raw.length < 2 ^ 64) :
    txDecode malloc raw = .ok (f.decoded malloc raw) := by
  rw [encode] at hraw
  obtain ⟨item, r', hn⟩ := next_outer [] t hraw hsize
  obtain ⟨hf, hl⟩ := framed_content hn.inside hsize
  have hdec := decodeLegacy_items malloc hf f (by rw [hl, hn.content_eq]) rfl
  have hlen := congrArg List.length hraw
  rw [List.length_append, length_encodeList] at hlen
  rcases hb : raw with _ | ⟨b, bs⟩
  · exact absurd (List.append_eq_nil_iff.mp (hraw.symm.trans hb)).1 (encodeList_ne_nil _)
  have hty := txType_encodeList (by omega) (hraw.symm.trans hb)
  have hbyte : byteAt raw 0 = .ok b := by simp [byteAt, hb]
  have h0 : raw.length ≠ 0 := by simp [hb]
  rw [← hb]
  unfold txDecode
  rw [if_neg h0, if_neg (by simp [hm]), hbyte, ok_bind, hty]
  have hcall := hn.call
  simp only [List.length_nil] at hcall
  simp only [hcall, ok_bind]
  erw [hdec]
  rfl

/-- A type byte `0x02` and a list of eight strings, an item and three strings are decoded field
by field, the signature from the three contents the walk comes to; what is behind the list is
ignored. -/
theorem txDecode_eip1559 (hm : malloc raw.length = true) (f : Eip1559) (t : Bytes)
    (hraw : raw = [0x02] ++ encode (.list f.items) ++ t) (hsize : raw.length < 2 ^ 64)
    {x y z : Bytes} (ht : tokens 3 (ahead f.accessList f.signature) = [x, y, z]) :
    txDecode malloc raw = .ok (f.decoded malloc x y z raw) := by
  rw [encode] at hraw
  obtain ⟨item, r', hn⟩ := next_outer [0x02] t hraw hsize
  obtain ⟨hf, hl⟩ := framed_content hn.inside hsize
  have hdec := decodeEip1559_items malloc hf f (by rw [hl, hn.content_eq]) rfl ht
  have hbyte : byteAt raw 0 = .ok 0x02 := by simp [byteAt, hraw]
  have h0 : raw.length ≠ 0 := by simp [hraw]
  have hty : txType 0x02 = (.eip1559, 1) := rfl
  unfold txDecode
  rw [if_neg h0, if_neg (by simp [hm]), hbyte, ok_bind, hty]
  have hcall := hn.call
  simp only [List.length_singleton] at hcall
  simp only [hcall, ok_bind]
  erw [hdec]
  rfl

end EvmDb.TxItems
