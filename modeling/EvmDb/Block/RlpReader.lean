import EvmDb.Lib.Checked
import EvmDb.Lib.Rlp
import EvmDb.Types

/-!
The RLP decoder of `src/block/tx.c`: `rlp_decode_item` and the conversions of an item's
content.

A pointer into the input is its index there, and the input is read through checked indices.
-/

namespace EvmDb.RlpReader

open EvmDb.Radix EvmDb.Rlp EvmDb.Checked EvmDb.Types
open EvmDb.Checked.Read

/-- `rlp_reader_t`: a window of the input from index `data` on, `len` bytes long, and the
cursor in it. -/
structure Reader where
  data : ℕ
  pos : ℕ
  len : ℕ
  deriving DecidableEq

/-- What `rlp_decode_item` hands out: the place and the length of an item's content. -/
structure Slice where
  data : ℕ
  len : ℕ
  deriving DecidableEq

/-- The loop over the bytes of a long length. -/
def rlpLength (raw : Bytes) (i lenBytes : ℕ) : Read ℕ := do
  let bs ← bytesAt raw i lenBytes
  return (word bs).toNat

/-- `rlp_decode_item`. The cursor of the reader is advanced past a string's content, but only
to the start of a list's. -/
def rlpDecodeItem (raw : Bytes) (r : Reader) : Read (Slice × Reader) :=
  if r.pos ≥ r.len then .reject
  else do
    let first ← byteAt raw (r.data + r.pos)
    let b := first.toNat
    let pos := r.pos + 1
    if b ≤ 0x7f then
      .ok (⟨r.data + r.pos, 1⟩, { r with pos := pos })
    else if b ≤ 0xb7 then
      -- a short string; the bound is compared after 64-bit addition
      let strLen := b - 0x80
      if (pos + strLen) % 2 ^ 64 > r.len then .reject
      else .ok (⟨r.data + pos, strLen⟩, { r with pos := (pos + strLen) % 2 ^ 64 })
    else if b ≤ 0xbf then
      let lenBytes := b - 0xb7
      if (pos + lenBytes) % 2 ^ 64 > r.len then .reject
      else do
        let strLen ← rlpLength raw (r.data + pos) lenBytes
        let pos := (pos + lenBytes) % 2 ^ 64
        if (pos + strLen) % 2 ^ 64 > r.len then .reject
        else .ok (⟨r.data + pos, strLen⟩, { r with pos := (pos + strLen) % 2 ^ 64 })
    else if b ≤ 0xf7 then
      -- a short list; its length is not compared with what is left
      .ok (⟨r.data + pos, b - 0xc0⟩, { r with pos := pos })
    else
      let lenBytes := b - 0xf7
      if (pos + lenBytes) % 2 ^ 64 > r.len then .reject
      else do
        let listLen ← rlpLength raw (r.data + pos) lenBytes
        let pos := (pos + lenBytes) % 2 ^ 64
        .ok (⟨r.data + pos, listLen⟩, { r with pos := pos })

/-! ### Conversions of an item's content -/

/-- `rlp_to_uint64`: at most eight bytes are read. -/
def rlpToUint64 (raw : Bytes) (item : Slice) : Read UInt64 := do
  let bs ← bytesAt raw item.data (min item.len 8)
  return word bs

/-- `rlp_to_bytes32`: at most 32 bytes are read, and put right aligned. -/
def rlpToBytes32 (raw : Bytes) (item : Slice) : Read Bytes32 := do
  let bs ← bytesAt raw item.data (min item.len 32)
  return .rightAlign 32 bs

/-- `rlp_to_address`: at most 20 bytes are read, and put right aligned. -/
def rlpToAddress (raw : Bytes) (item : Slice) : Read Address := do
  let bs ← bytesAt raw item.data (min item.len 20)
  return .rightAlign 20 bs

/-! ### Readers whose window lies in the input -/

/-- The window lies in the input and the cursor in the window. -/
structure Framed (raw : Bytes) (r : Reader) : Prop where
  pos_le : r.pos ≤ r.len
  fits : r.data + r.len ≤ raw.length
  size : raw.length < 2 ^ 64

/-- What is left in the window. -/
def left (raw : Bytes) (r : Reader) : Bytes := (raw.drop (r.data + r.pos)).take (r.len - r.pos)

/-- The content of an item that lies in the input. -/
def content (raw : Bytes) (item : Slice) : Bytes := (raw.drop item.data).take item.len

/-- The item lies in the input. -/
def Slice.Inside (raw : Bytes) (item : Slice) : Prop := item.data + item.len ≤ raw.length

variable {raw : Bytes} {r : Reader} {item : Slice}

lemma Framed.length_left (h : Framed raw r) : (left raw r).length = r.len - r.pos := by
  have h1 := h.pos_le
  have h2 := h.fits
  simp [left]; omega

lemma length_content (h : item.Inside raw) : (content raw item).length = item.len := by
  unfold Slice.Inside at h
  simp [content]; omega

/-- The reader after the first `k` bytes of what is left. -/
lemma left_advance (h : Framed raw r) {k : ℕ} (hk : k ≤ (left raw r).length) :
    Framed raw { r with pos := r.pos + k } ∧
      left raw { r with pos := r.pos + k } = (left raw r).drop k := by
  rw [h.length_left] at hk
  have h1 := h.pos_le
  refine ⟨⟨?_, h.fits, h.size⟩, ?_⟩
  · show r.pos + k ≤ r.len
    omega
  · unfold left
    rw [List.drop_take, List.drop_drop, Nat.sub_sub, Nat.add_assoc]

/-- A stretch of what is left, as an item. -/
lemma content_left (h : Framed raw r) {k n : ℕ} (hk : k + n ≤ (left raw r).length) :
    Slice.Inside raw ⟨r.data + (r.pos + k), n⟩ ∧
      content raw ⟨r.data + (r.pos + k), n⟩ = ((left raw r).drop k).take n := by
  rw [h.length_left] at hk
  have h1 := h.pos_le
  have h2 := h.fits
  refine ⟨?_, ?_⟩
  · show r.data + (r.pos + k) + n ≤ raw.length
    omega
  · unfold left content
    rw [List.drop_take, List.drop_drop, List.take_take, Nat.min_eq_left (by omega),
      Nat.add_assoc]

lemma byteAt_left (h : Framed raw r) {b : UInt8} {bs : Bytes} (hl : left raw r = b :: bs) :
    r.pos < r.len ∧ byteAt raw (r.data + r.pos) = .ok b := by
  have hlen := h.length_left
  rw [hl, List.length_cons] at hlen
  have hlt : r.data + r.pos < raw.length := by have := h.fits; omega
  refine ⟨by omega, ?_⟩
  rw [byteAt_of_lt hlt]
  unfold left at hl
  rw [List.drop_eq_getElem_cons hlt, show r.len - r.pos = bs.length + 1 by omega,
    List.take_succ_cons, List.cons.injEq] at hl
  rw [hl.1]

lemma rlpLength_left (h : Framed raw r) {k : ℕ} (hk : 1 + k ≤ (left raw r).length)
    (h8 : k ≤ 8) :
    rlpLength raw (r.data + (r.pos + 1)) k = .ok (value (((left raw r).drop 1).take k)) := by
  obtain ⟨hin, hc⟩ := content_left h hk
  have hlen : (content raw ⟨r.data + (r.pos + 1), k⟩).length ≤ 8 := by
    rw [length_content hin]; exact h8
  unfold rlpLength
  rw [bytesAt_of_le hin, ok_bind, pure_eq, ← hc, ← toNat_word hlen]
  rfl

/-- **What `rlp_decode_item` does inside its window**: the item announced by the header is
handed out if it fits, and the cursor moves past a string but only past a list's header. -/
theorem rlpDecodeItem_of_readHead (h : Framed raw r) {hd : Head}
    (hh : readHead (left raw r) = some hd) (hfit : hd.size + hd.len ≤ (left raw r).length) :
    rlpDecodeItem raw r =
      .ok (⟨r.data + (r.pos + hd.size), hd.len⟩,
        { r with pos := r.pos + (hd.size + if hd.isList then 0 else hd.len) }) := by
  rcases hl : left raw r with _ | ⟨b, bs⟩
  · rw [hl] at hh; cases hh
  obtain ⟨hlt, hbyte⟩ := byteAt_left h hl
  have hlen := h.length_left
  have hsize := h.size
  have hfits := h.fits
  have hb := b.toNat_lt
  rw [hl] at hh
  unfold rlpDecodeItem
  rw [if_neg (by omega), hbyte, ok_bind]
  simp only [readHead, longHead] at hh
  split_ifs at hh with h7f hb7 hbf hshort hf7 hshort <;> cases hh <;>
    simp only [hl, List.length_cons] at hfit hlen
  · simp [h7f]
  · have hmod : (r.pos + 1 + (b.toNat - 0x80)) % 2 ^ 64 = r.pos + 1 + (b.toNat - 0x80) :=
      Nat.mod_eq_of_lt (by omega)
    simp only [h7f, hb7, hmod, if_true, if_false, Bool.false_eq_true]
    rw [if_neg (by omega), Nat.add_assoc r.pos]
  · -- a long string: the length bytes come first
    have hk : (r.pos + 1 + (b.toNat - 0xb7)) % 2 ^ 64 = r.pos + 1 + (b.toNat - 0xb7) :=
      Nat.mod_eq_of_lt (by omega)
    have hlen8 := rlpLength_left h (k := b.toNat - 0xb7)
      (by rw [hl, List.length_cons]; omega) (by omega)
    rw [hl, List.drop_one, List.tail_cons] at hlen8
    simp only [h7f, hb7, hbf, hk, if_true, if_false, Bool.false_eq_true]
    rw [if_neg (by omega), hlen8, ok_bind, Nat.mod_eq_of_lt (by omega), if_neg (by omega)]
    simp only [Nat.add_assoc]
  · simp [h7f, hb7, hbf, hf7]
  · have hk : (r.pos + 1 + (b.toNat - 0xf7)) % 2 ^ 64 = r.pos + 1 + (b.toNat - 0xf7) :=
      Nat.mod_eq_of_lt (by omega)
    have hlen8 := rlpLength_left h (k := b.toNat - 0xf7)
      (by rw [hl, List.length_cons]; omega) (by omega)
    rw [hl, List.drop_one, List.tail_cons] at hlen8
    simp only [h7f, hb7, hbf, hf7, hk, if_true, if_false]
    rw [if_neg (by omega), hlen8, ok_bind]
    simp only [Nat.add_assoc, Nat.add_zero]

/-- One call of `rlp_decode_item` on a framed reader: the item handed out has content `x`,
and `t` is left. -/
structure Next (raw : Bytes) (r : Reader) (x t : Bytes) (item : Slice) (r' : Reader) : Prop where
  call : rlpDecodeItem raw r = .ok (item, r')
  inside : item.Inside raw
  content_eq : content raw item = x
  framed : Framed raw r'
  left_eq : left raw r' = t

lemma next_of_readHead (h : Framed raw r) {hd : Head} (hh : readHead (left raw r) = some hd)
    (hfit : hd.size + hd.len ≤ (left raw r).length) :
    Next raw r (((left raw r).drop hd.size).take hd.len)
      ((left raw r).drop (hd.size + if hd.isList then 0 else hd.len))
      ⟨r.data + (r.pos + hd.size), hd.len⟩
      { r with pos := r.pos + (hd.size + if hd.isList then 0 else hd.len) } := by
  obtain ⟨hin, hc⟩ := content_left h hfit
  obtain ⟨hf, hl⟩ := left_advance h
    (k := hd.size + if hd.isList then 0 else hd.len) (by split_ifs <;> omega)
  exact ⟨rlpDecodeItem_of_readHead h hh hfit, hin, hc, hf, hl⟩

lemma Framed.left_lt (h : Framed raw r) : (left raw r).length < 2 ^ 64 := by
  have h1 := h.fits
  have h2 := h.size
  rw [h.length_left]; omega

/-- A string is handed out and passed. -/
lemma next_str (h : Framed raw r) {x t : Bytes} (hl : left raw r = encodeStr x ++ t) :
    ∃ item r', Next raw r x t item r' := by
  have hlen := congrArg List.length hl
  have hlt := h.left_lt
  rw [List.length_append, length_encodeStr] at hlen
  have hh := @readHead_encodeStr x (by omega) t
  rw [← hl] at hh
  have hn := next_of_readHead h hh (by simp only; omega)
  simp only [hl, encodeStr, List.append_assoc, Bool.false_eq_true, if_false, List.drop_left,
    List.take_left, ← List.drop_drop] at hn
  exact ⟨_, _, hn⟩

/-- A list is handed out, and its content is entered. -/
lemma next_list (h : Framed raw r) {p t : Bytes} (hl : left raw r = encodeList p ++ t) :
    ∃ item r', Next raw r p (p ++ t) item r' := by
  have hlen := congrArg List.length hl
  have hlt := h.left_lt
  rw [List.length_append, length_encodeList] at hlen
  have hh := readHead_encodeList (p := p) (by omega) t
  rw [← hl] at hh
  have hn := next_of_readHead h hh (by simp only; omega)
  simp only [hl, encodeList, List.append_assoc, if_true, Nat.add_zero, List.drop_left,
    List.take_left] at hn
  exact ⟨_, _, hn⟩

/-! ### Conversions inside the input -/

lemma bytesAt_content {n : ℕ} (h : item.Inside raw) :
    bytesAt raw item.data (min item.len n) = .ok ((content raw item).take n) := by
  unfold Slice.Inside at h
  rw [bytesAt_of_le (by omega), content, List.take_take, Nat.min_comm]

lemma rlpToUint64_inside (h : item.Inside raw) :
    rlpToUint64 raw item = .ok (word ((content raw item).take 8)) := by
  simp [rlpToUint64, bytesAt_content h]

lemma rlpToBytes32_inside (h : item.Inside raw) :
    rlpToBytes32 raw item = .ok (.rightAlign 32 (content raw item)) := by
  simp [rlpToBytes32, bytesAt_content h, FixedBytes.rightAlign, List.take_take]

lemma rlpToAddress_inside (h : item.Inside raw) :
    rlpToAddress raw item = .ok (.rightAlign 20 (content raw item)) := by
  simp [rlpToAddress, bytesAt_content h, FixedBytes.rightAlign, List.take_take]

end EvmDb.RlpReader
