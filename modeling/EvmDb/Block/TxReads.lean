import EvmDb.Block.TxItems

/-!
Which inputs `evmdb_tx_decode` reads beyond their end.

The length of a string is compared with its list, after an addition of 64-bit words; the
length of a list is compared with nothing. The lengths of the outer list and of a field
that is a list are therefore taken on trust, and so is that of a string whose sum with the
cursor wraps.
-/

namespace EvmDb.TxReads

open EvmDb.Radix EvmDb.Rlp EvmDb.Checked EvmDb.Types EvmDb.RlpReader EvmDb.TxDecode
open EvmDb.Checked.Read

variable {malloc : Malloc} {raw : Bytes} {r : Reader}

/-! ### Headers -/

/-- How many length bytes follow the first byte of a header. -/
def lengthBytes (b : UInt8) : ℕ :=
  if b.toNat ≤ 0xb7 then 0
  else if b.toNat ≤ 0xbf then b.toNat - 0xb7
  else if b.toNat ≤ 0xf7 then 0
  else b.toNat - 0xf7

lemma lengthBytes_le (b : UInt8) : lengthBytes b ≤ 8 := by
  have hb := b.toNat_lt
  unfold lengthBytes
  split_ifs <;> omega

/-- The input from the cursor on, whatever the window. -/
def rest (raw : Bytes) (r : Reader) : Bytes := raw.drop (r.data + r.pos)

/-- The header at the cursor lies in the input; length bytes that do not fit the window are
not read. -/
def HeaderFits (raw : Bytes) (r : Reader) : Prop :=
  match rest raw r with
  | [] => False
  | b :: bs => (r.pos + 1 + lengthBytes b) % 2 ^ 64 ≤ r.len → lengthBytes b ≤ bs.length

/-- Where the content begins that a header announces. -/
def contentPos (r : Reader) (hd : Head) : ℕ := (r.pos + hd.size) % 2 ^ 64

/-- Where the cursor stands after an item: behind a string, in front of a list's content. -/
def endPos (r : Reader) (hd : Head) : ℕ :=
  if hd.isList then contentPos r hd else (contentPos r hd + hd.len) % 2 ^ 64

/-- The item is handed out: the sums stay below the end of the window. -/
def Accepted (r : Reader) (hd : Head) : Prop := contentPos r hd ≤ r.len ∧ endPos r hd ≤ r.len

instance (r : Reader) (hd : Head) : Decidable (Accepted r hd) := by
  unfold Accepted; infer_instance

instance (raw : Bytes) (r : Reader) : Decidable (HeaderFits raw r) := by
  unfold HeaderFits; split <;> infer_instance

/-- The item a header announces, and the reader behind it. -/
def announced (r : Reader) (hd : Head) : Slice × Reader :=
  (⟨r.data + contentPos r hd, hd.len⟩, { r with pos := endPos r hd })

lemma byteAt_rest {b : UInt8} {bs : Bytes} (h : rest raw r = b :: bs) :
    byteAt raw (r.data + r.pos) = .ok b ∧ raw.length = r.data + r.pos + 1 + bs.length := by
  have hlen := congrArg List.length h
  rw [rest, List.length_drop, List.length_cons] at hlen
  have hlt : r.data + r.pos < raw.length := by omega
  rw [rest, List.drop_eq_getElem_cons hlt, List.cons.injEq] at h
  rw [byteAt_of_lt hlt, h.1]
  exact ⟨rfl, by omega⟩

lemma rlpLength_rest {b : UInt8} {bs : Bytes} (h : rest raw r = b :: bs) {k : ℕ} (h8 : k ≤ 8) :
    if k ≤ bs.length then rlpLength raw (r.data + (r.pos + 1)) k = .ok (value (bs.take k))
    else ¬ (rlpLength raw (r.data + (r.pos + 1)) k).Inside := by
  have hlen := (byteAt_rest h).2
  have hdrop : raw.drop (r.data + (r.pos + 1)) = bs := by
    rw [← Nat.add_assoc, ← List.drop_drop]
    unfold rest at h
    rw [h, List.drop_one, List.tail_cons]
  unfold rlpLength
  split_ifs with hk
  · rw [bytesAt_of_le (by omega), hdrop, ok_bind, pure_eq,
      toNat_word (by rw [List.length_take]; omega)]
  · rw [inside_bind, inside_bytesAt]
    omega

/-- Handing out an announced item, if the sums allow it. -/
def deliver (r : Reader) (hd : Head) : Read (Slice × Reader) :=
  if Accepted r hd then .ok (announced r hd) else .reject

lemma inside_deliver_bind {α : Type} {f : Slice × Reader → Read α} {hd : Head} :
    (deliver r hd >>= f).Inside ↔ (Accepted r hd → (f (announced r hd)).Inside) := by
  unfold deliver
  split_ifs with h <;> simp [h]

/-- A header of a single byte. -/
lemma rlpDecodeItem_short (hr : r.len < 2 ^ 64) (hlt : r.pos < r.len) {b : UInt8} {bs : Bytes}
    (h : rest raw r = b :: bs) (hk : lengthBytes b = 0) :
    ∃ hd, readHead (b :: bs) = some hd ∧ rlpDecodeItem raw r = deliver r hd := by
  have hmod : (r.pos + 1) % 2 ^ 64 = r.pos + 1 := Nat.mod_eq_of_lt (by omega)
  have hmod0 : r.pos % 2 ^ 64 = r.pos := Nat.mod_eq_of_lt (by omega)
  have hb := b.toNat_lt
  unfold rlpDecodeItem
  rw [if_neg (by omega), (byteAt_rest h).1, ok_bind]
  simp only [readHead]
  unfold lengthBytes at hk
  by_cases h7f : b.toNat ≤ 0x7f
  · have hacc : Accepted r ⟨false, 0, 1⟩ := by
      simp only [Accepted, endPos, contentPos, Nat.add_zero, hmod0, Bool.false_eq_true, if_false,
        hmod]
      omega
    refine ⟨_, if_pos h7f, ?_⟩
    rw [if_pos h7f, deliver, if_pos hacc]
    simp only [announced, endPos, contentPos, Nat.add_zero, hmod0, hmod, Bool.false_eq_true,
      if_false]
  by_cases hb7 : b.toNat ≤ 0xb7
  · refine ⟨_, by rw [if_neg h7f, if_pos hb7], ?_⟩
    simp only [h7f, hb7, if_true, if_false, deliver, Accepted, announced, endPos, contentPos,
      hmod, Bool.false_eq_true]
    split_ifs <;> first | rfl | omega
  · have hbf : ¬ b.toNat ≤ 0xbf := by
      intro hbf
      rw [if_neg hb7, if_pos hbf] at hk
      omega
    have hf7 : b.toNat ≤ 0xf7 := by
      by_contra hf7
      rw [if_neg hb7, if_neg hbf, if_neg hf7] at hk
      omega
    refine ⟨_, by rw [if_neg h7f, if_neg hb7, if_neg hbf, if_pos hf7], ?_⟩
    have hacc : Accepted r ⟨true, 1, b.toNat - 0xc0⟩ := by
      simp only [Accepted, endPos, contentPos, hmod, if_true]
      omega
    rw [deliver, if_pos hacc]
    simp only [h7f, hb7, hbf, hf7, announced, endPos, contentPos, hmod, if_true, if_false]

/-- A header with length bytes, which are read once they fit the window. -/
lemma rlpDecodeItem_long (hlt : r.pos < r.len) {b : UInt8} {bs : Bytes}
    (h : rest raw r = b :: bs) (hk : lengthBytes b ≠ 0) :
    ∃ isList, readHead (b :: bs) = longHead isList (lengthBytes b) bs ∧
      rlpDecodeItem raw r =
        if (r.pos + 1 + lengthBytes b) % 2 ^ 64 > r.len then .reject
        else rlpLength raw (r.data + (r.pos + 1)) (lengthBytes b) >>=
          fun n => deliver r ⟨isList, 1 + lengthBytes b, n⟩ := by
  unfold rlpDecodeItem
  rw [if_neg (by omega), (byteAt_rest h).1, ok_bind]
  simp only [readHead]
  unfold lengthBytes at hk ⊢
  have hb7 : ¬ b.toNat ≤ 0xb7 := fun hc => hk (if_pos hc)
  have h7f : ¬ b.toNat ≤ 0x7f := by omega
  simp only [h7f, hb7, if_false] at hk ⊢
  by_cases hbf : b.toNat ≤ 0xbf
  · refine ⟨false, by rw [if_pos hbf, if_pos hbf], ?_⟩
    simp only [hbf, if_true]
    split_ifs with hbig
    · rfl
    · refine bind_congr fun n => ?_
      simp only [deliver, Accepted, announced, endPos, contentPos, ← Nat.add_assoc,
        Bool.false_eq_true, if_false]
      split_ifs <;> first | rfl | omega
  · have hf7 : ¬ b.toNat ≤ 0xf7 := fun hc => hk (by rw [if_neg hbf, if_pos hc])
    refine ⟨true, by simp only [hbf, hf7, if_false], ?_⟩
    simp only [hbf, hf7, if_false]
    split_ifs with hbig
    · rfl
    · refine bind_congr fun n => ?_
      have hacc : Accepted r ⟨true, 1 + (b.toNat - 0xf7), n⟩ := by
        simp only [Accepted, endPos, contentPos, ← Nat.add_assoc, if_true]
        omega
      rw [deliver, if_pos hacc]
      simp only [announced, endPos, contentPos, ← Nat.add_assoc, if_true]

/-- **What `rlp_decode_item` reads, and what it hands out**, wherever the window lies. -/
theorem rlpDecodeItem_bind_inside {α : Type} {f : Slice × Reader → Read α}
    (hr : r.len < 2 ^ 64) :
    (rlpDecodeItem raw r >>= f).Inside ↔
      (r.pos < r.len → HeaderFits raw r ∧
        ∀ hd, readHead (rest raw r) = some hd → Accepted r hd → (f (announced r hd)).Inside) := by
  by_cases hlt : r.pos < r.len
  swap
  · simp [rlpDecodeItem, if_pos (Nat.not_lt.mp hlt), hlt]
  simp only [hlt, true_implies, HeaderFits]
  rcases hrest : rest raw r with _ | ⟨b, bs⟩
  · have hle : raw.length ≤ r.data + r.pos := by simpa [rest] using hrest
    simp [rlpDecodeItem, if_neg (Nat.not_le.mpr hlt), byteAt_of_le hle]
  by_cases hk : lengthBytes b = 0
  · obtain ⟨hd, hread, hcall⟩ := rlpDecodeItem_short hr hlt hrest hk
    rw [hcall, inside_deliver_bind]
    simp [hread, hk]
  · obtain ⟨isList, hread, hcall⟩ := rlpDecodeItem_long hlt hrest hk
    have hlen := rlpLength_rest hrest (lengthBytes_le b)
    rw [hcall, hread, longHead]
    by_cases hbig : (r.pos + 1 + lengthBytes b) % 2 ^ 64 > r.len
    · have hno : ∀ n, ¬ Accepted r ⟨isList, 1 + lengthBytes b, n⟩ := by
        intro n hacc
        have := hacc.1
        simp only [contentPos, ← Nat.add_assoc] at this
        omega
      rw [if_pos hbig]
      split_ifs <;> simp [-Nat.reducePow, Nat.not_le.mpr hbig, hno]
    rw [if_neg hbig]
    by_cases hfit : lengthBytes b ≤ bs.length
    · rw [if_pos hfit] at hlen
      rw [hlen, ok_bind, inside_deliver_bind, if_neg (by omega)]
      simp [hfit]
    · rw [if_neg hfit] at hlen
      have hno : ¬ (rlpLength raw (r.data + (r.pos + 1)) (lengthBytes b) >>=
          fun n => deliver r ⟨isList, 1 + lengthBytes b, n⟩ >>= f).Inside := by
        rw [inside_bind]
        exact fun hc => hlen hc.1
      simp [-Nat.reducePow, hno, Nat.not_lt.mp hbig, hfit]

lemma readHead_len_lt {bs : Bytes} {hd : Head} (h : readHead bs = some hd) :
    hd.len < 2 ^ 64 := by
  rcases bs with _ | ⟨b, bs⟩
  · cases h
  have hb := b.toNat_lt
  have hlong : ∀ {isList k}, k ≤ 8 → longHead isList k bs = some hd → hd.len < 2 ^ 64 := by
    intro isList k hk hl
    have hv := value_lt (bs.take k)
    have hle : 256 ^ (bs.take k).length ≤ 256 ^ 8 :=
      Nat.pow_le_pow_right (by omega) (by rw [List.length_take]; omega)
    unfold longHead at hl
    split_ifs at hl
    cases hl
    show value (bs.take k) < 2 ^ 64
    omega
  simp only [readHead] at h
  split_ifs at h
  case pos => cases h; show 1 < 2 ^ 64; omega
  case pos => cases h; show b.toNat - 0x80 < 2 ^ 64; omega
  case pos => exact hlong (by omega) h
  case pos => cases h; show b.toNat - 0xc0 < 2 ^ 64; omega
  case neg => exact hlong (by omega) h

/-! ### Fields -/

/-- What the decoder does with the content of an item. -/
inductive Use
  | number
  | word
  | address
  | calldata
  | skipped

/-- How many bytes of a content of `n` bytes are read. -/
def Use.amount (malloc : Malloc) : Use → ℕ → ℕ
  | .number, n => min n 8
  | .word, n => min n 32
  | .address, n => min n 20
  | .calldata, n => if malloc n = true then n else 0
  | .skipped, _ => 0

/-- The part of the content that is read lies in the input. -/
def Use.Fits (malloc : Malloc) (raw : Bytes) (u : Use) (item : Slice) : Prop :=
  u.amount malloc item.len = 0 ∨ item.data + u.amount malloc item.len ≤ raw.length

/-- The items the decoder comes to lie in the input, as far as they are used. Nothing is
asked once an item has been rejected. -/
def FieldsInside (malloc : Malloc) (raw : Bytes) : List Use → Reader → Prop
  | [], _ => True
  | u :: us, r => r.pos < r.len → HeaderFits raw r ∧
      ∀ hd, readHead (rest raw r) = some hd → Accepted r hd →
        u.Fits malloc raw (announced r hd).1 ∧ FieldsInside malloc raw us (announced r hd).2

def signatureUses : List Use := [.number, .word, .word]

def eip1559Uses : List Use :=
  [.number, .number, .word, .word, .number, .address, .word, .calldata, .skipped] ++ signatureUses

def legacyUses : List Use := [.number, .word, .number, .address, .word, .calldata] ++ signatureUses

/-- A conversion that reads what a use says, and does not reject. -/
structure Converts {β : Type} (malloc : Malloc) (raw : Bytes) (u : Use)
    (conv : Slice → Read β) : Prop where
  inside : ∀ item, (conv item).Inside ↔ u.Fits malloc raw item
  returns : ∀ item, (conv item).Inside → ∃ x, conv item = .ok x

lemma bytesAt_returns {i k : ℕ} (h : (bytesAt raw i k).Inside) :
    ∃ bs, bytesAt raw i k = .ok bs := by
  rcases inside_bytesAt.mp h with rfl | hle
  · exact ⟨[], rfl⟩
  · exact ⟨_, bytesAt_of_le hle⟩

/-- A conversion of the first so many bytes. -/
lemma converts_bytesAt {β : Type} {u : Use} (g : Bytes → β) {n : ℕ}
    (hu : ∀ k, u.amount malloc k = min k n) :
    Converts malloc raw u
      (fun item => do let bs ← bytesAt raw item.data (min item.len n); return g bs) where
  inside item := by
    rw [inside_bind, inside_bytesAt, Use.Fits, hu]
    simp
  returns item h := by
    obtain ⟨bs, hbs⟩ := bytesAt_returns (inside_bind.mp h).1
    exact ⟨g bs, by simp [hbs]⟩

lemma converts_number : Converts malloc raw .number (rlpToUint64 raw) :=
  converts_bytesAt word fun _ => rfl

lemma converts_word : Converts malloc raw .word (rlpToBytes32 raw) :=
  converts_bytesAt (FixedBytes.rightAlign 32) fun _ => rfl

lemma converts_address {tx : Tx} :
    Converts malloc raw .address (fun item => decodeTo raw item tx) := by
  have haddr : Converts malloc raw .address (rlpToAddress raw) :=
    converts_bytesAt (FixedBytes.rightAlign 20) fun _ => rfl
  refine ⟨fun item => ?_, fun item h => ?_⟩
  · unfold decodeTo
    split_ifs with h0
    · simp [Use.Fits, Use.amount, h0]
    · rw [inside_bind, haddr.inside]
      simp
  · unfold decodeTo at h ⊢
    split_ifs with h0
    · exact ⟨_, rfl⟩
    · rw [if_neg h0] at h
      obtain ⟨addr, ha⟩ := haddr.returns item (inside_bind.mp h).1
      exact ⟨_, by rw [ha]; rfl⟩

lemma converts_calldata : Converts malloc raw .calldata (decodeData malloc raw) := by
  refine ⟨fun item => ?_, fun item h => ?_⟩
  · unfold decodeData Use.Fits Use.amount
    by_cases hm : malloc item.len = true
    · by_cases h0 : item.len > 0
      · simp [hm, h0, inside_bytesAt]
      · simp [Nat.eq_zero_of_not_pos h0]
    · simp [hm]
  · unfold decodeData at h ⊢
    split_ifs with h0
    · rw [if_pos h0] at h
      exact bytesAt_returns h
    · exact ⟨[], rfl⟩

lemma converts_skipped : Converts malloc raw .skipped (fun _ => (pure () : Read Unit)) :=
  ⟨fun _ => by simp [Use.Fits, Use.amount], fun _ _ => ⟨(), rfl⟩⟩

/-- One field, and then the others. -/
lemma field_bind_inside {α β : Type} {f : Slice × Reader → Read α} {conv : Slice → Read β}
    {g : β → Reader → Read α} {u : Use} {us : List Use} (hr : r.len < 2 ^ 64)
    (hc : Converts malloc raw u conv) (hf : ∀ item lr, f (item, lr) = conv item >>= fun x => g x lr)
    (hg : ∀ x lr, lr.len < 2 ^ 64 → ((g x lr).Inside ↔ FieldsInside malloc raw us lr)) :
    (rlpDecodeItem raw r >>= f).Inside ↔ FieldsInside malloc raw (u :: us) r := by
  rw [rlpDecodeItem_bind_inside hr, FieldsInside]
  refine forall_congr' fun _ => and_congr_right fun _ => forall_congr' fun hd =>
    forall_congr' fun hread => forall_congr' fun _ => ?_
  rw [show announced r hd = ((announced r hd).1, (announced r hd).2) from rfl, hf, inside_bind,
    hc.inside]
  refine and_congr_right fun hfit => ?_
  obtain ⟨x, hx⟩ := hc.returns _ ((hc.inside _).mpr hfit)
  constructor
  · intro h
    exact (hg x (announced r hd).2 hr).mp (h x hx)
  · intro h y _
    exact (hg y (announced r hd).2 hr).mpr h

lemma decodeSignature_inside (malloc : Malloc) {tx : Tx} (hr : r.len < 2 ^ 64) :
    (decodeSignature raw r tx).Inside ↔ FieldsInside malloc raw signatureUses r := by
  unfold decodeSignature signatureUses
  refine field_bind_inside hr converts_number (fun _ _ => rfl) fun v r hr => ?_
  refine field_bind_inside hr converts_word (fun _ _ => rfl) fun x r hr => ?_
  refine field_bind_inside hr converts_word (fun _ _ => rfl) fun y r hr => ?_
  simp [FieldsInside]

lemma decodeEip1559_inside {tx : Tx} (hr : r.len < 2 ^ 64) :
    (decodeEip1559 malloc raw r tx).Inside ↔ FieldsInside malloc raw eip1559Uses r := by
  unfold decodeEip1559 eip1559Uses
  refine field_bind_inside hr converts_number (fun _ _ => rfl) fun _ r hr => ?_
  refine field_bind_inside hr converts_number (fun _ _ => rfl) fun _ r hr => ?_
  refine field_bind_inside hr converts_word (fun _ _ => rfl) fun _ r hr => ?_
  refine field_bind_inside hr converts_word (fun _ _ => rfl) fun _ r hr => ?_
  refine field_bind_inside hr converts_number (fun _ _ => rfl) fun _ r hr => ?_
  refine field_bind_inside hr converts_address (fun _ _ => rfl) fun _ r hr => ?_
  refine field_bind_inside hr converts_word (fun _ _ => rfl) fun _ r hr => ?_
  refine field_bind_inside hr converts_calldata (fun _ _ => rfl) fun _ r hr => ?_
  refine field_bind_inside (g := fun (_ : Unit) lr => decodeSignature raw lr _) hr
    converts_skipped (fun _ _ => rfl) fun _ r hr => ?_
  exact decodeSignature_inside malloc hr

lemma decodeLegacy_inside {tx : Tx} (hr : r.len < 2 ^ 64) :
    (decodeLegacy malloc raw r tx).Inside ↔ FieldsInside malloc raw legacyUses r := by
  unfold decodeLegacy legacyUses
  refine field_bind_inside hr converts_number (fun _ _ => rfl) fun _ r hr => ?_
  refine field_bind_inside hr converts_word (fun _ _ => rfl) fun _ r hr => ?_
  refine field_bind_inside hr converts_number (fun _ _ => rfl) fun _ r hr => ?_
  refine field_bind_inside hr converts_address (fun _ _ => rfl) fun _ r hr => ?_
  refine field_bind_inside hr converts_word (fun _ _ => rfl) fun _ r hr => ?_
  refine field_bind_inside hr converts_calldata (fun _ _ => rfl) fun _ r hr => ?_
  rw [inside_bind, decodeSignature_inside malloc hr]
  simp

/-! ### Lengths taken on trust -/

/-- The comparisons with the window say nothing about the input: the window runs past its end,
or the sums of a header wrap. -/
def Unchecked (raw : Bytes) (r : Reader) : Prop :=
  raw.length < r.data + r.len ∨ 2 ^ 64 ≤ r.pos + 9

/-- The length of an item is taken on trust. -/
def OnTrust (raw : Bytes) (r : Reader) (hd : Head) : Prop :=
  Unchecked raw r ∨ hd.isList = true ∨ 2 ^ 64 ≤ contentPos r hd + hd.len

/-- What is taken on trust lies in the input, as far as it is used. -/
def FieldsFit (malloc : Malloc) (raw : Bytes) : List Use → Reader → Prop
  | [], _ => True
  | u :: us, r => r.pos < r.len → (Unchecked raw r → HeaderFits raw r) ∧
      ∀ hd, readHead (rest raw r) = some hd → Accepted r hd →
        (OnTrust raw r hd → u.Fits malloc raw (announced r hd).1) ∧
          FieldsFit malloc raw us (announced r hd).2

lemma headerFits_of_checked (hlt : r.pos < r.len) (h : ¬ Unchecked raw r) : HeaderFits raw r := by
  simp only [Unchecked, not_or, not_lt, not_le] at h
  obtain ⟨hwin, hpos⟩ := h
  unfold HeaderFits
  rcases hrest : rest raw r with _ | ⟨b, bs⟩
  · have hle : raw.length ≤ r.data + r.pos := by simpa [rest] using hrest
    show False
    omega
  · have hlen := (byteAt_rest hrest).2
    have h8 := lengthBytes_le b
    show (r.pos + 1 + lengthBytes b) % 2 ^ 64 ≤ r.len → lengthBytes b ≤ bs.length
    rw [Nat.mod_eq_of_lt (by omega)]
    omega

lemma amount_le (malloc : Malloc) (u : Use) (n : ℕ) : u.amount malloc n ≤ n := by
  cases u <;> simp only [Use.amount] <;> first | omega | (split_ifs <;> omega)

lemma fits_of_checked {u : Use} {hd : Head} (hacc : Accepted r hd) (h : ¬ OnTrust raw r hd) :
    u.Fits malloc raw (announced r hd).1 := by
  simp only [OnTrust, Unchecked, not_or, not_lt, not_le, Bool.not_eq_true] at h
  obtain ⟨⟨hwin, -⟩, hstr, hsum⟩ := h
  have hend := hacc.2
  rw [endPos, hstr, if_neg Bool.false_ne_true, Nat.mod_eq_of_lt hsum] at hend
  have hle := amount_le malloc u hd.len
  refine Or.inr ?_
  show r.data + contentPos r hd + u.amount malloc hd.len ≤ raw.length
  omega

/-- Lengths that are compared need no further condition. -/
lemma fieldsInside_iff {us : List Use} :
    FieldsInside malloc raw us r ↔ FieldsFit malloc raw us r := by
  induction us generalizing r with
  | nil => rfl
  | cons u us ih =>
    refine imp_congr_right fun hlt => and_congr ?_ <| forall_congr' fun hd =>
      forall_congr' fun _ => forall_congr' fun hacc => and_congr ?_ ih
    · exact ⟨fun h _ => h, fun h => by_cases h (headerFits_of_checked hlt)⟩
    · exact ⟨fun h _ => h, fun h => by_cases h (fits_of_checked hacc)⟩

/-- The fields the decoder reads from a transaction of a type. -/
def uses : TxType → List Use
  | .eip1559 => eip1559Uses
  | .legacy => legacyUses
  | .eip2930 => []

/-- The reader over the outer item. -/
def outer (raw : Bytes) (payload : ℕ) : Reader := ⟨payload, 0, raw.length - payload⟩

/-- What the outer item and its fields declare lies in the input, as far as it is taken on trust
and used. -/
def InputFits (malloc : Malloc) (raw : Bytes) : Prop :=
  let (type, payload) := txType (raw.headD 0)
  0 < raw.length - payload → ∀ hd, readHead (rest raw (outer raw payload)) = some hd →
    Accepted (outer raw payload) hd →
      FieldsFit malloc raw (uses type)
        ⟨(announced (outer raw payload) hd).1.data, 0, (announced (outer raw payload) hd).1.len⟩

/-- **The decoder reads inside its input exactly on the inputs whose declared lengths, as far as
it takes them on trust and uses them, end in it.** -/
theorem txDecode_inside (hne : raw ≠ []) (hlen : raw.length < 2 ^ 64) :
    (txDecode malloc raw).Inside ↔ malloc raw.length = false ∨ InputFits malloc raw := by
  have h0 : raw.length ≠ 0 := by simpa using hne
  obtain ⟨b, t, rfl⟩ := List.exists_cons_of_ne_nil hne
  unfold txDecode
  rw [if_neg h0]
  by_cases hm : malloc (b :: t).length = false
  · rw [if_pos hm]
    exact iff_of_true inside_reject (Or.inl hm)
  have hbyte : byteAt (b :: t) 0 = .ok b := by simp [byteAt]
  rw [if_neg hm, hbyte, ok_bind, or_iff_right hm]
  simp only [InputFits, List.headD_cons]
  have hpay : (txType b).2 ≤ 1 := by
    unfold txType
    split_ifs <;> simp
  rcases hty : txType b with ⟨type, payload⟩
  rw [hty] at hpay
  have hpay : payload ≤ 1 := hpay
  show (rlpDecodeItem (b :: t) (outer (b :: t) payload) >>= _).Inside ↔ _
  rw [rlpDecodeItem_bind_inside (show (b :: t).length - payload < 2 ^ 64 by omega)]
  refine imp_congr_right fun hlt => ?_
  have hchecked : ¬ Unchecked (b :: t) (outer (b :: t) payload) := by
    show ¬ ((b :: t).length < payload + ((b :: t).length - payload) ∨ 2 ^ 64 ≤ 0 + 9)
    rw [List.length_cons]
    omega
  rw [and_iff_right (headerFits_of_checked hlt hchecked)]
  refine forall_congr' fun hd => forall_congr' fun hread => forall_congr' fun _ => ?_
  have hlr := readHead_len_lt hread
  cases type
  case legacy =>
    refine inside_bind.trans ?_
    rw [decodeLegacy_inside hlr]
    simp [uses, fieldsInside_iff]
  case eip2930 => simp [uses, FieldsFit]
  case eip1559 =>
    refine inside_bind.trans ?_
    rw [decodeEip1559_inside hlr]
    simp [uses, fieldsInside_iff]

/-! ### Deciding the condition -/

instance (raw : Bytes) (r : Reader) : Decidable (Unchecked raw r) := by
  unfold Unchecked; infer_instance

instance (raw : Bytes) (r : Reader) (hd : Head) : Decidable (OnTrust raw r hd) := by
  unfold OnTrust; infer_instance

instance (malloc : Malloc) (raw : Bytes) (u : Use) (item : Slice) :
    Decidable (u.Fits malloc raw item) := by
  unfold Use.Fits; infer_instance

instance decidableForallHead (o : Option Head) (p : Head → Prop) [∀ hd, Decidable (p hd)] :
    Decidable (∀ hd, o = some hd → p hd) :=
  match o with
  | none => isTrue (by simp)
  | some hd => decidable_of_iff (p hd) (by simp)

instance decidableFieldsFit (malloc : Malloc) (raw : Bytes) :
    (us : List Use) → (r : Reader) → Decidable (FieldsFit malloc raw us r)
  | [], _ => isTrue trivial
  | u :: us, r =>
    have : ∀ r, Decidable (FieldsFit malloc raw us r) := decidableFieldsFit malloc raw us
    inferInstanceAs (Decidable (r.pos < r.len → (Unchecked raw r → HeaderFits raw r) ∧
      ∀ hd, readHead (rest raw r) = some hd → Accepted r hd →
        (OnTrust raw r hd → u.Fits malloc raw (announced r hd).1) ∧
          FieldsFit malloc raw us (announced r hd).2))

instance (malloc : Malloc) (raw : Bytes) : Decidable (InputFits malloc raw) := by
  unfold InputFits; infer_instance

/-- A transfer with some calldata. -/
def transfer : TxItems.Eip1559 where
  chainId := [1]
  nonce := []
  maxPriorityFee := [1]
  maxFeePerGas := [2]
  gasLimit := [0x52, 0x08]
  recipient := List.replicate 20 0xaa
  value := [5]
  data := [0x00, 0xff]
  accessList := .list []
  v := [1]
  r := [5]
  s := [6]

def rawTransfer : Bytes := [0x02] ++ encode (.list transfer.items)

/-- The transfer is accepted, and nothing beyond its end is read. -/
theorem txDecode_inside_transfer : (∃ tx, txDecode (fun _ => true) rawTransfer = .ok tx) ∧
    InputFits (fun _ => true) rawTransfer ∧ (txDecode (fun _ => true) rawTransfer).Inside := by
  have hfits : InputFits (fun _ => true) rawTransfer := by decide
  have hsize : rawTransfer.length < 2 ^ 64 := by decide
  refine ⟨⟨_, TxItems.txDecode_eip1559 rfl transfer [] ?_ hsize rfl⟩, hfits, ?_⟩
  · rw [List.append_nil, rawTransfer]
  · exact (txDecode_inside (by decide) hsize).mpr (Or.inr hfits)

/-- The input `0xc1` declares a list of one byte and ends; the first field is looked for at index
1. -/
theorem txDecode_truncated_list : ¬ (txDecode (fun _ => true) [0xc1]).Inside := by
  intro h
  exact h 1 (by decide)

end EvmDb.TxReads
