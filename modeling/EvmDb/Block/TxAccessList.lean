import EvmDb.Block.TxItems

/-!
What the decoder makes of an access list that is not empty.

The header of the access list is passed, but not its content: the cursor moves past a string
only. The walk goes on inside, and the signature is taken from the first three contents it
comes to there. Each content has a place in the input, and the place of `v` is inside the
access list.
-/

namespace EvmDb.TxAccessList

open EvmDb.Radix EvmDb.Rlp EvmDb.Checked EvmDb.Types EvmDb.RlpReader EvmDb.TxDecode EvmDb.TxItems
open EvmDb.Checked.Read

variable {malloc : Malloc} {raw : Bytes}

/-- Contents a signature is read from. -/
structure Sig where
  v : Bytes
  r : Bytes
  s : Bytes

/-- The signature of a decoded transaction is read from these contents. -/
def Sig.ReadAs (sig : Sig) (tx : Tx) : Prop :=
  tx.v = word (sig.v.take 8) ∧ tx.r = .rightAlign 32 sig.r ∧ tx.s = .rightAlign 32 sig.s

/-- The contents behind the access list. -/
def behind (f : Eip1559) : Sig := ⟨f.v, f.r, f.s⟩

/-- The first three contents of a walk. -/
def firstThree (xs : List Item) : Sig :=
  let ts := tokens 3 xs
  ⟨ts.getD 0 [], ts.getD 1 [], ts.getD 2 []⟩

lemma length_le_ahead (x : Item) (xs : List Item) : xs.length ≤ (ahead x xs).length := by
  cases x <;> simp [ahead]

/-- A walk over three items or more comes to three contents. -/
lemma length_tokens {n : ℕ} {xs : List Item} (h : n ≤ xs.length) : (tokens n xs).length = n := by
  induction n generalizing xs with
  | zero => rfl
  | succ n ih =>
    rcases xs with _ | ⟨x, xs⟩
    · cases h
    have hle : n ≤ (ahead x xs).length :=
      (Nat.le_of_succ_le_succ h).trans (length_le_ahead x xs)
    rw [tokens, List.length_cons, ih hle]

lemma tokens_firstThree {xs : List Item} (h : 3 ≤ xs.length) :
    tokens 3 xs = [(firstThree xs).v, (firstThree xs).r, (firstThree xs).s] := by
  obtain ⟨a, b, c, hts⟩ := List.length_eq_three.mp (length_tokens h)
  simp [firstThree, hts]

/-! ### The items handed out -/

/-- So many calls of `rlp_decode_item`, one after the other: the items handed out. -/
def handedOut (raw : Bytes) : ℕ → Reader → Read (List Slice)
  | 0, _ => .ok []
  | n + 1, r => do
    let (item, r) ← rlpDecodeItem raw r
    let items ← handedOut raw n r
    return item :: items

/-- The items of an EIP-1559 transaction that `v`, `r` and `s` are read from: the last three of
the twelve handed out for its fields. -/
def signatureItems (raw : Bytes) : Read (List Slice) := do
  let (list, _) ← rlpDecodeItem raw ⟨1, 0, raw.length - 1⟩
  let items ← handedOut raw 12 ⟨list.data, 0, list.len⟩
  return items.drop 9

/-- The signature of a decoded transaction is read from these three items. -/
def ReadFrom (raw : Bytes) (items : List Slice) (tx : Tx) : Prop :=
  ∃ v r s, items = [v, r, s] ∧ rlpToUint64 raw v = .ok tx.v ∧ rlpToBytes32 raw r = .ok tx.r ∧
    rlpToBytes32 raw s = .ok tx.s

lemma handedOut_succ {n : ℕ} {r r' : Reader} {item : Slice} {items : List Slice}
    (h : rlpDecodeItem raw r = .ok (item, r')) (hrest : handedOut raw n r' = .ok items) :
    handedOut raw (n + 1) r = .ok (item :: items) := by
  simp only [handedOut, h, hrest, ok_bind, pure_eq]

lemma decodeSignature_readFrom {lr : Reader} {tx tx' : Tx}
    (h : decodeSignature raw lr tx = .ok tx') :
    ∃ items, handedOut raw 3 lr = .ok items ∧ ReadFrom raw items tx' := by
  simp only [decodeSignature, bind_eq_ok, pure_eq, ok.injEq] at h
  obtain ⟨⟨i, r₁⟩, h₁, v, hv, ⟨j, r₂⟩, h₂, r, hr, ⟨k, r₃⟩, h₃, s, hs, rfl⟩ := h
  exact ⟨_, handedOut_succ h₁ (handedOut_succ h₂ (handedOut_succ h₃ rfl)), i, j, k, rfl, hv, hr, hs⟩

lemma decodeEip1559_readFrom {lr : Reader} {tx tx' : Tx}
    (h : decodeEip1559 malloc raw lr tx = .ok tx') :
    ∃ items, handedOut raw 12 lr = .ok items ∧ ReadFrom raw (items.drop 9) tx' := by
  simp only [decodeEip1559, bind_eq_ok] at h
  obtain ⟨⟨_, _⟩, h₁, _, -, ⟨_, _⟩, h₂, _, -, ⟨_, _⟩, h₃, _, -, ⟨_, _⟩, h₄, _, -, ⟨_, _⟩, h₅, _, -,
    ⟨_, _⟩, h₆, _, -, ⟨_, _⟩, h₇, _, -, ⟨_, _⟩, h₈, _, -, ⟨_, _⟩, h₉, hsig⟩ := h
  obtain ⟨items, hitems, hread⟩ := decodeSignature_readFrom hsig
  refine ⟨_, handedOut_succ h₁ <| handedOut_succ h₂ <| handedOut_succ h₃ <| handedOut_succ h₄ <|
    handedOut_succ h₅ <| handedOut_succ h₆ <| handedOut_succ h₇ <| handedOut_succ h₈ <|
    handedOut_succ h₉ hitems, ?_⟩
  exact hread

/-- **Where the signature comes from**: `v`, `r` and `s` of a decoded EIP-1559 transaction are
read from the items handed out last. -/
theorem txDecode_readFrom {bs : Bytes} (hraw : raw = 0x02 :: bs) {tx : Tx}
    (h : txDecode malloc raw = .ok tx) :
    ∃ items, signatureItems raw = .ok items ∧ ReadFrom raw items tx := by
  have hbyte : byteAt raw 0 = .ok 0x02 := by simp [byteAt, hraw]
  have h0 : raw.length ≠ 0 := by simp [hraw]
  by_cases hm : malloc raw.length = false
  · rw [txDecode, if_neg h0, if_pos hm] at h
    cases h
  rw [txDecode, if_neg h0, if_neg hm, hbyte, ok_bind] at h
  obtain ⟨⟨list, r⟩, hlist, h⟩ := bind_eq_ok.mp h
  obtain ⟨tx', hdec, h⟩ := bind_eq_ok.mp h
  obtain ⟨items, hitems, hread⟩ := decodeEip1559_readFrom hdec
  have hlist : rlpDecodeItem raw ⟨1, 0, raw.length - 1⟩ = .ok (list, r) := hlist
  cases h
  refine ⟨items.drop 9, ?_, hread⟩
  simp only [signatureItems, hlist, hitems, ok_bind, pure_eq]

/-! ### The places of the items -/

/-- The content of an item whose code begins at a place of the input. -/
def itemAt (pos : ℕ) (x : Item) : Slice :=
  ⟨pos + ((encode x).length - (token x).length), (token x).length⟩

/-- Where the walk goes on: behind a string, but in front of a list's content. -/
def placeAfter (pos : ℕ) : Item → ℕ
  | .str bs => pos + (encode (.str bs)).length
  | .list xs => (itemAt pos (.list xs)).data

/-- The places of the first so many contents of a walk. -/
def places : ℕ → ℕ → List Item → List Slice
  | 0, _, _ => []
  | _ + 1, _, [] => []
  | n + 1, pos, x :: xs => itemAt pos x :: places n (placeAfter pos x) (ahead x xs)

lemma length_token_le (x : Item) : (token x).length ≤ (encode x).length := by
  cases x with
  | str bs => simp [token, encode, length_encodeStr]
  | list xs => simp [token, encode, length_encodeList]

/-- The header of an item is read back from its code. -/
lemma readHead_encode {x : Item} (h : (encode x).length < 2 ^ 64) (t : Bytes) :
    ∃ isList, readHead (encode x ++ t) =
        some ⟨isList, (encode x).length - (token x).length, (token x).length⟩ ∧
      ∀ pos, placeAfter pos x = pos + ((encode x).length - (token x).length +
        if isList then 0 else (token x).length) := by
  have hle := length_token_le x
  cases x with
  | str bs =>
    simp only [encode, length_encodeStr] at h
    refine ⟨false, ?_, fun pos => ?_⟩
    · rw [encode, readHead_encodeStr (by omega), token, length_encodeStr, Nat.add_sub_cancel]
    · rw [placeAfter, if_neg Bool.false_ne_true, Nat.sub_add_cancel hle]
  | list xs =>
    simp only [encode, length_encodeList] at h
    refine ⟨true, ?_, fun pos => rfl⟩
    rw [encode, readHead_encodeList (by omega), token, length_encodeList, Nat.add_sub_cancel]

/-- The item handed out is the one at the cursor. -/
lemma rlpDecodeItem_place {r : Reader} (h : Framed raw r) {x : Item} {xs : List Item}
    (hl : left raw r = encodeAll (x :: xs)) :
    ∃ r', rlpDecodeItem raw r = .ok (itemAt (r.data + r.pos) x, r') ∧ Framed raw r' ∧
      left raw r' = encodeAll (ahead x xs) ∧ r'.data + r'.pos = placeAfter (r.data + r.pos) x := by
  obtain ⟨item, r', hn⟩ := next_item h hl
  have hlen := congrArg List.length hl
  have hlt := h.left_lt
  have hle := length_token_le x
  rw [encodeAll, List.length_append] at hlen
  obtain ⟨isList, hhead, hafter⟩ := @readHead_encode x (by omega) (encodeAll xs)
  rw [← encodeAll, ← hl] at hhead
  have hcall := rlpDecodeItem_of_readHead h hhead (by simp only; omega)
  rw [hn.call] at hcall
  injection hcall with hcall
  injection hcall with hitem hr'
  refine ⟨r', ?_, hn.framed, hn.left_eq, ?_⟩
  · rw [hn.call, hitem, itemAt, Nat.add_assoc]
  · rw [hr', hafter, Nat.add_assoc]

/-- **The items handed out are those of the walk.** -/
lemma handedOut_places {n : ℕ} {r : Reader} {xs : List Item} (h : Framed raw r)
    (hl : left raw r = encodeAll xs) (hn : n ≤ xs.length) :
    handedOut raw n r = .ok (places n (r.data + r.pos) xs) := by
  induction n generalizing r xs with
  | zero => rfl
  | succ n ih =>
    rcases xs with _ | ⟨x, xs⟩
    · cases hn
    obtain ⟨r', hcall, hf, hl', hpos⟩ := rlpDecodeItem_place h hl
    have hle := (Nat.le_of_succ_le_succ hn).trans (length_le_ahead x xs)
    rw [places, ← hpos]
    exact handedOut_succ hcall (ih hf hl' hle)

/-- Strings are passed one after the other. -/
lemma drop_places (ss : List Bytes) (n pos : ℕ) (xs : List Item) :
    (places (ss.length + n) pos (ss.map .str ++ xs)).drop ss.length =
      places n (pos + (encodeAll (ss.map .str)).length) xs := by
  induction ss generalizing pos with
  | nil => simp [encodeAll]
  | cons s ss ih =>
    simp only [List.length_cons, List.map_cons, List.cons_append, Nat.succ_add, places,
      List.drop_succ_cons, ahead, encodeAll, List.length_append]
    rw [ih, placeAfter, Nat.add_assoc]

/-! ### The access list and what is behind it -/

/-- An item lies inside another. -/
def Within (item outer : Slice) : Prop :=
  outer.data ≤ item.data ∧ item.data + item.len ≤ outer.data + outer.len

/-- Where the items behind the access list begin. -/
def signaturePos (f : Eip1559) (raw : Bytes) : ℕ := raw.length - (encodeAll f.signature).length

/-- The content of the access list. -/
def accessListAt (f : Eip1559) (raw : Bytes) : Slice :=
  ⟨signaturePos f raw - (token f.accessList).length, (token f.accessList).length⟩

/-- The three items behind the access list. -/
def following (f : Eip1559) (raw : Bytes) : List Slice := places 3 (signaturePos f raw) f.signature

/-- An item ends where its code does. -/
lemma itemAt_end (pos : ℕ) (x : Item) :
    (itemAt pos x).data + (itemAt pos x).len = pos + (encode x).length := by
  have hle := length_token_le x
  show pos + ((encode x).length - (token x).length) + (token x).length = _
  omega

/-- The fields in front of the access list. -/
def fields (f : Eip1559) : List Bytes :=
  [f.chainId, f.nonce, f.maxPriorityFee, f.maxFeePerGas, f.gasLimit, f.recipient, f.value, f.data]

lemma items_eq (f : Eip1559) : f.items = (fields f).map .str ++ f.accessList :: f.signature := rfl

/-- Walking on from the access list. -/
lemma drop_places_items (f : Eip1559) (pos : ℕ) : (places 12 pos f.items).drop 9 =
    places 3 (placeAfter (pos + (encodeAll ((fields f).map .str)).length) f.accessList)
      (ahead f.accessList f.signature) := by
  have hstrs : (places 12 pos f.items).drop 8 = _ :=
    drop_places (fields f) 4 pos (f.accessList :: f.signature)
  rw [show 9 = 8 + 1 from rfl, ← List.drop_drop, hstrs, places, List.drop_one, List.tail_cons]

/-- The input of a transaction with these items. -/
structure Codes (f : Eip1559) (raw : Bytes) : Prop where
  raw_eq : raw = [0x02] ++ encode (.list f.items)
  size : raw.length < 2 ^ 64

lemma Codes.length_eq {f : Eip1559} (h : Codes f raw) :
    raw.length = 1 + (encode (.list f.items)).length := by
  rw [h.raw_eq, List.length_append, List.length_singleton]

lemma length_items (f : Eip1559) : (encodeAll f.items).length =
    (encodeAll ((fields f).map .str)).length +
      ((encode f.accessList).length + (encodeAll f.signature).length) := by
  rw [items_eq, encodeAll_append, encodeAll, List.length_append, List.length_append]

/-- The access list lies in front of the signature. -/
lemma Codes.token_le {f : Eip1559} (h : Codes f raw) :
    (token f.accessList).length ≤ signaturePos f raw := by
  have hitems : (token (.list f.items)).length ≤ _ := length_token_le (.list f.items)
  have haccess := length_token_le f.accessList
  rw [token, length_items] at hitems
  rw [signaturePos, h.length_eq]
  omega

/-- The outer list is handed out, and the fields are read from its content. -/
lemma Codes.outer {f : Eip1559} (h : Codes f raw) :
    ∃ list r, rlpDecodeItem raw ⟨1, 0, raw.length - 1⟩ = .ok (list, r) ∧
      list.data + (encodeAll f.items).length = raw.length ∧
        Framed raw ⟨list.data, 0, list.len⟩ ∧
          left raw ⟨list.data, 0, list.len⟩ = encodeAll f.items := by
  obtain ⟨list, r, hn⟩ := @next_outer raw [0x02] [] (encodeAll f.items)
    (by rw [h.raw_eq, List.append_nil, encode]) h.size
  obtain ⟨hf, hl⟩ := framed_content hn.inside h.size
  have houter : left raw ⟨1, 0, raw.length - 1⟩ = encodeAll [.list f.items] := by
    rw [left, h.raw_eq]
    simp [encodeAll]
  have hframed : Framed raw ⟨1, 0, raw.length - 1⟩ :=
    ⟨Nat.zero_le _, by show 1 + (raw.length - 1) ≤ raw.length; have := h.length_eq; omega, h.size⟩
  obtain ⟨r₀, hcall, -⟩ := rlpDecodeItem_place hframed houter
  have hlist : list = itemAt 1 (.list f.items) :=
    congrArg Prod.fst (Read.ok.inj (hn.call.symm.trans hcall))
  refine ⟨list, r, hn.call, ?_, hf, hl.trans hn.content_eq⟩
  rw [hlist, h.length_eq]
  exact itemAt_end 1 (.list f.items)

/-- **The items of the signature are the first three of a walk through the access list.** -/
theorem signatureItems_accessList {f : Eip1559} {ys : List Item} (hacc : f.accessList = .list ys)
    (h : Codes f raw) :
    signatureItems raw = .ok (places 3 (accessListAt f raw).data (ys ++ f.signature)) := by
  obtain ⟨list, r, hcall, hend, hf, hl⟩ := h.outer
  have hwalk := handedOut_places hf hl (show 12 ≤ f.items.length from Nat.le_refl _)
  have hplace : placeAfter (list.data + 0 + (encodeAll ((fields f).map .str)).length)
      f.accessList = (accessListAt f raw).data := by
    have hlen := length_items f
    have hle := length_token_le f.accessList
    rw [hacc] at hlen hle
    simp only [hacc, placeAfter, itemAt, accessListAt, signaturePos]
    omega
  simp only [signatureItems, hcall, ok_bind, hwalk, pure_eq]
  rw [drop_places_items, hplace, hacc, ahead]

/-- None of the items behind the access list lies inside it. -/
lemma following_not_within {f : Eip1559} (h : Codes f raw) :
    ∀ item ∈ following f raw, ¬ Within item (accessListAt f raw) := by
  have hbehind : ∀ item ∈ following f raw, signaturePos f raw < item.data + item.len := by
    have hv := length_encode_pos (.str f.v)
    have hr := length_encode_pos (.str f.r)
    have hs := length_encode_pos (.str f.s)
    simp only [following, Eip1559.signature, places, ahead, placeAfter, List.mem_cons,
      List.not_mem_nil, or_false, forall_eq_or_imp, forall_eq, itemAt_end]
    omega
  intro item hitem hwithin
  have hlt := hbehind item hitem
  have hle : item.data + item.len ≤ signaturePos f raw - (token f.accessList).length +
    (token f.accessList).length := hwithin.2
  have hpos := h.token_le
  omega

/-- The first item of the signature lies inside an access list that is not empty. -/
lemma within_accessListAt {f : Eip1559} {x : Item} {xs : List Item}
    (hacc : f.accessList = .list (x :: xs)) :
    Within (itemAt (accessListAt f raw).data x) (accessListAt f raw) := by
  refine ⟨Nat.le_add_right _ _, ?_⟩
  rw [itemAt_end]
  simp only [accessListAt, hacc, token, encodeAll, List.length_append]
  omega

lemma encode_eq (x : Item) : ∃ head, encode x = head ++ token x := by
  cases x with
  | str bs => exact ⟨_, rfl⟩
  | list xs => exact ⟨_, rfl⟩

/-- What is found at the place of an item. -/
lemma content_itemAt {pre t : Bytes} {x : Item} (h : raw = pre ++ (encode x ++ t)) :
    content raw (itemAt pre.length x) = token x := by
  obtain ⟨head, hx⟩ := encode_eq x
  have hlen : (encode x).length - (token x).length = head.length := by
    rw [hx, List.length_append, Nat.add_sub_cancel]
  rw [h, hx, content, itemAt, hlen, ← List.length_append, List.append_assoc, ← List.append_assoc,
    List.drop_left, List.take_left]

/-- The places of the access list and of the items behind it hold what they should. -/
theorem content_places {f : Eip1559} (h : Codes f raw) :
    content raw (accessListAt f raw) = token f.accessList ∧
      (following f raw).map (content raw) = [f.v, f.r, f.s] := by
  obtain ⟨head, hhead⟩ := encode_eq (.list f.items)
  obtain ⟨pre, hpre⟩ : ∃ pre, raw = pre ++ (encode f.accessList ++ encodeAll f.signature) := by
    refine ⟨[0x02] ++ head ++ encodeAll ((fields f).map .str), ?_⟩
    rw [h.raw_eq, hhead, token, items_eq, encodeAll_append, encodeAll]
    simp only [List.append_assoc]
  have hlen := congrArg List.length hpre
  rw [List.length_append, List.length_append] at hlen
  have hsig : signaturePos f raw = (pre ++ encode f.accessList).length := by
    rw [signaturePos, List.length_append]
    omega
  constructor
  · have hat : accessListAt f raw = itemAt pre.length f.accessList := by
      have hle := length_token_le f.accessList
      simp only [accessListAt, itemAt, hsig, List.length_append, Slice.mk.injEq, and_true]
      omega
    rw [hat, content_itemAt hpre]
  · have hv := @content_itemAt raw (pre ++ encode f.accessList)
      (encodeAll [.str f.r, .str f.s]) (.str f.v) (by rw [hpre, List.append_assoc]; rfl)
    have hr := @content_itemAt raw (pre ++ encode f.accessList ++ encode (.str f.v))
      (encodeAll [.str f.s]) (.str f.r)
      (by simp only [hpre, Eip1559.signature, encodeAll, List.append_assoc])
    have hs := @content_itemAt raw
      (pre ++ encode f.accessList ++ encode (.str f.v) ++ encode (.str f.r)) [] (.str f.s)
      (by simp only [hpre, Eip1559.signature, encodeAll, List.append_assoc])
    simp only [following, Eip1559.signature, places, ahead, placeAfter, hsig,
      ← List.length_append, List.map_cons, List.map_nil, hv, hr, hs, token]

/-- **The signature is read from inside the access list.** A transaction whose access list
has items is accepted, the signature consists of the first three contents of the walk
through these items, and the first of them lies inside the access list. -/
theorem txDecode_accessList (hm : malloc raw.length = true) (f : Eip1559) {x : Item}
    {xs : List Item} (hacc : f.accessList = .list (x :: xs))
    (hraw : raw = [0x02] ++ encode (.list f.items)) (hsize : raw.length < 2 ^ 64) :
    ∃ tx items, txDecode malloc raw = .ok tx ∧ (firstThree (x :: xs ++ f.signature)).ReadAs tx ∧
      signatureItems raw = .ok items ∧ ReadFrom raw items tx ∧
        ∃ item ∈ items, Within item (accessListAt f raw) := by
  have ht : tokens 3 (ahead f.accessList f.signature) = _ :=
    tokens_firstThree (by rw [hacc]; simp [ahead, Eip1559.signature])
  rw [hacc] at ht
  have hdec := txDecode_eip1559 hm f [] (by rw [hraw, List.append_nil]) hsize
    (by rw [hacc]; exact ht)
  obtain ⟨items, hitems, hread⟩ := txDecode_readFrom hraw hdec
  refine ⟨_, items, hdec, ⟨rfl, rfl, rfl⟩, hitems, hread, ?_⟩
  rw [signatureItems_accessList hacc ⟨hraw, hsize⟩, Read.ok.injEq] at hitems
  exact ⟨_, by rw [← hitems]; exact List.mem_cons_self, within_accessListAt hacc⟩

/-- The access list is passed as one item: `v`, `r` and `s` are the three items behind it, and
none of them is taken from inside it. -/
structure PassesAccessList (f : Eip1559) (raw : Bytes) (tx : Tx) (items : List Slice) : Prop where
  read : ReadFrom raw items tx
  values : (behind f).ReadAs tx
  places : items = following f raw
  outside : ∀ item ∈ items, ¬ Within item (accessListAt f raw)

/-- The input is rejected, or its access list is passed as one item. -/
def Skipped (malloc : Malloc) (f : Eip1559) (raw : Bytes) : Prop :=
  txDecode malloc raw = .reject ∨
    ∃ tx items, txDecode malloc raw = .ok tx ∧ signatureItems raw = .ok items ∧
      PassesAccessList f raw tx items

/-- **An access list that is not empty is never passed as one item**: `v` is taken from inside
it, unless there is no memory for the copy of the input. -/
theorem accessList_skipped_iff (f : Eip1559) {x : Item} {xs : List Item}
    (hacc : f.accessList = .list (x :: xs)) (hraw : raw = [0x02] ++ encode (.list f.items))
    (hsize : raw.length < 2 ^ 64) : Skipped malloc f raw ↔ malloc raw.length = false := by
  constructor
  · intro h
    by_contra hm
    obtain ⟨tx, items, hdec, -, hitems, -, item, hmem, hwithin⟩ :=
      txDecode_accessList (Bool.eq_true_of_not_eq_false hm) f hacc hraw hsize
    rcases h with hrej | ⟨tx', items', -, hitems', hpass⟩
    · rw [hdec] at hrej
      cases hrej
    · rw [hitems, Read.ok.injEq] at hitems'
      exact hpass.outside item (hitems' ▸ hmem) hwithin
  · intro hm
    have h0 : raw.length ≠ 0 := by simp [hraw]
    exact Or.inl (by rw [txDecode, if_neg h0, if_pos hm])

/-- A transaction on chain 1 with an access list, and `v` 1, `r` 5 and `s` 6. -/
def withAccessList (entries : List Item) : Eip1559 where
  chainId := [1]
  nonce := []
  maxPriorityFee := []
  maxFeePerGas := []
  gasLimit := []
  recipient := []
  value := []
  data := []
  accessList := .list entries
  v := [1]
  r := [5]
  s := [6]

/-- The code of such a transaction. -/
def rawWithAccessList (entries : List Item) : Bytes :=
  [0x02] ++ encode (.list (withAccessList entries).items)

/-- An entry as in use: an address and one storage key. -/
def entry : Item := .list [.str (List.replicate 20 0xaa), .list [.str (List.replicate 32 0xbb)]]

/-- Without memory the input is rejected; otherwise `v` is taken from the entry. -/
theorem accessList_skipped_entry :
    Skipped (fun _ => false) (withAccessList [entry]) (rawWithAccessList [entry]) ∧
      ¬ Skipped (fun _ => true) (withAccessList [entry]) (rawWithAccessList [entry]) := by
  have hiff := fun malloc => @accessList_skipped_iff malloc (rawWithAccessList [entry])
    (withAccessList [entry]) entry [] rfl rfl (by decide)
  exact ⟨(hiff _).mpr rfl, fun h => Bool.false_ne_true ((hiff _).mp h).symm⟩

/-- With that entry the input is accepted, with another signature. -/
theorem accessList_not_skipped :
    ¬ Skipped (fun _ => true) (withAccessList [entry]) (rawWithAccessList [entry]) := by
  obtain ⟨tx, _, hdec, ⟨hv, -⟩, -⟩ := @txDecode_accessList (fun _ => true)
    (rawWithAccessList [entry]) rfl (withAccessList [entry]) entry [] rfl rfl (by decide)
  rintro (hrej | ⟨tx', items, hdec', -, hpass⟩)
  · rw [hdec] at hrej
    cases hrej
  · have hv' := hpass.values.1
    rw [hdec, Read.ok.injEq] at hdec'
    rw [← hdec', hv] at hv'
    revert hv'
    decide

end EvmDb.TxAccessList
