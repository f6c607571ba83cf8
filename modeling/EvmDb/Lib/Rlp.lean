import EvmDb.Lib.Radix

/-!
Recursive length prefix: a byte code for trees whose leaves are byte strings.

An item is a byte string or a list of items. Its code is a header and then its content, and
the header announces how many bytes of content follow; a single byte up to `0x7f` is its own
code. `readHead` reads the header back, so no code is a prefix of another and a
concatenation of codes comes apart in one way only.
-/

namespace EvmDb.Rlp

open EvmDb.Radix

/-- An item: a byte string, or a list of items. -/
inductive Item
  | str (bs : List UInt8)
  | list (xs : List Item)

/-- The header announcing `n` bytes of content. -/
def header (short long n : ℕ) : List UInt8 :=
  if n ≤ 55 then [UInt8.ofNat (short + n)]
  else UInt8.ofNat (long + (minimal n).length) :: minimal n

def strHeader (bs : List UInt8) : List UInt8 :=
  if bs.length = 1 ∧ (bs.headD 0).toNat ≤ 0x7f then [] else header 0x80 0xb7 bs.length

def listHeader (payload : List UInt8) : List UInt8 := header 0xc0 0xf7 payload.length

def encodeStr (bs : List UInt8) : List UInt8 := strHeader bs ++ bs

def encodeList (payload : List UInt8) : List UInt8 := listHeader payload ++ payload

mutual
/-- The code of an item. -/
def encode : Item → List UInt8
  | .str bs => encodeStr bs
  | .list xs => encodeList (encodeAll xs)
/-- The codes of several items, one after the other. -/
def encodeAll : List Item → List UInt8
  | [] => []
  | x :: xs => encode x ++ encodeAll xs
end

@[simp] lemma encodeAll_append (xs ys : List Item) :
    encodeAll (xs ++ ys) = encodeAll xs ++ encodeAll ys := by
  induction xs with
  | nil => simp [encodeAll]
  | cons x xs ih => simp [encodeAll, ih]

/-! ### Reading a header back -/

/-- What a header announces: a list or a string, after `size` bytes of header, `len` bytes of
content. -/
structure Head where
  isList : Bool
  size : ℕ
  len : ℕ
  deriving DecidableEq

def longHead (isList : Bool) (k : ℕ) (bs : List UInt8) : Option Head :=
  if bs.length < k then none else some ⟨isList, 1 + k, value (bs.take k)⟩

/-- The header a byte string begins with. -/
def readHead : List UInt8 → Option Head
  | [] => none
  | b :: bs =>
    if b.toNat ≤ 0x7f then some ⟨false, 0, 1⟩
    else if b.toNat ≤ 0xb7 then some ⟨false, 1, b.toNat - 0x80⟩
    else if b.toNat ≤ 0xbf then longHead false (b.toNat - 0xb7) bs
    else if b.toNat ≤ 0xf7 then some ⟨true, 1, b.toNat - 0xc0⟩
    else longHead true (b.toNat - 0xf7) bs

lemma longHead_minimal (isList : Bool) (n : ℕ) (t : List UInt8) :
    longHead isList (minimal n).length (minimal n ++ t)
      = some ⟨isList, 1 + (minimal n).length, n⟩ := by
  have h : ¬(minimal n ++ t).length < (minimal n).length := by simp
  rw [longHead, if_neg h, List.take_left, value_minimal]

lemma toNat_ofNat {n : ℕ} (h : n < 256) : (UInt8.ofNat n).toNat = n := by
  rw [UInt8.toNat_ofNat', Nat.mod_eq_of_lt h]

lemma minimal_length_le {n : ℕ} (h : n < 2 ^ 64) : (minimal n).length ≤ 8 :=
  length_minimal_le (by simpa using h)

/-- The header of a string of `n` bytes is read back. -/
lemma readHead_header_str {n : ℕ} (h : n < 2 ^ 64) (t : List UInt8) :
    readHead (header 0x80 0xb7 n ++ t)
      = some ⟨false, (header 0x80 0xb7 n).length, n⟩ := by
  unfold header
  by_cases hn : n ≤ 55
  · have hb := toNat_ofNat (n := 0x80 + n) (by omega)
    rw [if_pos hn, List.singleton_append, readHead, if_neg (by omega), if_pos (by omega), hb]
    simp
  · have hlen := minimal_length_le h
    have hpos := length_minimal_pos (n := n) (by omega)
    have hb := toNat_ofNat (n := 0xb7 + (minimal n).length) (by omega)
    rw [if_neg hn, List.cons_append, readHead, if_neg (by omega), if_neg (by omega),
      if_pos (by omega), hb, Nat.add_sub_cancel_left, longHead_minimal]
    simp [Nat.add_comm]

/-- The header of a list with `n` bytes of content is read back. -/
lemma readHead_header_list {n : ℕ} (h : n < 2 ^ 64) (t : List UInt8) :
    readHead (header 0xc0 0xf7 n ++ t)
      = some ⟨true, (header 0xc0 0xf7 n).length, n⟩ := by
  unfold header
  by_cases hn : n ≤ 55
  · have hb := toNat_ofNat (n := 0xc0 + n) (by omega)
    rw [if_pos hn, List.singleton_append, readHead, if_neg (by omega), if_neg (by omega),
      if_neg (by omega), if_pos (by omega), hb]
    simp
  · have hlen := minimal_length_le h
    have hpos := length_minimal_pos (n := n) (by omega)
    have hb := toNat_ofNat (n := 0xf7 + (minimal n).length) (by omega)
    rw [if_neg hn, List.cons_append, readHead, if_neg (by omega), if_neg (by omega),
      if_neg (by omega), if_neg (by omega), hb, Nat.add_sub_cancel_left, longHead_minimal]
    simp [Nat.add_comm]

lemma readHead_encodeStr {bs : List UInt8} (h : bs.length < 2 ^ 64) (t : List UInt8) :
    readHead (encodeStr bs ++ t) = some ⟨false, (strHeader bs).length, bs.length⟩ := by
  unfold encodeStr strHeader
  split_ifs with hs
  · obtain ⟨h1, hb⟩ := hs
    obtain ⟨b, rfl⟩ := List.length_eq_one_iff.mp h1
    have hb' : b.toNat ≤ 0x7f := by simpa using hb
    simp [readHead, hb']
  · rw [List.append_assoc]
    exact readHead_header_str h _

lemma readHead_encodeList {p : List UInt8} (h : p.length < 2 ^ 64) (t : List UInt8) :
    readHead (encodeList p ++ t) = some ⟨true, (listHeader p).length, p.length⟩ := by
  unfold encodeList listHeader
  rw [List.append_assoc]
  exact readHead_header_list h _

lemma length_encodeStr (bs : List UInt8) :
    (encodeStr bs).length = (strHeader bs).length + bs.length := by simp [encodeStr]

lemma length_encodeList (p : List UInt8) :
    (encodeList p).length = (listHeader p).length + p.length := by simp [encodeList]

lemma length_header_le {n : ℕ} (h : n < 2 ^ 64) (short long : ℕ) :
    (header short long n).length ≤ 9 := by
  have hlen := minimal_length_le h
  unfold header
  split_ifs
  · simp
  · rw [List.length_cons]
    omega

lemma length_encodeStr_le {bs : List UInt8} (h : bs.length < 2 ^ 64) :
    (encodeStr bs).length ≤ bs.length + 9 := by
  have hheader := length_header_le h 0x80 0xb7
  rw [length_encodeStr]
  unfold strHeader
  split_ifs
  · simp
  · omega

lemma length_encodeList_le {p : List UInt8} (h : p.length < 2 ^ 64) :
    (encodeList p).length ≤ p.length + 9 := by
  have hheader := length_header_le h 0xc0 0xf7
  rw [length_encodeList, listHeader]
  omega

lemma length_header_pos (short long n : ℕ) : 0 < (header short long n).length := by
  unfold header; split_ifs <;> simp

lemma length_encode_pos (x : Item) : 0 < (encode x).length := by
  cases x with
  | str bs =>
    rw [encode, length_encodeStr]
    unfold strHeader
    split_ifs with h
    · omega
    · have := length_header_pos 0x80 0xb7 bs.length
      omega
  | list xs =>
    have := length_header_pos 0xc0 0xf7 (encodeAll xs).length
    rw [encode, length_encodeList, listHeader]
    omega

/-! ### Codes come apart in one way only -/

/-- Two headers of one shape in front of their contents: if the texts agree, so do the
contents and what follows. -/
lemma content_inj {h₁ h₂ a b s t : List UInt8} (hh : h₁.length = h₂.length)
    (hl : a.length = b.length) (h : h₁ ++ a ++ s = h₂ ++ b ++ t) : a = b ∧ s = t := by
  rw [List.append_assoc, List.append_assoc] at h
  obtain ⟨-, h'⟩ := List.append_inj h hh
  exact List.append_inj h' hl

lemma encodeStr_inj {a b s t : List UInt8} (ha : a.length < 2 ^ 64) (hb : b.length < 2 ^ 64)
    (h : encodeStr a ++ s = encodeStr b ++ t) : a = b ∧ s = t := by
  have hr := readHead_encodeStr ha s
  rw [h, readHead_encodeStr hb t] at hr
  simp only [Option.some.injEq, Head.mk.injEq, true_and] at hr
  exact content_inj hr.1.symm hr.2.symm h

lemma encodeList_inj {p q s t : List UInt8} (hp : p.length < 2 ^ 64) (hq : q.length < 2 ^ 64)
    (h : encodeList p ++ s = encodeList q ++ t) : p = q ∧ s = t := by
  have hr := readHead_encodeList hp s
  rw [h, readHead_encodeList hq t] at hr
  simp only [Option.some.injEq, Head.mk.injEq, true_and] at hr
  exact content_inj hr.1.symm hr.2.symm h

lemma encodeStr_ne_encodeList {a q s t : List UInt8} (ha : a.length < 2 ^ 64)
    (hq : q.length < 2 ^ 64) : encodeStr a ++ s ≠ encodeList q ++ t := by
  intro h
  have hr := readHead_encodeStr ha s
  rw [h, readHead_encodeList hq t] at hr
  simp at hr

mutual
/-- **No code is a prefix of another**, and an item is read off its code. -/
theorem encode_append_inj : ∀ (x y : Item) {s t : List UInt8}, (encode x).length < 2 ^ 64 →
    (encode y).length < 2 ^ 64 → encode x ++ s = encode y ++ t → x = y ∧ s = t
  | .str a, .str b, s, t, hx, hy, h => by
    simp only [encode, length_encodeStr] at hx hy h
    obtain ⟨rfl, rfl⟩ := encodeStr_inj (by omega) (by omega) h
    exact ⟨rfl, rfl⟩
  | .str a, .list q, s, t, hx, hy, h => by
    simp only [encode, length_encodeStr, length_encodeList] at hx hy h
    exact absurd h (encodeStr_ne_encodeList (by omega) (by omega))
  | .list p, .str b, s, t, hx, hy, h => by
    simp only [encode, length_encodeStr, length_encodeList] at hx hy h
    exact absurd h.symm (encodeStr_ne_encodeList (by omega) (by omega))
  | .list p, .list q, s, t, hx, hy, h => by
    simp only [encode, length_encodeList] at hx hy h
    obtain ⟨hpq, rfl⟩ := encodeList_inj (by omega) (by omega) h
    rw [encodeAll_inj p q (by omega) (by omega) hpq]
    exact ⟨rfl, rfl⟩

/-- A concatenation of codes determines its items. -/
theorem encodeAll_inj : ∀ (xs ys : List Item), (encodeAll xs).length < 2 ^ 64 →
    (encodeAll ys).length < 2 ^ 64 → encodeAll xs = encodeAll ys → xs = ys
  | [], [], _, _, _ => rfl
  | [], y :: ys, _, _, h => by
    have := length_encode_pos y
    have hl := congrArg List.length h
    simp only [encodeAll, List.length_append, List.length_nil] at hl
    omega
  | x :: xs, [], _, _, h => by
    have := length_encode_pos x
    have hl := congrArg List.length h
    simp only [encodeAll, List.length_append, List.length_nil] at hl
    omega
  | x :: xs, y :: ys, hx, hy, h => by
    simp only [encodeAll, List.length_append] at hx hy h
    obtain ⟨rfl, ht⟩ := encode_append_inj x y (by omega) (by omega) h
    rw [encodeAll_inj xs ys (by omega) (by omega) ht]
end

end EvmDb.Rlp
