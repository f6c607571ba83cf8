import EvmDb.Block.TxReads

/-!
Which strings `rlp_decode_item` measures exactly.

The end of a string is compared with the end of the window after an addition of 64-bit words. The
comparison is exact unless that sum wraps to a number that is not behind the window.
-/

namespace EvmDb.StringItems

open EvmDb.Radix EvmDb.Rlp EvmDb.Checked EvmDb.Types EvmDb.RlpReader EvmDb.TxReads
open EvmDb.Checked.Read

variable {raw : Bytes} {r : Reader} {b : UInt8} {bs : Bytes} {hd : Head}

/-- The header at the cursor and the content it announces lie in the window. -/
def Fits (raw : Bytes) (r : Reader) (hd : Head) : Prop :=
  readHead (left raw r) = some hd ∧ hd.size + hd.len ≤ r.len - r.pos

/-- An item is measured exactly: it is handed out if it fits, it is rejected if it does not, and
what is handed out is the announced content, which is passed. -/
structure Measured (raw : Bytes) (r : Reader) : Prop where
  accepted : (∃ out, rlpDecodeItem raw r = .ok out) ↔ ∃ hd, Fits raw r hd
  rejected : rlpDecodeItem raw r = .reject ↔ ¬ ∃ hd, Fits raw r hd
  exact : ∀ item r', rlpDecodeItem raw r = .ok (item, r') →
    ∃ hd, readHead (left raw r) = some hd ∧ item = ⟨r.data + (r.pos + hd.size), hd.len⟩
  inside : ∀ item r', rlpDecodeItem raw r = .ok (item, r') →
    r.data ≤ item.data ∧ item.data + item.len ≤ r.data + r.len
  advanced : ∀ item r', rlpDecodeItem raw r = .ok (item, r') →
    r' = { r with pos := item.data + item.len - r.data } ∧ r.pos < r'.pos ∧ r'.pos ≤ r.len

/-- The cursor and the length of the header, and these and the announced length, have a sum that
does not wrap, or wraps to a number behind the window. -/
structure SumsExact (raw : Bytes) (r : Reader) (b : UInt8) : Prop where
  header : r.pos + 1 + lengthBytes b < 2 ^ 64
  content : ∀ hd, readHead (left raw r) = some hd →
    r.pos + hd.size + hd.len < 2 ^ 64 ∨ r.len < r.pos + hd.size + hd.len - 2 ^ 64

/-! ### Headers in the window -/

lemma readHead_append {p : Bytes} (h : readHead p = some hd) (t : Bytes) :
    readHead (p ++ t) = some hd := by
  have hlong : ∀ {isList k} {bs : Bytes}, longHead isList k bs = some hd →
      longHead isList k (bs ++ t) = some hd := by
    intro isList k bs hl
    unfold longHead at hl ⊢
    split_ifs at hl with hshort
    rw [if_neg (by rw [List.length_append]; omega), List.take_append_of_le_length (by omega)]
    exact hl
  cases p with
  | nil => cases h
  | cons b bs =>
    rw [List.cons_append]
    simp only [readHead] at h ⊢
    split_ifs at h ⊢ with h7f hb7 hbf hf7
    · exact h
    · exact h
    · exact hlong h
    · exact h
    · exact hlong h

lemma readHead_string (hb : b.toNat ≤ 0xbf) (h : readHead (b :: bs) = some hd) :
    hd.isList = false ∧ hd.size ≤ 1 + bs.length ∧ hd.size ≤ 1 + lengthBytes b ∧
      0 < hd.size + hd.len := by
  unfold lengthBytes
  simp only [readHead, longHead] at h
  split_ifs at h ⊢ <;> cases h <;> refine ⟨rfl, ?_, ?_, ?_⟩ <;> dsimp only <;> omega

lemma lengthBytes_of_none (hb : b.toNat ≤ 0xbf) (h : readHead (b :: bs) = none) :
    bs.length < lengthBytes b := by
  unfold lengthBytes
  simp only [readHead, longHead] at h
  split_ifs at h ⊢
  omega

section

variable (h : Framed raw r) (hl : left raw r = b :: bs)
include hl

lemma rest_of_left : ∃ t, rest raw r = b :: (bs ++ t) :=
  ⟨(rest raw r).drop (r.len - r.pos), by
    rw [← List.cons_append, ← hl]
    exact (List.take_append_drop _ _).symm⟩

include h

lemma length_of_left : r.pos + 1 + bs.length = r.len := by
  have hlen := h.length_left
  have hpos := h.pos_le
  rw [hl, List.length_cons] at hlen
  omega

/-- A string whose header lies in the window is handed out if the sums allow it. -/
lemma rlpDecodeItem_of_header (hb : b.toNat ≤ 0xbf) (hread : readHead (left raw r) = some hd) :
    rlpDecodeItem raw r = deliver r hd := by
  obtain ⟨t, ht⟩ := rest_of_left hl
  have hlen := length_of_left h hl
  have hsize := h.size
  have hfits := h.fits
  have hread' : readHead (b :: (bs ++ t)) = some hd := readHead_append (hl ▸ hread) t
  by_cases hk : lengthBytes b = 0
  · obtain ⟨hd', hsame, hcall⟩ := rlpDecodeItem_short (by omega) (by omega) ht hk
    rw [hread', Option.some.injEq] at hsame
    rw [hcall, hsame]
  · obtain ⟨isList, hlong, hcall⟩ := rlpDecodeItem_long (by omega) ht hk
    obtain ⟨-, hin, -⟩ := readHead_string hb (hl ▸ hread)
    have hvalue := rlpLength_rest ht (lengthBytes_le b)
    rw [hread', longHead] at hlong
    split_ifs at hlong with hshort
    cases hlong
    have hin' : 1 + lengthBytes b ≤ 1 + bs.length := hin
    rw [if_pos (by omega)] at hvalue
    rw [hcall, Nat.mod_eq_of_lt (by omega), if_neg (by omega), hvalue, ok_bind]

/-- A string whose header does not lie in the window is rejected, if the sum is exact. -/
lemma rlpDecodeItem_of_no_header (hb : b.toNat ≤ 0xbf) (hread : readHead (left raw r) = none)
    (hsum : r.pos + 1 + lengthBytes b < 2 ^ 64) : rlpDecodeItem raw r = .reject := by
  obtain ⟨t, ht⟩ := rest_of_left hl
  have hlen := length_of_left h hl
  have hshort := lengthBytes_of_none hb (hl ▸ hread)
  obtain ⟨isList, -, hcall⟩ := rlpDecodeItem_long (by omega) ht (by omega)
  rw [hcall, Nat.mod_eq_of_lt hsum, if_pos (by omega)]

/-- If that sum wraps, the length bytes are read beyond the input. -/
lemma not_inside_of_wrap (hsum : 2 ^ 64 ≤ r.pos + 1 + lengthBytes b) :
    ¬ (rlpDecodeItem raw r).Inside := by
  obtain ⟨t, ht⟩ := rest_of_left hl
  have hlen := length_of_left h hl
  have hsize := h.size
  have hfits := h.fits
  have hraw := (byteAt_rest ht).2
  have hle := lengthBytes_le b
  obtain ⟨isList, -, hcall⟩ := rlpDecodeItem_long (by omega) ht (by omega)
  have hvalue := rlpLength_rest ht (lengthBytes_le b)
  rw [if_neg (by omega)] at hvalue
  rw [hcall, if_neg (by omega), inside_bind]
  exact fun hin => hvalue hin.1

end

/-! ### Exact measures -/

lemma accepted_string (hlist : hd.isList = false) (hsize : r.pos + hd.size < 2 ^ 64) :
    Accepted r hd ↔ r.pos + hd.size ≤ r.len ∧ (r.pos + hd.size + hd.len) % 2 ^ 64 ≤ r.len := by
  unfold Accepted endPos contentPos
  rw [hlist, if_neg Bool.false_ne_true, Nat.mod_eq_of_lt hsize]

lemma measured_of_reject (hcall : rlpDecodeItem raw r = .reject) (hno : ¬ ∃ hd, Fits raw r hd) :
    Measured raw r := by
  have hnone : ∀ out, rlpDecodeItem raw r ≠ .ok out := fun out h => by rw [hcall] at h; cases h
  exact ⟨iff_of_false (fun ⟨out, h⟩ => hnone out h) hno, iff_of_true hcall hno,
    fun _ _ h => absurd h (hnone _), fun _ _ h => absurd h (hnone _),
    fun _ _ h => absurd h (hnone _)⟩

lemma measured_of_fits (h : Framed raw r) (hlist : hd.isList = false)
    (hpos : 0 < hd.size + hd.len) (hfits : Fits raw r hd)
    (hcall : rlpDecodeItem raw r = deliver r hd) : Measured raw r := by
  have hle := h.pos_le
  have hin := h.fits
  have hraw := h.size
  have hend := hfits.2
  have hacc : Accepted r hd := by
    rw [accepted_string hlist (by omega), Nat.mod_eq_of_lt (by omega)]
    omega
  have hok : rlpDecodeItem raw r = .ok (⟨r.data + (r.pos + hd.size), hd.len⟩,
      { r with pos := r.pos + hd.size + hd.len }) := by
    rw [hcall, deliver, if_pos hacc, announced, endPos, hlist, contentPos,
      Nat.mod_eq_of_lt (by omega), if_neg Bool.false_ne_true, Nat.mod_eq_of_lt (by omega)]
  have hout : ∀ item r', rlpDecodeItem raw r = .ok (item, r') →
      item = ⟨r.data + (r.pos + hd.size), hd.len⟩ ∧
        r' = { r with pos := r.pos + hd.size + hd.len } := by
    intro item r' h
    rw [hok, Read.ok.injEq, Prod.mk.injEq] at h
    exact ⟨h.1.symm, h.2.symm⟩
  refine ⟨iff_of_true ⟨_, hok⟩ ⟨hd, hfits⟩, iff_of_false (fun h => ?_) fun hno => hno ⟨hd, hfits⟩,
    fun item r' h => ⟨hd, hfits.1, (hout item r' h).1⟩, fun item r' h => ?_, fun item r' h => ?_⟩
  · rw [hok] at h
    cases h
  · obtain ⟨rfl, -⟩ := hout item r' h
    dsimp only
    omega
  · obtain ⟨rfl, rfl⟩ := hout item r' h
    refine ⟨?_, ?_, ?_⟩
    · congr 1
      dsimp only
      omega
    · dsimp only
      omega
    · dsimp only
      omega

/-- Sums that are exact are compared exactly. -/
lemma measured_of_sums (h : Framed raw r) (hl : left raw r = b :: bs) (hb : b.toNat ≤ 0xbf)
    (hsums : SumsExact raw r b) : Measured raw r := by
  cases hread : readHead (left raw r) with
  | none =>
    refine measured_of_reject (rlpDecodeItem_of_no_header h hl hb hread hsums.header) ?_
    rintro ⟨hd, hsome, -⟩
    rw [hread] at hsome
    cases hsome
  | some hd =>
    have hcall := rlpDecodeItem_of_header h hl hb hread
    obtain ⟨hlist, hsize, hhead, hpos⟩ := readHead_string hb (hl ▸ hread)
    have hheader := hsums.header
    by_cases hfit : hd.size + hd.len ≤ r.len - r.pos
    · exact measured_of_fits h hlist hpos ⟨hread, hfit⟩ hcall
    · have hlen := length_of_left h hl
      have hltLen := readHead_len_lt hread
      have hno : ¬ Accepted r hd := by
        rw [accepted_string hlist (by omega)]
        rintro ⟨-, hend⟩
        rcases hsums.content hd hread with hsum | hsum
        · rw [Nat.mod_eq_of_lt hsum] at hend
          omega
        · omega
      refine measured_of_reject (hcall.trans (if_neg hno)) ?_
      rintro ⟨hd', hsame, hfit'⟩
      rw [hread, Option.some.injEq] at hsame
      exact hfit (hsame ▸ hfit')

/-- **A string is measured exactly if and only if the sums are.** -/
theorem measured_iff (h : Framed raw r) (hl : left raw r = b :: bs) (hb : b.toNat ≤ 0xbf) :
    Measured raw r ↔ SumsExact raw r b := by
  refine ⟨fun hmeasured => ⟨?_, ?_⟩, measured_of_sums h hl hb⟩
  · by_contra hwrap
    refine not_inside_of_wrap h hl (by omega) fun i hi => ?_
    by_cases hfits : ∃ hd, Fits raw r hd
    · obtain ⟨out, hout⟩ := hmeasured.accepted.mpr hfits
      rw [hout] at hi
      cases hi
    · rw [hmeasured.rejected.mpr hfits] at hi
      cases hi
  · intro hd hread
    by_contra hwrap
    obtain ⟨hlist, hsize, -⟩ := readHead_string hb (hl ▸ hread)
    have hlen := length_of_left h hl
    have hltLen := readHead_len_lt hread
    have hraw := h.size
    have hin := h.fits
    have hacc : Accepted r hd := by
      rw [accepted_string hlist (by omega)]
      omega
    obtain ⟨hd', hsame, hfit⟩ := hmeasured.accepted.mp
      ⟨_, (rlpDecodeItem_of_header h hl hb hread).trans (if_pos hacc)⟩
    rw [hread, Option.some.injEq] at hsame
    subst hsame
    omega

/-- A short string of three bytes. -/
theorem measured_short : Measured [0x83, 1, 2, 3] ⟨0, 0, 4⟩ := by
  refine (measured_iff ⟨by decide, by decide, by decide⟩ (show _ = 0x83 :: [1, 2, 3] from rfl)
    (by decide)).mpr ⟨by decide, fun hd hread => ?_⟩
  cases hread
  exact Or.inl (by decide)

/-- A string that announces `2 ^ 64 - 1` bytes is handed out, and the cursor stays behind the first
eight of its bytes. -/
theorem not_measured_long :
    ¬ Measured (0xbf :: List.replicate 8 0xff) ⟨0, 0, 9⟩ := by
  intro hmeasured
  have hcall : rlpDecodeItem (0xbf :: List.replicate 8 0xff) ⟨0, 0, 9⟩ =
      .ok (⟨9, 2 ^ 64 - 1⟩, ⟨0, 8, 9⟩) := by decide +kernel
  have hinside : 9 + (2 ^ 64 - 1) ≤ 0 + 9 := (hmeasured.inside _ _ hcall).2
  omega

end EvmDb.StringItems
