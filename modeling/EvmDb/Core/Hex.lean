import EvmDb.Lib.Digits
import EvmDb.Types

/-!
The hex texts of `src/core/hex.c`.

A text is the bytes of a C string without the terminating NUL. A decoder returns its result
code and the bytes it has written to the output buffer, also when it gives up.
-/

namespace EvmDb.Hex

open EvmDb.Types EvmDb.Digits

/-- A C string: the bytes up to the first NUL. -/
def cstr (bs : Bytes) : Bytes := bs.takeWhile (· ≠ 0)

def hexChars : Bytes := ascii "0123456789abcdef"

/-- `hex_chars[d]`. -/
def hexChar (d : ℕ) : UInt8 := hexChars.getD d 0

/-- The two characters of a byte. -/
def hexByte (b : UInt8) : Bytes := [hexChar (b.toNat / 16), hexChar (b.toNat % 16)]

/-- The text of some bytes. -/
def hexText (data : Bytes) : Bytes := ascii "0x" ++ data.flatMap hexByte

/-- `evmdb_hex_encode`. -/
def hexEncode (data : Bytes) (outLen : ℕ) : Option Bytes :=
  if outLen < data.length * 2 + 3 then none else some (hexText data)

/-- `hex_char_val`. -/
def hexCharVal (c : UInt8) : Option ℕ :=
  if 48 ≤ c.toNat ∧ c.toNat ≤ 57 then some (c.toNat - 48)
  else if 97 ≤ c.toNat ∧ c.toNat ≤ 102 then some (c.toNat - 97 + 10)
  else if 65 ≤ c.toNat ∧ c.toNat ≤ 70 then some (c.toNat - 65 + 10)
  else none

/-- The text behind a prefix `0x` or `0X`. -/
def skipPrefix : Bytes → Bytes
  | 48 :: 120 :: t => t
  | 48 :: 88 :: t => t
  | t => t

/-- The loop over pairs of characters: whether it got through, and the bytes written. -/
def hexPairs : Bytes → Bool × Bytes
  | hi :: lo :: t =>
    match hexCharVal hi, hexCharVal lo with
    | some h, some l => ((hexPairs t).1, UInt8.ofNat (h * 16 + l) :: (hexPairs t).2)
    | _, _ => (false, [])
  | _ => (true, [])

/-- `evmdb_hex_decode`: the result code and the bytes written. -/
def hexDecode (hex : Bytes) (outLen : ℕ) : ℤ × Bytes :=
  let hex := skipPrefix (cstr hex)
  if hex.length % 2 ≠ 0 then (-1, [])
  else if hex.length / 2 > outLen then (-1, [])
  else
    let (ok, bs) := hexPairs hex
    -- the length is returned as an `int`
    (if ok then Int.bmod (hex.length / 2 : ℕ) (2 ^ 32) else -1, bs)

/-- `evmdb_hex_from_uint64`. -/
def hexFromUint64 (val : UInt64) (outLen : ℕ) : Option Bytes :=
  if val = 0 then
    if outLen < 4 then none else some (ascii "0x0")
  else
    let text := ascii "0x" ++ (digits 16 val.toNat).map hexChar
    if text.length ≥ outLen then none else some text

/-! ### Texts determine the bytes -/

lemma hexCharVal_hexChar {d : ℕ} (h : d < 16) : hexCharVal (hexChar d) = some d := by
  have hall : ∀ d : Fin 16, hexCharVal (hexChar d.val) = some d.val := by decide
  exact hall ⟨d, h⟩

/-- The digits of a number are read back. -/
lemma value_hexChars (n : ℕ) :
    value 16 (((digits 16 n).map hexChar).map fun c => (hexCharVal c).getD 0) = n := by
  have hmap : (digits 16 n).map ((fun c => (hexCharVal c).getD 0) ∘ hexChar) = digits 16 n := by
    conv_rhs => rw [← List.map_id (digits 16 n)]
    refine List.map_congr_left fun d hd => ?_
    rw [Function.comp_apply, hexCharVal_hexChar (digits_lt (by omega) _ d hd)]
    rfl
  rw [List.map_map, hmap, value_digits]

lemma hexPairs_flatMap (data : Bytes) : hexPairs (data.flatMap hexByte) = (true, data) := by
  induction data with
  | nil => rfl
  | cons b bs ih =>
    have hb : b.toNat < 256 := b.toNat_lt
    have hjoin : b.toNat / 16 * 16 + b.toNat % 16 = b.toNat := Nat.div_add_mod' _ _
    rw [List.flatMap_cons, hexByte, List.cons_append, List.cons_append, List.nil_append, hexPairs,
      hexCharVal_hexChar (by omega), hexCharVal_hexChar (by omega)]
    simp only [ih, hjoin, UInt8.ofNat_toNat]

lemma hexText_inj {a b : Bytes} (h : hexText a = hexText b) : a = b := by
  have hp := congrArg hexPairs (List.append_cancel_left h)
  rw [hexPairs_flatMap, hexPairs_flatMap] at hp
  exact (Prod.mk.inj hp).2

lemma length_hexText (data : Bytes) : (hexText data).length = 2 * data.length + 2 := by
  have hsum : ∀ bs : Bytes, (bs.flatMap hexByte).length = 2 * bs.length := by
    intro bs
    induction bs with
    | nil => rfl
    | cons b bs ih =>
      rw [List.flatMap_cons, List.length_append, ih, List.length_cons]
      show 2 + 2 * bs.length = 2 * (bs.length + 1)
      omega
  rw [hexText, List.length_append, hsum]
  show 2 + 2 * data.length = 2 * data.length + 2
  omega

lemma length_hexPairs_le (hex : Bytes) : (hexPairs hex).2.length ≤ hex.length / 2 := by
  induction hex using hexPairs.induct with
  | case1 hi lo t h l _ _ ih =>
    rw [hexPairs]
    simp only [List.length_cons, *]
    omega
  | case2 hi lo t _ => simp [hexPairs, *]
  | case3 t _ => simp [hexPairs, *]

/-- A text that is decoded as a whole has two characters for each byte. -/
lemma length_of_hexPairs {hex data : Bytes} (h : hexPairs hex = (true, data)) :
    hex.length / 2 = data.length := by
  induction hex using hexPairs.induct generalizing data with
  | case1 hi lo t h l hh hl ih =>
    rw [hexPairs] at h
    simp only [hh, hl, Prod.mk.injEq] at h
    have htail := ih (Prod.ext h.1 rfl)
    rw [← h.2, List.length_cons, List.length_cons, List.length_cons, ← htail]
    omega
  | case2 hi lo t _ => simp [hexPairs, *] at h
  | case3 t hshort =>
    rw [hexPairs] at h
    · cases h
      match t, hshort with
      | [], _ | [_], _ => simp
      | _ :: _ :: _, hshort => exact (hshort _ _ _ rfl).elim
    · exact hshort

/-- No more is written than fits the buffer. -/
lemma length_hexDecode_le (hex : Bytes) (outLen : ℕ) :
    (hexDecode hex outLen).2.length ≤ outLen := by
  have hle := length_hexPairs_le (skipPrefix (cstr hex))
  unfold hexDecode
  simp only
  split_ifs
  · exact Nat.zero_le _
  · exact Nat.zero_le _
  all_goals
    show (hexPairs (skipPrefix (cstr hex))).2.length ≤ outLen
    omega

/-- A buffer of `n` bytes after a text has been decoded into it. -/
def decodeInto {n : ℕ} (hex : Bytes) (out : FixedBytes n) : FixedBytes n :=
  ⟨(hexDecode hex n).2 ++ out.bytes.drop (hexDecode hex n).2.length, by
    have := length_hexDecode_le hex n
    simp; omega⟩

/-! ### Texts are decoded -/

lemma hexChar_ne_zero {d : ℕ} (h : d < 16) : hexChar d ≠ 0 := by
  have hall : ∀ d : Fin 16, hexChar d.val ≠ 0 := by decide
  exact hall ⟨d, h⟩

lemma hexChar_ne_quote {d : ℕ} (h : d < 16) : hexChar d ≠ 34 := by
  have hall : ∀ d : Fin 16, hexChar d.val ≠ 34 := by decide
  exact hall ⟨d, h⟩

lemma quote_notMem_hexBytes (data : Bytes) : (34 : UInt8) ∉ data.flatMap hexByte := by
  intro h
  obtain ⟨b, -, hb⟩ := List.mem_flatMap.mp h
  have hlt : b.toNat < 256 := b.toNat_lt
  rcases List.mem_pair.mp hb with hb | hb
  · exact hexChar_ne_quote (by omega) hb.symm
  · exact hexChar_ne_quote (by omega) hb.symm

lemma cstr_eq_self {bs : Bytes} (h : 0 ∉ bs) : cstr bs = bs := by
  apply List.takeWhile_eq_self_iff.mpr
  intro b hb
  simpa using fun h0 : b = 0 => h (h0 ▸ hb)

lemma zero_notMem_hexText (data : Bytes) : (0 : UInt8) ∉ hexText data := by
  intro h
  rcases List.mem_append.mp h with h | h
  · simp [ascii] at h
  · obtain ⟨b, -, hb⟩ := List.mem_flatMap.mp h
    have hlt : b.toNat < 256 := b.toNat_lt
    rcases List.mem_pair.mp hb with hb | hb
    · exact hexChar_ne_zero (by omega) hb.symm
    · exact hexChar_ne_zero (by omega) hb.symm

lemma skipPrefix_hexText (data : Bytes) :
    skipPrefix (cstr (hexText data)) = data.flatMap hexByte := by
  rw [cstr_eq_self (zero_notMem_hexText data)]
  rfl

/-- **A text is decoded to the bytes it is the text of.** -/
theorem hexDecode_hexText {data : Bytes} {outLen : ℕ} (h : data.length ≤ outLen) :
    hexDecode (hexText data) outLen = (Int.bmod data.length (2 ^ 32), data) := by
  have hlen : (data.flatMap hexByte).length = 2 * data.length := by
    have htext := length_hexText data
    rw [hexText, List.length_append] at htext
    have h2 : (ascii "0x").length = 2 := rfl
    omega
  unfold hexDecode
  rw [skipPrefix_hexText]
  dsimp only
  rw [if_neg (by omega), if_neg (by omega), hexPairs_flatMap]
  rw [show (data.flatMap hexByte).length / 2 = data.length by omega]
  simp only [if_true]

lemma decodeInto_hexText {n : ℕ} (w out : FixedBytes n) : decodeInto (hexText w.bytes) out = w := by
  apply FixedBytes.ext
  unfold decodeInto
  simp only [hexDecode_hexText w.length_bytes.le, w.length_bytes]
  simp

/-! ### Printed numbers -/

/-- The digits of a word. -/
def printedDigits (val : UInt64) : Bytes := (digits 16 val.toNat).map hexChar

lemma length_printedDigits_le (val : UInt64) : (printedDigits val).length ≤ 16 := by
  have hlt : val.toNat < 16 ^ 16 := by simpa using val.toNat_lt
  rw [printedDigits, List.length_map]
  exact length_digits_le (by omega) (by omega) hlt

/-- What is printed are the digits of the word. -/
lemma hexFromUint64_eq {val : UInt64} {outLen : ℕ} {text : Bytes}
    (h : hexFromUint64 val outLen = some text) : text = ascii "0x" ++ printedDigits val := by
  unfold hexFromUint64 at h
  dsimp only at h
  split_ifs at h with h0
  · cases h
    subst h0
    rfl
  · cases h
    rfl

lemma hexFromUint64_isSome (val : UInt64) {outLen : ℕ} (h : 19 ≤ outLen) :
    (hexFromUint64 val outLen).isSome := by
  have hlen := length_printedDigits_le val
  have htext : (ascii "0x" ++ printedDigits val).length ≤ 18 := by
    rw [List.length_append]
    show 2 + (printedDigits val).length ≤ 18
    omega
  unfold hexFromUint64
  unfold printedDigits at htext
  dsimp only
  split_ifs
  · omega
  · rfl
  · omega
  · rfl

end EvmDb.Hex
