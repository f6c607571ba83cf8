import EvmDb.Core.Hex

/-!
What the codec of `src/core/hex.c` accepts and how exact it is.

A decoded length is returned as an `int`, and the digits of a number are shifted into a word
without a test whether they still fit.
-/

namespace EvmDb.HexCodec

open EvmDb.Types EvmDb.Digits EvmDb.Hex

/-- The loop of `evmdb_hex_to_uint64`: whether it got through, and the word it leaves. -/
def digitLoop : Bytes → UInt64 → Bool × UInt64
  | [], out => (true, out)
  | c :: t, out =>
    match hexCharVal c with
    | some v => digitLoop t ((out <<< 4) ||| UInt64.ofNat v)
    | none => (false, out)

/-- `evmdb_hex_to_uint64`: the result code and the word written. -/
def hexToUint64 (hex : Bytes) : ℤ × UInt64 :=
  let (ok, out) := digitLoop (skipPrefix (cstr hex)) 0
  (if ok then 0 else -1, out)

/-! ### Digits -/

/-- The digits of a text: what follows its prefix. -/
def digitsOf (hex : Bytes) : Bytes := skipPrefix (cstr hex)

/-- Hex digits, of either case. -/
def HexDigits (text : Bytes) : Prop := ∀ c ∈ text, (hexCharVal c).isSome

/-- The number some hex digits denote. -/
def hexValue (text : Bytes) : ℕ := value 16 (text.map fun c => (hexCharVal c).getD 0)

/-- A letter in lower case; any other character is left as it is. -/
def toLower (c : UInt8) : UInt8 := if 65 ≤ c ∧ c ≤ 90 then c + 32 else c

@[simp] lemma hexDigits_nil : HexDigits [] := by simp [HexDigits]

@[simp] lemma hexDigits_cons {c : UInt8} {text : Bytes} :
    HexDigits (c :: text) ↔ (hexCharVal c).isSome ∧ HexDigits text := by
  simp [HexDigits]

/-- The character of a digit is the one the digit was read from, up to its case. -/
lemma hexChar_of_hexCharVal {c : UInt8} {v : ℕ} (h : hexCharVal c = some v) :
    v < 16 ∧ hexChar v = toLower c := by
  have hdigit : ∀ d : Fin 10, hexChar d = toLower (UInt8.ofNat (48 + d)) := by decide
  have hlower : ∀ d : Fin 6, hexChar (d + 10) = toLower (UInt8.ofNat (97 + d)) := by decide
  have hupper : ∀ d : Fin 6, hexChar (d + 10) = toLower (UInt8.ofNat (65 + d)) := by decide
  have hc : ∀ n ≤ c.toNat, UInt8.ofNat (n + (c.toNat - n)) = c := by
    intro n hn
    rw [Nat.add_sub_cancel' hn, UInt8.ofNat_toNat]
  unfold hexCharVal at h
  split_ifs at h with h0 ha hA
  · cases h
    have heq := hdigit ⟨c.toNat - 48, by omega⟩
    exact ⟨by omega, by rwa [hc 48 h0.1] at heq⟩
  · cases h
    have heq := hlower ⟨c.toNat - 97, by omega⟩
    exact ⟨by omega, by rwa [hc 97 ha.1] at heq⟩
  · cases h
    have heq := hupper ⟨c.toNat - 65, by omega⟩
    exact ⟨by omega, by rwa [hc 65 hA.1] at heq⟩

/-! ### Pairs of digits -/

/-- What is left behind the last pair of an even number of characters. -/
lemma eq_nil_of_short {t : Bytes} (hshort : ∀ hi lo u, t = hi :: lo :: u → False)
    (heven : t.length % 2 = 0) : t = [] := by
  rcases t with _ | ⟨c, _ | ⟨d, u⟩⟩
  · rfl
  · cases heven
  · exact (hshort c d u rfl).elim

/-- The loop over pairs gets through exactly over hex digits. -/
lemma hexPairs_fst_iff {hex : Bytes} (heven : hex.length % 2 = 0) :
    (hexPairs hex).1 = true ↔ HexDigits hex := by
  induction hex using hexPairs.induct with
  | case1 hi lo t h l hh hl ih =>
    rw [List.length_cons, List.length_cons] at heven
    rw [hexPairs]
    simp only [hh, hl, hexDigits_cons, Option.isSome_some, true_and]
    exact ih (by omega)
  | case2 hi lo t hbad =>
    rw [hexPairs]
    cases hh : hexCharVal hi with
    | none => simp [hh]
    | some h =>
      cases hl : hexCharVal lo with
      | none => simp [hl]
      | some l => exact (hbad h l hh hl).elim
  | case3 t hshort =>
    obtain rfl := eq_nil_of_short hshort heven
    simp [hexPairs]

/-- Encoding again what was decoded gives the digits back, in lower case. -/
lemma flatMap_hexByte_hexPairs {hex : Bytes} (heven : hex.length % 2 = 0) (h : HexDigits hex) :
    (hexPairs hex).2.flatMap hexByte = hex.map toLower := by
  induction hex using hexPairs.induct with
  | case1 hi lo t u v hu hv ih =>
    obtain ⟨hlt, hhi⟩ := hexChar_of_hexCharVal hu
    obtain ⟨hlt', hlo⟩ := hexChar_of_hexCharVal hv
    rw [List.length_cons, List.length_cons] at heven
    have htail := ih (by omega) (hexDigits_cons.mp (hexDigits_cons.mp h).2).2
    have hbyte : (UInt8.ofNat (u * 16 + v)).toNat = u * 16 + v := by
      rw [UInt8.toNat_ofNat']
      omega
    rw [hexPairs]
    simp only [hu, hv]
    rw [List.flatMap_cons, htail, hexByte, hbyte, show (u * 16 + v) / 16 = u by omega,
      show (u * 16 + v) % 16 = v by omega, hhi, hlo]
    rfl
  | case2 hi lo t hbad =>
    obtain ⟨hhi, hrest⟩ := hexDigits_cons.mp h
    obtain ⟨hlo, -⟩ := hexDigits_cons.mp hrest
    obtain ⟨u, hu⟩ := Option.isSome_iff_exists.mp hhi
    obtain ⟨v, hv⟩ := Option.isSome_iff_exists.mp hlo
    exact (hbad u v hu hv).elim
  | case3 t hshort =>
    obtain rfl := eq_nil_of_short hshort heven
    simp [hexPairs]

/-! ### Exactness of the codec -/

/-- A text is encoded bytes: an even number of hex digits, and no more than fit. -/
structure Encodes (hex : Bytes) (outLen : ℕ) : Prop where
  even : (digitsOf hex).length % 2 = 0
  digits : HexDigits (digitsOf hex)
  fits : (digitsOf hex).length / 2 ≤ outLen

/-- Some bytes are encoded whenever the text fits, and every text of theirs is decoded to them. -/
def RoundTrip (data : Bytes) : Prop :=
  ∀ textLen outLen, data.length * 2 + 3 ≤ textLen → data.length ≤ outLen →
    ∃ text, hexEncode data textLen = some text ∧ text.length + 1 ≤ textLen ∧
      hexDecode text outLen = ((data.length : ℤ), data)

/-- The decoder succeeds, with the length it returns not negative, exactly on encoded bytes, of
which there are fewer than `2 ^ 31`; they then encode to the text again, up to its prefix and its
case. In no case is more written than the buffer holds. -/
structure DecodesExactly (hex : Bytes) (outLen : ℕ) : Prop where
  succeeds : 0 ≤ (hexDecode hex outLen).1 ↔
    Encodes hex outLen ∧ (digitsOf hex).length / 2 < 2 ^ 31
  encodes : 0 ≤ (hexDecode hex outLen).1 →
    (hexDecode hex outLen).1 = (hexDecode hex outLen).2.length ∧
      hexText (hexDecode hex outLen).2 = ascii "0x" ++ (digitsOf hex).map toLower
  bounded : (hexDecode hex outLen).2.length ≤ outLen

/-- The number of pairs, as an `int`, has gone round to a length again. -/
def GoneRound (hex : Bytes) (outLen : ℕ) : Prop :=
  Encodes hex outLen ∧ 2 ^ 31 ≤ (digitsOf hex).length / 2 ∧
    (digitsOf hex).length / 2 % 2 ^ 32 < 2 ^ 31

lemma bmod_eq_iff {n : ℕ} : Int.bmod n (2 ^ 32) = n ↔ n < 2 ^ 31 := by
  rw [Int.bmod_def]
  split_ifs <;> omega

lemma bmod_nonneg_iff {n : ℕ} : 0 ≤ Int.bmod n (2 ^ 32) ↔ n % 2 ^ 32 < 2 ^ 31 := by
  rw [Int.bmod_def]
  split_ifs <;> omega

lemma roundTrip_iff (data : Bytes) : RoundTrip data ↔ data.length < 2 ^ 31 := by
  constructor
  · intro h
    obtain ⟨text, htext, -, hdecode⟩ := h _ _ le_rfl le_rfl
    rw [hexEncode, if_neg (by omega)] at htext
    cases htext
    rw [hexDecode_hexText le_rfl] at hdecode
    exact bmod_eq_iff.mp (Prod.mk.inj hdecode).1
  · intro h textLen outLen htext hout
    refine ⟨hexText data, ?_, ?_, ?_⟩
    · rw [hexEncode, if_neg (by omega)]
    · rw [length_hexText]
      omega
    · rw [hexDecode_hexText hout, bmod_eq_iff.mpr h]

/-- Encoded bytes are decoded; their number is returned as an `int`. -/
lemma hexDecode_of_encodes {hex : Bytes} {outLen : ℕ} (h : Encodes hex outLen) :
    hexDecode hex outLen =
      (Int.bmod ((digitsOf hex).length / 2 : ℕ) (2 ^ 32), (hexPairs (digitsOf hex)).2) := by
  have hall := (hexPairs_fst_iff h.even).mpr h.digits
  have heven := h.even
  have hfits := h.fits
  unfold digitsOf at heven hfits hall ⊢
  unfold hexDecode
  dsimp only
  rw [if_neg (by omega), if_neg (by omega), hall, if_pos rfl]

/-- Any other text is rejected. -/
lemma hexDecode_of_not_encodes {hex : Bytes} {outLen : ℕ} (h : ¬ Encodes hex outLen) :
    (hexDecode hex outLen).1 = -1 := by
  unfold hexDecode
  dsimp only
  split_ifs with hodd hlong hall
  · rfl
  · rfl
  · have heven : (digitsOf hex).length % 2 = 0 := by
      unfold digitsOf
      omega
    exact (h ⟨heven, (hexPairs_fst_iff heven).mp hall, not_lt.mp hlong⟩).elim
  · rfl

lemma decodesExactly_iff (hex : Bytes) (outLen : ℕ) :
    DecodesExactly hex outLen ↔ ¬ GoneRound hex outLen := by
  have hbounded := length_hexDecode_le hex outLen
  by_cases hencodes : Encodes hex outLen
  · have hlen : (hexPairs (digitsOf hex)).2.length = (digitsOf hex).length / 2 :=
      (length_of_hexPairs
        (Prod.ext ((hexPairs_fst_iff hencodes.even).mpr hencodes.digits) rfl)).symm
    have hsucceeds : 0 ≤ (hexDecode hex outLen).1 ↔
        (digitsOf hex).length / 2 % 2 ^ 32 < 2 ^ 31 := by
      rw [hexDecode_of_encodes hencodes, ← bmod_nonneg_iff]
    constructor
    · rintro h ⟨-, hlong, hround⟩
      have hshort := (h.succeeds.mp (hsucceeds.mpr hround)).2
      omega
    · intro h
      have hround : (digitsOf hex).length / 2 % 2 ^ 32 < 2 ^ 31 →
          (digitsOf hex).length / 2 < 2 ^ 31 := by
        intro hround
        by_contra hlong
        exact h ⟨hencodes, not_lt.mp hlong, hround⟩
      refine ⟨?_, fun hpos => ⟨?_, ?_⟩, hbounded⟩
      · rw [hsucceeds]
        exact ⟨fun hmod => ⟨hencodes, hround hmod⟩, fun hshort => by omega⟩
      · have hlength := bmod_eq_iff.mpr (hround (hsucceeds.mp hpos))
        rw [hexDecode_of_encodes hencodes]
        dsimp only
        rw [hlen, hlength]
      · rw [hexDecode_of_encodes hencodes, hexText]
        rw [flatMap_hexByte_hexPairs hencodes.even hencodes.digits]
  · have hneg : ¬ 0 ≤ (hexDecode hex outLen).1 := by
      rw [hexDecode_of_not_encodes hencodes]
      omega
    constructor
    · exact fun _ h => hencodes h.1
    · exact fun _ => ⟨⟨fun hpos => (hneg hpos).elim, fun h => (hencodes h.1).elim⟩,
        fun hpos => (hneg hpos).elim, hbounded⟩

/-- **The codec is exact** on up to `2 ^ 31 - 1` bytes. -/
theorem codec_exact_iff (data hex : Bytes) (outLen : ℕ) :
    (RoundTrip data ↔ data.length < 2 ^ 31) ∧
      (DecodesExactly hex outLen ↔ ¬ GoneRound hex outLen) :=
  ⟨roundTrip_iff data, decodesExactly_iff hex outLen⟩

/-- The length of `2 ^ 31` bytes is returned as a negative number. -/
theorem not_roundTrip_long :
    hexDecode (hexText (List.replicate (2 ^ 31) 0)) (2 ^ 31) =
        (-2 ^ 31, List.replicate (2 ^ 31) 0) ∧
      ¬ RoundTrip (List.replicate (2 ^ 31) 0) := by
  constructor
  · rw [hexDecode_hexText (by rw [List.length_replicate]), List.length_replicate]
    rfl
  · rw [roundTrip_iff, List.length_replicate]
    exact lt_irrefl _

/-! ### Numbers -/

lemma toNat_shift_digit (w : UInt64) {v : ℕ} (h : v < 16) :
    ((w <<< 4) ||| UInt64.ofNat v).toNat = (w.toNat * 16 + v) % 2 ^ 64 := by
  have hw : w.toNat < 2 ^ 64 := w.toNat_lt
  have hv : (UInt64.ofNat v).toNat = v := by
    rw [UInt64.toNat_ofNat', Nat.mod_eq_of_lt (by omega)]
  have hsplit : (w.toNat * 2 ^ 4) % 2 ^ 64 = (w.toNat % 2 ^ 60) * 2 ^ 4 := by omega
  rw [UInt64.toNat_or, UInt64.toNat_shiftLeft, hv]
  simp only [UInt64.reduceToNat, Nat.shiftLeft_eq, Nat.reduceMod]
  rw [hsplit, ← Nat.shiftLeft_eq, ← Nat.shiftLeft_add_eq_or_of_lt h, Nat.shiftLeft_eq]
  omega

/-- The loop gets through exactly over hex digits, and the word is what they denote, modulo
`2 ^ 64`. -/
lemma digitLoop_spec (text : Bytes) {out : UInt64} {n : ℕ} (hn : out.toNat = n % 2 ^ 64) :
    ((digitLoop text out).1 = true ↔ HexDigits text) ∧
      (HexDigits text → (digitLoop text out).2.toNat =
        (text.map fun c => (hexCharVal c).getD 0).foldl (fun n d => n * 16 + d) n % 2 ^ 64) := by
  induction text generalizing out n with
  | nil => simpa [digitLoop] using hn
  | cons c t ih =>
    rw [digitLoop, hexDigits_cons]
    cases hc : hexCharVal c with
    | none => simp
    | some v =>
      have hnext : ((out <<< 4) ||| UInt64.ofNat v).toNat = (n * 16 + v) % 2 ^ 64 := by
        rw [toNat_shift_digit out (hexChar_of_hexCharVal hc).1, hn]
        omega
      simpa [hc] using ih hnext

/-- A text is read as the number its digits denote, if these are digits of a number below
`2 ^ 64`, and any other text is rejected. -/
structure ReadsExactly (hex : Bytes) : Prop where
  accepts : (hexToUint64 hex).1 = 0 ↔ HexDigits (digitsOf hex) ∧ hexValue (digitsOf hex) < 2 ^ 64
  stores : (hexToUint64 hex).1 = 0 → (hexToUint64 hex).2.toNat = hexValue (digitsOf hex)

/-- A word is printed to every buffer that can hold it, and it is read again. -/
structure Inverts (val : UInt64) : Prop where
  prints : ∀ outLen, 19 ≤ outLen → (hexFromUint64 val outLen).isSome
  reads : ∀ outLen text, hexFromUint64 val outLen = some text → hexToUint64 text = (0, val)

lemma hexToUint64_fst_iff (hex : Bytes) : (hexToUint64 hex).1 = 0 ↔ HexDigits (digitsOf hex) := by
  rw [← (@digitLoop_spec (digitsOf hex) 0 0 rfl).1]
  unfold hexToUint64 digitsOf
  dsimp only
  split_ifs with h <;> simp [h]

lemma toNat_hexToUint64 {hex : Bytes} (h : HexDigits (digitsOf hex)) :
    (hexToUint64 hex).2.toNat = hexValue (digitsOf hex) % 2 ^ 64 :=
  (@digitLoop_spec (digitsOf hex) 0 0 rfl).2 h

lemma readsExactly_iff (hex : Bytes) : ReadsExactly hex ↔
    (HexDigits (digitsOf hex) → hexValue (digitsOf hex) < 2 ^ 64) := by
  constructor
  · intro h hdigits
    exact (h.accepts.mp ((hexToUint64_fst_iff hex).mpr hdigits)).2
  · intro h
    refine ⟨?_, fun hzero => ?_⟩
    · rw [hexToUint64_fst_iff]
      exact ⟨fun hdigits => ⟨hdigits, h hdigits⟩, fun hboth => hboth.1⟩
    · have hdigits := (hexToUint64_fst_iff hex).mp hzero
      rw [toNat_hexToUint64 hdigits, Nat.mod_eq_of_lt (h hdigits)]

lemma hexDigits_printedDigits (val : UInt64) : HexDigits (printedDigits val) := by
  intro c hc
  obtain ⟨d, hd, rfl⟩ := List.mem_map.mp hc
  rw [hexCharVal_hexChar (digits_lt (by omega) _ d hd)]
  rfl

lemma hexValue_printedDigits (val : UInt64) : hexValue (printedDigits val) = val.toNat :=
  value_hexChars val.toNat

lemma digitsOf_printedDigits (val : UInt64) :
    digitsOf (ascii "0x" ++ printedDigits val) = printedDigits val := by
  have hzero : (0 : UInt8) ∉ ascii "0x" ++ printedDigits val := by
    intro hmem
    rcases List.mem_append.mp hmem with h | h
    · simp [ascii] at h
    · obtain ⟨d, hd, hd0⟩ := List.mem_map.mp h
      exact hexChar_ne_zero (digits_lt (by omega) _ d hd) hd0
  rw [digitsOf, cstr_eq_self hzero]
  rfl

lemma inverts (val : UInt64) : Inverts val := by
  refine ⟨fun outLen h => hexFromUint64_isSome val h, fun outLen text h => ?_⟩
  have hval : val.toNat < 2 ^ 64 := val.toNat_lt
  have hdigits : HexDigits (digitsOf (ascii "0x" ++ printedDigits val)) := by
    rw [digitsOf_printedDigits]
    exact hexDigits_printedDigits val
  rw [hexFromUint64_eq h]
  refine Prod.ext ((hexToUint64_fst_iff _).mpr hdigits) (UInt64.toNat_inj.mp ?_)
  rw [toNat_hexToUint64 hdigits, digitsOf_printedDigits, hexValue_printedDigits,
    Nat.mod_eq_of_lt hval]

/-- **Hex numbers are read exactly** unless digits of theirs do not fit into a word. -/
theorem readsExactly_iff_fits (val : UInt64) (hex : Bytes) :
    Inverts val ∧ (ReadsExactly hex ↔
      (HexDigits (digitsOf hex) → hexValue (digitsOf hex) < 2 ^ 64)) :=
  ⟨inverts val, readsExactly_iff hex⟩

/-- The seventeenth digit is shifted out. -/
theorem not_readsExactly_long :
    hexToUint64 (ascii "0x10000000000000000") = (0, 0) ∧
      hexValue (digitsOf (ascii "0x10000000000000000")) = 2 ^ 64 ∧
      ¬ ReadsExactly (ascii "0x10000000000000000") := by
  have hread : hexToUint64 (ascii "0x10000000000000000") = (0, 0) := by decide
  have hvalue : hexValue (digitsOf (ascii "0x10000000000000000")) = 2 ^ 64 := by decide
  refine ⟨hread, hvalue, fun h => ?_⟩
  have hstored := h.stores (by rw [hread])
  rw [hvalue, hread] at hstored
  cases hstored

end EvmDb.HexCodec
