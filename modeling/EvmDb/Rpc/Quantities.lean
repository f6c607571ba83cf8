import EvmDb.Core.HexCodec
import EvmDb.Rpc.Handlers
import EvmDb.State.Layout

/-!
The numbers in responses, as canonical quantities.

A balance is encoded as a word and its zeros are skipped; a machine word is printed. Both routes
come to the same form.
-/

namespace EvmDb.Quantities

open EvmDb.Types EvmDb.Digits EvmDb.Hex EvmDb.HexCodec EvmDb.Program EvmDb.Redis EvmDb.RedisState
open EvmDb.StateLayout EvmDb.Request EvmDb.SendRaw EvmDb.Handlers

/-- Digits of a quantity: in lower case, and without a leading zero; a zero is a single digit. -/
structure CanonicalDigits (ds : Bytes) (n : ℕ) : Prop where
  lower : ∀ c ∈ ds, c ∈ hexChars
  denotes : hexValue ds = n
  zero : n = 0 → ds = [48]
  first : n ≠ 0 → ds ≠ [] ∧ ds.head? ≠ some 48

/-- A canonical JSON-RPC quantity. -/
def Quantity (text : Bytes) (n : ℕ) : Prop := ∃ ds, text = ascii "0x" ++ ds ∧ CanonicalDigits ds n

/-! ### Canonical digits -/

/-- The value of a digit's character. -/
def digitValue (c : UInt8) : ℕ := (hexCharVal c).getD 0

lemma hexChar_digitValue {c : UInt8} (h : c ∈ hexChars) :
    digitValue c < 16 ∧ hexChar (digitValue c) = c := by
  have hall : ∀ c ∈ hexChars, digitValue c < 16 ∧ hexChar (digitValue c) = c := by decide
  exact hall c h

lemma digitValue_hexChar {d : ℕ} (h : d < 16) : digitValue (hexChar d) = d := by
  rw [digitValue, hexCharVal_hexChar h, Option.getD_some]

lemma hexChar_mem {d : ℕ} (h : d < 16) : hexChar d ∈ hexChars := by
  have hall : ∀ d : Fin 16, hexChar d.val ∈ hexChars := by decide
  exact hall ⟨d, h⟩

/-- The only character of value zero is the zero. -/
lemma eq_of_digitValue_eq_zero {c : UInt8} (h : c ∈ hexChars) (h0 : digitValue c = 0) : c = 48 := by
  rw [← (hexChar_digitValue h).2, h0]
  rfl

lemma value_eq_zero_iff {b : ℕ} (hb : 0 < b) (ds : List ℕ) : value b ds = 0 ↔ ∀ d ∈ ds, d = 0 := by
  induction ds using List.reverseRecOn with
  | nil => simp [value]
  | append_singleton ds d ih =>
    rw [value_snoc]
    simp [ih, hb.ne', or_imp, forall_and]

/-- **Canonical digits are those of the number.** -/
theorem canonicalDigits_iff {ds : Bytes} {n : ℕ} :
    CanonicalDigits ds n ↔ ds = (digits 16 n).map hexChar := by
  constructor
  · intro h
    by_cases h0 : n = 0
    · rw [h.zero h0, h0]
      rfl
    · obtain ⟨hne, hhead⟩ := h.first h0
      obtain ⟨c, t, rfl⟩ := List.exists_cons_of_ne_nil hne
      have hlt : ∀ d ∈ ((c :: t).map digitValue).reverse, d < 16 := by
        intro d hd
        obtain ⟨c', hc', rfl⟩ := List.mem_map.mp (List.mem_reverse.mp hd)
        exact (hexChar_digitValue (h.lower c' hc')).1
      have hlast : ∀ hne : ((c :: t).map digitValue).reverse ≠ [],
          ((c :: t).map digitValue).reverse.getLast hne ≠ 0 := by
        intro hne h0
        rw [List.getLast_reverse, List.head_map, List.head_cons] at h0
        have hc := eq_of_digitValue_eq_zero (h.lower c List.mem_cons_self) h0
        exact hhead (by rw [hc]; rfl)
      have hdigits := Nat.digits_ofDigits 16 (by omega) _ hlt hlast
      have hvalue : Nat.ofDigits 16 ((c :: t).map digitValue).reverse = n := by
        rw [← value_reverse, List.reverse_reverse]
        exact h.denotes
      rw [hvalue] at hdigits
      rw [digits, if_neg h0, hdigits, List.reverse_reverse, List.map_map]
      conv_lhs => rw [← List.map_id (c :: t)]
      exact List.map_congr_left fun c' hc' => (hexChar_digitValue (h.lower c' hc')).2.symm
  · rintro rfl
    refine ⟨fun c hc => ?_, value_hexChars n, fun h0 => ?_, fun h0 => ⟨?_, fun hhead => ?_⟩⟩
    · obtain ⟨d, hd, rfl⟩ := List.mem_map.mp hc
      exact hexChar_mem (digits_lt (by omega) n d hd)
    · rw [h0]
      rfl
    · simpa using digits_ne_nil 16 n
    · -- the first digit is the last one that `Nat.digits` gives, which is not zero
      have hne : Nat.digits 16 n ≠ [] := Nat.digits_ne_nil_iff_ne_zero.mpr h0
      have hlast := Nat.getLast_digit_ne_zero 16 h0
      have hlt : (Nat.digits 16 n).getLast hne < 16 :=
        Nat.digits_lt_base (by omega) (List.getLast_mem hne)
      rw [digits, if_neg h0, List.head?_map, List.head?_reverse,
        List.getLast?_eq_getLast_of_ne_nil hne,
        Option.map_some, Option.some.injEq] at hhead
      have hdigit := digitValue_hexChar hlt
      rw [hhead] at hdigit
      exact hlast hdigit.symm

/-- Skipping zeros leaves canonical digits. -/
lemma canonicalDigits_skipZeros {ds : Bytes} (hne : ds ≠ []) (hlower : ∀ c ∈ ds, c ∈ hexChars) :
    CanonicalDigits (skipZeros ds) (hexValue ds) := by
  induction ds using skipZeros.induct with
  | case1 c t ih => exact ih (by simp) fun d hd => hlower d (List.mem_cons_of_mem _ hd)
  | case2 t hstop =>
    obtain ⟨c, t, rfl⟩ := List.exists_cons_of_ne_nil hne
    rw [skipZeros]
    · by_cases hc : c = 48
      · subst hc
        have ht : t = [] := by
          cases t with
          | nil => rfl
          | cons c t => exact (hstop c t rfl).elim
        subst ht
        exact canonicalDigits_iff.mpr rfl
      · refine ⟨hlower, rfl, fun h0 => ?_, fun _ => ⟨hne, by simpa using hc⟩⟩
        have hall := (value_eq_zero_iff (by omega) _).mp h0
        have hdigit : digitValue c = 0 := hall _ (List.mem_map.mpr ⟨c, List.mem_cons_self, rfl⟩)
        exact (hc (eq_of_digitValue_eq_zero (hlower c List.mem_cons_self) hdigit)).elim
    · exact hstop

/-! ### Words in hex -/

lemma foldl_hexBytes (bs : Bytes) (n : ℕ) :
    ((bs.flatMap hexByte).map digitValue).foldl (fun n d => n * 16 + d) n =
      bs.foldl (fun n b => n * 256 + b.toNat) n := by
  induction bs generalizing n with
  | nil => rfl
  | cons b bs ih =>
    have hb : b.toNat < 256 := b.toNat_lt
    rw [List.flatMap_cons, List.map_append, List.foldl_append, ih, List.foldl_cons]
    congr 1
    show (n * 16 + digitValue (hexChar (b.toNat / 16))) * 16 +
      digitValue (hexChar (b.toNat % 16)) = n * 256 + b.toNat
    rw [digitValue_hexChar (by omega), digitValue_hexChar (by omega)]
    omega

/-- The digits of a word denote its value. -/
lemma hexValue_flatMap (bs : Bytes) : hexValue (bs.flatMap hexByte) = Radix.value bs :=
  foldl_hexBytes bs 0

lemma flatMap_hexByte_lower (bs : Bytes) : ∀ c ∈ bs.flatMap hexByte, c ∈ hexChars := by
  intro c hc
  obtain ⟨b, -, hb⟩ := List.mem_flatMap.mp hc
  have hlt : b.toNat < 256 := b.toNat_lt
  rcases List.mem_pair.mp hb with rfl | rfl
  · exact hexChar_mem (by omega)
  · exact hexChar_mem (by omega)

/-! ### Quantities -/

/-- A quantity is the text of one number only. -/
lemma Quantity.number_unique {text : Bytes} {n m : ℕ} (hn : Quantity text n)
    (hm : Quantity text m) : n = m := by
  obtain ⟨ds, rfl, hds⟩ := hn
  obtain ⟨es, he, hes⟩ := hm
  rw [← hds.denotes, ← hes.denotes, List.append_cancel_left he]

/-- A number has one quantity only. -/
lemma Quantity.text_unique {text text' : Bytes} {n : ℕ} (h : Quantity text n)
    (h' : Quantity text' n) : text = text' := by
  obtain ⟨ds, rfl, hds⟩ := h
  obtain ⟨es, rfl, hes⟩ := h'
  rw [canonicalDigits_iff.mp hds, canonicalDigits_iff.mp hes]

variable (rpc : Rpc) (id : Bytes)

/-- Whoever asks for the balance of an account is answered with the quantity of what the store
has; none of the buffers on the way is too short. -/
def BalanceAnswered : Prop :=
  ∀ param params addr s, decodeExact 20 param = some addr →
    ∃ text, (run server (handleGetBalance rpc id (param :: params)) s).1 =
        .result id (quoted text) ∧ text.length < 67 ∧
      Quantity text (Radix.value (run server (getBalance addr rpc.evm.uninit) s).1.bytes)

/-- A balance that has been set is the one that the store has. -/
def BalanceKept : Prop :=
  ∀ addr balance s, (run server (getBalance addr rpc.evm.uninit)
    (run server (setBalance addr balance) s).2).1 = balance

/-- A word is printed as its quantity. -/
def WordPrinted : Prop :=
  ∀ val, ∃ text, hexFromUint64 val 32 = some text ∧ text.length < 19 ∧ Quantity text val.toNat

/-- Quantities and numbers determine each other. -/
def Determined : Prop :=
  ∀ text text' n n', Quantity text n → Quantity text' n' → (text = text' ↔ n = n')

/-- A quantity has as many digits as its number needs, behind the prefix. -/
lemma length_quantity {ds : Bytes} {n k : ℕ} (h : CanonicalDigits ds n) (hk : 0 < k)
    (hn : n < 16 ^ k) : (ascii "0x" ++ ds).length ≤ k + 2 := by
  have hlen : (digits 16 n).length ≤ k := length_digits_le (by omega) hk hn
  rw [canonicalDigits_iff.mp h, List.length_append, List.length_map]
  show 2 + (digits 16 n).length ≤ k + 2
  omega

lemma balanceAnswered : BalanceAnswered rpc id := by
  intro param params addr s haddr
  obtain ⟨w, hw⟩ : ∃ w, (run server (getBalance addr rpc.evm.uninit) s).1 = w := ⟨_, rfl⟩
  have hcanonical :
      CanonicalDigits (skipZeros (w.bytes.flatMap hexByte)) (Radix.value w.bytes) := by
    rw [← hexValue_flatMap]
    refine canonicalDigits_skipZeros (fun hnil => ?_) (flatMap_hexByte_lower w.bytes)
    have hlen := length_hexText w.bytes
    rw [hexText, hnil, FixedBytes.length_bytes] at hlen
    cases hlen
  have hdrop : (bytes32ToHex w).drop 2 = w.bytes.flatMap hexByte := by
    rw [bytes32ToHex_eq]
    rfl
  have hrun : (run server (handleGetBalance rpc id (param :: params)) s).1 =
      .result id (quoted (ascii "0x" ++ skipZeros ((bytes32ToHex w).drop 2))) := by
    unfold handleGetBalance withAddress
    dsimp only
    rw [haddr, ← hw]
    rfl
  have hlt : Radix.value w.bytes < 16 ^ 64 := by
    have hvalue := Radix.value_lt w.bytes
    rw [FixedBytes.length_bytes] at hvalue
    exact hvalue.trans_eq (by norm_num)
  rw [hdrop] at hrun
  rw [hw]
  exact ⟨_, hrun, Nat.lt_succ_of_le (length_quantity hcanonical (by omega) hlt), _, rfl, hcanonical⟩

lemma balanceKept : BalanceKept rpc := by
  intro addr balance s
  have hset : (run server (setBalance addr balance) s).2 =
      put s (balanceCell addr) (bytes32ToHex balance) := rfl
  have hget : (run server (getBalance addr rpc.evm.uninit)
      (put s (balanceCell addr) (bytes32ToHex balance))).1 =
        wordOf rpc.evm.uninit
          (some (.ofCell (put s (balanceCell addr) (bytes32ToHex balance) (balanceCell addr)))) := rfl
  rw [hset, hget, put_same, wordOf_bytes32ToHex]

lemma wordPrinted : WordPrinted := by
  intro val
  have hlt : val.toNat < 16 ^ 16 := by simpa using val.toNat_lt
  have hsome : (hexFromUint64 val 32).isSome := hexFromUint64_isSome val (by omega)
  obtain ⟨text, htext⟩ := Option.isSome_iff_exists.mp hsome
  have hcanonical : CanonicalDigits (printedDigits val) val.toNat := canonicalDigits_iff.mpr rfl
  have hlen := length_quantity hcanonical (by omega) hlt
  have heq := hexFromUint64_eq htext
  rw [← heq] at hlen
  exact ⟨text, htext, Nat.lt_succ_of_le hlen, _, heq, hcanonical⟩

/-- **Quantities are canonical**, and the emitted text determines the number. -/
theorem quantities_canonical :
    BalanceAnswered rpc id ∧ BalanceKept rpc ∧ WordPrinted ∧ Determined := by
  refine ⟨balanceAnswered rpc id, balanceKept rpc, wordPrinted, fun text text' n n' h h' => ?_⟩
  constructor
  · rintro rfl
    exact h.number_unique h'
  · rintro rfl
    exact h.text_unique h'

end EvmDb.Quantities
