import EvmDb.Lib.Ripple
import EvmDb.Types
import Mathlib.Logic.Function.Basic

/-!
The 256-bit arithmetic of `src/state/accounts.c`.

The functions work on objects in memory, and the result may be written over an operand while
the operands are still being read. An object is named by its address, so that two arguments are
the same object when their addresses are equal.
-/

namespace EvmDb.Balances

open EvmDb.Types EvmDb.Radix EvmDb.Ripple

variable {P : Type}

/-- The `evmdb_bytes32_t` objects in memory. -/
abbrev Memory (P : Type) := P → Bytes32

/-- `p->bytes[i]`. -/
def readByte (m : Memory P) (p : P) (i : ℕ) : UInt8 := (m p).bytes.getD i 0

/-- `memcmp`: negative, zero or positive, as the first bytes that differ compare. -/
def memcmp : Bytes → Bytes → ℤ
  | a :: as, b :: bs => if a = b then memcmp as bs else (a.toNat : ℤ) - b.toNat
  | _, _ => 0

/-- `evmdb_balance_cmp`. -/
def balanceCmp (m : Memory P) (a b : P) : ℤ := memcmp (m a).bytes (m b).bytes

/-- The loop of `evmdb_balance_is_zero`. -/
def isZeroLoop : Bytes → ℤ
  | [] => 1
  | b :: bs => if b ≠ 0 then 0 else isZeroLoop bs

/-- `evmdb_balance_is_zero`. -/
def balanceIsZero (m : Memory P) (val : P) : ℤ := isZeroLoop (m val).bytes

variable [DecidableEq P]

/-- `p->bytes[i] = b`. -/
def writeByte (m : Memory P) (p : P) (i : ℕ) (b : UInt8) : Memory P :=
  Function.update m p ⟨(m p).bytes.set i b, by simp⟩

/-- One turn of the loop in `evmdb_balance_sub`: the next borrow, and the byte written. -/
def subByte (borrow : ℤ) (a b : UInt8) : ℤ × UInt8 :=
  let diff := (a.toNat : ℤ) - b.toNat - borrow
  if diff < 0 then (1, UInt8.ofInt (diff + 256)) else (0, UInt8.ofInt diff)

/-- One turn of the loop in `evmdb_balance_add`: the next carry, and the byte written. -/
def addByte (carry : ℕ) (a b : UInt8) : ℕ × UInt8 :=
  let sum := a.toNat + b.toNat + carry
  (sum >>> 8, UInt8.ofNat (sum &&& 0xff))

/-- The loop over the byte indices below `n`, from the last one down. -/
def byteLoop {σ : Type} (step : σ → UInt8 → UInt8 → σ × UInt8) (a b out : P) :
    ℕ → σ → Memory P → σ × Memory P
  | 0, s, m => (s, m)
  | i + 1, s, m =>
    let (s', byte) := step s (readByte m a i) (readByte m b i)
    byteLoop step a b out i s' (writeByte m out i byte)

/-- `evmdb_balance_sub`. -/
def balanceSub (m : Memory P) (a b out : P) : ℤ × Memory P :=
  let (borrow, m) := byteLoop subByte a b out 32 0 m
  (if borrow ≠ 0 then -1 else 0, m)

/-- `evmdb_balance_add`. -/
def balanceAdd (m : Memory P) (a b out : P) : ℤ × Memory P :=
  let (carry, m) := byteLoop addByte a b out 32 0 m
  (if carry ≠ 0 then -1 else 0, m)

/-- `evmdb_balance_from_uint64`. -/
def balanceFromUint64 (m : Memory P) (val : UInt64) (out : P) : Memory P :=
  (List.range 8).foldl (fun m i => writeByte m out (31 - i) (val.toNat >>> (i * 8)).toUInt8)
    (Function.update m out (.zero 32))

/-! ### The loop in place -/

lemma writeByte_self (m : Memory P) (p : P) (i : ℕ) (b : UInt8) :
    (writeByte m p i b p).bytes = (m p).bytes.set i b := by
  simp [writeByte]

lemma writeByte_of_ne (m : Memory P) {p q : P} (h : q ≠ p) (i : ℕ) (b : UInt8) :
    writeByte m p i b q = m q := by
  simp [writeByte, h]

/-- A write leaves the bytes in front of it as they are, in every object. -/
lemma take_writeByte (m : Memory P) (p q : P) (i : ℕ) (b : UInt8) :
    (writeByte m p i b q).bytes.take i = (m q).bytes.take i := by
  by_cases h : q = p
  · rw [h, writeByte_self, List.take_set_of_le (le_refl i)]
  · rw [writeByte_of_ne m h]

lemma drop_writeByte (m : Memory P) (p : P) {i : ℕ} (h : i < 32) (b : UInt8) :
    (writeByte m p i b p).bytes.drop i = b :: (m p).bytes.drop (i + 1) := by
  rw [writeByte_self, List.drop_set, if_neg (lt_irrefl i), Nat.sub_self,
    List.drop_eq_getElem_cons (by simpa using h), List.set_cons_zero]

omit [DecidableEq P] in
lemma take_succ_readByte (m : Memory P) (p : P) {i : ℕ} (h : i < 32) :
    (m p).bytes.take (i + 1) = (m p).bytes.take i ++ [readByte m p i] := by
  have hlt : i < (m p).bytes.length := by simpa using h
  rw [readByte, List.getD_eq_getElem?_getD, List.getElem?_eq_getElem hlt, Option.getD_some,
    List.take_append_getElem hlt]

variable {σ : Type} (step : σ → UInt8 → UInt8 → σ × UInt8)

/-- **The loop ripples through the operands as they were**, also when the result is written over
one of them. -/
theorem byteLoop_eq (a b out : P) {n : ℕ} (hn : n ≤ 32) (s : σ) (m : Memory P) :
    (byteLoop step a b out n s m).1 =
        (ripple step s ((m a).bytes.take n) ((m b).bytes.take n)).1 ∧
      ((byteLoop step a b out n s m).2 out).bytes =
        (ripple step s ((m a).bytes.take n) ((m b).bytes.take n)).2 ++ (m out).bytes.drop n ∧
      ∀ p, p ≠ out → (byteLoop step a b out n s m).2 p = m p := by
  induction n generalizing s m with
  | zero => simp [byteLoop]
  | succ i ih =>
    have hlen : ((m a).bytes.take i).length = ((m b).bytes.take i).length := by simp
    obtain ⟨hstate, hbytes, hframe⟩ := ih (by omega) (step s (readByte m a i) (readByte m b i)).1
      (writeByte m out i (step s (readByte m a i) (readByte m b i)).2)
    rw [take_writeByte, take_writeByte] at hstate hbytes
    rw [byteLoop, take_succ_readByte m a (by omega), take_succ_readByte m b (by omega),
      ripple_snoc step s hlen]
    refine ⟨hstate, ?_, ?_⟩
    · rw [hbytes, drop_writeByte m out (by omega), List.append_assoc, List.singleton_append]
    · intro p hp
      rw [hframe p hp, writeByte_of_ne m hp]

/-- All 32 bytes. -/
lemma byteLoop_32 (a b out : P) (s : σ) (m : Memory P) :
    (byteLoop step a b out 32 s m).1 = (ripple step s (m a).bytes (m b).bytes).1 ∧
      ((byteLoop step a b out 32 s m).2 out).bytes =
        (ripple step s (m a).bytes (m b).bytes).2 ∧
      ∀ p, p ≠ out → (byteLoop step a b out 32 s m).2 p = m p := by
  have hrun := byteLoop_eq step a b out (le_refl 32) s m
  rwa [List.take_of_length_le (by simp), List.take_of_length_le (by simp),
    List.drop_of_length_le (by simp), List.append_nil] at hrun

/-! ### The digits -/

lemma toNat_ofInt {n : ℤ} (h0 : 0 ≤ n) (h1 : n < 256) : ((UInt8.ofInt n).toNat : ℤ) = n := by
  rw [UInt8.ofInt, UInt8.toNat_ofNat']
  omega

/-- A borrow counts against the difference. -/
lemma subByte_law :
    DigitLaw subByte (fun borrow => -borrow) (-1) (fun borrow => borrow = 0 ∨ borrow = 1) := by
  refine ⟨fun {borrow} _ a b => ?_, fun {borrow} h a b => ?_⟩
  · unfold subByte
    dsimp only
    split_ifs
    · exact Or.inr rfl
    · exact Or.inl rfl
  · have ha : a.toNat < 256 := a.toNat_lt
    have hb : b.toNat < 256 := b.toNat_lt
    unfold subByte
    dsimp only
    split_ifs
    all_goals
      rw [toNat_ofInt (by omega) (by omega)]
      omega

/-- A carry counts towards the sum. -/
lemma addByte_law : DigitLaw addByte (fun carry => carry) 1 (fun carry => carry ≤ 1) := by
  have hsum : ∀ carry a b, addByte carry a b =
      ((a.toNat + b.toNat + carry) / 256, UInt8.ofNat ((a.toNat + b.toNat + carry) % 256)) := by
    intro carry a b
    unfold addByte
    dsimp only
    rw [Nat.shiftRight_eq_div_pow, show 0xff = 2 ^ 8 - 1 from rfl, Nat.and_two_pow_sub_one_eq_mod]
  refine ⟨fun {carry} h a b => ?_, fun {carry} h a b => ?_⟩
  all_goals
    have ha : a.toNat < 256 := a.toNat_lt
    have hb : b.toNat < 256 := b.toNat_lt
    rw [hsum]
  · show (a.toNat + b.toNat + carry) / 256 ≤ 1
    omega
  · dsimp only
    rw [UInt8.toNat_ofNat']
    omega

/-! ### Values -/

lemma value_lt_pow (w : Bytes32) : value w.bytes < 2 ^ 256 := by
  have hlt := value_lt w.bytes
  rw [FixedBytes.length_bytes] at hlt
  calc value w.bytes < 256 ^ 32 := hlt
    _ = 2 ^ 256 := by norm_num

/-- The difference and the borrow left over. -/
lemma value_balanceSub (m : Memory P) (a b out : P) :
    ∃ borrow : ℤ, (borrow = 0 ∨ borrow = 1) ∧ (balanceSub m a b out).1 = -borrow ∧
      (value ((balanceSub m a b out).2 out).bytes : ℤ) =
        value (m a).bytes - value (m b).bytes + 2 ^ 256 * borrow := by
  obtain ⟨hstate, hbytes, -⟩ := byteLoop_32 subByte a b out 0 m
  have hlen : (m a).bytes.length = (m b).bytes.length := by simp
  have hvalue := subByte_law.value_ripple (Or.inl rfl) hlen
  have hgood := subByte_law.good_ripple (Or.inl rfl) (m a).bytes (m b).bytes
  rw [← hbytes, ← hstate, FixedBytes.length_bytes] at hvalue
  rw [← hstate] at hgood
  refine ⟨(byteLoop subByte a b out 32 0 m).1, hgood, ?_, ?_⟩
  · unfold balanceSub
    rcases hgood with h | h <;> simp [h]
  · unfold balanceSub
    linarith

/-- The sum and the carry left over. -/
lemma value_balanceAdd (m : Memory P) (a b out : P) :
    ∃ carry : ℕ, carry ≤ 1 ∧ (balanceAdd m a b out).1 = -(carry : ℤ) ∧
      (value ((balanceAdd m a b out).2 out).bytes : ℤ) =
        value (m a).bytes + value (m b).bytes - 2 ^ 256 * carry := by
  obtain ⟨hstate, hbytes, -⟩ := byteLoop_32 addByte a b out 0 m
  have hlen : (m a).bytes.length = (m b).bytes.length := by simp
  have hvalue := addByte_law.value_ripple (Nat.zero_le 1) hlen
  have hgood := addByte_law.good_ripple (Nat.zero_le 1) (m a).bytes (m b).bytes
  rw [← hbytes, ← hstate, FixedBytes.length_bytes, Nat.cast_zero] at hvalue
  rw [← hstate] at hgood
  refine ⟨(byteLoop addByte a b out 32 0 m).1, hgood, ?_, ?_⟩
  · unfold balanceAdd
    rcases Nat.le_one_iff_eq_zero_or_eq_one.mp hgood with h | h <;> simp [h]
  · unfold balanceAdd
    linarith

/-- The order of the bytes is the order of the values. -/
lemma memcmp_neg_iff {as bs : Bytes} (h : as.length = bs.length) :
    memcmp as bs < 0 ↔ value as < value bs := by
  induction as generalizing bs with
  | nil =>
    have hbs : bs = [] := List.length_eq_zero_iff.mp h.symm
    subst hbs
    simp [memcmp]
  | cons a as ih =>
    obtain ⟨b, bs, rfl⟩ := List.exists_cons_of_length_eq_add_one h.symm
    have hlen : as.length = bs.length := by simpa using h
    rw [memcmp, value_cons, value_cons, hlen]
    split_ifs with hab
    · rw [hab, ih hlen]
      omega
    · -- the first bytes decide, whatever follows them
      have hne : a.toNat ≠ b.toNat := fun heq => hab (UInt8.toNat_inj.mp heq)
      have has := value_lt as
      have hbs := value_lt bs
      rw [hlen] at has
      rcases Nat.lt_or_gt_of_ne hne with hlt | hgt
      · have := Nat.mul_le_mul_right (256 ^ bs.length) (show a.toNat + 1 ≤ b.toNat from hlt)
        rw [Nat.add_mul] at this
        omega
      · have := Nat.mul_le_mul_right (256 ^ bs.length) (show b.toNat + 1 ≤ a.toNat from hgt)
        rw [Nat.add_mul] at this
        omega

lemma isZeroLoop_eq (bs : Bytes) : isZeroLoop bs = if value bs = 0 then 1 else 0 := by
  induction bs with
  | nil => rfl
  | cons b bs ih =>
    rw [isZeroLoop, value_cons]
    by_cases hb : b = 0
    · rw [if_neg (by simpa using hb), ih, hb]
      simp
    · have hpos : 0 < b.toNat := Nat.pos_of_ne_zero fun h0 => hb (UInt8.toNat_inj.mp h0)
      have hpow : 0 < b.toNat * 256 ^ bs.length := Nat.mul_pos hpos (by positivity)
      rw [if_pos hb, if_neg (by omega)]

/-- Bytes written from the end of a cleared word. -/
lemma foldl_writeByte (f : ℕ → UInt8) (m : Memory P) (out : P) {k : ℕ} (hk : k ≤ 32) :
    ((List.range k).foldl (fun m i => writeByte m out (31 - i) (f i))
        (Function.update m out (.zero 32)) out).bytes =
      List.replicate (32 - k) 0 ++ ((List.range k).map f).reverse := by
  induction k with
  | zero => simp [FixedBytes.zero]
  | succ k ih =>
    have hcells : List.replicate (32 - k) (0 : UInt8) = List.replicate (31 - k) 0 ++ [0] := by
      rw [← List.replicate_succ', show 31 - k + 1 = 32 - k by omega]
    rw [List.range_succ, List.foldl_append, List.foldl_cons, List.foldl_nil, writeByte_self,
      ih (by omega), List.map_append, List.reverse_append, hcells, List.append_assoc,
      List.set_append_right _ _ (by simp)]
    simp

lemma foldl_writeByte_of_ne (f : ℕ → UInt8) {p out : P} (h : p ≠ out) (is : List ℕ) (m : Memory P) :
    is.foldl (fun m i => writeByte m out (31 - i) (f i)) m p = m p := by
  induction is generalizing m with
  | nil => rfl
  | cons i is ih => rw [List.foldl_cons, ih, writeByte_of_ne m h]

/-- The bytes of a number, the last ones first, denote it up to what they hold. -/
lemma value_bytes_mod (n k : ℕ) :
    value ((List.range k).map fun i => (n >>> (i * 8)).toUInt8).reverse = n % 256 ^ k := by
  induction k with
  | zero => simp [Nat.mod_one]
  | succ k ih =>
    have hbyte : (n >>> (k * 8)).toUInt8.toNat = n / 256 ^ k % 256 := by
      rw [Nat.toUInt8_eq, UInt8.toNat_ofNat', Nat.shiftRight_eq_div_pow, mul_comm, pow_mul,
        show 2 ^ 8 = 256 from rfl]
    rw [List.range_succ, List.map_append, List.reverse_append, List.map_singleton,
      List.reverse_singleton, List.singleton_append, value_cons, ih, hbyte, Nat.mod_pow_succ]
    simp
    ring

lemma value_balanceFromUint64 (m : Memory P) (val : UInt64) (out : P) :
    value (balanceFromUint64 m val out out).bytes = val.toNat := by
  have hval : val.toNat < 256 ^ 8 := by simpa using val.toNat_lt
  unfold balanceFromUint64
  rw [foldl_writeByte _ m out (by omega), value_replicate_zero, value_bytes_mod,
    Nat.mod_eq_of_lt hval]

/-! ### Exactness -/

/-- The number an object holds. -/
def held (m : Memory P) (p : P) : ℕ := value (m p).bytes

/-- The arithmetic on the objects `a` and `b`, with the result in `out`, is that of the numbers
modulo `2 ^ 256`, and the result codes tell when the number itself does not fit. -/
structure Exact (m : Memory P) (a b out : P) : Prop where
  add : held (balanceAdd m a b out).2 out = (held m a + held m b) % 2 ^ 256
  add_fails : (balanceAdd m a b out).1 =
    if 2 ^ 256 ≤ held m a + held m b then -1 else 0
  add_frame : ∀ p, p ≠ out → (balanceAdd m a b out).2 p = m p
  sub : (held (balanceSub m a b out).2 out : ℤ) = ((held m a : ℤ) - held m b) % 2 ^ 256
  sub_fails : (balanceSub m a b out).1 = if held m a < held m b then -1 else 0
  sub_frame : ∀ p, p ≠ out → (balanceSub m a b out).2 p = m p
  cmp : balanceCmp m a b < 0 ↔ held m a < held m b
  /-- `b` is subtracted from the sum, wherever the sum and `b` then are. -/
  add_sub : ∀ (m' : Memory P) (sum b' out' : P), m' sum = (balanceAdd m a b out).2 out →
    m' b' = m b → (balanceSub m' sum b' out').2 out' = m a ∧
      (balanceSub m' sum b' out').1 = (balanceAdd m a b out).1

/-- A word is written as the number it is, and the zero test is that of the number. -/
structure Denotes (m : Memory P) (val : UInt64) (out : P) : Prop where
  from_uint64 : held (balanceFromUint64 m val out) out = val.toNat
  frame : ∀ p, p ≠ out → balanceFromUint64 m val out p = m p
  is_zero : balanceIsZero m out = if held m out = 0 then 1 else 0

omit [DecidableEq P] in
lemma held_lt (m : Memory P) (p : P) : held m p < 2 ^ 256 := value_lt_pow (m p)

/-- What an addition and a subtraction come to. -/
lemma exact_add (m : Memory P) (a b out : P) :
    held (balanceAdd m a b out).2 out = (held m a + held m b) % 2 ^ 256 ∧
      (balanceAdd m a b out).1 = if 2 ^ 256 ≤ held m a + held m b then -1 else 0 := by
  obtain ⟨carry, hle, hrc, hvalue⟩ := value_balanceAdd m a b out
  have hlt := held_lt (balanceAdd m a b out).2 out
  unfold held at hlt ⊢
  rw [hrc]
  split_ifs <;> omega

lemma exact_sub (m : Memory P) (a b out : P) :
    (held (balanceSub m a b out).2 out : ℤ) = ((held m a : ℤ) - held m b) % 2 ^ 256 ∧
      (balanceSub m a b out).1 = if held m a < held m b then -1 else 0 := by
  obtain ⟨borrow, hcases, hrc, hvalue⟩ := value_balanceSub m a b out
  have hlt := held_lt (balanceSub m a b out).2 out
  have ha := held_lt m a
  unfold held at hlt ha ⊢
  rw [hrc]
  split_ifs <;> omega

/-- **256-bit balance arithmetic is exact**, also in place. -/
theorem balance_arithmetic_exact (m : Memory P) (a b out : P) (val : UInt64) :
    Exact m a b out ∧ Denotes m val out := by
  have hadd := exact_add m a b out
  have hsub := exact_sub m a b out
  refine ⟨⟨hadd.1, hadd.2, (byteLoop_32 addByte a b out 0 m).2.2, hsub.1, hsub.2,
    (byteLoop_32 subByte a b out 0 m).2.2, memcmp_neg_iff (by simp), ?_⟩, ?_⟩
  · intro m' sum b' out' hm hb
    have hback := exact_sub m' sum b' out'
    have ha := held_lt m a
    have hbl := held_lt m b
    have hheld : held m' sum = held (balanceAdd m a b out).2 out := by rw [held, hm, held]
    have hheld' : held m' b' = held m b := by rw [held, hb, held]
    rw [hheld, hheld', hadd.1] at hback
    constructor
    · apply FixedBytes.ext
      refine value_inj (by simp) ?_
      have hvalue := hback.1
      unfold held at hvalue ha hbl
      omega
    · rw [hback.2, hadd.2]
      split_ifs <;> omega
  · refine ⟨value_balanceFromUint64 m val out, fun p hp => ?_, isZeroLoop_eq _⟩
    unfold balanceFromUint64
    rw [foldl_writeByte_of_ne _ hp, Function.update_of_ne hp]

end EvmDb.Balances
