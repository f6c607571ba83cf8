import Mathlib.Data.Fin.Basic
import Mathlib.Data.List.OfFn
import Mathlib.Data.Nat.Bitwise

/-!
The permutation Keccak-f[1600] and the sponge over it, as they are specified: on bits.

A state is an array of bits `A x y z`, and the step mappings are functions of such arrays. The
offsets of `rho` and the constants of `iota` are computed, not tabulated.
-/

namespace EvmDb.KeccakF

/-! ### The step mappings -/

/-- The state as an array: 25 lanes of 64 bits. -/
abbrev Lanes := Fin 5 → Fin 5 → Fin 64 → Bool

scoped instance neZero_five : NeZero 5 := ⟨by decide⟩

/-- The parity of a column. -/
def column (A : Lanes) (x : Fin 5) (z : Fin 64) : Bool :=
  A x 0 z ^^ A x 1 z ^^ A x 2 z ^^ A x 3 z ^^ A x 4 z

def theta (A : Lanes) : Lanes :=
  fun x y z => A x y z ^^ (column A (x - 1) z ^^ column A (x + 1) (z - 1))

/-- The walk through the lanes besides the first. -/
def walk : ℕ → Fin 5 × Fin 5
  | 0 => (1, 0)
  | t + 1 => ((walk t).2, 2 * (walk t).1 + 3 * (walk t).2)

/-- The offset of a lane: the triangular number of its place in the walk. -/
def offset (x y : Fin 5) : ℕ :=
  (((List.range 24).find? fun t => walk t = (x, y)).map fun t => (t + 1) * (t + 2) / 2).getD 0

def rho (A : Lanes) : Lanes := fun x y z => A x y (z - Fin.ofNat 64 (offset x y))

def pi (A : Lanes) : Lanes := fun x y z => A (x + 3 * y) x z

def chi (A : Lanes) : Lanes := fun x y z => A x y z ^^ (!A (x + 1) y z && A (x + 2) y z)

/-- The register of degree 8, as a polynomial: the powers of `X` modulo
`X ^ 8 + X ^ 6 + X ^ 5 + X ^ 4 + 1`. -/
def register : ℕ → ℕ
  | 0 => 1
  | t + 1 => if (2 * register t).testBit 8 then 2 * register t ^^^ 0x171 else 2 * register t

/-- The constant of a round: its bits `2 ^ j - 1` come from the register. -/
def roundBit (round : ℕ) (z : Fin 64) : Bool :=
  (List.range 7).any fun j => z.val = 2 ^ j - 1 && (register (j + 7 * round)).testBit 0

def iota (round : ℕ) (A : Lanes) : Lanes :=
  fun x y z => if x = 0 ∧ y = 0 then A x y z ^^ roundBit round z else A x y z

def round (A : Lanes) (i : ℕ) : Lanes := iota i (chi (pi (rho (theta A))))

/-! ### The sponge -/

/-- A string of bits as an array: the lanes of the first row, of the second, and so on. -/
def toLanes (S : Fin 1600 → Bool) : Lanes :=
  fun x y z => S ⟨64 * (5 * y.val + x.val) + z.val, by omega⟩

def ofLanes (A : Lanes) : Fin 1600 → Bool :=
  fun i => A ⟨i.val / 64 % 5, by omega⟩ ⟨i.val / 320, by omega⟩ ⟨i.val % 64, by omega⟩

/-- Keccak-f[1600]. -/
def keccakF (S : Fin 1600 → Bool) : Fin 1600 → Bool :=
  ofLanes ((List.range 24).foldl round (toLanes S))

/-- The padding `10*1` of a message to a multiple of the rate. -/
def pad (rate len : ℕ) : List Bool :=
  true :: (List.replicate ((-(len : ℤ) - 2) % rate).toNat false ++ [true])

/-- A block is added to the state, as if zeros followed it. -/
def addBlock {b : ℕ} (S : Fin b → Bool) (block : List Bool) : Fin b → Bool :=
  fun i => S i ^^ block.getD i false

/-- The first `n` blocks of a string are absorbed. -/
def absorb {b : ℕ} (f : (Fin b → Bool) → Fin b → Bool) (rate : ℕ) :
    ℕ → (Fin b → Bool) → List Bool → Fin b → Bool
  | 0, S, _ => S
  | n + 1, S, P => absorb f rate n (f (addBlock S (P.take rate))) (P.drop rate)

/-- The sponge with the padding `10*1`, for an output that is no longer than the rate. -/
def sponge {b : ℕ} (f : (Fin b → Bool) → Fin b → Bool) (rate len : ℕ) (M : List Bool) :
    List Bool :=
  let P := M ++ pad rate M.length
  (List.ofFn (absorb f rate (P.length / rate) (fun _ => false) P)).take len

/-- Keccak-256: the capacity is 512 bits, the output has 256. -/
def keccak256 (M : List Bool) : List Bool := sponge keccakF 1088 256 M

/-- The bits of some bytes, the lowest bit of each first. -/
def bits (data : List UInt8) : List Bool :=
  data.flatMap fun b => (List.range 8).map fun i => b.toBitVec.getLsbD i

/-! ### Bits of bytes -/

@[simp] lemma length_bits (data : List UInt8) : (bits data).length = 8 * data.length := by
  unfold bits
  induction data with
  | nil => rfl
  | cons b data ih =>
    rw [List.flatMap_cons, List.length_append, ih, List.length_cons, List.length_map,
      List.length_range]
    omega

lemma bits_append (as bs : List UInt8) : bits (as ++ bs) = bits as ++ bits bs :=
  List.flatMap_append

lemma getD_bits (data : List UInt8) (i : ℕ) :
    (bits data).getD i false = (data.getD (i / 8) 0).toBitVec.getLsbD (i % 8) := by
  induction data generalizing i with
  | nil => simp [bits]
  | cons b data ih =>
    have hcons : bits (b :: data) =
        (List.range 8).map (fun i => b.toBitVec.getLsbD i) ++ bits data := rfl
    have hlen : ((List.range 8).map fun i => b.toBitVec.getLsbD i).length = 8 := by simp
    rw [hcons]
    by_cases hi : i < 8
    · rw [List.getD_append _ _ _ _ (by omega), Nat.div_eq_of_lt hi, Nat.mod_eq_of_lt hi]
      simp [hi]
    · obtain ⟨k, rfl⟩ := Nat.exists_eq_add_of_le (Nat.not_lt.mp hi)
      rw [List.getD_append_right _ _ _ _ (by omega), hlen, Nat.add_sub_cancel_left, ih,
        Nat.add_mod_left, Nat.add_div_left k (by omega), List.getD_cons_succ]

/-- The bits of the first bytes and of the others. -/
lemma bits_split (data : List UInt8) (n : ℕ) :
    bits (data.take n) = (bits data).take (8 * n) ∧
      bits (data.drop n) = (bits data).drop (8 * n) := by
  have hsplit : bits data = bits (data.take n) ++ bits (data.drop n) := by
    rw [← bits_append, List.take_append_drop]
  by_cases hn : n ≤ data.length
  · have hlen : (bits (data.take n)).length = 8 * n := by
      rw [length_bits, List.length_take, Nat.min_eq_left hn]
    rw [hsplit]
    exact ⟨(List.take_left' hlen).symm, (List.drop_left' hlen).symm⟩
  · have hlen := length_bits data
    rw [List.take_of_length_le (by omega), List.drop_of_length_le (by omega),
      List.take_of_length_le (by omega), List.drop_of_length_le (by omega)]
    exact ⟨rfl, rfl⟩

lemma bits_replicate_zero (n : ℕ) : bits (List.replicate n 0) = List.replicate (8 * n) false := by
  induction n with
  | zero => rfl
  | succ n ih =>
    have hzero : bits [0] = List.replicate 8 false := by decide
    rw [List.replicate_succ, ← List.singleton_append, bits_append, ih, hzero,
      List.replicate_append_replicate, Nat.mul_succ, Nat.add_comm]

/-! ### Arrays and blocks -/

lemma toLanes_ofLanes (A : Lanes) : toLanes (ofLanes A) = A := by
  funext x y z
  have hx : (64 * (5 * y.val + x.val) + z.val) / 64 % 5 = x.val := by omega
  have hy : (64 * (5 * y.val + x.val) + z.val) / 320 = y.val := by omega
  have hz : (64 * (5 * y.val + x.val) + z.val) % 64 = z.val := by omega
  simp only [toLanes, ofLanes, hx, hy, hz]

/-- The last of some blocks. -/
lemma absorb_succ {b : ℕ} (f : (Fin b → Bool) → Fin b → Bool) (r n : ℕ) (S : Fin b → Bool)
    (P : List Bool) :
    absorb f r (n + 1) S P = f (addBlock (absorb f r n S P) ((P.drop (r * n)).take r)) := by
  induction n generalizing S P with
  | zero => rw [absorb, absorb, absorb, Nat.mul_zero, List.drop_zero]
  | succ n ih => rw [absorb, ih, absorb, List.drop_drop, Nat.mul_succ, Nat.add_comm r]

end EvmDb.KeccakF
