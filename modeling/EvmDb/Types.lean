import EvmDb.Lib.Radix

/-!
The data types of `include/evmdb/types.h`.

Byte arrays of a fixed size carry their length, so a short address or word cannot be built.
A `size_t` is a natural number; the places where its arithmetic can wrap reduce it.
-/

namespace EvmDb.Types

open EvmDb.Radix

abbrev Bytes := List UInt8

/-- The bytes of an ASCII text, as in a C string literal. -/
def ascii (s : String) : Bytes := s.toList.map fun c => UInt8.ofNat c.toNat

/-- A byte array of a fixed size. -/
@[ext] structure FixedBytes (n : ℕ) where
  bytes : Bytes
  length_bytes : bytes.length = n
  deriving DecidableEq

attribute [simp] FixedBytes.length_bytes

namespace FixedBytes

variable {n : ℕ}

def zero (n : ℕ) : FixedBytes n := ⟨List.replicate n 0, List.length_replicate⟩

instance : Inhabited (FixedBytes n) := ⟨zero n⟩

/-- The last `n` of the given bytes' first `n`, right aligned, with zeros in front. -/
def rightAlign (n : ℕ) (bs : Bytes) : FixedBytes n :=
  ⟨pad n (bs.take n), length_pad (List.length_take_le n bs)⟩

lemma rightAlign_of_le {bs : Bytes} (h : bs.length ≤ n) :
    (rightAlign n bs).bytes = pad n bs := by
  simp [rightAlign, List.take_of_length_le h]

lemma rightAlign_bytes (w : FixedBytes n) : rightAlign n w.bytes = w := by
  apply FixedBytes.ext
  rw [rightAlign_of_le w.length_bytes.le]
  simp [pad]

/-- Leading zeros may be left away. -/
lemma rightAlign_strip (w : FixedBytes n) : rightAlign n (strip w.bytes) = w := by
  apply FixedBytes.ext
  have hle := length_strip_le w.bytes
  rw [rightAlign_of_le (by simpa using hle)]
  exact pad_strip w.length_bytes

end FixedBytes

abbrev Address := FixedBytes 20
abbrev Bytes32 := FixedBytes 32
abbrev Hash := FixedBytes 32

/-- The last 20 bytes of a hash. -/
def addressOfHash (hash : Hash) : Address := ⟨hash.bytes.drop 12, by simp⟩

/-- `evmdb_tx_type_t`. -/
inductive TxType
  | legacy
  | eip2930
  | eip1559
  deriving DecidableEq

/-- `evmdb_tx_t`. The fields `to` and `from` are called `toAddr` and `fromAddr`. -/
structure Tx where
  type : TxType
  chainId : UInt64
  nonce : UInt64
  gasPrice : Bytes32
  maxFeePerGas : Bytes32
  maxPriorityFee : Bytes32
  gasLimit : UInt64
  toAddr : Address
  toIsNull : Bool
  value : Bytes32
  data : Bytes
  v : UInt64
  r : Bytes32
  s : Bytes32
  hash : Hash
  fromAddr : Address
  raw : Bytes
  deriving DecidableEq

/-- A transaction record after `memset` to zero. -/
def Tx.zero : Tx where
  type := .legacy
  chainId := 0
  nonce := 0
  gasPrice := .zero 32
  maxFeePerGas := .zero 32
  maxPriorityFee := .zero 32
  gasLimit := 0
  toAddr := .zero 20
  toIsNull := false
  value := .zero 32
  data := []
  v := 0
  r := .zero 32
  s := .zero 32
  hash := .zero 32
  fromAddr := .zero 20
  raw := []

/-- `evmdb_block_context_t`. -/
structure BlockContext where
  number : UInt64
  timestamp : UInt64
  coinbase : Address
  gasLimit : UInt64
  baseFee : UInt64
  chainId : UInt64
  deriving DecidableEq

end EvmDb.Types
