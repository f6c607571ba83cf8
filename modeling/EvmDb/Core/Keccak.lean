import EvmDb.Types

/-!
Keccak-256, as `src/core/keccak.c` computes it.
-/

namespace EvmDb.Keccak

open EvmDb.Types

/-- The 1600-bit state: 25 lanes of 64 bits. -/
abbrev State := Vector UInt64 25

def rotl64 (value shift : UInt64) : UInt64 :=
  if shift = 0 then value else (value <<< shift) ||| (value >>> (64 - shift))

def load64Le (data : Bytes) : UInt64 :=
  (List.range 8).foldl
    (fun value i => value ||| ((data.getD i 0).toUInt64 <<< UInt64.ofNat (8 * i))) 0

def store64Le (value : UInt64) : Bytes :=
  (List.range 8).map fun i => ((value >>> UInt64.ofNat (8 * i)) &&& 0xff).toUInt8

def roundConstants : List UInt64 :=
  [0x0000000000000001, 0x0000000000008082, 0x800000000000808a, 0x8000000080008000,
   0x000000000000808b, 0x0000000080000001, 0x8000000080008081, 0x8000000000008009,
   0x000000000000008a, 0x0000000000000088, 0x0000000080008009, 0x000000008000000a,
   0x000000008000808b, 0x800000000000008b, 0x8000000000008089, 0x8000000000008003,
   0x8000000000008002, 0x8000000000000080, 0x000000000000800a, 0x800000008000000a,
   0x8000000080008081, 0x8000000000008080, 0x0000000080000001, 0x8000000080008008]

/-- The rotation offsets, indexed `rho[x][y]`. -/
def rho : Vector (Vector UInt64 5) 5 :=
  #v[#v[0, 36, 3, 41, 18],
     #v[1, 44, 10, 45, 2],
     #v[62, 6, 43, 15, 61],
     #v[28, 55, 25, 21, 56],
     #v[27, 20, 39, 8, 14]]

/-- The index of the lane in column `x` and row `y`; indices are taken modulo five. -/
def lane (x y : Fin 5) : Fin 25 := ⟨x.val + 5 * y.val, by omega⟩

/-- A loop over all rows and in each over all columns. -/
def overLanes {α : Type} (f : α → Fin 5 → Fin 5 → α) (init : α) : α :=
  (List.finRange 5).foldl (fun a y => (List.finRange 5).foldl (fun a x => f a x y) a) init

/-- One pass of the round loop in `keccakf`. -/
def keccakRound (state : State) (roundConstant : UInt64) : State :=
  let c : Vector UInt64 5 := Vector.ofFn fun x =>
    state.get (lane x 0) ^^^ state.get (lane x 1) ^^^ state.get (lane x 2)
      ^^^ state.get (lane x 3) ^^^ state.get (lane x 4)
  let d : Vector UInt64 5 := Vector.ofFn fun x => c.get (x + 4) ^^^ rotl64 (c.get (x + 1)) 1
  let state := overLanes (fun s x y => s.set (lane x y) (s.get (lane x y) ^^^ d.get x)) state
  let b : State := overLanes
    (fun b x y => b.set (lane y (2 * x + 3 * y))
      (rotl64 (state.get (lane x y)) ((rho.get x).get y)))
    (Vector.replicate 25 0)
  let state := overLanes
    (fun s x y => s.set (lane x y)
      (b.get (lane x y) ^^^ (~~~b.get (lane (x + 1) y) &&& b.get (lane (x + 2) y))))
    state
  state.set (lane 0 0) (state.get (lane 0 0) ^^^ roundConstant)

def keccakf (state : State) : State := roundConstants.foldl keccakRound state

/-- The number of bytes absorbed between two permutations. -/
def rate : ℕ := 136

def xorBlock (state : State) (data : Bytes) : State :=
  Vector.ofFn fun i : Fin 25 =>
    if i.val < rate / 8 then state.get i ^^^ load64Le (data.drop (8 * i.val)) else state.get i

/-- `n` rounds of the loop that absorbs full blocks, and what is left of the data. -/
def absorbBlocks : ℕ → State → Bytes → State × Bytes
  | 0, state, data => (state, data)
  | n + 1, state, data => absorbBlocks n (keccakf (xorBlock state data)) (data.drop rate)

/-- The last block: the data, a byte `0x01`, zeros, and the top bit of the last byte set. -/
def finalBlock (data : Bytes) : Bytes :=
  ((data ++ List.replicate (rate - data.length) 0).set data.length 0x01).modify (rate - 1)
    (· ||| 0x80)

/-- `evmdb_keccak256`. -/
def keccak256 (data : Bytes) : Hash :=
  let (state, data) := absorbBlocks (data.length / rate) (Vector.replicate 25 0) data
  let state := keccakf (xorBlock state (finalBlock data))
  ⟨store64Le (state.get 0) ++ store64Le (state.get 1) ++ store64Le (state.get 2)
    ++ store64Le (state.get 3), rfl⟩

end EvmDb.Keccak
