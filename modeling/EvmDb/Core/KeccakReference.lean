import EvmDb.Core.Keccak
import EvmDb.Lib.KeccakF

/-!
`src/core/keccak.c` computes Keccak-256.

The code works on lanes, and in place. Its state is seen as bits, first as an array for the rounds
and then as a string for the sponge.
-/

namespace EvmDb.KeccakReference

open EvmDb.Types EvmDb.Keccak EvmDb.KeccakF

/-! ### Loops that write one lane after another -/

/-- A write whose index is in range by its type. -/
def write {α : Type} {n : ℕ} (v : Vector α n) (i : Fin n) (a : α) : Vector α n := v.set i a i.isLt

@[simp] lemma get_write_self {α : Type} {n : ℕ} (v : Vector α n) (i : Fin n) (a : α) :
    (write v i a).get i = a :=
  Vector.getElem_set_self i.isLt

lemma get_write_ne {α : Type} {n : ℕ} (v : Vector α n) {i j : Fin n} (h : i ≠ j) (a : α) :
    (write v i a).get j = v.get j :=
  Vector.getElem_set_ne i.isLt j.isLt (Fin.val_ne_of_ne h)

/-- A loop of writes, none to the same place: each is computed from the old value there, and the
other values stay. -/
lemma get_foldl_write {ι α : Type} {n : ℕ} (idx : ι → Fin n) (g : ι → α → α) (l : List ι)
    (hl : (l.map idx).Nodup) (v : Vector α n) :
    (∀ i ∈ l, (l.foldl (fun s i => write s (idx i) (g i (s.get (idx i)))) v).get (idx i) =
        g i (v.get (idx i))) ∧
      ∀ j ∉ l.map idx, (l.foldl (fun s i => write s (idx i) (g i (s.get (idx i)))) v).get j =
        v.get j := by
  induction l generalizing v with
  | nil => exact ⟨fun i hi => absurd hi List.not_mem_nil, fun j _ => rfl⟩
  | cons k l ih =>
    rw [List.map_cons, List.nodup_cons] at hl
    obtain ⟨hwritten, hkept⟩ := ih hl.2 (write v (idx k) (g k (v.get (idx k))))
    rw [List.foldl_cons]
    refine ⟨fun i hi => ?_, fun j hj => ?_⟩
    · rcases List.mem_cons.mp hi with rfl | hi
      · rw [hkept _ hl.1, get_write_self]
      · have hne : idx k ≠ idx i := fun h => hl.1 (h ▸ List.mem_map_of_mem hi)
        rw [hwritten i hi, get_write_ne _ hne]
    · rw [List.map_cons, List.mem_cons, not_or] at hj
      rw [hkept j hj.2, get_write_ne _ (Ne.symm hj.1)]

/-- The lanes in the order of the loops. -/
def coordinates : List (Fin 5 × Fin 5) :=
  (List.finRange 5).flatMap fun y => (List.finRange 5).map fun x => (x, y)

lemma mem_coordinates : ∀ x y : Fin 5, (x, y) ∈ coordinates := by decide

lemma overLanes_eq {α : Type} (f : α → Fin 5 → Fin 5 → α) (a : α) :
    overLanes f a = coordinates.foldl (fun a p => f a p.1 p.2) a := rfl

/-- A loop of a round over all lanes. -/
def overwrite {α : Type} (idx : Fin 5 → Fin 5 → Fin 25) (g : Fin 5 → Fin 5 → α → α)
    (v : Vector α 25) : Vector α 25 :=
  overLanes (fun s x y => write s (idx x y) (g x y (s.get (idx x y)))) v

lemma get_overwrite {α : Type} {idx : Fin 5 → Fin 5 → Fin 25}
    (hidx : (coordinates.map fun p => idx p.1 p.2).Nodup) (g : Fin 5 → Fin 5 → α → α)
    (v : Vector α 25) (x y : Fin 5) :
    (overwrite idx g v).get (idx x y) = g x y (v.get (idx x y)) := by
  have hwritten := (get_foldl_write (fun p => idx p.1 p.2) (fun p => g p.1 p.2) coordinates hidx
    v).1 (x, y) (mem_coordinates x y)
  dsimp only at hwritten
  rw [overwrite, overLanes_eq]
  exact hwritten

/-! ### A round -/

/-- The state as an array of bits. -/
def lanes (s : State) : Lanes := fun x y z => (s.get (lane x y)).toBitVec.getLsbD z

lemma getLsbD_rotl64 (v k : UInt64) (hk : k.toNat < 64) (z : Fin 64) :
    (rotl64 v k).toBitVec.getLsbD z = v.toBitVec.getLsbD (z - Fin.ofNat 64 k.toNat : Fin 64) := by
  rw [rotl64]
  split_ifs with h0
  · have hz : (z - Fin.ofNat 64 k.toNat : Fin 64) = z := by
      apply Fin.ext
      rw [Fin.val_sub]
      simp [h0]
    rw [hz]
  · have hpos : k.toNat ≠ 0 := fun h => h0 (UInt64.toNat_inj.mp h)
    have hleft : (k.toBitVec % 64).toNat = k.toNat := by simp; omega
    have hright : ((64 - k).toBitVec % 64).toNat = 64 - k.toNat := by
      have : (64 - k).toNat = 64 - k.toNat := UInt64.toNat_sub_of_le _ _ (by
        rw [UInt64.le_iff_toNat_le]; simp; omega)
      simp
      omega
    have hz : (z - Fin.ofNat 64 k.toNat : Fin 64).val = (64 - k.toNat + z) % 64 := by
      rw [Fin.val_sub]
      simp
      omega
    rw [UInt64.toBitVec_or, UInt64.toBitVec_shiftLeft, UInt64.toBitVec_shiftRight,
      BitVec.getLsbD_or, BitVec.getLsbD_shiftLeft', BitVec.ushiftRight_eq',
      BitVec.getLsbD_ushiftRight, hleft, hright, hz]
    by_cases hlt : z.val < k.toNat
    · rw [Nat.mod_eq_of_lt (by omega)]
      simp [hlt]
    · have hmod : (64 - k.toNat + z.val) % 64 = z.val - k.toNat := by omega
      rw [hmod, BitVec.getLsbD_of_ge _ (64 - k.toNat + z.val) (by omega)]
      simp [hlt]

lemma get_ofFn {α : Type} {n : ℕ} (f : Fin n → α) (i : Fin n) : (Vector.ofFn f).get i = f i :=
  Vector.getElem_ofFn i.isLt

lemma lane_nodup : (coordinates.map fun p => lane p.1 p.2).Nodup := by decide

lemma lane_walk_nodup :
    (coordinates.map fun p => lane p.2 (2 * p.1 + 3 * p.2)).Nodup := by decide

/-- The tabulated offsets are the specified ones. -/
lemma toNat_rho : ∀ x y : Fin 5, ((Keccak.rho.get x).get y).toNat = offset x y % 64 := by
  decide +kernel

/-- The tabulated constants are the specified ones. -/
lemma getLsbD_roundConstants : ∀ i : Fin 24, ∀ z : Fin 64,
    (roundConstants.getD i 0).toBitVec.getLsbD z = roundBit i z := by
  decide +kernel

/-- The parities that a round computes first. -/
def parities (state : State) : Vector UInt64 5 :=
  Vector.ofFn fun x =>
    state.get (lane x 0) ^^^ state.get (lane x 1) ^^^ state.get (lane x 2)
      ^^^ state.get (lane x 3) ^^^ state.get (lane x 4)

def sums (c : Vector UInt64 5) : Vector UInt64 5 :=
  Vector.ofFn fun x => c.get (x + 4) ^^^ rotl64 (c.get (x + 1)) 1

/-- The three loops of a round over all lanes. -/
def thetaLanes (state : State) : State :=
  overwrite lane (fun x _ a => a ^^^ (sums (parities state)).get x) state

def rhoPiLanes (state : State) : State :=
  overwrite (fun x y => lane y (2 * x + 3 * y))
    (fun x y _ => rotl64 (state.get (lane x y)) ((Keccak.rho.get x).get y)) (Vector.replicate 25 0)

def chiLanes (b state : State) : State :=
  overwrite lane
    (fun x y _ => b.get (lane x y) ^^^ (~~~b.get (lane (x + 1) y) &&& b.get (lane (x + 2) y)))
    state

lemma keccakRound_eq (s : State) (rc : UInt64) :
    keccakRound s rc =
      let t := chiLanes (rhoPiLanes (thetaLanes s)) (thetaLanes s)
      write t (lane 0 0) (t.get (lane 0 0) ^^^ rc) := rfl

lemma getLsbD_parities (s : State) (x : Fin 5) (z : Fin 64) :
    ((parities s).get x).toBitVec.getLsbD z = column (lanes s) x z := by
  rw [parities, get_ofFn]
  simp only [UInt64.toBitVec_xor, BitVec.getLsbD_xor]
  rfl

lemma lanes_thetaLanes (s : State) : lanes (thetaLanes s) = theta (lanes s) := by
  funext x y z
  have hget : (thetaLanes s).get (lane x y) = s.get (lane x y) ^^^ (sums (parities s)).get x :=
    get_overwrite lane_nodup _ s x y
  have hx : x + 4 = x - 1 := by omega
  rw [lanes, hget, sums, get_ofFn, UInt64.toBitVec_xor, UInt64.toBitVec_xor, BitVec.getLsbD_xor,
    BitVec.getLsbD_xor, getLsbD_parities, getLsbD_rotl64 _ _ (by decide), getLsbD_parities, hx]
  rfl

lemma lanes_rhoPiLanes (s : State) : lanes (rhoPiLanes s) = pi (rho (lanes s)) := by
  funext x y z
  have hget : (rhoPiLanes s).get (lane x (2 * (x + 3 * y) + 3 * x)) =
      rotl64 (s.get (lane (x + 3 * y) x)) ((Keccak.rho.get (x + 3 * y)).get x) :=
    get_overwrite lane_walk_nodup _ (Vector.replicate 25 0) (x + 3 * y) x
  have hx : 2 * (x + 3 * y) + 3 * x = y := by omega
  have hrho := toNat_rho (x + 3 * y) x
  have hmod : Fin.ofNat 64 (offset (x + 3 * y) x % 64) = Fin.ofNat 64 (offset (x + 3 * y) x) :=
    Fin.ext (Nat.mod_mod _ _)
  rw [hx] at hget
  rw [lanes, hget, getLsbD_rotl64 _ _ (by omega), hrho, hmod]
  rfl

lemma lanes_chiLanes (b s : State) : lanes (chiLanes b s) = chi (lanes b) := by
  funext x y z
  have hget : (chiLanes b s).get (lane x y) =
      b.get (lane x y) ^^^ (~~~b.get (lane (x + 1) y) &&& b.get (lane (x + 2) y)) :=
    get_overwrite lane_nodup _ s x y
  rw [lanes, hget, UInt64.toBitVec_xor, UInt64.toBitVec_and, UInt64.toBitVec_not,
    BitVec.getLsbD_xor, BitVec.getLsbD_and, BitVec.getLsbD_not]
  simp only [z.isLt, decide_true, Bool.true_and]
  rfl

lemma lanes_keccakRound (s : State) (i : Fin 24) :
    lanes (keccakRound s (roundConstants.getD i 0)) = round (lanes s) i := by
  rw [keccakRound_eq, KeccakF.round, ← lanes_thetaLanes, ← lanes_rhoPiLanes,
    ← lanes_chiLanes _ (thetaLanes s)]
  funext x y z
  generalize chiLanes (rhoPiLanes (thetaLanes s)) (thetaLanes s) = t
  rw [iota]
  split_ifs with h
  · obtain ⟨rfl, rfl⟩ := h
    rw [lanes, get_write_self, UInt64.toBitVec_xor, BitVec.getLsbD_xor, getLsbD_roundConstants]
    rfl
  · have hne : lane 0 0 ≠ lane x y := by
      intro he
      have : 0 = x.val + 5 * y.val := congrArg Fin.val he
      exact h ⟨by omega, by omega⟩
    rw [lanes, get_write_ne _ hne]
    rfl

lemma lanes_keccakf (s : State) : lanes (keccakf s) = (List.range 24).foldl round (lanes s) := by
  have htable : roundConstants = 
      (List.finRange 24).map fun i : Fin 24 => roundConstants.getD i 0 := by decide
  have hrange : List.range 24 = (List.finRange 24).map Fin.val := by decide
  rw [keccakf, htable, hrange, List.foldl_map, List.foldl_map]
  exact (List.foldl_hom lanes fun s i => (lanes_keccakRound s i).symm).symm

/-! ### The state as a string of bits -/

def view (s : State) : Fin 1600 → Bool := ofLanes (lanes s)

lemma view_keccakf (s : State) : view (keccakf s) = keccakF (view s) := by
  rw [view, lanes_keccakf, keccakF, view, toLanes_ofLanes]

lemma view_apply (s : State) (i : Fin 1600) :
    view s i = (s.get ⟨i.val / 64, by omega⟩).toBitVec.getLsbD (i.val % 64) := by
  have hlane : lane ⟨i.val / 64 % 5, by omega⟩ ⟨i.val / 320, by omega⟩ =
      ⟨i.val / 64, by omega⟩ := by
    apply Fin.ext
    change i.val / 64 % 5 + 5 * (i.val / 320) = i.val / 64
    omega
  rw [view, ofLanes, lanes, hlane]

lemma getLsbD_foldl_or {ι : Type} (g : ι → UInt64) (l : List ι) (v : UInt64) (z : ℕ) :
    (l.foldl (fun value i => value ||| g i) v).toBitVec.getLsbD z =
      (v.toBitVec.getLsbD z || l.any fun i => (g i).toBitVec.getLsbD z) := by
  induction l generalizing v with
  | nil => simp
  | cons i l ih =>
    rw [List.foldl_cons, ih, UInt64.toBitVec_or, BitVec.getLsbD_or, List.any_cons, Bool.or_assoc]

/-- Lanes are loaded with the first byte lowest. -/
lemma getLsbD_load64Le (data : Bytes) (z : ℕ) (hz : z < 64) :
    (load64Le data).toBitVec.getLsbD z = (data.getD (z / 8) 0).toBitVec.getLsbD (z % 8) := by
  have hbyte : ∀ i < 8, ((data.getD i 0).toUInt64 <<< UInt64.ofNat (8 * i)).toBitVec.getLsbD z =
      (decide (8 * i ≤ z) && (data.getD i 0).toBitVec.getLsbD (z - 8 * i)) := by
    intro i hi
    have hshift : ((UInt64.ofNat (8 * i)).toBitVec % 64).toNat = 8 * i := by
      simp
      omega
    rw [UInt64.toBitVec_shiftLeft, BitVec.getLsbD_shiftLeft', hshift, UInt8.toBitVec_toUInt64,
      BitVec.getLsbD_setWidth]
    have hsub : z - 8 * i < 64 := by omega
    rw [Bool.eq_iff_iff]
    simp [hz, hsub]
  rw [load64Le, getLsbD_foldl_or, Bool.eq_iff_iff, Bool.or_eq_true, List.any_eq_true]
  constructor
  · rintro (h0 | ⟨i, hi, hbit⟩)
    · simp at h0
    · rw [hbyte i (List.mem_range.mp hi), Bool.and_eq_true, decide_eq_true_eq] at hbit
      have hlt := BitVec.lt_of_getLsbD hbit.2
      have hdiv : z / 8 = i := by omega
      have hmod : z % 8 = z - 8 * i := by omega
      rw [hdiv, hmod]
      exact hbit.2
  · intro hbit
    have hmod : z - 8 * (z / 8) = z % 8 := by omega
    refine Or.inr ⟨z / 8, List.mem_range.mpr (by omega), ?_⟩
    rw [hbyte _ (by omega), hmod, hbit, Bool.and_true, decide_eq_true_eq]
    omega

/-- The bytes of a block are added to the state as the bits of the block are. -/
lemma view_xorBlock (s : State) (data : Bytes) :
    view (xorBlock s data) = addBlock (view s) ((bits data).take 1088) := by
  funext i
  have hget : (xorBlock s data).get ⟨i.val / 64, by omega⟩ =
      if i.val / 64 < rate / 8 then
        s.get ⟨i.val / 64, by omega⟩ ^^^ load64Le (data.drop (8 * (i.val / 64)))
      else s.get ⟨i.val / 64, by omega⟩ := get_ofFn _ _
  rw [addBlock, view_apply, view_apply, hget]
  have hrate : rate / 8 = 17 := rfl
  split_ifs with h
  · have hdiv : 8 * (i.val / 64) + i.val % 64 / 8 = i.val / 8 := by omega
    have hmod : i.val % 64 % 8 = i.val % 8 := by omega
    have htake : ((bits data).take 1088).getD i.val false = (bits data).getD i.val false := by
      rw [List.getD_eq_getElem?_getD, List.getD_eq_getElem?_getD,
        List.getElem?_take_of_lt (by omega)]
    rw [UInt64.toBitVec_xor, BitVec.getLsbD_xor, getLsbD_load64Le _ _ (by omega), hmod, htake,
      getD_bits, List.getD_eq_getElem?_getD, List.getElem?_drop, hdiv,
      List.getD_eq_getElem?_getD]
  · have htake : ((bits data).take 1088).getD i.val false = false := by
      rw [List.getD_eq_default _ _ (by rw [List.length_take]; omega)]
    rw [htake, Bool.xor_false]

/-! ### Absorbing -/

/-- The full blocks of the data are absorbed, whatever follows them. -/
lemma absorbBlocks_eq (n : ℕ) (s : State) (data : Bytes) (hn : 136 * n ≤ data.length)
    (tail : List Bool) :
    view (absorbBlocks n s data).1 = absorb keccakF 1088 n (view s) (bits data ++ tail) ∧
      (absorbBlocks n s data).2 = data.drop (136 * n) := by
  induction n generalizing s data with
  | zero => exact ⟨rfl, rfl⟩
  | succ n ih =>
    have hlen := length_bits data
    have htake : (bits data ++ tail).take 1088 = (bits data).take 1088 :=
      List.take_append_of_le_length (by omega)
    have hdrop : (bits data ++ tail).drop 1088 = bits (data.drop 136) ++ tail := by
      rw [List.drop_append_of_le_length (by omega), (bits_split data 136).2]
    obtain ⟨hview, hrest⟩ := ih (keccakf (xorBlock s data)) (data.drop 136)
      (by rw [List.length_drop]; omega)
    rw [absorb, htake, hdrop, ← view_xorBlock, ← view_keccakf]
    refine ⟨hview, hrest.trans ?_⟩
    rw [List.drop_drop, Nat.mul_succ, Nat.add_comm]

/-! ### Padding -/

lemma modify_last {α : Type} (l : List α) (a : α) (f : α → α) {n : ℕ} (h : l.length = n) :
    (l ++ [a]).modify n f = l ++ [f a] := by
  subst h
  rw [List.modify_eq_take_cons_drop (by simp)]
  simp

/-- The final block has the data that is left and the padding of the whole message. -/
lemma bits_finalBlock (rest : Bytes) (hrest : rest.length < 136) (len : ℕ)
    (hlen : len % 136 = rest.length) :
    bits (finalBlock rest) = bits rest ++ pad 1088 (8 * len) := by
  have hzeros : ((-((8 * len : ℕ) : ℤ) - 2) % (1088 : ℕ)).toNat = 1086 - 8 * rest.length := by
    omega
  have hset : (rest ++ List.replicate (rate - rest.length) 0).set rest.length 0x01 =
      rest ++ 0x01 :: List.replicate (135 - rest.length) 0 := by
    have hrate : rate - rest.length = 135 - rest.length + 1 := by rw [rate]; omega
    rw [List.set_append_right _ _ (Nat.le_refl _), Nat.sub_self, hrate, List.replicate_succ,
      List.set_cons_zero]
  rw [finalBlock, hset, pad, hzeros]
  have hrate : rate - 1 = 135 := rfl
  by_cases hfull : rest.length = 135
  -- the byte of the padding is the last one of the block
  · have hlast : bits [0x01 ||| 0x80] = true :: (List.replicate 6 false ++ [true]) := by decide
    rw [hrate, hfull, Nat.sub_self, List.replicate_zero, modify_last rest _ _ hfull, bits_append,
      hlast]
  · have hfirst : bits [0x01] = true :: List.replicate 7 false := by decide
    have hlast : bits [0 ||| 0x80] = List.replicate 7 false ++ [true] := by decide
    have hsnoc : rest ++ 0x01 :: List.replicate (135 - rest.length) 0 =
        (rest ++ [0x01] ++ List.replicate (134 - rest.length) 0) ++ [0] := by
      have hsucc : 135 - rest.length = 134 - rest.length + 1 := by omega
      rw [hsucc, List.replicate_succ']
      simp
    have hcount : 1086 - 8 * rest.length = 7 + (8 * (134 - rest.length) + 7) := by omega
    rw [hrate, hsnoc, modify_last _ _ _ (by simp; omega), bits_append, bits_append, bits_append,
      hfirst, hlast, bits_replicate_zero, hcount, ← List.replicate_append_replicate,
      ← List.replicate_append_replicate]
    simp

/-! ### The result -/

/-- Lanes are stored with the lowest byte first. -/
lemma bits_store64Le (v : UInt64) :
    bits (store64Le v) = List.ofFn fun z : Fin 64 => v.toBitVec.getLsbD z := by
  have hlen : (bits (store64Le v)).length = 64 := by
    rw [length_bits, store64Le, List.length_map, List.length_range]
  refine List.ext_getElem (by rw [hlen, List.length_ofFn]) fun i hi _ => ?_
  have hget := getD_bits (store64Le v) i
  rw [List.getD_eq_getElem _ _ hi] at hget
  have hlow : ∀ z < 8, (0xff : BitVec 64).getLsbD z = true := by decide
  have hbyte : (store64Le v).getD (i / 8) 0 =
      ((v >>> UInt64.ofNat (8 * (i / 8))) &&& 0xff).toUInt8 := by
    rw [store64Le, List.getD_eq_getElem _ _ (by simp; omega), List.getElem_map, List.getElem_range]
  have hshift : ((UInt64.ofNat (8 * (i / 8))).toBitVec % 64).toNat = 8 * (i / 8) := by
    simp
    omega
  have hi8 : 8 * (i / 8) + i % 8 = i := Nat.div_add_mod i 8
  rw [hget, hbyte, List.getElem_ofFn, UInt64.toBitVec_toUInt8, BitVec.getLsbD_setWidth,
    UInt64.toBitVec_and, UInt64.toBitVec_shiftRight, BitVec.getLsbD_and, BitVec.ushiftRight_eq',
    BitVec.getLsbD_ushiftRight, hshift, hi8]
  have hmod : i % 8 < 8 := Nat.mod_lt _ (by decide)
  have hff := hlow (i % 8) hmod
  rw [decide_eq_true hmod, Bool.true_and]
  exact (congrArg _ hff).trans (Bool.and_true _)

/-- The output is the first four lanes. -/
lemma take_view (s : State) :
    (List.ofFn (view s)).take 256 =
      bits (store64Le (s.get 0) ++ store64Le (s.get 1) ++ store64Le (s.get 2) ++
        store64Le (s.get 3)) := by
  have hlanes : List.ofFn (view s) =
      (List.ofFn fun i : Fin 25 => bits (store64Le (s.get i))).flatten := by
    rw [List.ofFn_mul (m := 25) (n := 64) (view s)]
    congr 2
    funext i
    rw [bits_store64Le]
    congr 1
    funext j
    have hdiv : (⟨(i.val * 64 + j.val) / 64, by omega⟩ : Fin 25) = i := by
      apply Fin.ext
      change (i.val * 64 + j.val) / 64 = i.val
      omega
    have hmod : (i.val * 64 + j.val) % 64 = j.val := by omega
    rw [view_apply, hdiv, hmod]
  have hfour : (List.ofFn fun i : Fin 25 => bits (store64Le (s.get i))) =
      [bits (store64Le (s.get 0)), bits (store64Le (s.get 1)), bits (store64Le (s.get 2)),
        bits (store64Le (s.get 3))] ++
      List.ofFn fun i : Fin 21 => bits (store64Le (s.get (Fin.natAdd 4 i))) := rfl
  rw [hlanes, hfour, List.flatten_append, List.take_left']
  · simp [bits_append]
  · simp [store64Le]

lemma view_zero : view (Vector.replicate 25 0) = fun _ => false := by
  funext i
  have hget : (Vector.replicate 25 (0 : UInt64)).get ⟨i.val / 64, by omega⟩ = 0 :=
    Vector.getElem_replicate _
  rw [view_apply, hget]
  exact BitVec.getLsbD_zero

lemma length_bits_finalBlock {rest : Bytes} (h : rest.length < 136) :
    (bits (finalBlock rest)).length = 1088 := by
  rw [length_bits, finalBlock, List.length_modify, List.length_set, List.length_append,
    List.length_replicate, rate]
  omega

/-- What is left of the padded data behind the full blocks of the data is one block. -/
lemma drop_padded (data : Bytes) :
    (bits data ++ pad 1088 (8 * data.length)).drop (1088 * (data.length / 136)) =
      bits (finalBlock (data.drop (136 * (data.length / 136)))) := by
  have hlen := length_bits data
  rw [bits_finalBlock _ (by rw [List.length_drop]; omega) data.length
    (by rw [List.length_drop]; omega), List.drop_append_of_le_length (by omega),
    (bits_split _ _).2, ← Nat.mul_assoc]

lemma blocks_padded (data : Bytes) :
    (bits data ++ pad 1088 (8 * data.length)).length / 1088 = data.length / 136 + 1 := by
  have hdrop := congrArg List.length (drop_padded data)
  rw [length_bits_finalBlock (by rw [List.length_drop]; omega), List.length_drop] at hdrop
  omega

/-- **`evmdb_keccak256` is Keccak-256.** -/
theorem keccak256_eq (data : Bytes) :
    bits (Keccak.keccak256 data).bytes = KeccakF.keccak256 (bits data) := by
  obtain ⟨hview, hrest⟩ := absorbBlocks_eq (data.length / 136) (Vector.replicate 25 0) data
    (Nat.mul_div_le _ _) (pad 1088 (8 * data.length))
  have hbytes : (Keccak.keccak256 data).bytes =
      let absorbed := absorbBlocks (data.length / 136) (Vector.replicate 25 0) data
      let state := keccakf (xorBlock absorbed.1 (finalBlock absorbed.2))
      store64Le (state.get 0) ++ store64Le (state.get 1) ++ store64Le (state.get 2) ++
        store64Le (state.get 3) := rfl
  rw [hbytes, ← take_view, view_keccakf, view_xorBlock, hrest, hview, view_zero,
    KeccakF.keccak256, sponge, length_bits, blocks_padded, absorb_succ, drop_padded]

end EvmDb.KeccakReference
