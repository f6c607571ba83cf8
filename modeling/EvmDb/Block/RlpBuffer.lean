import EvmDb.Lib.Rlp
import EvmDb.Types

/-!
The RLP encoders of `src/block/tx.c`, on a growing buffer.

Every encoder appends the code of one item. `Writes` says so: what it appends, and that it
returns when allocations succeed and the buffer stays below `2 ^ 63` bytes, the size up to
which doubling the capacity reaches every length without wrapping.
-/

namespace EvmDb.RlpBuffer

open EvmDb.Radix EvmDb.Rlp EvmDb.Types

/-- `rlp_buffer_t`: the bytes written, and the capacity of the allocation. -/
structure Buffer where
  data : Bytes
  cap : ℕ

def Buffer.empty : Buffer := ⟨[], 0⟩

variable (realloc : ℕ → Bool)

/-- The loop that doubles the capacity; it gives up after 64 rounds, where the loop in C
would not end. -/
def growCap : ℕ → ℕ → ℕ → Option ℕ
  | 0, newCap, needed => if newCap < needed then none else some newCap
  | fuel + 1, newCap, needed =>
    if newCap < needed then growCap fuel (newCap * 2 % 2 ^ 64) needed else some newCap

/-- The capacity doubling starts from. -/
def startCap (buf : Buffer) : ℕ := if buf.cap ≠ 0 then buf.cap else 64

def rlpBufferReserve (buf : Buffer) (additional : ℕ) : Option Buffer :=
  if (buf.data.length + additional) % 2 ^ 64 ≤ buf.cap then some buf
  else do
    let newCap ← growCap 64 (startCap buf) ((buf.data.length + additional) % 2 ^ 64)
    if realloc newCap = true then some { buf with cap := newCap } else none

def rlpBufferAppend (data : Bytes) (buf : Buffer) : Option Buffer := do
  let buf ← rlpBufferReserve realloc buf data.length
  some { buf with data := buf.data ++ data }

def rlpBufferAppendByte (value : UInt8) (buf : Buffer) : Option Buffer :=
  rlpBufferAppend realloc [value] buf

def rlpAppendLength (len shortBase longBase : ℕ) (buf : Buffer) : Option Buffer :=
  if len ≤ 55 then rlpBufferAppendByte realloc (UInt8.ofNat (shortBase + len)) buf
  else do
    let lenBytes := takeBytes 8 len []
    let buf ← rlpBufferAppendByte realloc (UInt8.ofNat (longBase + lenBytes.length)) buf
    rlpBufferAppend realloc lenBytes buf

def rlpAppendBytes (data : Bytes) (buf : Buffer) : Option Buffer :=
  if data.length = 1 ∧ (data.headD 0).toNat ≤ 0x7f then
    rlpBufferAppendByte realloc (data.headD 0) buf
  else do
    let buf ← rlpAppendLength realloc data.length 0x80 0xb7 buf
    rlpBufferAppend realloc data buf

def rlpAppendUint64 (value : UInt64) (buf : Buffer) : Option Buffer :=
  if value = 0 then rlpAppendBytes realloc [] buf
  else rlpAppendBytes realloc (takeBytes 8 value.toNat []) buf

def rlpAppendBytes32 (value : Bytes32) (buf : Buffer) : Option Buffer :=
  if leadingZeros value.bytes = 32 then rlpAppendBytes realloc [] buf
  else rlpAppendBytes realloc (value.bytes.drop (leadingZeros value.bytes)) buf

def rlpAppendAddress (addr : Address) (isNull : Bool) (buf : Buffer) : Option Buffer :=
  if isNull then rlpAppendBytes realloc [] buf else rlpAppendBytes realloc addr.bytes buf

def rlpAppendEmptyList (buf : Buffer) : Option Buffer := rlpBufferAppendByte realloc 0xc0 buf

def rlpWrapList (payload : Buffer) (out : Buffer) : Option Buffer := do
  let out ← rlpAppendLength realloc payload.data.length 0xc0 0xf7 out
  rlpBufferAppend realloc payload.data out

/-! ### What the encoders append -/

variable {realloc}

/-- An encoder that appends `bs`. -/
structure Writes (realloc : ℕ → Bool) (f : Buffer → Option Buffer) (bs : Bytes) : Prop where
  data_eq : ∀ {buf buf' : Buffer}, f buf = some buf' → buf'.data = buf.data ++ bs
  returns : (∀ n, realloc n = true) → ∀ {buf : Buffer}, buf.data.length + bs.length < 2 ^ 63 →
    ∃ buf', f buf = some buf'

/-- One encoder after the other. -/
lemma Writes.bind {f g : Buffer → Option Buffer} {as bs : Bytes} (hf : Writes realloc f as)
    (hg : Writes realloc g bs) : Writes realloc (fun buf => f buf >>= g) (as ++ bs) where
  data_eq := by
    intro buf buf' h
    obtain ⟨mid, hm, h'⟩ := Option.bind_eq_some_iff.mp h
    rw [hg.data_eq h', hf.data_eq hm, List.append_assoc]
  returns := by
    intro hr buf hlen
    rw [List.length_append] at hlen
    obtain ⟨mid, hm⟩ := @Writes.returns _ _ _ hf hr buf (by omega)
    have hmid := congrArg List.length (hf.data_eq hm)
    rw [List.length_append] at hmid
    obtain ⟨buf', h'⟩ := @Writes.returns _ _ _ hg hr mid (by omega)
    exact ⟨buf', Option.bind_eq_some_iff.mpr ⟨mid, hm, h'⟩⟩

lemma growCap_returns {fuel newCap needed : ℕ} (hpos : needed ≤ newCap * 2 ^ fuel)
    (h : needed < 2 ^ 63) : ∃ cap, growCap fuel newCap needed = some cap := by
  induction fuel generalizing newCap with
  | zero =>
    rw [growCap, if_neg (by simpa using hpos)]
    exact ⟨_, rfl⟩
  | succ fuel ih =>
    rw [growCap]
    split_ifs with hlt
    · rw [Nat.mod_eq_of_lt (by omega)]
      exact ih (by rw [pow_succ] at hpos; rw [Nat.mul_assoc]; rwa [Nat.mul_comm 2])
    · exact ⟨_, rfl⟩

lemma reserve_data {buf buf' : Buffer} {k : ℕ} (h : rlpBufferReserve realloc buf k = some buf') :
    buf'.data = buf.data := by
  unfold rlpBufferReserve at h
  split at h
  · cases h; rfl
  · obtain ⟨cap, -, h'⟩ := Option.bind_eq_some_iff.mp h
    split at h'
    · cases h'; rfl
    · cases h'

lemma reserve_returns (hr : ∀ n, realloc n = true) {buf : Buffer} {k : ℕ}
    (h : buf.data.length + k < 2 ^ 63) : ∃ buf', rlpBufferReserve realloc buf k = some buf' := by
  have hpos : 1 ≤ startCap buf := by unfold startCap; split_ifs <;> omega
  have hmul : 2 ^ 64 ≤ startCap buf * 2 ^ 64 := Nat.le_mul_of_pos_left _ hpos
  obtain ⟨cap, hcap⟩ := @growCap_returns 64 (startCap buf) (buf.data.length + k) (by omega) h
  unfold rlpBufferReserve
  rw [Nat.mod_eq_of_lt (by omega), hcap]
  split_ifs
  · exact ⟨_, rfl⟩
  · exact ⟨{ buf with cap := cap }, by simp [hr]⟩

lemma writes_append (data : Bytes) : Writes realloc (rlpBufferAppend realloc data) data where
  data_eq := by
    intro buf buf' h
    obtain ⟨mid, hm, h'⟩ := Option.bind_eq_some_iff.mp h
    cases h'
    rw [reserve_data hm]
  returns := by
    intro hr buf hlen
    obtain ⟨mid, hm⟩ := reserve_returns hr hlen
    exact ⟨_, Option.bind_eq_some_iff.mpr ⟨mid, hm, rfl⟩⟩

lemma writes_appendByte (b : UInt8) : Writes realloc (rlpBufferAppendByte realloc b) [b] :=
  writes_append [b]

lemma writes_appendLength {len : ℕ} (h : len < 2 ^ 64) (short long : ℕ) :
    Writes realloc (rlpAppendLength realloc len short long) (header short long len) := by
  have ht : takeBytes 8 len [] = minimal len := by
    rw [takeBytes_eq (by simpa using h), List.append_nil]
  unfold rlpAppendLength header
  split_ifs
  · exact writes_appendByte _
  · rw [ht]
    exact (writes_appendByte _).bind (writes_append _)

/-- **The string encoder appends the code of its bytes.** -/
lemma writes_appendBytes {data : Bytes} (h : data.length < 2 ^ 64) :
    Writes realloc (rlpAppendBytes realloc data) (encodeStr data) := by
  unfold rlpAppendBytes encodeStr strHeader
  split_ifs with hs
  · obtain ⟨b, rfl⟩ := List.length_eq_one_iff.mp hs.1
    exact writes_appendByte b
  · exact (writes_appendLength h _ _).bind (writes_append _)

lemma writes_appendUint64 (v : UInt64) :
    Writes realloc (rlpAppendUint64 realloc v) (encodeStr (minimal v.toNat)) := by
  have hv : v.toNat < 2 ^ 64 := v.toNat_lt
  have hlen := minimal_length_le hv
  unfold rlpAppendUint64
  split_ifs with h0
  · subst h0
    exact @writes_appendBytes _ [] (by simp)
  · rw [takeBytes_eq (by simpa using hv), List.append_nil]
    exact writes_appendBytes (by omega)

lemma writes_appendBytes32 (w : Bytes32) :
    Writes realloc (rlpAppendBytes32 realloc w) (encodeStr (strip w.bytes)) := by
  have hlen := length_strip_le w.bytes
  rw [w.length_bytes] at hlen
  unfold rlpAppendBytes32
  rw [drop_leadingZeros]
  split_ifs with h32
  · have hnil : strip w.bytes = [] := by
      rw [← drop_leadingZeros, h32, List.drop_of_length_le (by simp)]
    rw [hnil]
    exact writes_appendBytes (by simp)
  · exact writes_appendBytes (by omega)

/-- The bytes of a recipient: none for contract creation. -/
def recipient (addr : Address) (isNull : Bool) : Bytes := if isNull then [] else addr.bytes

lemma writes_appendAddress (addr : Address) (isNull : Bool) :
    Writes realloc (rlpAppendAddress realloc addr isNull) (encodeStr (recipient addr isNull)) := by
  unfold rlpAppendAddress recipient
  split_ifs
  · exact writes_appendBytes (by simp)
  · exact writes_appendBytes (by simp)

lemma writes_appendEmptyList : Writes realloc (rlpAppendEmptyList realloc) (encodeList []) :=
  writes_appendByte _

lemma writes_wrapList {payload : Buffer} (h : payload.data.length < 2 ^ 64) :
    Writes realloc (rlpWrapList realloc payload) (encodeList payload.data) :=
  (writes_appendLength h _ _).bind (writes_append _)

end EvmDb.RlpBuffer
