import EvmDb.Core.Hex
import EvmDb.Lib.Redis

/-!
The store API of `src/state/redis_state.c`: one Redis command for each operation.

A getter turns every reply that is not a string into a default; a setter looks at no reply
and returns 0.
-/

namespace EvmDb.RedisState

open EvmDb.Types EvmDb.Digits EvmDb.Hex EvmDb.Program EvmDb.Redis

/-! ### Key formatting -/

/-- `addr_to_hex`. -/
def addrToHex (addr : Address) : Bytes := (hexEncode addr.bytes 43).getD []

/-- `hash_to_hex`. -/
def hashToHex (hash : Hash) : Bytes := (hexEncode hash.bytes 67).getD []

/-- `bytes32_to_hex`. -/
def bytes32ToHex (b : Bytes32) : Bytes := (hexEncode b.bytes 67).getD []

def accountKey (addr : Address) : Bytes := ascii "account:" ++ addrToHex addr
def storageKey (addr : Address) : Bytes := ascii "storage:" ++ addrToHex addr
def codeKey (addr : Address) : Bytes := ascii "code:" ++ addrToHex addr
def receiptKey (hash : Hash) : Bytes := ascii "receipt:" ++ hashToHex hash
def blockKey : Bytes := ascii "block:latest"

/-! ### Operations -/

/-- The number in a string reply, and 0 in any other. -/
def numberOf : Option Reply → UInt64
  | some (.string s) => strtoull s
  | _ => 0

/-- The word in a string reply, decoded into the memory at `out`; zero in any other. -/
def wordOf (out : Bytes32) : Option Reply → Bytes32
  | some (.string s) => decodeInto s out
  | _ => .zero 32

/-- The bytes of a string reply, and none in any other. -/
def bytesOf : Option Reply → Bytes
  | some (.string s) => s
  | _ => []

/-- `evmdb_state_get_nonce`. -/
def getNonce (addr : Address) : RedisProg UInt64 := do
  let r ← issue (.hget (accountKey addr) (ascii "nonce"))
  return numberOf r

/-- `evmdb_state_set_nonce`. -/
def setNonce (addr : Address) (nonce : UInt64) : RedisProg ℤ := do
  let _ ← issue (.hset (accountKey addr) [(ascii "nonce", decimal nonce.toNat)])
  return 0

/-- `evmdb_state_get_balance`. -/
def getBalance (addr : Address) (out : Bytes32) : RedisProg Bytes32 := do
  let r ← issue (.hget (accountKey addr) (ascii "balance"))
  return wordOf out r

/-- `evmdb_state_set_balance`. -/
def setBalance (addr : Address) (balance : Bytes32) : RedisProg ℤ := do
  let _ ← issue (.hset (accountKey addr) [(ascii "balance", bytes32ToHex balance)])
  return 0

/-- `evmdb_account_t`. -/
structure Account where
  address : Address
  nonce : UInt64
  balance : Bytes32
  codeHash : Hash
  deriving DecidableEq

/-- An account from three elements of a reply, the words decoded into the memory of an account
that is there already. -/
def accountOf (addr : Address) (out : Account) : Option Reply → Account
  | some (.array [nonce, balance, codeHash]) =>
    { address := addr
      nonce := numberOf (some (.ofCell nonce))
      balance := wordOf out.balance (some (.ofCell balance))
      codeHash := wordOf out.codeHash (some (.ofCell codeHash)) }
  | _ => ⟨addr, 0, .zero 32, .zero 32⟩

/-- `evmdb_state_get_account`. -/
def getAccount (addr : Address) (out : Account) : RedisProg Account := do
  let r ← issue (.hmget (accountKey addr) [ascii "nonce", ascii "balance", ascii "codehash"])
  return accountOf addr out r

/-- `evmdb_state_set_account`. -/
def setAccount (acct : Account) : RedisProg ℤ := do
  let _ ← issue (.hset (accountKey acct.address)
    [(ascii "nonce", decimal acct.nonce.toNat), (ascii "balance", bytes32ToHex acct.balance),
      (ascii "codehash", bytes32ToHex acct.codeHash)])
  return 0

/-- `evmdb_state_get_storage`. -/
def getStorage (addr : Address) (key out : Bytes32) : RedisProg Bytes32 := do
  let r ← issue (.hget (storageKey addr) (bytes32ToHex key))
  return wordOf out r

/-- `evmdb_state_set_storage`. -/
def setStorage (addr : Address) (key value : Bytes32) : RedisProg ℤ := do
  let _ ← issue (.hset (storageKey addr) [(bytes32ToHex key, bytes32ToHex value)])
  return 0

/-- `evmdb_state_get_code`. -/
def getCode (addr : Address) : RedisProg Bytes := do
  let r ← issue (.get (codeKey addr))
  return bytesOf r

/-- `evmdb_state_set_code`. -/
def setCode (addr : Address) (code : Bytes) : RedisProg ℤ := do
  let _ ← issue (.set (codeKey addr) code)
  return 0

/-- `evmdb_state_get_receipt`. -/
def getReceipt (txHash : Hash) : RedisProg Bytes := do
  let r ← issue (.get (receiptKey txHash))
  return bytesOf r

/-- `evmdb_state_set_receipt`. -/
def setReceipt (txHash : Hash) (data : Bytes) : RedisProg ℤ := do
  let _ ← issue (.set (receiptKey txHash) data)
  return 0

/-- `evmdb_state_get_block_number`. -/
def getBlockNumber : RedisProg UInt64 := do
  let r ← issue (.get blockKey)
  return numberOf r

/-- `evmdb_state_set_block_number`. -/
def setBlockNumber (number : UInt64) : RedisProg ℤ := do
  let _ ← issue (.set blockKey (decimal number.toNat))
  return 0

/-! ### Cells -/

def nonceCell (addr : Address) : Cell := .field (accountKey addr) (ascii "nonce")
def storageCell (addr : Address) (key : Bytes32) : Cell :=
  .field (storageKey addr) (bytes32ToHex key)
def codeCell (addr : Address) : Cell := .key (codeKey addr)
def receiptCell (hash : Hash) : Cell := .key (receiptKey hash)
def blockCell : Cell := .key blockKey

lemma addrToHex_eq (addr : Address) : addrToHex addr = hexText addr.bytes := by
  simp [addrToHex, hexEncode]

lemma hashToHex_eq (hash : Hash) : hashToHex hash = hexText hash.bytes := by
  simp [hashToHex, hexEncode]

lemma bytes32ToHex_eq (b : Bytes32) : bytes32ToHex b = hexText b.bytes := by
  simp [bytes32ToHex, hexEncode]

lemma addrToHex_inj {a b : Address} (h : addrToHex a = addrToHex b) : a = b := by
  rw [addrToHex_eq, addrToHex_eq] at h
  exact FixedBytes.ext (hexText_inj h)

/-- A word that is stored is read back. -/
lemma wordOf_bytes32ToHex (out w : Bytes32) :
    wordOf out (some (.ofCell (some (bytes32ToHex w)))) = w := by
  show decodeInto (bytes32ToHex w) out = w
  rw [bytes32ToHex_eq, decodeInto_hexText]

lemma hashToHex_inj {a b : Hash} (h : hashToHex a = hashToHex b) : a = b := by
  rw [hashToHex_eq, hashToHex_eq] at h
  exact FixedBytes.ext (hexText_inj h)

lemma bytes32ToHex_inj {a b : Bytes32} (h : bytes32ToHex a = bytes32ToHex b) : a = b := by
  rw [bytes32ToHex_eq, bytes32ToHex_eq] at h
  exact FixedBytes.ext (hexText_inj h)

@[simp] lemma nonceCell_inj {a b : Address} : nonceCell a = nonceCell b ↔ a = b := by
  refine ⟨fun h => ?_, fun h => by rw [h]⟩
  exact addrToHex_inj (List.append_cancel_left (Cell.field.inj h).1)

@[simp] lemma storageCell_inj {a b : Address} {k l : Bytes32} :
    storageCell a k = storageCell b l ↔ a = b ∧ k = l := by
  refine ⟨fun h => ?_, fun h => by rw [h.1, h.2]⟩
  have hc := Cell.field.inj h
  exact ⟨addrToHex_inj (List.append_cancel_left hc.1), bytes32ToHex_inj hc.2⟩

@[simp] lemma codeCell_inj {a b : Address} : codeCell a = codeCell b ↔ a = b := by
  refine ⟨fun h => ?_, fun h => by rw [h]⟩
  exact addrToHex_inj (List.append_cancel_left (Cell.key.inj h))

@[simp] lemma receiptCell_inj {h k : Hash} : receiptCell h = receiptCell k ↔ h = k := by
  refine ⟨fun hc => ?_, fun hc => by rw [hc]⟩
  exact hashToHex_inj (List.append_cancel_left (Cell.key.inj hc))

@[simp] lemma storageCell_ne_nonceCell (a b : Address) (k : Bytes32) :
    storageCell a k ≠ nonceCell b := by
  intro h
  have hk := congrArg List.head? (Cell.field.inj h).1
  simp [storageKey, accountKey, ascii] at hk

@[simp] lemma codeCell_ne_nonceCell (a b : Address) : codeCell a ≠ nonceCell b := by
  intro h
  cases h

lemma codeCell_ne_receiptCell (a : Address) (h : Hash) : codeCell a ≠ receiptCell h := by
  intro hc
  have hk := congrArg List.head? (Cell.key.inj hc)
  simp [codeKey, receiptKey, ascii] at hk

end EvmDb.RedisState
