import EvmDb.State.RedisState

/-!
The layout of the state in the store.

The state has components of different kinds, each a value that is zero or empty at first. Every
component has a cell of its own, so setting one does not touch the others.
-/

namespace EvmDb.StateLayout

open EvmDb.Types EvmDb.Digits EvmDb.Hex EvmDb.Program EvmDb.Redis EvmDb.RedisState

/-! ### The abstract state -/

inductive Component
  | nonce (addr : Address)
  | balance (addr : Address)
  | codeHash (addr : Address)
  | storage (addr : Address) (key : Bytes32)
  | code (addr : Address)
  | receipt (txHash : Hash)
  | blockNumber
  deriving DecidableEq

abbrev Component.Value : Component → Type
  | .nonce _ | .blockNumber => UInt64
  | .balance _ | .codeHash _ | .storage _ _ => Bytes32
  | .code _ | .receipt _ => Bytes

/-- A value for every component. -/
abbrev State := (c : Component) → c.Value

/-- The state in which nothing was ever set. -/
def State.initial : State
  | .nonce _ | .blockNumber => (0 : UInt64)
  | .balance _ | .codeHash _ | .storage _ _ => FixedBytes.zero 32
  | .code _ | .receipt _ => ([] : Bytes)

/-- A call of one of the `evmdb_state_set_*` functions. -/
inductive SetOp
  | account (acct : Account)
  | balance (addr : Address) (value : Bytes32)
  | nonce (addr : Address) (value : UInt64)
  | storage (addr : Address) (key value : Bytes32)
  | code (addr : Address) (data : Bytes)
  | receipt (txHash : Hash) (data : Bytes)
  | blockNumber (number : UInt64)

def SetOp.program : SetOp → RedisProg ℤ
  | .account acct => setAccount acct
  | .balance addr value => setBalance addr value
  | .nonce addr value => setNonce addr value
  | .storage addr key value => setStorage addr key value
  | .code addr data => setCode addr data
  | .receipt txHash data => setReceipt txHash data
  | .blockNumber number => setBlockNumber number

/-- The components a call sets: an account is its nonce, its balance and its code hash. -/
def SetOp.sets : SetOp → List ((c : Component) × c.Value)
  | .account acct =>
    [⟨.nonce acct.address, acct.nonce⟩, ⟨.balance acct.address, acct.balance⟩,
      ⟨.codeHash acct.address, acct.codeHash⟩]
  | .balance addr value => [⟨.balance addr, value⟩]
  | .nonce addr value => [⟨.nonce addr, value⟩]
  | .storage addr key value => [⟨.storage addr key, value⟩]
  | .code addr data => [⟨.code addr, data⟩]
  | .receipt txHash data => [⟨.receipt txHash, data⟩]
  | .blockNumber number => [⟨.blockNumber, number⟩]

/-- Some calls, one after the other. -/
def performAll : List SetOp → RedisProg Unit
  | [] => return ()
  | op :: ops => do
    let _ ← op.program
    performAll ops

/-- The state after some calls: for every component, what it was set to last. -/
def stateAfter (ops : List SetOp) : State := Layout.assign (ops.flatMap SetOp.sets) State.initial

/-! ### The cells of the components -/

def balanceCell (addr : Address) : Cell := .field (accountKey addr) (ascii "balance")
def codeHashCell (addr : Address) : Cell := .field (accountKey addr) (ascii "codehash")

def Component.cell : Component → Cell
  | .nonce addr => nonceCell addr
  | .balance addr => balanceCell addr
  | .codeHash addr => codeHashCell addr
  | .storage addr key => storageCell addr key
  | .code addr => codeCell addr
  | .receipt txHash => receiptCell txHash
  | .blockNumber => blockCell

def Component.encode : (c : Component) → c.Value → Bytes
  | .nonce _, n | .blockNumber, n => decimal (UInt64.toNat n)
  | .balance _, w | .codeHash _, w | .storage _ _, w => bytes32ToHex w
  | .code _, bs | .receipt _, bs => bs

/-- What is read from a cell, words being decoded into the memory at `out`. -/
def Component.decode (out : Bytes32) : (c : Component) → Option Bytes → c.Value
  | .nonce _, v | .blockNumber, v => numberOf (some (.ofCell v))
  | .balance _, v | .codeHash _, v | .storage _ _, v => wordOf out (some (.ofCell v))
  | .code _, v | .receipt _, v => bytesOf (some (.ofCell v))

/-- The first characters of a cell's key and field. -/
def initials : Cell → Option UInt8 × Option UInt8
  | .key k => (k.head?, none)
  | .field k f => (k.head?, f.head?)

/-- What kind of component has a cell can be seen from its initials. -/
lemma initials_cell (c : Component) :
    initials c.cell = match c with
      | .nonce _ => (some 97, some 110)
      | .balance _ => (some 97, some 98)
      | .codeHash _ => (some 97, some 99)
      | .storage _ _ => (some 115, some 48)
      | .code _ => (some 99, none)
      | .receipt _ => (some 114, none)
      | .blockNumber => (some 98, none) := by
  cases c
  case storage addr key =>
    show (some 115, (bytes32ToHex key).head?) = _
    rw [bytes32ToHex_eq]
    rfl
  all_goals rfl

/-- **Every component has a cell of its own.** -/
theorem cell_injective : Function.Injective Component.cell := by
  intro c d h
  have hm := congrArg initials h
  rw [initials_cell, initials_cell] at hm
  -- components of different kinds have different initials
  cases c <;> cases d <;> dsimp only at hm <;> try exact absurd hm (by decide)
  case nonce.nonce a b => rw [nonceCell_inj.mp h]
  case balance.balance a b =>
    rw [addrToHex_inj (List.append_cancel_left (Cell.field.inj h).1)]
  case codeHash.codeHash a b =>
    rw [addrToHex_inj (List.append_cancel_left (Cell.field.inj h).1)]
  case storage.storage a k b l =>
    obtain ⟨rfl, rfl⟩ := storageCell_inj.mp h
    rfl
  case code.code a b => rw [codeCell_inj.mp h]
  case receipt.receipt a b => rw [hashToHex_inj (List.append_cancel_left (Cell.key.inj h))]
  case blockNumber.blockNumber => rfl

/-- The layout, when words are decoded into the memory at `out`. -/
def layout (out : Bytes32) : Layout Component Component.Value where
  cell := Component.cell
  encode := Component.encode
  decode := Component.decode out
  cell_inj := cell_injective
  decode_encode c v := by
    cases c with
    | nonce | blockNumber => exact strtoull_decimal v
    | balance | codeHash | storage => exact wordOf_bytes32ToHex out v
    | code | receipt => rfl

/-! ### The store implements the state -/

/-- A call writes the components it sets. -/
lemma run_setOp (op : SetOp) (out : Bytes32) (s : Store) :
    run server op.program s = (0, puts (op.sets.map (layout out).write) s) := by
  cases op <;> rfl

lemma run_performAll (ops : List SetOp) (out : Bytes32) (s : Store) :
    run server (performAll ops) s =
      ((), puts ((ops.flatMap SetOp.sets).map (layout out).write) s) := by
  induction ops generalizing s with
  | nil => rfl
  | cons op ops ih =>
    rw [performAll, run_bind, run_setOp op out, ih, List.flatMap_cons, List.map_append,
      puts_append]

lemma view_initial (out : Bytes32) : (layout out).view (fun _ => none) = State.initial := by
  funext c
  cases c <;> rfl

/-- After some calls on an empty store, every component has the value of the state. -/
lemma view_performAll (ops : List SetOp) (out : Bytes32) (c : Component) :
    (layout out).view (run server (performAll ops) fun _ => none).2 c = stateAfter ops c := by
  rw [run_performAll ops out, Layout.view_puts, view_initial]
  rfl

/-- **The layout implements the state.** After any calls that set components, on an empty store,
every getter returns what its component was set to last, whatever is in the memory it decodes
into, and leaves the store as it is. -/
theorem layout_implements (ops : List SetOp) :
    let s := (run server (performAll ops) fun _ => none).2
    (∀ addr, run server (getNonce addr) s = (stateAfter ops (.nonce addr), s)) ∧
      (∀ addr out, run server (getBalance addr out) s = (stateAfter ops (.balance addr), s)) ∧
      (∀ addr key out,
        run server (getStorage addr key out) s = (stateAfter ops (.storage addr key), s)) ∧
      (∀ addr, run server (getCode addr) s = (stateAfter ops (.code addr), s)) ∧
      (∀ txHash, run server (getReceipt txHash) s = (stateAfter ops (.receipt txHash), s)) ∧
      run server getBlockNumber s = (stateAfter ops .blockNumber, s) ∧
      ∀ addr out, run server (getAccount addr out) s =
        (⟨addr, stateAfter ops (.nonce addr), stateAfter ops (.balance addr),
          stateAfter ops (.codeHash addr)⟩, s) := by
  intro s
  have hview : ∀ out c, Component.decode out c (s c.cell) = stateAfter ops c :=
    fun out c => view_performAll ops out c
  refine ⟨fun addr => ?_, fun addr out => ?_, fun addr key out => ?_, fun addr => ?_,
    fun txHash => ?_, ?_, fun addr out => ?_⟩
  · exact Prod.ext (hview (.zero 32) (.nonce addr)) rfl
  · exact Prod.ext (hview out (.balance addr)) rfl
  · exact Prod.ext (hview out (.storage addr key)) rfl
  · exact Prod.ext (hview (.zero 32) (.code addr)) rfl
  · exact Prod.ext (hview (.zero 32) (.receipt txHash)) rfl
  · exact Prod.ext (hview (.zero 32) .blockNumber) rfl
  · refine Prod.ext ?_ rfl
    show Account.mk addr (Component.decode (.zero 32) (.nonce addr) (s (nonceCell addr)))
      (Component.decode out.balance (.balance addr) (s (balanceCell addr)))
      (Component.decode out.codeHash (.codeHash addr) (s (codeHashCell addr))) = _
    rw [show nonceCell addr = Component.cell (.nonce addr) from rfl,
      show balanceCell addr = Component.cell (.balance addr) from rfl,
      show codeHashCell addr = Component.cell (.codeHash addr) from rfl, hview, hview, hview]

end EvmDb.StateLayout
