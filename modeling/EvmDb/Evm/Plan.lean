import EvmDb.Evm.Executor

/-!
A transaction reads first and writes afterwards.

Everything the executor reads, it reads before its first write: the overlay keeps the storage
writes back, and the nonce is written last. So `evmdb_evm_execute_tx` is a reading phase that
ends with a list of writes, and then these writes, whatever the replies to them are.
-/

namespace EvmDb.Plan

open EvmDb.Types EvmDb.Digits EvmDb.Program EvmDb.Redis EvmDb.RedisState EvmDb.Host
open EvmDb.Executor

/-- A command that reads. -/
abbrev Reads (c : Command) : Prop := c.isWrite = false

/-- What the executor reads: fields of accounts and storage, and code. -/
inductive StateReads : Command → Prop
  | hget (k f : Bytes) : StateReads (.hget k f)
  | code (addr : Address) : StateReads (.get (codeKey addr))

lemma StateReads.reads {c : Command} (h : StateReads c) : Reads c := by
  cases h <;> rfl

lemma reads_of_stateReads {α : Type} {post : α → Prop} {p : RedisProg α}
    (hp : Issues StateReads post p) : Issues Reads post p :=
  hp.mono (fun _ => StateReads.reads) fun _ => id

/-! ### The overlay -/

/-- The slot of an entry. -/
def slot (w : StorageWrite) : Address × Bytes32 := (w.address, w.key)

/-- The overlay has at most one entry for each slot. -/
def OneEntry (ctx : ExecContext) : Prop := (ctx.writes.map slot).Nodup

lemma isFor_iff {a : Address} {k : Bytes32} {w : StorageWrite} :
    w.isFor a k = true ↔ slot w = (a, k) := by
  simp [StorageWrite.isFor, slot]

lemma overwrite_eq_none {a : Address} {k v : Bytes32} {ws : List StorageWrite} :
    overwrite a k v ws = none ↔ (a, k) ∉ ws.map slot := by
  induction ws with
  | nil => simp [overwrite]
  | cons w ws ih =>
    rw [overwrite, List.map_cons, List.mem_cons, not_or, ← ih]
    by_cases h : w.isFor a k = true
    · have hs := isFor_iff.mp h
      rw [if_pos h, ← hs]
      simp
    · have hs : (a, k) ≠ slot w := fun hc => h (isFor_iff.mpr hc.symm)
      rw [if_neg h, Option.map_eq_none_iff]
      simp [hs]

/-- Overwriting an entry keeps the slots. -/
lemma overwrite_slots {a : Address} {k v : Bytes32} {ws ws' : List StorageWrite}
    (h : overwrite a k v ws = some ws') : ws'.map slot = ws.map slot := by
  induction ws generalizing ws' with
  | nil => cases h
  | cons w ws ih =>
    rw [overwrite] at h
    split_ifs at h
    · cases h
      rfl
    · obtain ⟨ws₁, h₁, rfl⟩ := Option.map_eq_some_iff.mp h
      rw [List.map_cons, ih h₁, List.map_cons]

lemma oneEntry_setWrite {realloc : ℕ → Bool} {ctx : ExecContext} (h : OneEntry ctx) (a : Address)
    (k v : Bytes32) : OneEntry (execContextSetWrite realloc ctx a k v).2 := by
  unfold execContextSetWrite
  rcases ho : overwrite a k v ctx.writes with _ | ws
  · have happ : ((ctx.writes ++ [(⟨a, k, v⟩ : StorageWrite)]).map slot).Nodup := by
      rw [List.map_append, List.nodup_append]
      refine ⟨h, List.nodup_singleton _, ?_⟩
      rintro x hx y hy rfl
      have hak : x = (a, k) := List.mem_singleton.mp hy
      exact overwrite_eq_none.mp ho (hak ▸ hx)
    simp only
    split_ifs <;> first | exact happ | exact h
  · unfold OneEntry
    rw [overwrite_slots ho]
    exact h

/-! ### The callbacks read -/

variable {env : HostEnv} {evm : Evm}

lemma issues_read {P : Command → Prop} {α β : Type} {c : Command} (hc : P c)
    (f : Option Reply → α) {post : β → Prop} {k : α → RedisProg β}
    (hk : ∀ a, Issues P post (k a)) :
    Issues P post ((do let r ← issue c; return f r : RedisProg α) >>= k) :=
  ⟨hc, fun r => hk (f r)⟩

lemma issues_currentStorage (ctx : ExecContext) (addr : Address) (key : Bytes32) {β : Type}
    {post : β → Prop} {k : Bytes32 → RedisProg β} (hk : ∀ v, Issues StateReads post (k v)) :
    Issues StateReads post (currentStorage env ctx addr key >>= k) := by
  unfold currentStorage
  split
  · exact hk _
  · exact issues_read (.hget _ _) _ hk

/-- **No callback writes to the store**, and the overlay keeps one entry for each slot. -/
lemma issues_hostInterface (c : HostCall) (ctx : ExecContext) (h : OneEntry ctx) :
    Issues StateReads (fun p => OneEntry p.2) (hostInterface env c ctx) := by
  cases c with
  | accountExists addr => exact ⟨.hget _ _, fun _ => ⟨.hget _ _, fun _ => ⟨.code _, fun _ => h⟩⟩⟩
  | getStorage addr key => exact issues_currentStorage ctx addr key fun _ => h
  | setStorage addr key value =>
    exact issues_currentStorage ctx addr key fun _ => oneEntry_setWrite h addr key value
  | copyCode addr offset size => exact ⟨.code _, fun _ => h⟩
  | getBalance addr => exact ⟨.hget _ _, fun _ => h⟩
  | getCodeSize addr => exact ⟨.code _, fun _ => h⟩
  | getCodeHash addr => exact ⟨.code _, fun _ => h⟩
  | _ => exact h

/-! ### The reading phase -/

/-- The write of an entry of the overlay. -/
def storageWrite (w : StorageWrite) : Write := (storageCell w.address w.key, bytes32ToHex w.value)

def codeWrite (addr : Address) (code : Bytes) : Write := (codeCell addr, code)

def nonceWrite (addr : Address) (nonce : UInt64) : Write :=
  (nonceCell addr, decimal nonce.toNat)

/-- What a phase ends with: the result code, the result record, and the writes to come. -/
structure Planned where
  rc : ℤ
  result : ExecResult
  writes : List Write

/-- `execute_contract` up to its first write. -/
def planContract (evm : Evm) (blockCtx : Option BlockContext) (origin sender to_ : Address)
    (data : Bytes) (value : Bytes32) (gas : UInt64) (flags : UInt32) (commitState : Bool)
    (result : ExecResult) : RedisProg Planned := do
  let code ← getCode to_
  if code.length = 0 then return ⟨0, ⟨true, 0, [], []⟩, []⟩
  else
    let (execResult, execCtx) ← interp (hostInterface evm.toHostEnv)
      (evm.execute (messageFor sender to_ data value gas flags) code) (contextFor blockCtx origin)
    let status := execResult.statusCode
    if status < 0 then return ⟨-1, result.withError (evm.statusCodeToString status), []⟩
    else
      let gasLeft := if execResult.gasLeft > 0 then execResult.gasLeft.toUInt64 else 0
      let result : ExecResult := ⟨status = 0, gas - gasLeft, execResult.output, []⟩
      if status ≠ 0 then return ⟨0, result.withError (evm.statusCodeToString status), []⟩
      else return ⟨0, result, if commitState then execCtx.writes.map storageWrite else []⟩

/-- The effects of a transaction that has passed the checks, up to the first write. -/
def planEffects (evm : Evm) (tx : Tx) (blockCtx : Option BlockContext) (currentNonce : UInt64)
    (result : ExecResult) : RedisProg Planned :=
  if tx.toIsNull then
    return ⟨0, { result with success := true, gasUsed := intrinsicGas tx.data, error := [] },
      [codeWrite (computeCreateAddress tx.fromAddr currentNonce) tx.data]⟩
  else do
    let p ← planContract evm blockCtx tx.fromAddr tx.fromAddr tx.toAddr tx.data
      (.zero 32) (tx.gasLimit - intrinsicGas tx.data) 0 true result
    if p.rc ≠ 0 then return p
    else return { p with result := { p.result with
      gasUsed := p.result.gasUsed + intrinsicGas tx.data } }

/-- What is done with the nonce in the store: the checks behind it, the effects, and the nonce
write. -/
def planNonce (evm : Evm) (tx : Tx) (blockCtx : Option BlockContext) (result : ExecResult)
    (currentNonce : UInt64) : RedisProg Planned :=
  if tx.nonce ≠ currentNonce then
    return ⟨-1, result.withError (nonceMismatch currentNonce tx.nonce), []⟩
  else if intrinsicGas tx.data > tx.gasLimit then
    return ⟨-1, result.withError (ascii "intrinsic gas too low"), []⟩
  else do
    let p ← planEffects evm tx blockCtx currentNonce { result with output := [] }
    if p.rc ≠ 0 then return p
    else return { p with rc := 0, writes := p.writes ++ [nonceWrite tx.fromAddr (currentNonce + 1)] }

/-- `evmdb_evm_execute_tx` up to its first write. -/
def planTx (evm : Evm) (tx : Tx) (blockCtx : Option BlockContext) (result : ExecResult) :
    RedisProg Planned :=
  if evm.initialized = false then
    return ⟨-1, result.withError (ascii "EVM not initialized"), []⟩
  else if chainIdRejected tx blockCtx then
    return ⟨-1, result.withError
      (chainIdMismatch ((blockCtx.map (·.chainId)).getD 0) tx.chainId), []⟩
  else getNonce tx.fromAddr >>= planNonce evm tx blockCtx result

/-- The writing phase. -/
def finish (p : Planned) : RedisProg (ℤ × ExecResult) :=
  perform p.writes >>= fun _ => .ret (p.rc, p.result)

/-! ### The two phases are the whole -/

lemma commitWrites_eq (ws : List StorageWrite) :
    commitWrites ws = perform (ws.map storageWrite) >>= fun _ => .ret 0 := by
  induction ws with
  | nil => rfl
  | cons w ws ih =>
    show Prog.cmd (storageWrite w).command (fun _ => commitWrites ws) = _
    rw [ih]
    rfl

lemma executeContract_eq (blockCtx : Option BlockContext) (origin sender to_ : Address)
    (data : Bytes) (value : Bytes32) (gas : UInt64) (flags : UInt32) (commitState : Bool)
    (result : ExecResult) :
    executeContract evm blockCtx origin sender to_ data value gas flags commitState result =
      planContract evm blockCtx origin sender to_ data value gas flags commitState result
        >>= finish := by
  unfold executeContract planContract
  simp only [bind_assoc]
  refine bind_congr fun code => ?_
  by_cases hcode : code.length = 0
  · rw [if_pos hcode, if_pos hcode]
    rfl
  rw [if_neg hcode, if_neg hcode, bind_assoc]
  refine bind_congr fun ⟨execResult, execCtx⟩ => ?_
  simp only
  by_cases hneg : execResult.statusCode < 0
  · rw [if_pos hneg, if_pos hneg]
    rfl
  rw [if_neg hneg, if_neg hneg]
  by_cases hfail : execResult.statusCode ≠ 0
  · rw [if_pos hfail, if_pos hfail]
    rfl
  rw [if_neg hfail, if_neg hfail]
  cases commitState
  · rfl
  · simp only [if_true, execContextCommit, commitWrites_eq, bind_assoc]
    rfl

lemma executeEffects_eq (tx : Tx) (blockCtx : Option BlockContext) (currentNonce : UInt64)
    (result : ExecResult) :
    executeEffects evm tx blockCtx currentNonce result =
      planEffects evm tx blockCtx currentNonce result >>= finish := by
  unfold executeEffects planEffects
  split_ifs
  · rfl
  rw [executeContract_eq, bind_assoc, bind_assoc]
  refine bind_congr fun p => ?_
  by_cases hrc : p.rc ≠ 0
  · simp only [finish, bind_assoc, Prog.ret_bind, hrc, if_true, ne_eq, not_false_eq_true]
    rfl
  · simp only [finish, bind_assoc, Prog.ret_bind, hrc, if_false]
    have h0 : p.rc = 0 := by simpa using hrc
    rw [h0]
    rfl

/-- The writing phase with one more write. -/
lemma finish_append (p : Planned) (w : Write) (rc : ℤ) :
    finish { p with rc := rc, writes := p.writes ++ [w] } =
      perform p.writes >>= fun _ => issue w.command >>= fun _ => .ret (rc, p.result) := by
  simp only [finish, perform_append, bind_assoc]
  rfl

/-- **A transaction is its reading phase and then its writes.** -/
theorem executeTx_eq (tx : Tx) (blockCtx : Option BlockContext) (result : ExecResult) :
    executeTx evm tx blockCtx result = planTx evm tx blockCtx result >>= finish := by
  unfold executeTx planTx
  by_cases hinit : evm.initialized = false
  · rw [if_pos hinit, if_pos hinit]
    rfl
  rw [if_neg hinit, if_neg hinit]
  by_cases hchain : chainIdRejected tx blockCtx = true
  · rw [if_pos hchain, if_pos hchain]
    rfl
  rw [if_neg hchain, if_neg hchain, bind_assoc]
  refine bind_congr fun currentNonce => ?_
  unfold planNonce
  by_cases hnonce : tx.nonce ≠ currentNonce
  · rw [if_pos hnonce, if_pos hnonce]
    rfl
  rw [if_neg hnonce, if_neg hnonce]
  by_cases hgas : intrinsicGas tx.data > tx.gasLimit
  · rw [if_pos hgas, if_pos hgas]
    rfl
  rw [if_neg hgas, if_neg hgas, executeEffects_eq, bind_assoc, bind_assoc]
  refine bind_congr fun p => ?_
  by_cases hrc : p.rc ≠ 0
  · simp only [finish, bind_assoc, Prog.ret_bind, hrc, if_true, ne_eq, not_false_eq_true]
    rfl
  · rw [if_neg hrc]
    show finish p >>= _ = finish _
    rw [finish_append, finish, bind_assoc]
    refine bind_congr fun _ => ?_
    rw [Prog.ret_bind]
    exact if_neg hrc

/-! ### What is planned -/

/-- A cell of a contract's code or storage. -/
def IsEffect (c : Cell) : Prop := (∃ a, c = codeCell a) ∨ ∃ a k, c = storageCell a k

/-- A phase that fails writes nothing, and the writes concern different contract cells. -/
structure EffectsOk (p : Planned) : Prop where
  failed : p.rc ≠ 0 → p.writes = []
  effects : ∀ w ∈ p.writes, IsEffect w.1
  nodup : (p.writes.map Prod.fst).Nodup

/-- What the reading phase of a transaction ends with: nothing to write, or some effects and at
last the nonce. -/
inductive TxOk (tx : Tx) (p : Planned) : Prop
  | rejected (hrc : p.rc ≠ 0) (hws : p.writes = [])
  | executed (hrc : p.rc = 0) (effects : List Write)
    (hws : p.writes = effects ++ [nonceWrite tx.fromAddr (tx.nonce + 1)])
    (heffects : ∀ w ∈ effects, IsEffect w.1) (hnodup : (effects.map Prod.fst).Nodup)

lemma effectsOk_nil (rc : ℤ) (result : ExecResult) : EffectsOk ⟨rc, result, []⟩ :=
  ⟨fun _ => rfl, by simp, List.nodup_nil⟩

lemma effectsOk_overlay {ctx : ExecContext} (h : OneEntry ctx) (result : ExecResult) :
    EffectsOk ⟨0, result, ctx.writes.map storageWrite⟩ := by
  refine ⟨fun h0 => absurd rfl h0, ?_, ?_⟩
  · intro w hw
    obtain ⟨e, -, rfl⟩ := List.mem_map.mp hw
    exact Or.inr ⟨e.address, e.key, rfl⟩
  · have hcell : (ctx.writes.map storageWrite).map Prod.fst =
        (ctx.writes.map slot).map fun s => storageCell s.1 s.2 := by
      rw [List.map_map, List.map_map]
      rfl
    show ((ctx.writes.map storageWrite).map Prod.fst).Nodup
    rw [hcell]
    refine h.map ?_
    rintro ⟨a, k⟩ ⟨b, l⟩ hab
    obtain ⟨ha, hk⟩ := storageCell_inj.mp hab
    exact Prod.ext ha hk

/-- A contract ends with nothing to write, or with what is in the overlay if that is committed. -/
lemma issues_planContract_of {post : Planned → Prop}
    (hnil : ∀ rc result, post ⟨rc, result, []⟩)
    (blockCtx : Option BlockContext) (origin sender to_ : Address) (data : Bytes)
    (value : Bytes32) (gas : UInt64) (flags : UInt32) (commitState : Bool)
    (hoverlay : commitState = true → ∀ ctx, OneEntry ctx →
      ∀ result, post ⟨0, result, ctx.writes.map storageWrite⟩) (result : ExecResult) :
    Issues StateReads post
      (planContract evm blockCtx origin sender to_ data value gas flags commitState result) := by
  refine issues_read (.code _) _ fun code => ?_
  by_cases hcode : code.length = 0
  · rw [if_pos hcode]
    exact hnil _ _
  rw [if_neg hcode]
  have hctx : OneEntry (contextFor blockCtx origin) := List.nodup_nil
  refine (issues_interp issues_hostInterface _ hctx).bind ?_
  rintro ⟨execResult, execCtx⟩ hone
  by_cases hneg : execResult.statusCode < 0
  · simp only [if_pos hneg]
    exact hnil _ _
  by_cases hfail : execResult.statusCode ≠ 0
  · simp only [if_neg hneg, if_pos hfail]
    exact hnil _ _
  simp only [if_neg hneg, if_neg hfail]
  cases commitState
  · exact hnil _ _
  · exact hoverlay rfl execCtx hone _

lemma issues_planContract (blockCtx : Option BlockContext) (origin sender to_ : Address)
    (data : Bytes) (value : Bytes32) (gas : UInt64) (flags : UInt32) (commitState : Bool)
    (result : ExecResult) :
    Issues StateReads EffectsOk
      (planContract evm blockCtx origin sender to_ data value gas flags commitState result) :=
  issues_planContract_of effectsOk_nil _ _ _ _ _ _ _ _ _ (fun _ _ hone => effectsOk_overlay hone) _

lemma issues_planEffects (tx : Tx) (blockCtx : Option BlockContext) (currentNonce : UInt64)
    (result : ExecResult) :
    Issues StateReads EffectsOk (planEffects evm tx blockCtx currentNonce result) := by
  unfold planEffects
  split_ifs
  · refine ⟨fun h0 => absurd rfl h0, ?_, List.nodup_singleton _⟩
    intro w hw
    rw [List.mem_singleton.mp hw]
    exact Or.inl ⟨_, rfl⟩
  · refine (issues_planContract blockCtx _ _ _ _ _ _ _ _ _).bind fun p hp => ?_
    split_ifs
    · exact hp
    · exact ⟨hp.failed, hp.effects, hp.nodup⟩

lemma issues_planNonce (tx : Tx) (blockCtx : Option BlockContext) (result : ExecResult)
    (currentNonce : UInt64) :
    Issues StateReads (TxOk tx) (planNonce evm tx blockCtx result currentNonce) := by
  unfold planNonce
  split_ifs with hnonce hgas
  · exact .rejected (by simp) rfl
  · exact .rejected (by simp) rfl
  · rw [ne_eq, Decidable.not_not] at hnonce
    refine (issues_planEffects tx blockCtx _ _).bind fun p hp => ?_
    split_ifs with hrc
    · exact .rejected hrc (hp.failed hrc)
    · exact .executed rfl p.writes (by rw [hnonce]) hp.effects hp.nodup

/-- **The reading phase of a transaction**: it changes nothing, and ends with a rejection or with
a list of writes that the nonce write closes. -/
theorem issues_planTx (tx : Tx) (blockCtx : Option BlockContext) (result : ExecResult) :
    Issues StateReads (TxOk tx) (planTx evm tx blockCtx result) := by
  unfold planTx
  split_ifs
  · exact .rejected (by simp) rfl
  · exact .rejected (by simp) rfl
  · exact issues_read (.hget _ _) _ fun n => issues_planNonce tx blockCtx result n

/-- **When a transaction is executed**: it passes the four checks, and its effects do not fail. -/
theorem run_planTx_rc {σ : Type} (h : Handler Command (fun _ => Option Reply) σ) (tx : Tx)
    (blockCtx : Option BlockContext) (result : ExecResult) (s : σ) :
    (run h (planTx evm tx blockCtx result) s).1.rc = 0 ↔
      evm.initialized = true ∧ chainIdRejected tx blockCtx = false ∧
        tx.nonce = (run h (getNonce tx.fromAddr) s).1 ∧ intrinsicGas tx.data ≤ tx.gasLimit ∧
          (run h (planEffects evm tx blockCtx tx.nonce { result with output := [] })
            (run h (getNonce tx.fromAddr) s).2).1.rc = 0 := by
  unfold planTx
  split_ifs with hinit hchain
  · simp [hinit]
  · simp [hchain]
  rw [run_bind]
  obtain ⟨n, s'⟩ := run h (getNonce tx.fromAddr) s
  unfold planNonce
  split_ifs with hnonce hgas
  · simp [hnonce]
  · simp [UInt64.not_le.mpr hgas]
  · rw [ne_eq, Decidable.not_not] at hnonce
    simp only [hinit, hchain, UInt64.not_lt.mp hgas, hnonce, true_and, run_bind]
    split_ifs with hrc
    · simp [hrc]
    · simpa using hrc

/-- The plan of a transaction that is executed: its effects, and then the nonce. -/
lemma run_planTx_eq {σ : Type} (h : Handler Command (fun _ => Option Reply) σ) (tx : Tx)
    (blockCtx : Option BlockContext) (result : ExecResult) (s : σ)
    (hrc : (run h (planTx evm tx blockCtx result) s).1.rc = 0) :
    (run h (planTx evm tx blockCtx result) s).1 =
      let p := (run h (planEffects evm tx blockCtx tx.nonce { result with output := [] })
        (run h (getNonce tx.fromAddr) s).2).1
      ⟨0, p.result, p.writes ++ [nonceWrite tx.fromAddr (tx.nonce + 1)]⟩ := by
  obtain ⟨hinit, hchain, hnonce, hgas, heff⟩ := (run_planTx_rc h tx blockCtx result s).mp hrc
  unfold planTx
  rw [if_neg (by simp [hinit]), if_neg (by simp [hchain]), run_bind]
  generalize run h (getNonce tx.fromAddr) s = x at hnonce heff
  obtain ⟨n, s'⟩ := x
  cases hnonce
  unfold planNonce
  rw [if_neg (not_not_intro rfl), if_neg (UInt64.not_lt.mpr hgas), run_bind,
    if_neg (not_not_intro heff)]
  rfl

/-- The nonce the store has for an account. -/
def storedNonce (s : Store) (addr : Address) : UInt64 :=
  numberOf (some (.ofCell (s (nonceCell addr))))

lemma storedNonce_of_cell {s : Store} {addr : Address} {nonce : UInt64}
    (h : s (nonceCell addr) = some (decimal nonce.toNat)) : storedNonce s addr = nonce := by
  unfold storedNonce
  rw [h]
  exact strtoull_decimal nonce

/-- The stored nonces as counters. -/
def nonces (s : Store) : Address → ℕ := fun addr => (storedNonce s addr).toNat

/-- The next nonce, unless it wraps. -/
lemma toNat_succ {n : UInt64} (h : n.toNat < 2 ^ 64 - 1) : (n + 1).toNat = n.toNat + 1 := by
  rw [UInt64.toNat_add, UInt64.toNat_one, Nat.mod_eq_of_lt (by omega)]

lemma run_getNonce (addr : Address) (s : Store) :
    run server (getNonce addr) s = (storedNonce s addr, s) := rfl

/-- Only the sender's nonce changes, and only if the transaction is executed. -/
lemma TxOk.storedNonce_puts {tx : Tx} {p : Planned} (h : TxOk tx p) (s : Store)
    (addr : Address) :
    storedNonce (puts p.writes s) addr =
      if p.rc = 0 ∧ addr = tx.fromAddr then tx.nonce + 1 else storedNonce s addr := by
  cases h with
  | rejected hrc hws =>
    rw [if_neg fun hc => hrc hc.1, hws]
    rfl
  | executed hrc effects hws heffects hnodup =>
    have hne : nonceCell addr ∉ effects.map Prod.fst := by
      intro hmem
      obtain ⟨w, hw, hcell⟩ := List.mem_map.mp hmem
      rcases heffects w hw with ⟨a, ha⟩ | ⟨a, k, ha⟩
      · exact codeCell_ne_nonceCell a addr (ha ▸ hcell)
      · exact storageCell_ne_nonceCell a addr k (ha ▸ hcell)
    rw [hws, puts_append]
    by_cases haddr : addr = tx.fromAddr
    · rw [if_pos ⟨hrc, haddr⟩, haddr]
      exact storedNonce_of_cell (put_same _ _ _)
    · rw [if_neg fun hc => haddr hc.2]
      unfold storedNonce
      rw [puts_of_notMem (by simpa [nonceWrite] using haddr), puts_of_notMem hne]

/-- **A transaction on a server that does not fail**: the planned writes, all of them. -/
theorem run_executeTx (tx : Tx) (blockCtx : Option BlockContext) (result : ExecResult)
    (s : Store) :
    let p := (run server (planTx evm tx blockCtx result) s).1
    run server (executeTx evm tx blockCtx result) s = ((p.rc, p.result), puts p.writes s) := by
  intro p
  rw [executeTx_eq, run_bind,
    (run_reads (reads_of_stateReads (issues_planTx tx blockCtx result)) s).1, finish,
    run_bind, run_perform, run_ret]

/-- The writes of a transaction concern different cells. -/
lemma TxOk.nodup {tx : Tx} {p : Planned} (h : TxOk tx p) : (p.writes.map Prod.fst).Nodup := by
  cases h with
  | rejected hrc hws => rw [hws]; exact List.nodup_nil
  | executed hrc effects hws heffects hnodup =>
    rw [hws, List.map_append, List.nodup_append]
    refine ⟨hnodup, List.nodup_singleton _, ?_⟩
    rintro c hc d hd rfl
    obtain ⟨w, hw, rfl⟩ := List.mem_map.mp hc
    have hn : w.1 = nonceCell tx.fromAddr := List.mem_singleton.mp hd
    rcases heffects w hw with ⟨a, ha⟩ | ⟨a, k, ha⟩
    · exact codeCell_ne_nonceCell a tx.fromAddr (ha ▸ hn)
    · exact storageCell_ne_nonceCell a tx.fromAddr k (ha ▸ hn)

end EvmDb.Plan
