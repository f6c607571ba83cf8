import EvmDb.Evm.Plan

/-!
What the execution of a transaction comes to.

A contract is run against the store, and what it writes last to a slot is what the slot holds
afterwards, if it ends well. That this is kept in an overlay meanwhile does not show.
-/

namespace EvmDb.Effects

open EvmDb.Types EvmDb.Digits EvmDb.Program EvmDb.Redis EvmDb.RedisState EvmDb.Host
open EvmDb.Executor EvmDb.Plan

/-! ### The purpose of an execution -/

/-- What an execution comes to: the code that is stored, and the values of the slots that are
written. -/
structure Outcome where
  success : Bool
  gasUsed : UInt64
  code : Option Bytes
  slots : Address → Bytes32 → Option Bytes32

/-- What a callback makes of the value written to a slot. -/
def writtenBy (addr : Address) (key : Bytes32) (value : Option Bytes32) : HostCall → Option Bytes32
  | .setStorage a k v => if (a, k) = (addr, key) then some v else value
  | _ => value

/-- The value a slot is given by the last of some callbacks that writes to it. -/
def lastWritten (calls : List HostCall) (addr : Address) (key : Bytes32) : Option Bytes32 :=
  calls.foldl (writtenBy addr key) none

/-- The callbacks of an interpreter, on a server that does not fail. -/
abbrev hostHandler (env : HostEnv) : Handler HostCall HostCall.Answer (ExecContext × Store) :=
  through server (hostInterface env)

/-- The code at an address. -/
def storedCode (s : Store) (addr : Address) : Bytes :=
  bytesOf (some (.ofCell (s (codeCell addr))))

/-- How a contract's run against the store ends. -/
def contractResult (evm : Evm) (tx : Tx) (blockCtx : Option BlockContext) (s : Store) :
    EvmcResult :=
  (run (hostHandler evm.toHostEnv)
    (evm.execute (messageFor tx.fromAddr tx.toAddr tx.data (.zero 32)
      (tx.gasLimit - intrinsicGas tx.data) 0) (storedCode s tx.toAddr))
    (contextFor blockCtx tx.fromAddr, s)).1

/-- The callbacks a contract's run issues. -/
def contractCalls (evm : Evm) (tx : Tx) (blockCtx : Option BlockContext) (s : Store) :
    List HostCall :=
  trace (hostHandler evm.toHostEnv)
    (evm.execute (messageFor tx.fromAddr tx.toAddr tx.data (.zero 32)
      (tx.gasLimit - intrinsicGas tx.data) 0) (storedCode s tx.toAddr))
    (contextFor blockCtx tx.fromAddr, s)

/-- The outcome of a transaction that is executed: contract creation stores the calldata; a call
to an address without code does nothing; a contract's writes count if it succeeds. -/
def outcome (evm : Evm) (tx : Tx) (blockCtx : Option BlockContext) (s : Store) : Outcome :=
  if tx.toIsNull then ⟨true, intrinsicGas tx.data, some tx.data, fun _ _ => none⟩
  else if storedCode s tx.toAddr = [] then ⟨true, intrinsicGas tx.data, none, fun _ _ => none⟩
  else
    let r := contractResult evm tx blockCtx s
    let gas := tx.gasLimit - intrinsicGas tx.data
    let gasLeft := if r.gasLeft > 0 then r.gasLeft.toUInt64 else 0
    ⟨r.statusCode = 0, gas - gasLeft + intrinsicGas tx.data, none,
      if r.statusCode = 0 then lastWritten (contractCalls evm tx blockCtx s)
      else fun _ _ => none⟩

lemma outcome_code (evm : Evm) (tx : Tx) (blockCtx : Option BlockContext) (s : Store) :
    (outcome evm tx blockCtx s).code = if tx.toIsNull then some tx.data else none := by
  unfold outcome
  split_ifs <;> rfl

/-- The store has changed as the outcome says, and nowhere else. -/
structure Realises (o : Outcome) (contract : Address) (s s' : Store) : Prop where
  code : s' (codeCell contract) = o.code.or (s (codeCell contract))
  slots : ∀ addr key,
    s' (storageCell addr key) = ((o.slots addr key).map bytes32ToHex).or (s (storageCell addr key))
  rest : ∀ c, c ≠ codeCell contract → (∀ addr key, c ≠ storageCell addr key) → s' c = s c

/-! ### The overlay keeps what was written last -/

/-- With one entry for each slot, the entry is what is read. -/
lemma getWrite_eq_some {ctx : ExecContext} (h : OneEntry ctx) {a : Address} {k v : Bytes32} :
    execContextGetWrite ctx a k = some v ↔ (⟨a, k, v⟩ : StorageWrite) ∈ ctx.writes := by
  unfold execContextGetWrite
  rw [Option.map_eq_some_iff]
  constructor
  · rintro ⟨w, hw, rfl⟩
    have hslot := isFor_iff.mp (List.find?_some hw)
    have hmem := List.mem_reverse.mp (List.mem_of_find?_eq_some hw)
    obtain ⟨rfl, rfl⟩ := Prod.mk.inj hslot
    exact hmem
  · intro hmem
    obtain ⟨w, hw⟩ : ∃ w, ctx.writes.reverse.find? (·.isFor a k) = some w := by
      apply Option.isSome_iff_exists.mp
      rw [List.find?_isSome]
      exact ⟨_, List.mem_reverse.mpr hmem, isFor_iff.mpr rfl⟩
    have hslot := isFor_iff.mp (List.find?_some hw)
    have hw' := List.mem_reverse.mp (List.mem_of_find?_eq_some hw)
    have heq : w = ⟨a, k, v⟩ := List.inj_on_of_nodup_map h hw' hmem hslot
    exact ⟨w, hw, by rw [heq]⟩

lemma mem_overwrite {a : Address} {k v : Bytes32} {ws ws' : List StorageWrite}
    (h : (ws.map slot).Nodup) (ho : overwrite a k v ws = some ws') (w : StorageWrite) :
    w ∈ ws' ↔ w = ⟨a, k, v⟩ ∨ (slot w ≠ (a, k) ∧ w ∈ ws) := by
  induction ws generalizing ws' with
  | nil => cases ho
  | cons x xs ih =>
    obtain ⟨hx, hnd⟩ := List.nodup_cons.mp h
    rw [overwrite] at ho
    split_ifs at ho with hfor
    · cases ho
      have hslot := isFor_iff.mp hfor
      obtain ⟨rfl, rfl⟩ := Prod.mk.inj hslot
      rw [List.mem_cons, List.mem_cons]
      refine or_congr_right ⟨fun hw => ⟨fun hc => hx ?_, Or.inr hw⟩, ?_⟩
      · exact List.mem_map.mpr ⟨w, hw, hc⟩
      · rintro ⟨hne, rfl | hw⟩
        · exact absurd rfl hne
        · exact hw
    · obtain ⟨ys, hys, rfl⟩ := Option.map_eq_some_iff.mp ho
      rw [List.mem_cons, List.mem_cons, ih hnd hys]
      have hne : slot x ≠ (a, k) := fun hc => hfor (isFor_iff.mpr hc)
      constructor
      · rintro (rfl | rfl | ⟨hw, hmem⟩)
        · exact Or.inr ⟨hne, Or.inl rfl⟩
        · exact Or.inl rfl
        · exact Or.inr ⟨hw, Or.inr hmem⟩
      · rintro (rfl | ⟨hw, rfl | hmem⟩)
        · exact Or.inr (Or.inl rfl)
        · exact Or.inl rfl
        · exact Or.inr (Or.inr ⟨hw, hmem⟩)

/-- An overlay that can grow takes every write. -/
lemma mem_setWrite {realloc : ℕ → Bool} (hr : ∀ n, realloc n = true) {ctx : ExecContext}
    (h : OneEntry ctx) (a : Address) (k v : Bytes32) (w : StorageWrite) :
    w ∈ (execContextSetWrite realloc ctx a k v).2.writes ↔
      w = ⟨a, k, v⟩ ∨ (slot w ≠ (a, k) ∧ w ∈ ctx.writes) := by
  unfold execContextSetWrite
  rcases ho : overwrite a k v ctx.writes with _ | ws
  · have hout := overwrite_eq_none.mp ho
    have happ : w ∈ ctx.writes ++ [(⟨a, k, v⟩ : StorageWrite)] ↔
        w = ⟨a, k, v⟩ ∨ (slot w ≠ (a, k) ∧ w ∈ ctx.writes) := by
      rw [List.mem_append, List.mem_singleton, or_comm]
      refine or_congr_right ⟨fun hw => ⟨fun hc => hout ?_, hw⟩, fun hw => hw.2⟩
      exact List.mem_map.mpr ⟨w, hw, hc⟩
    simp only [hr, if_true]
    split_ifs <;> exact happ
  · exact mem_overwrite h ho w

lemma getWrite_setWrite {realloc : ℕ → Bool} (hr : ∀ n, realloc n = true) {ctx : ExecContext}
    (h : OneEntry ctx) (a b : Address) (k l v : Bytes32) :
    execContextGetWrite (execContextSetWrite realloc ctx a k v).2 b l =
      if (a, k) = (b, l) then some v else execContextGetWrite ctx b l := by
  have h' := @oneEntry_setWrite realloc ctx h a k v
  ext u
  rw [getWrite_eq_some h', mem_setWrite hr h]
  by_cases hs : (a, k) = (b, l)
  · obtain ⟨rfl, rfl⟩ := Prod.mk.inj hs
    rw [if_pos rfl]
    simp [slot, eq_comm]
  · rw [if_neg hs, getWrite_eq_some h]
    have hne : (⟨b, l, u⟩ : StorageWrite) ≠ ⟨a, k, v⟩ := by
      intro hc
      cases hc
      exact hs rfl
    simp [slot, hne, Ne.symm hs]

variable {evm : Evm} {env : HostEnv}

/-- The overlay after a callback. -/
lemma hostHandler_step (hr : ∀ n, env.realloc n = true) {ctx : ExecContext} (h : OneEntry ctx)
    (s : Store) (c : HostCall) :
    (hostHandler env (ctx, s) c).2.2 = s ∧ OneEntry (hostHandler env (ctx, s) c).2.1 ∧
      ∀ a k, execContextGetWrite (hostHandler env (ctx, s) c).2.1 a k =
        writtenBy a k (execContextGetWrite ctx a k) c := by
  obtain ⟨hs, hone⟩ := run_reads (reads_of_stateReads (@issues_hostInterface env c ctx h)) s
  refine ⟨hs, hone, fun a k => ?_⟩
  cases c with
  | setStorage b l v =>
    have hctx : (hostHandler env (ctx, s) (.setStorage b l v)).2.1 =
        (execContextSetWrite env.realloc ctx b l v).2 := by
      show (run server (hostSetStorage env ctx b l v) s).1.2 = _
      unfold hostSetStorage
      rw [run_bind]
      rfl
    rw [hctx, getWrite_setWrite hr h]
    rfl
  | getStorage b l =>
    have hctx : (hostHandler env (ctx, s) (.getStorage b l)).2.1 = ctx := by
      show (run server (currentStorage env ctx b l >>= fun v => .ret (v, ctx)) s).1.2 = ctx
      rw [run_bind]
      rfl
    rw [hctx]
    rfl
  | _ => rfl

/-- The overlay after some callbacks: for each slot, what was written last. -/
lemma overlay_of_calls (hr : ∀ n, env.realloc n = true) (calls : List HostCall)
    {ctx : ExecContext} (h : OneEntry ctx) (s : Store) :
    (calls.foldl (fun x c => (hostHandler env x c).2) (ctx, s)).2 = s ∧
      OneEntry (calls.foldl (fun x c => (hostHandler env x c).2) (ctx, s)).1 ∧
      ∀ a k, execContextGetWrite (calls.foldl (fun x c => (hostHandler env x c).2) (ctx, s)).1 a k =
        calls.foldl (writtenBy a k) (execContextGetWrite ctx a k) := by
  induction calls generalizing ctx with
  | nil => exact ⟨rfl, h, fun _ _ => rfl⟩
  | cons c calls ih =>
    obtain ⟨hs, hone, hget⟩ := hostHandler_step hr h s c
    have hpair : (hostHandler env (ctx, s) c).2 = ((hostHandler env (ctx, s) c).2.1, s) :=
      Prod.ext rfl hs
    simp only [List.foldl_cons]
    rw [hpair]
    obtain ⟨hs', hone', hget'⟩ := ih hone
    refine ⟨hs', hone', fun a k => ?_⟩
    rw [hget', hget]

/-! ### The commit -/

/-- Committing the overlay changes the slots it has entries for. -/
lemma puts_overlay {ctx : ExecContext} (h : OneEntry ctx) (s : Store) (a : Address)
    (k : Bytes32) :
    puts (ctx.writes.map storageWrite) s (storageCell a k) =
      ((execContextGetWrite ctx a k).map bytes32ToHex).or (s (storageCell a k)) := by
  rcases hget : execContextGetWrite ctx a k with _ | v
  · rw [puts_of_notMem]
    · rfl
    · intro hmem
      obtain ⟨w, hw, hcell⟩ := List.mem_map.mp hmem
      obtain ⟨e, he, rfl⟩ := List.mem_map.mp hw
      obtain ⟨rfl, rfl⟩ := storageCell_inj.mp hcell
      rw [(getWrite_eq_some h).mpr he] at hget
      cases hget
  · have hmem : storageWrite ⟨a, k, v⟩ ∈ ctx.writes.map storageWrite :=
      List.mem_map.mpr ⟨_, (getWrite_eq_some h).mp hget, rfl⟩
    exact puts_of_mem (effectsOk_overlay h .zero).nodup hmem s

lemma realises_nothing (success : Bool) (gasUsed : UInt64) (contract : Address) (s : Store) :
    Realises ⟨success, gasUsed, none, fun _ _ => none⟩ contract s s :=
  ⟨rfl, fun _ _ => rfl, fun _ _ _ => rfl⟩

lemma realises_code (success : Bool) (gasUsed : UInt64) (code : Bytes) (contract : Address)
    (s : Store) :
    Realises ⟨success, gasUsed, some code, fun _ _ => none⟩ contract s
      (put s (codeCell contract) code) :=
  ⟨put_same _ _ _, fun _ _ => put_of_ne _ _ nofun, fun _ hc _ => put_of_ne _ _ hc⟩

lemma realises_overlay {ctx : ExecContext} (h : OneEntry ctx) (success : Bool)
    (gasUsed : UInt64) (contract : Address) (s : Store) :
    Realises ⟨success, gasUsed, none, execContextGetWrite ctx⟩ contract s
      (puts (ctx.writes.map storageWrite) s) := by
  have hcells : ∀ c ∈ (ctx.writes.map storageWrite).map Prod.fst,
      ∃ a k, c = storageCell a k := by
    intro c hc
    obtain ⟨w, hw, rfl⟩ := List.mem_map.mp hc
    obtain ⟨e, -, rfl⟩ := List.mem_map.mp hw
    exact ⟨e.address, e.key, rfl⟩
  refine ⟨?_, puts_overlay h s, ?_⟩
  · apply puts_of_notMem
    intro hmem
    obtain ⟨a, k, hc⟩ := hcells _ hmem
    cases hc
  · intro c _ hc
    apply puts_of_notMem
    intro hmem
    obtain ⟨a, k, rfl⟩ := hcells _ hmem
    exact hc a k rfl

lemma run_planContract_of_no_code {blockCtx : Option BlockContext} {origin sender to_ : Address}
    {data : Bytes} {value : Bytes32} {gas : UInt64} {flags : UInt32} {commitState : Bool}
    {result : ExecResult} {s : Store} (h : storedCode s to_ = []) :
    (run server (planContract evm blockCtx origin sender to_ data value gas flags commitState
      result) s).1 = ⟨0, ⟨true, 0, [], []⟩, []⟩ := by
  have hcode : run server (getCode to_) s = ([], s) := Prod.ext h rfl
  unfold planContract
  rw [run_bind, hcode, if_pos List.length_nil]
  rfl

/-- A contract's run ends with a status; the overlay is committed if it is 0. -/
lemma run_planContract {blockCtx : Option BlockContext} {origin sender to_ : Address}
    {data : Bytes} {value : Bytes32} {gas : UInt64} {flags : UInt32} {result : ExecResult}
    {s : Store} (h : storedCode s to_ ≠ []) :
    let x := run (hostHandler evm.toHostEnv)
      (evm.execute (messageFor sender to_ data value gas flags) (storedCode s to_))
      (contextFor blockCtx origin, s)
    let p := (run server (planContract evm blockCtx origin sender to_ data value gas flags true
      result) s).1
    p.rc = 0 → p.result.success = decide (x.1.statusCode = 0) ∧
      p.result.gasUsed = gas - (if x.1.gasLeft > 0 then x.1.gasLeft.toUInt64 else 0) ∧
        p.writes = if x.1.statusCode = 0 then x.2.1.writes.map storageWrite else [] := by
  have hcode : run server (getCode to_) s = (storedCode s to_, s) := rfl
  have hlen : (storedCode s to_).length ≠ 0 := fun h0 => h (List.eq_nil_of_length_eq_zero h0)
  unfold planContract
  rw [run_bind, hcode, if_neg hlen, run_bind, run_interp]
  dsimp only
  generalize run (hostHandler evm.toHostEnv)
    (evm.execute (messageFor sender to_ data value gas flags) (storedCode s to_))
    (contextFor blockCtx origin, s) = x
  obtain ⟨r, ctx, s'⟩ := x
  by_cases hneg : r.statusCode < 0
  · rw [if_pos hneg]
    intro hrc
    cases hrc
  rw [if_neg hneg]
  by_cases hfail : r.statusCode = 0
  · rw [if_neg (not_not_intro hfail), if_pos hfail]
    exact fun _ => ⟨rfl, rfl, rfl⟩
  · rw [if_pos hfail, if_neg hfail]
    exact fun _ => ⟨rfl, rfl, rfl⟩

/-- What a contract's run leaves in the overlay. -/
lemma overlay_of_contract (hr : ∀ n, evm.realloc n = true) (tx : Tx)
    (blockCtx : Option BlockContext) (s : Store) :
    let ctx := (run (hostHandler evm.toHostEnv)
      (evm.execute (messageFor tx.fromAddr tx.toAddr tx.data (.zero 32)
        (tx.gasLimit - intrinsicGas tx.data) 0) (storedCode s tx.toAddr))
      (contextFor blockCtx tx.fromAddr, s)).2.1
    OneEntry ctx ∧ execContextGetWrite ctx = lastWritten (contractCalls evm tx blockCtx s) := by
  have hone : OneEntry (contextFor blockCtx tx.fromAddr) := List.nodup_nil
  obtain ⟨-, hone', hget⟩ := overlay_of_calls hr (contractCalls evm tx blockCtx s) hone s
  intro ctx
  have hctx : ctx = _ := congrArg Prod.fst (run_trace (hostHandler evm.toHostEnv) _ _)
  rw [hctx]
  refine ⟨hone', ?_⟩
  ext1 a
  ext1 k
  exact hget a k

/-- What a transaction's effects are said to be and what they write, by its kind. -/
lemma planEffects_result (tx : Tx) (blockCtx : Option BlockContext) (nonce : UInt64)
    (result : ExecResult) (s : Store)
    (hrc : (run server (planEffects evm tx blockCtx nonce result) s).1.rc = 0) :
    let p := (run server (planEffects evm tx blockCtx nonce result) s).1
    let o := outcome evm tx blockCtx s
    let ctx := (run (hostHandler evm.toHostEnv)
      (evm.execute (messageFor tx.fromAddr tx.toAddr tx.data (.zero 32)
        (tx.gasLimit - intrinsicGas tx.data) 0) (storedCode s tx.toAddr))
      (contextFor blockCtx tx.fromAddr, s)).2.1
    p.result.success = o.success ∧ p.result.gasUsed = o.gasUsed ∧
      p.writes = if tx.toIsNull then [codeWrite (computeCreateAddress tx.fromAddr nonce) tx.data]
        else if storedCode s tx.toAddr = [] then []
        else if (contractResult evm tx blockCtx s).statusCode = 0 then ctx.writes.map storageWrite
        else [] := by
  revert hrc
  unfold planEffects outcome
  split_ifs with hnull hcode
  · exact fun _ => ⟨rfl, rfl, rfl⟩
  · intro _
    rw [run_bind, run_planContract_of_no_code hcode]
    exact ⟨rfl, UInt64.zero_add _, rfl⟩
  all_goals
    have hplan := @run_planContract evm blockCtx tx.fromAddr tx.fromAddr tx.toAddr tx.data
      (.zero 32) (tx.gasLimit - intrinsicGas tx.data) 0 result s hcode
    rw [run_bind]
    intro hrc
    have hrc' : (run server (planContract evm blockCtx tx.fromAddr tx.fromAddr tx.toAddr tx.data
        (.zero 32) (tx.gasLimit - intrinsicGas tx.data) 0 true result) s).1.rc = 0 := by
      by_contra hne
      rw [if_pos hne] at hrc
      exact hne hrc
    obtain ⟨hsuccess, hgas, hwrites⟩ := hplan hrc'
    rw [if_neg (not_not_intro hrc')]
    refine ⟨hsuccess, congrArg (· + intrinsicGas tx.data) hgas, hwrites.trans ?_⟩
  · exact if_pos ‹_›
  · exact if_neg ‹_›

/-- **The effects of a transaction are its outcome.** -/
theorem planEffects_outcome (hr : ∀ n, evm.realloc n = true) (tx : Tx)
    (blockCtx : Option BlockContext) (nonce : UInt64) (result : ExecResult) (s : Store)
    (hrc : (run server (planEffects evm tx blockCtx nonce result) s).1.rc = 0) :
    let p := (run server (planEffects evm tx blockCtx nonce result) s).1
    let o := outcome evm tx blockCtx s
    p.result.success = o.success ∧ p.result.gasUsed = o.gasUsed ∧
      Realises o (computeCreateAddress tx.fromAddr nonce) s (puts p.writes s) := by
  obtain ⟨hsuccess, hgas, hwrites⟩ := planEffects_result tx blockCtx nonce result s hrc
  obtain ⟨hone, hget⟩ := overlay_of_contract hr tx blockCtx s
  refine ⟨hsuccess, hgas, ?_⟩
  rw [hwrites]
  unfold outcome
  rw [← hget]
  dsimp only
  by_cases hnull : tx.toIsNull = true
  · rw [if_pos hnull, if_pos hnull]
    exact realises_code _ _ _ _ _
  rw [if_neg hnull, if_neg hnull]
  by_cases hcode : storedCode s tx.toAddr = []
  · rw [if_pos hcode, if_pos hcode]
    exact realises_nothing _ _ _ _
  rw [if_neg hcode, if_neg hcode]
  by_cases hstatus : (contractResult evm tx blockCtx s).statusCode = 0
  · rw [if_pos hstatus, if_pos hstatus]
    exact realises_overlay hone _ _ _ _
  · rw [if_neg hstatus, if_neg hstatus]
    exact realises_nothing _ _ _ _

/-- **A transaction that is executed has its outcome for its effect**, and uses up the nonce of its
sender. -/
theorem executeTx_outcome (hr : ∀ n, evm.realloc n = true) (tx : Tx)
    (blockCtx : Option BlockContext) (result : ExecResult) (s : Store)
    (hrc : (run server (executeTx evm tx blockCtx result) s).1.1 = 0) :
    let (_, result') := (run server (executeTx evm tx blockCtx result) s).1
    let o := outcome evm tx blockCtx s
    tx.nonce = storedNonce s tx.fromAddr ∧ result'.success = o.success ∧
      result'.gasUsed = o.gasUsed ∧
        ∃ s₁, Realises o (computeCreateAddress tx.fromAddr tx.nonce) s s₁ ∧
          (run server (executeTx evm tx blockCtx result) s).2 =
            put s₁ (nonceCell tx.fromAddr) (decimal (tx.nonce + 1).toNat) := by
  rw [run_executeTx] at hrc ⊢
  obtain ⟨-, -, hnonce, -, heff⟩ := (run_planTx_rc server tx blockCtx result s).mp hrc
  rw [run_planTx_eq server tx blockCtx result s hrc]
  obtain ⟨hsuccess, hgas, hreal⟩ := planEffects_outcome hr tx blockCtx tx.nonce _ s heff
  refine ⟨hnonce, hsuccess, hgas, _, hreal, ?_⟩
  exact puts_append _ _ s

/-- **A transaction that is not executed changes nothing.** -/
theorem executeTx_rejected (tx : Tx) (blockCtx : Option BlockContext) (result : ExecResult)
    (s : Store) (hrc : (run server (executeTx evm tx blockCtx result) s).1.1 ≠ 0) :
    (run server (executeTx evm tx blockCtx result) s).2 = s := by
  have hok := (run_reads (reads_of_stateReads (@issues_planTx evm tx blockCtx result)) s).2
  rw [run_executeTx] at hrc ⊢
  cases hok with
  | rejected _ hws =>
    show puts (run server (planTx evm tx blockCtx result) s).1.writes s = s
    rw [hws]
    rfl
  | executed h0 => exact absurd h0 hrc

/-! ### Calls of the executor -/

/-- A call of `evmdb_evm_execute_tx`. -/
structure TxCall where
  evm : Evm
  tx : Tx
  blockCtx : Option BlockContext
  result : ExecResult

def TxCall.program (c : TxCall) : RedisProg (ℤ × ExecResult) :=
  executeTx c.evm c.tx c.blockCtx c.result

def TxCall.run (c : TxCall) (s : Store) : (ℤ × ExecResult) × Store :=
  Program.run server c.program s

/-- The sender and the nonce of a transaction, if it is executed. -/
def TxCall.executed (c : TxCall) (s : Store) : Option (Address × UInt64) :=
  if (c.run s).1.1 = 0 then some (c.tx.fromAddr, c.tx.nonce) else none

end EvmDb.Effects
