import EvmDb.Evm.Gas
import EvmDb.Rpc.ReadOnly

/-!
The gas a request makes the interpreter spend.

A message is handed to the interpreter if the request would end differently with another answer
to it.
-/

namespace EvmDb.GasLimit

open EvmDb.Checked EvmDb.Types EvmDb.Program EvmDb.Redis EvmDb.RedisState EvmDb.Host
open EvmDb.Executor EvmDb.Plan EvmDb.Effects EvmDb.Request EvmDb.SendRaw EvmDb.Handlers
open EvmDb.Dispatch EvmDb.ReadOnly

/-- What is called with a message and a code. -/
abbrev Interpreter := Message → Bytes → EvmProg EvmcResult

abbrev withInterpreter (evm : Evm) (execute : Interpreter) : Evm :=
  { evm with execute := execute }

/-- A server with another interpreter. -/
abbrev rpcWith (rpc : Rpc) (execute : Interpreter) : Rpc :=
  { rpc with evm := withInterpreter rpc.evm execute }

/-- What has to hold for a transaction to reach the interpreter. -/
structure RunsCode (evm : Evm) (tx : Tx) (blockCtx : Option BlockContext) (s : Store) : Prop where
  init : evm.initialized = true
  chain : chainIdRejected tx blockCtx = false
  nonce : tx.nonce = storedNonce s tx.fromAddr
  gas : intrinsicGas tx.data ≤ tx.gasLimit
  dest : tx.toIsNull = false
  code : storedCode s tx.toAddr ≠ []

/-- The message a transaction is executed with. -/
def txMessage (tx : Tx) : Message :=
  messageFor tx.fromAddr tx.toAddr tx.data (.zero 32) (tx.gasLimit - intrinsicGas tx.data) 0

/-- The message a call is executed with. -/
def callMessage (args : CallArgs) : Message :=
  messageFor args.fromAddr args.toAddr args.data (.zero 32) args.gas 1

variable (rpc : Rpc) (parser : TxParser) (time : UInt64) (request : Bytes) (s : Store)

/-- What a request comes to with an interpreter: the response and the store. -/
def handled (execute : Interpreter) : Read Response × Store :=
  run server (dispatchSingle (rpcWith rpc execute) parser time request) s

/-- A message is handed to the interpreter. -/
def Hands (msg : Message) : Prop :=
  ∃ execute : Interpreter, (∀ m code, m ≠ msg → execute m code = rpc.evm.execute m code) ∧
    handled rpc parser time request s execute ≠ handled rpc parser time request s rpc.evm.execute

/-- The request reaches the interpreter with an amount of gas and a message. -/
inductive Reaches : UInt64 → Message → Prop
  | transaction (tx : Tx) (hmethod : methodOf request = ascii "eth_sendRawTransaction")
    (htx : sentTx parser request = some tx)
    (hruns : RunsCode rpc.evm tx (some (contextOn rpc time s)) s) :
    Reaches (tx.gasLimit - intrinsicGas tx.data) (txMessage tx)
  | call (args : CallArgs) (hmethod : methodOf request = ascii "eth_call")
    (hargs : callArgs rpc.gasLimit request = .ok args) (hinit : rpc.evm.initialized = true)
    (hcode : storedCode s args.toAddr ≠ []) : Reaches args.gas (callMessage args)

/-! ### The executor and its interpreter -/

section

variable {evm : Evm} {blockCtx : Option BlockContext} {s : Store}

/-- The interpreter matters for an address with code, and for one message only. -/
lemma run_executeContract_congr {execute execute' : Interpreter} {origin sender to_ : Address}
    {data : Bytes} {value : Bytes32} {gas : UInt64} {flags : UInt32} {commitState : Bool}
    {result : ExecResult}
    (h : storedCode s to_ ≠ [] →
      execute (messageFor sender to_ data value gas flags) (storedCode s to_) =
        execute' (messageFor sender to_ data value gas flags) (storedCode s to_)) :
    run server (executeContract (withInterpreter evm execute) blockCtx origin sender to_ data value
        gas flags commitState result) s =
      run server (executeContract (withInterpreter evm execute') blockCtx origin sender to_ data value
        gas flags commitState result) s := by
  have hcode : run server (getCode to_) s = (storedCode s to_, s) := rfl
  unfold executeContract
  rw [run_bind, run_bind, hcode]
  by_cases hnil : storedCode s to_ = []
  · rw [hnil]
    rfl
  · have hlen : (storedCode s to_).length ≠ 0 := fun h0 => hnil (List.eq_nil_of_length_eq_zero h0)
    dsimp only
    rw [if_neg hlen, if_neg hlen, h hnil]

/-- An interpreter that ends at once with a status. -/
lemma run_planContract_ret {origin sender to_ : Address} {data : Bytes} {value : Bytes32}
    {gas : UInt64} {flags : UInt32} {commitState : Bool} {result : ExecResult} {status : ℤ}
    (hcode : storedCode s to_ ≠ [])
    (h : evm.execute (messageFor sender to_ data value gas flags) (storedCode s to_) =
      .ret ⟨status, 0, []⟩) :
    let p := (run server (planContract evm blockCtx origin sender to_ data value gas flags
      commitState result) s).1
    (p.rc = 0 ↔ 0 ≤ status) ∧ (status = 0 → p.result.success = true) := by
  have hrun : run server (getCode to_) s = (storedCode s to_, s) := rfl
  have hlen : (storedCode s to_).length ≠ 0 := fun h0 => hcode (List.eq_nil_of_length_eq_zero h0)
  unfold planContract
  rw [run_bind, hrun]
  dsimp only
  rw [if_neg hlen, h]
  dsimp only [interp, Prog.ret_bind]
  by_cases hneg : status < 0
  · rw [if_pos hneg]
    exact ⟨⟨nofun, fun h0 => absurd hneg (not_lt.mpr h0)⟩, fun h0 => absurd h0 hneg.ne⟩
  rw [if_neg hneg]
  by_cases hfail : status ≠ 0
  · rw [if_pos hfail]
    exact ⟨⟨fun _ => not_lt.mp hneg, fun _ => rfl⟩, fun h0 => absurd h0 hfail⟩
  · rw [if_neg hfail]
    refine ⟨⟨fun _ => not_lt.mp hneg, fun _ => rfl⟩, fun h0 => ?_⟩
    subst h0
    rfl

lemma run_executeTx_congr {execute execute' : Interpreter} {tx : Tx} {result : ExecResult}
    (h : RunsCode evm tx blockCtx s →
      execute (txMessage tx) (storedCode s tx.toAddr) = execute' (txMessage tx) (storedCode s tx.toAddr)) :
    run server (executeTx (withInterpreter evm execute) tx blockCtx result) s =
      run server (executeTx (withInterpreter evm execute') tx blockCtx result) s := by
  unfold executeTx
  by_cases hinit : evm.initialized = false
  · rw [if_pos hinit, if_pos hinit]
  by_cases hchain : chainIdRejected tx blockCtx = true
  · rw [if_neg hinit, if_neg hinit, if_pos hchain, if_pos hchain]
  rw [if_neg hinit, if_neg hinit, if_neg hchain, if_neg hchain, run_bind, run_bind, run_getNonce]
  dsimp only
  by_cases hnonce : tx.nonce ≠ storedNonce s tx.fromAddr
  · rw [if_pos hnonce, if_pos hnonce]
  by_cases hgas : intrinsicGas tx.data > tx.gasLimit
  · rw [if_neg hnonce, if_neg hnonce, if_pos hgas, if_pos hgas]
  rw [if_neg hnonce, if_neg hnonce, if_neg hgas, if_neg hgas, run_bind, run_bind]
  have heffects : run server (executeEffects (withInterpreter evm execute) tx blockCtx
      (storedNonce s tx.fromAddr) { result with output := [] }) s =
        run server (executeEffects (withInterpreter evm execute') tx blockCtx
          (storedNonce s tx.fromAddr) { result with output := [] }) s := by
    unfold executeEffects
    split_ifs with hto
    · rfl
    · rw [run_bind, run_bind, run_executeContract_congr]
      intro hcode
      rw [ne_eq, Decidable.not_not] at hnonce
      exact h ⟨by simpa using hinit, by simpa using hchain, hnonce, UInt64.not_lt.mp hgas,
        by simpa using hto, hcode⟩
  rw [heffects]

/-- A transaction whose contract ends at once with a status. -/
lemma run_executeTx_ret {tx : Tx} {result : ExecResult} {status : ℤ}
    (h : RunsCode evm tx blockCtx s)
    (hexec : evm.execute (txMessage tx) (storedCode s tx.toAddr) = .ret ⟨status, 0, []⟩) :
    (run server (executeTx evm tx blockCtx result) s).1.1 = 0 ↔ 0 ≤ status := by
  obtain ⟨hrc, -⟩ := @run_planContract_ret evm blockCtx s tx.fromAddr tx.fromAddr tx.toAddr
    tx.data (.zero 32) (tx.gasLimit - intrinsicGas tx.data) 0 true { result with output := [] }
    status h.code hexec
  have heffects : (run server (planEffects evm tx blockCtx tx.nonce { result with output := [] })
      s).1.rc = 0 ↔ 0 ≤ status := by
    rw [← hrc]
    unfold planEffects
    rw [if_neg (by simp [h.dest]), run_bind]
    split_ifs with hne
    · rfl
    · exact ⟨fun _ => not_not.mp hne, fun h0 => h0⟩
  rw [run_executeTx, run_planTx_rc, run_getNonce]
  exact ⟨fun hall => heffects.mp hall.2.2.2.2,
    fun h0 => ⟨h.init, h.chain, h.nonce, h.gas, heffects.mpr h0⟩⟩

end

/-! ### What is handed to the interpreter -/

lemma run_send_congr {execute execute' : Interpreter} (id : Bytes)
    (h : ∀ tx, sentTx parser request = some tx →
      RunsCode rpc.evm tx (some (contextOn rpc time s)) s →
        execute (txMessage tx) (storedCode s tx.toAddr) =
          execute' (txMessage tx) (storedCode s tx.toAddr)) :
    run server (handleSendRawTransaction (rpcWith rpc execute) parser time id request) s =
      run server (handleSendRawTransaction (rpcWith rpc execute') parser time id request) s := by
  rcases handleSendRawTransaction_eq parser id request with
    ⟨tx, htx, hrun⟩ | ⟨-, message, -, hrun⟩
  · have hexec := @run_executeTx_congr rpc.evm (some (contextOn rpc time s)) s execute execute' tx
      .zero (h tx htx)
    have hrecord := run_executeAndRecord (rpcWith rpc execute) time id tx s
    change run server (executeTx (rpcWith rpc execute).evm tx
      (some (contextOn (rpcWith rpc execute) time s)) .zero) s = _ at hexec
    rw [hexec] at hrecord
    rw [hrun, hrun]
    exact hrecord.trans (run_executeAndRecord (rpcWith rpc execute') time id tx s).symm
  · rw [hrun, hrun]

lemma run_call_congr {execute execute' : Interpreter} (id : Bytes)
    (h : ∀ args, callArgs rpc.gasLimit request = .ok args → rpc.evm.initialized = true →
      storedCode s args.toAddr ≠ [] → execute (callMessage args) (storedCode s args.toAddr) =
        execute' (callMessage args) (storedCode s args.toAddr)) :
    run server (handleCall (rpcWith rpc execute) time id request) s =
      run server (handleCall (rpcWith rpc execute') time id request) s := by
  have hctx : ∀ e,
      run server (makeBlockContext (rpcWith rpc e) time) s = (contextOn rpc time s, s) :=
    fun _ => rfl
  unfold handleCall
  rw [run_bind, run_bind, hctx, hctx]
  rcases hargs : callArgs rpc.gasLimit request with message | args
  · rfl
  dsimp only
  unfold evmCall
  by_cases hinit : rpc.evm.initialized = false
  · rw [if_pos hinit, if_pos hinit]
  · rw [if_neg hinit, if_neg hinit, run_bind, run_bind, run_executeContract_congr]
    exact h args hargs (by simpa using hinit)

/-- Another method has nothing to do with the interpreter. -/
lemma dispatchSingle_rpcWith {execute execute' : Interpreter}
    (hsend : methodOf request ≠ ascii "eth_sendRawTransaction")
    (hcall : methodOf request ≠ ascii "eth_call") :
    dispatchSingle (rpcWith rpc execute) parser time request =
      dispatchSingle (rpcWith rpc execute') parser time request := by
  unfold dispatchSingle handlers
  simp only [List.lookup_cons, beq_false_of_ne hsend, beq_false_of_ne hcall]
  rfl

variable {rpc parser time request s}

/-- A request ends alike with interpreters that agree on the messages it reaches them with. -/
lemma handled_congr {execute execute' : Interpreter}
    (h : ∀ gas msg, Reaches rpc parser time request s gas msg →
      ∀ code, execute msg code = execute' msg code) :
    handled rpc parser time request s execute = handled rpc parser time request s execute' := by
  unfold handled
  by_cases hsend : methodOf request = ascii "eth_sendRawTransaction"
  · rw [dispatchSingle_send _ _ _ _ hsend, dispatchSingle_send _ _ _ _ hsend, run_determined,
      run_determined, run_send_congr]
    exact fun tx htx hruns => h _ _ (.transaction tx hsend htx hruns) _
  by_cases hcall : methodOf request = ascii "eth_call"
  · rw [dispatchSingle_call _ _ _ _ hcall, dispatchSingle_call _ _ _ _ hcall, run_determined,
      run_determined, run_call_congr]
    exact fun args hargs hinit hcode => h _ _ (.call args hcall hargs hinit hcode) _
  · rw [dispatchSingle_rpcWith _ _ _ _ hsend hcall]

/-- The response tells whether the interpreter ends well. -/
lemma handled_ret {gas : UInt64} {msg : Message} (hreach : Reaches rpc parser time request s gas msg)
    {execute : Interpreter} {status : ℤ} (hle : status ≤ 0)
    (h : ∀ code, execute msg code = .ret ⟨status, 0, []⟩) :
    ∃ r, (handled rpc parser time request s execute).1 = .ok r ∧
      (r.isError = true ↔ status < 0) := by
  unfold handled
  cases hreach with
  | transaction tx hmethod htx hruns =>
    rw [dispatchSingle_send _ _ _ _ hmethod, run_determined]
    refine ⟨_, rfl, ?_⟩
    rcases handleSendRawTransaction_eq parser (idOf request) request with
      ⟨tx', htx', hrun⟩ | ⟨hnone, -⟩
    · cases htx.symm.trans htx'
      rw [hrun, run_executeAndRecord]
      have hruns' : RunsCode (rpcWith rpc execute).evm tx
          (some (contextOn (rpcWith rpc execute) time s)) s :=
        ⟨hruns.init, hruns.chain, hruns.nonce, hruns.gas, hruns.dest, hruns.code⟩
      have hrc := @run_executeTx_ret _ _ _ _ .zero _ hruns' (h _)
      dsimp only
      rw [← not_le, ← hrc]
      split_ifs with hne
      · exact ⟨fun _ => hne, fun _ => rfl⟩
      · exact ⟨fun h0 => absurd h0 (by simp [Response.isError]), fun h0 => absurd h0 hne⟩
    · rw [htx] at hnone
      cases hnone
  | call args hmethod hargs hinit hcode =>
    rw [dispatchSingle_call _ _ _ _ hmethod, run_determined]
    refine ⟨_, rfl, ?_⟩
    have hctx : run server (makeBlockContext (rpcWith rpc execute) time) s =
        (contextOn rpc time s, s) := rfl
    obtain ⟨hrc, hsuccess⟩ := @run_planContract_ret (rpcWith rpc execute).evm
      (some (contextOn rpc time s)) s args.fromAddr args.fromAddr args.toAddr args.data (.zero 32)
      args.gas 1 false .zero status hcode (h _)
    unfold handleCall
    rw [run_bind, hctx, hargs]
    dsimp only
    unfold evmCall
    rw [if_neg (by simp [hinit]), executeContract_eq, run_bind, run_bind, finish, run_bind,
      run_perform]
    dsimp only [Prog.pure_eq, run_ret]
    unfold callResponse
    rcases hle.lt_or_eq with hlt | rfl
    · rw [if_pos fun h0 => absurd (hrc.mp h0) (not_le.mpr hlt)]
      exact ⟨fun _ => hlt, fun _ => rfl⟩
    · rw [if_neg (not_not_intro (hrc.mpr le_rfl)), if_neg (by simp [hsuccess rfl])]
      split_ifs <;>
        exact ⟨fun h0 => absurd h0 (by simp [Response.isError]), fun h0 => absurd h0 (lt_irrefl _)⟩

/-- **What is handed to the interpreter**: the message that the request reaches it with. -/
theorem hands_iff (msg : Message) :
    Hands rpc parser time request s msg ↔ ∃ gas, Reaches rpc parser time request s gas msg := by
  classical
  constructor
  · rintro ⟨execute, hoff, hne⟩
    by_contra hno
    refine hne (handled_congr fun gas m hreach code => hoff m code ?_)
    rintro rfl
    exact hno ⟨gas, hreach⟩
  · rintro ⟨gas, hreach⟩
    -- one interpreter that fails on the message, and one that ends well
    let ending (status : ℤ) : Interpreter := fun m code =>
      if m = msg then .ret ⟨status, 0, []⟩ else rpc.evm.execute m code
    have hends : ∀ status code, ending status msg code = .ret ⟨status, 0, []⟩ :=
      fun _ _ => if_pos rfl
    have hoff : ∀ status m code, m ≠ msg → ending status m code = rpc.evm.execute m code :=
      fun _ _ _ hm => if_neg hm
    by_cases hwell : handled rpc parser time request s (ending 0) =
        handled rpc parser time request s rpc.evm.execute
    · refine ⟨ending (-1), fun m code => hoff _ m code, fun hfail => ?_⟩
      obtain ⟨r, hr, hok⟩ := handled_ret hreach le_rfl (hends 0)
      obtain ⟨r', hr', hbad⟩ := handled_ret hreach (by decide) (hends (-1))
      rw [hwell, ← hfail, hr'] at hr
      cases hr
      exact absurd (hok.mp (hbad.mpr (by decide))) (by decide)
    · exact ⟨ending 0, fun m code => hoff _ m code, hwell⟩

/-! ### The configured limit -/

/-- A message carries an amount of gas, and no more than the limit. -/
structure Bounded (gasLimit gas : UInt64) (msg : Message) : Prop where
  nonneg : 0 ≤ msg.gas.toInt
  intended : msg.gas.toInt = gas.toNat
  limit : msg.gas.toInt ≤ gasLimit.toNat

/-- The cast to a signed number keeps the amount if it is small enough. -/
lemma cast_keeps (n : UInt64) :
    (0 ≤ n.toInt64.toInt ∧ n.toInt64.toInt = n.toNat) ↔ n.toNat < 2 ^ 63 := by
  rw [Gas.toInt_toInt64]
  split_ifs <;> omega

lemma Reaches.gas_eq {gas : UInt64} {msg : Message}
    (h : Reaches rpc parser time request s gas msg) : msg.gas = gas.toInt64 := by
  cases h <;> rfl

lemma Reaches.gas_unique {gas gas' : UInt64} {msg msg' : Message}
    (h : Reaches rpc parser time request s gas msg)
    (h' : Reaches rpc parser time request s gas' msg') : gas = gas' := by
  cases h with
  | transaction tx hm htx =>
    cases h' with
    | transaction tx' hm' htx' => rw [Option.some.inj (htx.symm.trans htx')]
    | call args hm' => exact absurd (hm.symm.trans hm') (by decide)
  | call args hm hargs =>
    cases h' with
    | transaction tx' hm' => exact absurd (hm.symm.trans hm') (by decide)
    | call args' hm' hargs' => rw [Except.ok.inj (hargs.symm.trans hargs')]

variable (rpc parser time request s)

/-- **When the gas of a request is bounded**: the amount it is to spend is within the configured
limit, and within the range of a signed number. Nothing in the code compares it with either. -/
theorem gas_bounded_iff :
    (∀ msg, Hands rpc parser time request s msg →
        ∃ gas, Reaches rpc parser time request s gas msg ∧ Bounded rpc.gasLimit gas msg) ↔
      ∀ gas msg, Reaches rpc parser time request s gas msg →
        gas ≤ rpc.gasLimit ∧ gas.toNat < 2 ^ 63 := by
  constructor
  · intro h gas msg hreach
    obtain ⟨gas', hreach', hbounded⟩ := h msg ((hands_iff msg).mpr ⟨gas, hreach⟩)
    cases hreach.gas_unique hreach'
    have hlimit := hbounded.limit
    rw [hbounded.intended] at hlimit
    refine ⟨UInt64.le_iff_toNat_le.mpr (by exact_mod_cast hlimit), ?_⟩
    apply (cast_keeps gas).mp
    rw [← hreach.gas_eq]
    exact ⟨hbounded.nonneg, hbounded.intended⟩
  · intro h msg hhands
    obtain ⟨gas, hreach⟩ := (hands_iff msg).mp hhands
    obtain ⟨hlimit, hrange⟩ := h gas msg hreach
    obtain ⟨hnonneg, hintended⟩ := (cast_keeps gas).mpr hrange
    refine ⟨gas, hreach, ?_, ?_, ?_⟩ <;> rw [hreach.gas_eq]
    · exact hnonneg
    · exact hintended
    · rw [hintended]
      exact_mod_cast UInt64.le_iff_toNat_le.mp hlimit

/-- A server with a limit of thirty million. -/
def limitedRpc : Rpc := ⟨idle, 1, 30000000, 0⟩

/-- A call with the largest word for its gas. -/
def endlessRequest : Bytes := ascii (
  "\x7b\"method\":\"eth_call\",\"params\":[\x7b\"to\":\"0x0000000000000000000000000000000000000000\"," ++
  "\"gas\":\"0xffffffffffffffff\"\x7d]\x7d")

lemma reaches_endless :
    Reaches limitedRpc plainParser 0 endlessRequest contractStore 0xffffffffffffffff
      (callMessage ⟨.zero 20, .zero 20, [], 0xffffffffffffffff⟩) :=
  .call ⟨.zero 20, .zero 20, [], 0xffffffffffffffff⟩ (by decide) rfl rfl (by decide)

/-- The gas of the call is a negative number. -/
theorem not_gas_bounded_endless :
    ¬ ∀ msg, Hands limitedRpc plainParser 0 endlessRequest contractStore msg →
      ∃ gas, Reaches limitedRpc plainParser 0 endlessRequest contractStore gas msg ∧
        Bounded limitedRpc.gasLimit gas msg := by
  intro h
  obtain ⟨gas, -, hbounded⟩ := h _ ((hands_iff _).mpr ⟨_, reaches_endless⟩)
  exact absurd hbounded.nonneg (by decide)

end EvmDb.GasLimit
