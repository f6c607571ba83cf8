import EvmDb.Lib.Redo
import EvmDb.Rpc.WriteOrder

/-!
A request that is sent again after it was interrupted.

The server may stop after any command, and the client then sends its transaction again, until a
request is handled to its end. If the transaction runs no contract, then its effects are the same
each time, and the nonce, which follows them, tells whether they are done.
-/

namespace EvmDb.Retries

open EvmDb.Types EvmDb.Digits EvmDb.Program EvmDb.Redis EvmDb.RedisState EvmDb.Executor EvmDb.Plan
open EvmDb.Effects EvmDb.Request EvmDb.SendRaw EvmDb.Concurrent EvmDb.WriteOrder EvmDb.Redo

/-! ### The writes of a request -/

/-- What a request with a transaction plans on a store. -/
def planOn (i : SendRequest) (tx : Tx) (s : Store) : Planned :=
  (run server (planTx i.rpc.evm tx (some (contextOn i.rpc i.time s)) .zero) s).1

/-- The writes of a request with a transaction, in order. -/
def writesOn (i : SendRequest) (tx : Tx) (s : Store) : List Write :=
  let p := planOn i tx s
  if p.rc ≠ 0 then p.writes
  else p.writes ++ [blockWrite (storedBlock s + 1), receiptWrite tx.hash
    (receiptFor i.rpc tx (storedBlock s + 1) p.result.success p.result.gasUsed)]

/-- The response to a request with a transaction. -/
def responseOn (i : SendRequest) (tx : Tx) (s : Store) : Response :=
  let p := planOn i tx s
  if p.rc ≠ 0 then .error i.id (-32603) p.result.error
  else .result i.id (quoted (hashToHex tx.hash))

variable {i : SendRequest} {tx : Tx} {s : Store}

lemma program_eq (htx : i.tx = some tx) :
    i.program = .cmd (.get blockKey) fun r =>
      planTx i.rpc.evm tx (some (blockContext i.rpc i.time (numberOf r))) .zero >>=
        record i tx (numberOf r) := by
  unfold SendRequest.program
  rcases handleSendRawTransaction_eq i.parser i.id i.request with
    ⟨tx', htx', hrun⟩ | ⟨hnone, -⟩
  · cases htx.symm.trans htx'
    rw [hrun]
    exact executeAndRecord_eq i tx
  · cases htx.symm.trans hnone

/-- What follows the plan are the writes, and the response. -/
lemma record_planOn (i : SendRequest) (tx : Tx) (s : Store) :
    record i tx (storedBlock s) (planOn i tx s) =
      perform (writesOn i tx s) >>= fun _ => .ret (responseOn i tx s) := by
  unfold record writesOn responseOn
  dsimp only
  split_ifs <;> rfl

/-- The plan only reads. -/
lemma reads_plan (i : SendRequest) (tx : Tx) (s : Store) : Issues Reads (TxOk tx)
    (planTx i.rpc.evm tx (some (contextOn i.rpc i.time s)) .zero) :=
  reads_of_stateReads (issues_planTx tx _ _)

/-- **A request that is not interrupted** does all of its writes. -/
lemma run_program (htx : i.tx = some tx) (s : Store) :
    run server i.program s = (responseOn i tx s, puts (writesOn i tx s) s) := by
  rw [program_eq htx, run_step]
  show run server (planTx i.rpc.evm tx (some (contextOn i.rpc i.time s)) .zero >>=
    record i tx (storedBlock s)) s = _
  rw [run_bind, (run_reads (reads_plan i tx s) s).1]
  show run server (record i tx (storedBlock s) (planOn i tx s)) s = _
  rw [record_planOn, run_bind, run_perform]
  rfl

/-- **A request that is interrupted** has done the first of its writes. -/
lemma stopped_program (htx : i.tx = some tx) (k : ℕ) (s : Store) :
    ∃ n, stopped server k i.program s = puts ((writesOn i tx s).take n) s := by
  rw [program_eq htx]
  cases k with
  | zero => exact ⟨0, rfl⟩
  | succ k =>
    have hsilent : Issues (fun c => ∀ s, (server s c).2 = s) (TxOk tx)
        (planTx i.rpc.evm tx (some (contextOn i.rpc i.time s)) .zero) :=
      (reads_plan i tx s).mono (fun _ hc => exec_of_read hc) fun _ => id
    obtain ⟨n, hn⟩ := stopped_bind hsilent (record i tx (storedBlock s)) k s
    refine ⟨n, hn.trans ?_⟩
    show stopped server n (record i tx (storedBlock s) (planOn i tx s)) s = _
    rw [record_planOn, stopped_perform]

/-! ### Transactions that run no contract -/

/-- A transaction that creates a contract, or whose recipient has no code. -/
def RunsNothing (tx : Tx) (s : Store) : Prop := tx.toIsNull = true ∨ storedCode s tx.toAddr = []

/-- The effects of such a transaction. -/
def effectsOf (tx : Tx) : List Write :=
  if tx.toIsNull then [codeWrite (computeCreateAddress tx.fromAddr tx.nonce) tx.data] else []

/-- The plan of such a transaction, once it is admitted. -/
def plainPlan (tx : Tx) : Planned where
  rc := 0
  result := ⟨true, intrinsicGas tx.data, [], []⟩
  writes := effectsOf tx ++ [nonceWrite tx.fromAddr (tx.nonce + 1)]

lemma run_planEffects_plain (evm : Evm) (blockCtx : Option BlockContext) (h : RunsNothing tx s) :
    (run server (planEffects evm tx blockCtx tx.nonce .zero) s).1 =
      ⟨0, ⟨true, intrinsicGas tx.data, [], []⟩, effectsOf tx⟩ := by
  unfold planEffects effectsOf
  by_cases hnull : tx.toIsNull = true
  · rw [if_pos hnull, if_pos hnull]
    rfl
  · have hcode : (storedCode s tx.toAddr).length = 0 := by
      rw [h.resolve_left hnull, List.length_nil]
    have hget : run server (getCode tx.toAddr) s = (storedCode s tx.toAddr, s) := rfl
    rw [if_neg hnull, if_neg hnull, run_bind]
    unfold planContract
    rw [run_bind, hget]
    dsimp only
    rw [if_pos hcode]
    show (⟨0, ⟨true, 0 + intrinsicGas tx.data, [], []⟩, []⟩ : Planned) = _
    rw [UInt64.zero_add]

/-- The checks of a transaction on a server, besides that of its nonce. -/
structure Admissible (rpc : Rpc) (tx : Tx) : Prop where
  init : rpc.evm.initialized = true
  chain : tx.chainId = 0 ∨ tx.chainId = rpc.chainId
  gas : intrinsicGas tx.data ≤ tx.gasLimit

lemma chainIdRejected_eq (rpc : Rpc) (tx : Tx) (time : UInt64) (s : Store) :
    chainIdRejected tx (some (contextOn rpc time s)) = false ↔
      tx.chainId = 0 ∨ tx.chainId = rpc.chainId := by
  show decide (tx.chainId ≠ 0 ∧ tx.chainId ≠ rpc.chainId) = false ↔ _
  rw [decide_eq_false_iff_not, not_and_or, not_not, not_not]

/-- On every store with its nonce, such a transaction is planned in the same way. -/
lemma planOn_plain (ha : Admissible i.rpc tx) (hnonce : tx.nonce = storedNonce s tx.fromAddr)
    (h : RunsNothing tx s) : planOn i tx s = plainPlan tx := by
  have heffects := run_planEffects_plain i.rpc.evm (some (contextOn i.rpc i.time s)) h
  have hzero : ({ ExecResult.zero with output := [] } : ExecResult) = .zero := rfl
  unfold planOn
  rw [run_planTx_eq]
  · rw [hzero, run_getNonce, heffects]
    rfl
  · rw [run_planTx_rc, run_getNonce, hzero, heffects]
    exact ⟨ha.init, (chainIdRejected_eq _ _ _ _).mpr ha.chain, hnonce, ha.gas, rfl⟩

/-- On a store with another nonce, a transaction is rejected. -/
lemma planOn_late (ha : Admissible i.rpc tx) (hnonce : tx.nonce ≠ storedNonce s tx.fromAddr) :
    planOn i tx s =
      ⟨-1, ExecResult.zero.withError (nonceMismatch (storedNonce s tx.fromAddr) tx.nonce), []⟩ := by
  unfold planOn planTx
  rw [if_neg (by simp [ha.init]), if_neg (by simp [(chainIdRejected_eq _ _ _ _).mpr ha.chain]),
    run_bind, run_getNonce]
  unfold planNonce
  rw [if_pos hnonce]
  rfl

/-- Its writes on a store with its nonce. -/
def plainWrites (rpc : Rpc) (tx : Tx) (s : Store) : List Write :=
  effectsOf tx ++ [nonceWrite tx.fromAddr (tx.nonce + 1)] ++ [blockWrite (storedBlock s + 1),
    receiptWrite tx.hash (receiptFor rpc tx (storedBlock s + 1) true (intrinsicGas tx.data))]

lemma plainWrites_congr (rpc : Rpc) (tx : Tx) {s u : Store} (h : storedBlock u = storedBlock s) :
    plainWrites rpc tx u = plainWrites rpc tx s := by
  unfold plainWrites
  rw [h]

lemma writesOn_plain (ha : Admissible i.rpc tx) (hnonce : tx.nonce = storedNonce s tx.fromAddr)
    (h : RunsNothing tx s) :
    writesOn i tx s = plainWrites i.rpc tx s ∧
      responseOn i tx s = .result i.id (quoted (hashToHex tx.hash)) := by
  unfold writesOn responseOn
  rw [planOn_plain ha hnonce h]
  exact ⟨rfl, rfl⟩

lemma writesOn_late (ha : Admissible i.rpc tx) (hnonce : tx.nonce ≠ storedNonce s tx.fromAddr) :
    writesOn i tx s = [] ∧ responseOn i tx s =
      .error i.id (-32603) ((nonceMismatch (storedNonce s tx.fromAddr) tx.nonce).take 255) := by
  unfold writesOn responseOn
  rw [planOn_late ha hnonce]
  exact ⟨rfl, rfl⟩

lemma cells_effectsOf (tx : Tx) : ∀ c ∈ (effectsOf tx).map Prod.fst, ∃ a, c = codeCell a := by
  unfold effectsOf
  split_ifs
  · intro c hc
    exact ⟨_, List.mem_singleton.mp hc⟩
  · simp

/-- The cells that are written, in order. -/
lemma cells_plainWrites (rpc : Rpc) (tx : Tx) (s : Store) :
    (plainWrites rpc tx s).map Prod.fst =
      (effectsOf tx).map Prod.fst ++ [nonceCell tx.fromAddr] ++
        [blockCell, receiptCell tx.hash] := by
  unfold plainWrites
  rw [List.map_append, List.map_append]
  rfl

/-- The writes are to different cells. -/
lemma nodup_plainWrites (rpc : Rpc) (tx : Tx) (s : Store) :
    ((plainWrites rpc tx s).map Prod.fst).Nodup := by
  rw [cells_plainWrites]
  refine List.nodup_append.mpr ⟨?_, ?_, ?_⟩
  · refine List.nodup_append.mpr ⟨?_, by simp, ?_⟩
    · unfold effectsOf
      split_ifs <;> simp
    · rintro c hc _ hd rfl
      obtain ⟨a, rfl⟩ := cells_effectsOf tx c hc
      exact codeCell_ne_nonceCell _ _ (List.mem_singleton.mp hd)
  · simp [(receiptCell_ne_blockCell tx.hash).symm]
  · rintro c hc d hd rfl
    rcases List.mem_append.mp hc with hc | hc
    · obtain ⟨a, rfl⟩ := cells_effectsOf tx c hc
      rcases List.mem_pair.mp hd with hd | hd
      · exact codeCell_ne_blockCell a hd
      · exact codeCell_ne_receiptCell a tx.hash hd
    · rw [List.mem_singleton.mp hc] at hd
      rcases List.mem_pair.mp hd with hd | hd <;> cases hd

/-! ### Where an interrupted request stands -/

variable {rpc : Rpc} {j : ℕ}

/-- The cells of the writes that are still to come. -/
lemma cells_drop (rpc : Rpc) (tx : Tx) (s : Store) (j : ℕ) :
    ((plainWrites rpc tx s).drop j).map Prod.fst =
      (((effectsOf tx).map Prod.fst ++ [nonceCell tx.fromAddr]) ++
        [blockCell, receiptCell tx.hash]).drop j := by
  rw [← cells_plainWrites rpc tx s, List.map_drop]

/-- Before the nonce is written, the nonce and the block number are what they were. -/
lemma before_nonce (hj : j ≤ (effectsOf tx).length) (h : RunsNothing tx s) :
    storedNonce (puts ((plainWrites rpc tx s).take j) s) tx.fromAddr = storedNonce s tx.fromAddr ∧
      storedBlock (puts ((plainWrites rpc tx s).take j) s) = storedBlock s ∧
      RunsNothing tx (puts ((plainWrites rpc tx s).take j) s) := by
  have hcome : ∀ c, c = nonceCell tx.fromAddr ∨ c = blockCell →
      puts ((plainWrites rpc tx s).take j) s c = s c := fun c hc => by
    rw [puts_take (nodup_plainWrites rpc tx s), if_pos]
    rw [cells_drop, List.append_assoc, List.drop_append_of_le_length (by simpa using hj)]
    refine List.mem_append_right _ ?_
    rcases hc with rfl | rfl <;> simp
  refine ⟨?_, ?_, ?_⟩
  · unfold storedNonce
    rw [hcome _ (Or.inl rfl)]
  · unfold storedBlock
    rw [hcome _ (Or.inr rfl)]
  · by_cases hnull : tx.toIsNull = true
    · exact Or.inl hnull
    · have hnone : effectsOf tx = [] := if_neg hnull
      rw [hnone, List.length_nil, Nat.le_zero] at hj
      rw [hj]
      exact h

/-- Afterwards, the nonce is the next one. -/
lemma after_nonce (hj : (effectsOf tx).length < j) :
    storedNonce (puts ((plainWrites rpc tx s).take j) s) tx.fromAddr = tx.nonce + 1 := by
  have hmem : nonceWrite tx.fromAddr (tx.nonce + 1) ∈ (plainWrites rpc tx s).take j := by
    have hprefix : effectsOf tx ++ [nonceWrite tx.fromAddr (tx.nonce + 1)] <+:
        (plainWrites rpc tx s).take j :=
      List.prefix_take_iff.mpr ⟨List.prefix_append _ _, by simpa using hj⟩
    exact hprefix.subset (by simp)
  exact storedNonce_of_cell (puts_of_mem ((nodup_plainWrites rpc tx s).sublist
    ((List.take_sublist j _).map Prod.fst)) hmem s)

/-- What a request does that is sent again before the nonce is written. -/
lemma again_before (ha : Admissible i.rpc tx) (hnonce : tx.nonce = storedNonce s tx.fromAddr)
    (h : RunsNothing tx s) (hj : j ≤ (effectsOf tx).length) :
    writesOn i tx (puts ((plainWrites i.rpc tx s).take j) s) = plainWrites i.rpc tx s ∧
      responseOn i tx (puts ((plainWrites i.rpc tx s).take j) s) =
        .result i.id (quoted (hashToHex tx.hash)) := by
  obtain ⟨hsame, hblock, hruns⟩ := @before_nonce tx s i.rpc j hj h
  obtain ⟨hwrites, hresponse⟩ := writesOn_plain ha (hnonce.trans hsame.symm) hruns
  exact ⟨hwrites.trans (plainWrites_congr i.rpc tx hblock), hresponse⟩

/-- What it does afterwards. -/
lemma again_after (ha : Admissible i.rpc tx) (hj : (effectsOf tx).length < j) :
    writesOn i tx (puts ((plainWrites i.rpc tx s).take j) s) = [] ∧
      responseOn i tx (puts ((plainWrites i.rpc tx s).take j) s) =
        .error i.id (-32603) ((nonceMismatch (tx.nonce + 1) tx.nonce).take 255) := by
  have hnext := @after_nonce tx s i.rpc j hj
  have hlate : tx.nonce ≠ tx.nonce + 1 := fun heq => by
    have hword := tx.nonce.toNat_lt
    have hnat := congrArg UInt64.toNat heq
    rw [UInt64.toNat_add, UInt64.toNat_one] at hnat
    omega
  have hdone := @writesOn_late i tx (puts ((plainWrites i.rpc tx s).take j) s) ha
    (by rw [hnext]; exact hlate)
  rw [hnext] at hdone
  exact hdone

/-- A request at another time. -/
def atTime (i : SendRequest) (time : UInt64) : SendRequest := { i with time := time }

/-- The store after some attempts, each made at a time and stopped after some commands. -/
def interrupted (i : SendRequest) (attempts : List (UInt64 × ℕ)) (s : Store) : Store :=
  attempts.foldl (fun u a => stopped server a.2 (atTime i a.1).program u) s

/-- **Some of the writes are done**, however often the request was interrupted. -/
lemma interrupted_eq (htx : i.tx = some tx) (ha : Admissible i.rpc tx)
    (hnonce : tx.nonce = storedNonce s tx.fromAddr) (h : RunsNothing tx s)
    (attempts : List (UInt64 × ℕ)) :
    ∃ j, interrupted i attempts s = puts ((plainWrites i.rpc tx s).take j) s := by
  unfold interrupted
  induction attempts using List.reverseRecOn with
  | nil => exact ⟨0, rfl⟩
  | append_singleton attempts a ih =>
    obtain ⟨j, hj⟩ := ih
    rw [List.foldl_append, hj]
    have htx' : (atTime i a.1).tx = some tx := htx
    obtain ⟨n, hn⟩ := stopped_program htx' a.2 (puts ((plainWrites i.rpc tx s).take j) s)
    have ha' : Admissible (atTime i a.1).rpc tx := ha
    by_cases hle : j ≤ (effectsOf tx).length
    · refine ⟨max j n, hn.trans ?_⟩
      have hwrites : writesOn (atTime i a.1) tx (puts ((plainWrites i.rpc tx s).take j) s) =
          plainWrites i.rpc tx s := (@again_before (atTime i a.1) tx s j ha' hnonce h hle).1
      rw [hwrites, puts_take_take (nodup_plainWrites i.rpc tx s)]
    · refine ⟨j, hn.trans ?_⟩
      have hwrites : writesOn (atTime i a.1) tx (puts ((plainWrites i.rpc tx s).take j) s) = [] :=
        (@again_after (atTime i a.1) tx s j ha' (Nat.lt_of_not_le hle)).1
      rw [hwrites, List.take_nil]
      rfl

/-- What an acknowledged transaction has passed. -/
lemma admissible_of_acknowledged (htx : i.tx = some tx)
    (hack : (run server i.program s).1.isError = false) :
    Admissible i.rpc tx ∧ tx.nonce = storedNonce s tx.fromAddr := by
  rw [run_program htx] at hack
  have hrc : (planOn i tx s).rc = 0 := by
    by_contra hne
    unfold responseOn at hack
    dsimp only at hack
    rw [if_pos hne] at hack
    cases hack
  obtain ⟨hinit, hchain, hnonce, hgas, -⟩ := (run_planTx_rc _ _ _ _ _).mp hrc
  exact ⟨⟨hinit, (chainIdRejected_eq _ _ _ _).mp hchain, hgas⟩, hnonce⟩

/-- **A transaction that is sent until it is answered is executed once.** It runs no contract, and
it would be acknowledged. However often it is interrupted, and wherever, all that is missing after
the last attempt is nothing, a receipt, or the next block number and the receipt; and the last
attempt is acknowledged, or says that the nonce is too low. -/
theorem retried_once (i : SendRequest) (tx : Tx) (htx : i.tx = some tx) (s : Store)
    (h : RunsNothing tx s) (hack : (run server i.program s).1.isError = false)
    (attempts : List (UInt64 × ℕ)) :
    let once := run server i.program s
    let again := run server i.program (interrupted i attempts s)
    ∃ missing, missing <:+ [blockCell, receiptCell tx.hash] ∧
      (∀ c, again.2 c = if c ∈ missing then s c else once.2 c) ∧
      (again.1 = once.1 ∧ missing = [] ∨
        again.1 = .error i.id (-32603) ((nonceMismatch (tx.nonce + 1) tx.nonce).take 255)) := by
  intro once again
  obtain ⟨ha, hnonce⟩ := admissible_of_acknowledged htx hack
  obtain ⟨j, hj⟩ := interrupted_eq htx ha hnonce h attempts
  have hnodup := nodup_plainWrites i.rpc tx s
  have honce : once =
      (.result i.id (quoted (hashToHex tx.hash)), puts (plainWrites i.rpc tx s) s) := by
    obtain ⟨hwrites, hresponse⟩ := writesOn_plain ha hnonce h
    show run server i.program s = _
    rw [run_program htx, hwrites, hresponse]
  have hagain : again = (responseOn i tx (puts ((plainWrites i.rpc tx s).take j) s),
      puts (writesOn i tx (puts ((plainWrites i.rpc tx s).take j) s))
        (puts ((plainWrites i.rpc tx s).take j) s)) := by
    show run server i.program (interrupted i attempts s) = _
    rw [hj, run_program htx]
  by_cases hle : j ≤ (effectsOf tx).length
  · obtain ⟨hwrites, hresponse⟩ := again_before ha hnonce h hle
    have hall := puts_take_take hnodup j (plainWrites i.rpc tx s).length s
    rw [List.take_length, List.take_of_length_le (Nat.le_max_right _ _)] at hall
    rw [hwrites, hresponse, hall] at hagain
    have hsame : again = once := hagain.trans honce.symm
    exact ⟨[], List.nil_suffix, fun c => by rw [hsame]; simp, Or.inl ⟨by rw [hsame], rfl⟩⟩
  · have hlt := Nat.lt_of_not_le hle
    obtain ⟨hwrites, hresponse⟩ := @again_after i tx s j ha hlt
    rw [hwrites, hresponse] at hagain
    refine ⟨((plainWrites i.rpc tx s).drop j).map Prod.fst, ?_, fun c => ?_, Or.inr ?_⟩
    · rw [cells_drop, List.drop_append, List.drop_of_length_le (by simpa using hlt),
        List.nil_append]
      exact List.drop_suffix _ _
    · rw [hagain, honce]
      exact puts_take hnodup j s c
    · rw [hagain]

/-- A request with the plain transaction. -/
def plainSend : SendRequest := ⟨idleRpc, plainParser, 0, ascii "1", plainRequest⟩

/-- It is interrupted before the nonce is written, and then behind it. -/
theorem retried_once_plainSend :
    ∃ missing, missing <:+ [blockCell, receiptCell plainTx.hash] ∧
      ∀ c, (run server plainSend.program
        (interrupted plainSend [(0, 3), (1, 4)] fun _ => none)).2 c =
          if c ∈ missing then none else (run server plainSend.program fun _ => none).2 c := by
  obtain ⟨missing, hmissing, hcells, -⟩ := retried_once plainSend plainTx (by decide +kernel)
    (fun _ => none) (Or.inr rfl) (by decide +kernel) [(0, 3), (1, 4)]
  exact ⟨missing, hmissing, hcells⟩

end EvmDb.Retries
