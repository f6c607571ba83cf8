import EvmDb.Lib.Counters
import EvmDb.Lib.Rlp
import EvmDb.Evm.Effects

/-!
Code that is deployed stays as it is.

The address of a contract is a hash of its creator and the creator's nonce, and no nonce is used
twice. So, short of a collision, a creation stores its code at an address that has none yet.
-/

namespace EvmDb.Immutable

open EvmDb.Types EvmDb.Digits EvmDb.Keccak EvmDb.Program EvmDb.Redis EvmDb.RedisState EvmDb.Host
open EvmDb.Executor EvmDb.Plan EvmDb.Effects

/-! ### Runs of transactions -/

/-- The store after some calls, one after the other. -/
def storeAfter : List TxCall → Store → Store
  | [], s => s
  | c :: cs, s => storeAfter cs (c.run s).2

/-- The transactions that some calls execute. -/
def executedBy : List TxCall → Store → List (Address × UInt64)
  | [], _ => []
  | c :: cs, s => (c.executed s).toList ++ executedBy cs (c.run s).2

/-- The contract creations among them. -/
def createdBy : List TxCall → Store → List (Address × UInt64)
  | [], _ => []
  | c :: cs, s =>
    (if c.tx.toIsNull then (c.executed s).toList else []) ++ createdBy cs (c.run s).2

/-- What is hashed to the address of a contract. -/
def createInput (sender : Address) (nonce : UInt64) : Bytes :=
  rlpEncodeList (rlpEncodeBytes sender.bytes ++ rlpEncodeUint64 nonce)

/-- No two of the inputs have hashes that end in the same 20 bytes. -/
def CollisionFree (inputs : List Bytes) : Prop :=
  ∀ x ∈ inputs, ∀ y ∈ inputs, addressOfHash (keccak256 x) = addressOfHash (keccak256 y) → x = y

/-! ### The input determines the creator and the nonce -/

lemma rlpEncodeBytes_eq {data : Bytes} (h : data.length ≤ 55) :
    rlpEncodeBytes data = Rlp.encodeStr data := by
  unfold rlpEncodeBytes Rlp.encodeStr Rlp.strHeader Rlp.header
  split_ifs with hs
  · obtain ⟨b, rfl⟩ := List.length_eq_one_iff.mp hs.1
    rfl
  · rfl

lemma rlpEncodeUint64_eq (value : UInt64) :
    rlpEncodeUint64 value = Rlp.encodeStr (Radix.minimal value.toNat) := by
  have hlt : value.toNat < 256 ^ 8 := value.toNat_lt
  have hlen := Radix.length_minimal_le hlt
  unfold rlpEncodeUint64
  split_ifs with h0
  · rw [h0]
    rfl
  · rw [Radix.takeBytes_eq hlt, List.append_nil]
    exact rlpEncodeBytes_eq (by omega)

lemma createInput_inj {a b : Address} {m n : UInt64} (h : createInput a m = createInput b n) :
    a = b ∧ m = n := by
  have hpayload : rlpEncodeBytes a.bytes ++ rlpEncodeUint64 m =
      rlpEncodeBytes b.bytes ++ rlpEncodeUint64 n := (List.cons.inj h).2
  have hlen : ∀ c : Address, c.bytes.length ≤ 55 := by simp
  have hword : ∀ v : UInt64, (Radix.minimal v.toNat).length ≤ 8 := fun v =>
    Radix.length_minimal_le v.toNat_lt
  rw [rlpEncodeBytes_eq (hlen a), rlpEncodeBytes_eq (hlen b), rlpEncodeUint64_eq,
    rlpEncodeUint64_eq] at hpayload
  obtain ⟨hab, hmn⟩ := Rlp.encodeStr_inj (by simp) (by simp) hpayload
  refine ⟨FixedBytes.ext hab, ?_⟩
  have hm := hword m
  have hn := hword n
  rw [← List.append_nil (Rlp.encodeStr _),
    ← List.append_nil (Rlp.encodeStr (Radix.minimal n.toNat))]
    at hmn
  obtain ⟨hminimal, -⟩ := Rlp.encodeStr_inj (by omega) (by omega) hmn
  apply UInt64.toNat_inj.mp
  rw [← Radix.value_minimal m.toNat, hminimal, Radix.value_minimal]

/-! ### One transaction -/

variable {evm : Evm}

/-- The only code that is planned is that of the contract a transaction creates. -/
lemma issues_planTx_code (tx : Tx) (blockCtx : Option BlockContext) (result : ExecResult) :
    Issues StateReads (fun p => ∀ a, codeCell a ∈ p.writes.map Prod.fst →
        p.rc = 0 ∧ tx.toIsNull = true ∧ a = computeCreateAddress tx.fromAddr tx.nonce)
      (planTx evm tx blockCtx result) := by
  unfold planTx
  split_ifs
  · exact fun a ha => absurd ha List.not_mem_nil
  · exact fun a ha => absurd ha List.not_mem_nil
  refine issues_read (.hget _ _) _ fun n => ?_
  unfold planNonce planEffects
  split_ifs with hnonce hgas hnull
  · exact fun a ha => absurd ha List.not_mem_nil
  · exact fun a ha => absurd ha List.not_mem_nil
  · rw [ne_eq, Decidable.not_not] at hnonce
    intro a ha
    refine ⟨rfl, hnull, ?_⟩
    rw [hnonce]
    simpa [codeWrite, nonceWrite] using ha
  · -- a contract's run ends with writes to slots only
    have hslots : ∀ p : Planned, (∀ a, codeCell a ∉ p.writes.map Prod.fst) →
        Issues StateReads (fun p : Planned => ∀ a, codeCell a ∉ p.writes.map Prod.fst)
          (if p.rc ≠ 0 then return p
            else return { p with result := { p.result with
              gasUsed := p.result.gasUsed + intrinsicGas tx.data } } : RedisProg Planned) := by
      intro p hp
      split_ifs <;> exact hp
    have hplan := (@issues_planContract_of evm
      (fun p : Planned => ∀ a, codeCell a ∉ p.writes.map Prod.fst)
      (fun _ _ _ => List.not_mem_nil)
      blockCtx tx.fromAddr tx.fromAddr tx.toAddr tx.data (.zero 32)
      (tx.gasLimit - intrinsicGas tx.data) 0 true
      (fun _ ctx _ _ a ha => by
        obtain ⟨w, hw, hc⟩ := List.mem_map.mp ha
        obtain ⟨e, -, rfl⟩ := List.mem_map.mp hw
        cases hc)
      { result with output := [] }).bind hslots
    refine hplan.bind fun p hp => ?_
    split_ifs with hrc
    · exact fun a ha => absurd ha (hp a)
    · intro a ha
      simp only [List.map_append, List.mem_append, List.map_cons, List.map_nil,
        List.mem_singleton] at ha
      rcases ha with ha | ha
      · exact absurd ha (hp a)
      · cases ha

/-- A transaction leaves code as it is, or creates the contract at that address. -/
lemma code_step (c : TxCall) (s : Store) (addr : Address) :
    (c.run s).2 (codeCell addr) = s (codeCell addr) ∨
      c.tx.toIsNull = true ∧ c.executed s = some (c.tx.fromAddr, c.tx.nonce) ∧
        addr = computeCreateAddress c.tx.fromAddr c.tx.nonce := by
  have hplan := (run_reads (reads_of_stateReads
    (@issues_planTx_code c.evm c.tx c.blockCtx c.result)) s).2
  unfold TxCall.executed TxCall.run TxCall.program
  rw [run_executeTx]
  by_cases hmem : codeCell addr ∈
      (Program.run server (planTx c.evm c.tx c.blockCtx c.result) s).1.writes.map Prod.fst
  · obtain ⟨hrc, hnull, haddr⟩ := hplan addr hmem
    exact Or.inr ⟨hnull, if_pos hrc, haddr⟩
  · exact Or.inl (puts_of_notMem hmem s)

/-- The nonce is written behind the code, and elsewhere. -/
lemma storedCode_puts (contract fromAddr : Address) (nonce : UInt64) (code : Bytes) (s : Store) :
    storedCode (puts ([codeWrite contract code] ++ [nonceWrite fromAddr nonce]) s) contract =
      code := by
  rw [puts_append, storedCode, puts_of_notMem (by simp [nonceWrite])]
  show bytesOf (some (.ofCell (put s (codeCell contract) code (codeCell contract)))) = code
  rw [put_same]
  rfl

/-- A creation that is executed stores its code. -/
lemma storedCode_created {c : TxCall} {s : Store} (hrc : (c.run s).1.1 = 0)
    (hnull : c.tx.toIsNull = true) :
    storedCode (c.run s).2 (computeCreateAddress c.tx.fromAddr c.tx.nonce) = c.tx.data := by
  have hwrites : ∀ result s',
      (run server (planEffects c.evm c.tx c.blockCtx c.tx.nonce result) s').1.writes =
        [codeWrite (computeCreateAddress c.tx.fromAddr c.tx.nonce) c.tx.data] := by
    intro result s'
    unfold planEffects
    rw [if_pos hnull]
    rfl
  unfold TxCall.run TxCall.program at hrc ⊢
  rw [run_executeTx] at hrc ⊢
  rw [run_planTx_eq server c.tx c.blockCtx c.result s hrc]
  dsimp only
  rw [hwrites]
  exact storedCode_puts _ _ _ _ _

/-- The nonces after a transaction. -/
lemma nonce_step (c : TxCall) (s : Store) (addr : Address) :
    storedNonce (c.run s).2 addr =
      if (c.run s).1.1 = 0 ∧ addr = c.tx.fromAddr then c.tx.nonce + 1 else storedNonce s addr := by
  have hok := (run_reads (reads_of_stateReads
    (@issues_planTx c.evm c.tx c.blockCtx c.result)) s).2
  unfold TxCall.run TxCall.program
  rw [run_executeTx]
  exact hok.storedNonce_puts s addr

lemma nonce_of_executed {c : TxCall} {s : Store} (h : (c.run s).1.1 = 0) :
    c.tx.nonce = storedNonce s c.tx.fromAddr := by
  unfold TxCall.run TxCall.program at h
  rw [run_executeTx] at h
  exact ((run_planTx_rc server c.tx c.blockCtx c.result s).mp h).2.2.1

/-- A transaction uses up the nonce of its sender, or leaves all nonces as they are. -/
lemma counters_step {c : TxCall} {s : Store}
    (h : ∀ x ∈ c.executed s, x.2.toNat < 2 ^ 64 - 1) :
    Counters.Step (nonces s) ((c.executed s).map fun x => (x.1, x.2.toNat))
      (nonces (c.run s).2) := by
  unfold TxCall.executed at h ⊢
  by_cases hrc : (c.run s).1.1 = 0
  · rw [if_pos hrc] at h ⊢
    have hlt : c.tx.nonce.toNat < 2 ^ 64 - 1 := h _ rfl
    have hcounter : c.tx.nonce.toNat = nonces s c.tx.fromAddr :=
      congrArg UInt64.toNat (nonce_of_executed hrc)
    have hnext : nonces (c.run s).2 =
        Function.update (nonces s) c.tx.fromAddr (c.tx.nonce.toNat + 1) := by
      ext addr
      unfold nonces
      rw [nonce_step, Function.update_apply]
      by_cases haddr : addr = c.tx.fromAddr
      · rw [if_pos ⟨hrc, haddr⟩, if_pos haddr, toNat_succ hlt]
      · rw [if_neg fun hc => haddr hc.2, if_neg haddr]
    rw [hnext]
    show Counters.Step _ (some (c.tx.fromAddr, c.tx.nonce.toNat)) _
    rw [hcounter]
    exact .use _ _ (Nat.lt_succ_self _)
  · have hsame : nonces (c.run s).2 = nonces s := by
      ext addr
      unfold nonces
      rw [nonce_step, if_neg fun hc => hrc hc.1]
    rw [if_neg hrc, hsame]
    exact .idle

/-! ### Runs -/

lemma storeAfter_append (cs ds : List TxCall) (s : Store) :
    storeAfter (cs ++ ds) s = storeAfter ds (storeAfter cs s) := by
  induction cs generalizing s with
  | nil => rfl
  | cons c cs ih => exact ih _

lemma executedBy_append (cs ds : List TxCall) (s : Store) :
    executedBy (cs ++ ds) s = executedBy cs s ++ executedBy ds (storeAfter cs s) := by
  induction cs generalizing s with
  | nil => rfl
  | cons c cs ih => simp only [List.cons_append, executedBy, storeAfter, ih, List.append_assoc]

lemma createdBy_append (cs ds : List TxCall) (s : Store) :
    createdBy (cs ++ ds) s = createdBy cs s ++ createdBy ds (storeAfter cs s) := by
  induction cs generalizing s with
  | nil => rfl
  | cons c cs ih => simp only [List.cons_append, createdBy, storeAfter, ih, List.append_assoc]

lemma executedBy_of_createdBy {cs : List TxCall} {s : Store} {x : Address × UInt64}
    (h : x ∈ createdBy cs s) : x ∈ executedBy cs s := by
  induction cs generalizing s with
  | nil => exact h
  | cons c cs ih =>
    rw [createdBy, List.mem_append] at h
    rw [executedBy, List.mem_append]
    refine h.imp (fun hc => ?_) ih
    split_ifs at hc
    · exact hc
    · cases hc

/-- Where no nonce wraps, the transactions of a run use up the values of the nonces. -/
lemma counters_run {cs : List TxCall} {s : Store}
    (h : ∀ x ∈ executedBy cs s, x.2.toNat < 2 ^ 64 - 1) :
    ∃ ls, Counters.Run (nonces s) ls (nonces (storeAfter cs s)) ∧
      ∀ x ∈ executedBy cs s, some (x.1, x.2.toNat) ∈ ls := by
  induction cs generalizing s with
  | nil => exact ⟨[], .nil _, by simp [executedBy]⟩
  | cons c cs ih =>
    simp only [executedBy, List.forall_mem_append, Option.mem_toList] at h
    obtain ⟨ls, hrun, hmem⟩ := ih h.2
    refine ⟨_ :: ls, .cons (counters_step h.1) hrun, ?_⟩
    simp only [executedBy, List.forall_mem_append, Option.mem_toList]
    refine ⟨fun x hx => ?_, fun x hx => List.mem_cons_of_mem _ (hmem x hx)⟩
    rw [Option.mem_def.mp hx]
    exact List.mem_cons_self

/-- The nonces used in a run lie between those before and after it. -/
lemma nonce_between {cs : List TxCall} {s : Store}
    (h : ∀ x ∈ executedBy cs s, x.2.toNat < 2 ^ 64 - 1) {x : Address × UInt64}
    (hx : x ∈ executedBy cs s) :
    nonces s x.1 ≤ x.2.toNat ∧ x.2.toNat < nonces (storeAfter cs s) x.1 := by
  obtain ⟨ls, hrun, hmem⟩ := counters_run h
  exact hrun.between (hmem x hx)

/-- A run leaves code as it is, or creates a contract at that address. -/
lemma code_run (cs : List TxCall) (s : Store) (addr : Address) :
    storeAfter cs s (codeCell addr) = s (codeCell addr) ∨
      ∃ x ∈ createdBy cs s, addr = computeCreateAddress x.1 x.2 := by
  induction cs generalizing s with
  | nil => exact Or.inl rfl
  | cons c cs ih =>
    rw [createdBy, storeAfter]
    rcases ih (c.run s).2 with hcs | ⟨x, hx, haddr⟩
    · rcases code_step c s addr with hc | ⟨hnull, hex, haddr⟩
      · exact Or.inl (hcs.trans hc)
      · refine Or.inr ⟨(c.tx.fromAddr, c.tx.nonce), List.mem_append_left _ ?_, haddr⟩
        rw [if_pos hnull, hex]
        exact List.mem_singleton_self _
    · exact Or.inr ⟨x, List.mem_append_right _ hx, haddr⟩

/-- **Deployed code is immutable.** In every run in which no nonce is the last of its range and no
two creations collide, from a store without code at the addresses of contracts to come, code that
is there at some time is there ever after. -/
theorem code_immutable (earlier later : List TxCall) (s : Store)
    (hnonces : ∀ x ∈ executedBy (earlier ++ later) s, x.2.toNat < 2 ^ 64 - 1)
    (hvacant : ∀ sender nonce, storedNonce s sender ≤ nonce →
      storedCode s (computeCreateAddress sender nonce) = [])
    (hfree : CollisionFree ((createdBy (earlier ++ later) s).map fun x => createInput x.1 x.2))
    (addr : Address) (hcode : storedCode (storeAfter earlier s) addr ≠ []) :
    storedCode (storeAfter (earlier ++ later) s) addr =
      storedCode (storeAfter earlier s) addr := by
  rw [executedBy_append, List.forall_mem_append] at hnonces
  rw [createdBy_append] at hfree
  rw [storeAfter_append]
  rcases code_run later (storeAfter earlier s) addr with hsame | ⟨x, hx, hxaddr⟩
  · unfold storedCode
    rw [hsame]
  -- a later creation at an address that has code
  exfalso
  have hxlater := (nonce_between hnonces.2 (executedBy_of_createdBy hx)).1
  rcases code_run earlier s addr with hsame | ⟨y, hy, hyaddr⟩
  · -- the code has been there from the start
    apply hcode
    unfold storedCode
    rw [hsame, hxaddr]
    refine hvacant x.1 x.2 (UInt64.le_iff_toNat_le.mpr ?_)
    obtain ⟨ls, hrun, -⟩ := counters_run hnonces.1
    exact (hrun.mono x.1).trans hxlater
  · -- an earlier creation has put it there
    have hxy : createInput x.1 x.2 = createInput y.1 y.2 := by
      refine hfree _ ?_ _ ?_ (hxaddr.symm.trans hyaddr)
      · exact List.mem_map.mpr ⟨x, List.mem_append_right _ hx, rfl⟩
      · exact List.mem_map.mpr ⟨y, List.mem_append_left _ hy, rfl⟩
    obtain ⟨hsender, hnonce⟩ := createInput_inj hxy
    have hyearlier := (nonce_between hnonces.1 (executedBy_of_createdBy hy)).2
    rw [← hsender, ← hnonce] at hyearlier
    omega

/-- A contract of one byte. -/
def deployment : TxCall := ⟨idle, { plainTx with toIsNull := true, data := [1], gasLimit := 21016 },
  none, .zero⟩

/-- A contract is still there after an attempt to create it again. -/
theorem code_immutable_deployment :
    storedCode (storeAfter ([deployment] ++ [deployment]) fun _ => none)
      (computeCreateAddress (.zero 20) 0) = [1] := by
  have hcode : storedCode (storeAfter [deployment] fun _ => none)
      (computeCreateAddress (.zero 20) 0) = [1] :=
    storedCode_created (c := deployment) (by decide +kernel) rfl
  have hexec : executedBy ([deployment] ++ [deployment]) (fun _ => none) = [(.zero 20, 0)] := by
    decide +kernel
  have hcreated : createdBy ([deployment] ++ [deployment]) (fun _ => none) = [(.zero 20, 0)] := by
    decide +kernel
  have hvacant : ∀ addr, storedCode (fun _ => none) addr = [] := fun _ => rfl
  rw [code_immutable [deployment] [deployment] (fun _ => none) ?_ (fun _ _ _ => hvacant _) ?_ _ ?_,
    hcode]
  · rw [hexec]
    decide
  · rw [hcreated]
    intro x hx y hy _
    rw [List.map_singleton, List.mem_singleton] at hx hy
    rw [hx, hy]
  · rw [hcode]
    decide

end EvmDb.Immutable
