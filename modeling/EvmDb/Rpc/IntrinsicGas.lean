import EvmDb.Evm.Gas
import EvmDb.Rpc.Handlers

/-!
The three places that count the intrinsic gas: the executor, `eth_estimateGas`, and
`src/evm/gas.c`.

Only the last one has a surcharge for creations. An estimate goes by the length of the calldata as
an `int`.
-/

namespace EvmDb.IntrinsicGas

open EvmDb.Types EvmDb.Digits EvmDb.Hex EvmDb.Program EvmDb.Redis EvmDb.RedisState EvmDb.Executor
open EvmDb.Plan EvmDb.Effects EvmDb.Request EvmDb.Handlers EvmDb.Gas

/-! ### One rule -/

def tooLow : Bytes := ascii "intrinsic gas too low"

/-- A transaction passes the checks before the one of its gas. -/
structure ReachesGasCheck (evm : Evm) (tx : Tx) (blockCtx : Option BlockContext) (s : Store) :
    Prop where
  initialized : evm.initialized = true
  chainId : chainIdRejected tx blockCtx = false
  nonce : tx.nonce = storedNonce s tx.fromAddr

/-- The executor rejects what has less gas than `gas.c` counts. No status of an interpreter is
called as the rejection is. -/
def Required (data : Bytes) (isCreate : Bool) : Prop :=
  ∀ evm tx blockCtx result s, tx.data = data → tx.toIsNull = isCreate →
    (∀ status, evm.statusCodeToString status ≠ tooLow) → ReachesGasCheck evm tx blockCtx s →
      let (rc, result') := (run server (executeTx evm tx blockCtx result) s).1
      (rc = -1 ∧ result'.error = tooLow ↔ tx.gasLimit < gasIntrinsic data isCreate)

/-- What the execution of code costs, out of the gas that `gas.c` leaves for it. -/
def executionCost (evm : Evm) (tx : Tx) (blockCtx : Option BlockContext) (s : Store) : UInt64 :=
  if Executes tx s then
    tx.gasLimit - gasIntrinsic tx.data tx.toIsNull - gasLeft (contractResult evm tx blockCtx s)
  else 0

/-- The executor charges what `gas.c` counts, and the execution. -/
def Charged (data : Bytes) (isCreate : Bool) : Prop :=
  ∀ evm tx blockCtx result s, tx.data = data → tx.toIsNull = isCreate →
    let (rc, result') := (run server (executeTx evm tx blockCtx result) s).1
    rc = 0 → result'.gasUsed = executionCost evm tx blockCtx s + gasIntrinsic data isCreate

/-- A field stands for some bytes, written as hex digits; a missing one stands for none. -/
def Denotes : Option Bytes → Bytes → Prop
  | none, data => data = []
  | some hex, data =>
    (skipPrefix (cstr hex)).length % 2 = 0 ∧ hexPairs (skipPrefix (cstr hex)) = (true, data)

/-- A request asks for the gas of a transaction; a creation has no receiver. -/
structure Asks (request data : Bytes) (isCreate : Bool) : Prop where
  to_ : extractParamFieldString request (ascii "to") = none ↔ isCreate = true
  data : Denotes (extractParamFieldString request (ascii "data")) data

/-- An estimate is what `gas.c` counts. -/
def Estimated (data : Bytes) (isCreate : Bool) : Prop :=
  ∀ id request s, Asks request data isCreate →
    (run server (handleEstimateGas id request) s).1 =
      .result id (quotedNumber (gasIntrinsic data isCreate))

/-- There is one rule of intrinsic gas. -/
structure OneRule (data : Bytes) (isCreate : Bool) : Prop where
  required : Required data isCreate
  charged : Charged data isCreate
  estimated : Estimated data isCreate

variable {data : Bytes} {isCreate : Bool}

/-! ### The executor -/

section

variable {evm : Evm} {tx : Tx} {blockCtx : Option BlockContext} {s : Store}

/-- A contract that fails says so in the words of the interpreter. -/
lemma issues_planContract_error (origin sender to_ : Address) (value : Bytes32) (gas : UInt64)
    (flags : UInt32) (commitState : Bool) (result : ExecResult) :
    Issues (fun _ => True)
      (fun p => p.rc ≠ 0 → ∃ status, p.result.error = (evm.statusCodeToString status).take 255)
      (planContract evm blockCtx origin sender to_ data value gas flags commitState result) := by
  refine issues_read trivial _ fun code => ?_
  by_cases hcode : code.length = 0
  · rw [if_pos hcode]
    exact fun h => absurd rfl h
  rw [if_neg hcode]
  refine (issues_true _).bind fun p _ => ?_
  by_cases hneg : p.1.statusCode < 0
  · simp only [if_pos hneg]
    exact fun _ => ⟨_, rfl⟩
  by_cases hfail : p.1.statusCode ≠ 0
  · simp only [if_neg hneg, if_pos hfail]
    exact fun h => absurd rfl h
  · simp only [if_neg hneg, if_neg hfail]
    exact fun h => absurd rfl h

lemma planEffects_error (nonce : UInt64) (result : ExecResult)
    (hrc : (run server (planEffects evm tx blockCtx nonce result) s).1.rc ≠ 0) :
    ∃ status, (run server (planEffects evm tx blockCtx nonce result) s).1.result.error =
      (evm.statusCodeToString status).take 255 := by
  have hissues : Issues (fun _ => True)
      (fun p => p.rc ≠ 0 → ∃ status, p.result.error = (evm.statusCodeToString status).take 255)
      (planEffects evm tx blockCtx nonce result) := by
    unfold planEffects
    split_ifs
    · exact fun h => absurd rfl h
    · refine (issues_planContract_error _ _ _ _ _ _ _ _).bind fun p hp => ?_
      split_ifs with hfail
      · exact hp
      · exact fun h => absurd h hfail
  exact (hissues.run_inv (I := fun _ => True) (fun _ _ _ _ => trivial) trivial).2 hrc

/-- What the executor does with a transaction that gets to the gas check. -/
lemma run_executeTx_of_reaches (h : ReachesGasCheck evm tx blockCtx s) (result : ExecResult) :
    (run server (executeTx evm tx blockCtx result) s).1 =
      if intrinsicGas tx.data > tx.gasLimit then (-1, result.withError tooLow)
      else
        let p := (run server (planEffects evm tx blockCtx tx.nonce { result with output := [] })
          s).1
        (p.rc, p.result) := by
  rw [run_executeTx]
  unfold planTx
  rw [if_neg (by simp [h.initialized]), if_neg (by simp [h.chainId]), run_bind, run_getNonce]
  unfold planNonce
  rw [if_neg (not_not_intro h.nonce)]
  split_ifs with hgas
  · rfl
  · rw [run_bind, ← h.nonce]
    split_ifs with hrc
    · rfl
    · rw [ne_eq, Decidable.not_not] at hrc
      exact Prod.ext hrc.symm rfl

lemma required_call : Required data false := by
  rintro evm tx blockCtx result s rfl - hnames hreaches
  rw [run_executeTx_of_reaches hreaches]
  have hsame : gasIntrinsic tx.data false = intrinsicGas tx.data := rfl
  rw [hsame]
  split_ifs with hgas
  · exact ⟨fun _ => hgas, fun _ => ⟨rfl, rfl⟩⟩
  · refine ⟨fun ⟨hrc, herror⟩ => ?_, fun h => absurd h hgas⟩
    obtain ⟨status, htext⟩ := planEffects_error tx.nonce { result with output := [] }
      (fun h0 => by rw [h0] at hrc; cases hrc)
    have htake : (evm.statusCodeToString status).take 255 = tooLow := htext.symm.trans herror
    have hlen := congrArg List.length htake
    rw [List.length_take, show tooLow.length = 21 from rfl] at hlen
    rw [List.take_of_length_le (by omega)] at htake
    exact absurd htake (hnames status)

lemma gasUsed_executed (result : ExecResult)
    (hrc : (run server (executeTx evm tx blockCtx result) s).1.1 = 0) :
    (run server (executeTx evm tx blockCtx result) s).1.2.gasUsed =
      (outcome evm tx blockCtx s).gasUsed := by
  rw [run_executeTx] at hrc ⊢
  obtain ⟨-, -, -, -, heff⟩ := (run_planTx_rc server tx blockCtx result s).mp hrc
  rw [run_planTx_eq server tx blockCtx result s hrc]
  exact (planEffects_result tx blockCtx tx.nonce _ s heff).2.1

lemma charged_call : Charged data false := by
  rintro evm tx blockCtx result s rfl hcall
  intro hrc
  rw [gasUsed_executed result hrc, outcome_gasUsed]
  unfold executionCost refunded
  split_ifs
  · rw [hcall]
    rfl
  · rw [UInt64.sub_self]
    rfl

/-- A creation that has the gas the executor requires, and not what `gas.c` counts. -/
def creation (data : Bytes) : Tx :=
  { Tx.zero with toIsNull := true, data := data, gasLimit := intrinsicGas data }

lemma reaches_creation (data : Bytes) :
    ReachesGasCheck idle (creation data) none fun _ => none := ⟨rfl, rfl, rfl⟩

lemma run_creation (data : Bytes) (result : ExecResult) :
    (run server (executeTx idle (creation data) none result) fun _ => none).1 =
      (0, ⟨true, intrinsicGas data, [], []⟩) := by
  rw [run_executeTx_of_reaches (reaches_creation data)]
  exact if_neg (UInt64.not_lt.mpr (UInt64.le_refl _))

lemma intrinsicGas_lt_create (h : data.length < 2 ^ 59) :
    intrinsicGas data < gasIntrinsic data true := by
  rw [UInt64.lt_iff_toNat_lt, toNat_intrinsicGas h, toNat_gasIntrinsic h]
  show 21000 + calldataGas data < 53000 + calldataGas data
  omega

lemma not_required_creation (h : data.length < 2 ^ 59) : ¬ Required data true := by
  intro hrequired
  have hiff := hrequired idle (creation data) none ⟨false, 0, [], []⟩ (fun _ => none) rfl rfl
    (fun _ h => List.cons_ne_nil _ _ h.symm) (reaches_creation data)
  rw [run_creation] at hiff
  exact absurd (hiff.mpr (intrinsicGas_lt_create h)).1 (by decide)

lemma not_charged_creation (h : data.length < 2 ^ 59) : ¬ Charged data true := by
  intro hcharged
  have hgas := hcharged idle (creation data) none ⟨false, 0, [], []⟩ (fun _ => none) rfl rfl
  rw [run_creation] at hgas
  have hcost : executionCost idle (creation data) none (fun _ => none) = 0 :=
    if_neg fun h => Bool.noConfusion h.1
  have heq : intrinsicGas data = gasIntrinsic data true := by
    simpa [hcost] using hgas rfl
  exact absurd heq (UInt64.ne_of_lt (intrinsicGas_lt_create h))

end

/-! ### The estimate -/

lemma quotedNumber_inj {n m : UInt64} (h : quotedNumber n = quotedNumber m) : n = m := by
  unfold quotedNumber quoted at h
  have hnumber := List.append_cancel_right (List.cons.inj h).2
  rw [hexNumber_eq, hexNumber_eq] at hnumber
  have hvalue := congrArg (fun hex => value 16 (hex.map fun c => (hexCharVal c).getD 0))
    (List.append_cancel_left hnumber)
  rw [value_hexChars, value_hexChars] at hvalue
  exact UInt64.toNat_inj.mp hvalue

lemma length_skipPrefix_le (t : Bytes) : (skipPrefix t).length ≤ t.length := by
  unfold skipPrefix
  split
  · simp only [List.length_cons]
    omega
  · simp only [List.length_cons]
    omega
  · exact le_rfl

/-- What is estimated for some data, by the length that is returned for it. -/
lemma handleEstimateGas_of_denotes {id request hex : Bytes}
    (hfound : extractParamFieldString request (ascii "data") = some hex)
    (hdenotes : Denotes (some hex) data) :
    handleEstimateGas id request =
      if Int.bmod data.length (2 ^ 32) < 0 then
        .ret (.error id (-32602) (ascii "invalid transaction data"))
      else .ret (.result id (quotedNumber (intrinsicGas
        (data.take (Int.bmod data.length (2 ^ 32)).toNat)))) := by
  obtain ⟨heven, hpairs⟩ := hdenotes
  have hlen := length_of_hexPairs hpairs
  have hcstr : (cstr hex).length ≤ hex.length := (List.takeWhile_prefix _).length_le
  have hskip := length_skipPrefix_le (cstr hex)
  have hdecode : hexDecode hex (hex.length / 2) = (Int.bmod data.length (2 ^ 32), data) := by
    unfold hexDecode
    dsimp only
    rw [if_neg (by omega), if_neg (by omega), hpairs, hlen]
    simp only [if_true]
  unfold handleEstimateGas
  rw [hfound]
  dsimp only
  rw [hdecode]
  generalize Int.bmod data.length (2 ^ 32) = byteLen
  rfl

lemma bmod_of_lt (h : data.length < 2 ^ 31) : Int.bmod data.length (2 ^ 32) = data.length := by
  rw [Int.bmod_eq_of_le] <;> omega

lemma estimated_call (h : data.length < 2 ^ 31) : Estimated data false := by
  intro id request s hasks
  obtain ⟨-, hdenotes⟩ := hasks
  cases hfound : extractParamFieldString request (ascii "data") with
  | none =>
    rw [hfound] at hdenotes
    cases hdenotes
    unfold handleEstimateGas
    rw [hfound]
    rfl
  | some hex =>
    rw [hfound] at hdenotes
    rw [handleEstimateGas_of_denotes hfound hdenotes, bmod_of_lt h, if_neg (by omega),
      Int.toNat_natCast, List.take_length]
    rfl

/-- A request that asks for the gas of some calldata. -/
def estimateRequest (data : Bytes) (isCreate : Bool) : Bytes :=
  ascii "\x7b\"method\":\"eth_estimateGas\",\"params\":[\x7b" ++
    ((if isCreate then [] else ascii "\"to\":\"0x\",") ++
      (ascii "\"data\":\"0x" ++ (data.flatMap hexByte ++ ascii "\"\x7d]\x7d")))

lemma findParams_estimate (t : Bytes) : findParamsArray
    (ascii "\x7b\"method\":\"eth_estimateGas\",\"params\":[\x7b" ++ t) = some (ascii "\x7b" ++ t) :=
  rfl

lemma extractQuotedString_append {b : Bytes} (hb : 34 ∉ b) (t : Bytes) :
    extractQuotedString (34 :: (b ++ 34 :: t)) = some b := by
  have htext : ∀ d ∈ b, (d ≠ 34 : Bool) = true := by
    intro d hd
    simpa using ne_of_mem_of_not_mem hd hb
  rw [extractQuotedString, List.takeWhile_append_of_pos htext,
    List.takeWhile_cons_of_neg (by decide), List.append_nil, List.length_append]
  exact if_pos (Nat.lt_add_of_pos_right (Nat.succ_pos _))

lemma extract_data (data : Bytes) (isCreate : Bool) :
    extractParamFieldString (estimateRequest data isCreate) (ascii "data") =
      some (hexText data) := by
  have hquote : (34 : UInt8) ∉ hexText data := by
    rw [hexText, List.mem_append, not_or]
    exact ⟨by decide, quote_notMem_hexBytes data⟩
  rw [← extractQuotedString_append hquote (ascii "\x7d]\x7d")]
  unfold extractParamFieldString estimateRequest hexText
  rw [findParams_estimate, List.append_assoc]
  cases isCreate <;> rfl

lemma extract_to (data : Bytes) (isCreate : Bool) :
    extractParamFieldString (estimateRequest data isCreate) (ascii "to") =
      if isCreate then none else some (ascii "0x") := by
  unfold extractParamFieldString estimateRequest
  rw [findParams_estimate]
  cases isCreate with
  | false => rfl
  | true =>
    have hskip : ∀ c ∈ data.flatMap hexByte, (quoted (ascii "to")).head? ≠ some c := by
      rintro c hc h
      cases h
      exact quote_notMem_hexBytes data hc
    have hnone : strstr (quoted (ascii "to")) (ascii "\x7b" ++ (ascii "\"data\":\"0x" ++
        (data.flatMap hexByte ++ ascii "\"\x7d]\x7d"))) = none := by
      calc strstr (quoted (ascii "to")) _
          = strstr (quoted (ascii "to")) (data.flatMap hexByte ++ ascii "\"\x7d]\x7d") := rfl
        _ = strstr (quoted (ascii "to")) (ascii "\"\x7d]\x7d") :=
            strstr_append hskip (by decide) _
        _ = none := rfl
    exact congrArg (· >>= _) hnone

lemma asks_estimateRequest (data : Bytes) (isCreate : Bool) :
    Asks (estimateRequest data isCreate) data isCreate := by
  refine ⟨by rw [extract_to]; cases isCreate <;> simp, ?_⟩
  rw [extract_data]
  show (skipPrefix (cstr (hexText data))).length % 2 = 0 ∧ hexPairs _ = _
  rw [skipPrefix_hexText, hexPairs_flatMap]
  have hlen := length_hexText data
  rw [hexText, List.length_append, show (ascii "0x").length = 2 from rfl] at hlen
  exact ⟨by omega, rfl⟩

lemma calldataGas_split (data : Bytes) (k : ℕ) :
    calldataGas (data.take k) + calldataGas (data.drop k) = calldataGas data := by
  unfold calldataGas
  rw [← List.sum_append, ← List.map_append, List.take_append_drop]

lemma calldataGas_pos (h : data ≠ []) : 0 < calldataGas data := by
  obtain ⟨b, bs, rfl⟩ := List.exists_cons_of_ne_nil h
  unfold calldataGas
  rw [List.map_cons, List.sum_cons]
  split_ifs <;> omega

/-- Only a call is estimated as `gas.c` counts, and only if the length of its calldata is an
`int`. -/
lemma of_estimated (h : data.length < 2 ^ 59) (hestimated : Estimated data isCreate) :
    isCreate = false ∧ data.length < 2 ^ 31 := by
  have hasks := asks_estimateRequest data isCreate
  have hresponse := hestimated [] _ (fun _ => none) hasks
  have hdenotes := hasks.data
  rw [extract_data] at hdenotes
  rw [handleEstimateGas_of_denotes (extract_data data isCreate) hdenotes] at hresponse
  have hlt : Int.bmod data.length (2 ^ 32) < 2 ^ 31 := Int.bmod_lt (by omega)
  generalize Int.bmod data.length (2 ^ 32) = byteLen at hresponse hlt
  split_ifs at hresponse with hneg
  · cases hresponse
  have hnumber := quotedNumber_inj (Response.result.inj hresponse).2
  have hgas := congrArg UInt64.toNat hnumber
  have htake : (data.take byteLen.toNat).length < 2 ^ 59 := by
    rw [List.length_take]
    omega
  rw [toNat_intrinsicGas htake, toNat_gasIntrinsic h] at hgas
  have hsplit := calldataGas_split data byteLen.toNat
  cases isCreate with
  | true =>
    rw [if_pos rfl] at hgas
    omega
  | false =>
    refine ⟨rfl, ?_⟩
    by_contra hlong
    have hrest : 0 < calldataGas (data.drop byteLen.toNat) := by
      apply calldataGas_pos
      rw [ne_eq, List.drop_eq_nil_iff]
      omega
    rw [if_neg (by decide)] at hgas
    omega

lemma required_iff (h : data.length < 2 ^ 59) : Required data isCreate ↔ isCreate = false := by
  cases isCreate with
  | false => exact iff_of_true required_call rfl
  | true => exact iff_of_false (not_required_creation h) (by decide)

lemma charged_iff (h : data.length < 2 ^ 59) : Charged data isCreate ↔ isCreate = false := by
  cases isCreate with
  | false => exact iff_of_true charged_call rfl
  | true => exact iff_of_false (not_charged_creation h) (by decide)

lemma estimated_iff (h : data.length < 2 ^ 59) :
    Estimated data isCreate ↔ isCreate = false ∧ data.length < 2 ^ 31 :=
  ⟨of_estimated h, fun ⟨hcall, hlen⟩ => hcall ▸ estimated_call hlen⟩

/-- **One rule of intrinsic gas, for calls**, as long as the length of the calldata is an `int`. -/
theorem oneRule_iff (h : data.length < 2 ^ 59) :
    OneRule data isCreate ↔ isCreate = false ∧ data.length < 2 ^ 31 := by
  constructor
  · exact fun hrule => (estimated_iff h).mp hrule.estimated
  · exact fun hcall => ⟨(required_iff h).mpr hcall.1, (charged_iff h).mpr hcall.1,
      (estimated_iff h).mpr hcall⟩

/-- For a call there is one rule: here 21000 and 2 * 4 + 3 * 16. -/
theorem oneRule_call : OneRule [0x00, 0x01, 0xff, 0x00, 0x80] false :=
  (oneRule_iff (by decide)).mpr ⟨rfl, by decide⟩

example : intrinsicGas [0x00, 0x01, 0xff, 0x00, 0x80] = 21056 := by decide

/-- For a creation without calldata there is not. -/
theorem not_oneRule_creation : ¬ OneRule [] true :=
  fun hrule => not_required_creation (by decide) hrule.required

end EvmDb.IntrinsicGas
