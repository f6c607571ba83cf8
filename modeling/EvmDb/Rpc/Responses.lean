import EvmDb.Lib.JsonTokens
import EvmDb.Rpc.ReadOnly

/-!
What is in a response besides the id: JSON values and messages that need no escapes.

The texts are printed from constants, numbers and hex digits. The texts of status codes are the
interpreter's, and are assumed to be plain.
-/

namespace EvmDb.Responses

open EvmDb.Checked EvmDb.Types EvmDb.Digits EvmDb.Hex EvmDb.Program EvmDb.Redis EvmDb.RedisState
open EvmDb.Executor EvmDb.Plan EvmDb.Request EvmDb.JsonText EvmDb.Json EvmDb.SendRaw
open EvmDb.Handlers EvmDb.Dispatch

/-! ### Plain texts -/

/-- A text that can stand between quotes as it is. -/
abbrev Plain (text : Bytes) : Prop := ∀ c ∈ text, isPlain c = true

lemma Plain.append {a b : Bytes} (ha : Plain a) (hb : Plain b) : Plain (a ++ b) :=
  List.forall_mem_append.mpr ⟨ha, hb⟩

lemma Plain.take {a : Bytes} (ha : Plain a) (n : ℕ) : Plain (a.take n) :=
  fun c hc => ha c (List.mem_of_mem_take hc)

/-- The characters of a literal are looked at, not its encoding. -/
lemma plain_literal {l : List Char} (h : ∀ c ∈ l, isPlain (UInt8.ofNat c.toNat) = true) :
    Plain (ascii (String.ofList l)) := by
  unfold ascii
  rw [String.toList_ofList]
  exact List.forall_mem_map.mpr h

lemma length_literal (l : List Char) : (ascii (String.ofList l)).length = l.length := by
  unfold ascii
  rw [String.toList_ofList, List.length_map]

lemma value_quoted {text : Bytes} (h : Plain text) : Value (quoted text) := .string (str_of_plain h)

lemma plain_hexChar {d : ℕ} (h : d < 16) : isPlain (hexChar d) = true := by
  have hall : ∀ d : Fin 16, isPlain (hexChar d.val) = true := by decide
  exact hall ⟨d, h⟩

lemma plain_hexBytes (data : Bytes) : Plain (data.flatMap hexByte) := by
  intro c hc
  obtain ⟨b, -, hb⟩ := List.mem_flatMap.mp hc
  have hlt : b.toNat < 256 := b.toNat_lt
  rcases List.mem_pair.mp hb with rfl | rfl <;> exact plain_hexChar (by omega)

lemma plain_hexText (data : Bytes) : Plain (hexText data) :=
  Plain.append (plain_literal (by decide)) (plain_hexBytes data)

lemma plain_hexEncode (data : Bytes) (n : ℕ) : Plain ((hexEncode data n).getD []) := by
  unfold hexEncode
  split_ifs
  · exact nofun
  · exact plain_hexText data

lemma plain_hexNumber (n : UInt64) : Plain (hexNumber n) := by
  rw [hexNumber_eq]
  refine Plain.append (plain_literal (by decide)) fun c hc => ?_
  obtain ⟨d, hd, rfl⟩ := List.mem_map.mp hc
  exact plain_hexChar (digits_lt (by omega) n.toNat d hd)

lemma plain_decimal (n : ℕ) : Plain (decimal n) := by
  intro c hc
  have hdigit := isDigit_decimal n c hc
  simp only [isDigit, isPlain, decide_eq_true_eq, UInt8.le_iff_toNat_le, UInt8.lt_iff_toNat_lt,
    ne_eq, ← UInt8.toNat_inj] at hdigit ⊢
  simp at hdigit ⊢
  omega

lemma plain_twoNumbers {a b : Bytes} (ha : Plain a) (hb : Plain b) (m n : ℕ) :
    Plain (a ++ decimal m ++ b ++ decimal n) :=
  ((ha.append (plain_decimal m)).append hb).append (plain_decimal n)

lemma plain_zeros (n : ℕ) : Plain (ascii "0x" ++ List.replicate n 48) := by
  refine Plain.append (plain_literal (by decide)) fun c hc => ?_
  rw [List.eq_of_mem_replicate hc]
  rfl

lemma value_quotedNumber (n : UInt64) : Value (quotedNumber n) := value_quoted (plain_hexNumber n)

lemma value_quotedBytes (data : Bytes) : Value (quotedBytes data) :=
  value_quoted (plain_hexEncode _ _)

lemma value_emptyHex : Value (ascii "\"0x\"") :=
  @value_quoted (ascii "0x") (plain_literal (by decide))

lemma value_zeroHex (n : ℕ) : Value (zeroHex n) := value_quoted (plain_zeros n)

lemma value_addressJson (addr : Option Address) : Value (addressJson addr) := by
  cases addr with
  | none => exact .null
  | some addr => exact value_quoted (plain_hexEncode _ _)

/-! ### Arrays and objects -/

lemma joined_eq (ts : List Bytes) : joined ts = commas ts := by
  induction ts with
  | nil => rfl
  | cons t ts ih =>
    cases ts with
    | nil => rfl
    | cons u ts => rw [joined, commas, ih] <;> exact List.cons_ne_nil _ _

/-- Fields with plain names and with values. -/
inductive Fields : List Bytes → Prop
  | nil : Fields []
  | cons {name : String} {value : Bytes} {fs : List Bytes} (hvalue : Value value)
    (hfs : Fields fs) (hname : Plain (ascii name) := by decide) : Fields (field name value :: fs)

lemma Fields.value {fs : List Bytes} (h : Fields fs) : Value (123 :: joined fs ++ [125]) := by
  obtain ⟨kvs, hkvs, hkey, hvalue⟩ : ∃ kvs : List (Bytes × Bytes),
      kvs.map (fun kv => kv.1 ++ 58 :: kv.2) = fs ∧ (∀ kv ∈ kvs, Str kv.1) ∧
        ∀ kv ∈ kvs, Value kv.2 := by
    induction h with
    | nil => exact ⟨[], rfl, by simp, by simp⟩
    | @cons name value fs hv _ hname ih =>
      obtain ⟨kvs, rfl, hkey, hvalue⟩ := ih
      refine ⟨(quoted (ascii name), value) :: kvs, rfl, ?_, ?_⟩
      · exact List.forall_mem_cons.mpr ⟨str_of_plain hname, hkey⟩
      · exact List.forall_mem_cons.mpr ⟨hv, hvalue⟩
  rw [joined_eq, ← hkvs]
  exact value_object hkey hvalue

lemma value_arrayJson {vs : List Bytes} (h : ∀ v ∈ vs, Value v) : Value (arrayJson vs) := by
  unfold arrayJson
  rw [joined_eq]
  exact value_array h

/-- **Every receipt is a JSON object.** -/
theorem value_receipt (r : Receipt) : Value r.text := by
  rw [Receipt.text_eq]
  have hstatus : Plain (ascii (if r.success then "0x1" else "0x0")) := by
    split <;> decide
  have htype : Plain (typeHex r.type) := by cases r.type <;> decide
  have hhash : Plain ((hexEncode r.transactionHash.bytes 67).getD []) := plain_hexEncode _ _
  have hfrom : Plain ((hexEncode r.fromAddr.bytes 43).getD []) := plain_hexEncode _ _
  exact Fields.value <|
    .cons (value_quoted hhash) <|
    .cons (value_quoted (plain_literal (by decide))) <|
    .cons (value_zeroHex _) <|
    .cons (value_quotedNumber _) <|
    .cons (value_quoted hfrom) <|
    .cons (value_addressJson _) <|
    .cons (value_quotedNumber _) <|
    .cons (value_quotedNumber _) <|
    .cons (value_addressJson _) <|
    .cons (.emptyArray ws_nil) <|
    .cons (value_zeroHex _) <|
    .cons (value_quoted hstatus) <|
    .cons (value_quotedNumber _) <|
    .cons (value_quoted htype) .nil

/-- **Every block is a JSON object**, and is not cut off. -/
theorem value_block (ctx : BlockContext) : Value ((blockJson ctx).take 2047) := by
  have hlen : (blockJson ctx).length ≤ 2047 := by
    have hnumber := length_hexNumber_le ctx.number
    have hgas := length_hexNumber_le ctx.gasLimit
    have htime := length_hexNumber_le ctx.timestamp
    have hfee := length_hexNumber_le ctx.baseFee
    have huncles : (ascii
        "0x1dcc4de8dec75d7aab85b567b6ccd41ad312451b948a7413f0a142fd40d49347").length = 66 :=
      length_literal _
    have hroots : (ascii
        "0x56e81f171bcc55a6ff8345e692c0f86e5b48e01b996cadc001622fb5e363b421").length = 66 :=
      length_literal _
    simp only [blockJson, joined, zeroHex, quotedNumber, length_quoted, length_field, huncles,
      hroots, List.length_append, List.length_cons, List.length_nil, List.length_replicate]
    -- what is left are the lengths of literals
    simp [ascii]
    omega
  rw [List.take_of_length_le hlen]
  exact Fields.value <|
    .cons (value_quotedNumber _) <|
    .cons (value_zeroHex _) <|
    .cons (value_zeroHex _) <|
    .cons (value_zeroHex _) <|
    .cons (value_quoted (plain_literal (by decide))) <|
    .cons (value_zeroHex _) <|
    .cons (value_quoted (plain_literal (by decide))) <|
    .cons (value_zeroHex _) <|
    .cons (value_quoted (plain_literal (by decide))) <|
    .cons (value_zeroHex _) <|
    .cons (value_zeroHex _) <|
    .cons (value_zeroHex _) <|
    .cons (value_zeroHex _) <|
    .cons (value_zeroHex _) <|
    .cons (value_quotedNumber _) <|
    .cons (value_zeroHex _) <|
    .cons (value_quotedNumber _) <|
    .cons (.emptyArray ws_nil) <|
    .cons (.emptyArray ws_nil) <|
    .cons (value_quotedNumber _) .nil

/-- **The fee history is a JSON object**, and is not cut off. -/
theorem value_feeHistory (blockNum baseFee : UInt64) :
    Value ((feeHistoryJson blockNum baseFee).take 511) := by
  have hlen : (feeHistoryJson blockNum baseFee).length ≤ 511 := by
    have hnumber := length_hexNumber_le blockNum
    have hfee := length_hexNumber_le baseFee
    simp only [feeHistoryJson, arrayJson, joined, quotedNumber, length_quoted, length_field,
      List.length_append, List.length_cons, List.length_nil]
    simp [ascii]
    omega
  have hratio : Number (ascii "0.0") :=
    ⟨[48], [46, 48], [], rfl, Or.inl (Or.inl rfl), Or.inr ⟨[48], rfl, by decide, by decide⟩,
      Or.inl rfl⟩
  have hfees : Value (arrayJson [quotedNumber baseFee, quotedNumber baseFee]) := by
    refine value_arrayJson ?_
    simp only [List.mem_cons, List.not_mem_nil, or_false, or_self]
    rintro v rfl
    exact value_quotedNumber _
  have hrewards : Value (arrayJson [arrayJson [quotedNumber baseFee]]) := by
    refine value_arrayJson (List.forall_mem_singleton.mpr (value_arrayJson ?_))
    exact List.forall_mem_singleton.mpr (value_quotedNumber _)
  rw [List.take_of_length_le hlen]
  exact Fields.value <|
    .cons (value_quotedNumber _) <|
    .cons hfees <|
    .cons (value_arrayJson (List.forall_mem_singleton.mpr (.number hratio))) <|
    .cons hrewards .nil

lemma value_netVersion (n : UInt64) : Value ((quoted (decimal n.toNat)).take 31) := by
  have hlen : (decimal n.toNat).length ≤ 20 := by
    unfold decimal
    rw [List.length_map]
    exact length_digits_le (by omega) (by omega) (n.toNat_lt.trans (by norm_num))
  rw [List.take_of_length_le (by rw [length_quoted]; omega)]
  exact value_quoted (plain_decimal _)

/-! ### The errors of the executor -/

/-- A program whose results satisfy the postcondition. -/
abbrev Returns {α : Type} (post : α → Prop) (p : RedisProg α) : Prop :=
  Issues (fun _ => True) post p

lemma Returns.run {α σ : Type} {post : α → Prop} {p : RedisProg α} (hp : Returns post p)
    (h : Handler Command (fun _ => Option Reply) σ) (s : σ) : post (Program.run h p s).1 :=
  (hp.run_inv (I := fun _ => True) (fun _ _ _ _ => trivial) trivial).2

/-- The error of a result is plain. -/
def PlainError (p : ℤ × ExecResult) : Prop := Plain p.2.error

/-- The interpreter's texts for status codes are plain. -/
def PlainStatus (evm : Evm) : Prop := ∀ code, Plain (evm.statusCodeToString code)

section

variable {evm : Evm} (hstatus : PlainStatus evm)
include hstatus

lemma plainError_executeContract (blockCtx : Option BlockContext) (origin sender to_ : Address)
    (data : Bytes) (value : Bytes32) (gas : UInt64) (flags : UInt32) (commitState : Bool)
    (result : ExecResult) :
    Returns PlainError
      (executeContract evm blockCtx origin sender to_ data value gas flags commitState result) := by
  refine issues_read (P := fun _ => True) trivial _ fun code => ?_
  by_cases hcode : code.length = 0
  · rw [if_pos hcode]
    exact fun c hc => absurd hc List.not_mem_nil
  rw [if_neg hcode]
  refine (issues_true _).bind fun ⟨execResult, execCtx⟩ _ => ?_
  by_cases hneg : execResult.statusCode < 0
  · simp only [if_pos hneg]
    exact (hstatus _).take 255
  by_cases hfail : execResult.statusCode ≠ 0
  · simp only [if_neg hneg, if_pos hfail]
    exact (hstatus _).take 255
  simp only [if_neg hneg, if_neg hfail]
  cases commitState
  · exact fun c hc => absurd hc List.not_mem_nil
  · refine (issues_true _).bind fun rc _ => ?_
    by_cases hrc : rc ≠ 0
    · rw [if_pos hrc]
      exact Plain.take (plain_literal (by decide)) 255
    · rw [if_neg hrc]
      exact fun c hc => absurd hc List.not_mem_nil

lemma plainError_evmCall (fromAddr toAddr : Address) (data : Bytes)
    (blockCtx : Option BlockContext) (gas : UInt64) (result : ExecResult) :
    Returns PlainError (evmCall evm fromAddr toAddr data blockCtx gas result) := by
  unfold evmCall
  split_ifs
  · exact Plain.take (plain_literal (by decide)) 255
  · exact plainError_executeContract hstatus _ _ _ _ _ _ _ _ _ _

lemma plainError_executeTx (tx : Tx) (blockCtx : Option BlockContext) (result : ExecResult) :
    Returns (fun p => p.1 ≠ 0 → PlainError p) (executeTx evm tx blockCtx result) := by
  unfold executeTx
  by_cases hinit : evm.initialized = false
  · rw [if_pos hinit]
    exact fun _ => Plain.take (plain_literal (by decide)) 255
  by_cases hchain : chainIdRejected tx blockCtx = true
  · rw [if_neg hinit, if_pos hchain]
    refine fun _ => Plain.take (plain_twoNumbers ?_ ?_ _ _) 255
    · exact plain_literal (by decide)
    · exact plain_literal (by decide)
  rw [if_neg hinit, if_neg hchain]
  refine issues_read (P := fun _ => True) trivial _ fun currentNonce => ?_
  by_cases hnonce : tx.nonce ≠ currentNonce
  · rw [if_pos hnonce]
    refine fun _ => Plain.take (plain_twoNumbers ?_ ?_ _ _) 255
    · exact plain_literal (by decide)
    · exact plain_literal (by decide)
  by_cases hgas : intrinsicGas tx.data > tx.gasLimit
  · rw [if_neg hnonce, if_pos hgas]
    exact fun _ => Plain.take (plain_literal (by decide)) 255
  rw [if_neg hnonce, if_neg hgas]
  have heffects : Returns (fun p => p.1 ≠ 0 → PlainError p)
      (executeEffects evm tx blockCtx currentNonce { result with output := [] }) := by
    unfold executeEffects
    split_ifs
    · exact ⟨trivial, fun _ h0 => absurd rfl h0⟩
    · refine (plainError_executeContract hstatus _ _ _ _ _ _ _ _ _ _).bind fun p hp => ?_
      dsimp only
      split_ifs
      · exact fun _ => hp
      · exact fun h0 => absurd rfl h0
  refine heffects.bind fun p hp => ?_
  dsimp only
  split_ifs with hrc
  · exact hp
  · exact ⟨trivial, fun _ h0 => absurd rfl h0⟩

end

/-! ### The handlers -/

/-- A response with an id, whose value is JSON or whose message is plain. -/
inductive Fits (id : Bytes) : Response → Prop
  | result {value : Bytes} (h : Value value) : Fits id (.result id value)
  | error {code : ℤ} {message : Bytes} (h : Plain message) : Fits id (.error id code message)

section

variable {rpc : Rpc} {parser : TxParser} {time : UInt64} {id request : Bytes} {params : List Bytes}

lemma fits_withAddress {handle : Address → RedisProg Response}
    (hh : ∀ addr, Returns (Fits id) (handle addr)) :
    Returns (Fits id) (withAddress id params handle) := by
  unfold withAddress
  split
  · exact .error (plain_literal (by decide))
  · split
    · exact .error (plain_literal (by decide))
    · exact hh _

lemma mem_of_mem_skipZeros {t : Bytes} {c : UInt8} (h : c ∈ skipZeros t) : c ∈ t := by
  induction t using skipZeros.induct with
  | case1 d t ih => exact List.mem_cons_of_mem _ (ih h)
  | case2 t hne => rwa [skipZeros] at h; exact hne

lemma fits_getBalance : Returns (Fits id) (handleGetBalance rpc id params) := by
  refine fits_withAddress fun addr => ⟨trivial, fun r => .result (value_quoted ?_)⟩
  refine Plain.append (plain_literal (by decide)) fun c hc => ?_
  exact plain_hexEncode _ _ c (List.mem_of_mem_drop (mem_of_mem_skipZeros hc))

lemma fits_getCode : Returns (Fits id) (handleGetCode id params) := by
  refine fits_withAddress fun addr => issues_read (P := fun _ => True) trivial _ fun code => ?_
  split_ifs
  · exact .result value_emptyHex
  · exact .result (value_quotedBytes code)

lemma fits_getStorageAt : Returns (Fits id) (handleGetStorageAt rpc id params) := by
  unfold handleGetStorageAt
  split
  · split
    · exact .error (plain_literal (by decide))
    · split
      · exact .error (plain_literal (by decide))
      · exact ⟨trivial, fun r => .result (value_quoted (plain_hexEncode _ _))⟩
  · exact .error (plain_literal (by decide))

lemma plain_callArgs {gasLimit : UInt64} {message : Bytes}
    (h : callArgs gasLimit request = .error message) : Plain message := by
  unfold callArgs at h
  split at h
  · cases h; exact plain_literal (by decide)
  split at h
  · cases h; exact plain_literal (by decide)
  split at h
  · cases h; exact plain_literal (by decide)
  split at h
  · cases h; exact plain_literal (by decide)
  · cases h

lemma fits_callResponse {rc : ℤ} {result : ExecResult} (h : Plain result.error) :
    Fits id (callResponse id rc result) := by
  have hor : ∀ {text : Bytes}, Plain text → Plain (errorOr result text) := by
    intro text htext
    unfold errorOr
    split_ifs
    · exact htext
    · exact h
  unfold callResponse
  split_ifs
  · exact .error (hor (plain_literal (by decide)))
  · exact .error (hor (plain_literal (by decide)))
  · exact .result value_emptyHex
  · exact .result (value_quotedBytes _)

lemma fits_call (hstatus : PlainStatus rpc.evm) :
    Returns (Fits id) (handleCall rpc time id request) := by
  refine ⟨trivial, fun r => ?_⟩
  dsimp only
  split
  · rename_i message hargs
    exact .error (plain_callArgs hargs)
  · exact (plainError_evmCall hstatus _ _ _ _ _ _).bind fun p hp => fits_callResponse hp

lemma fits_estimateGas : Returns (Fits id) (handleEstimateGas id request) := by
  unfold handleEstimateGas
  split
  · exact .result (value_quotedNumber _)
  · dsimp only
    split
    · exact .error (plain_literal (by decide))
    · exact .result (value_quotedNumber _)

lemma fits_send (hstatus : PlainStatus rpc.evm) :
    Returns (Fits id) (handleSendRawTransaction rpc parser time id request) := by
  rcases handleSendRawTransaction_eq parser id request with
    ⟨tx, -, hrun⟩ | ⟨-, message, hmessage, hrun⟩
  · rw [hrun]
    refine ⟨trivial, fun r => ?_⟩
    refine (plainError_executeTx hstatus _ _ _).bind fun p hp => ?_
    dsimp only
    split_ifs with hrc
    · exact .error (hp hrc)
    · exact ⟨trivial, fun _ => ⟨trivial, fun _ => .result (value_quoted (plain_hexEncode _ _))⟩⟩
  · rw [hrun]
    have hall : ∀ m ∈ noTransaction, Plain m := by decide
    exact .error (hall message hmessage)

/-- A response that reads nothing outside a buffer, and fits. -/
def Determined (id : Bytes) (x : Read Response) : Prop := ∃ r, x = .ok r ∧ Fits id r

lemma determined_of_fits {p : RedisProg Response} (hp : Returns (Fits id) p) :
    Returns (Determined id) (determined p) :=
  hp.bind fun r hr => ⟨r, rfl, hr⟩

lemma determined_value {value : Bytes} (h : Value value) :
    Returns (Determined id) (determined (return .result id value)) := ⟨_, rfl, .result h⟩

/-- **Every handler but the one that fetches receipts** has a response that fits. -/
theorem determined_dispatchSingle (hstatus : PlainStatus rpc.evm)
    (h : methodOf request ≠ ascii "eth_getTransactionReceipt") :
    Returns (Determined (idOf request)) (dispatchSingle rpc parser time request) := by
  have hnull : Value (ascii "null") := .null
  have hfalse : Value (ascii "false") := .false
  have harray : Value (ascii "[]") := .emptyArray ws_nil
  have hzero : Value (ascii "\"0x0\"") := @value_quoted (ascii "0x0") (plain_literal (by decide))
  have hversion : Value (ascii "\"0x42\"") :=
    @value_quoted (ascii "0x42") (plain_literal (by decide))
  have hclient : Value (ascii "\"evmdb/0.2.0\"") :=
    @value_quoted (ascii "evmdb/0.2.0") (plain_literal (by decide))
  refine dispatchSingle_of rpc parser time request ⟨_, rfl, .error (plain_literal (by decide))⟩ ?_
  simp only [handlers, List.forall_mem_cons, List.not_mem_nil, false_implies, implies_true,
    and_true]
  refine ⟨fun _ => determined_value (value_quotedNumber _),
    fun _ => ⟨trivial, fun _ => determined_value (value_quotedNumber _)⟩,
    fun _ => determined_value (value_quotedNumber _),
    fun _ => determined_of_fits fits_getBalance,
    fun _ => determined_of_fits (fits_withAddress fun _ =>
      ⟨trivial, fun _ => .result (value_quotedNumber _)⟩),
    fun _ => determined_of_fits fits_getCode,
    fun _ => determined_of_fits (fits_send hstatus),
    fun _ => determined_value (value_netVersion _),
    fun _ => determined_value hclient,
    fun _ => determined_of_fits (fits_call hstatus),
    fun _ => determined_of_fits fits_estimateGas,
    fun _ => ⟨trivial, fun _ => determined_value (value_block _)⟩,
    fun _ => ⟨trivial, fun _ => determined_value (value_block _)⟩,
    fun _ => determined_value hnull, fun hm => absurd hm h,
    fun _ => determined_value harray,
    fun _ => ⟨trivial, fun _ => determined_value (value_feeHistory _ _)⟩,
    fun _ => determined_value (value_quotedNumber _),
    fun _ => determined_value harray,
    fun _ => determined_value hfalse,
    fun _ => determined_value hfalse,
    fun _ => determined_value hzero,
    fun _ => determined_of_fits fits_getStorageAt,
    fun _ => determined_value hzero,
    fun _ => determined_value hversion,
    fun _ => ⟨_, rfl, .error (plain_literal (by decide))⟩⟩

end

end EvmDb.Responses
