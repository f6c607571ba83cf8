import EvmDb.Core.Hex

/-!
Request and response texts of `src/rpc/handlers.c`.

A request is searched as a C string, not parsed: the parameters are what follows the first
`"params"`. Every response is printed to a buffer that is large enough for it.
-/

namespace EvmDb.Request

open EvmDb.Types EvmDb.Digits EvmDb.Hex

/-! ### Finding a parameter -/

/-- `strstr`: the text from the first occurrence of the needle on. -/
def strstr (needle : Bytes) : Bytes → Option Bytes
  | [] => if needle = [] then some [] else none
  | c :: t => if needle.isPrefixOf (c :: t) then some (c :: t) else strstr needle t

/-- Characters that do not begin the needle are passed over. -/
lemma strstr_append {needle u : Bytes} (hu : ∀ c ∈ u, needle.head? ≠ some c) (hn : needle ≠ [])
    (t : Bytes) : strstr needle (u ++ t) = strstr needle t := by
  induction u with
  | nil => rfl
  | cons c u ih =>
    have hc : needle.isPrefixOf (c :: (u ++ t)) = false := by
      obtain ⟨d, ds, rfl⟩ := List.exists_cons_of_ne_nil hn
      have hd : d ≠ c := by simpa using hu c List.mem_cons_self
      simp [List.isPrefixOf, hd]
    rw [List.cons_append, strstr, if_neg (by simp [hc]),
      ih fun d hd => hu d (List.mem_cons_of_mem _ hd)]

/-- A text that does not contain the needle is passed over, if it ends in a character that the
needle does not have. -/
lemma strstr_first {needle f : Bytes} {c : UInt8} (hc : c ∉ needle)
    (hf : ¬ needle <:+: f ++ [c]) (t : Bytes) :
    strstr needle (f ++ [c] ++ (needle ++ t)) = strstr needle (needle ++ t) := by
  have hno : ∀ u, u ++ [c] <:+: f ++ [c] → ¬ needle <+: u ++ [c] ++ (needle ++ t) := by
    intro u hu hprefix
    rcases List.prefix_or_prefix_of_prefix hprefix (List.prefix_append _ _) with hle | hle
    · exact hf (hle.isInfix.trans hu)
    · exact hc (hle.subset (by simp))
  induction f with
  | nil =>
    have hfirst := hno [] (List.infix_refl _)
    rw [List.nil_append, List.singleton_append, strstr, if_neg (by simpa using hfirst)]
  | cons d f ih =>
    have hfirst := hno (d :: f) (List.infix_refl _)
    rw [List.cons_append, List.cons_append, strstr, if_neg (by simpa using hfirst)]
    refine ih (fun hin => hf (List.infix_cons hin)) fun u hu => hno u (List.infix_cons hu)

lemma strstr_self {needle : Bytes} (hn : needle ≠ []) (t : Bytes) :
    strstr needle (needle ++ t) = some (needle ++ t) := by
  obtain ⟨c, cs, rfl⟩ := List.exists_cons_of_ne_nil hn
  rw [List.cons_append, strstr, if_pos (by simp)]

/-- A space, a colon or a tab. -/
def isBeforeValue (c : UInt8) : Bool := c = 32 ∨ c = 58 ∨ c = 9

/-- A space, a comma, a tab or the end of a line. -/
def isBetweenValues (c : UInt8) : Bool := c = 32 ∨ c = 44 ∨ c = 9 ∨ c = 10 ∨ c = 13

/-- `find_params_array`: the text behind the opening bracket. -/
def findParamsArray (request : Bytes) : Option Bytes :=
  match strstr (ascii "\"params\"") request with
  | none => none
  | some pos =>
    match (pos.drop 8).dropWhile isBeforeValue with
    | 91 :: t => some t
    | _ => none

/-- `extract_quoted_string`, when its allocation succeeds. -/
def extractQuotedString : Bytes → Option Bytes
  | 34 :: t =>
    let out := t.takeWhile (· ≠ 34)
    if out.length < t.length then some out else none
  | _ => none

/-- `extract_first_param_string`. -/
def extractFirstParamString (request : Bytes) : Option Bytes :=
  match findParamsArray request with
  | none => none
  | some pos => extractQuotedString (pos.dropWhile isBetweenValues)

/-! ### Responses -/

/-- A response object, with the id of its request. -/
inductive Response
  | result (id value : Bytes)
  | error (id : Bytes) (code : ℤ) (message : Bytes)
  deriving DecidableEq

def Response.isError : Response → Bool
  | .result _ _ => false
  | .error _ _ _ => true

/-- What `%d` prints. -/
def decimalInt (n : ℤ) : Bytes := if n < 0 then 45 :: decimal n.natAbs else decimal n.natAbs

/-- What `make_response` prints. -/
def makeResponse (id result : Bytes) : Bytes :=
  ascii "\x7b\"jsonrpc\":\"2.0\",\"id\":" ++ id ++ ascii ",\"result\":" ++ result ++ ascii "\x7d"

/-- What `make_error` prints. -/
def makeError (id : Bytes) (code : ℤ) (message : Bytes) : Bytes :=
  ascii "\x7b\"jsonrpc\":\"2.0\",\"id\":" ++ id ++ ascii ",\"error\":\x7b\"code\":" ++
    decimalInt code ++ ascii ",\"message\":\"" ++ message ++ ascii "\"\x7d\x7d"

/-- The text of a response. -/
def Response.text : Response → Bytes
  | .result id value => makeResponse id value
  | .error id code message => makeError id code message

/-- The size of the buffer a response is printed to. -/
def Response.bufferSize : Response → ℕ
  | .result id value => id.length + value.length + 64
  | .error id _ message => id.length + message.length + 128

/-- The error code is a C `int`. -/
def Response.IntCode : Response → Prop
  | .result _ _ => True
  | .error _ code _ => code.natAbs ≤ 2 ^ 31

/-- **No response is cut off**: its text and the terminating NUL fit the buffer. -/
theorem Response.length_text_lt (r : Response) (h : r.IntCode) : r.text.length < r.bufferSize := by
  cases r with
  | result id value =>
    simp only [Response.text, makeResponse, Response.bufferSize, List.length_append]
    have h₁ : (ascii "\x7b\"jsonrpc\":\"2.0\",\"id\":").length = 22 := rfl
    have h₂ : (ascii ",\"result\":").length = 10 := rfl
    have h₃ : (ascii "\x7d").length = 1 := rfl
    omega
  | error id code message =>
    have hdec : (decimal code.natAbs).length ≤ 10 := by
      unfold decimal
      rw [List.length_map]
      exact length_digits_le (by omega) (by omega) (lt_of_le_of_lt h (by norm_num))
    have hcode : (decimalInt code).length ≤ 11 := by
      unfold decimalInt
      split_ifs
      · rw [List.length_cons]
        omega
      · omega
    simp only [Response.text, makeError, Response.bufferSize, List.length_append]
    have h₁ : (ascii "\x7b\"jsonrpc\":\"2.0\",\"id\":").length = 22 := rfl
    have h₂ : (ascii ",\"error\":\x7b\"code\":").length = 17 := rfl
    have h₃ : (ascii ",\"message\":\"").length = 12 := rfl
    have h₄ : (ascii "\"\x7d\x7d").length = 3 := rfl
    omega

/-! ### Receipts -/

/-- What a receipt says; the other fields of its text are constant. -/
structure Receipt where
  transactionHash : Hash
  blockNumber : UInt64
  fromAddr : Address
  toAddr : Option Address
  gasUsed : UInt64
  contractAddress : Option Address
  success : Bool
  effectiveGasPrice : UInt64
  type : TxType

def quoted (text : Bytes) : Bytes := 34 :: (text ++ [34])

/-- A number as `evmdb_hex_from_uint64` prints it to a buffer of 32 bytes. -/
def hexNumber (n : UInt64) : Bytes := (hexFromUint64 n 32).getD []

/-- An address in quotes, or `null`. -/
def addressJson : Option Address → Bytes
  | some addr => quoted ((hexEncode addr.bytes 43).getD [])
  | none => ascii "null"

def typeHex : TxType → Bytes
  | .eip1559 => ascii "0x2"
  | .eip2930 => ascii "0x1"
  | .legacy => ascii "0x0"

/-- `"name":` and a value. -/
def field (name : String) (value : Bytes) : Bytes := quoted (ascii name) ++ 58 :: value

/-- Fields separated by commas. -/
def joined : List Bytes → Bytes
  | [] => []
  | [f] => f
  | f :: fs => f ++ 44 :: joined fs

def zeroHex (digits : ℕ) : Bytes := quoted (ascii "0x" ++ List.replicate digits 48)

/-- The object that the format string of the receipt spells out. -/
def Receipt.json (r : Receipt) : Bytes :=
  123 :: joined
    [field "transactionHash" (quoted ((hexEncode r.transactionHash.bytes 67).getD [])),
      field "transactionIndex" (quoted (ascii "0x0")),
      field "blockHash" (zeroHex 64),
      field "blockNumber" (quoted (hexNumber r.blockNumber)),
      field "from" (quoted ((hexEncode r.fromAddr.bytes 43).getD [])),
      field "to" (addressJson r.toAddr),
      field "cumulativeGasUsed" (quoted (hexNumber r.gasUsed)),
      field "gasUsed" (quoted (hexNumber r.gasUsed)),
      field "contractAddress" (addressJson r.contractAddress),
      field "logs" (ascii "[]"),
      field "logsBloom" (zeroHex 512),
      field "status" (quoted (ascii (if r.success then "0x1" else "0x0"))),
      field "effectiveGasPrice" (quoted (hexNumber r.effectiveGasPrice)),
      field "type" (quoted (typeHex r.type))] ++ [125]

/-- The text of a receipt, printed to a buffer of 2048 bytes. -/
def Receipt.text (r : Receipt) : Bytes := r.json.take 2047

lemma length_quoted (text : Bytes) : (quoted text).length = text.length + 2 := by
  simp [quoted]

lemma length_field (name : String) (value : Bytes) :
    (field name value).length = (ascii name).length + value.length + 3 := by
  unfold field
  rw [List.length_append, length_quoted, List.length_cons]
  omega

lemma hexNumber_eq (n : UInt64) : hexNumber n = ascii "0x" ++ (digits 16 n.toNat).map hexChar := by
  have hsome : (hexFromUint64 n 32).isSome := hexFromUint64_isSome n (by omega)
  obtain ⟨text, htext⟩ := Option.isSome_iff_exists.mp hsome
  rw [hexNumber, htext, Option.getD_some, hexFromUint64_eq htext, printedDigits]

lemma length_hexNumber_le (n : UInt64) : (hexNumber n).length ≤ 18 := by
  have hdigits := length_printedDigits_le n
  rw [hexNumber_eq, List.length_append]
  show 2 + (printedDigits n).length ≤ 18
  omega

lemma length_hexEncode {data : Bytes} {n : ℕ} (h : data.length * 2 + 3 ≤ n) :
    ((hexEncode data n).getD []).length = 2 * data.length + 2 := by
  unfold hexEncode
  rw [if_neg (by omega), Option.getD_some, length_hexText]

lemma length_addressJson_le (addr : Option Address) : (addressJson addr).length ≤ 44 := by
  cases addr with
  | none =>
    show 4 ≤ 44
    omega
  | some addr =>
    unfold addressJson
    rw [length_quoted, length_hexEncode (by simp), addr.length_bytes]

/-- **No receipt is cut off.** -/
theorem Receipt.text_eq (r : Receipt) : r.text = r.json := by
  have hblock := length_hexNumber_le r.blockNumber
  have hgas := length_hexNumber_le r.gasUsed
  have hprice := length_hexNumber_le r.effectiveGasPrice
  have hto := length_addressJson_le r.toAddr
  have hcontract := length_addressJson_le r.contractAddress
  have hhash : ((hexEncode r.transactionHash.bytes 67).getD []).length = 66 := by
    rw [length_hexEncode (by simp), r.transactionHash.length_bytes]
  have hfrom : ((hexEncode r.fromAddr.bytes 43).getD []).length = 42 := by
    rw [length_hexEncode (by simp), r.fromAddr.length_bytes]
  have htype : (typeHex r.type).length = 3 := by cases r.type <;> rfl
  have hstatus : (ascii (if r.success then "0x1" else "0x0")).length = 3 := by split <;> rfl
  apply List.take_of_length_le
  simp only [Receipt.json, joined, zeroHex, length_quoted, length_field, List.length_append,
    List.length_cons, List.length_nil, List.length_replicate, hhash, hfrom, htype, hstatus]
  -- what is left are the lengths of literals
  simp [ascii]
  omega

end EvmDb.Request
