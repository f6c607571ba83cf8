import EvmDb.Rpc.Request

/-!
The parser of `src/rpc/json.c`.

It looks for the keys of a request anywhere in its text and copies what follows to buffers of a
fixed size.
-/

namespace EvmDb.Json

open EvmDb.Types EvmDb.Digits EvmDb.Request

/-- `json_find_string`: the text from the opening quote of the value on. -/
def jsonFindString (json key : Bytes) : Option Bytes :=
  match strstr (quoted key) json with
  | none => none
  | some pos =>
    match (pos.drop (quoted key).length).dropWhile isBeforeValue with
    | 34 :: t => some (34 :: t)
    | _ => none

/-- `json_extract_string`: what is written to a buffer of a size. -/
def jsonExtractString (json key : Bytes) (outLen : ℕ) : Option Bytes :=
  (jsonFindString json key).map fun pos => (pos.tail.takeWhile (· ≠ 34)).take (outLen - 1)

/-- `json_extract_id`: what is written to a buffer of a size. -/
def jsonExtractId (json : Bytes) (outLen : ℕ) : Bytes :=
  match strstr (ascii "\"id\"") json with
  | none => ascii "1"
  | some pos =>
    match (pos.drop 4).dropWhile isBeforeValue with
    | 34 :: t => quoted ((t.takeWhile (· ≠ 34)).take (outLen - 3))
    | t => (t.takeWhile fun c => isDigit c ∨ c = 45).take (outLen - 1)

section

variable {json pos t : Bytes} (hfound : strstr (ascii "\"id\"") json = some pos)
include hfound

lemma jsonExtractId_of_quote (ht : (pos.drop 4).dropWhile isBeforeValue = 34 :: t) (outLen : ℕ) :
    jsonExtractId json outLen = quoted ((t.takeWhile (· ≠ 34)).take (outLen - 3)) := by
  unfold jsonExtractId
  rw [hfound]
  dsimp only
  generalize (pos.drop 4).dropWhile isBeforeValue = u at ht
  subst ht
  rfl

lemma jsonExtractId_of_ne {c : UInt8} (ht : (pos.drop 4).dropWhile isBeforeValue = c :: t)
    (hc : c ≠ 34) (outLen : ℕ) : jsonExtractId json outLen =
      ((c :: t).takeWhile fun c => isDigit c ∨ c = 45).take (outLen - 1) := by
  unfold jsonExtractId
  rw [hfound]
  dsimp only
  rw [ht]
  split
  · rename_i h
    exact absurd (List.cons.inj h).1 hc
  · rfl

end

/-- `evmdb_json_parse_method`: the method, empty if it is not found, and the id. -/
def jsonParseMethod (json : Bytes) (methodLen idLen : ℕ) : Bytes × Bytes :=
  ((jsonExtractString json (ascii "method") methodLen).getD [], jsonExtractId json idLen)

/-- The loop to the brace that closes an object, at a depth. -/
def skipObject : ℕ → Bytes → Bytes
  | 0, pos => pos
  | _, [] => []
  | depth + 1, c :: t =>
    if c = 123 then skipObject (depth + 2) t
    else if c = 125 then skipObject depth t
    else skipObject (depth + 1) t

/-- The loop over the parameters, as long as there is room for some more. -/
def paramsLoop : ℕ → Bytes → List Bytes
  | 0, _ => []
  | _, [] => []
  | _, 93 :: _ => []
  | room + 1, pos =>
    match pos.dropWhile isBetweenValues with
    | 93 :: _ => []
    | 34 :: t =>
      let param := (t.takeWhile (· ≠ 34)).take 255
      match t.drop param.length with
      | 34 :: rest => param :: paramsLoop room rest
      | rest => param :: paramsLoop room rest
    | 123 :: t => ascii "\x7bobject\x7d" :: paramsLoop room (skipObject 1 t)
    | [] => [[]]
    | c :: t =>
      if isDigit c ∨ c = 45 then
        let param := ((c :: t).takeWhile fun c => c ≠ 44 ∧ c ≠ 93).take 255
        param :: paramsLoop room ((c :: t).drop param.length)
      else [] :: paramsLoop room ((c :: t).dropWhile fun c => c ≠ 44 ∧ c ≠ 93)

/-- `evmdb_json_parse_params`: the parameters that are counted. -/
def jsonParseParams (json : Bytes) (maxParams : ℕ) : List Bytes :=
  match strstr (ascii "\"params\"") json with
  | none => []
  | some pos =>
    match (pos.drop 8).dropWhile isBeforeValue with
    | 91 :: t => paramsLoop maxParams t
    | _ => []

/-- The loop begins where `find_params_array` would. -/
lemma jsonParseParams_loop (json : Bytes) (maxParams : ℕ) :
    jsonParseParams json maxParams =
      ((findParamsArray json).map (paramsLoop maxParams)).getD [] := by
  unfold jsonParseParams findParamsArray
  cases strstr (ascii "\"params\"") json with
  | none => rfl
  | some pos =>
    dsimp only
    rcases (pos.drop 8).dropWhile isBeforeValue with _ | ⟨c, t⟩
    · rfl
    · by_cases hc : c = 91
      · subst hc
        rfl
      · simp [hc]

example : jsonParseMethod
    (ascii "\x7b\"jsonrpc\":\"2.0\",\"method\":\"eth_blockNumber\",\"params\":[],\"id\":42\x7d") 64 32 =
      (ascii "eth_blockNumber", ascii "42") := by decide

example : jsonParseParams
    (ascii "\x7b\"method\":\"eth_getBalance\",\"params\":[\"0xaabbccdd\",\"latest\"],\"id\":1\x7d") 8 =
      [ascii "0xaabbccdd", ascii "latest"] := by decide

end EvmDb.Json
