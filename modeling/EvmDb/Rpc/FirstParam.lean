import EvmDb.Rpc.Json

/-!
The two readers of a first parameter.

`eth_sendRawTransaction` takes the whole text between two quotes, every other method what
`evmdb_json_parse_params` copies to a buffer. Both look at the same place of the request.
-/

namespace EvmDb.FirstParam

open EvmDb.Types EvmDb.Digits EvmDb.Hex EvmDb.Request EvmDb.Json

/-! ### Elements -/

/-- The text behind a quote, if there is one. -/
def skipQuote : Bytes → Bytes
  | 34 :: t => t
  | t => t

/-- What the loop does with an element: the parameter it gives, and where the scan goes on. -/
def readElement : Bytes → Bytes × Bytes
  | [] => ([], [])
  | 34 :: t =>
    let param := (t.takeWhile (· ≠ 34)).take 255
    (param, skipQuote (t.drop param.length))
  | 123 :: t => (ascii "\x7bobject\x7d", skipObject 1 t)
  | c :: t =>
    if isDigit c ∨ c = 45 then
      let param := ((c :: t).takeWhile fun c => c ≠ 44 ∧ c ≠ 93).take 255
      (param, (c :: t).drop param.length)
    else ([], (c :: t).dropWhile fun c => c ≠ 44 ∧ c ≠ 93)

/-- Where the loop finds an element, if it does not end. -/
def elementAt (pos : Bytes) : Option Bytes :=
  if pos = [] ∨ pos.head? = some 93 then none
  else if (pos.dropWhile isBetweenValues).head? = some 93 then none
  else some (pos.dropWhile isBetweenValues)

/-- **The loop reads element after element.** -/
lemma paramsLoop_eq (room : ℕ) (pos : Bytes) : paramsLoop (room + 1) pos =
    match elementAt pos with
    | none => []
    | some p => (readElement p).1 :: paramsLoop room (readElement p).2 := by
  unfold elementAt
  by_cases hnil : pos = []
  · rw [if_pos (Or.inl hnil), hnil, paramsLoop]
    exact Nat.succ_ne_zero room
  by_cases hend : pos.head? = some 93
  · obtain ⟨t, rfl⟩ := List.head?_eq_some_iff.mp hend
    rw [if_pos (Or.inr hend), paramsLoop]
    exact Nat.succ_ne_zero room
  rw [if_neg (by simp [hnil, hend]), paramsLoop]
  · generalize pos.dropWhile isBetweenValues = p
    split
    · simp
    · rename_i t
      rw [if_neg (by simp)]
      simp only [readElement]
      split
      · rename_i rest hquote
        rw [hquote, skipQuote]
      · rename_i hno
        rw [skipQuote]
        exact hno
    · rw [if_neg (by simp)]
      rfl
    · rw [if_neg (by simp)]
      cases room <;> rfl
    · rename_i c t hend hquote hbrace
      have hopen : ¬ (c :: t).head? = some 93 := by simpa using hend
      rw [if_neg hopen]
      dsimp only
      rw [readElement]
      · split_ifs <;> rfl
      · exact hquote
      · exact hbrace
  · exact hnil
  · rintro t rfl
    exact hend rfl

/-- An element that begins with a quote is where the blanks end. -/
lemma elementAt_eq_quote {pos t : Bytes} :
    elementAt pos = some (34 :: t) ↔ pos.dropWhile isBetweenValues = 34 :: t := by
  unfold elementAt
  constructor
  · intro h
    split_ifs at h
    exact Option.some.inj h
  · intro h
    have hpos : ¬ (pos = [] ∨ pos.head? = some 93) := by
      rintro (rfl | hend)
      · cases h
      · obtain ⟨u, rfl⟩ := List.head?_eq_some_iff.mp hend
        rw [List.dropWhile_cons_of_neg (by decide)] at h
        exact absurd (List.cons.inj h).1 (by decide)
    rw [if_neg hpos, h]
    rfl

/-! ### The first parameter -/

/-- Where `evmdb_json_parse_params` finds its first element. -/
def firstElement (json : Bytes) : Option Bytes := (findParamsArray json).bind elementAt

lemma jsonParseParams_eq (json : Bytes) (room : ℕ) : jsonParseParams json (room + 1) =
    match firstElement json with
    | none => []
    | some p => (readElement p).1 :: paramsLoop room (readElement p).2 := by
  rw [jsonParseParams_loop, firstElement]
  cases findParamsArray json with
  | none => rfl
  | some pos => exact paramsLoop_eq room pos

lemma extractQuotedString_eq_some {p out : Bytes} : extractQuotedString p = some out ↔
    ∃ t, p = 34 :: t ∧ 34 ∈ t ∧ out = t.takeWhile (· ≠ 34) := by
  have hlen : ∀ t : Bytes, (t.takeWhile (· ≠ 34)).length < t.length ↔ 34 ∈ t := by
    intro t
    induction t with
    | nil => simp
    | cons c t ih =>
      by_cases hc : c = 34
      · simp [hc]
      · rw [List.takeWhile_cons_of_pos (by simpa using hc), List.length_cons, List.length_cons,
          Nat.succ_lt_succ_iff, ih, List.mem_cons]
        simp [Ne.symm hc]
  unfold extractQuotedString
  split
  · rename_i t
    dsimp only
    split_ifs with hclosed
    · rw [hlen] at hclosed
      simp [hclosed, eq_comm]
    · rw [hlen] at hclosed
      simp [hclosed]
  · rename_i hno
    refine iff_of_false (by simp) ?_
    rintro ⟨t, rfl, -⟩
    exact hno t rfl

/-- The other reader looks where the first element is. -/
lemma extractFirstParamString_eq_some {json out : Bytes} :
    extractFirstParamString json = some out ↔
      ∃ t, firstElement json = some (34 :: t) ∧ 34 ∈ t ∧ out = t.takeWhile (· ≠ 34) := by
  unfold extractFirstParamString firstElement
  cases findParamsArray json with
  | none => simp
  | some pos => simp only [extractQuotedString_eq_some, Option.bind_some, elementAt_eq_quote]

/-- The two readers of a request agree on its first parameter. -/
structure FirstAgrees (json : Bytes) : Prop where
  /-- The element exists exactly if a parameter is counted. -/
  counted : (firstElement json).isSome ↔ 1 ≤ (jsonParseParams json 8).length
  /-- A text that is extracted is, up to its length, the parameter. -/
  parsed : ∀ out, extractFirstParamString json = some out →
    1 ≤ (jsonParseParams json 8).length ∧ (jsonParseParams json 8).head? = some (out.take 255)
  /-- A string at the first element is extracted. -/
  extracted : ∀ t, firstElement json = some (34 :: t) → 34 ∈ t →
    extractFirstParamString json = some (t.takeWhile (· ≠ 34))

/-- **The two readers agree**, on every request. -/
theorem firstAgrees (request : Bytes) : FirstAgrees (cstr request) := by
  refine ⟨?_, fun out hout => ?_, fun t ht hclosed => ?_⟩
  · rw [jsonParseParams_eq]
    cases firstElement (cstr request) with
    | none => simp
    | some p => simp
  · obtain ⟨t, ht, -, rfl⟩ := extractFirstParamString_eq_some.mp hout
    rw [jsonParseParams_eq, ht]
    exact ⟨Nat.succ_le_succ (Nat.zero_le _), rfl⟩
  · exact extractFirstParamString_eq_some.mpr ⟨t, ht, hclosed, rfl⟩

end EvmDb.FirstParam
