import EvmDb.Lib.JsonTokens
import EvmDb.Rpc.Json

/-!
Which members of a request `evmdb_json_parse_method` reads.

The parser does not follow the structure of an object. It takes the first place where a name
stands in quotes, so a field is read at the top level if its name stands nowhere before that.
-/

namespace EvmDb.RequestFields

open EvmDb.Types EvmDb.Digits EvmDb.JsonText EvmDb.JsonTokens EvmDb.Request EvmDb.Json

/-! ### The fields of a request -/

/-- What may stand between the quotes of a string that has no escapes. -/
def Unescaped (b : Bytes) : Prop := Body b ∧ 92 ∉ b

/-- An id: an integer, or a string of at most 29 bytes without escapes. -/
inductive IsId : Bytes → Prop
  | integer {n : Bytes} (h : Integer n) : IsId n
  | string {b : Bytes} (h : Unescaped b) (hlen : b.length ≤ 29) : IsId (quoted b)

/-- An object has a member with a name and a value. -/
def Has (o : Object) (name value : Bytes) : Prop :=
  ∃ m ∈ o.members, m.key.text = quoted name ∧ m.value.text = value

instance (o : Object) (name value : Bytes) : Decidable (Has o name value) :=
  inferInstanceAs (Decidable (∃ m ∈ o.members, _))

/-- The first place where a name stands in quotes is the key of a member that has a value, and
only spaces and tabs are around the colon between them. -/
def HasFirst (o : Object) (name value : Bytes) : Prop :=
  ∃ earlier m later, o.members = earlier ++ m :: later ∧ m.key.text = quoted name ∧
    m.value.text = value ∧ ¬ quoted name <:+: o.front earlier m ∧
    ∀ c ∈ m.key.after ++ m.value.before, c = 32 ∨ c = 9

lemma Unescaped.quote_notMem {b : Bytes} (h : Unescaped b) : (34 : UInt8) ∉ b := by
  obtain ⟨hb, hesc⟩ := h
  induction hb with
  | nil => exact List.not_mem_nil
  | cons hc _ ih =>
    rw [List.mem_append, not_or] at hesc ⊢
    refine ⟨?_, ih hesc.2⟩
    cases hc with
    | plain h =>
      rw [List.mem_singleton]
      rintro rfl
      cases h
    | escape | unicode => exact absurd List.mem_cons_self hesc.1
    | several hc hbs => exact notMem_several (by decide) hc hbs

/-! ### Reading a field -/

/-- The text from a value on is found behind the key. -/
lemma strstr_field {o : Object} {name value : Bytes} (h : HasFirst o name value)
    (hname : ∀ c ∈ quoted name, isWs c = false ∧ c ≠ 44 ∧ c ≠ 123)
    (hvalue : ∀ c ∈ value.head?, isBeforeValue c = false) (hne : value ≠ []) :
    ∃ t c rest, (isWs c = true ∨ c = 44 ∨ c = 125) ∧
      strstr (quoted name) o.text = some (quoted name ++ t) ∧
      t.dropWhile isBeforeValue = value ++ c :: rest := by
  obtain ⟨earlier, m, later, hm, hkey, rfl, hfirst, hspaces⟩ := h
  obtain ⟨c, rest, hc, htext⟩ := o.text_eq hm
  obtain ⟨f, d, hd, hfront⟩ := @Object.front_eq o earlier m (o.blank m (by simp [hm]))
  refine ⟨m.key.after ++ 58 :: (m.value.before ++ (m.value.text ++ c :: rest)), c, rest, hc, ?_, ?_⟩
  · have hnotMem : d ∉ quoted name := by
      intro hmem
      obtain ⟨hws, hcomma, hbrace⟩ := hname d hmem
      rcases hd with hd | hd | hd
      · rw [hws] at hd
        cases hd
      · exact hcomma hd
      · exact hbrace hd
    rw [htext, hkey, hfront, strstr_first hnotMem (hfront ▸ hfirst)]
    exact strstr_self (List.cons_ne_nil _ _) _
  · have hskipped : ∀ c ∈ m.key.after ++ 58 :: m.value.before, isBeforeValue c = true := by
      intro c hc
      have hcases : c ∈ m.key.after ++ m.value.before ∨ c = 58 := by
        simp only [List.mem_append, List.mem_cons] at hc ⊢
        tauto
      rcases hcases with hc | rfl
      · rcases hspaces c hc with rfl | rfl <;> rfl
      · rfl
    have hsplit : m.key.after ++ 58 :: (m.value.before ++ (m.value.text ++ c :: rest)) =
        (m.key.after ++ 58 :: m.value.before) ++ (m.value.text ++ c :: rest) := by simp
    obtain ⟨e, v, hv⟩ := List.exists_cons_of_ne_nil hne
    rw [hsplit, List.dropWhile_append_of_pos hskipped, hv, List.cons_append,
      List.dropWhile_cons_of_neg]
    simpa using hvalue e (by simp [hv])

lemma takeWhile_quote {b : Bytes} (hb : 34 ∉ b) (t : Bytes) :
    (b ++ 34 :: t).takeWhile (· ≠ 34) = b := by
  rw [List.takeWhile_append_of_pos fun d hd => by simpa using ne_of_mem_of_not_mem hd hb]
  simp

/-- A string that fits the buffer is copied as a whole. -/
lemma jsonExtractString_quoted {o : Object} {name b : Bytes} (h : HasFirst o name (quoted b))
    (hname : ∀ c ∈ quoted name, isWs c = false ∧ c ≠ 44 ∧ c ≠ 123) (hb : 34 ∉ b) {size : ℕ}
    (hlen : b.length < size) : jsonExtractString o.text name size = some b := by
  obtain ⟨t, c, rest, -, hfound, hvalue⟩ := strstr_field h hname (by simp [quoted]; rfl)
    (by simp [quoted])
  have hstring : jsonFindString o.text name = some (34 :: (b ++ 34 :: c :: rest)) := by
    unfold jsonFindString
    rw [hfound]
    dsimp only
    rw [List.drop_left, hvalue]
    simp [quoted]
  unfold jsonExtractString
  rw [hstring, Option.map_some, List.tail_cons, takeWhile_quote hb,
    List.take_of_length_le (by omega)]

lemma integer_chars {n : Bytes} (h : Integer n) :
    n ≠ [] ∧ ∀ c ∈ n, isIntegerChar c = true := by
  have hdigit : ∀ {c : UInt8}, isDigit c = true → isIntegerChar c = true := by
    intro c hc
    simp [isIntegerChar, hc]
  have hnat : ∀ {n : Bytes}, Natural n → n ≠ [] ∧ ∀ c ∈ n, isIntegerChar c = true := by
    rintro n (rfl | ⟨c, t, rfl, hc, -, ht⟩)
    · exact ⟨List.cons_ne_nil _ _, List.forall_mem_singleton.mpr rfl⟩
    · refine ⟨List.cons_ne_nil _ _, List.forall_mem_cons.mpr ⟨hdigit hc, ?_⟩⟩
      exact fun d hd => hdigit (ht d hd)
  rcases h with h | ⟨n, rfl, h⟩
  · exact hnat h
  · exact ⟨List.cons_ne_nil _ _, List.forall_mem_cons.mpr ⟨rfl, (hnat h).2⟩⟩

lemma isIntegerChar_cases {c : UInt8} (h : isIntegerChar c = true) :
    isBeforeValue c = false ∧ isWs c = false ∧ c ≠ 34 ∧ c ≠ 44 ∧ c ≠ 125 := by
  refine ⟨?_, ?_, ?_, ?_, ?_⟩
  · refine Bool.eq_false_iff.mpr fun hc => ?_
    have hcases : c = 32 ∨ c = 58 ∨ c = 9 := by simpa [isBeforeValue] using hc
    rcases hcases with rfl | rfl | rfl <;> cases h
  · refine Bool.eq_false_iff.mpr fun hc => ?_
    have hcases : c = 32 ∨ c = 9 ∨ c = 10 ∨ c = 13 := by simpa [isWs] using hc
    rcases hcases with rfl | rfl | rfl | rfl <;> cases h
  all_goals
    rintro rfl
    cases h

/-- An id is copied up to the 31st byte. -/
lemma jsonExtractId_isId {o : Object} {id : Bytes} (h : HasFirst o (ascii "id") id)
    (hid : IsId id) : jsonExtractId o.text 32 = id.take 31 := by
  have hname : ∀ c ∈ quoted (ascii "id"), isWs c = false ∧ c ≠ 44 ∧ c ≠ 123 := by decide
  have hdrop : ∀ t, (quoted (ascii "id") ++ t).drop 4 = t := fun t => rfl
  cases hid with
  | integer hn =>
    obtain ⟨hne, hchars⟩ := integer_chars hn
    obtain ⟨d, n, rfl⟩ := List.exists_cons_of_ne_nil hne
    obtain ⟨hbefore, -, hquote, -⟩ := isIntegerChar_cases (hchars d List.mem_cons_self)
    obtain ⟨t, c, rest, hc, hfound, hvalue⟩ := strstr_field h hname (by simpa using hbefore) hne
    have hend : isIntegerChar c = false := by
      by_contra hinteger
      obtain ⟨-, hws, -, hcomma, hbrace⟩ := isIntegerChar_cases (by simpa using hinteger)
      rw [hws] at hc
      simp [hcomma, hbrace] at hc
    have hcopied : (d :: n ++ c :: rest).takeWhile isIntegerChar = d :: n := by
      rw [List.takeWhile_append_of_pos hchars, List.takeWhile_cons_of_neg (by simp [hend]),
        List.append_nil]
    rw [jsonExtractId_of_ne hfound ((congrArg _ (hdrop t)).trans hvalue) hquote]
    exact congrArg (List.take 31) hcopied
  | @string b hb hlen =>
    obtain ⟨t, c, rest, -, hfound, hvalue⟩ := strstr_field h hname (by simp [quoted]; rfl)
      (by simp [quoted])
    have hcopied : (b ++ 34 :: c :: rest).takeWhile (· ≠ 34) = b :=
      takeWhile_quote hb.quote_notMem _
    have hquoted : quoted b ++ c :: rest = 34 :: (b ++ 34 :: c :: rest) := by simp [quoted]
    have htake : (quoted b).take 31 = quoted b :=
      List.take_of_length_le (by simp [quoted]; omega)
    rw [jsonExtractId_of_quote hfound ((congrArg _ (hdrop t)).trans (hvalue.trans hquoted)), hcopied,
      htake, List.take_of_length_le hlen]

/-- **The fields of a request come from the top level** if their names stand nowhere before: the
method as a whole, and the first 31 bytes of the id. -/
theorem parseMethod_topLevel {o : Object} {method id : Bytes}
    (hmethod : HasFirst o (ascii "method") (quoted method)) (hesc : Unescaped method)
    (hlen : method.length < 64) (hid : HasFirst o (ascii "id") id) (hisId : IsId id) :
    jsonParseMethod o.text 64 32 = (method, id.take 31) := by
  have hname : ∀ c ∈ quoted (ascii "method"), isWs c = false ∧ c ≠ 44 ∧ c ≠ 123 := by decide
  unfold jsonParseMethod
  rw [jsonExtractString_quoted hmethod hname hesc.quote_notMem hlen, Option.getD_some,
    jsonExtractId_isId hid hisId]

/-! ### Requests -/

/-- An object whose names need no escapes, with some white space behind each colon. -/
def plainObject (gap : Bytes) (hgap : Ws gap) (kvs : List (Bytes × Bytes)) (hne : kvs ≠ [])
    (hkey : ∀ kv ∈ kvs, ∀ c ∈ kv.1, isPlain c = true) (hvalue : ∀ kv ∈ kvs, Value kv.2) :
    Object where
  before := []
  members := kvs.map fun kv => ⟨bare (quoted kv.1), ⟨gap, kv.2, []⟩⟩
  after := []
  nonempty := by simpa using hne
  outer := ⟨ws_nil, ws_nil⟩
  blank := List.forall_mem_map.mpr fun _ _ => ⟨blank_bare _, hgap, ws_nil⟩
  key := List.forall_mem_map.mpr fun kv hkv => str_of_plain (hkey kv hkv)
  value := List.forall_mem_map.mpr fun kv hkv => hvalue kv hkv

lemma unescaped_of_plain {b : Bytes} (h : ∀ c ∈ b, isPlain c = true) : Unescaped b :=
  ⟨body_of_plain h, fun hmem => absurd (h 92 hmem) (by decide)⟩

lemma value_plain {b : Bytes} (h : ∀ c ∈ b, isPlain c = true) : Value (quoted b) :=
  .string (str_of_plain h)

lemma value_decimal (n : ℕ) : Value (decimal n) := .number (integer_decimal n).number

/-- A request for the chain id, with some white space behind each colon. -/
def chainIdRequest (gap : Bytes) (hgap : Ws gap) (id : ℕ) : Object :=
  plainObject gap hgap [(ascii "jsonrpc", quoted (ascii "2.0")), (ascii "id", decimal id),
    (ascii "method", quoted (ascii "eth_chainId"))] (List.cons_ne_nil _ _)
    (by simp only [List.forall_mem_cons]; decide)
    (List.forall_mem_cons.mpr ⟨value_plain (by decide), List.forall_mem_cons.mpr
      ⟨value_decimal id, List.forall_mem_singleton.mpr (value_plain (by decide))⟩⟩)

/-- **A request with spaces behind the colons** is read. -/
theorem parseMethod_topLevel_spaces :
    jsonParseMethod (chainIdRequest [32] (by decide) 42).text 64 32 =
      (ascii "eth_chainId", (ascii "42").take 31) := by
  refine parseMethod_topLevel ?_ (unescaped_of_plain (by decide)) (by decide) ?_
    (.integer (integer_decimal 42))
  · exact ⟨[_, _], _, [], rfl, by decide, by decide, by decide, by decide⟩
  · exact ⟨[_], _, [_], rfl, by decide, by decide, by decide, by decide⟩

/-- The parameters of a call: an object that has a method and an id. -/
def nestedParams : Bytes := ascii "[\x7b\"method\":\"eth_chainId\",\"id\":7\x7d]"

lemma value_nestedParams : Value nestedParams := by
  have hobject := @value_object
    [(quoted (ascii "method"), quoted (ascii "eth_chainId")), (quoted (ascii "id"), decimal 7)]
    (List.forall_mem_cons.mpr ⟨str_of_plain (by decide),
      List.forall_mem_singleton.mpr (str_of_plain (by decide))⟩)
    (List.forall_mem_cons.mpr ⟨value_plain (by decide),
      List.forall_mem_singleton.mpr (value_decimal 7)⟩)
  have harray := value_array (List.forall_mem_singleton.mpr hobject)
  convert harray using 1
  decide

/-- A call with these parameters. -/
def nestedRequest : Object :=
  plainObject [] ws_nil [(ascii "jsonrpc", quoted (ascii "2.0")), (ascii "params", nestedParams),
    (ascii "method", quoted (ascii "eth_call")), (ascii "id", decimal 1)] (List.cons_ne_nil _ _)
    (by decide)
    (List.forall_mem_cons.mpr ⟨value_plain (by decide), List.forall_mem_cons.mpr
      ⟨value_nestedParams, List.forall_mem_cons.mpr
        ⟨value_plain (by decide), List.forall_mem_singleton.mpr (value_decimal 1)⟩⟩⟩)

/-- The method and the id of a request are at the top level, no name stands there twice, and they
are not what is read. -/
def Misread (o : Object) : Prop :=
  (o.members.map fun m => m.key.text).Nodup ∧ ∃ method id,
    Has o (ascii "method") (quoted method) ∧ Unescaped method ∧ method.length < 64 ∧
      Has o (ascii "id") id ∧ IsId id ∧ jsonParseMethod o.text 64 32 ≠ (method, id)

lemma misread_chainIdRequest {gap : Bytes} {hgap : Ws gap} {id : ℕ}
    (h : jsonParseMethod (chainIdRequest gap hgap id).text 64 32 ≠
      (ascii "eth_chainId", decimal id)) : Misread (chainIdRequest gap hgap id) := by
  have hnames : [quoted (ascii "jsonrpc"), quoted (ascii "id"), quoted (ascii "method")].Nodup := by
    decide
  have hmethod : Has (chainIdRequest gap hgap id) (ascii "method") (quoted (ascii "eth_chainId")) :=
    ⟨_, List.mem_cons_of_mem _ (List.mem_cons_of_mem _ List.mem_cons_self), rfl, rfl⟩
  have hid : Has (chainIdRequest gap hgap id) (ascii "id") (decimal id) :=
    ⟨_, List.mem_cons_of_mem _ List.mem_cons_self, rfl, rfl⟩
  exact ⟨hnames, _, _, hmethod, unescaped_of_plain (by decide), by decide, hid,
    .integer (integer_decimal id), h⟩

/-- A method and an id inside a parameter are read, a method on the next line is not, and an id of
32 digits is cut. -/
theorem misread_requests :
    Misread nestedRequest ∧ Misread (chainIdRequest [10] (by decide) 1) ∧
      Misread (chainIdRequest [] ws_nil (10 ^ 31)) := by
  refine ⟨⟨by decide, ascii "eth_call", decimal 1, by decide, unescaped_of_plain (by decide),
    by decide, by decide, .integer (integer_decimal 1), ?_⟩, ?_, ?_⟩
  · decide
  · exact misread_chainIdRequest (by decide)
  · exact misread_chainIdRequest (by decide)

end EvmDb.RequestFields
