import EvmDb.Rpc.Receipts

/-!
When the response to a request is a JSON text.

The id of a request is printed as it was scanned, and a stored receipt as it lies in memory;
everything else in a response is JSON.
-/

namespace EvmDb.JsonResponses

open EvmDb.Checked EvmDb.Types EvmDb.Digits EvmDb.Hex EvmDb.Program EvmDb.Redis EvmDb.RedisState
open EvmDb.Executor EvmDb.JsonText EvmDb.JsonScan EvmDb.JsonTokens EvmDb.Request EvmDb.Json
open EvmDb.SendRaw EvmDb.Handlers EvmDb.Dispatch EvmDb.Responses EvmDb.Receipts

/-! ### Requests -/

/-- The id of a request, as far as it is scanned, is JSON: it is missing; or it is in quotes, and
its first 29 characters can stand in a string; or its first 31 digits and minuses are an integer. -/
def IdFits (request : Bytes) : Prop :=
  match strstr (ascii "\"id\"") request with
  | none => True
  | some pos =>
    match (pos.drop 4).dropWhile isBeforeValue with
    | 34 :: t => Body ((t.takeWhile (· ≠ 34)).take 29)
    | t => Integer ((t.takeWhile isIntegerChar).take 31)

/-- Every receipt in the store was stored when a transaction was sent. -/
def SentReceipts (s : Store) : Prop :=
  ∀ h text, s (receiptCell h) = some text → ∃ r : Receipt, text = r.text

/-- A request fetches no receipt that is stored. -/
def FetchesNone (request : Bytes) (s : Store) : Prop :=
  ∀ h, fetchedHash request = some h → s (receiptCell h) = none

/-- None of the requests, handled one after the other, fetches a receipt that is stored when its
turn comes. -/
def NoneFetched (rpc : Rpc) (parser : TxParser) : (ℕ → UInt64) → List Bytes → Store → Prop
  | _, [], _ => True
  | clock, item :: items, s =>
    FetchesNone item s ∧
      NoneFetched rpc parser (fun n => clock (n + 1)) items
        (run server (dispatchSingle rpc parser (clock 0) item) s).2

/-- A response that is determined, and is JSON. -/
def IsJson : Read Bytes → Prop
  | .ok text => Valid text
  | _ => False

/-! ### The response to one request -/

lemma integer_decimalInt (n : ℤ) : Integer (decimalInt n) := by
  unfold decimalInt
  split_ifs
  · exact Or.inr ⟨_, rfl, natural_decimal _⟩
  · exact integer_decimal _

/-- A response with an id that is JSON is JSON. -/
lemma value_text {id : Bytes} {r : Response} (hid : Value id) (hr : Fits id r) : Value r.text := by
  have hversion : Value (quoted (ascii "2.0")) := value_quoted (by decide)
  cases hr with
  | @result value hv =>
    have htext : (Response.result id value).text =
        123 :: joined [field "jsonrpc" (quoted (ascii "2.0")), field "id" id,
          field "result" value] ++ [125] := by
      simp [Response.text, makeResponse, joined, field, quoted, ascii]
    rw [htext]
    exact Fields.value <| .cons hversion <| .cons hid <|
      .cons hv .nil
  | @error code message hm =>
    have hobject : Value (123 :: joined [field "code" (decimalInt code),
        field "message" (quoted message)] ++ [125]) :=
      Fields.value <| .cons (.number (integer_decimalInt code).number) <|
        .cons (value_quoted hm) .nil
    have htext : (Response.error id code message).text =
        123 :: joined [field "jsonrpc" (quoted (ascii "2.0")), field "id" id, field "error"
          (123 :: joined [field "code" (decimalInt code), field "message" (quoted message)] ++
            [125])] ++ [125] := by
      simp [Response.text, makeError, joined, field, quoted, ascii]
    rw [htext]
    exact Fields.value <| .cons hversion <| .cons hid <|
      .cons hobject .nil

/-- What is printed before the id. -/
def opening : Bytes := ascii "\x7b\"jsonrpc\":\"2.0\",\"id\":"

/-- Behind the id come a comma and a quote, and then the first letter of a name. -/
lemma text_opening {id : Bytes} {r : Response} (hr : Fits id r) :
    ∃ c t, (c = 114 ∨ c = 101) ∧ r.text = opening ++ (id ++ 44 :: 34 :: c :: t) := by
  cases hr with
  | @result value =>
    exact ⟨114, ascii "esult\":" ++ (value ++ [125]), Or.inl rfl, by
      simp [Response.text, makeResponse, opening, ascii]⟩
  | @error code message =>
    exact ⟨101, ascii "rror\":\x7b\"code\":" ++ (decimalInt code ++ (ascii ",\"message\":\"" ++
      (message ++ ascii "\"\x7d\x7d"))), Or.inr rfl, by
        simp [Response.text, makeError, opening, ascii]⟩

lemma idFits_of_ne {request pos t : Bytes} {c : UInt8}
    (hfound : strstr (ascii "\"id\"") request = some pos)
    (ht : (pos.drop 4).dropWhile isBeforeValue = c :: t) (hc : c ≠ 34) :
    IdFits request ↔ Integer (((c :: t).takeWhile isIntegerChar).take 31) := by
  unfold IdFits
  rw [hfound]
  dsimp only
  rw [ht]
  split
  · rename_i h
    exact absurd (List.cons.inj h).1 hc
  · rfl

lemma idFits_of_quote {request pos t : Bytes} (hfound : strstr (ascii "\"id\"") request = some pos)
    (ht : (pos.drop 4).dropWhile isBeforeValue = 34 :: t) :
    IdFits request ↔ Body ((t.takeWhile (· ≠ 34)).take 29) := by
  unfold IdFits
  rw [hfound]
  dsimp only
  generalize (pos.drop 4).dropWhile isBeforeValue = u at ht
  subst ht
  rfl

/-- An id is in quotes, or consists of digits and minuses. -/
lemma id_cases (request : Bytes) :
    (∃ b, 34 ∉ b ∧ idOf request = 34 :: (b ++ [34]) ∧ (IdFits request ↔ Body b)) ∨
      (∀ c ∈ idOf request, isIntegerChar c = true) ∧
        (IdFits request ↔ Integer (idOf request)) := by
  have hone : Integer (ascii "1") := Or.inl (Or.inr ⟨49, [], rfl, rfl, by decide, by simp⟩)
  have hchars : ∀ t : Bytes, ∀ c ∈ (t.takeWhile isIntegerChar).take 31, isIntegerChar c = true :=
    fun t c hc => List.mem_takeWhile_imp (List.mem_of_mem_take hc)
  have hid : idOf request = jsonExtractId request 32 := rfl
  rw [hid]
  rcases hfound : strstr (ascii "\"id\"") request with _ | pos
  · unfold jsonExtractId IdFits
    rw [hfound]
    exact Or.inr ⟨by decide, iff_of_true trivial hone⟩
  rcases ht : (pos.drop 4).dropWhile isBeforeValue with _ | ⟨c, t⟩
  · unfold jsonExtractId IdFits
    rw [hfound]
    dsimp only
    rw [ht]
    exact Or.inr ⟨hchars [], Iff.rfl⟩
  by_cases hc : c = 34
  · subst hc
    refine Or.inl ⟨(t.takeWhile (· ≠ 34)).take 29, fun hmem => ?_, ?_, idFits_of_quote hfound ht⟩
    · simpa using List.mem_takeWhile_imp (List.mem_of_mem_take hmem)
    · exact jsonExtractId_of_quote hfound ht 32
  · rw [jsonExtractId_of_ne hfound ht hc, idFits_of_ne hfound ht hc]
    exact Or.inr ⟨hchars _, Iff.rfl⟩

lemma value_id {request : Bytes} (h : IdFits request) : Value (idOf request) := by
  rcases id_cases request with ⟨b, -, hid, hfits⟩ | ⟨-, hfits⟩
  · rw [hid]
    exact .string ⟨b, hfits.mp h, rfl⟩
  · exact .number (hfits.mp h).number

/-- Where the machine goes on behind the id, it has read the id. -/
lemma idFits_of_scan {below : List Frame} {request t : Bytes} {c : UInt8}
    (hc : endValue (.object :: below) c = none)
    (h : scan (.value, .object :: below) (idOf request ++ 44 :: 34 :: c :: t) ≠ none) :
    IdFits request := by
  rcases id_cases request with ⟨b, hb, hid, hfits⟩ | ⟨hchars, hfits⟩
  · rw [hid, List.cons_append, List.append_assoc] at h
    exact hfits.mpr (body_of_scan hb hc h)
  · exact hfits.mpr (integer_of_scan hchars h)

lemma scan_opening (stk : List Frame) {mode : Mode} (hmode : mode = .value ∨ mode = .items) :
    scan (mode, stk) opening = some (.value, .object :: stk) := by
  rcases hmode with rfl | rfl <;> rfl

lemma idFits_of_scan_text {request : Bytes} {r : Response} (hr : Fits (idOf request) r)
    {mode : Mode} (hmode : mode = .value ∨ mode = .items) {stk : List Frame} {rest : Bytes}
    (h : scan (mode, stk) (r.text ++ rest) ≠ none) : IdFits request := by
  obtain ⟨c, t, hc, htext⟩ := text_opening hr
  rw [htext, List.append_assoc, scan_append_of (scan_opening stk hmode), List.append_assoc] at h
  refine idFits_of_scan ?_ h
  rcases hc with rfl | rfl <;> rfl

/-! ### The responses to a batch -/

/-- An array of responses is read no further than to the first id that is not JSON. -/
lemma idFits_of_scan_batch {items : List Bytes} {rs : List Response}
    (hrs : List.Forall₂ (fun item r => Fits (idOf item) r) items rs) {mode : Mode}
    (hmode : mode = .value ∨ mode = .items) {rest : Bytes}
    (h : scan (mode, [.array]) (commas (rs.map Response.text) ++ rest) ≠ none) :
    ∀ item ∈ items, IdFits item := by
  induction hrs generalizing mode with
  | nil => simp
  | @cons item r items rs hr hrest ih =>
    cases rs with
    | nil =>
      cases hrest
      exact List.forall_mem_singleton.mpr (idFits_of_scan_text hr hmode h)
    | cons r' rs =>
      have hcommas : commas ((r :: r' :: rs).map Response.text) =
          r.text ++ 44 :: commas ((r' :: rs).map Response.text) := rfl
      rw [hcommas, List.append_assoc] at h
      have hid := idFits_of_scan_text hr hmode h
      refine List.forall_mem_cons.mpr ⟨hid, ih (Or.inl rfl) ?_⟩
      -- the first response is JSON, so it is read to the comma
      have hread : ∃ st, scan (mode, [.array]) r.text = some st ∧ Ended [.array] st := by
        obtain ⟨st, hscan, hended⟩ := scan_value (value_text (value_id hid) hr) [.array]
        refine ⟨st, ?_, hended⟩
        rcases hmode with rfl | rfl
        · exact hscan
        · obtain ⟨c, t, -, htext⟩ := text_opening hr
          rw [htext, scan_append_of (scan_opening _ (Or.inl rfl))] at hscan
          rw [htext, scan_append_of (scan_opening _ (Or.inr rfl)), hscan]
      obtain ⟨st, hscan, hended⟩ := hread
      have hcomma : endValue [.array] 44 = some (.value, [.array]) := rfl
      rwa [scan_append_of hscan, List.cons_append,
        scan_cons_of ((step_of_ended hended (by decide)).trans hcomma)] at h

/-! ### Receipts -/

lemma SentReceipts.run {s : Store} (hs : SentReceipts s) (i : Incoming) :
    SentReceipts (i.run s).2 := by
  intro h text htext
  obtain ⟨hsends, hkeeps⟩ := receipt_step i h s
  by_cases hsend : i.Sends h s
  · obtain ⟨r, hr⟩ := hsends hsend
    exact ⟨r, Option.some.inj (htext.symm.trans hr)⟩
  · exact hs h text ((hkeeps hsend).symm.trans htext)

lemma SentReceipts.put {s : Store} (hs : SentReceipts s) (h : Hash) (r : Receipt) :
    SentReceipts (put s (receiptCell h) r.text) := by
  intro h' text htext
  by_cases heq : h' = h
  · rw [heq, put_same] at htext
    exact ⟨r, (Option.some.inj htext).symm⟩
  · rw [put_of_ne _ _ (fun hc => heq (receiptCell_inj.mp hc))] at htext
    exact hs h' text htext

/-- A response is determined and fits, or it is that of a stored receipt. -/
lemma response_cases {i : Incoming} {s : Store} (hstatus : PlainStatus i.rpc.evm)
    (hs : SentReceipts s) :
    (FetchesNone i.request s → ∃ r, (i.run s).1 = .ok r ∧ Fits (idOf i.request) r) ∧
      (¬ FetchesNone i.request s → ∃ n, (i.run s).1 = .outside n) := by
  by_cases hm : methodOf i.request = ascii "eth_getTransactionReceipt"
  · rcases hfetch : fetchedHash i.request with _ | h
    · refine ⟨fun _ => ?_, fun hno => absurd (fun h hh => ?_) hno⟩
      · unfold fetchedHash at hfetch
        rw [if_pos hm] at hfetch
        unfold Incoming.run
        rw [dispatchSingle_getTransactionReceipt _ _ _ _ hm]
        generalize jsonParseParams i.request 8 = params at hfetch
        rcases params with _ | ⟨param, params⟩
        · exact ⟨_, rfl, .error (by decide)⟩
        · have hdecode : decodeExact 32 param = none := hfetch
          unfold handleGetTransactionReceipt
          dsimp only
          rw [hdecode]
          exact ⟨_, rfl, .error (by decide)⟩
      · rw [hfetch] at hh
        cases hh
    · have hiff : FetchesNone i.request s ↔ s (receiptCell h) = none := by
        unfold FetchesNone
        rw [hfetch]
        exact ⟨fun hall => hall h rfl, fun hn h' hh => Option.some.inj hh ▸ hn⟩
      rw [hiff, run_fetch hfetch]
      rcases hstored : s (receiptCell h) with _ | text
      · have hempty : storedReceipt s h = [] := by
          unfold storedReceipt
          rw [hstored]
          rfl
        rw [if_pos hempty]
        exact ⟨fun _ => ⟨_, rfl, .result .null⟩, fun hno => absurd rfl hno⟩
      · have htext : storedReceipt s h = text := by
          unfold storedReceipt
          rw [hstored]
          rfl
        obtain ⟨r, rfl⟩ := hs h text hstored
        rw [htext, if_neg (text_ne_nil r), stringAt_of_notMem (value_receipt r).zero_notMem]
        exact ⟨nofun, fun _ => ⟨_, rfl⟩⟩
  · have hdet : Returns (Determined (idOf i.request))
        (dispatchSingle i.rpc i.parser i.time i.request) := determined_dispatchSingle hstatus hm
    refine ⟨fun _ => hdet.run server s, fun hno => absurd (fun h hh => ?_) hno⟩
    unfold fetchedHash at hh
    rw [if_neg hm] at hh
    cases hh

/-! ### The response to any request -/

/-- The responses to a batch are determined and fit, or one of them is that of a stored receipt. -/
lemma responses_cases {rpc : Rpc} {parser : TxParser} (hstatus : PlainStatus rpc.evm)
    {items : List Bytes} {clock : ℕ → UInt64} {s : Store} (hs : SentReceipts s) :
    (NoneFetched rpc parser clock items s →
      ∃ rs, (run server (dispatchAll rpc parser clock items) s).1 = rs.map .ok ∧
        List.Forall₂ (fun item r => Fits (idOf item) r) items rs) ∧
    (¬ NoneFetched rpc parser clock items s →
      ∃ n, .outside n ∈ (run server (dispatchAll rpc parser clock items) s).1) := by
  induction items generalizing clock s with
  | nil => exact ⟨fun _ => ⟨[], rfl, .nil⟩, fun hno => absurd trivial hno⟩
  | cons item items ih =>
    have hfirst := @response_cases ⟨rpc, parser, clock 0, item⟩ s hstatus hs
    have hrest := @ih (fun n => clock (n + 1)) _ (hs.run ⟨rpc, parser, clock 0, item⟩)
    unfold dispatchAll
    rw [run_bind, run_bind]
    constructor
    · rintro ⟨hnone, hall⟩
      obtain ⟨r, hr, hfits⟩ := hfirst.1 hnone
      obtain ⟨rs, hrs, hfit⟩ := hrest.1 hall
      refine ⟨r :: rs, ?_, .cons hfits hfit⟩
      exact congrArg₂ List.cons hr hrs
    · intro hno
      by_cases hnone : FetchesNone item s
      · obtain ⟨n, hn⟩ := hrest.2 fun hall => hno ⟨hnone, hall⟩
        exact ⟨n, List.mem_cons_of_mem _ hn⟩
      · obtain ⟨n, hn⟩ := hfirst.2 hnone
        exact ⟨n, List.mem_cons.mpr (Or.inl hn.symm)⟩

variable {rpc : Rpc} {parser : TxParser} {clock : ℕ → UInt64} {request : Bytes} {s : Store}

lemma batchText_map_ok (rs : List Response) :
    batchText (rs.map .ok) = .ok (arrayJson (rs.map Response.text)) := by
  unfold batchText
  rw [Read.mapM_eq_ok.mpr rfl]
  rfl

lemma not_isJson_batchText {responses : List (Read Response)} {n : ℕ}
    (h : .outside n ∈ responses) : ¬ IsJson (batchText responses) := by
  intro hjson
  rcases hall : responses.mapM id with rs | _ | m
  · rw [Read.mapM_eq_ok.mp hall] at h
    obtain ⟨r, -, hr⟩ := List.mem_map.mp h
    cases hr
  all_goals
    unfold batchText at hjson
    rw [hall] at hjson
    exact hjson

lemma value_batch {items : List Bytes} {rs : List Response}
    (hfit : List.Forall₂ (fun item r => Fits (idOf item) r) items rs)
    (hids : ∀ item ∈ items, IdFits item) : Value (arrayJson (rs.map Response.text)) := by
  refine value_arrayJson (List.forall_mem_map.mpr ?_)
  induction hfit with
  | nil => simp
  | cons hr _ ih =>
    obtain ⟨hid, hids⟩ := List.forall_mem_cons.mp hids
    exact List.forall_mem_cons.mpr ⟨value_text (value_id hid) hr, ih hids⟩

lemma idFits_of_valid_batch {items : List Bytes} {rs : List Response}
    (hfit : List.Forall₂ (fun item r => Fits (idOf item) r) items rs)
    (h : Valid (arrayJson (rs.map Response.text))) : ∀ item ∈ items, IdFits item := by
  have haccepts := accepts_of_valid h
  have hopen : step (.value, []) 91 = some (.items, [.array]) := rfl
  unfold Accepts arrayJson at haccepts
  rw [joined_eq, List.cons_append, List.cons_append, List.append_assoc, scan_cons_of hopen]
    at haccepts
  have hscan :
      scan (.items, [.array]) (commas (rs.map Response.text) ++ ([93] ++ [32])) ≠ none := by
    rw [haccepts]
    exact Option.some_ne_none _
  exact idFits_of_scan_batch hfit (Or.inr rfl) hscan

lemma idFits_of_valid {item : Bytes} {r : Response} (hfit : Fits (idOf item) r)
    (h : Valid r.text) : IdFits item := by
  have haccepts := accepts_of_valid h
  have hscan : scan (.value, []) (r.text ++ [32]) ≠ none := by
    rw [haccepts]
    exact Option.some_ne_none _
  exact idFits_of_scan_text hfit (Or.inl rfl) hscan

/-- **When a response is JSON**: the scanned ids of all requests are, and no request fetches a
receipt that is stored. -/
theorem isJson_iff (hstatus : PlainStatus rpc.evm) (hs : SentReceipts s) :
    IsJson (run server (handleRequest rpc parser clock request) s).1 ↔
      (∀ item ∈ dispatched request, IdFits item) ∧
        NoneFetched rpc parser clock (dispatched request) s := by
  rcases handleRequest_cases rpc parser request clock with hrun | ⟨single, hitems, hrun⟩
  · obtain ⟨hyes, hno⟩ := @responses_cases rpc parser hstatus (dispatched request) clock s hs
    rw [hrun, run_bind]
    dsimp only [Prog.pure_eq, run_ret]
    constructor
    · intro hjson
      have hnone : NoneFetched rpc parser clock (dispatched request) s := by
        by_contra hfetched
        obtain ⟨n, hn⟩ := hno hfetched
        exact not_isJson_batchText hn hjson
      obtain ⟨rs, hrs, hfit⟩ := hyes hnone
      rw [hrs, batchText_map_ok] at hjson
      exact ⟨idFits_of_valid_batch hfit hjson, hnone⟩
    · rintro ⟨hids, hnone⟩
      obtain ⟨rs, hrs, hfit⟩ := hyes hnone
      rw [hrs, batchText_map_ok]
      exact (value_batch hfit hids).valid
  · obtain ⟨hyes, hno⟩ := @response_cases ⟨rpc, parser, clock 0, single⟩ s hstatus hs
    rw [hrun, hitems, run_bind]
    dsimp only [Prog.pure_eq, run_ret, Incoming.run] at hyes hno ⊢
    rw [List.forall_mem_singleton]
    constructor
    · intro hjson
      have hnone : FetchesNone single s := by
        by_contra hfetched
        obtain ⟨n, hn⟩ := hno hfetched
        rw [hn] at hjson
        exact hjson
      obtain ⟨r, hr, hfit⟩ := hyes hnone
      rw [hr] at hjson
      exact ⟨idFits_of_valid hfit hjson, hnone, trivial⟩
    · rintro ⟨hid, hnone, -⟩
      obtain ⟨r, hr, hfit⟩ := hyes hnone
      rw [hr]
      exact (value_text (value_id hid) hfit).valid

/-- The id of a request for the chain id is `null`. -/
def nullRequest : Bytes := ascii "\x7b\"method\":\"eth_chainId\",\"id\":null\x7d"

lemma plainStatus_idle : PlainStatus idleRpc.evm := fun _ _ hc => absurd hc List.not_mem_nil

lemma sentReceipts_empty : SentReceipts fun _ => none := nofun

/-- A request for the receipt of a transaction that was never sent, with a string for its id. -/
def unknownReceipt : Bytes :=
  ascii "\x7b\"method\":\"eth_getTransactionReceipt\",\"params\":[\"0x" ++ List.replicate 64 49 ++
    ascii "\"],\"id\":\"a\"\x7d"

/-- A request for the number of the latest block, with a negative number for its id. -/
def latestBlock : Bytes := ascii "\x7b\"method\":\"eth_blockNumber\",\"id\":-7\x7d"

def receiptBatch : Bytes := 91 :: (unknownReceipt ++ 44 :: (latestBlock ++ [93]))

/-- A store that holds a receipt. -/
def receiptStore : Store :=
  put (fun _ => none) (receiptCell (.zero 32)) (receiptFor idleRpc plainTx 1 true 21000).text

/-- Both requests of the batch are answered with JSON, and so is the batch. -/
theorem isJson_receiptBatch :
    IsJson (run server (handleRequest idleRpc plainParser (fun _ => 0) receiptBatch)
      receiptStore).1 := by
  have hitems : dispatched receiptBatch = [unknownReceipt, latestBlock] := by decide +kernel
  have hstring : IdFits unknownReceipt :=
    (@idFits_of_quote unknownReceipt (ascii "\"id\":\"a\"\x7d") (ascii "a\"\x7d")
      (by decide +kernel) (by decide)).mpr (body_of_plain (by decide))
  have hseven : Integer (ascii "-7") := by
    rw [show ascii "-7" = decimalInt (-7) by decide]
    exact integer_decimalInt (-7)
  have hnumber : IdFits latestBlock :=
    (@idFits_of_ne latestBlock (ascii "\"id\":-7\x7d") (ascii "7\x7d") 45 (by decide +kernel)
      (by decide) (by decide)).mpr hseven
  have hunknown : fetchedHash unknownReceipt = some ⟨List.replicate 32 0x11, rfl⟩ := by
    decide +kernel
  have hlatest : fetchedHash latestBlock = none := by decide +kernel
  refine (isJson_iff plainStatus_idle (SentReceipts.put sentReceipts_empty _ _)).mpr ?_
  rw [hitems]
  refine ⟨?_, fun h hh => ?_, fun h hh => ?_, trivial⟩
  · rw [List.forall_mem_cons, List.forall_mem_singleton]
    exact ⟨hstring, hnumber⟩
  · rw [hunknown] at hh
    cases hh
    decide +kernel
  · rw [hlatest] at hh
    cases hh

/-- The response has nothing between the colon behind `"id"` and the next comma. -/
theorem not_isJson_null :
    SentReceipts (fun _ => none) ∧
      ¬ IsJson (run server (handleRequest idleRpc plainParser (fun _ => 0) nullRequest)
        (fun _ => none)).1 := by
  refine ⟨sentReceipts_empty, fun hjson => ?_⟩
  have hresponse : (run server (handleRequest idleRpc plainParser (fun _ => 0) nullRequest)
      (fun _ => none)).1 =
        .ok (ascii "\x7b\"jsonrpc\":\"2.0\",\"id\":,\"result\":\"0x1\"\x7d") := by
    decide +kernel
  rw [hresponse] at hjson
  exact absurd (accepts_of_valid hjson) (by decide)

end EvmDb.JsonResponses
