import EvmDb.Rpc.Dispatch
import EvmDb.Rpc.RequestFields

/-!
Which batches are cut into their requests.

A batch is cut by counting braces, and a brace in a string counts. The cuts are right if the braces
of every request are balanced, whatever the strings they stand in.
-/

namespace EvmDb.Batches

open EvmDb.Checked EvmDb.Types EvmDb.Hex EvmDb.JsonText EvmDb.Program EvmDb.Redis EvmDb.Request
open EvmDb.SendRaw EvmDb.Handlers EvmDb.Dispatch EvmDb.Executor EvmDb.RequestFields

/-! ### Batches -/

/-- What stands between the braces of a request. -/
def content (o : Object) : Bytes := commas (o.members.map Member.all)

/-- A request without the white space around it. -/
def request (o : Object) : Bytes := 123 :: (content o ++ [125])

/-- Some requests written as an array. -/
structure Batch where
  before : Bytes
  requests : List Object
  after : Bytes
  outer : Ws before ∧ Ws after

def Batch.text (b : Batch) : Bytes :=
  b.before ++ 91 :: (commas (b.requests.map Object.text) ++ 93 :: b.after)

/-- The braces of a text are balanced, those in its strings as well: no brace is closed that has not
been opened, and every brace that has been opened is closed. -/
def Balanced (t : Bytes) : Prop :=
  (∀ u, u <+: t → u.count 125 ≤ u.count 123) ∧ t.count 125 = t.count 123

variable (rpc : Rpc) (parser : TxParser)

/-- What `dispatch_single` gives for some requests that are sent one after the other, and the store
behind them. -/
def oneByOne : (ℕ → UInt64) → List Bytes → Store → List (Read Response) × Store
  | _, [], s => ([], s)
  | clock, item :: items, s =>
    let (response, s) := run server (dispatchSingle rpc parser (clock 0) item) s
    let (responses, s) := oneByOne (fun n => clock (n + 1)) items s
    (response :: responses, s)

/-- A batch has the responses that its requests have one by one, and the same effect. -/
def Sequential (b : Batch) : Prop :=
  ∀ rpc parser clock s, run server (handleRequest rpc parser clock b.text) s =
    let (responses, s') := oneByOne rpc parser clock (b.requests.map request) s
    (batchText responses, s')

/-! ### Counting braces -/

/-- From a depth, the count comes to zero at the end of a text, and not before. -/
def ClosesFrom (d : ℕ) (t : Bytes) : Prop :=
  (∀ u, u <+: t → u ≠ t → u.count 125 < d + u.count 123) ∧ t.count 125 = d + t.count 123

/-- One more character in front of a text that is read from another depth. -/
lemma closesFrom_cons_iff {d e : ℕ} (hd : 0 < d) {c : UInt8} {t : Bytes}
    (hcount : ∀ u : Bytes, (c :: u).count 125 + (e + u.count 123) =
      d + (c :: u).count 123 + u.count 125) :
    ClosesFrom d (c :: t) ↔ ClosesFrom e t := by
  constructor
  · rintro ⟨hbefore, hend⟩
    refine ⟨fun u hu hne => ?_, by have := hcount t; omega⟩
    have hlt := hbefore (c :: u) ((List.prefix_cons_inj c).mpr hu)
      fun heq => hne (List.cons.inj heq).2
    have := hcount u
    omega
  · rintro ⟨hbefore, hend⟩
    refine ⟨fun u hu hne => ?_, by have := hcount t; omega⟩
    rcases List.prefix_cons_iff.mp hu with rfl | ⟨v, rfl, hv⟩
    · simpa using hd
    · have hlt := hbefore v hv fun heq => hne (by rw [heq])
      have := hcount v
      omega

lemma closesFrom_cons {d : ℕ} (hd : 0 < d) (c : UInt8) (t : Bytes) :
    ClosesFrom d (c :: t) ↔
      if c = 123 then ClosesFrom (d + 1) t
      else if c = 125 then if d = 1 then t = [] else ClosesFrom (d - 1) t
      else ClosesFrom d t := by
  split_ifs with hopen hclose hone
  · subst hopen
    refine closesFrom_cons_iff hd fun u => ?_
    rw [List.count_cons_self, List.count_cons_of_ne (by decide)]
    omega
  · subst hclose hone
    constructor
    · rintro ⟨hbefore, -⟩
      by_contra hne
      have hlt := hbefore [125] ((List.prefix_cons_inj 125).mpr List.nil_prefix)
        fun heq => hne (List.cons.inj heq).2.symm
      revert hlt
      decide
    · rintro rfl
      refine ⟨fun u hu hne => ?_, by decide⟩
      rcases List.prefix_cons_iff.mp hu with rfl | ⟨v, rfl, hv⟩
      · decide
      · exact absurd (by rw [List.prefix_nil.mp hv]) hne
  · subst hclose
    refine closesFrom_cons_iff hd fun u => ?_
    rw [List.count_cons_self, List.count_cons_of_ne (by decide)]
    omega
  · refine closesFrom_cons_iff hd fun u => ?_
    rw [List.count_cons_of_ne hclose, List.count_cons_of_ne hopen]
    omega

lemma closesFrom_request (t : Bytes) : ClosesFrom 1 (t ++ [125]) ↔ Balanced t := by
  unfold ClosesFrom Balanced
  have hcount : (t ++ [125]).count 125 = 1 + (t ++ [125]).count 123 ↔
      t.count 125 = t.count 123 := by
    rw [List.count_append, List.count_append]
    simp
    omega
  rw [hcount]
  refine and_congr_left fun _ => ⟨fun h u hu => ?_, fun h u hu hne => ?_⟩
  · have hlt := h u (hu.trans (List.prefix_append _ _)) fun heq => by
      have hlen := hu.length_le
      rw [heq, List.length_append, List.length_singleton] at hlen
      omega
    omega
  · have hle := h u ((List.prefix_concat_iff.mp hu).resolve_left hne)
    omega

/-- One more character of an item. -/
lemma batchItems_cons (d : ℕ) (item : Bytes) (c : UInt8) (t : Bytes) :
    batchItems (d + 1) item (c :: t) =
      if c = 123 then batchItems (d + 2) (item ++ [c]) t
      else if c = 125 then
        if d = 0 then (item ++ [c]) :: batchItems 0 [] t else batchItems d (item ++ [c]) t
      else batchItems (d + 1) (item ++ [c]) t := by
  rw [batchItems]

/-- Each character is added to the item, which then goes on or is cut. -/
lemma batchItems_step (d : ℕ) (item : Bytes) (c : UInt8) (t : Bytes) :
    (∃ e, batchItems (d + 1) item (c :: t) = batchItems (e + 1) (item ++ [c]) t) ∨
      batchItems (d + 1) item (c :: t) = (item ++ [c]) :: batchItems 0 [] t := by
  rw [batchItems_cons]
  split_ifs with hopen hclose hlast
  · exact Or.inl ⟨d + 1, rfl⟩
  · exact Or.inr rfl
  · obtain ⟨e, rfl⟩ := Nat.exists_eq_succ_of_ne_zero hlast
    exact Or.inl ⟨e, rfl⟩
  · exact Or.inl ⟨d, rfl⟩

/-- The item that is being cut does not shrink, and grows unless the text is at its end. -/
lemma batchItems_grows {d : ℕ} {item t i : Bytes} {is : List Bytes}
    (h : batchItems (d + 1) item t = i :: is) : item.length + min 1 t.length ≤ i.length := by
  induction t generalizing d item with
  | nil =>
    cases h
    exact le_rfl
  | cons c t ih =>
    have hone : (item ++ [c]).length = item.length + 1 := by simp
    rw [List.length_cons]
    rcases batchItems_step d item c t with ⟨e, hstep⟩ | hstep
    · have hle := ih (hstep.symm.trans h)
      omega
    · rw [hstep] at h
      cases h
      omega

/-- An item is cut at the end of a text exactly if the count comes to zero there. -/
lemma batchItems_append {d : ℕ} (item u : Bytes) {t : Bytes} (ht : t ≠ []) (is : List Bytes) :
    batchItems (d + 1) item (u ++ t) = (item ++ u) :: is ↔
      ClosesFrom (d + 1) u ∧ batchItems 0 [] t = is := by
  induction u generalizing d item with
  | nil =>
    refine iff_of_false (fun h => ?_) fun h => ?_
    · have hgrows := batchItems_grows h
      have hpos := List.length_pos_iff.mpr ht
      rw [List.append_nil, List.nil_append] at hgrows
      omega
    · have hzero := h.1.2
      simp at hzero
  | cons c u ih =>
    have hitem : item ++ c :: u = item ++ [c] ++ u := by simp
    rw [closesFrom_cons (Nat.succ_pos d), List.cons_append, batchItems_cons, hitem]
    by_cases hopen : c = 123
    · rw [if_pos hopen, if_pos hopen]
      exact ih _
    rw [if_neg hopen, if_neg hopen]
    by_cases hclose : c = 125
    · rw [if_pos hclose, if_pos hclose]
      by_cases hlast : d = 0
      · rw [if_pos hlast, if_pos (by omega), List.cons.injEq]
        constructor
        · rintro ⟨hlen, his⟩
          have hu : u = [] := by simpa using hlen
          exact ⟨hu, by rwa [hu] at his⟩
        · rintro ⟨rfl, his⟩
          exact ⟨by simp, his⟩
      · obtain ⟨e, rfl⟩ := Nat.exists_eq_succ_of_ne_zero hlast
        rw [if_neg hlast, if_neg (by omega)]
        exact ih _
    · rw [if_neg hclose, if_neg hclose]
      exact ih _

/-! ### Cutting a batch -/

/-- What stands between two items is passed over. -/
lemma batchItems_skip {w : Bytes} (hw : ∀ c ∈ w, c ≠ 93 ∧ c ≠ 123) (t : Bytes) :
    batchItems 0 [] (w ++ t) = batchItems 0 [] t := by
  induction w with
  | nil => rfl
  | cons c w ih =>
    obtain ⟨⟨hend, hopen⟩, hw⟩ := List.forall_mem_cons.mp hw
    rw [List.cons_append, batchItems, if_neg hend, if_neg hopen]
    exact ih hw

lemma ws_ne {w : Bytes} (hw : Ws w) : ∀ c ∈ w, c ≠ 93 ∧ c ≠ 123 := by
  intro c hc
  refine ⟨?_, ?_⟩ <;>
    · rintro rfl
      exact absurd (hw _ hc) (by decide)

/-- A request in front of some text is cut out exactly if its braces are balanced. -/
lemma batchItems_request (o : Object) {t : Bytes} (ht : t ≠ []) (is : List Bytes) :
    batchItems 0 [] (o.before ++ (request o ++ t)) = request o :: is ↔
      Balanced (content o) ∧ batchItems 0 [] t = is := by
  rw [batchItems_skip (ws_ne o.outer.1), ← closesFrom_request, ← batchItems_append [123] _ ht]
  rfl

lemma text_eq (o : Object) (t : Bytes) :
    o.text ++ t = o.before ++ (request o ++ (o.after ++ t)) := by
  simp [Object.text, request, content]

/-- The items of some requests, up to the closing bracket. -/
lemma batchItems_commas (os : List Object) (after : Bytes) :
    batchItems 0 [] (commas (os.map Object.text) ++ 93 :: after) = os.map request ↔
      ∀ o ∈ os, Balanced (content o) := by
  induction os with
  | nil => exact iff_of_true rfl fun o ho => absurd ho List.not_mem_nil
  | cons o os ih =>
    rw [List.forall_mem_cons, ← ih, List.map_cons, List.map_cons]
    cases os with
    | nil =>
      show batchItems 0 [] (o.text ++ 93 :: after) = [request o] ↔
        Balanced (content o) ∧ batchItems 0 [] (93 :: after) = []
      rw [text_eq, batchItems_request o (by simp), batchItems_skip (ws_ne o.outer.2)]
    | cons o' os =>
      have hcommas : commas (o.text :: (o' :: os).map Object.text) ++ 93 :: after =
          o.text ++ 44 :: (commas ((o' :: os).map Object.text) ++ 93 :: after) := by
        simp [commas]
      rw [hcommas, text_eq, batchItems_request o (by simp), batchItems_skip (ws_ne o.outer.2)]
      rfl

lemma zero_notMem_text (b : Batch) : (0 : UInt8) ∉ b.text := by
  have hcommas : (0 : UInt8) ∉ commas (b.requests.map Object.text) :=
    zero_notMem_commas (List.forall_mem_map.mpr fun o _ => Object.zero_notMem o)
  simp [Batch.text, b.outer.1.zero_notMem, b.outer.2.zero_notMem, hcommas]

/-- The text of a batch behind its opening bracket. -/
lemma dropWhile_text (b : Batch) : (cstr b.text).dropWhile isWhitespace =
    91 :: (commas (b.requests.map Object.text) ++ 93 :: b.after) := by
  have hbefore : ∀ c ∈ b.before, isWhitespace c = true := b.outer.1
  rw [cstr_eq_self (zero_notMem_text b), Batch.text, List.dropWhile_append_of_pos hbefore]
  rfl

lemma dispatched_text (b : Batch) : dispatched b.text =
    batchItems 0 [] (commas (b.requests.map Object.text) ++ 93 :: b.after) := by
  unfold dispatched
  rw [dropWhile_text]
  rfl

lemma handleRequest_text (b : Batch) (clock : ℕ → UInt64) :
    handleRequest rpc parser clock b.text =
      (dispatchAll rpc parser clock (dispatched b.text) >>= fun responses =>
        return batchText responses) := by
  rw [dispatched_text]
  unfold handleRequest
  rw [dropWhile_text]
  rfl

lemma run_dispatchAll (clock : ℕ → UInt64) (items : List Bytes) (s : Store) :
    run server (dispatchAll rpc parser clock items) s = oneByOne rpc parser clock items s := by
  induction items generalizing clock s with
  | nil => rfl
  | cons item items ih =>
    unfold dispatchAll
    rw [run_bind, run_bind, ih]
    rfl

/-- **A batch is the sequence of its requests if the braces of each are balanced**, and it is not
cut into them otherwise. -/
theorem batch_iff (b : Batch) :
    (dispatched b.text = b.requests.map request ↔ ∀ o ∈ b.requests, Balanced (content o)) ∧
      ((∀ o ∈ b.requests, Balanced (content o)) → Sequential b) := by
  have hcut : dispatched b.text = b.requests.map request ↔
      ∀ o ∈ b.requests, Balanced (content o) := by
    rw [dispatched_text]
    exact batchItems_commas b.requests b.after
  refine ⟨hcut, fun hbalanced rpc parser clock s => ?_⟩
  rw [handleRequest_text, hcut.mpr hbalanced, run_bind, run_dispatchAll]
  rfl

/-- A request whose id is a closing brace. -/
def braceRequest : Object :=
  plainObject [] ws_nil [(ascii "jsonrpc", quoted (ascii "2.0")), (ascii "id", quoted [125]),
    (ascii "method", quoted (ascii "eth_chainId"))] (List.cons_ne_nil _ _)
    (by simp only [List.forall_mem_cons]; decide)
    (List.forall_mem_cons.mpr ⟨value_plain (by decide), List.forall_mem_cons.mpr
      ⟨value_plain (by decide), List.forall_mem_singleton.mpr (value_plain (by decide))⟩⟩)

/-- As a batch, it is cut before its method. -/
theorem not_sequential_brace : ¬ Sequential ⟨[], [braceRequest], [], ⟨ws_nil, ws_nil⟩⟩ := by
  intro hsequential
  have hresponse := congrArg Prod.fst
    (hsequential ⟨idle, 1, 21000, 0⟩ plainParser (fun _ => 0) fun _ => none)
  revert hresponse
  decide +kernel

end EvmDb.Batches
