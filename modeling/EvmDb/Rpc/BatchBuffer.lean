import EvmDb.Lib.Routines
import EvmDb.Rpc.Batch
import EvmDb.Rpc.JsonResponses

/-!
How the answer to a batch is put together in memory, after `evmdb_rpc_handle_request` of
`src/rpc/handlers.c`.

The request is read through an index, and the responses are copied to a buffer whose capacity is
doubled until there is room. What a response says is left open.
-/

namespace EvmDb.BatchBuffer

open EvmDb.Types EvmDb.Digits EvmDb.Hex EvmDb.Request EvmDb.Handlers EvmDb.Dispatch
open EvmDb.Batches EvmDb.JsonResponses EvmDb.Routines

/-! ### Memory -/

/-- An allocator, by the sizes that it serves: no object has `2 ^ 63` bytes. -/
structure Allocator where
  serves : ℕ → Bool
  limit : ∀ n, serves n = true → n < 2 ^ 63

/-- A C string: its characters, which are an object together with their terminator. -/
structure CString where
  chars : Bytes
  noNul : 0 ∉ chars
  limit : chars.length + 1 < 2 ^ 63

variable (heap : Allocator)

/-- `malloc` and `realloc`, where a failure is returned to the caller. -/
def allocate (n : ℕ) : Routine ℕ Unit := if heap.serves n then pure () else fail n

/-! ### The scan of a request -/

variable (respond : ℕ → Bytes → Option CString) (raw : Bytes)

/-- The loops over blanks. -/
def skip (blank : UInt8 → Bool) : ℕ → Routine ℕ ℕ :=
  loop fun p => do
    let c ← readAt raw p
    return if blank c then .inl (p + 1) else .inr p

/-- The braces that are open, in an `int`. -/
def braceDepth (depth : Int32) (c : UInt8) : Int32 :=
  if c = 123 then depth + 1 else if c = 125 then depth - 1 else depth

/-- The loop over the characters of an item, from its opening brace on. -/
def itemEnd (start : ℕ) : Routine ℕ ℕ :=
  loop (fun s : ℕ × Int32 => do
    let c ← readAt raw s.1
    let next ← readAt raw (s.1 + 1)
    return if next ≠ 0 ∧ 0 < braceDepth s.2 c then .inl (s.1 + 1, braceDepth s.2 c)
      else .inr (s.1 + 1)) (start, 0)

/-! ### The buffer of the answer -/

/-- The loop that doubles `buf_cap`. -/
def grow (needed : ℕ) : ℕ → Routine ℕ ℕ :=
  loop fun cap =>
    if cap < needed then do
      allocate heap (cap * 2 % 2 ^ 64)
      return .inl (cap * 2 % 2 ^ 64)
    else return .inr cap

/-- The variables of the batch: `p`, `first`, and `buf` with `buf_len` and `buf_cap`. The items that
have been dispatched are kept too. -/
structure Batch where
  pos : ℕ
  first : Bool
  buf : Buffer UInt8
  items : List Bytes

/-- A response behind the others. -/
def appendResponse (s : CString) (b : Batch) : Routine ℕ Batch := do
  let cap ← grow heap ((b.buf.data.length + s.chars.length + 4) % 2 ^ 64) b.buf.cap
  let buf : Buffer UInt8 := { b.buf with cap := cap }
  let buf ← if b.first then pure buf else buf.push 44
  let buf ← buf.pushAll s.chars
  return { b with buf := buf, first := false }

/-- An item is copied and dispatched, and its response is appended if there is one. -/
def dispatchItem (stop : ℕ) (b : Batch) : Routine ℕ Batch := do
  if heap.serves (stop - b.pos + 1) then
    let item ← sliceAt raw b.pos (stop - b.pos)
    let next := { b with pos := stop, items := b.items ++ [item] }
    match respond b.items.length item with
    | some s => appendResponse heap s next
    | none => return next
  else return { b with pos := stop }

/-- The loop over the characters of a batch. -/
def batchRound (b : Batch) : Routine ℕ (Batch ⊕ Batch) := do
  let c ← readAt raw b.pos
  if c = 0 then return .inr b
  else
    let p ← skip raw isBetweenValues b.pos
    let c ← readAt raw p
    if c = 93 ∨ c = 0 then return .inr { b with pos := p }
    else if c = 123 then
      let stop ← itemEnd raw p
      let b ← dispatchItem heap respond raw stop { b with pos := p }
      return .inl b
    else return .inl { b with pos := p + 1 }

/-- What is returned: `*response` and `*resp_len`, and the items that have been dispatched. -/
structure Answer where
  items : List Bytes
  response : Option Bytes
  respLen : ℕ

/-- The end of a batch. A `realloc` leaves `buf_cap` as it is there, and its failure is not
noticed. -/
def finish (b : Batch) : Routine ℕ Answer := do
  if b.buf.cap < (b.buf.data.length + 2) % 2 ^ 64 ∧ ¬ heap.serves (b.buf.cap + 2) then
    outside b.buf.data.length
  else
    let buf ← b.buf.push 93
    let memory ← buf.push 0
    return ⟨b.items, some memory.data, buf.data.length⟩

/-- `evmdb_rpc_handle_request`. -/
def handleRequest : Routine ℕ Answer := do
  let p ← skip raw isWhitespace 0
  let c ← readAt raw p
  if c = 91 then
    allocate heap 4096
    let buf ← (⟨[], 4096⟩ : Buffer UInt8).push 91
    let b ← loop (batchRound heap respond raw) ⟨p + 1, true, buf, []⟩
    finish heap b
  else
    let single := cstr (raw.drop p)
    match respond 0 single with
    | some s => return ⟨[single], some (s.chars ++ [0]), s.chars.length⟩
    | none => return ⟨[single], none, 0⟩

/-! ### Scanning -/

section

variable {heap respond} {failed : ℕ → Prop} {text : Bytes} (hnul : 0 ∉ text)

/-- What stands at an index: the terminator, or a character. -/
lemma drop_cases {p : ℕ} (hp : p ≤ text.length) : p = text.length ∧ text.drop p = [] ∨
    p < text.length ∧ ∃ c ∈ text, text.drop p = c :: text.drop (p + 1) := by
  rcases Nat.eq_or_lt_of_le hp with rfl | hlt
  · exact Or.inl ⟨rfl, List.drop_length⟩
  · exact Or.inr ⟨hlt, text[p], List.getElem_mem hlt, (List.getElem_cons_drop hlt).symm⟩

/-- The characters of a string and its terminator can be read. -/
lemma readAt_text {p : ℕ} (hp : p ≤ text.length) :
    (readAt (text ++ [0]) p : Routine ℕ UInt8) = pure ((text.drop p).headD 0) := by
  rw [readAt_of_lt (by simp; omega)]
  rcases drop_cases hp with ⟨rfl, hdrop⟩ | ⟨hlt, -, -, -⟩
  · simp
  · rw [List.getElem_append_left hlt, ← List.getElem_cons_drop hlt, List.headD_cons]

/-- Blanks are skipped. -/
lemma ends_skip {blank : UInt8 → Bool} (hblank : blank 0 = false) {p : ℕ} (hp : p ≤ text.length) :
    Ends failed (fun q => p ≤ q ∧ q ≤ text.length ∧
      text.drop q = (text.drop p).dropWhile blank) (skip (text ++ [0]) blank p) := by
  refine Ends.loop (fun q => p ≤ q ∧ q ≤ text.length ∧
    (text.drop q).dropWhile blank = (text.drop p).dropWhile blank) (fun q => text.length - q) ?_
    ⟨le_rfl, hp, rfl⟩
  rintro q ⟨hpq, hq, hrest⟩
  rw [readAt_text hq, returns_bind]
  refine ends_pure ?_
  rcases drop_cases hq with ⟨rfl, hdrop⟩ | ⟨hlt, c, -, hdrop⟩
  · rw [hdrop, List.headD_nil, hblank]
    refine ⟨hpq, hq, ?_⟩
    rw [← hrest, hdrop, List.dropWhile_nil]
  · rw [hdrop] at hrest ⊢
    rw [List.headD_cons]
    by_cases hc : blank c = true
    · rw [if_pos hc]
      rw [List.dropWhile_cons_of_pos hc] at hrest
      exact ⟨⟨Nat.le_succ_of_le hpq, hlt, hrest⟩, by omega⟩
    · rw [if_neg hc]
      rw [List.dropWhile_cons_of_neg hc] at hrest
      exact ⟨hpq, hq, hdrop.trans hrest⟩

/-! An item ends where the braces are closed, or at the end of the string. -/

/-- The braces that are open, as a number. -/
def nextDepth (d : ℕ) (c : UInt8) : ℕ := if c = 123 then d + 1 else if c = 125 then d - 1 else d

lemma bmod_eq_self {n : ℤ} (hlow : -2 ^ 31 ≤ n) (hhigh : n < 2 ^ 31) : n.bmod (2 ^ 32) = n := by
  refine Int.bmod_eq_of_le_mul_two ?_ ?_ <;> norm_num <;> omega

lemma toInt_braceDepth {depth : Int32} {d : ℕ} (hd : depth.toInt = d) (hlt : d + 1 < 2 ^ 31)
    {c : UInt8} (hopen : d = 0 → c = 123) : (braceDepth depth c).toInt = nextDepth d c := by
  unfold braceDepth nextDepth
  split_ifs with h123 h125
  · rw [Int32.toInt_add, hd, show (1 : Int32).toInt = 1 from rfl,
      bmod_eq_self (by omega) (by omega), Nat.cast_succ]
  · have hpos : d ≠ 0 := fun h => h123 (hopen h)
    rw [Int32.toInt_sub, hd, show (1 : Int32).toInt = 1 from rfl,
      bmod_eq_self (by omega) (by omega)]
    omega
  · exact hd

/-- One character of an item. -/
lemma batchItems_char {d : ℕ} {item : Bytes} {c : UInt8} (hopen : d = 0 → c = 123 ∧ item = [])
    (t : Bytes) : batchItems d item (c :: t) =
      if nextDepth d c = 0 then (item ++ [c]) :: batchItems 0 [] t
      else batchItems (nextDepth d c) (item ++ [c]) t := by
  cases d with
  | zero =>
    obtain ⟨rfl, rfl⟩ := hopen rfl
    rfl
  | succ d =>
    rw [batchItems_cons]
    unfold nextDepth
    by_cases h123 : c = 123
    · rw [if_pos h123, if_pos h123, if_neg (Nat.succ_ne_zero _)]
    · rw [if_neg h123, if_neg h123]
      by_cases h125 : c = 125
      · rw [if_pos h125, if_pos h125, Nat.add_sub_cancel]
      · rw [if_neg h125, if_neg h125, if_neg (Nat.succ_ne_zero _)]

/-- Inside an item, some braces are open, and the rest of the text is cut as the rest of the item
is. -/
structure InItem (text : Bytes) (start : ℕ) (s : ℕ × Int32) : Prop where
  le : start ≤ s.1
  lt : s.1 < text.length
  cut : text.length < 2 ^ 31 → ∃ d : ℕ, s.2.toInt = (d : ℤ) ∧ d ≤ s.1 - start ∧
    (d = 0 → s.1 = start) ∧ batchItems 0 [] (text.drop start) =
      batchItems d ((text.drop start).take (s.1 - start)) (text.drop s.1)

/-- One more character is cut. -/
lemma InItem.step {start p : ℕ} {depth : Int32} {c : UInt8} (h : InItem text start (p, depth))
    (hbrace : (text.drop start).headD 0 = 123) (hdrop : text.drop p = c :: text.drop (p + 1))
    (hlen : text.length < 2 ^ 31) : ∃ d : ℕ, (braceDepth depth c).toInt = (d : ℤ) ∧
      d ≤ p + 1 - start ∧ batchItems 0 [] (text.drop start) =
        if d = 0 then (text.drop start).take (p + 1 - start) :: batchItems 0 [] (text.drop (p + 1))
        else batchItems d ((text.drop start).take (p + 1 - start)) (text.drop (p + 1)) := by
  obtain ⟨hp, hlt, hcut⟩ := h
  obtain ⟨d, hd, hle, hzero, hbatch⟩ := hcut hlen
  dsimp only at hp hlt hd hle hzero hbatch
  have hopen : d = 0 → c = 123 ∧ (text.drop start).take (p - start) = [] := by
    intro h
    obtain rfl := hzero h
    rw [hdrop, List.headD_cons] at hbrace
    exact ⟨hbrace, by simp⟩
  have htake : (text.drop start).take (p + 1 - start) =
      (text.drop start).take (p - start) ++ [c] := by
    rw [show p + 1 - start = p - start + 1 by omega, List.take_add, List.drop_drop,
      show start + (p - start) = p by omega, hdrop]
    rfl
  have hnext : nextDepth d c ≤ d + 1 := by
    unfold nextDepth
    split_ifs <;> omega
  refine ⟨nextDepth d c, toInt_braceDepth hd (by omega) fun h => (hopen h).1, by omega, ?_⟩
  rw [hbatch, hdrop, batchItems_char hopen, htake]

include hnul

/-- The terminator is read at the end of the string only. -/
lemma headD_eq_zero {p : ℕ} (hp : p ≤ text.length) :
    (text.drop p).headD 0 = 0 ↔ p = text.length := by
  rcases drop_cases hp with ⟨rfl, hdrop⟩ | ⟨hlt, c, hc, hdrop⟩
  · simp
  · rw [hdrop, List.headD_cons]
    refine iff_of_false ?_ hlt.ne
    rintro rfl
    exact hnul hc

/-- **An item is cut** as the number of open braces says, if an `int` can hold that number. -/
lemma ends_itemEnd {start : ℕ} (hstart : start < text.length)
    (hbrace : (text.drop start).headD 0 = 123) :
    Ends failed (fun stop => start < stop ∧ stop ≤ text.length ∧ (text.length < 2 ^ 31 →
      batchItems 0 [] (text.drop start) =
        (text.drop start).take (stop - start) :: batchItems 0 [] (text.drop stop)))
      (itemEnd (text ++ [0]) start) := by
  refine Ends.loop (InItem text start) (fun s => text.length - s.1) ?_
    ⟨le_rfl, hstart, fun _ => ⟨0, rfl, Nat.zero_le _, fun _ => rfl, by simp⟩⟩
  rintro ⟨p, depth⟩ hitem
  have hp : start ≤ p := hitem.le
  have hlt : p < text.length := hitem.lt
  obtain ⟨c, hc, hdrop⟩ : ∃ c ∈ text, text.drop p = c :: text.drop (p + 1) :=
    ((drop_cases hlt.le).resolve_left fun h => hlt.ne h.1).2
  dsimp only
  rw [readAt_text hlt.le, returns_bind, readAt_text hlt, returns_bind, hdrop, List.headD_cons]
  refine ends_pure ?_
  have hcut := hitem.step hbrace hdrop
  by_cases hnext : (text.drop (p + 1)).headD 0 ≠ 0 ∧ 0 < braceDepth depth c
  · rw [if_pos hnext]
    obtain ⟨hmore, hpos⟩ := hnext
    have hlt' : p + 1 < text.length :=
      Nat.lt_of_le_of_ne hlt fun h => hmore ((headD_eq_zero hnul hlt).mpr h)
    refine ⟨⟨Nat.le_succ_of_le hp, hlt', fun hlen => ?_⟩, ?_⟩
    · obtain ⟨d, hd, hle, hbatch⟩ := hcut hlen
      have hd0 : d ≠ 0 := by
        rintro rfl
        rw [Int32.lt_iff_toInt_lt, hd] at hpos
        exact lt_irrefl _ hpos
      rw [if_neg hd0] at hbatch
      exact ⟨d, hd, hle, fun h => absurd h hd0, hbatch⟩
    · dsimp only
      omega
  · rw [if_neg hnext]
    refine ⟨Nat.lt_succ_of_le hp, hlt, fun hlen => ?_⟩
    obtain ⟨d, hd, -, hbatch⟩ := hcut hlen
    by_cases hd0 : d = 0
    · rw [hbatch, if_pos hd0]
    · -- the string ends inside the item
      have hpos : 0 < braceDepth depth c := by
        rw [Int32.lt_iff_toInt_lt, hd]
        exact Int.natCast_pos.mpr (Nat.pos_of_ne_zero hd0)
      have hend : p + 1 = text.length := by
        by_contra h
        exact hnext ⟨fun h0 => h ((headD_eq_zero hnul hlt).mp h0), hpos⟩
      obtain ⟨d, rfl⟩ := Nat.exists_eq_succ_of_ne_zero hd0
      rw [hbatch, if_neg hd0, hend, List.drop_length]
      rfl

end

/-! ### Writing -/

/-- The responses to the items that have been dispatched. -/
def responses (items : List Bytes) : List Bytes :=
  (items.mapIdx respond).filterMap fun s => s.map CString.chars

/-- The buffer holds some responses, with room for the end of the batch. -/
structure Written (rs : List Bytes) (first : Bool) (buf : Buffer UInt8) : Prop where
  data : buf.data = 91 :: joined rs
  first_iff : first = true ↔ rs = []
  room : buf.data.length + 2 ≤ buf.cap
  cap_lt : buf.cap < 2 ^ 63

lemma written_nil : Written [] true ⟨[91], 4096⟩ where
  data := rfl
  first_iff := by simp
  room := by decide
  cap_lt := by decide

variable {heap respond}

/-- An allocation has been refused. -/
def Refused (heap : Allocator) (n : ℕ) : Prop := heap.serves n = false

lemma ends_allocate (n : ℕ) :
    Ends (Refused heap) (fun _ => heap.serves n = true) (allocate heap n) := by
  unfold allocate
  split_ifs with h
  · exact ends_pure h
  · exact ends_fail (Bool.eq_false_iff.mpr h)

lemma responses_concat (items : List Bytes) (item : Bytes) :
    responses respond (items ++ [item]) =
      responses respond items ++ ((respond items.length item).map CString.chars).toList := by
  unfold responses
  rw [List.mapIdx_append, List.filterMap_append]
  cases h : respond items.length item <;> simp [h]

lemma joined_concat {vs : List Bytes} (h : vs ≠ []) (v : Bytes) :
    joined (vs ++ [v]) = joined vs ++ 44 :: v := by
  induction vs with
  | nil => exact absurd rfl h
  | cons u vs ih =>
    cases vs with
    | nil => rfl
    | cons w vs =>
      have htail := ih (List.cons_ne_nil w vs)
      simp only [List.cons_append, joined] at htail ⊢
      rw [htail]
      simp

/-- **The loop that doubles the capacity** ends with room for what is needed. -/
lemma ends_grow {needed cap : ℕ} (hpos : 0 < cap) (hcap : cap < 2 ^ 63) :
    Ends (Refused heap) (fun cap' => needed ≤ cap' ∧ cap' < 2 ^ 63) (grow heap needed cap) := by
  refine Ends.loop (fun c => 0 < c ∧ c < 2 ^ 63) (fun c => 2 ^ 63 - c) ?_ ⟨hpos, hcap⟩
  rintro c ⟨hc, hlt⟩
  split_ifs with hneeded
  · rw [Nat.mod_eq_of_lt (by omega)]
    refine (ends_allocate _).bind fun _ hserved => ends_pure ?_
    have hlimit := heap.limit _ hserved
    exact ⟨⟨by omega, hlimit⟩, by omega⟩
  · exact ends_pure ⟨Nat.le_of_not_lt hneeded, hlt⟩

/-- **A response is appended** behind the others. -/
lemma ends_appendResponse {rs : List Bytes} {b : Batch} (h : Written rs b.first b.buf)
    (s : CString) : Ends (Refused heap) (fun b' => Written (rs ++ [s.chars]) b'.first b'.buf ∧
      b'.pos = b.pos ∧ b'.items = b.items) (appendResponse heap s b) := by
  obtain ⟨hdata, hfirst, hroom, hcap⟩ := h
  have hs := s.limit
  unfold appendResponse
  rw [Nat.mod_eq_of_lt (by omega)]
  refine (ends_grow (by omega) hcap).bind ?_
  rintro cap ⟨hneeded, hlt⟩
  dsimp only
  split_ifs with hb
  · -- the first response
    obtain rfl := hfirst.mp hb
    rw [returns_bind, pushAll_of_le (by dsimp only; omega), returns_bind]
    refine ends_pure ⟨⟨?_, by simp, ?_, hlt⟩, rfl, rfl⟩
    · simp [hdata, joined]
    · simp only [List.length_append]
      omega
  · have hne : rs ≠ [] := fun h => hb (hfirst.mpr h)
    rw [push_of_lt (by dsimp only; omega), returns_bind,
      pushAll_of_le (by simp only [List.length_append, List.length_singleton]; omega), returns_bind]
    refine ends_pure ⟨⟨?_, by simp, ?_, hlt⟩, rfl, rfl⟩
    · rw [hdata, joined_concat hne]
      simp
    · simp only [List.length_append, List.length_singleton]
      omega

/-! ### A whole batch -/

/-- Between two rounds: the responses to the items so far are in the buffer, and together with the
items in the rest of the text these are all items, if copies can be allocated and an `int` can hold
the number of open braces. -/
structure Inv (heap : Allocator) (respond : ℕ → Bytes → Option CString) (text : Bytes)
    (all : List Bytes) (b : Batch) : Prop where
  pos : b.pos ≤ text.length
  written : Written (responses respond b.items) b.first b.buf
  cut : (∀ item ∈ all, heap.serves (item.length + 1) = true) → text.length < 2 ^ 31 →
    all = b.items ++ batchItems 0 [] (text.drop b.pos)

section

variable {text : Bytes} {all : List Bytes}

lemma sliceAt_text {p k : ℕ} (h : p + k ≤ text.length) :
    (sliceAt (text ++ [0]) p k : Routine ℕ Bytes) = pure ((text.drop p).take k) := by
  rw [sliceAt_of_le (by simp; omega), List.drop_append_of_le_length (by omega),
    List.take_append_of_le_length (by rw [List.length_drop]; omega)]

/-- **An item is dispatched**, and its response is in the buffer. -/
lemma ends_dispatchItem {b : Batch} (h : Inv heap respond text all b) {stop : ℕ}
    (hlt : b.pos < stop) (hle : stop ≤ text.length)
    (hitem : text.length < 2 ^ 31 → batchItems 0 [] (text.drop b.pos) =
      (text.drop b.pos).take (stop - b.pos) :: batchItems 0 [] (text.drop stop)) :
    Ends (Refused heap) (fun b' => Inv heap respond text all b' ∧ b'.pos = stop)
      (dispatchItem heap respond (text ++ [0]) stop b) := by
  obtain ⟨hpos, hwritten, hcut⟩ := h
  unfold dispatchItem
  split_ifs with hserved
  · rw [sliceAt_text (by omega), returns_bind]
    generalize hcopy : (text.drop b.pos).take (stop - b.pos) = item at hitem ⊢
    have hnext : (∀ i ∈ all, heap.serves (i.length + 1) = true) → text.length < 2 ^ 31 →
        all = b.items ++ [item] ++ batchItems 0 [] (text.drop stop) := by
      intro hall hlen
      rw [hcut hall hlen, hitem hlen, List.append_assoc, List.singleton_append]
    have hresponses := @responses_concat respond b.items item
    dsimp only
    cases hresponse : respond b.items.length item with
    | none =>
      rw [hresponse, Option.map_none, Option.toList_none, List.append_nil] at hresponses
      exact ends_pure ⟨⟨hle, hresponses ▸ hwritten, hnext⟩, rfl⟩
    | some s =>
      rw [hresponse, Option.map_some, Option.toList_some] at hresponses
      have happend := @ends_appendResponse heap (responses respond b.items)
        ⟨stop, b.first, b.buf, b.items ++ [item]⟩ hwritten s
      refine happend.mono ?_
      rintro b' ⟨hwritten', hpos', hitems⟩
      dsimp only at hpos' hitems
      refine ⟨⟨hpos' ▸ hle, ?_, ?_⟩, hpos'⟩
      · rw [hitems, hresponses]
        exact hwritten'
      · rw [hitems, hpos']
        exact hnext
  · refine ends_pure ⟨⟨hle, hwritten, fun hall hlen => ?_⟩, rfl⟩
    -- the copy could be allocated
    have hmem : (text.drop b.pos).take (stop - b.pos) ∈ all := by
      rw [hcut hall hlen, hitem hlen]
      simp
    have hserves := hall _ hmem
    rw [List.length_take, List.length_drop, min_eq_left (by omega)] at hserves
    exact absurd hserves hserved

lemma batchItems_dropWhile (t : Bytes) :
    batchItems 0 [] (t.dropWhile isBetweenValues) = batchItems 0 [] t := by
  have hblank : ∀ c ∈ t.takeWhile isBetweenValues, c ≠ 93 ∧ c ≠ 123 := by
    intro c hc
    have hbetween := List.mem_takeWhile_imp hc
    refine ⟨?_, ?_⟩ <;>
      · rintro rfl
        cases hbetween
  rw [← batchItems_skip hblank, List.takeWhile_append_dropWhile]

/-- **A round of the loop** keeps the invariant and moves on, or all items have been dispatched. -/
lemma ends_batchRound (hnul : 0 ∉ text) {b : Batch} (h : Inv heap respond text all b) :
    Ends (Refused heap)
      (Sum.elim
        (fun b' => Inv heap respond text all b' ∧ text.length - b'.pos < text.length - b.pos)
        fun b' => Written (responses respond b'.items) b'.first b'.buf ∧
          ((∀ item ∈ all, heap.serves (item.length + 1) = true) → text.length < 2 ^ 31 →
            all = b'.items))
      (batchRound heap respond (text ++ [0]) b) := by
  obtain ⟨hpos, hwritten, hcut⟩ := h
  unfold batchRound
  rw [readAt_text hpos, returns_bind]
  by_cases hend : b.pos = text.length
  · rw [if_pos ((headD_eq_zero hnul hpos).mpr hend)]
    refine ends_pure ⟨hwritten, fun hall hlen => ?_⟩
    rw [hcut hall hlen, hend, List.drop_length, batchItems, List.append_nil]
  rw [if_neg fun h => hend ((headD_eq_zero hnul hpos).mp h)]
  refine (ends_skip rfl hpos).bind ?_
  rintro p ⟨hle, hp, hskip⟩
  have hcut' : (∀ item ∈ all, heap.serves (item.length + 1) = true) → text.length < 2 ^ 31 →
      all = b.items ++ batchItems 0 [] (text.drop p) := by
    rw [hskip, batchItems_dropWhile]
    exact hcut
  rw [readAt_text hp, returns_bind]
  rcases drop_cases hp with ⟨rfl, hdrop⟩ | ⟨hlt, c, hc, hdrop⟩
  · rw [hdrop, List.headD_nil, if_pos (Or.inr rfl)]
    refine ends_pure ⟨hwritten, fun hall hlen => ?_⟩
    rw [hcut' hall hlen, hdrop, batchItems, List.append_nil]
  rw [hdrop] at hcut'
  rw [hdrop, List.headD_cons]
  split_ifs with hclose hopen
  · obtain rfl : c = 93 := hclose.resolve_right fun h => hnul (h ▸ hc)
    refine ends_pure ⟨hwritten, fun hall hlen => ?_⟩
    rw [hcut' hall hlen, batchItems, if_pos rfl, List.append_nil]
  · refine (ends_itemEnd hnul hlt (by rw [hdrop, List.headD_cons, hopen])).bind ?_
    rintro stop ⟨hlt', hle', hitem⟩
    have hinv : Inv heap respond text all ⟨p, b.first, b.buf, b.items⟩ :=
      ⟨hp, hwritten, hdrop ▸ hcut'⟩
    refine (ends_dispatchItem hinv hlt' hle' hitem).bind ?_
    rintro b' ⟨hinv', hpos'⟩
    exact ends_pure ⟨hinv', by omega⟩
  · refine ends_pure ⟨⟨hlt, hwritten, fun hall hlen => ?_⟩, ?_⟩
    · rw [hcut' hall hlen, batchItems, if_neg (fun h => hclose (Or.inl h)), if_neg hopen]
    · dsimp only
      omega

/-- The end of a batch is written without a further allocation. -/
lemma finish_eq {rs : List Bytes} {b : Batch} (h : Written rs b.first b.buf) :
    finish heap b = pure ⟨b.items, some (arrayJson rs ++ [0]), (arrayJson rs).length⟩ := by
  obtain ⟨hdata, -, hroom, hcap⟩ := h
  unfold finish
  rw [Nat.mod_eq_of_lt (by omega), if_neg (fun h => absurd h.1 (by omega)),
    push_of_lt (by omega), returns_bind,
    push_of_lt (by simp only [List.length_append, List.length_singleton]; omega), returns_bind,
    hdata]
  rfl

end

/-- What is returned for a batch: the responses to the items that have been dispatched, and their
length. -/
structure Assembled (respond : ℕ → Bytes → Option CString) (a : Answer) : Prop where
  response : a.response = some (arrayJson (responses respond a.items) ++ [0])
  noNul : 0 ∉ arrayJson (responses respond a.items)
  respLen : a.respLen = (arrayJson (responses respond a.items)).length

lemma noNul_joined {rs : List Bytes} (h : ∀ r ∈ rs, (0 : UInt8) ∉ r) : 0 ∉ joined rs := by
  induction rs with
  | nil => exact List.not_mem_nil
  | cons r rs ih =>
    obtain ⟨hr, hrs⟩ := List.forall_mem_cons.mp h
    cases rs with
    | nil => exact hr
    | cons q rs =>
      rw [joined]
      · simp [hr, ih hrs]
      · exact List.cons_ne_nil q rs

lemma noNul_arrayJson (items : List Bytes) : 0 ∉ arrayJson (responses respond items) := by
  have hall : ∀ r ∈ responses respond items, (0 : UInt8) ∉ r := by
    intro r hr
    obtain ⟨o, -, ho⟩ := List.mem_filterMap.mp hr
    obtain ⟨s, -, rfl⟩ := Option.map_eq_some_iff.mp ho
    exact s.noNul
  simp [arrayJson, noNul_joined hall]

/-- **The answer is what the model of the batch says**, if the strings that are appended are its
responses. -/
theorem answer_eq_batchText {rs : List Response} {a : Answer} (hlen : rs.length = a.items.length)
    (hrespond : ∀ k item, (respond k item).map CString.chars = (rs.map Response.text)[k]?)
    (h : Assembled respond a) :
    ∃ text, batchText (rs.map .ok) = .ok text ∧ a.response = some (text ++ [0]) := by
  have hmap : (a.items.mapIdx respond).map (fun s => s.map CString.chars) =
      (rs.map Response.text).map some := by
    refine List.ext_getElem? fun k => ?_
    rw [List.getElem?_map, List.getElem?_mapIdx, Option.map_map, List.getElem?_map]
    by_cases hk : k < a.items.length
    · rw [List.getElem?_eq_getElem hk, Option.map_some, Function.comp_apply, hrespond,
        List.getElem?_eq_getElem (by simpa [hlen] using hk)]
      rfl
    · rw [List.getElem?_eq_none (Nat.le_of_not_lt hk),
        List.getElem?_eq_none (by simpa [hlen] using hk)]
      rfl
  have hresponses : responses respond a.items = rs.map Response.text := by
    have hid := congrArg (List.filterMap id) hmap
    rw [List.filterMap_map, List.filterMap_map] at hid
    exact hid.trans List.filterMap_some
  refine ⟨_, batchText_map_ok rs, ?_⟩
  rw [h.response, hresponses]

/-- **A batch is put together within its buffers**, and nothing is lost: unless an allocation is
refused, the answer is the array of the responses to the items that have been dispatched. These
are all items if their copies can be allocated and an `int` can hold the number of open braces. -/
theorem batch_assembled {request : Bytes}
    (hbatch : ((cstr request).dropWhile isWhitespace).head? = some 91) :
    Ends (Refused heap)
      (fun a => Assembled respond a ∧
        ((∀ item ∈ dispatched request, heap.serves (item.length + 1) = true) →
          (cstr request).length < 2 ^ 31 → a.items = dispatched request))
      (handleRequest heap respond (cstr request ++ [0])) := by
  have hnul : (0 : UInt8) ∉ cstr request := fun hmem =>
    absurd (List.mem_takeWhile_imp hmem) (by simp)
  obtain ⟨t, ht⟩ := List.head?_eq_some_iff.mp hbatch
  have hall : dispatched request = batchItems 0 [] t := by
    unfold dispatched
    rw [ht]
    rfl
  unfold handleRequest
  refine (ends_skip rfl (Nat.zero_le _)).bind ?_
  rintro p ⟨-, hp, hskip⟩
  rw [List.drop_zero, ht] at hskip
  rw [readAt_text hp, returns_bind, hskip, List.headD_cons, if_pos rfl]
  refine (ends_allocate 4096).bind fun _ _ => ?_
  rw [push_of_lt (by decide), returns_bind]
  -- the first bracket has been written
  have hlt : p < (cstr request).length := by
    by_contra h
    rw [List.drop_of_length_le (Nat.le_of_not_lt h)] at hskip
    cases hskip
  have hrest : (cstr request).drop (p + 1) = t := by
    rw [← List.drop_drop, hskip]
    rfl
  have hinv : Inv heap respond (cstr request) (dispatched request)
      ⟨p + 1, true, ⟨[] ++ [91], 4096⟩, []⟩ :=
    ⟨hlt, written_nil, fun _ _ => by rw [hall, hrest]; rfl⟩
  refine (Ends.loop (Inv heap respond (cstr request) (dispatched request))
    (fun b => (cstr request).length - b.pos) (fun b hb => ends_batchRound hnul hb) hinv).bind ?_
  rintro b ⟨hwritten, hitems⟩
  rw [finish_eq hwritten]
  exact ends_pure ⟨⟨rfl, noNul_arrayJson _, rfl⟩, fun hserves hlen => (hitems hserves hlen).symm⟩

/-- An allocator that serves what an object may have. -/
def wholeHeap : Allocator := ⟨fun n => n < 2 ^ 63, fun _ h => of_decide_eq_true h⟩

/-- A digit for every item. -/
def sevens (_ : ℕ) (_ : Bytes) : Option CString := some ⟨[55], by decide, by decide⟩

/-- **A batch of two empty requests** is put together. -/
theorem batch_assembled_two :
    Ends (Refused wholeHeap)
      (fun a => Assembled sevens a ∧
        ((∀ item ∈ dispatched (ascii " [\x7b\x7d, \x7b\x7d]"),
            wholeHeap.serves (item.length + 1) = true) →
          (cstr (ascii " [\x7b\x7d, \x7b\x7d]")).length < 2 ^ 31 →
            a.items = dispatched (ascii " [\x7b\x7d, \x7b\x7d]")))
      (handleRequest wholeHeap sevens (cstr (ascii " [\x7b\x7d, \x7b\x7d]") ++ [0])) :=
  batch_assembled (by decide)

example : handleRequest wholeHeap sevens (ascii " [\x7b\x7d, \x7b\x7d]" ++ [0]) 9 =
    .returns ⟨[ascii "\x7b\x7d", ascii "\x7b\x7d"], some (ascii "[7,7]" ++ [0]), 5⟩ := rfl

end EvmDb.BatchBuffer
