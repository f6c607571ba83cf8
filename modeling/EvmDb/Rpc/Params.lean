import EvmDb.Lib.JsonScan
import EvmDb.Rpc.Batch
import EvmDb.Rpc.FirstParam

/-!
Which arrays of parameters are split into their elements.

The loop stays in step with an array as long as each element is passed to its end: a string that
fits the buffer, a number that does, a word, or an object whose braces are balanced. It does not
know nested arrays.
-/

namespace EvmDb.Params

open EvmDb.Types EvmDb.Digits EvmDb.JsonText EvmDb.JsonScan EvmDb.Request EvmDb.Json
open EvmDb.RequestFields EvmDb.Batches EvmDb.FirstParam

/-! ### Arrays of parameters -/

/-- An array as it is written: its elements, and what stands between the brackets. Its strings have
no escapes. -/
structure ParamsArray where
  items : List Padded
  inside : Bytes
  encloses : if items = [] then Ws inside else inside = commas (items.map Padded.all)
  blank : ∀ i ∈ items, i.Blank
  value : ∀ i ∈ items, Value i.text
  unescaped : ∀ i ∈ items, Str i.text → 92 ∉ i.text

def ParamsArray.text (a : ParamsArray) : Bytes := 91 :: (a.inside ++ [93])

/-- The elements without the white space around them. -/
def ParamsArray.elements (a : ParamsArray) : List Bytes := a.items.map Padded.text

/-- A parameter for each element, and for a string its first 255 characters. -/
def Splits (params elements : List Bytes) : Prop :=
  List.Forall₂ (fun param v => ∀ b, v = quoted b → param = b.take 255) params elements

/-- An element that is passed to its end. -/
inductive Passed : Bytes → Prop
  | string {b : Bytes} (hlen : b.length ≤ 255) : Passed (quoted b)
  | number {n : Bytes} (h : Number n) (hlen : n.length ≤ 255) : Passed n
  | null : Passed (ascii "null")
  | true : Passed (ascii "true")
  | false : Passed (ascii "false")
  | object {t : Bytes} (h : Balanced t) : Passed (123 :: (t ++ [125]))

/-- An array in which no comma comes before the first closing bracket. -/
def EndsEarly (v : Bytes) : Prop := v.head? = some 91 ∧ 44 ∉ v.takeWhile (· ≠ 93)

/-- With room for so many parameters, each element is passed to its end; the last one need not be
if there is no room behind it, or if it is an array that ends early. -/
def InStep : ℕ → List Bytes → Prop
  | _, [] => True
  | 0, _ :: _ => False
  | room + 1, v :: vs => Passed v ∧ InStep room vs ∨ vs = [] ∧ (room = 0 ∨ EndsEarly v)

/-! ### One element -/

/-- Blanks and commas. -/
def Between (w : Bytes) : Prop := ∀ c ∈ w, isBetweenValues c = true

lemma between_of_ws {w : Bytes} (h : Ws w) : Between w := by
  intro c hc
  have hws := h c hc
  simp only [isWs, isBetweenValues, decide_eq_true_eq] at hws ⊢
  tauto

lemma between_nil : Between [] := fun _ h => absurd h List.not_mem_nil

lemma value_start {v : Bytes} (h : Value v) :
    ∃ c t, v = c :: t ∧ isBetweenValues c = false ∧ c ≠ 93 := by
  obtain ⟨c, t, rfl, hws, hend, hcomma⟩ := value_head h
  refine ⟨c, t, rfl, ?_, hend⟩
  simp only [isWs, isBetweenValues, decide_eq_false_iff_not] at hws ⊢
  tauto

/-- A value is found behind blanks and commas. -/
lemma elementAt_value {v : Bytes} (h : Value v) {w : Bytes} (hw : Between w) (r : Bytes) :
    elementAt (w ++ (v ++ r)) = some (v ++ r) := by
  obtain ⟨c, t, rfl, hstart, hend⟩ := value_start h
  have hdrop : (w ++ (c :: t ++ r)).dropWhile isBetweenValues = c :: t ++ r := by
    rw [List.dropWhile_append_of_pos hw, List.cons_append,
      List.dropWhile_cons_of_neg (by simp [hstart])]
  have hopen : ¬ (w ++ (c :: t ++ r) = [] ∨ (w ++ (c :: t ++ r)).head? = some 93) := by
    cases w with
    | nil => simp [hend]
    | cons d w =>
      have hd : d ≠ 93 := by
        rintro rfl
        exact absurd (hw 93 List.mem_cons_self) (by decide)
      simp [hd]
  unfold elementAt
  rw [if_neg hopen, hdrop, if_neg (by simp [hend])]

/-- The loop ends at a bracket behind blanks. -/
lemma elementAt_end {w : Bytes} (hw : Between w) (r : Bytes) : elementAt (w ++ 93 :: r) = none := by
  have hdrop : (w ++ 93 :: r).dropWhile isBetweenValues = 93 :: r := by
    rw [List.dropWhile_append_of_pos hw, List.dropWhile_cons_of_neg (by decide)]
  unfold elementAt
  rw [hdrop]
  simp

/-- The braces of an object are followed to its end. -/
lemma skipObject_append {d : ℕ} {u : Bytes} (h : ClosesFrom d u) (r : Bytes) :
    skipObject d (u ++ r) = r := by
  induction u generalizing d with
  | nil =>
    have hd : d = 0 := by simpa using h.2.symm
    rw [hd, List.nil_append, skipObject]
  | cons c u ih =>
    cases d with
    | zero => exact absurd (h.1 [] List.nil_prefix (List.cons_ne_nil c u).symm) (by simp)
    | succ d =>
      rw [closesFrom_cons (Nat.succ_pos d)] at h
      rw [List.cons_append, skipObject]
      split_ifs at h ⊢ with hopen hclose hlast
      · exact ih h
      · obtain rfl : d = 0 := by omega
        rw [h, List.nil_append, skipObject]
      · exact ih h
      · exact ih h

/-- A scan up to a comma or a bracket. -/
lemma dropWhile_stop {u : Bytes} (hu : ∀ c ∈ u, c ≠ 44 ∧ c ≠ 93) {c : UInt8} (hc : c = 44 ∨ c = 93)
    (r : Bytes) : (u ++ c :: r).dropWhile (fun c => c ≠ 44 ∧ c ≠ 93) = c :: r ∧
      (u ++ c :: r).takeWhile (fun c => c ≠ 44 ∧ c ≠ 93) = u := by
  have hall : ∀ x ∈ u, decide (x ≠ 44 ∧ x ≠ 93) = true := by simpa using hu
  rw [List.dropWhile_append_of_pos hall, List.takeWhile_append_of_pos hall]
  rcases hc with rfl | rfl <;> simp

lemma quoted_inj {a b : Bytes} (h : quoted a = quoted b) : a = b :=
  List.append_cancel_right (List.cons.inj h).2

/-- A string gives its first 255 characters. -/
lemma readElement_string {b : Bytes} (hb : 34 ∉ b) (r : Bytes) :
    readElement (quoted b ++ r) =
      (b.take 255, skipQuote ((b ++ 34 :: r).drop (b.take 255).length)) := by
  have htext : quoted b ++ r = 34 :: (b ++ 34 :: r) := by simp [quoted]
  rw [htext, readElement, takeWhile_quote hb]

/-- A value that begins with a quote is a string. -/
lemma str_of_head {v : Bytes} (h : Value v) (hhead : v.head? = some 34) : Str v := by
  cases h with
  | string hs => exact hs
  | number hn =>
    obtain ⟨c, t, rfl, hc⟩ := hn.head
    obtain rfl : c = 34 := by simpa using hhead
    rcases hc with hc | hc <;> cases hc
  | _ => simp at hhead

/-- A string without escapes has no quote inside. -/
lemma quote_notMem_of_value {b : Bytes} (hv : Value (quoted b))
    (hesc : Str (quoted b) → 92 ∉ quoted b) : (34 : UInt8) ∉ b := by
  have hstr : Str (quoted b) := str_of_head hv rfl
  obtain ⟨b', hbody, heq⟩ := id hstr
  obtain rfl : b = b' := quoted_inj heq
  have hplain : Unescaped b := ⟨hbody, fun hmem => hesc hstr (by simp [quoted, hmem])⟩
  exact hplain.quote_notMem

/-- A number is copied up to the next comma or bracket, as far as the buffer goes. -/
lemma readElement_number {c : UInt8} (hc : isDigit c = true ∨ c = 45) (t : Bytes) :
    (readElement (c :: t)).2 =
      (c :: t).drop (((c :: t).takeWhile fun c => c ≠ 44 ∧ c ≠ 93).take 255).length := by
  rw [readElement]
  · rw [if_pos hc]
  · rintro rfl
    rcases hc with hc | hc <;> cases hc
  · rintro rfl
    rcases hc with hc | hc <;> cases hc

lemma ws_stop {w : Bytes} (h : Ws w) : ∀ x ∈ w, x ≠ 44 ∧ x ≠ 93 := by
  intro x hx
  have hblank := h x hx
  refine ⟨?_, ?_⟩ <;> rintro rfl <;> exact absurd hblank (by decide)

/-- What is left when so much of two texts has been copied, at least the first one. -/
lemma drop_take_append {v after : Bytes} {k : ℕ} (hv : v.length ≤ k) (r : Bytes) :
    (v ++ after ++ r).drop ((v ++ after).take k).length = after.drop (k - v.length) ++ r := by
  rw [List.length_take, List.length_append]
  rcases le_total k (v.length + after.length) with hk | hk
  · rw [min_eq_left hk, List.drop_append_of_le_length (by simpa using hk), List.drop_append,
      List.drop_of_length_le hv, List.nil_append]
  · rw [min_eq_right hk, ← List.length_append, List.drop_left,
      List.drop_of_length_le (show after.length ≤ k - v.length by omega), List.nil_append]

/-- **An element that is passed to its end is left behind**, with nothing but blanks before the
next comma or bracket. -/
lemma readElement_passed {v : Bytes} (hv : Value v) (hesc : Str v → 92 ∉ v) (hpassed : Passed v)
    {after : Bytes} (hafter : Ws after) {c : UInt8} (hc : c = 44 ∨ c = 93) (rest : Bytes) :
    ∃ w, Between w ∧ (readElement (v ++ (after ++ c :: rest))).2 = w ++ c :: rest := by
  have hws := ws_stop hafter
  -- the scan passes over the element and the blanks behind it
  have hscan : (∀ x ∈ v, x ≠ 44 ∧ x ≠ 93) →
      (v ++ (after ++ c :: rest)).dropWhile (fun c => c ≠ 44 ∧ c ≠ 93) = c :: rest ∧
        (v ++ (after ++ c :: rest)).takeWhile (fun c => c ≠ 44 ∧ c ≠ 93) = v ++ after := by
    intro hplain
    rw [← List.append_assoc]
    exact dropWhile_stop (List.forall_mem_append.mpr ⟨hplain, hws⟩) hc rest
  cases hpassed with
  | @string b hlen =>
    refine ⟨after, between_of_ws hafter, ?_⟩
    rw [readElement_string (quote_notMem_of_value hv hesc), List.take_of_length_le hlen,
      List.drop_left, skipQuote]
  | number h hlen =>
    have hplain : ∀ x ∈ v, x ≠ 44 ∧ x ≠ 93 := by
      intro x hx
      refine ⟨?_, ?_⟩ <;> rintro rfl <;> exact absurd (h.chars _ hx) (by decide)
    obtain ⟨d, t, rfl, hd⟩ := h.head
    refine ⟨after.drop (255 - (d :: t).length), fun x hx => ?_, ?_⟩
    · exact between_of_ws hafter x (List.mem_of_mem_drop hx)
    · have hread := readElement_number hd (t ++ (after ++ c :: rest))
      rw [← List.cons_append, (hscan hplain).2] at hread
      rw [hread, ← List.append_assoc]
      exact drop_take_append hlen _
  | null => exact ⟨[], between_nil, (hscan (by decide)).1⟩
  | true => exact ⟨[], between_nil, (hscan (by decide)).1⟩
  | false => exact ⟨[], between_nil, (hscan (by decide)).1⟩
  | @object t h =>
    refine ⟨after, between_of_ws hafter, ?_⟩
    have hskip := skipObject_append ((closesFrom_request t).mpr h) (after ++ c :: rest)
    have hread : readElement (123 :: (t ++ [125]) ++ (after ++ c :: rest)) =
        (ascii "\x7bobject\x7d", skipObject 1 (t ++ [125] ++ (after ++ c :: rest))) := rfl
    rw [hread, hskip]

/-- Behind an array that ends early, the loop stands at a bracket. -/
lemma readElement_endsEarly {v : Bytes} (h : EndsEarly v) {after : Bytes} (hafter : Ws after)
    (rest : Bytes) : ∃ t, (readElement (v ++ (after ++ 93 :: rest))).2 = 93 :: t := by
  obtain ⟨hhead, hcomma⟩ := h
  have hstop : ∀ u : Bytes, 44 ∉ u.takeWhile (· ≠ 93) → ∃ t,
      (u ++ (after ++ 93 :: rest)).dropWhile (fun c => c ≠ 44 ∧ c ≠ 93) = 93 :: t := by
    intro u hu
    induction u with
    | nil => exact ⟨rest, (dropWhile_stop (ws_stop hafter) (Or.inr rfl) rest).1⟩
    | cons c u ih =>
      by_cases hc : c = 93
      · subst hc
        exact ⟨_, List.dropWhile_cons_of_neg (by decide)⟩
      · rw [List.takeWhile_cons_of_pos (by simpa using hc), List.mem_cons, not_or] at hu
        obtain ⟨t, ht⟩ := ih hu.2
        refine ⟨t, ?_⟩
        rw [List.cons_append, List.dropWhile_cons_of_pos (by simpa using ⟨Ne.symm hu.1, hc⟩), ht]
  obtain ⟨u, rfl⟩ := List.head?_eq_some_iff.mp hhead
  exact hstop (91 :: u) hcomma

/-! ### A whole array -/

lemma paramsLoop_end {w : Bytes} (hw : Between w) (room : ℕ) (rest : Bytes) :
    paramsLoop room (w ++ 93 :: rest) = [] := by
  cases room with
  | zero => rfl
  | succ room => rw [paramsLoop_eq, elementAt_end hw]

/-- An element gives a parameter, and the loop goes on behind it. -/
lemma splits_cons {v : Bytes} (hv : Value v) (hesc : Str v → 92 ∉ v) {w : Bytes} (hw : Between w)
    {room : ℕ} {r : Bytes} {vs : List Bytes}
    (h : Splits (paramsLoop room (readElement (v ++ r)).2) vs) :
    Splits (paramsLoop (room + 1) (w ++ (v ++ r))) (v :: vs) := by
  rw [paramsLoop_eq, elementAt_value hv hw]
  refine List.Forall₂.cons ?_ h
  rintro b rfl
  rw [readElement_string (quote_notMem_of_value hv hesc)]

/-- The elements of an array, up to the closing bracket. -/
lemma splits_commas {items : List Padded} (hne : items ≠ []) (hblank : ∀ i ∈ items, i.Blank)
    (hvalue : ∀ i ∈ items, Value i.text) (hesc : ∀ i ∈ items, Str i.text → 92 ∉ i.text)
    {room : ℕ} (hstep : InStep room (items.map Padded.text)) {w : Bytes} (hw : Between w)
    (after : Bytes) :
    Splits (paramsLoop room (w ++ (commas (items.map Padded.all) ++ 93 :: after)))
      (items.map Padded.text) := by
  induction items generalizing room w with
  | nil => exact absurd rfl hne
  | cons p items ih =>
    obtain ⟨⟨hbefore, hafter⟩, hblank⟩ := List.forall_mem_cons.mp hblank
    obtain ⟨hv, hvalue⟩ := List.forall_mem_cons.mp hvalue
    obtain ⟨hpesc, hesc⟩ := List.forall_mem_cons.mp hesc
    have hw' : Between (w ++ p.before) :=
      List.forall_mem_append.mpr ⟨hw, between_of_ws hbefore⟩
    cases room with
    | zero => exact hstep.elim
    | succ room =>
      cases items with
      | nil =>
        have htext : w ++ (commas ([p].map Padded.all) ++ 93 :: after) =
            w ++ p.before ++ (p.text ++ (p.after ++ 93 :: after)) := by
          simp [commas, Padded.all]
        rw [htext]
        refine splits_cons hv hpesc hw' ?_
        -- the loop ends here
        have hend : paramsLoop room (readElement (p.text ++ (p.after ++ 93 :: after))).2 = [] := by
          rcases hstep with ⟨hpassed, -⟩ | ⟨-, rfl | hearly⟩
          · obtain ⟨w₁, hw₁, hread⟩ := readElement_passed hv hpesc hpassed hafter (Or.inr rfl) after
            rw [hread, paramsLoop_end hw₁]
          · rw [paramsLoop]
          · obtain ⟨t, hread⟩ := readElement_endsEarly hearly hafter after
            rw [hread]
            exact paramsLoop_end between_nil room t
        rw [hend]
        exact .nil
      | cons q items =>
        obtain ⟨hpassed, hstep⟩ : Passed p.text ∧ InStep room ((q :: items).map Padded.text) := by
          rcases hstep with hstep | ⟨hnil, -⟩
          · exact hstep
          · cases hnil
        have htext : w ++ (commas ((p :: q :: items).map Padded.all) ++ 93 :: after) =
            w ++ p.before ++ (p.text ++ (p.after ++
              44 :: (commas ((q :: items).map Padded.all) ++ 93 :: after))) := by
          simp [commas, Padded.all]
        rw [htext]
        refine splits_cons hv hpesc hw' ?_
        obtain ⟨w₁, hw₁, hread⟩ := readElement_passed hv hpesc hpassed hafter (Or.inl rfl)
          (commas ((q :: items).map Padded.all) ++ 93 :: after)
        have hcomma : Between (w₁ ++ [44]) :=
          List.forall_mem_append.mpr ⟨hw₁, List.forall_mem_singleton.mpr rfl⟩
        rw [hread, List.append_cons]
        exact ih (List.cons_ne_nil q items) hblank hvalue hesc hstep hcomma

/-- **The parameters are split element by element** if each one is passed to its end. -/
theorem params_split {o : Object} {a : ParamsArray} (h : HasFirst o (ascii "params") a.text)
    (hstep : InStep 8 a.elements) : Splits (jsonParseParams o.text 8) a.elements := by
  obtain ⟨t, c, rest, -, hfound, hvalue⟩ := strstr_field h (by decide)
    (by simp [ParamsArray.text]; rfl) (List.cons_ne_nil _ _)
  have hopen : findParamsArray o.text = some (a.inside ++ 93 :: c :: rest) := by
    unfold findParamsArray
    rw [show ascii "\"params\"" = quoted (ascii "params") from rfl, hfound]
    dsimp only
    rw [show 8 = (quoted (ascii "params")).length from rfl, List.drop_left, hvalue]
    simp [ParamsArray.text]
  rw [jsonParseParams_loop, hopen, Option.map_some, Option.getD_some]
  have hinside := a.encloses
  unfold ParamsArray.elements at hstep ⊢
  split_ifs at hinside with hempty
  · rw [hempty, paramsLoop_end (between_of_ws hinside)]
    exact .nil
  · rw [hinside]
    exact splits_commas hempty a.blank a.value a.unescaped hstep between_nil (c :: rest)

/-! ### Requests -/

/-- An array without white space. -/
def plainArray (vs : List Bytes) (hne : vs ≠ []) (hvalue : ∀ v ∈ vs, Value v)
    (hesc : ∀ v ∈ vs, Str v → 92 ∉ v) : ParamsArray where
  items := vs.map bare
  inside := commas vs
  encloses := by rw [if_neg (by simpa using hne), map_bare_all]
  blank := List.forall_mem_map.mpr fun v _ => blank_bare v
  value := List.forall_mem_map.mpr hvalue
  unescaped := List.forall_mem_map.mpr hesc

/-- A request with parameters, and some white space behind each colon. -/
def paramsRequest (gap : Bytes) (hgap : Ws gap) (vs : List Bytes) (hvalue : ∀ v ∈ vs, Value v) :
    Object :=
  plainObject gap hgap [(ascii "method", quoted (ascii "eth_call")),
    (ascii "params", 91 :: (commas vs ++ [93]))] (List.cons_ne_nil _ _)
    (by simp only [List.forall_mem_cons]; decide)
    (List.forall_mem_cons.mpr ⟨value_plain (by decide),
      List.forall_mem_singleton.mpr (value_array hvalue)⟩)

def latestParams : List Bytes := [quoted (ascii "0xaabbccdd"), quoted (ascii "latest")]

lemma value_latestParams : ∀ v ∈ latestParams, Value v :=
  List.forall_mem_cons.mpr
    ⟨value_plain (by decide), List.forall_mem_singleton.mpr (value_plain (by decide))⟩

/-- **An address and a tag** are split. -/
theorem params_split_latest : Splits
    (jsonParseParams (paramsRequest [32] (by decide) latestParams value_latestParams).text 8)
    latestParams := by
  refine params_split (a := plainArray latestParams (List.cons_ne_nil _ _) value_latestParams
    (fun v hv _ => ?_)) ⟨[_], _, [], rfl, by decide, rfl, by decide, by decide⟩ ?_
  · have hesc : ∀ v ∈ latestParams, 92 ∉ v := by decide
    exact hesc v hv
  · exact Or.inl ⟨.string (by decide), Or.inl ⟨.string (by decide), trivial⟩⟩

/-- The name of the parameters stands in quotes only once in a request, as the key of an array of
at most eight elements, and they are not what is read. -/
def Missed (o : Object) (a : ParamsArray) : Prop :=
  Has o (ascii "params") a.text ∧
    o.text.tails.countP (fun t => (quoted (ascii "params")).isPrefixOf t) = 1 ∧
    a.elements.length ≤ 8 ∧ ¬ Splits (jsonParseParams o.text 8) a.elements

lemma missed_paramsRequest {gap : Bytes} {hgap : Ws gap} {vs : List Bytes} {hne : vs ≠ []}
    {hvalue : ∀ v ∈ vs, Value v} {hesc : ∀ v ∈ vs, Str v → 92 ∉ v}
    (honce : (paramsRequest gap hgap vs hvalue).text.tails.countP
      (fun t => (quoted (ascii "params")).isPrefixOf t) = 1) (hlen : vs.length ≤ 8)
    (hcount : (jsonParseParams (paramsRequest gap hgap vs hvalue).text 8).length ≠ vs.length) :
    Missed (paramsRequest gap hgap vs hvalue) (plainArray vs hne hvalue hesc) := by
  have hhas : Has (paramsRequest gap hgap vs hvalue) (ascii "params")
      (plainArray vs hne hvalue hesc).text :=
    ⟨_, List.mem_cons_of_mem _ List.mem_cons_self, rfl, rfl⟩
  have helements : (plainArray vs hne hvalue hesc).elements.length = vs.length := by
    simp [plainArray, ParamsArray.elements]
  refine ⟨hhas, honce, helements ▸ hlen, fun hsplits => hcount ?_⟩
  rw [← helements]
  exact hsplits.length_eq

/-- Lists of parameters that are not split. -/
def nestedArray : List Bytes :=
  [91 :: (commas [decimal 1, decimal 2] ++ [93]), decimal 3, decimal 4]

lemma value_nestedArray : ∀ v ∈ nestedArray, Value v := by
  refine List.forall_mem_cons.mpr ⟨value_array ?_, List.forall_mem_cons.mpr
    ⟨value_decimal 3, List.forall_mem_singleton.mpr (value_decimal 4)⟩⟩
  exact List.forall_mem_cons.mpr ⟨value_decimal 1, List.forall_mem_singleton.mpr (value_decimal 2)⟩

def braceInString : List Bytes :=
  [123 :: (commas [quoted (ascii "a") ++ 58 :: quoted [125]] ++ [125]), quoted (ascii "latest")]

lemma value_braceInString : ∀ v ∈ braceInString, Value v := by
  refine List.forall_mem_cons.mpr ⟨?_, List.forall_mem_singleton.mpr (value_plain (by decide))⟩
  exact @value_object [(quoted (ascii "a"), quoted [125])]
    (List.forall_mem_singleton.mpr (str_of_plain (by decide)))
    (List.forall_mem_singleton.mpr (value_plain (by decide)))

def longString : List Bytes := [quoted (List.replicate 256 97)]

lemma value_longString : ∀ v ∈ longString, Value v := by
  refine List.forall_mem_singleton.mpr (value_plain fun c hc => ?_)
  rw [List.eq_of_mem_replicate hc]
  rfl

def longNumber : List Bytes := [List.replicate 256 49]

lemma value_longNumber : ∀ v ∈ longNumber, Value v := by
  refine List.forall_mem_singleton.mpr (.number (Integer.number (Or.inl (Or.inr ?_))))
  refine ⟨49, List.replicate 255 49, rfl, rfl, by decide, fun c hc => ?_⟩
  rw [List.eq_of_mem_replicate hc]
  rfl

/-- **A nested array, a brace in a string, a string and a number of 256 characters, and the end of
a line** before the array: each one breaks the split. -/
theorem not_params_split :
    (∃ a, Missed (paramsRequest [] ws_nil nestedArray value_nestedArray) a) ∧
      (∃ a, Missed (paramsRequest [] ws_nil braceInString value_braceInString) a) ∧
      (∃ a, Missed (paramsRequest [] ws_nil longString value_longString) a) ∧
      (∃ a, Missed (paramsRequest [] ws_nil longNumber value_longNumber) a) ∧
      ∃ a, Missed (paramsRequest [10] (by decide) latestParams value_latestParams) a := by
  have hesc : ∀ vs ∈ [nestedArray, braceInString, longString, longNumber, latestParams],
      ∀ v ∈ vs, 92 ∉ v := by decide +kernel
  simp only [List.forall_mem_cons] at hesc
  obtain ⟨hnested, hbrace, hstring, hnumber, hlatest, -⟩ := hesc
  refine ⟨⟨plainArray nestedArray (by decide) value_nestedArray fun v hv _ => hnested v hv, ?_⟩,
    ⟨plainArray braceInString (by decide) value_braceInString fun v hv _ => hbrace v hv, ?_⟩,
    ⟨plainArray longString (by decide) value_longString fun v hv _ => hstring v hv, ?_⟩,
    ⟨plainArray longNumber (by decide) value_longNumber fun v hv _ => hnumber v hv, ?_⟩,
    ⟨plainArray latestParams (by decide) value_latestParams fun v hv _ => hlatest v hv, ?_⟩⟩
  all_goals exact missed_paramsRequest (by decide +kernel) (by decide) (by decide +kernel)

end EvmDb.Params
