import EvmDb.Lib.JsonText

/-!
A machine with a stack that reads JSON texts byte by byte.

It takes every valid text, so a text on which it stops is not valid.
-/

namespace EvmDb.JsonScan

open EvmDb.Digits EvmDb.JsonText

/-! ### The machine -/

/-- Where the machine is inside a string. -/
inductive InString
  | plain
  | escape
  | hex (more : ℕ)
  | several (r : UInt8 × UInt8) (rs : List (UInt8 × UInt8))
  deriving DecidableEq

/-- Inside the bytes that are to follow. -/
def InString.toFollow : List (UInt8 × UInt8) → InString
  | [] => .plain
  | r :: rs => .several r rs

def InString.next : InString → UInt8 → Option InString
  | .plain, c =>
    if isPlain c then some .plain
    else if c = 92 then some .escape
    else (follow c).map .toFollow
  | .escape, c => if isEscape c then some .plain else if c = 117 then some (.hex 3) else none
  | .hex more, c =>
    if isHexDigit c then some (if more = 0 then .plain else .hex (more - 1)) else none
  | .several r rs, c => if InRange c r then some (.toFollow rs) else none

/-- Where the machine is inside a number. -/
inductive InNumber
  | minus
  | zero
  | int
  | point
  | frac
  | e
  | sign
  | exp
  deriving DecidableEq

/-- Behind the digits of a fraction, or where a fraction may be left out. -/
def InNumber.nextExp (c : UInt8) : Option InNumber := if c = 101 ∨ c = 69 then some .e else none

def InNumber.next : InNumber → UInt8 → Option InNumber
  | .minus, c => if c = 48 then some .zero else if isDigit c then some .int else none
  | .zero, c => if c = 46 then some .point else nextExp c
  | .int, c => if isDigit c then some .int else if c = 46 then some .point else nextExp c
  | .point, c => if isDigit c then some .frac else none
  | .frac, c => if isDigit c then some .frac else nextExp c
  | .e, c => if c = 43 ∨ c = 45 then some .sign else if isDigit c then some .exp else none
  | .sign, c => if isDigit c then some .exp else none
  | .exp, c => if isDigit c then some .exp else none

/-- The number may end here. -/
def InNumber.done : InNumber → Bool
  | .zero | .int | .frac | .exp => true
  | _ => false

inductive Literal
  | null
  | true
  | false
  deriving DecidableEq

def Literal.text : Literal → List UInt8
  | .null => [110, 117, 108, 108]
  | .true => [116, 114, 117, 101]
  | .false => [102, 97, 108, 115, 101]

/-- An array or an object that has not ended. -/
inductive Frame
  | array
  | object
  deriving DecidableEq

/-- What the machine has to read next. -/
inductive Mode
  | value
  | items
  | after
  | key
  | members
  | colon
  | string (isKey : Bool) (m : InString)
  | number (m : InNumber)
  | literal (l : Literal) (i : ℕ)
  deriving DecidableEq

abbrev State := Mode × List Frame

/-- At the first byte of a value. -/
def startValue (stk : List Frame) (c : UInt8) : Option State :=
  if c = 34 then some (.string false .plain, stk)
  else if c = 45 then some (.number .minus, stk)
  else if c = 48 then some (.number .zero, stk)
  else if isDigit c then some (.number .int, stk)
  else if c = 91 then some (.items, .array :: stk)
  else if c = 123 then some (.members, .object :: stk)
  else if c = 110 then some (.literal .null 1, stk)
  else if c = 116 then some (.literal .true 1, stk)
  else if c = 102 then some (.literal .false 1, stk)
  else none

/-- Behind a value. -/
def endValue (stk : List Frame) (c : UInt8) : Option State :=
  if isWs c then some (.after, stk)
  else
    match stk with
    | [] => none
    | .array :: below =>
      if c = 44 then some (.value, stk) else if c = 93 then some (.after, below) else none
    | .object :: below =>
      if c = 44 then some (.key, stk) else if c = 125 then some (.after, below) else none

def step : State → UInt8 → Option State
  | (.value, stk), c => if isWs c then some (.value, stk) else startValue stk c
  | (.items, stk), c =>
    if isWs c then some (.items, stk)
    else if c = 93 then some (.after, stk.tail)
    else startValue stk c
  | (.after, stk), c => endValue stk c
  | (.key, stk), c =>
    if isWs c then some (.key, stk) else if c = 34 then some (.string true .plain, stk) else none
  | (.members, stk), c =>
    if isWs c then some (.members, stk)
    else if c = 125 then some (.after, stk.tail)
    else if c = 34 then some (.string true .plain, stk)
    else none
  | (.colon, stk), c =>
    if isWs c then some (.colon, stk) else if c = 58 then some (.value, stk) else none
  | (.string isKey m, stk), c =>
    if m = .plain ∧ c = 34 then some (if isKey then .colon else .after, stk)
    else (m.next c).map fun m => (.string isKey m, stk)
  | (.number m, stk), c =>
    match m.next c with
    | some m => some (.number m, stk)
    | none => if m.done then endValue stk c else none
  | (.literal l i, stk), c =>
    if l.text[i]? = some c then
      some (if i + 1 = l.text.length then .after else .literal l (i + 1), stk)
    else none

def scan : State → List UInt8 → Option State
  | st, [] => some st
  | st, c :: t => (step st c).bind fun st => scan st t

@[simp] lemma scan_nil (st : State) : scan st [] = some st := rfl

lemma scan_cons (st : State) (c : UInt8) (t : List UInt8) :
    scan st (c :: t) = (step st c).bind fun st => scan st t := rfl

lemma scan_append (st : State) (a b : List UInt8) :
    scan st (a ++ b) = (scan st a).bind fun st => scan st b := by
  induction a generalizing st with
  | nil => rfl
  | cons c a ih =>
    rw [List.cons_append, scan_cons, scan_cons]
    cases step st c with
    | none => rfl
    | some st => exact ih st

lemma scan_append_of {st st' : State} {a : List UInt8} (h : scan st a = some st')
    (b : List UInt8) : scan st (a ++ b) = scan st' b := by
  rw [scan_append, h]
  rfl

lemma scan_cons_of {st st' : State} {c : UInt8} (h : step st c = some st') (t : List UInt8) :
    scan st (c :: t) = scan st' t := by
  rw [scan_cons, h]
  rfl

/-- A text is accepted if it is read to its end, with a space behind it. -/
def Accepts (text : List UInt8) : Prop := scan (.value, []) (text ++ [32]) = some (.after, [])

instance (text : List UInt8) : Decidable (Accepts text) := inferInstanceAs (Decidable (_ = _))

/-! ### Strings are read -/

variable {stk : List Frame} {isKey : Bool}

/-- Between the parts of a text, where white space may stand. -/
def Mode.between : Mode → Bool
  | .value | .items | .after | .key | .members | .colon => true
  | _ => false

lemma scan_ws {m : Mode} (hm : m.between = true) {w : List UInt8} (hw : Ws w) :
    scan (m, stk) w = some (m, stk) := by
  induction w with
  | nil => rfl
  | cons c w ih =>
    have hc := hw c List.mem_cons_self
    have hstep : step (m, stk) c = some (m, stk) := by
      cases m <;> first | exact if_pos hc | cases hm
    rw [scan_cons_of hstep]
    exact ih fun d hd => hw d (List.mem_cons_of_mem _ hd)

/-- Reading inside a string, where the string does not end. -/
lemma scan_string_cons {m m' : InString} {c : UInt8} (h : m.next c = some m')
    (hc : m = .plain → c ≠ 34) (t : List UInt8) :
    scan (.string isKey m, stk) (c :: t) = scan (.string isKey m', stk) t := by
  apply scan_cons_of
  show (if m = .plain ∧ c = 34 then _ else _) = _
  rw [if_neg fun hm => hc hm.1 hm.2, h]
  rfl

lemma scan_follow {rs : List (UInt8 × UInt8)} {bs : List UInt8} (h : List.Forall₂ InRange bs rs)
    (t : List UInt8) :
    scan (.string isKey (.toFollow rs), stk) (bs ++ t) = scan (.string isKey .plain, stk) t := by
  induction h with
  | nil => rfl
  | @cons b r bs rs hb _ ih =>
    rw [List.cons_append, ← ih]
    exact scan_string_cons (m := .several r rs) (if_pos hb) nofun _

lemma plain_next {c : UInt8} (h : isPlain c = true) :
    InString.plain.next c = some .plain ∧ c ≠ 34 := by
  refine ⟨if_pos h, ?_⟩
  rintro rfl
  cases h

lemma scan_chr {c : List UInt8} (hc : Chr c) (t : List UInt8) :
    scan (.string isKey .plain, stk) (c ++ t) = scan (.string isKey .plain, stk) t := by
  cases hc with
  | plain h =>
    obtain ⟨hnext, hne⟩ := plain_next h
    exact scan_string_cons hnext (fun _ => hne) t
  | @escape c h =>
    have hnext : InString.plain.next 92 = some .escape := by decide
    have hnext' : InString.escape.next c = some .plain := if_pos h
    exact (scan_string_cons hnext (by decide) _).trans (scan_string_cons hnext' nofun t)
  | @unicode a b c d ha hb hc hd =>
    have hnext : InString.plain.next 92 = some .escape := by decide
    have hnext' : InString.escape.next 117 = some (.hex 3) := by decide
    have hhex : ∀ n c, isHexDigit c = true →
        (InString.hex n).next c = some (if n = 0 then .plain else .hex (n - 1)) :=
      fun _ _ h => if_pos h
    calc scan (.string isKey .plain, stk) ([92, 117, a, b, c, d] ++ t)
        = scan (.string isKey .escape, stk) (117 :: a :: b :: c :: d :: t) :=
          scan_string_cons hnext (by decide) _
      _ = scan (.string isKey (.hex 3), stk) (a :: b :: c :: d :: t) :=
          scan_string_cons hnext' nofun _
      _ = scan (.string isKey (.hex 2), stk) (b :: c :: d :: t) :=
          scan_string_cons (hhex 3 a ha) nofun _
      _ = scan (.string isKey (.hex 1), stk) (c :: d :: t) := scan_string_cons (hhex 2 b hb) nofun _
      _ = scan (.string isKey (.hex 0), stk) (d :: t) := scan_string_cons (hhex 1 c hc) nofun _
      _ = scan (.string isKey .plain, stk) t := scan_string_cons (hhex 0 d hd) nofun _
  | @several c rs bs hc hbs =>
    obtain ⟨hle, -⟩ := low_of_follow hc
    have hplain : isPlain c = false := by
      unfold isPlain
      simp only [UInt8.le_iff_toNat_le, UInt8.lt_iff_toNat_lt] at hle ⊢
      simp at hle ⊢
      omega
    have hne : c ≠ 92 ∧ c ≠ 34 := by
      constructor <;>
        · rintro rfl
          exact absurd hle (by decide)
    have hnext : InString.plain.next c = some (.toFollow rs) := by
      show (if isPlain c = true then _ else if c = 92 then _ else _) = _
      rw [if_neg (by simp [hplain]), if_neg hne.1, hc]
      rfl
    exact (scan_string_cons hnext (fun _ => hne.2) _).trans (scan_follow hbs t)

lemma scan_body {b : List UInt8} (hb : Body b) (t : List UInt8) :
    scan (.string isKey .plain, stk) (b ++ t) = scan (.string isKey .plain, stk) t := by
  induction hb with
  | nil => rfl
  | cons hc _ ih => rw [List.append_assoc, scan_chr hc, ih]

/-- A string is read, as a key or as a value. -/
lemma scan_string {b : List UInt8} (hb : Body b) :
    scan (.string isKey .plain, stk) (b ++ [34]) =
      some (if isKey then .colon else .after, stk) := by
  rw [scan_body hb]
  rfl

/-! ### Numbers are read -/

/-- Behind a value: a number may go on, but need not. -/
def Ended (stk : List Frame) (st : State) : Prop :=
  st = (.after, stk) ∨ ∃ m : InNumber, m.done = true ∧ st = (.number m, stk)

lemma scan_number_cons {m m' : InNumber} {c : UInt8} (h : m.next c = some m') (t : List UInt8) :
    scan (.number m, stk) (c :: t) = scan (.number m', stk) t := by
  apply scan_cons_of
  show (match m.next c with
    | some m => _
    | none => _) = _
  rw [h]

/-- A state that digits do not leave. -/
lemma scan_digits {m : InNumber} (hm : ∀ c, isDigit c = true → m.next c = some m)
    {ds : List UInt8} (hds : ∀ c ∈ ds, isDigit c = true) (t : List UInt8) :
    scan (.number m, stk) (ds ++ t) = scan (.number m, stk) t := by
  induction ds with
  | nil => rfl
  | cons c ds ih =>
    rw [List.cons_append, scan_number_cons (hm c (hds c List.mem_cons_self))]
    exact ih fun d hd => hds d (List.mem_cons_of_mem _ hd)

/-- Digits behind a point, or in an exponent. -/
lemma scan_someDigits {m m' : InNumber} (hm : ∀ c, isDigit c = true → m.next c = some m')
    (hm' : ∀ c, isDigit c = true → m'.next c = some m') {ds : List UInt8} (hds : SomeDigits ds)
    (t : List UInt8) : scan (.number m, stk) (ds ++ t) = scan (.number m', stk) t := by
  obtain ⟨hne, hall⟩ := hds
  obtain ⟨c, ds, rfl⟩ := List.exists_cons_of_ne_nil hne
  rw [List.cons_append, scan_number_cons (hm c (hall c List.mem_cons_self))]
  exact scan_digits hm' (fun d hd => hall d (List.mem_cons_of_mem _ hd)) t

lemma next_digit {c : UInt8} (h : isDigit c = true) :
    InNumber.int.next c = some .int ∧ InNumber.point.next c = some .frac ∧
      InNumber.frac.next c = some .frac ∧ InNumber.e.next c = some .exp ∧
        InNumber.sign.next c = some .exp ∧ InNumber.exp.next c = some .exp := by
  have hne : ¬ (c = 43 ∨ c = 45) := by
    rintro (rfl | rfl) <;> cases h
  simp [InNumber.next, h, hne]

lemma scan_exponent {m : InNumber} (hm : ∀ c, c = 101 ∨ c = 69 → m.next c = some .e)
    (hdone : m.done = true) {e : List UInt8} (he : Exponent e) :
    ∃ m' : InNumber, m'.done = true ∧ scan (.number m, stk) e = some (.number m', stk) := by
  rcases he with rfl | ⟨c, s, ds, rfl, hc, hs, hds⟩
  · exact ⟨m, hdone, rfl⟩
  refine ⟨.exp, rfl, ?_⟩
  rw [scan_number_cons (hm c hc), ← List.append_nil (s ++ ds), List.append_assoc]
  have hexp : ∀ m : InNumber, (∀ c, isDigit c = true → m.next c = some .exp) →
      scan (.number m, stk) (ds ++ []) = some (.number .exp, stk) :=
    fun m hm => scan_someDigits hm (fun c h => (next_digit h).2.2.2.2.2) hds []
  rcases hs with rfl | rfl | rfl
  · exact hexp .e fun c h => (next_digit h).2.2.2.1
  · exact hexp .sign fun c h => (next_digit h).2.2.2.2.1
  · exact hexp .sign fun c h => (next_digit h).2.2.2.2.1

lemma scan_fraction {m : InNumber} (hm : m = .zero ∨ m = .int) {f e : List UInt8}
    (hf : Fraction f) (he : Exponent e) :
    ∃ m' : InNumber, m'.done = true ∧ scan (.number m, stk) (f ++ e) = some (.number m', stk) := by
  rcases hf with rfl | ⟨ds, rfl, hds⟩
  · rw [List.nil_append]
    rcases hm with rfl | rfl <;> refine scan_exponent ?_ rfl he <;> rintro c (rfl | rfl) <;> decide
  · have hpoint : m.next 46 = some .point := by rcases hm with rfl | rfl <;> decide
    rw [List.cons_append, scan_number_cons hpoint, scan_someDigits
      (fun c h => (next_digit h).2.1) (fun c h => (next_digit h).2.2.1) hds]
    refine scan_exponent ?_ rfl he
    rintro c (rfl | rfl) <;> decide

/-- The digits of a natural number, from where a minus has been read or is left out. -/
lemma scan_natural {st : State} (hzero : step st 48 = some (.number .zero, stk))
    (hint : ∀ c, isDigit c = true → c ≠ 48 → step st c = some (.number .int, stk))
    {n : List UInt8} (hn : Natural n) (t : List UInt8) :
    ∃ m : InNumber, (m = .zero ∨ m = .int) ∧ scan st (n ++ t) = scan (.number m, stk) t := by
  rcases hn with rfl | ⟨c, ds, rfl, hc, hne, hds⟩
  · exact ⟨.zero, Or.inl rfl, scan_cons_of hzero t⟩
  · refine ⟨.int, Or.inr rfl, ?_⟩
    rw [List.cons_append, scan_cons_of (hint c hc hne)]
    exact scan_digits (fun c h => (next_digit h).1) hds t

lemma isWs_digit {c : UInt8} (h : isDigit c = true) : isWs c = false := by
  simp only [isWs, decide_eq_false_iff_not]
  rintro (rfl | rfl | rfl | rfl) <;> cases h

lemma startValue_digit {c : UInt8} (h : isDigit c = true) (hne : c ≠ 48) :
    step (.value, stk) c = some (.number .int, stk) := by
  have hws := isWs_digit h
  have hquote : c ≠ 34 := by rintro rfl; cases h
  have hminus : c ≠ 45 := by rintro rfl; cases h
  simp [step, startValue, hws, hquote, hminus, hne, h]

lemma minus_digit {c : UInt8} (h : isDigit c = true) (hne : c ≠ 48) :
    step (.number .minus, stk) c = some (.number .int, stk) := by
  simp [step, InNumber.next, h, hne]

lemma scan_number {n : List UInt8} (hn : Number n) :
    ∃ st, scan (.value, stk) n = some st ∧ Ended stk st := by
  obtain ⟨i, f, e, rfl, hi, hf, he⟩ := hn
  have hread : ∃ m : InNumber, (m = .zero ∨ m = .int) ∧
      scan (.value, stk) (i ++ (f ++ e)) = scan (.number m, stk) (f ++ e) := by
    rcases hi with hi | ⟨n, rfl, hi⟩
    · exact scan_natural rfl (fun c h hne => startValue_digit h hne) hi _
    · have hminus : step (.value, stk) 45 = some (.number .minus, stk) := rfl
      rw [List.cons_append, scan_cons_of hminus]
      exact scan_natural rfl (fun c h hne => minus_digit h hne) hi _
  obtain ⟨m, hm, hscan⟩ := hread
  obtain ⟨m', hdone, hscan'⟩ := scan_fraction hm hf he
  exact ⟨_, hscan.trans hscan', Or.inr ⟨m', hdone, rfl⟩⟩

/-! ### Values are read -/

lemma step_of_ended {st : State} (h : Ended stk st) {c : UInt8}
    (hc : isWs c = true ∨ c = 44 ∨ c = 93 ∨ c = 125) : step st c = endValue stk c := by
  rcases h with rfl | ⟨m, hdone, rfl⟩
  · rfl
  -- no number goes on with such a byte
  · have hnone : m.next c = none := by
      have hc' : c = 32 ∨ c = 9 ∨ c = 10 ∨ c = 13 ∨ c = 44 ∨ c = 93 ∨ c = 125 := by
        simpa [isWs, or_assoc] using hc
      rcases hc' with rfl | rfl | rfl | rfl | rfl | rfl | rfl <;> cases m <;> rfl
    show (match m.next c with
      | some m => _
      | none => _) = _
    rw [hnone]
    exact if_pos hdone

lemma ended_ws {st : State} (h : Ended stk st) {w : List UInt8} (hw : Ws w) :
    ∃ st', scan st w = some st' ∧ Ended stk st' := by
  cases w with
  | nil => exact ⟨st, rfl, h⟩
  | cons c w =>
    have hc := hw c List.mem_cons_self
    refine ⟨(.after, stk), ?_, Or.inl rfl⟩
    have hstep : endValue stk c = some (.after, stk) := if_pos hc
    rw [scan_cons_of ((step_of_ended h (Or.inl hc)).trans hstep)]
    exact scan_ws rfl fun d hd => hw d (List.mem_cons_of_mem _ hd)

/-- A value is read on every stack. -/
def ReadsValue (v : List UInt8) : Prop :=
  ∀ stk, ∃ st, scan (.value, stk) v = some st ∧ Ended stk st

lemma ReadsValue.padded {p : Padded} (h : ReadsValue p.text) (hblank : p.Blank)
    (stk : List Frame) : ∃ st, scan (.value, stk) p.all = some st ∧ Ended stk st := by
  obtain ⟨st, hscan, hended⟩ := h stk
  obtain ⟨st', hscan', hended'⟩ := ended_ws hended hblank.2
  have hbefore : scan (.value, stk) p.before = some (.value, stk) :=
    scan_ws rfl hblank.1
  refine ⟨st', ?_, hended'⟩
  unfold Padded.all
  rw [scan_append_of hbefore, scan_append_of hscan, hscan']

/-- Texts with commas between them are read in turn. -/
lemma scan_commas {stk : List Frame} {mode next : Mode}
    (hcomma : endValue stk 44 = some (next, stk)) {ts : List (List UInt8)} (hne : ts ≠ [])
    (h : ∀ t ∈ ts, ∀ m, m = mode ∨ m = next → ∃ st, scan (m, stk) t = some st ∧ Ended stk st) :
    ∃ st, scan (mode, stk) (commas ts) = some st ∧ Ended stk st := by
  induction ts generalizing mode with
  | nil => exact absurd rfl hne
  | cons t ts ih =>
    obtain ⟨st, hscan, hended⟩ := h t List.mem_cons_self mode (Or.inl rfl)
    cases ts with
    | nil => exact ⟨st, hscan, hended⟩
    | cons u ts =>
      obtain ⟨st', hscan', hended'⟩ := @ih next (List.cons_ne_nil _ _)
        fun x hx m hm => h x (List.mem_cons_of_mem _ hx) m (Or.inr (or_self_iff.mp hm))
      refine ⟨st', ?_, hended'⟩
      rw [commas, scan_append_of hscan,
        scan_cons_of ((step_of_ended hended (by decide)).trans hcomma), hscan']
      exact List.cons_ne_nil _ _

/-- The items of an array, up to the bracket. -/
lemma scan_items {items : List Padded} (hne : items ≠ []) (hblank : ∀ i ∈ items, i.Blank)
    (h : ∀ i ∈ items, ReadsValue i.text) (stk : List Frame) :
    ∃ st, scan (.value, .array :: stk) (commas (items.map Padded.all)) = some st ∧
      Ended (.array :: stk) st := by
  have hcomma : endValue (.array :: stk) 44 = some (.value, .array :: stk) := rfl
  refine scan_commas hcomma (by simpa using hne) (List.forall_mem_map.mpr fun i hi m hm => ?_)
  rw [or_self_iff.mp hm]
  exact (h i hi).padded (hblank i hi) _

/-- A member of an object, from the quote of its key on. -/
lemma scan_member {m : Member} (hblank : m.Blank) (hkey : Str m.key.text)
    (h : ReadsValue m.value.text) {mode : Mode} (hmode : mode = .key ∨ mode = .members)
    (stk : List Frame) : ∃ st, scan (mode, stk) m.all = some st ∧ Ended stk st := by
  obtain ⟨b, hb, hb'⟩ := hkey
  obtain ⟨st, hscan, hended⟩ := h.padded hblank.2 stk
  refine ⟨st, ?_, hended⟩
  have hbefore : scan (mode, stk) m.key.before = some (mode, stk) :=
    scan_ws (by rcases hmode with rfl | rfl <;> rfl) hblank.1.1
  have hquote : step (mode, stk) 34 = some (.string true .plain, stk) := by
    rcases hmode with rfl | rfl <;> rfl
  have hafter : scan (.colon, stk) m.key.after = some (.colon, stk) := scan_ws rfl hblank.1.2
  have hcolon : step (.colon, stk) 58 = some (.value, stk) := rfl
  unfold Member.all Padded.all
  rw [hb', List.append_assoc, List.append_assoc, scan_append_of hbefore, List.cons_append,
    scan_cons_of hquote, scan_append_of (scan_string hb), if_pos rfl, scan_append_of hafter,
    scan_cons_of hcolon]
  exact hscan

/-- The members of an object, up to the brace. -/
lemma scan_members {members : List Member} (hne : members ≠ [])
    (hblank : ∀ m ∈ members, m.Blank) (hkey : ∀ m ∈ members, Str m.key.text)
    (h : ∀ m ∈ members, ReadsValue m.value.text) (stk : List Frame) :
    ∃ st, scan (.members, .object :: stk) (commas (members.map Member.all)) = some st ∧
      Ended (.object :: stk) st := by
  have hcomma : endValue (.object :: stk) 44 = some (.key, .object :: stk) := rfl
  refine scan_commas hcomma (by simpa using hne) (List.forall_mem_map.mpr fun m hm mode hmode => ?_)
  exact scan_member (hblank m hm) (hkey m hm) (h m hm) hmode.symm _

/-- The first byte of a value is neither white space nor a bracket that closes an array nor a
comma. -/
lemma value_head {v : List UInt8} (h : Value v) :
    ∃ c t, v = c :: t ∧ isWs c = false ∧ c ≠ 93 ∧ c ≠ 44 := by
  cases h with
  | number hn =>
    obtain ⟨c, t, rfl, hc | rfl⟩ := hn.head
    · refine ⟨c, t, rfl, isWs_digit hc, ?_, ?_⟩ <;> rintro rfl <;> cases hc
    · exact ⟨45, t, rfl, rfl, by decide, by decide⟩
  | string hs =>
    obtain ⟨b, -, rfl⟩ := hs
    exact ⟨34, _, rfl, rfl, by decide, by decide⟩
  | _ => exact ⟨_, _, rfl, rfl, by decide, by decide⟩

/-- Behind the bracket that opens an array, the first item is read like any other. -/
lemma scan_firstItem {p : Padded} (hblank : p.Blank) (h : Value p.text)
    (items : List (List UInt8)) :
    scan (.items, stk) (commas (p.all :: items)) =
      scan (.value, stk) (commas (p.all :: items)) := by
  obtain ⟨t, ht⟩ : ∃ t, commas (p.all :: items) = p.all ++ t := by
    cases items with
    | nil => exact ⟨[], (List.append_nil _).symm⟩
    | cons i items => exact ⟨_, rfl⟩
  rw [ht]
  obtain ⟨c, u, hv, hws, hne, -⟩ := value_head h
  have hitems : scan (.items, stk) p.before = some (.items, stk) := scan_ws rfl hblank.1
  have hvalue : scan (.value, stk) p.before = some (.value, stk) := scan_ws rfl hblank.1
  have hstep : step (.items, stk) c = step (.value, stk) c := by
    simp [step, hws, hne]
  unfold Padded.all
  rw [hv, List.append_assoc, scan_append_of hitems, scan_append_of hvalue]
  simp only [List.cons_append, scan_cons, hstep]

/-- **Every value is read**, whatever the machine is inside of. -/
theorem scan_value {v : List UInt8} (h : Value v) : ReadsValue v := by
  induction h with
  | null => exact fun stk => ⟨_, rfl, Or.inl rfl⟩
  | true => exact fun stk => ⟨_, rfl, Or.inl rfl⟩
  | false => exact fun stk => ⟨_, rfl, Or.inl rfl⟩
  | number hn => exact fun stk => scan_number hn
  | string hs =>
    obtain ⟨b, hb, rfl⟩ := hs
    intro stk
    have hquote : step (.value, stk) 34 = some (.string false .plain, stk) := rfl
    exact ⟨_, (scan_cons_of hquote _).trans (scan_string hb), Or.inl rfl⟩
  | emptyArray hw =>
    intro stk
    have hopen : step (.value, stk) 91 = some (.items, .array :: stk) := rfl
    refine ⟨(.after, stk), ?_, Or.inl rfl⟩
    rw [scan_cons_of hopen, scan_append_of (scan_ws rfl hw)]
    rfl
  | @array items hne hblank hvalue ih =>
    intro stk
    have hopen : step (.value, stk) 91 = some (.items, .array :: stk) := rfl
    obtain ⟨st, hscan, hended⟩ := scan_items hne hblank ih stk
    have hfirst : scan (.items, .array :: stk) (commas (items.map Padded.all)) = some st := by
      rw [← hscan]
      obtain ⟨i, items, rfl⟩ := List.exists_cons_of_ne_nil hne
      exact scan_firstItem (hblank i List.mem_cons_self) (hvalue i List.mem_cons_self) _
    have hclose : endValue (.array :: stk) 93 = some (.after, stk) := rfl
    refine ⟨(.after, stk), ?_, Or.inl rfl⟩
    rw [scan_cons_of hopen, scan_append_of hfirst,
      scan_cons_of ((step_of_ended hended (by decide)).trans hclose), scan_nil]
  | emptyObject hw =>
    intro stk
    have hopen : step (.value, stk) 123 = some (.members, .object :: stk) := rfl
    refine ⟨(.after, stk), ?_, Or.inl rfl⟩
    rw [scan_cons_of hopen, scan_append_of (scan_ws rfl hw)]
    rfl
  | object hne hblank hkey _ ih =>
    intro stk
    have hopen : step (.value, stk) 123 = some (.members, .object :: stk) := rfl
    obtain ⟨st, hscan, hended⟩ := scan_members hne hblank hkey ih stk
    have hclose : endValue (.object :: stk) 125 = some (.after, stk) := rfl
    refine ⟨(.after, stk), ?_, Or.inl rfl⟩
    rw [scan_cons_of hopen, scan_append_of hscan,
      scan_cons_of ((step_of_ended hended (by decide)).trans hclose), scan_nil]

/-- **Every valid text is accepted.** -/
theorem accepts_of_valid {text : List UInt8} (h : Valid text) : Accepts text := by
  obtain ⟨p, hblank, hvalue, rfl⟩ := h
  obtain ⟨st, hscan, hended⟩ := (scan_value hvalue).padded hblank []
  unfold Accepts
  rw [scan_append_of hscan, scan_cons_of (step_of_ended hended (by decide))]
  rfl

end EvmDb.JsonScan
