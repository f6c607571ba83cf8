import EvmDb.Lib.Digits

/-!
JSON texts as sequences of bytes, in UTF-8.

The grammar has one predicate for each of its notions. A value determines its text only up to
white space, so the parts of an array or an object come with the white space around them.
-/

namespace EvmDb.JsonText

open EvmDb.Digits

/-- The members of a list are tried one after the other, not all values of their type. -/
instance (priority := 2000) decidableForallMem {α : Type*} (l : List α) (p : α → Prop)
    [DecidablePred p] : Decidable (∀ a ∈ l, p a) := List.decidableBAll p l

/-! ### Strings -/

/-- The ranges of the bytes that follow the first byte of a character of several bytes. -/
def follow (c : UInt8) : Option (List (UInt8 × UInt8)) :=
  if 0xc2 ≤ c ∧ c ≤ 0xdf then some [(0x80, 0xbf)]
  else if c = 0xe0 then some [(0xa0, 0xbf), (0x80, 0xbf)]
  -- no surrogates
  else if c = 0xed then some [(0x80, 0x9f), (0x80, 0xbf)]
  else if 0xe1 ≤ c ∧ c ≤ 0xef then some [(0x80, 0xbf), (0x80, 0xbf)]
  else if c = 0xf0 then some [(0x90, 0xbf), (0x80, 0xbf), (0x80, 0xbf)]
  else if 0xf1 ≤ c ∧ c ≤ 0xf3 then some [(0x80, 0xbf), (0x80, 0xbf), (0x80, 0xbf)]
  else if c = 0xf4 then some [(0x80, 0x8f), (0x80, 0xbf), (0x80, 0xbf)]
  else none

def InRange (b : UInt8) (r : UInt8 × UInt8) : Prop := r.1 ≤ b ∧ b ≤ r.2

instance (b : UInt8) (r : UInt8 × UInt8) : Decidable (InRange b r) :=
  inferInstanceAs (Decidable (_ ∧ _))

/-- A character of one byte that stands for itself. -/
def isPlain (c : UInt8) : Bool := 32 ≤ c ∧ c < 128 ∧ c ≠ 34 ∧ c ≠ 92

/-- What may follow a backslash, besides `u` and four digits. -/
def isEscape (c : UInt8) : Bool := c ∈ [34, 92, 47, 98, 102, 110, 114, 116]

def isHexDigit (c : UInt8) : Bool := (digitVal c).isSome

/-- A character of a string. -/
inductive Chr : List UInt8 → Prop
  | plain {c : UInt8} (h : isPlain c = true) : Chr [c]
  | escape {c : UInt8} (h : isEscape c = true) : Chr [92, c]
  | unicode {a b c d : UInt8} (ha : isHexDigit a = true) (hb : isHexDigit b = true)
    (hc : isHexDigit c = true) (hd : isHexDigit d = true) : Chr [92, 117, a, b, c, d]
  | several {c : UInt8} {rs : List (UInt8 × UInt8)} {bs : List UInt8} (hc : follow c = some rs)
    (hbs : List.Forall₂ InRange bs rs) : Chr (c :: bs)

/-- What may stand between the quotes of a string. -/
inductive Body : List UInt8 → Prop
  | nil : Body []
  | cons {c b : List UInt8} (hc : Chr c) (hb : Body b) : Body (c ++ b)

def Str (s : List UInt8) : Prop := ∃ b, Body b ∧ s = 34 :: (b ++ [34])

lemma Body.append {a b : List UInt8} (ha : Body a) (hb : Body b) : Body (a ++ b) := by
  induction ha with
  | nil => exact hb
  | cons hc _ ih =>
    rw [List.append_assoc]
    exact .cons hc ih

lemma Chr.body {c : List UInt8} (hc : Chr c) : Body c := by
  have h := Body.cons hc .nil
  rwa [List.append_nil] at h

lemma body_of_plain {b : List UInt8} (h : ∀ c ∈ b, isPlain c = true) : Body b := by
  induction b with
  | nil => exact .nil
  | cons c b ih =>
    exact .cons (.plain (h c List.mem_cons_self)) (ih fun d hd => h d (List.mem_cons_of_mem _ hd))

lemma str_of_plain {b : List UInt8} (h : ∀ c ∈ b, isPlain c = true) : Str (34 :: (b ++ [34])) :=
  ⟨b, body_of_plain h, rfl⟩

/-! ### Numbers -/

def SomeDigits (ds : List UInt8) : Prop := ds ≠ [] ∧ ∀ c ∈ ds, isDigit c = true

/-- The digits of a natural number, without a zero in front. -/
def Natural (ds : List UInt8) : Prop :=
  ds = [48] ∨ ∃ c t, ds = c :: t ∧ isDigit c = true ∧ c ≠ 48 ∧ ∀ d ∈ t, isDigit d = true

/-- An integer: a natural number, maybe with a minus. -/
def Integer (ds : List UInt8) : Prop := Natural ds ∨ ∃ n, ds = 45 :: n ∧ Natural n

def Fraction (f : List UInt8) : Prop := f = [] ∨ ∃ ds, f = 46 :: ds ∧ SomeDigits ds

def Exponent (e : List UInt8) : Prop :=
  e = [] ∨ ∃ c s ds, e = c :: (s ++ ds) ∧ (c = 101 ∨ c = 69) ∧ (s = [] ∨ s = [43] ∨ s = [45]) ∧
    SomeDigits ds

def Number (n : List UInt8) : Prop :=
  ∃ i f e, n = i ++ (f ++ e) ∧ Integer i ∧ Fraction f ∧ Exponent e

lemma Integer.number {n : List UInt8} (h : Integer n) : Number n :=
  ⟨n, [], [], by simp, h, Or.inl rfl, Or.inl rfl⟩

/-- **A printed number is a number of JSON.** -/
theorem natural_decimal (n : ℕ) : Natural (decimal n) := by
  have hchar : ∀ d < 10, d ≠ 0 → decimalChar d ≠ 48 := by decide
  unfold decimal digits
  split_ifs with hn
  · exact Or.inl rfl
  obtain ⟨d, ds, hds⟩ : ∃ d ds, (Nat.digits 10 n).reverse = d :: ds :=
    List.exists_cons_of_ne_nil (by simpa [Nat.digits_eq_nil_iff_eq_zero] using hn)
  have hall : ∀ c ∈ (d :: ds), c < 10 := by
    intro c hc
    rw [← hds, List.mem_reverse] at hc
    exact Nat.digits_lt_base (by omega) hc
  have hlast : d ≠ 0 := by
    have hdigits : Nat.digits 10 n = ds.reverse ++ [d] := by
      rw [← List.reverse_reverse (Nat.digits 10 n), hds, List.reverse_cons]
    have hget := Nat.getLast_digit_ne_zero 10 hn
    simpa [hdigits] using hget
  rw [hds]
  refine Or.inr ⟨decimalChar d, ds.map decimalChar, rfl,
    isDigit_decimalChar (hall d List.mem_cons_self), hchar d (hall d List.mem_cons_self) hlast, ?_⟩
  intro c hc
  obtain ⟨e, he, rfl⟩ := List.mem_map.mp hc
  exact isDigit_decimalChar (hall e (List.mem_cons_of_mem _ he))

lemma integer_decimal (n : ℕ) : Integer (decimal n) := Or.inl (natural_decimal n)

/-! ### Values -/

def isWs (c : UInt8) : Bool := c = 32 ∨ c = 9 ∨ c = 10 ∨ c = 13

def Ws (w : List UInt8) : Prop := ∀ c ∈ w, isWs c = true

instance (w : List UInt8) : Decidable (Ws w) := inferInstanceAs (Decidable (∀ c ∈ w, _))

lemma ws_nil : Ws [] := by simp [Ws]

/-- A text with white space around it. -/
structure Padded where
  before : List UInt8
  text : List UInt8
  after : List UInt8

def Padded.all (p : Padded) : List UInt8 := p.before ++ (p.text ++ p.after)

def Padded.Blank (p : Padded) : Prop := Ws p.before ∧ Ws p.after

/-- A text without white space around it. -/
def bare (text : List UInt8) : Padded := ⟨[], text, []⟩

lemma blank_bare (text : List UInt8) : (bare text).Blank := ⟨ws_nil, ws_nil⟩

@[simp] lemma bare_all (text : List UInt8) : (bare text).all = text := by simp [bare, Padded.all]

lemma map_bare_all (vs : List (List UInt8)) : (vs.map bare).map Padded.all = vs := by
  rw [List.map_map]
  exact (List.map_congr_left fun v _ => bare_all v).trans (List.map_id vs)

/-- A member of an object. -/
structure Member where
  key : Padded
  value : Padded

def Member.all (m : Member) : List UInt8 := m.key.all ++ 58 :: m.value.all

def Member.Blank (m : Member) : Prop := m.key.Blank ∧ m.value.Blank

/-- Some texts with commas between them. -/
def commas : List (List UInt8) → List UInt8
  | [] => []
  | [t] => t
  | t :: ts => t ++ 44 :: commas ts

/-- Each text before a given one is followed by a comma, and each text behind it follows one. -/
lemma commas_append (ts : List (List UInt8)) (u : List UInt8) (us : List (List UInt8)) :
    commas (ts ++ u :: us) = ts.flatMap (· ++ [44]) ++ (u ++ us.flatMap (44 :: ·)) := by
  induction ts with
  | nil =>
    rw [List.nil_append, List.flatMap_nil, List.nil_append]
    induction us generalizing u with
    | nil => simp [commas]
    | cons v us ih =>
      rw [commas, ih, List.flatMap_cons, List.cons_append]
      simp
  | cons t ts ih =>
    have hcommas : commas (t :: (ts ++ u :: us)) = t ++ 44 :: commas (ts ++ u :: us) := by
      cases ts <;> rfl
    rw [List.cons_append, hcommas, ih, List.flatMap_cons]
    simp

inductive Value : List UInt8 → Prop
  | null : Value [110, 117, 108, 108]
  | true : Value [116, 114, 117, 101]
  | false : Value [102, 97, 108, 115, 101]
  | number {n : List UInt8} (h : Number n) : Value n
  | string {s : List UInt8} (h : Str s) : Value s
  | emptyArray {w : List UInt8} (hw : Ws w) : Value (91 :: (w ++ [93]))
  | array {items : List Padded} (hne : items ≠ []) (hblank : ∀ i ∈ items, i.Blank)
    (hvalue : ∀ i ∈ items, Value i.text) : Value (91 :: (commas (items.map Padded.all) ++ [93]))
  | emptyObject {w : List UInt8} (hw : Ws w) : Value (123 :: (w ++ [125]))
  | object {members : List Member} (hne : members ≠ []) (hblank : ∀ m ∈ members, m.Blank)
    (hkey : ∀ m ∈ members, Str m.key.text) (hvalue : ∀ m ∈ members, Value m.value.text) :
    Value (123 :: (commas (members.map Member.all) ++ [125]))

/-- A text is valid: it is a value with white space around it. -/
def Valid (text : List UInt8) : Prop := ∃ p : Padded, p.Blank ∧ Value p.text ∧ text = p.all

lemma Value.valid {v : List UInt8} (h : Value v) : Valid v :=
  ⟨bare v, blank_bare v, h, (bare_all v).symm⟩

/-- An array of values without white space between them. -/
lemma value_array {vs : List (List UInt8)} (h : ∀ v ∈ vs, Value v) :
    Value (91 :: (commas vs ++ [93])) := by
  rcases eq_or_ne vs [] with rfl | hne
  · exact .emptyArray ws_nil
  rw [← map_bare_all vs]
  refine .array (by simpa using hne) ?_ ?_
  · intro i hi
    obtain ⟨v, -, rfl⟩ := List.mem_map.mp hi
    exact blank_bare v
  · intro i hi
    obtain ⟨v, hv, rfl⟩ := List.mem_map.mp hi
    exact h v hv

/-- An object without white space between its parts. -/
lemma value_object {kvs : List (List UInt8 × List UInt8)} (hkey : ∀ kv ∈ kvs, Str kv.1)
    (hvalue : ∀ kv ∈ kvs, Value kv.2) :
    Value (123 :: (commas (kvs.map fun kv => kv.1 ++ 58 :: kv.2) ++ [125])) := by
  rcases eq_or_ne kvs [] with rfl | hne
  · exact .emptyObject ws_nil
  have hall : (kvs.map fun kv => (⟨bare kv.1, bare kv.2⟩ : Member)).map Member.all =
      kvs.map fun kv => kv.1 ++ 58 :: kv.2 := by
    rw [List.map_map]
    exact List.map_congr_left fun kv _ => by simp [Member.all]
  rw [← hall]
  refine .object (by simpa using hne) ?_ ?_ ?_ <;> intro m hm <;>
    obtain ⟨kv, hkv, rfl⟩ := List.mem_map.mp hm
  · exact ⟨blank_bare _, blank_bare _⟩
  · exact hkey kv hkv
  · exact hvalue kv hkv

/-! ### No text has a NUL -/

lemma low_of_follow {c : UInt8} {rs : List (UInt8 × UInt8)} (h : follow c = some rs) :
    128 ≤ c ∧ ∀ r ∈ rs, 128 ≤ r.1 := by
  have hc : 128 ≤ c := by
    unfold follow at h
    split_ifs at h <;> simp_all only [UInt8.le_iff_toNat_le, ← UInt8.toNat_inj, not_and] <;>
      simp at * <;> omega
  refine ⟨hc, ?_⟩
  unfold follow at h
  split_ifs at h <;> cases h <;> decide

/-- A character of one byte is no part of a character of several bytes. -/
lemma notMem_several {d c : UInt8} {rs : List (UInt8 × UInt8)} {bs : List UInt8} (hd : d < 128)
    (hc : follow c = some rs) (hbs : List.Forall₂ InRange bs rs) : d ∉ c :: bs := by
  obtain ⟨hle, hall⟩ := low_of_follow hc
  have hge : ∀ {b : UInt8}, 128 ≤ b → d ≠ b := by
    rintro b hb rfl
    exact absurd hd (UInt8.not_lt.mpr hb)
  have hbs0 : d ∉ bs := by
    clear hc
    induction hbs with
    | nil => exact List.not_mem_nil
    | cons hb _ ih =>
      rw [List.mem_cons, not_or]
      exact ⟨hge (UInt8.le_trans (hall _ List.mem_cons_self) hb.1),
        ih fun r hr => hall r (List.mem_cons_of_mem _ hr)⟩
  rw [List.mem_cons, not_or]
  exact ⟨hge hle, hbs0⟩

lemma Chr.zero_notMem {c : List UInt8} (h : Chr c) : (0 : UInt8) ∉ c := by
  have hhex : ∀ {c : UInt8}, isHexDigit c = true → (0 : UInt8) ≠ c := by
    rintro c hc rfl
    cases hc
  cases h with
  | plain h =>
    rw [List.mem_singleton]
    rintro rfl
    cases h
  | escape h =>
    rw [List.mem_pair]
    rintro (h0 | rfl)
    · cases h0
    · cases h
  | unicode ha hb hc hd => simp [hhex ha, hhex hb, hhex hc, hhex hd]
  | several hc hbs => exact notMem_several (by decide) hc hbs

lemma Str.zero_notMem {s : List UInt8} (h : Str s) : (0 : UInt8) ∉ s := by
  obtain ⟨b, hb, rfl⟩ := h
  have hbody : (0 : UInt8) ∉ b := by
    induction hb with
    | nil => exact List.not_mem_nil
    | cons hc _ ih => simp [hc.zero_notMem, ih]
  simp [hbody]

/-- A number begins with a digit or a minus. -/
lemma Number.head {n : List UInt8} (h : Number n) :
    ∃ c t, n = c :: t ∧ (isDigit c = true ∨ c = 45) := by
  have hnat : ∀ {ds : List UInt8}, Natural ds → ∃ c t, ds = c :: t ∧ isDigit c = true := by
    rintro ds (rfl | ⟨c, t, rfl, hc, -⟩)
    · exact ⟨48, [], rfl, rfl⟩
    · exact ⟨c, t, rfl, hc⟩
  obtain ⟨i, f, e, rfl, hi | ⟨n, rfl, -⟩, -⟩ := h
  · obtain ⟨c, t, rfl, hc⟩ := hnat hi
    exact ⟨c, _, rfl, Or.inl hc⟩
  · exact ⟨45, _, rfl, Or.inr rfl⟩

/-- The characters of a number. -/
lemma Number.chars {n : List UInt8} (h : Number n) :
    ∀ c ∈ n, isDigit c = true ∨ c ∈ [43, 45, 46, 69, 101] := by
  have hnat : ∀ {ds : List UInt8}, Natural ds → ∀ c ∈ ds, isDigit c = true := by
    rintro ds (rfl | ⟨c, t, rfl, hc, -, ht⟩)
    · decide
    · exact List.forall_mem_cons.mpr ⟨hc, ht⟩
  obtain ⟨i, f, e, rfl, hi, hf, he⟩ := h
  intro c hc
  rcases List.mem_append.mp hc with hc | hc
  · rcases hi with hi | ⟨n, rfl, hi⟩
    · exact Or.inl (hnat hi c hc)
    · rcases List.mem_cons.mp hc with rfl | hc
      · decide
      · exact Or.inl (hnat hi c hc)
  rcases List.mem_append.mp hc with hc | hc
  · rcases hf with rfl | ⟨ds, rfl, -, hds⟩
    · cases hc
    · rcases List.mem_cons.mp hc with rfl | hc
      · decide
      · exact Or.inl (hds c hc)
  · rcases he with rfl | ⟨d, s, ds, rfl, hd, hs, -, hds⟩
    · cases hc
    · rcases List.mem_cons.mp hc with rfl | hc
      · rcases hd with rfl | rfl <;> decide
      rcases List.mem_append.mp hc with hc | hc
      · rcases hs with rfl | rfl | rfl
        · cases hc
        · rw [List.mem_singleton.mp hc]
          decide
        · rw [List.mem_singleton.mp hc]
          decide
      · exact Or.inl (hds c hc)

lemma Number.zero_notMem {n : List UInt8} (h : Number n) : (0 : UInt8) ∉ n :=
  fun h0 => absurd (h.chars 0 h0) (by decide)

lemma Ws.zero_notMem {w : List UInt8} (h : Ws w) : (0 : UInt8) ∉ w :=
  fun h0 => absurd (h 0 h0) (by decide)

lemma zero_notMem_commas {ts : List (List UInt8)} (h : ∀ t ∈ ts, (0 : UInt8) ∉ t) :
    (0 : UInt8) ∉ commas ts := by
  induction ts with
  | nil => exact List.not_mem_nil
  | cons t ts ih =>
    obtain ⟨ht, hts⟩ := List.forall_mem_cons.mp h
    cases ts with
    | nil => exact ht
    | cons u ts => simp [commas, ht, ih hts]

lemma Padded.zero_notMem {p : Padded} (hblank : p.Blank) (h : (0 : UInt8) ∉ p.text) :
    (0 : UInt8) ∉ p.all := by
  simp [Padded.all, hblank.1.zero_notMem, hblank.2.zero_notMem, h]

lemma Value.zero_notMem {v : List UInt8} (h : Value v) : (0 : UInt8) ∉ v := by
  induction h with
  | number hn => exact hn.zero_notMem
  | string hs => exact hs.zero_notMem
  | emptyArray hw | emptyObject hw => simp [hw.zero_notMem]
  | array _ hblank _ ih =>
    have hitems := zero_notMem_commas (List.forall_mem_map.mpr fun i hi =>
      Padded.zero_notMem (hblank i hi) (ih i hi))
    simp [hitems]
  | object _ hblank hkey _ ih =>
    have hmembers := zero_notMem_commas (List.forall_mem_map.mpr fun m hm => by
      have hk := Padded.zero_notMem (hblank m hm).1 (hkey m hm).zero_notMem
      have hv := Padded.zero_notMem (hblank m hm).2 (ih m hm)
      show (0 : UInt8) ∉ m.all
      simp [Member.all, hk, hv])
    simp [hmembers]
  | _ => decide

/-! ### Objects -/

/-- An object that has members, as it is written: with the white space around it. -/
structure Object where
  before : List UInt8
  members : List Member
  after : List UInt8
  nonempty : members ≠ []
  outer : Ws before ∧ Ws after
  blank : ∀ m ∈ members, m.Blank
  key : ∀ m ∈ members, Str m.key.text
  value : ∀ m ∈ members, Value m.value.text

def Object.text (o : Object) : List UInt8 :=
  o.before ++ (123 :: (commas (o.members.map Member.all) ++ [125]) ++ o.after)

lemma Object.valid (o : Object) : Valid o.text :=
  ⟨⟨o.before, _, o.after⟩, o.outer, .object o.nonempty o.blank o.key o.value, rfl⟩

/-- What stands before the key of a member. -/
def Object.front (o : Object) (earlier : List Member) (m : Member) : List UInt8 :=
  o.before ++ 123 :: ((earlier.map Member.all).flatMap (· ++ [44]) ++ m.key.before)

/-- The text of an object is a C string. -/
lemma Object.zero_notMem (o : Object) : (0 : UInt8) ∉ o.text := by
  obtain ⟨p, hblank, hvalue, htext⟩ := o.valid
  rw [htext]
  exact Padded.zero_notMem hblank hvalue.zero_notMem

/-- White space, a comma or the end of the object follows a value. -/
lemma Object.text_eq (o : Object) {earlier later : List Member} {m : Member}
    (hm : o.members = earlier ++ m :: later) :
    ∃ c rest, (isWs c = true ∨ c = 44 ∨ c = 125) ∧ o.text = o.front earlier m ++
      (m.key.text ++ (m.key.after ++ 58 :: (m.value.before ++ (m.value.text ++ c :: rest)))) := by
  have hblank : m.Blank := o.blank m (by simp [hm])
  obtain ⟨c, rest, hc, hrest⟩ : ∃ c rest, (isWs c = true ∨ c = 44 ∨ c = 125) ∧
      m.value.after ++ ((later.map Member.all).flatMap (44 :: ·) ++ 125 :: o.after) =
        c :: rest := by
    rcases hafter : m.value.after with _ | ⟨c, w⟩
    · rcases later with _ | ⟨n, later⟩
      · exact ⟨125, _, by simp, rfl⟩
      · exact ⟨44, _, by simp, rfl⟩
    · refine ⟨c, _, Or.inl (hblank.2.2 c ?_), rfl⟩
      rw [hafter]
      exact List.mem_cons_self
  refine ⟨c, rest, hc, ?_⟩
  unfold Object.text Object.front
  rw [← hrest, hm, List.map_append, List.map_cons, commas_append]
  simp [Member.all, Padded.all]

/-- A brace, a comma or white space comes before a key. -/
lemma Object.front_eq (o : Object) {earlier : List Member} {m : Member} (hm : m.Blank) :
    ∃ f c, (isWs c = true ∨ c = 44 ∨ c = 123) ∧ o.front earlier m = f ++ [c] := by
  unfold Object.front
  rcases List.eq_nil_or_concat m.key.before with hb | ⟨w, c, hb⟩
  · rcases List.eq_nil_or_concat earlier with rfl | ⟨es, e, rfl⟩
    · exact ⟨o.before, 123, by simp, by simp [hb]⟩
    · refine ⟨o.before ++ 123 :: ((es.map Member.all).flatMap (· ++ [44]) ++ e.all), 44,
        by simp, ?_⟩
      simp [hb]
  · refine ⟨o.before ++ 123 :: ((earlier.map Member.all).flatMap (· ++ [44]) ++ w), c,
      Or.inl (hm.1.1 c (by simp [hb])), by simp [hb]⟩

end EvmDb.JsonText
