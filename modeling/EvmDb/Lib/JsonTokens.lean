import EvmDb.Lib.JsonScan

/-!
What the machine has read of a string without quotes, or of an integer.

A text that goes on behind such a token in a certain way can only be valid if the token is one.
-/

namespace EvmDb.JsonTokens

open EvmDb.Digits EvmDb.JsonText EvmDb.JsonScan

/-! ### Strings -/

/-- What has been read of a string. -/
inductive Reads : InString → List UInt8 → Prop
  | plain {b : List UInt8} (hb : Body b) : Reads .plain b
  | escape {b : List UInt8} (hb : Body b) : Reads .escape (b ++ [92])
  | hex {b hs : List UInt8} {more : ℕ} (hb : Body b) (hlen : hs.length + more = 3)
    (hhs : ∀ c ∈ hs, isHexDigit c = true) : Reads (.hex more) (b ++ 92 :: 117 :: hs)
  | several {b bs : List UInt8} {c : UInt8} {rs₀ rs : List (UInt8 × UInt8)} {r : UInt8 × UInt8}
    (hb : Body b) (hc : follow c = some (rs₀ ++ r :: rs)) (hbs : List.Forall₂ InRange bs rs₀) :
    Reads (.several r rs) (b ++ c :: bs)

/-- One more byte of a string. -/
lemma Reads.next {m m' : InString} {b : List UInt8} {c : UInt8} (h : Reads m b)
    (hnext : m.next c = some m') : Reads m' (b ++ [c]) := by
  cases h with
  | plain hb =>
    simp only [InString.next] at hnext
    split_ifs at hnext with hplain hback
    · cases hnext
      exact .plain (hb.append (Chr.plain hplain).body)
    · cases hnext
      rw [hback]
      exact .escape hb
    · obtain ⟨rs, hrs, rfl⟩ := Option.map_eq_some_iff.mp hnext
      cases rs with
      | nil => exact .plain (hb.append (Chr.several hrs .nil).body)
      | cons r rs => exact .several hb (show follow c = some ([] ++ r :: rs) from hrs) .nil
  | @escape b hb =>
    simp only [InString.next] at hnext
    split_ifs at hnext with hesc hu
    · cases hnext
      rw [List.append_assoc]
      exact .plain (hb.append (Chr.escape hesc).body)
    · cases hnext
      rw [hu, List.append_assoc]
      exact .hex hb rfl (by simp)
  | @hex b hs more hb hlen hhs =>
    simp only [InString.next] at hnext
    have hhs' : isHexDigit c = true → ∀ d ∈ hs ++ [c], isHexDigit d = true := by
      intro hhex d hd
      rcases List.mem_append.mp hd with hd | hd
      · exact hhs d hd
      · rw [List.mem_singleton.mp hd]
        exact hhex
    rw [List.append_assoc]
    split_ifs at hnext with hhex hmore
    · cases hnext
      obtain ⟨x, y, z, rfl⟩ := List.length_eq_three.mp (show hs.length = 3 by omega)
      obtain ⟨hx, hy, hz, -⟩ : isHexDigit x = true ∧ isHexDigit y = true ∧ isHexDigit z = true ∧
        isHexDigit c = true := by simpa using hhs' hhex
      exact .plain (hb.append (Chr.unicode hx hy hz hhex).body)
    · cases hnext
      have hlen' : (hs ++ [c]).length + (more - 1) = 3 := by
        rw [List.length_append, List.length_singleton]
        omega
      exact .hex hb hlen' (hhs' hhex)
  | @several b bs d rs₀ rs r hb hd hbs =>
    simp only [InString.next] at hnext
    split_ifs at hnext with hr
    cases hnext
    rw [List.append_assoc]
    have hbs' : List.Forall₂ InRange (bs ++ [c]) (rs₀ ++ [r]) :=
      List.rel_append hbs (.cons hr .nil)
    cases rs with
    | nil => exact .plain (hb.append (Chr.several hd hbs').body)
    | cons r' rs =>
      have hd' : follow d = some ((rs₀ ++ [r]) ++ r' :: rs) := by
        rw [hd, List.append_assoc]
        rfl
      exact .several hb hd' hbs'

/-- Inside a string, quotes apart, the machine does not leave it. -/
lemma reads_of_scan {stk : List Frame} {isKey : Bool} {b t : List UInt8} (hb : 34 ∉ b)
    (h : scan (.string isKey .plain, stk) (b ++ t) ≠ none) :
    ∃ m, Reads m b ∧ scan (.string isKey .plain, stk) (b ++ t) = scan (.string isKey m, stk) t := by
  induction b using List.reverseRecOn generalizing t with
  | nil => exact ⟨.plain, .plain .nil, rfl⟩
  | append_singleton b c ih =>
    rw [List.append_assoc] at h ⊢
    obtain ⟨m, hm, hscan⟩ := ih (fun hq => hb (List.mem_append_left _ hq)) h
    have hc : c ≠ 34 := fun hc => hb (List.mem_append_right _ (List.mem_singleton.mpr hc.symm))
    rw [hscan]
    rw [hscan] at h
    cases hnext : m.next c with
    | none =>
      have hnone : scan (.string isKey m, stk) ([c] ++ t) = none := by
        have hstep : step (.string isKey m, stk) c = none := by
          simp [step, hc, hnext]
        rw [List.singleton_append, scan_cons, hstep]
        rfl
      exact absurd hnone h
    | some m' => exact ⟨m', hm.next hnext, scan_string_cons hnext (fun _ => hc) t⟩

/-- A string that is followed by a comma and a quote, and these by neither white space nor a
closing bracket or another comma. -/
lemma body_of_scan {below : List Frame} {b t : List UInt8} {c : UInt8} (hb : 34 ∉ b)
    (hc : endValue (.object :: below) c = none)
    (h : scan (.value, .object :: below) (34 :: (b ++ 34 :: 44 :: 34 :: c :: t)) ≠ none) :
    Body b := by
  obtain ⟨m, hm, hscan⟩ := reads_of_scan hb h
  have hopen : scan (.value, .object :: below) (34 :: (b ++ 34 :: 44 :: 34 :: c :: t)) =
      scan (.string false m, .object :: below) (34 :: 44 :: 34 :: c :: t) := hscan
  rw [hopen] at h
  cases hm with
  | plain hb => exact hb
  | escape =>
    -- the quote is taken for an escaped one, and the next quote ends the string
    have hcomma : InString.plain.next 44 = some .plain := by decide
    refine absurd ?_ h
    rw [scan_string_cons (show InString.escape.next 34 = some .plain from rfl) nofun,
      scan_string_cons hcomma (by decide)]
    show (endValue (.object :: below) c).bind _ = none
    rw [hc]
    rfl
  | hex => exact absurd rfl h
  | @several _ _ d rs₀ rs r _ hd =>
    refine absurd ?_ h
    have hr : ¬ InRange 34 r := by
      intro hr
      exact absurd (UInt8.le_trans ((low_of_follow hd).2 r (by simp)) hr.1) (by decide)
    have hnext : (InString.several r rs).next 34 = none := if_neg hr
    have hstep : step (.string false (.several r rs), .object :: below) 34 = none := by
      simp [step, hnext]
    rw [scan_cons, hstep]
    rfl

/-! ### Integers -/

/-- A digit or a minus. -/
def isIntegerChar (c : UInt8) : Bool := isDigit c ∨ c = 45

variable {stk : List Frame}

/-- Behind a zero, or behind other digits, only a digit could follow. -/
lemma step_number {m : InNumber} (hm : m = .zero ∨ m = .int) {c : UInt8}
    (hc : isIntegerChar c = true) (hdigit : m = .zero ∨ isDigit c = false) :
    step (.number m, stk) c = none := by
  have hc' : isDigit c = true ∨ c = 45 := by simpa [isIntegerChar] using hc
  have hend : endValue stk c = none := by
    have hne : isWs c = false ∧ c ≠ 44 ∧ c ≠ 93 ∧ c ≠ 125 := by
      refine ⟨?_, ?_, ?_, ?_⟩
      · rcases hc' with hd | rfl
        · exact isWs_digit hd
        · rfl
      all_goals
        rintro rfl
        cases hc
    rcases stk with _ | ⟨_ | _, stk⟩ <;> simp [endValue, hne]
  have hnext : m.next c = none := by
    have hne : c ≠ 46 ∧ c ≠ 101 ∧ c ≠ 69 := by
      refine ⟨?_, ?_, ?_⟩ <;>
        · rintro rfl
          cases hc
    rcases hm with rfl | rfl
    · simp [InNumber.next, InNumber.nextExp, hne]
    · simp [InNumber.next, InNumber.nextExp, hne, hdigit.resolve_left (by simp)]
  simp [step, hnext, hend]

lemma digits_of_scan {ds t : List UInt8} (hds : ∀ c ∈ ds, isIntegerChar c = true)
    (h : scan (.number .int, stk) (ds ++ t) ≠ none) : ∀ c ∈ ds, isDigit c = true := by
  induction ds with
  | nil => simp
  | cons c ds ih =>
    obtain ⟨hc, hds⟩ := List.forall_mem_cons.mp hds
    cases hdigit : isDigit c with
    | false =>
      refine absurd ?_ h
      rw [List.cons_append, scan_cons, step_number (Or.inr rfl) hc (Or.inr hdigit)]
      rfl
    | true =>
      rw [List.cons_append, scan_number_cons (next_digit hdigit).1] at h
      exact List.forall_mem_cons.mpr ⟨hdigit, ih hds h⟩

/-- The digits of a natural number, from where a minus has been read or is left out. -/
lemma natural_of_scan {st : State} (hzero : step st 48 = some (.number .zero, stk))
    (hint : ∀ c, isDigit c = true → c ≠ 48 → step st c = some (.number .int, stk))
    (hcomma : step st 44 = none) {n t : List UInt8} (hn : ∀ c ∈ n, isIntegerChar c = true)
    (hminus : n.head? ≠ some 45) (h : scan st (n ++ 44 :: t) ≠ none) : Natural n := by
  cases n with
  | nil =>
    refine absurd ?_ h
    rw [List.nil_append, scan_cons, hcomma]
    rfl
  | cons c ds =>
    obtain ⟨hc, hds⟩ := List.forall_mem_cons.mp hn
    have hdigit : isDigit c = true := by
      have hne : c ≠ 45 := fun hc => hminus (by rw [hc]; rfl)
      simpa [isIntegerChar, hne] using hc
    rcases eq_or_ne c 48 with rfl | hne
    · cases ds with
      | nil => exact Or.inl rfl
      | cons d ds =>
        refine absurd ?_ h
        rw [List.cons_append, scan_cons_of hzero, List.cons_append, scan_cons,
          step_number (Or.inl rfl) (hds d List.mem_cons_self) (Or.inl rfl)]
        rfl
    · rw [List.cons_append, scan_cons_of (hint c hdigit hne)] at h
      exact Or.inr ⟨c, ds, rfl, hdigit, hne, digits_of_scan hds h⟩

/-- A sequence of digits and minuses that is followed by a comma. -/
lemma integer_of_scan {n t : List UInt8} (hn : ∀ c ∈ n, isIntegerChar c = true)
    (h : scan (.value, stk) (n ++ 44 :: t) ≠ none) : Integer n := by
  by_cases hminus : n.head? = some 45
  · obtain ⟨n, rfl⟩ : ∃ u, n = 45 :: u := ⟨n.tail, (List.cons_head?_tail hminus).symm⟩
    have hstep : step (.value, stk) 45 = some (.number .minus, stk) := rfl
    rw [List.cons_append, scan_cons_of hstep] at h
    refine Or.inr ⟨n, rfl, natural_of_scan rfl (fun c hd hne => minus_digit hd hne) rfl
      (fun c hc => hn c (List.mem_cons_of_mem _ hc)) (fun hhead => h ?_) h⟩
    -- no second minus
    obtain ⟨u, rfl⟩ : ∃ u, n = 45 :: u := ⟨n.tail, (List.cons_head?_tail hhead).symm⟩
    rfl
  · exact Or.inl (natural_of_scan rfl (fun c hd hne => startValue_digit hd hne) rfl hn hminus h)

end EvmDb.JsonTokens
