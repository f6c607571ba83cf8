import EvmDb.Lib.Radix
import Mathlib.Tactic.LinearCombination

/-!
Arithmetic on byte strings, byte by byte.

A step combines two bytes and a state, the carry or the borrow, into a byte and the next state.
It ripples through two byte strings from their last bytes to their first ones. What a step says
about the digits, the whole says about the values.
-/

namespace EvmDb.Ripple

open EvmDb.Radix

variable {σ : Type} (step : σ → UInt8 → UInt8 → σ × UInt8)

/-- The step, from the last bytes to the first ones. -/
def ripple (s : σ) : List UInt8 → List UInt8 → σ × List UInt8
  | a :: as, b :: bs =>
    let (s', ds) := ripple s as bs
    let (s'', d) := step s' a b
    (s'', d :: ds)
  | _, _ => (s, [])

@[simp] lemma ripple_nil (s : σ) : ripple step s [] [] = (s, []) := rfl

lemma ripple_cons (s : σ) (a b : UInt8) (as bs : List UInt8) :
    ripple step s (a :: as) (b :: bs) =
      ((step (ripple step s as bs).1 a b).1,
        (step (ripple step s as bs).1 a b).2 :: (ripple step s as bs).2) := rfl

/-- The last bytes are combined first. -/
lemma ripple_snoc (s : σ) {as bs : List UInt8} (h : as.length = bs.length) (a b : UInt8) :
    ripple step s (as ++ [a]) (bs ++ [b]) =
      ((ripple step (step s a b).1 as bs).1,
        (ripple step (step s a b).1 as bs).2 ++ [(step s a b).2]) := by
  induction as generalizing bs with
  | nil =>
    have hbs : bs = [] := List.length_eq_zero_iff.mp h.symm
    subst hbs
    rfl
  | cons a' as ih =>
    obtain ⟨b', bs, rfl⟩ := List.exists_cons_of_length_eq_add_one h.symm
    rw [List.cons_append, List.cons_append, ripple_cons, ripple_cons, ih (by simpa using h)]
    rfl

lemma length_ripple (s : σ) {as bs : List UInt8} (h : as.length = bs.length) :
    (ripple step s as bs).2.length = as.length := by
  induction as generalizing bs with
  | nil =>
    have hbs : bs = [] := List.length_eq_zero_iff.mp h.symm
    subst hbs
    rfl
  | cons a as ih =>
    obtain ⟨b, bs, rfl⟩ := List.exists_cons_of_length_eq_add_one h.symm
    rw [ripple_cons, List.length_cons, List.length_cons, ih (by simpa using h)]

variable (weight : σ → ℤ) (sign : ℤ) (good : σ → Prop)

/-- A step keeps the state good, and it is right about digits: the byte it writes and what the
next state stands for make up the combination of the two bytes and of the state. -/
structure DigitLaw : Prop where
  keeps : ∀ {s}, good s → ∀ a b, good (step s a b).1
  digit : ∀ {s}, good s → ∀ a b,
    ((step s a b).2.toNat : ℤ) + 256 * weight (step s a b).1 = a.toNat + sign * b.toNat + weight s

namespace DigitLaw

variable {step weight sign good}

lemma good_ripple (law : DigitLaw step weight sign good) {s : σ} (hs : good s)
    (as bs : List UInt8) : good (ripple step s as bs).1 := by
  induction as generalizing bs with
  | nil => exact hs
  | cons a as ih =>
    cases bs with
    | nil => exact hs
    | cons b bs => exact law.keeps (ih bs) a b

/-- **A step that is right about digits ripples to what is right about values.** -/
theorem value_ripple (law : DigitLaw step weight sign good) {s : σ} (hs : good s)
    {as bs : List UInt8} (h : as.length = bs.length) :
    (value (ripple step s as bs).2 : ℤ) + 256 ^ as.length * weight (ripple step s as bs).1 =
      value as + sign * value bs + weight s := by
  induction as generalizing bs with
  | nil =>
    have hbs : bs = [] := List.length_eq_zero_iff.mp h.symm
    subst hbs
    simp
  | cons a as ih =>
    obtain ⟨b, bs, rfl⟩ := List.exists_cons_of_length_eq_add_one h.symm
    have hlen : as.length = bs.length := by simpa using h
    have hdigit := law.digit (law.good_ripple hs as bs) a b
    have htail := ih hlen
    rw [ripple_cons, value_cons, value_cons, value_cons, length_ripple step s hlen, ← hlen,
      List.length_cons]
    push_cast
    linear_combination 256 ^ as.length * hdigit + htail

end DigitLaw

end EvmDb.Ripple
