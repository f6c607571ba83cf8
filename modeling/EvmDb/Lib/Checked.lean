import Mathlib.Data.List.Basic
import Mathlib.Data.Nat.Basic

/-!
Routines that read a buffer through bare indices.

Such a routine succeeds, rejects its input, or reads outside the buffer; the last outcome
records the index and stops the routine, since what it would do next is undefined.
-/

namespace EvmDb.Checked

/-- The outcome of a routine that reads a buffer. -/
inductive Read (α : Type)
  | ok (a : α)
  | reject
  | outside (i : ℕ)
  deriving DecidableEq

namespace Read

variable {α β : Type}

protected def bind : Read α → (α → Read β) → Read β
  | ok a, f => f a
  | reject, _ => reject
  | outside i, _ => outside i

instance : Monad Read where
  pure := ok
  bind := Read.bind

@[simp] lemma pure_eq (a : α) : (pure a : Read α) = ok a := rfl
@[simp] lemma ok_bind (a : α) (f : α → Read β) : (ok a >>= f) = f a := rfl
@[simp] lemma reject_bind (f : α → Read β) : ((reject : Read α) >>= f) = reject := rfl
@[simp] lemma outside_bind (i : ℕ) (f : α → Read β) :
    ((outside i : Read α) >>= f) = outside i := rfl

instance : LawfulMonad Read :=
  LawfulMonad.mk' Read (fun x => by cases x <;> rfl) (fun _ _ => rfl)
    (fun x _ _ => by cases x <;> rfl)

lemma bind_eq_ok {x : Read α} {f : α → Read β} {b : β} :
    (x >>= f) = ok b ↔ ∃ a, x = ok a ∧ f a = ok b := by
  cases x <;> simp

/-- Results that are all there are collected. -/
lemma mapM_eq_ok {xs : List (Read α)} {as : List α} : xs.mapM id = ok as ↔ xs = as.map ok := by
  induction xs generalizing as with
  | nil => cases as <;> simp
  | cons x xs ih =>
    simp only [List.mapM_cons, id_eq, bind_eq_ok, ih, pure_eq, ok.injEq]
    constructor
    · rintro ⟨a, rfl, as, rfl, rfl⟩
      rfl
    · intro h
      obtain ⟨a, as, rfl, rfl, rfl⟩ := List.map_eq_cons_iff.mp h.symm
      exact ⟨a, rfl, as, rfl, rfl⟩

/-- Every index read lies inside the buffer. -/
def Inside (x : Read α) : Prop := ∀ i, x ≠ outside i

@[simp] lemma inside_ok (a : α) : Inside (ok a) := by simp [Inside]
@[simp] lemma inside_reject : Inside (reject : Read α) := by simp [Inside]
@[simp] lemma not_inside_outside (i : ℕ) : ¬ Inside (outside i : Read α) := by simp [Inside]

lemma inside_bind {x : Read α} {f : α → Read β} :
    Inside (x >>= f) ↔ Inside x ∧ ∀ a, x = ok a → Inside (f a) := by
  cases x <;> simp

/-- What is returned satisfies the postcondition. -/
def Gives (post : α → Prop) (x : Read α) : Prop := ∀ a, x = ok a → post a

@[simp] lemma gives_ok {post : α → Prop} {a : α} : Gives post (ok a) ↔ post a := by
  simp [Gives]

lemma Gives.bind {m : α → Prop} {post : β → Prop} {x : Read α} {f : α → Read β}
    (hx : Gives m x) (hf : ∀ a, m a → Gives post (f a)) : Gives post (x >>= f) := by
  intro b hb
  obtain ⟨a, ha, hfa⟩ := bind_eq_ok.mp hb
  exact hf a (hx a ha) b hfa

/-- A step about which nothing has to be known. -/
lemma gives_bind {post : β → Prop} {x : Read α} {f : α → Read β} (hf : ∀ a, Gives post (f a)) :
    Gives post (x >>= f) :=
  Gives.bind (fun _ h => h) fun a _ => hf a

end Read

open Read

/-- One byte of the buffer. -/
def byteAt (raw : List UInt8) (i : ℕ) : Read UInt8 :=
  match raw[i]? with
  | some b => .ok b
  | none => .outside i

/-- `k` bytes of the buffer, from index `i` on. -/
def bytesAt (raw : List UInt8) (i : ℕ) : ℕ → Read (List UInt8)
  | 0 => .ok []
  | k + 1 => do
    let b ← byteAt raw i
    let bs ← bytesAt raw (i + 1) k
    return b :: bs

lemma byteAt_of_lt {raw : List UInt8} {i : ℕ} (h : i < raw.length) :
    byteAt raw i = .ok raw[i] := by
  simp [byteAt, h]

lemma byteAt_of_le {raw : List UInt8} {i : ℕ} (h : raw.length ≤ i) :
    byteAt raw i = .outside i := by
  simp [byteAt, h]

lemma bytesAt_of_le {raw : List UInt8} {i k : ℕ} (h : i + k ≤ raw.length) :
    bytesAt raw i k = .ok ((raw.drop i).take k) := by
  induction k generalizing i with
  | zero => simp [bytesAt]
  | succ k ih =>
    rw [bytesAt, byteAt_of_lt (by omega), ok_bind, ih (by omega), ok_bind, pure_eq,
      ← List.take_succ_cons, List.getElem_cons_drop]

/-- Bytes are read inside the buffer exactly when they lie in it. -/
lemma inside_bytesAt {raw : List UInt8} {i k : ℕ} :
    Inside (bytesAt raw i k) ↔ k = 0 ∨ i + k ≤ raw.length := by
  induction k generalizing i with
  | zero => simp [bytesAt]
  | succ k ih =>
    rw [bytesAt]
    by_cases h : i < raw.length
    · rw [byteAt_of_lt h, ok_bind, inside_bind, ih]
      simp only [pure_eq, inside_ok, implies_true, and_true]
      omega
    · rw [byteAt_of_le (by omega), outside_bind]
      simp only [not_inside_outside, false_iff]
      omega

end EvmDb.Checked
