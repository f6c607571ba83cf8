import Mathlib.Logic.Basic

/-!
Machines that answer inputs, and what a run has from its steps.

A machine takes an input in a state, and gives an output and the next state. One machine refines
another one under a view of its states, if its outputs are what is seen of the other one's outputs,
and the views go along.
-/

namespace EvmDb.Machines

variable {I O P σ τ α : Type}

abbrev Machine (I O σ : Type) := I → σ → O × σ

/-- The outputs of a run, and the state it ends in. -/
def run (m : Machine I O σ) : List I → σ → List O × σ
  | [], s => ([], s)
  | i :: is, s => ((m i s).1 :: (run m is (m i s).2).1, (run m is (m i s).2).2)

variable {m : Machine I O σ}

@[simp] lemma run_nil (s : σ) : run m [] s = ([], s) := rfl

lemma run_cons (i : I) (is : List I) (s : σ) :
    run m (i :: is) s = ((m i s).1 :: (run m is (m i s).2).1, (run m is (m i s).2).2) := rfl

/-! ### Runs -/

/-- What holds between the ends of each step and what it gives holds between the ends of a run, if
it can be put together. -/
theorem run_rel {E : σ → List α → σ → Prop} {g : I → O → List α} (hnil : ∀ s, E s [] s)
    (happend : ∀ s t u xs ys, E s xs t → E t ys u → E s (xs ++ ys) u)
    (h : ∀ i s, E s (g i (m i s).1) (m i s).2) (is : List I) (s : σ) :
    E s ((is.zip (run m is s).1).flatMap fun x => g x.1 x.2) (run m is s).2 := by
  induction is generalizing s with
  | nil => exact hnil s
  | cons i is ih => exact happend _ _ _ _ _ (h i s) (ih (m i s).2)

lemma run_append (is js : List I) (s : σ) :
    run m (is ++ js) s =
      ((run m is s).1 ++ (run m js (run m is s).2).1, (run m js (run m is s).2).2) := by
  induction is generalizing s with
  | nil => rfl
  | cons i is ih => rw [List.cons_append, run_cons, ih, run_cons, List.cons_append]

/-- Inputs that are translated first. -/
lemma run_map {J : Type} (f : J → I) (js : List J) (s : σ) :
    run (fun j => m (f j)) js s = run m (js.map f) s := by
  induction js generalizing s with
  | nil => rfl
  | cons j js ih => rw [List.map_cons, run_cons, run_cons, ih]

/-! ### Refinement -/

/-- The output is what is seen of the other machine's output, and the view of the next state is the
next state of the view. -/
def Refines (m : Machine I O σ) (m' : Machine I P τ) (seen : P → O) (view : σ → τ) : Prop :=
  ∀ i s, (m i s).1 = seen (m' i (view s)).1 ∧ view (m i s).2 = (m' i (view s)).2

/-- **A refinement of steps is a refinement of runs.** -/
theorem Refines.run {m' : Machine I P τ} {seen : P → O} {view : σ → τ}
    (h : Refines m m' seen view) (is : List I) (s : σ) :
    (run m is s).1 = (Machines.run m' is (view s)).1.map seen ∧
      view (Machines.run m is s).2 = (Machines.run m' is (view s)).2 := by
  induction is generalizing s with
  | nil => exact ⟨rfl, rfl⟩
  | cons i is ih =>
    obtain ⟨hout, hview⟩ := h i s
    obtain ⟨houts, hend⟩ := ih (m i s).2
    rw [hview] at houts hend
    rw [run_cons, run_cons, hout, houts, hend]
    exact ⟨rfl, rfl⟩

end EvmDb.Machines
