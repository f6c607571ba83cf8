import Mathlib.Order.Lattice
import Mathlib.Data.List.ReduceOption
import Mathlib.Data.List.Nodup
import Mathlib.Data.List.Range

/-!
Counters that number the actions of their owners.

An action uses up the current value of its owner's counter and moves the counter on. Then no
value is used twice, however the actions of the owners follow each other.
-/

namespace EvmDb.Counters

variable {A N : Type} [DecidableEq A] [LinearOrder N]

/-- A step leaves the counters alone, or uses up the current value of one of them. -/
inductive Step (s : A → N) : Option (A × N) → (A → N) → Prop
  | idle : Step s none s
  | use (a : A) (n : N) (h : s a < n) : Step s (some (a, s a)) (Function.update s a n)

/-- Steps after each other, with what each has used up. -/
inductive Run : (A → N) → List (Option (A × N)) → (A → N) → Prop
  | nil (s : A → N) : Run s [] s
  | cons {s t u : A → N} {l : Option (A × N)} {ls : List (Option (A × N))} (h : Step s l t)
    (hs : Run t ls u) : Run s (l :: ls) u

variable {s t : A → N} {l : Option (A × N)} {ls : List (Option (A × N))}

lemma Step.mono (h : Step s l t) : s ≤ t := by
  cases h with
  | idle => exact le_rfl
  | use a n h => exact le_update_self_iff.mpr h.le

lemma Step.used {a : A} {n : N} (h : Step s (some (a, n)) t) : n = s a ∧ n < t a := by
  cases h with
  | use a n h => exact ⟨rfl, by rw [Function.update_self]; exact h⟩

/-- **A counter never goes back.** -/
theorem Run.mono (h : Run s ls t) : s ≤ t := by
  induction h with
  | nil s => exact le_rfl
  | cons h hs ih => exact h.mono.trans ih

lemma Run.snoc {u : A → N} (h : Run s ls t) (hstep : Step t l u) : Run s (ls ++ [l]) u := by
  induction h with
  | nil s => exact .cons hstep (.nil u)
  | cons h hs ih => exact .cons h (ih hstep)

/-- What is used lies between the counter's values before and after. -/
lemma Run.between (h : Run s ls t) {a : A} {n : N} (hl : some (a, n) ∈ ls) :
    s a ≤ n ∧ n < t a := by
  induction h with
  | nil s => cases hl
  | cons h hs ih =>
    rcases List.mem_cons.mp hl with rfl | hl
    · obtain ⟨rfl, hlt⟩ := h.used
      exact ⟨le_rfl, hlt.trans_le (hs.mono a)⟩
    · exact ⟨(h.mono a).trans (ih hl).1, (ih hl).2⟩

/-- **No value of a counter is used twice.** -/
theorem Run.nodup (h : Run s ls t) : ls.reduceOption.Nodup := by
  induction h with
  | nil s => exact List.nodup_nil
  | @cons s t u l ls h hs ih =>
    rcases l with _ | ⟨a, n⟩
    · rw [List.reduceOption_cons_of_none]
      exact ih
    · rw [List.reduceOption_cons_of_some, List.nodup_cons]
      refine ⟨fun hmem => ?_, ih⟩
      have hle := (hs.between (List.reduceOption_mem_iff.mp hmem)).1
      exact absurd hle (not_le.mpr h.used.2)

/-! ### A counter that is read, and written later -/

/-- The numbers written to a counter that counts modulo `m` and starts from `b`: each is the
successor of a number that was there before. -/
inductive Grown (m b : ℕ) : List ℕ → Prop
  | nil : Grown m b []
  | snoc {ws : List ℕ} (h : Grown m b ws) {r : ℕ} (hr : r ∈ b :: ws) :
    Grown m b (ws ++ [(r + 1) % m])

/-- What is there when `k` numbers have been written in a row. -/
lemma getLastD_range' (b k : ℕ) : (List.range' (b + 1) k).getLastD b = b + k := by
  rcases k with _ | k
  · rfl
  · rw [List.range'_concat, List.getLastD_concat]
    omega

/-- One more number continues the row exactly when it is the successor of the last. -/
lemma snoc_range' {m b k r : ℕ} (hr : r ∈ b :: List.range' (b + 1) k) (hm : r < m) :
    List.range' (b + 1) k ++ [(r + 1) % m] = List.range' (b + 1) (k + 1) ↔
      r = b + k ∧ r + 1 < m := by
  have hle : r ≤ b + k := by
    rcases List.mem_cons.mp hr with rfl | hr
    · exact Nat.le_add_right _ _
    · have := List.mem_range'_1.mp hr
      omega
  rw [List.range'_concat, List.append_cancel_left_eq, List.cons_eq_cons]
  simp only [and_true]
  rcases Nat.lt_or_ge (r + 1) m with hlt | hge
  · rw [Nat.mod_eq_of_lt hlt]
    omega
  · rw [show r + 1 = m by omega, Nat.mod_self]
    omega

/-- **Numbers that are all different have been written in a row.** -/
theorem Grown.eq_range' {m b : ℕ} {ws : List ℕ} (h : Grown m b ws) (hb : b < m)
    (hws : ∀ w ∈ ws, w < m) (hnd : ws.Nodup) (hpos : 0 ∉ ws) :
    ws = List.range' (b + 1) ws.length := by
  induction h with
  | nil => rfl
  | @snoc ws h r hr ih =>
    rw [List.forall_mem_append] at hws
    rw [List.nodup_append] at hnd
    rw [List.mem_append, not_or] at hpos
    have hrow := ih hws.1 hnd.1 hpos.1
    have hrm : r < m := by
      rcases List.mem_cons.mp hr with rfl | hr
      · exact hb
      · exact hws.1 r hr
    have hne : (r + 1) % m ≠ 0 := fun h0 => hpos.2 (by rw [h0]; exact List.mem_singleton_self 0)
    have hlt : r + 1 < m := by
      by_contra hge
      rw [show r + 1 = m by omega, Nat.mod_self] at hne
      exact hne rfl
    have hnew : r + 1 ∉ ws := by
      intro hmem
      rw [Nat.mod_eq_of_lt hlt] at hnd
      exact hnd.2.2 _ hmem _ (List.mem_singleton_self _) rfl
    rw [hrow] at hr hnew
    have hlast : r = b + ws.length := by
      rw [List.mem_range'_1] at hnew
      rcases List.mem_cons.mp hr with rfl | hr
      · omega
      · rw [List.mem_range'_1] at hr
        omega
    rw [List.length_append, List.length_singleton]
    conv_lhs => rw [hrow]
    exact (snoc_range' hr hrm).mpr ⟨hlast, hlt⟩

end EvmDb.Counters
