import EvmDb.Lib.Program
import Mathlib.Data.List.Induction
import Mathlib.Logic.Function.Basic

/-!
Programs that run at the same time.

The threads of a pool share a state, and a schedule says which of them issues its next command;
a command is one step. What a thread does is described by a protocol: the commands it may issue
in a phase, and the phase a reply takes it to.
-/

namespace EvmDb.Threads

open EvmDb.Program

variable {C : Type} {R : C → Type} {α β σ ι Q : Type}

/-! ### Protocols -/

/-- A program keeps to a protocol from a phase on, and ends in a phase and with a result that
satisfy the postcondition. -/
def Follows (next : Q → (c : C) → R c → Q → Prop) (post : Q → α → Prop) : Q → Prog C R α → Prop
  | q, .ret a => post q a
  | q, .cmd c k => ∀ r, ∃ q', next q c r q' ∧ Follows next post q' (k r)

lemma Follows.bind {next : Q → (c : C) → R c → Q → Prop} {post : Q → α → Prop}
    {post' : Q → β → Prop} {q : Q} {p : Prog C R α} {f : α → Prog C R β}
    (hp : Follows next post q p) (hf : ∀ q a, post q a → Follows next post' q (f a)) :
    Follows next post' q (p >>= f) := by
  induction p generalizing q with
  | ret a => exact hf q a hp
  | cmd c k ih =>
    intro r
    obtain ⟨q', hn, hk⟩ := hp r
    exact ⟨q', hn, ih r hk⟩

lemma Follows.mono {next next' : Q → (c : C) → R c → Q → Prop} {post post' : Q → α → Prop} {q : Q}
    {p : Prog C R α} (hp : Follows next post q p)
    (hnext : ∀ q c r q', next q c r q' → next' q c r q') (hpost : ∀ q a, post q a → post' q a) :
    Follows next' post' q p := by
  induction p generalizing q with
  | ret a => exact hpost q a hp
  | cmd c k ih =>
    intro r
    obtain ⟨q', hn, hk⟩ := hp r
    exact ⟨q', hnext q c r q' hn, ih r hk⟩

/-- Commands that are allowed everywhere in a phase do not leave it. -/
lemma follows_of_issues {next : Q → (c : C) → R c → Q → Prop} {P : C → Prop} {post : α → Prop}
    {q : Q} {p : Prog C R α} (hp : Issues P post p) (hn : ∀ c, P c → ∀ r, next q c r q) :
    Follows next (fun q' a => q' = q ∧ post a) q p := by
  induction p with
  | ret a => exact ⟨rfl, hp⟩
  | cmd c k ih => exact fun r => ⟨q, hn c hp.1 r, ih r (hp.2 r)⟩

/-! ### Pools -/

/-- A shared state, and what each thread still has to do. -/
structure Pool (C : Type) (R : C → Type) (α σ ι : Type) where
  state : σ
  threads : ι → Prog C R α

/-- A command that a thread has issued. -/
structure Event (C σ ι : Type) where
  who : ι
  command : C
  before : σ
  after : σ

variable [DecidableEq ι]

namespace Pool

/-- A thread issues its next command, if it has not ended. -/
def step (h : Handler C R σ) (i : ι) (p : Pool C R α σ ι) :
    Option (Event C σ ι) × Pool C R α σ ι :=
  match p.threads i with
  | .ret _ => (none, p)
  | .cmd c k =>
    (some ⟨i, c, p.state, (h p.state c).2⟩,
      ⟨(h p.state c).2, Function.update p.threads i (k (h p.state c).1)⟩)

/-- A run by a schedule, with the commands that were issued. -/
def run (h : Handler C R σ) : List ι → Pool C R α σ ι → List (Event C σ ι) × Pool C R α σ ι
  | [], p => ([], p)
  | i :: is, p =>
    ((p.step h i).1.toList ++ (run h is (p.step h i).2).1, (run h is (p.step h i).2).2)

/-- The protocols are kept, each thread being in its phase. -/
def Keeps (next : ι → Q → (c : C) → R c → Q → Prop) (phases : ι → Q) (p : Pool C R α σ ι) :
    Prop :=
  ∀ i, Follows (next i) (fun _ _ => True) (phases i) (p.threads i)

/-- The protocols are kept, and each thread will end as its postcondition says. -/
def KeepsTo (next : ι → Q → (c : C) → R c → Q → Prop) (post : ι → Q → α → Prop) (phases : ι → Q)
    (p : Pool C R α σ ι) : Prop :=
  ∀ i, Follows (next i) (post i) (phases i) (p.threads i)

variable {h : Handler C R σ} {i : ι} {p p' : Pool C R α σ ι} {e : Event C σ ι}

/-- **What a step does.** The thread issues a command its protocol allows, and nothing else
changes than the shared state and its own phase. -/
theorem KeepsTo.step {next : ι → Q → (c : C) → R c → Q → Prop} {post : ι → Q → α → Prop}
    {phases : ι → Q} (hp : p.KeepsTo next post phases) (hs : p.step h i = (some e, p')) :
    ∃ q, e = ⟨i, e.command, p.state, (h p.state e.command).2⟩ ∧
      p'.state = (h p.state e.command).2 ∧
        next i (phases i) e.command (h p.state e.command).1 q ∧
          p'.KeepsTo next post (Function.update phases i q) := by
  have hi := hp i
  unfold Pool.step at hs
  split at hs
  · cases hs
  · rename_i c k hthread
    rw [hthread] at hi
    obtain ⟨q, hn, hk⟩ := hi (h p.state c).1
    cases hs
    refine ⟨q, rfl, rfl, hn, fun j => ?_⟩
    by_cases hj : j = i
    · subst hj
      simp only [Function.update_self]
      exact hk
    · simp only [Function.update_of_ne hj]
      exact hp j

theorem Keeps.step {next : ι → Q → (c : C) → R c → Q → Prop} {phases : ι → Q}
    (hp : p.Keeps next phases) (hs : p.step h i = (some e, p')) :
    ∃ q, e = ⟨i, e.command, p.state, (h p.state e.command).2⟩ ∧
      p'.state = (h p.state e.command).2 ∧
        next i (phases i) e.command (h p.state e.command).1 q ∧
          p'.Keeps next (Function.update phases i q) :=
  (show p.KeepsTo next (fun _ _ _ => True) phases from hp).step hs

/-- A thread that has ended does nothing. -/
lemma step_of_none (hs : (p.step h i).1 = none) : (p.step h i).2 = p := by
  unfold Pool.step at hs ⊢
  split at hs
  · rfl
  · cases hs

lemma run_snoc (h : Handler C R σ) (is : List ι) (i : ι) (p : Pool C R α σ ι) :
    run h (is ++ [i]) p =
      ((run h is p).1 ++ ((run h is p).2.step h i).1.toList, ((run h is p).2.step h i).2) := by
  induction is generalizing p with
  | nil => simp [run]
  | cons j is ih => simp [run, ih]

/-- **What every step keeps, every run keeps**, of the commands so far and the pool. -/
theorem run_induction {M : List (Event C σ ι) → Pool C R α σ ι → Prop} (h0 : M [] p)
    (hstep : ∀ es q i e q', M es q → q.step h i = (some e, q') → M (es ++ [e]) q')
    (is : List ι) : M (run h is p).1 (run h is p).2 := by
  induction is using List.reverseRecOn with
  | nil => exact h0
  | append_singleton is i ih =>
    rw [run_snoc]
    rcases hs : (run h is p).2.step h i with ⟨_ | e, q'⟩
    · have hq : q' = (run h is p).2 := by
        rw [← step_of_none (congrArg Prod.fst hs), hs]
      simp only [Option.toList_none, List.append_nil]
      rw [hq]
      exact ih
    · exact hstep _ _ _ _ _ ih hs

end Pool

end EvmDb.Threads
