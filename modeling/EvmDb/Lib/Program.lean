import Mathlib.Logic.Basic
import Mathlib.Control.Basic

/-!
Programs that issue commands and go on with the replies.

A program is a tree: a result, or a command and a program for every reply. What the commands
do is given by a handler on a state, so one program can be run against a store, against a
store that fails, or interleaved with others.
-/

namespace EvmDb.Program

/-- A program over commands `C`, where `c` has replies of type `R c`. -/
inductive Prog (C : Type) (R : C → Type) (α : Type)
  | ret (a : α)
  | cmd (c : C) (k : R c → Prog C R α)

namespace Prog

variable {C D : Type} {R : C → Type} {Q : D → Type} {α β σ : Type}

protected def bind : Prog C R α → (α → Prog C R β) → Prog C R β
  | ret a, f => f a
  | cmd c k, f => cmd c fun r => (k r).bind f

instance : Monad (Prog C R) where
  pure := ret
  bind := Prog.bind

@[simp] lemma pure_eq (a : α) : (pure a : Prog C R α) = ret a := rfl
@[simp] lemma ret_bind (a : α) (f : α → Prog C R β) : (ret a >>= f) = f a := rfl
@[simp] lemma cmd_bind (c : C) (k : R c → Prog C R α) (f : α → Prog C R β) :
    (cmd c k >>= f) = cmd c fun r => k r >>= f := rfl

lemma bind_ret (p : Prog C R α) : (p >>= ret) = p := by
  induction p with
  | ret a => rfl
  | cmd c k ih => exact congrArg (cmd c) (funext ih)

protected lemma bind_assoc {γ : Type} (p : Prog C R α) (f : α → Prog C R β)
    (g : β → Prog C R γ) : (p >>= f >>= g) = p >>= fun a => f a >>= g := by
  induction p with
  | ret a => rfl
  | cmd c k ih => exact congrArg (cmd c) (funext ih)

instance : LawfulMonad (Prog C R) :=
  LawfulMonad.mk' (Prog C R) bind_ret (fun _ _ => rfl) Prog.bind_assoc

end Prog

open Prog

variable {C D : Type} {R : C → Type} {Q : D → Type} {α β σ : Type}

/-- The program that issues one command. -/
def issue (c : C) : Prog C R (R c) := .cmd c .ret

/-- What commands do to a state, and what they answer. -/
abbrev Handler (C : Type) (R : C → Type) (σ : Type) := σ → (c : C) → R c × σ

/-- The result of a program that has ended. -/
def result : Prog C R α → Option α
  | .ret a => some a
  | .cmd _ _ => none

/-! ### Running a program -/

def run (h : Handler C R σ) : Prog C R α → σ → α × σ
  | .ret a, s => (a, s)
  | .cmd c k, s => run h (k (h s c).1) (h s c).2

@[simp] lemma run_ret (h : Handler C R σ) (a : α) (s : σ) : run h (.ret a) s = (a, s) := rfl

@[simp] lemma run_step (h : Handler C R σ) (c : C) (k : R c → Prog C R α) (s : σ) :
    run h (.cmd c k) s = run h (k (h s c).1) (h s c).2 := rfl

@[simp] lemma run_issue (h : Handler C R σ) (c : C) (s : σ) : run h (issue c) s = h s c := rfl

@[simp] lemma run_bind (h : Handler C R σ) (p : Prog C R α) (f : α → Prog C R β) (s : σ) :
    run h (p >>= f) s = run h (f (run h p s).1) (run h p s).2 := by
  induction p generalizing s with
  | ret a => rfl
  | cmd c k ih => exact ih _ _

/-- A program over `C` run by programs over `D`, with a state of its own passed along. -/
def interp (f : (c : C) → σ → Prog D Q (R c × σ)) : Prog C R α → σ → Prog D Q (α × σ)
  | .ret a, s => .ret (a, s)
  | .cmd c k, s => f c s >>= fun p => interp f (k p.1) p.2

/-- The handler of a program's commands that are themselves programs over the handler `h`. -/
def through (h : Handler D Q σ) {τ : Type} (f : (c : C) → τ → Prog D Q (R c × τ)) :
    Handler C R (τ × σ) :=
  fun (t, s) c => ((run h (f c t) s).1.1, ((run h (f c t) s).1.2, (run h (f c t) s).2))

lemma run_interp (h : Handler D Q σ) {τ : Type} (f : (c : C) → τ → Prog D Q (R c × τ))
    (p : Prog C R α) (t : τ) (s : σ) :
    run h (interp f p t) s =
      (((run (through h f) p (t, s)).1, (run (through h f) p (t, s)).2.1),
        (run (through h f) p (t, s)).2.2) := by
  induction p generalizing t s with
  | ret a => rfl
  | cmd c k ih =>
    rw [interp, run_bind, ih]
    rfl

/-! ### The commands of a run -/

/-- The commands a run issues, in order. -/
def trace (h : Handler C R σ) : Prog C R α → σ → List C
  | .ret _, _ => []
  | .cmd c k, s => c :: trace h (k (h s c).1) (h s c).2

/-- A run changes the state as its commands do, one after the other. -/
lemma run_trace (h : Handler C R σ) (p : Prog C R α) (s : σ) :
    (run h p s).2 = (trace h p s).foldl (fun s c => (h s c).2) s := by
  induction p generalizing s with
  | ret a => rfl
  | cmd c k ih => exact ih _ _

/-- The commands of a run and the answers to them. -/
def transcript (h : Handler C R σ) : Prog C R α → σ → List ((c : C) × R c)
  | .ret _, _ => []
  | .cmd c k, s => ⟨c, (h s c).1⟩ :: transcript h (k (h s c).1) (h s c).2

/-- The states a run passes through, with the first and the last. -/
def states (h : Handler C R σ) : Prog C R α → σ → List σ
  | .ret _, s => [s]
  | .cmd c k, s => s :: states h (k (h s c).1) (h s c).2

/-- What every command keeps holds all the time. -/
lemma forall_states {h : Handler C R σ} {I : σ → Prop} (hh : ∀ s c, I s → I (h s c).2)
    (p : Prog C R α) {s : σ} (hs : I s) : ∀ s' ∈ states h p s, I s' := by
  induction p generalizing s with
  | ret a =>
    intro s' hs'
    rw [List.mem_singleton.mp hs']
    exact hs
  | cmd c k ih =>
    intro s' hs'
    rcases List.mem_cons.mp hs' with rfl | hs'
    · exact hs
    · exact ih _ (hh s c hs) s' hs'

/-- The commands of a run, each with the state it is issued in and the answer to it. -/
def history (h : Handler C R σ) : Prog C R α → σ → List (σ × (c : C) × R c)
  | .ret _, _ => []
  | .cmd c k, s => (s, ⟨c, (h s c).1⟩) :: history h (k (h s c).1) (h s c).2

lemma map_history (h : Handler C R σ) (p : Prog C R α) (s : σ) :
    (history h p s).map (fun e => e.2.1) = trace h p s := by
  induction p generalizing s with
  | ret a => rfl
  | cmd c k ih => rw [history, List.map_cons, ih, trace]

/-- What every command keeps holds whenever a command is issued. -/
lemma forall_history {h : Handler C R σ} {I : σ → Prop} (hh : ∀ s c, I s → I (h s c).2)
    (p : Prog C R α) {s : σ} (hs : I s) :
    ∀ e ∈ history h p s, I e.1 ∧ e.2.2 = (h e.1 e.2.1).1 := by
  induction p generalizing s with
  | ret a => exact fun e he => absurd he List.not_mem_nil
  | cmd c k ih =>
    intro e he
    rcases List.mem_cons.mp he with rfl | he
    · exact ⟨hs, rfl⟩
    · exact ih _ (hh s c hs) e he

/-- **A simulation of handlers.** Where related states answer alike and stay related, a program
cannot tell the two apart. -/
theorem run_sim {h : Handler C R σ} {τ : Type} {h' : Handler C R τ} {rel : σ → τ → Prop}
    (hh : ∀ s t c, rel s t → (h s c).1 = (h' t c).1 ∧ rel (h s c).2 (h' t c).2)
    (p : Prog C R α) {s : σ} {t : τ} (hst : rel s t) :
    (run h p s).1 = (run h' p t).1 ∧ transcript h p s = transcript h' p t ∧
      rel (run h p s).2 (run h' p t).2 := by
  induction p generalizing s t with
  | ret a => exact ⟨rfl, rfl, hst⟩
  | cmd c k ih =>
    obtain ⟨hr, hrel⟩ := hh s t c hst
    obtain ⟨hrun, htr, hend⟩ := ih (h s c).1 hrel
    simp only [run_step, transcript]
    rw [← hr]
    exact ⟨hrun, by rw [htr], hend⟩

/-! ### What a program issues and returns -/

/-- Every command satisfies `P`, and every result `post`, whatever the replies are. -/
def Issues (P : C → Prop) (post : α → Prop) : Prog C R α → Prop
  | .ret a => post a
  | .cmd c k => P c ∧ ∀ r, Issues P post (k r)

@[simp] lemma issues_ret {P : C → Prop} {post : α → Prop} {a : α} :
    Issues (R := R) P post (.ret a) ↔ post a := Iff.rfl

lemma Issues.bind {P : C → Prop} {post : α → Prop} {post' : β → Prop} {p : Prog C R α}
    {f : α → Prog C R β} (hp : Issues P post p) (hf : ∀ a, post a → Issues P post' (f a)) :
    Issues P post' (p >>= f) := by
  induction p with
  | ret a => exact hf a hp
  | cmd c k ih => exact ⟨hp.1, fun r => ih r (hp.2 r)⟩

/-- About nothing, nothing has to be known. -/
lemma issues_true (p : Prog C R α) : Issues (fun _ => True) (fun _ => True) p := by
  induction p with
  | ret a => trivial
  | cmd c k ih => exact ⟨trivial, ih⟩

lemma Issues.mono {P P' : C → Prop} {post post' : α → Prop} {p : Prog C R α}
    (hp : Issues P post p) (hP : ∀ c, P c → P' c) (hpost : ∀ a, post a → post' a) :
    Issues P' post' p := by
  induction p with
  | ret a => exact hpost a hp
  | cmd c k ih => exact ⟨hP c hp.1, fun r => ih r (hp.2 r)⟩

/-- An interpretation issues what its steps issue, and keeps what its steps keep. -/
lemma issues_interp {P : D → Prop} {I : σ → Prop} {f : (c : C) → σ → Prog D Q (R c × σ)}
    (hf : ∀ c s, I s → Issues P (fun p => I p.2) (f c s)) (p : Prog C R α) {s : σ} (hs : I s) :
    Issues P (fun p => I p.2) (interp f p s) := by
  induction p generalizing s with
  | ret a => exact hs
  | cmd c k ih => exact (hf c s hs).bind fun p hp => ih p.1 hp

/-- What the commands keep, the run keeps, and its result satisfies the postcondition. -/
lemma Issues.run_inv {P : C → Prop} {post : α → Prop} {p : Prog C R α} {h : Handler C R σ}
    {I : σ → Prop} (hp : Issues P post p) (hh : ∀ s c, P c → I s → I (h s c).2) {s : σ}
    (hs : I s) : I (run h p s).2 ∧ post (run h p s).1 := by
  induction p generalizing s with
  | ret a => exact ⟨hs, hp⟩
  | cmd c k ih => exact ih _ (hp.2 _) (hh s c hp.1 hs)

/-- Every command satisfies `P`, as long as the replies satisfy `Q`. -/
def IssuesWhile (P : C → Prop) (Q : (c : C) → R c → Prop) : Prog C R α → Prop
  | .ret _ => True
  | .cmd c k => P c ∧ ∀ r, Q c r → IssuesWhile P Q (k r)

/-- Two handlers that answer alike and act alike run a program alike. -/
lemma Issues.run_congr {P : C → Prop} {post : α → Prop} {p : Prog C R α} {τ : Type}
    {h : Handler C R σ} {h' : Handler C R τ} {rel : σ → τ → Prop} (hp : Issues P post p)
    (hh : ∀ s t c, P c → rel s t → (h s c).1 = (h' t c).1 ∧ rel (h s c).2 (h' t c).2)
    {s : σ} {t : τ} (hst : rel s t) :
    (run h p s).1 = (run h' p t).1 ∧ rel (run h p s).2 (run h' p t).2 := by
  induction p generalizing s t with
  | ret a => exact ⟨rfl, hst⟩
  | cmd c k ih =>
    obtain ⟨hr, hrel⟩ := hh s t c hp.1 hst
    rw [run_step, run_step, hr]
    exact ih _ (hp.2 _) hrel

end EvmDb.Program
