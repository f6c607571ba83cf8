import EvmDb.Lib.Threads

/-!
Paths of programs: commands and the replies to them, whatever gave the replies.

A program that is stopped, that runs against a failing server, or that is interleaved with others
has gone a path. So what holds of all paths of one program holds of it in any company.
-/

namespace EvmDb.Paths

open EvmDb.Program EvmDb.Threads

variable {C : Type} {R : C → Type} {α β σ ι : Type}

/-- A program gets to another one by some commands and replies. -/
inductive Path : Prog C R α → List ((c : C) × R c) → Prog C R α → Prop
  | nil (p : Prog C R α) : Path p [] p
  | cons {c : C} {k : R c → Prog C R α} {r : R c} {l : List ((c : C) × R c)} {q : Prog C R α}
    (h : Path (k r) l q) : Path (.cmd c k) (⟨c, r⟩ :: l) q

variable {p q : Prog C R α} {l : List ((c : C) × R c)}

/-- A program that has ended goes nowhere. -/
lemma Path.of_ret {a : α} (h : Path (.ret a) l q) : l = [] ∧ q = .ret a := by
  cases h
  exact ⟨rfl, rfl⟩

lemma Path.of_cmd {c : C} {k : R c → Prog C R α} (h : Path (.cmd c k) l q) :
    (l = [] ∧ q = .cmd c k) ∨ ∃ r l', l = ⟨c, r⟩ :: l' ∧ Path (k r) l' q := by
  cases h with
  | nil => exact Or.inl ⟨rfl, rfl⟩
  | cons h => exact Or.inr ⟨_, _, rfl, h⟩

lemma Path.snoc {c : C} {k : R c → Prog C R α} (h : Path p l (.cmd c k)) (r : R c) :
    Path p (l ++ [⟨c, r⟩]) (k r) := by
  generalize hq : Prog.cmd c k = q at h
  induction h with
  | nil p =>
    subst hq
    exact .cons (.nil _)
  | cons _ ih => exact .cons (ih hq)

/-- **A path of a program and what follows it** stays in the program, or goes through it. -/
lemma Path.of_bind {f : α → Prog C R β} {p : Prog C R α} {q : Prog C R β}
    (h : Path (p >>= f) l q) :
    (∃ p', Path p l p' ∧ (∀ a, p' ≠ .ret a) ∧ q = p' >>= f) ∨
      ∃ a l₁ l₂, l = l₁ ++ l₂ ∧ Path p l₁ (.ret a) ∧ Path (f a) l₂ q := by
  induction p generalizing l with
  | ret a => exact Or.inr ⟨a, [], l, rfl, .nil _, h⟩
  | cmd c k ih =>
    rcases Path.of_cmd h with ⟨rfl, rfl⟩ | ⟨r, l', rfl, hrest⟩
    · exact Or.inl ⟨.cmd c k, .nil _, nofun, rfl⟩
    · rcases ih r hrest with ⟨p', hp', hne, rfl⟩ | ⟨a, l₁, l₂, rfl, h₁, h₂⟩
      · exact Or.inl ⟨p', .cons hp', hne, rfl⟩
      · exact Or.inr ⟨a, ⟨c, r⟩ :: l₁, l₂, rfl, .cons h₁, h₂⟩

/-- What is issued along a path, and what is still to come. -/
lemma Path.issues {P : C → Prop} {post : α → Prop} (h : Path p l q) (hp : Issues P post p) :
    (∀ e ∈ l, P e.1) ∧ Issues P post q := by
  induction h with
  | nil p => exact ⟨by simp, hp⟩
  | cons _ ih =>
    obtain ⟨hl, hq⟩ := ih (hp.2 _)
    exact ⟨List.forall_mem_cons.mpr ⟨hp.1, hl⟩, hq⟩

/-- A path whose replies are those of a handler that changes nothing is the run. -/
lemma Path.run_eq {h : Handler C R σ} {s : σ} {a : α} (hl : Path p l (.ret a))
    (hreply : ∀ e ∈ l, e.2 = (h s e.1).1) (hsame : ∀ e ∈ l, (h s e.1).2 = s) :
    (run h p s).1 = a := by
  generalize hq : Prog.ret a = q at hl
  induction hl with
  | nil p =>
    subst hq
    rfl
  | @cons c k r l q _ ih =>
    obtain ⟨hr, hrest⟩ := List.forall_mem_cons.mp hreply
    obtain ⟨hs, hsrest⟩ := List.forall_mem_cons.mp hsame
    dsimp only at hr hs
    rw [run_step, hs, ← hr]
    exact ih hrest hsrest hq

/-! ### The threads of a pool -/

/-- The commands a thread has issued, and the replies it got. -/
def own [DecidableEq ι] (h : Handler C R σ) (i : ι) (es : List (Event C σ ι)) :
    List ((c : C) × R c) :=
  (es.filter (·.who = i)).map fun e => ⟨e.command, (h e.before e.command).1⟩

variable [DecidableEq ι]

lemma own_snoc (h : Handler C R σ) (i : ι) (es : List (Event C σ ι)) (e : Event C σ ι) :
    own h i (es ++ [e]) =
      own h i es ++ if e.who = i then [⟨e.command, (h e.before e.command).1⟩] else [] := by
  unfold own
  rw [List.filter_append, List.map_append]
  by_cases hi : e.who = i <;> simp [hi]

/-- What a step does: the next command of a thread. -/
lemma step_cases {h : Handler C R σ} {i : ι} {p p' : Pool C R α σ ι} {e : Event C σ ι}
    (hs : p.step h i = (some e, p')) :
    ∃ c k, p.threads i = .cmd c k ∧ e = ⟨i, c, p.state, (h p.state c).2⟩ ∧
      p' = ⟨(h p.state c).2, Function.update p.threads i (k (h p.state c).1)⟩ := by
  unfold Pool.step at hs
  split at hs
  · cases hs
  · rename_i c k hthread
    cases hs
    exact ⟨c, k, hthread, rfl, rfl⟩

/-- **Every thread of a run has gone a path of its program**, whatever the others do. -/
theorem run_path (h : Handler C R σ) (ps : ι → Prog C R α) (s : σ) (schedule : List ι) (i : ι) :
    Path (ps i) (own h i (Pool.run h schedule ⟨s, ps⟩).1)
      ((Pool.run h schedule ⟨s, ps⟩).2.threads i) := by
  refine Pool.run_induction (M := fun es p => Path (ps i) (own h i es) (p.threads i))
    (.nil _) (fun es p j e p' hes hs => ?_) schedule
  obtain ⟨c, k, hthread, rfl, rfl⟩ := step_cases hs
  rw [own_snoc]
  by_cases hj : j = i
  · subst hj
    simp only [if_true, Function.update_self]
    rw [hthread] at hes
    exact hes.snoc _
  · simp only [hj, if_false, List.append_nil, Function.update_of_ne (Ne.symm hj)]
    exact hes

/-- **What the commands of all threads keep holds at any time.** -/
theorem run_keeps {h : Handler C R σ} {P : C → Prop} {I : σ → Prop} {ps : ι → Prog C R α}
    (hps : ∀ i, Issues P (fun _ => True) (ps i)) (hh : ∀ s c, P c → I s → I (h s c).2) {s : σ}
    (hs : I s) (schedule : List ι) : I (Pool.run h schedule ⟨s, ps⟩).2.state := by
  have hkeeps : ∀ l : List ι, I (Pool.run h l ⟨s, ps⟩).2.state ∧
      ∀ i, Issues P (fun _ => True) ((Pool.run h l ⟨s, ps⟩).2.threads i) := by
    intro l
    refine Pool.run_induction
      (M := fun _ p => I p.state ∧ ∀ i, Issues P (fun _ => True) (p.threads i))
      ⟨hs, hps⟩ (fun _ p i e p' hp hstep => ?_) l
    obtain ⟨hinv, hthreads⟩ := hp
    obtain ⟨c, k, hthread, rfl, rfl⟩ := step_cases hstep
    have hi := hthreads i
    rw [hthread] at hi
    refine ⟨hh _ c hi.1 hinv, fun j => ?_⟩
    by_cases hj : j = i
    · subst hj
      simp only [Function.update_self]
      exact hi.2 _
    · simp only [Function.update_of_ne hj]
      exact hthreads j
  exact (hkeeps schedule).1

end EvmDb.Paths
