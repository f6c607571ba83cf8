import EvmDb.Lib.Threads

/-!
Programs that do not touch what the others alter.

The state is a function on places, and a command has a footprint: the places it touches, and among
them those it alters. Where no program touches a place that another one alters, each runs as if it
were alone, and the order of their commands does not matter.
-/

namespace EvmDb.Footprints

open EvmDb.Program EvmDb.Threads

variable {C : Type} {R : C → Type} {K V α β ι : Type}

/-- The footprints of the commands of a handler. What a command answers, and what it puts where it
alters the state, depends on the places it touches only. -/
structure Footprint (h : Handler C R (K → V)) where
  touched : C → List K
  altered : C → List K
  touched_of_altered : ∀ c, ∀ k ∈ altered c, k ∈ touched c
  frame : ∀ s c, ∀ k ∉ altered c, (h s c).2 k = s k
  reply : ∀ s t c, (∀ k ∈ touched c, s k = t k) → (h s c).1 = (h t c).1
  effect : ∀ s t c, (∀ k ∈ touched c, s k = t k) → ∀ k ∈ altered c, (h s c).2 k = (h t c).2 k

variable {h : Handler C R (K → V)} (F : Footprint h)

namespace Footprint

/-- The places that some commands touch. -/
def touchedBy (cs : List C) : List K := cs.flatMap F.touched

/-- The places that some commands alter. -/
def alteredBy (cs : List C) : List K := cs.flatMap F.altered

/-- Two runs are independent if neither touches what the other one alters. -/
def Independent (cs ds : List C) : Prop :=
  (∀ k ∈ F.alteredBy cs, k ∉ F.touchedBy ds) ∧ ∀ k ∈ F.alteredBy ds, k ∉ F.touchedBy cs

instance [DecidableEq K] (cs ds : List C) : Decidable (F.Independent cs ds) :=
  inferInstanceAs (Decidable (_ ∧ _))

variable {F}

lemma mem_touchedBy {cs : List C} {c : C} (hc : c ∈ cs) {k : K} (hk : k ∈ F.touched c) :
    k ∈ F.touchedBy cs := List.mem_flatMap.mpr ⟨c, hc, hk⟩

lemma mem_alteredBy {cs : List C} {c : C} (hc : c ∈ cs) {k : K} (hk : k ∈ F.altered c) :
    k ∈ F.alteredBy cs := List.mem_flatMap.mpr ⟨c, hc, hk⟩

lemma touchedBy_of_alteredBy {cs : List C} {k : K} (hk : k ∈ F.alteredBy cs) :
    k ∈ F.touchedBy cs := by
  obtain ⟨c, hc, hk⟩ := List.mem_flatMap.mp hk
  exact mem_touchedBy hc (F.touched_of_altered c k hk)

/-! ### One program -/

/-- A run changes nothing but the places it alters. -/
lemma run_frame (p : Prog C R α) (s : K → V) {k : K} (hk : k ∉ F.alteredBy (trace h p s)) :
    (run h p s).2 k = s k := by
  induction p generalizing s with
  | ret a => rfl
  | cmd c p ih =>
    simp only [trace, alteredBy, List.flatMap_cons, List.mem_append, not_or] at hk
    rw [run_step, ih _ _ hk.2, F.frame s c k hk.1]

/-- A command keeps two states alike, where they were alike. -/
lemma agree_step {s t : K → V} {c : C} (hst : ∀ k ∈ F.touched c, s k = t k) {k : K}
    (hk : s k = t k) : (h s c).2 k = (h t c).2 k := by
  by_cases hc : k ∈ F.altered c
  · exact F.effect s t c hst k hc
  · rw [F.frame s c k hc, F.frame t c k hc, hk]

/-- **A run depends on the places it touches only.** -/
theorem run_agree (p : Prog C R α) {s t : K → V}
    (hst : ∀ k ∈ F.touchedBy (trace h p s), s k = t k) :
    (run h p t).1 = (run h p s).1 ∧ trace h p t = trace h p s ∧
      ∀ k, s k = t k → (run h p t).2 k = (run h p s).2 k := by
  induction p generalizing s t with
  | ret a => exact ⟨rfl, rfl, fun k hk => hk.symm⟩
  | cmd c p ih =>
    simp only [trace, touchedBy, List.flatMap_cons, List.mem_append] at hst
    have hc : ∀ k ∈ F.touched c, s k = t k := fun k hk => hst k (Or.inl hk)
    have hreply := F.reply s t c hc
    obtain ⟨hres, htr, hend⟩ := ih (h s c).1 (s := (h s c).2) (t := (h t c).2) fun k hk =>
      agree_step hc (hst k (Or.inr hk))
    simp only [run_step, trace]
    rw [← hreply]
    exact ⟨hres, by rw [htr], fun k hk => hend k (agree_step hc hk)⟩

/-- **A run after another one that is independent of it** is the run alone; what it does not alter
is left as the other one has left it. -/
theorem run_after {p : Prog C R α} {q : Prog C R β} {s : K → V}
    (hind : F.Independent (trace h p s) (trace h q s)) :
    (run h q (run h p s).2).1 = (run h q s).1 ∧
      (∀ k ∈ F.alteredBy (trace h p s), (run h q (run h p s).2).2 k = (run h p s).2 k) ∧
      ∀ k ∉ F.alteredBy (trace h p s), (run h q (run h p s).2).2 k = (run h q s).2 k := by
  have hagree : ∀ k ∈ F.touchedBy (trace h q s), s k = (run h p s).2 k := fun k hk =>
    (run_frame p s fun hp => hind.1 k hp hk).symm
  obtain ⟨hres, htr, hend⟩ := run_agree q hagree
  refine ⟨hres, fun k hk => ?_, fun k hk => hend k (run_frame p s hk).symm⟩
  apply run_frame
  rw [htr]
  exact fun hq => hind.2 k hq (touchedBy_of_alteredBy hk)

/-! ### Programs that run at the same time -/

variable [DecidableEq ι]

/-- Each thread is where its run alone would be after as many steps, in a state that differs from
the shared one only where other threads alter it. -/
structure Apart (F : Footprint h) (ps : ι → Prog C R α) (s : K → V) (schedule : List ι)
    (p : Pool C R α (K → V) ι) : Prop where
  shadow : ∀ i, ∃ u done, run h (p.threads i) u = run h (ps i) s ∧
    trace h (ps i) s = done ++ trace h (p.threads i) u ∧
    (trace h (p.threads i) u).length = (trace h (ps i) s).length - schedule.count i ∧
    ∀ k, (∀ j, j ≠ i → k ∉ F.alteredBy (trace h (ps j) s)) → p.state k = u k
  rest : ∀ k, (∀ i, k ∉ F.alteredBy (trace h (ps i) s)) → p.state k = s k

variable {ps : ι → Prog C R α} {s : K → V} {schedule : List ι} {p : Pool C R α (K → V) ι}

lemma apart_start (ps : ι → Prog C R α) (s : K → V) : F.Apart ps s [] ⟨s, ps⟩ where
  shadow _ := ⟨s, [], rfl, rfl, rfl, fun _ _ => rfl⟩
  rest _ _ := rfl

/-- **A step keeps the threads apart.** -/
lemma Apart.step (hp : F.Apart ps s schedule p)
    (hind : ∀ i j, i ≠ j → ∀ k ∈ F.alteredBy (trace h (ps i) s),
      k ∉ F.touchedBy (trace h (ps j) s)) (i : ι) :
    F.Apart ps s (schedule ++ [i]) (p.step h i).2 := by
  have hcount : ∀ j, (schedule ++ [i]).count j = schedule.count j + if i = j then 1 else 0 := by
    intro j
    rw [List.count_append, List.count_singleton]
    simp
  obtain ⟨u, done, hrun, htr, hlen, hagree⟩ := hp.shadow i
  unfold Pool.step
  rcases hthread : p.threads i with a | ⟨c, k⟩
  · -- the thread has ended
    refine ⟨fun j => ?_, hp.rest⟩
    obtain ⟨v, done', hrun', htr', hlen', hagree'⟩ := hp.shadow j
    refine ⟨v, done', hrun', htr', ?_, hagree'⟩
    rw [hlen', hcount]
    split_ifs with hj
    · subst hj
      rw [hthread] at hlen
      have h0 : 0 = (trace h (ps i) s).length - schedule.count i := hlen
      omega
    · rfl
  · rw [hthread] at hrun htr hlen
    have hmem : c ∈ trace h (ps i) s := by
      rw [htr]
      exact List.mem_append_right _ List.mem_cons_self
    have htouched : ∀ l ∈ F.touched c, p.state l = u l := fun l hl =>
      hagree l fun j hj hl' => hind j i hj l hl' (mem_touchedBy hmem hl)
    have hreply := F.reply p.state u c htouched
    have hsame : ∀ l, l ∉ F.alteredBy (trace h (ps i) s) → (h p.state c).2 l = p.state l :=
      fun l hl => F.frame p.state c l fun hc => hl (mem_alteredBy hmem hc)
    refine ⟨fun j => ?_, fun l hl => ?_⟩
    · by_cases hj : j = i
      · subst hj
        refine ⟨(h u c).2, done ++ [c], ?_, ?_, ?_, ?_⟩
        · simp only [Function.update_self]
          rw [hreply]
          exact hrun
        · simp only [Function.update_self]
          rw [hreply, List.append_assoc]
          exact htr
        · simp only [Function.update_self]
          rw [hreply, hcount, if_pos rfl]
          simp only [trace, List.length_cons] at hlen
          omega
        · exact fun l hl => agree_step htouched (hagree l hl)
      · obtain ⟨v, done', hrun', htr', hlen', hagree'⟩ := hp.shadow j
        refine ⟨v, done', ?_, ?_, ?_, ?_⟩
        · simp only [Function.update_of_ne hj]
          exact hrun'
        · simp only [Function.update_of_ne hj]
          exact htr'
        · simp only [Function.update_of_ne hj]
          rw [hlen', hcount, if_neg (Ne.symm hj), Nat.add_zero]
        · exact fun l hl => (hsame l (hl i (Ne.symm hj))).trans (hagree' l hl)
    · exact (hsame l (hl i)).trans (hp.rest l hl)

/-- **Independent programs do not notice each other.** Whatever the schedule is, as soon as each
thread has had as many turns as it has commands, it has ended with the result of its run alone,
and the state is the one that the runs alone make of the places they alter. -/
theorem run_interleaved
    (hind : ∀ i j, i ≠ j → ∀ k ∈ F.alteredBy (trace h (ps i) s),
      k ∉ F.touchedBy (trace h (ps j) s))
    (schedule : List ι) (hturns : ∀ i, (trace h (ps i) s).length ≤ schedule.count i) :
    let p := (Pool.run h schedule ⟨s, ps⟩).2
    (∀ i, p.threads i = .ret (run h (ps i) s).1) ∧
      (∀ i, ∀ k ∈ F.alteredBy (trace h (ps i) s), p.state k = (run h (ps i) s).2 k) ∧
      ∀ k, (∀ i, k ∉ F.alteredBy (trace h (ps i) s)) → p.state k = s k := by
  have hrun : ∀ l : List ι, F.Apart ps s l (Pool.run h l ⟨s, ps⟩).2 := by
    intro l
    induction l using List.reverseRecOn with
    | nil => exact apart_start ps s
    | append_singleton l i ih =>
      rw [Pool.run_snoc]
      exact ih.step hind i
  intro p
  have hp : F.Apart ps s schedule p := hrun schedule
  have hend : ∀ i, ∃ u, p.threads i = .ret (run h (ps i) s).1 ∧ u = (run h (ps i) s).2 ∧
      ∀ k, (∀ j, j ≠ i → k ∉ F.alteredBy (trace h (ps j) s)) → p.state k = u k := by
    intro i
    obtain ⟨u, done, hres, -, hlen, hagree⟩ := hp.shadow i
    have hturn := hturns i
    rcases hthread : p.threads i with a | ⟨c, k⟩
    · rw [hthread] at hres
      exact ⟨u, by rw [← hres]; rfl, congrArg Prod.snd hres, hagree⟩
    · rw [hthread] at hlen
      simp only [trace, List.length_cons] at hlen
      omega
  refine ⟨fun i => ?_, fun i k hk => ?_, hp.rest⟩
  · obtain ⟨-, hthread, -⟩ := hend i
    exact hthread
  · obtain ⟨u, -, rfl, hagree⟩ := hend i
    refine hagree k fun j hj hk' => ?_
    exact hind j i hj k hk' (touchedBy_of_alteredBy hk)

end Footprint

end EvmDb.Footprints
