import EvmDb.Lib.Machines
import EvmDb.Lib.Paths

/-!
Threads that take turns.

Some threads of a pool only issue commands that change nothing; they are silent. If none of the
other threads, the loud ones, takes a step before those that began have ended, then the run is that
of their programs one after another, in the order in which they begin.
-/

namespace EvmDb.Turns

open EvmDb.Program EvmDb.Threads EvmDb.Paths

variable {C : Type} {R : C → Type} {α σ ι : Type}

/-- A command that changes nothing. -/
def Silent (h : Handler C R σ) (c : C) : Prop := ∀ s, (h s c).2 = s

/-- The programs of the threads, each run as a whole. -/
def alone (h : Handler C R σ) (ps : ι → Prog C R α) : Machines.Machine ι α σ := fun i s =>
  run h (ps i) s

variable [DecidableEq ι]

/-- A loud thread is only scheduled when the other loud ones that began have ended. -/
def TakeTurns (h : Handler C R σ) (ps : ι → Prog C R α) (loud : ι → Prop) (s : σ)
    (schedule : List ι) : Prop :=
  ∀ k : Fin schedule.length, loud (schedule.get k) → ∀ j ∈ schedule.take k, loud j →
    j ≠ schedule.get k → (result ((Pool.run h (schedule.take k) ⟨s, ps⟩).2.threads j)).isSome

/-- The turns behind a part of the schedule. -/
lemma TakeTurns.behind {h : Handler C R σ} {ps : ι → Prog C R α} {loud : ι → Prop} {s : σ}
    {schedule pre post : List ι} {i : ι} (ht : TakeTurns h ps loud s schedule)
    (hpost : schedule = pre ++ i :: post) (hl : loud i) :
    ∀ j ∈ pre, loud j → j ≠ i →
      (result ((Pool.run h pre ⟨s, ps⟩).2.threads j)).isSome := by
  subst hpost
  have hk : pre.length < (pre ++ i :: post).length := by simp
  have hget : (pre ++ i :: post).get ⟨pre.length, hk⟩ = i := by simp
  have htake : (pre ++ i :: post).take pre.length = pre := List.take_left
  have hturn := ht ⟨pre.length, hk⟩
  rw [hget] at hturn
  dsimp only at hturn
  rw [htake] at hturn
  exact hturn hl

/-- The loud threads in the order in which they begin. -/
def begun (loud : ι → Prop) [DecidablePred loud] (schedule : List ι) : List ι :=
  (schedule.filter loud).eraseDups

section Order

variable {loud : ι → Prop} [DecidablePred loud]

lemma mem_begun {schedule : List ι} {i : ι} : i ∈ begun loud schedule ↔ i ∈ schedule ∧ loud i := by
  simp [begun]

lemma begun_of_silent {i : ι} (hi : ¬ loud i) (schedule : List ι) :
    begun loud (schedule ++ [i]) = begun loud schedule := by
  simp [begun, hi]

lemma begun_of_mem {i : ι} {schedule : List ι} (hi : i ∈ schedule) :
    begun loud (schedule ++ [i]) = begun loud schedule := by
  by_cases hl : loud i
  · simp [begun, List.eraseDups_append, List.removeAll, hl, hi]
  · exact begun_of_silent hl schedule

lemma begun_of_not_mem {i : ι} (hl : loud i) {schedule : List ι} (hi : i ∉ schedule) :
    begun loud (schedule ++ [i]) = begun loud schedule ++ [i] := by
  simp [begun, List.eraseDups_append, List.removeAll, hl, hi, List.eraseDups_cons]

lemma nodup_begun (schedule : List ι) : (begun loud schedule).Nodup := by
  induction schedule using List.reverseRecOn with
  | nil => exact List.nodup_nil
  | append_singleton schedule i ih =>
    by_cases hi : i ∈ schedule
    · rw [begun_of_mem hi]
      exact ih
    by_cases hl : loud i
    · rw [begun_of_not_mem hl hi]
      refine List.nodup_append.mpr ⟨ih, by simp, fun j hj k hk hjk => hi ?_⟩
      rw [← List.mem_singleton.mp hk, ← hjk]
      exact (mem_begun.mp hj).1
    · rw [begun_of_silent hl]
      exact ih

end Order

/-! ### The run -/

variable {h : Handler C R σ} {ps : ι → Prog C R α} {loud : ι → Prop} [DecidablePred loud] {s : σ}

/-- Where the threads are after a part of the schedule. The loud one that began last has to end as
it does alone behind the other ones, and those have ended as they do alone. -/
structure Turned (h : Handler C R σ) (ps : ι → Prog C R α) (loud : ι → Prop) [DecidablePred loud]
    (s : σ) (pre : List ι) (p : Pool C R α σ ι) : Prop where
  rest : ∀ i, loud i → i ∉ pre → p.threads i = ps i
  silent : ∀ i, ¬ loud i → Issues (Silent h) (fun _ => True) (p.threads i)
  start : begun loud pre = [] → p.state = s
  last : ∀ is i, begun loud pre = is ++ [i] →
    run h (p.threads i) p.state = alone h ps i (Machines.run (alone h ps) is s).2 ∧
      is.map (fun j => result (p.threads j)) = (Machines.run (alone h ps) is s).1.map some

variable {pre : List ι} {p : Pool C R α σ ι}

lemma eq_ret_of_isSome {q : Prog C R α} (hq : (result q).isSome) : ∃ a, q = .ret a := by
  cases q with
  | ret a => exact ⟨a, rfl⟩
  | cmd c k => cases hq

/-- When all that began have ended, they have ended as they do one after another. -/
lemma Turned.settled (hp : Turned h ps loud s pre p)
    (hend : ∀ i ∈ begun loud pre, (result (p.threads i)).isSome) :
    (begun loud pre).map (fun j => result (p.threads j)) =
        (Machines.run (alone h ps) (begun loud pre) s).1.map some ∧
      p.state = (Machines.run (alone h ps) (begun loud pre) s).2 := by
  rcases List.eq_nil_or_concat (begun loud pre) with hnil | ⟨is, i, hlast⟩
  · rw [hnil]
    exact ⟨rfl, hp.start hnil⟩
  · rw [List.concat_eq_append] at hlast
    obtain ⟨hrun, his⟩ := hp.last is i hlast
    obtain ⟨a, ha⟩ := eq_ret_of_isSome (hend i (by rw [hlast]; simp))
    rw [ha, run_ret] at hrun
    rw [hlast, Machines.run_append, List.map_append, his, List.map_append, Machines.run_cons,
      ← hrun]
    refine ⟨?_, rfl⟩
    rw [List.map_singleton, ha]
    rfl

/-- The thread that takes a step will end as it would have ended. -/
lemma run_step_self (i : ι) (p : Pool C R α σ ι) :
    run h ((p.step h i).2.threads i) (p.step h i).2.state = run h (p.threads i) p.state := by
  unfold Pool.step
  cases hthread : p.threads i with
  | ret a =>
    dsimp only
    rw [hthread]
  | cmd c k =>
    dsimp only
    rw [Function.update_self, run_step]

lemma step_other {i j : ι} (hne : j ≠ i) (p : Pool C R α σ ι) :
    (p.step h i).2.threads j = p.threads j := by
  unfold Pool.step
  cases p.threads i with
  | ret a => rfl
  | cmd c k => exact Function.update_of_ne hne _ _

lemma step_of_ended {i : ι} (hend : (result (p.threads i)).isSome) : (p.step h i).2 = p := by
  obtain ⟨a, ha⟩ := eq_ret_of_isSome hend
  unfold Pool.step
  rw [ha]

/-- A silent thread changes nothing, and stays silent. -/
lemma step_of_silent {i : ι} (hi : Issues (Silent h) (fun _ => True) (p.threads i)) :
    (p.step h i).2.state = p.state ∧
      Issues (Silent h) (fun _ => True) ((p.step h i).2.threads i) := by
  unfold Pool.step
  cases hthread : p.threads i with
  | ret a =>
    dsimp only
    rw [hthread]
    exact ⟨rfl, trivial⟩
  | cmd c k =>
    rw [hthread] at hi
    dsimp only
    rw [Function.update_self]
    exact ⟨hi.1 p.state, hi.2 _⟩

/-- Threads that are not the one that takes the step. -/
lemma map_step {i : ι} {is : List ι} (hi : i ∉ is) (p : Pool C R α σ ι) :
    is.map (fun j => result ((p.step h i).2.threads j)) = is.map fun j => result (p.threads j) :=
  List.map_congr_left fun j hj => by
    have hji : j ≠ i := fun hji => hi (hji ▸ hj)
    rw [step_other hji]

/-- The threads that have not begun rest, and the silent ones stay silent. -/
lemma Turned.threads_step (hp : Turned h ps loud s pre p) (i : ι) :
    (∀ j, loud j → j ∉ pre ++ [i] → (p.step h i).2.threads j = ps j) ∧
      ∀ j, ¬ loud j → Issues (Silent h) (fun _ => True) ((p.step h i).2.threads j) := by
  refine ⟨fun j hl hj => ?_, fun j hj => ?_⟩
  · rw [List.mem_append, List.mem_singleton, not_or] at hj
    rw [step_other hj.2, hp.rest j hl hj.1]
  · by_cases hji : j = i
    · rw [hji] at hj ⊢
      exact (step_of_silent (hp.silent i hj)).2
    · rw [step_other hji]
      exact hp.silent j hj

/-- A silent thread takes a step: nobody sees it. -/
lemma Turned.step_silent (hp : Turned h ps loud s pre p) {i : ι} (hl : ¬ loud i) :
    Turned h ps loud s (pre ++ [i]) (p.step h i).2 := by
  obtain ⟨hrest, hsilent⟩ := hp.threads_step i
  have hstate := (step_of_silent (hp.silent i hl)).1
  refine ⟨hrest, hsilent, ?_, ?_⟩
  · rw [begun_of_silent hl, hstate]
    exact hp.start
  · intro is j hlast
    rw [begun_of_silent hl] at hlast
    have hloud : ∀ k ∈ is ++ [j], k ≠ i := fun k hk hki => by
      rw [← hlast] at hk
      exact hl (hki ▸ (mem_begun.mp hk).2)
    rw [hstate, step_other (hloud j (by simp)), map_step fun hi => hloud i (by simp [hi]) rfl]
    exact hp.last is j hlast

/-- A loud thread begins: those that began have ended. -/
lemma Turned.step_begins (hp : Turned h ps loud s pre p) {i : ι} (hl : loud i) (hi : i ∉ pre)
    (hend : ∀ j ∈ begun loud pre, (result (p.threads j)).isSome) :
    Turned h ps loud s (pre ++ [i]) (p.step h i).2 := by
  obtain ⟨hrest, hsilent⟩ := hp.threads_step i
  obtain ⟨hmap, hstate⟩ := hp.settled hend
  refine ⟨hrest, hsilent, ?_, ?_⟩
  · rw [begun_of_not_mem hl hi]
    intro hnil
    simp at hnil
  · intro is j hlast
    rw [begun_of_not_mem hl hi] at hlast
    obtain ⟨rfl, hji⟩ := List.append_inj' hlast rfl
    rw [← List.singleton_inj.mp hji, run_step_self, hp.rest i hl hi, hstate,
      map_step fun hmem => hi (mem_begun.mp hmem).1]
    exact ⟨rfl, hmap⟩

/-- A loud thread that began goes on: it is the one that began last, or has ended. -/
lemma Turned.step_goes_on (hp : Turned h ps loud s pre p) {i : ι} (hl : loud i) (hi : i ∈ pre) :
    Turned h ps loud s (pre ++ [i]) (p.step h i).2 := by
  obtain ⟨hrest, hsilent⟩ := hp.threads_step i
  have hbegun := mem_begun.mpr ⟨hi, hl⟩
  refine ⟨hrest, hsilent, ?_, ?_⟩
  · rw [begun_of_mem hi]
    intro hnil
    rw [hnil] at hbegun
    cases hbegun
  · intro is j hlast
    rw [begun_of_mem hi] at hlast
    obtain ⟨hrun, his⟩ := hp.last is j hlast
    have hnodup : (begun loud pre).Nodup := nodup_begun pre
    rw [hlast] at hnodup hbegun
    by_cases hji : j = i
    · have hmem : i ∉ is := fun hmem =>
        (List.nodup_append.mp hnodup).2.2 i hmem j (List.mem_singleton_self j) hji.symm
      rw [hji] at hrun ⊢
      rw [run_step_self, map_step hmem]
      exact ⟨hrun, his⟩
    · have hmem : i ∈ is := (List.mem_append.mp hbegun).resolve_right fun hij =>
        hji (List.mem_singleton.mp hij).symm
      have hsome : result (p.threads i) ∈ is.map fun j => result (p.threads j) :=
        List.mem_map_of_mem hmem
      rw [his] at hsome
      obtain ⟨a, -, ha⟩ := List.mem_map.mp hsome
      rw [step_of_ended (by rw [← ha]; rfl)]
      exact ⟨hrun, his⟩

/-- **A step keeps the turns.** -/
lemma Turned.step (hp : Turned h ps loud s pre p) {i : ι}
    (hturn : loud i → ∀ j ∈ pre, loud j → j ≠ i → (result (p.threads j)).isSome) :
    Turned h ps loud s (pre ++ [i]) (p.step h i).2 := by
  by_cases hl : loud i
  · by_cases hi : i ∈ pre
    · exact hp.step_goes_on hl hi
    · refine hp.step_begins hl hi fun j hj => ?_
      obtain ⟨hmem, hlj⟩ := mem_begun.mp hj
      exact hturn hl j hmem hlj fun hji => hi (hji ▸ hmem)
  · exact hp.step_silent hl

/-- **A run in turns is the runs of the loud threads one after another**, in the order in which
they begin. -/
theorem run_turns (hsilent : ∀ i, ¬ loud i → Issues (Silent h) (fun _ => True) (ps i))
    {schedule : List ι} (hturns : TakeTurns h ps loud s schedule)
    (hend : ∀ i ∈ schedule, loud i →
      (result ((Pool.run h schedule ⟨s, ps⟩).2.threads i)).isSome) :
    (begun loud schedule).map (fun j => result ((Pool.run h schedule ⟨s, ps⟩).2.threads j)) =
        (Machines.run (alone h ps) (begun loud schedule) s).1.map some ∧
      (Pool.run h schedule ⟨s, ps⟩).2.state =
        (Machines.run (alone h ps) (begun loud schedule) s).2 := by
  have hturned : ∀ pre post, schedule = pre ++ post →
      Turned h ps loud s pre (Pool.run h pre ⟨s, ps⟩).2 := by
    intro pre
    induction pre using List.reverseRecOn with
    | nil => exact fun _ _ => ⟨fun _ _ _ => rfl, hsilent, fun _ => rfl, by simp [begun]⟩
    | append_singleton pre i ih =>
      intro post hpost
      rw [List.append_assoc, List.singleton_append] at hpost
      rw [Pool.run_snoc]
      exact (ih _ hpost).step (hturns.behind hpost)
  refine (hturned schedule [] (by rw [List.append_nil])).settled fun i hi => ?_
  obtain ⟨hmem, hl⟩ := mem_begun.mp hi
  exact hend i hmem hl

end EvmDb.Turns
