import EvmDb.Lib.Redis

/-!
Programs that are stopped and started again.

A program that is stopped after some commands has done the first of its writes. Where the cells
are different, doing some writes again after a part of them is the same as going on.
-/

namespace EvmDb.Redo

open EvmDb.Program EvmDb.Redis

variable {C : Type} {R : C → Type} {α β σ : Type}

/-! ### Stopped programs -/

/-- The state when a program is stopped after some commands, unless it has ended before. -/
def stopped (h : Handler C R σ) : ℕ → Prog C R α → σ → σ
  | 0, _, s => s
  | _ + 1, .ret _, s => s
  | k + 1, .cmd c f, s => stopped h k (f (h s c).1) (h s c).2

lemma stopped_zero (h : Handler C R σ) (p : Prog C R α) (s : σ) : stopped h 0 p s = s := by
  cases p <;> rfl

lemma stopped_ret (h : Handler C R σ) (k : ℕ) (a : α) (s : σ) : stopped h k (.ret a) s = s := by
  cases k <;> rfl

/-- A program that is stopped behind a phase which changes nothing, or in it. -/
lemma stopped_bind {h : Handler C R σ} {post : α → Prop} {p : Prog C R α}
    (hp : Issues (fun c => ∀ s, (h s c).2 = s) post p) (f : α → Prog C R β) (k : ℕ) (s : σ) :
    ∃ n, stopped h k (p >>= f) s = stopped h n (f (run h p s).1) s := by
  induction p generalizing k with
  | ret a => exact ⟨k, rfl⟩
  | cmd c g ih =>
    cases k with
    | zero => exact ⟨0, by rw [stopped_zero, stopped_zero]⟩
    | succ k =>
      obtain ⟨n, hn⟩ := ih (h s c).1 (hp.2 _) k
      refine ⟨n, ?_⟩
      show stopped h k (g (h s c).1 >>= f) (h s c).2 = _
      rw [run_step, hp.1 s, hn]

/-! ### Writes that are done again -/

/-- Some writes that are stopped: the first of them. -/
lemma stopped_perform (ws : List Write) (a : α) (k : ℕ) (s : Store) :
    stopped server k (perform ws >>= fun _ => .ret a) s = puts (ws.take k) s := by
  induction ws generalizing k s with
  | nil =>
    rw [List.take_nil]
    exact stopped_ret server k a s
  | cons w ws ih =>
    cases k with
    | zero => rfl
    | succ k =>
      show stopped server k (perform ws >>= fun _ => .ret a) (exec s w.command).2 = _
      rw [ih, exec_command]
      rfl

/-- After the first of some writes to different cells, the cells of the others are what they
were. -/
lemma puts_take {ws : List Write} (hnd : (ws.map Prod.fst).Nodup) (k : ℕ) (s : Store) (c : Cell) :
    puts (ws.take k) s c = if c ∈ (ws.drop k).map Prod.fst then s c else puts ws s c := by
  have hsplit := List.take_append_drop k ws
  rw [← hsplit, List.map_append] at hnd
  split_ifs with hc
  · refine puts_of_notMem (fun hmem => ?_) s
    exact (List.nodup_append.mp hnd).2.2 c hmem c hc rfl
  · conv_rhs => rw [← hsplit, puts_append]
    exact (puts_of_notMem hc _).symm

/-- **Going on.** To do some writes to different cells from the start, after some of them were
done, is to do the more of them. -/
lemma puts_take_take {ws : List Write} (hnd : (ws.map Prod.fst).Nodup) (j k : ℕ) (s : Store) :
    puts (ws.take k) (puts (ws.take j) s) = puts (ws.take (max j k)) s := by
  have hcells : ∀ n, ((ws.take n).map Prod.fst).Nodup := fun n =>
    hnd.sublist ((List.take_sublist n ws).map Prod.fst)
  funext c
  by_cases hc : c ∈ (ws.take k).map Prod.fst
  · obtain ⟨w, hw, rfl⟩ := List.mem_map.mp hc
    have hmax : w ∈ ws.take (max j k) :=
      (List.take_sublist_take_left (Nat.le_max_right j k)).subset hw
    rw [puts_of_mem (hcells k) hw, puts_of_mem (hcells _) hmax]
  · rw [puts_of_notMem hc]
    rcases Nat.le_total j k with hle | hle
    · have hj : c ∉ (ws.take j).map Prod.fst := fun hmem =>
        hc (((List.take_sublist_take_left hle).map Prod.fst).subset hmem)
      rw [Nat.max_eq_right hle, puts_of_notMem hc, puts_of_notMem hj]
    · rw [Nat.max_eq_left hle]

end EvmDb.Redo
