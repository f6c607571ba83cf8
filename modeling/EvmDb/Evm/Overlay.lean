import EvmDb.Evm.Effects

/-!
The overlay against a store that is written at once.

A contract whose writes go to the overlay cannot tell that they are not in the store yet, and
committing the overlay makes up for them.
-/

namespace EvmDb.Overlay

open EvmDb.Types EvmDb.Keccak EvmDb.Hex EvmDb.Program EvmDb.Redis EvmDb.RedisState EvmDb.Host
open EvmDb.Executor EvmDb.Plan EvmDb.Effects

/-! ### The abstract host -/

/-- A host without an overlay: a write goes to the store at once, and every other callback is
answered from the store and the block context. -/
def directHandler (env : HostEnv) (ctx : ExecContext) : Handler HostCall HostCall.Answer Store
  | s, .getStorage addr key => run server (getStorage addr key env.uninit) s
  | s, .setStorage addr key value =>
    (storageStatus (run server (getStorage addr key env.uninit) s).1 value,
      (run server (setStorage addr key value) s).2)
  | s, c => ((run server (hostInterface env c { ctx with writes := [] }) s).1.1, s)

/-- The store that an overlay stands for. -/
def flush (ctx : ExecContext) (s : Store) : Store := puts (ctx.writes.map storageWrite) s

variable {env : HostEnv}

/-! ### The store an overlay stands for -/

lemma flush_of_nil {ctx : ExecContext} (h : ctx.writes = []) (s : Store) : flush ctx s = s := by
  unfold flush
  rw [h]
  rfl

lemma flush_other {ctx : ExecContext} {c : Cell} (h : ∀ a k, c ≠ storageCell a k) (s : Store) :
    flush ctx s c = s c := by
  apply puts_of_notMem
  intro hmem
  obtain ⟨w, hw, rfl⟩ := List.mem_map.mp hmem
  obtain ⟨e, -, rfl⟩ := List.mem_map.mp hw
  exact h e.address e.key rfl

/-- What is read through the overlay is what is in the store it stands for. -/
lemma run_currentStorage {ctx : ExecContext} (h : OneEntry ctx) (a : Address) (k : Bytes32)
    (s : Store) :
    run server (currentStorage env ctx a k) s =
      ((run server (getStorage a k env.uninit) (flush ctx s)).1, s) := by
  have hflush : (run server (getStorage a k env.uninit) (flush ctx s)).1 =
      wordOf env.uninit (some (.ofCell (flush ctx s (storageCell a k)))) := rfl
  rw [hflush, flush, puts_overlay h]
  unfold currentStorage
  rcases execContextGetWrite ctx a k with _ | v
  · rfl
  · show (v, s) = (wordOf env.uninit (some (.ofCell (some (bytes32ToHex v)))), s)
    rw [wordOf_bytes32ToHex]

/-- Setting a slot in the overlay is setting it in the store it stands for. -/
lemma flush_setWrite (hr : ∀ n, env.realloc n = true) {ctx : ExecContext} (h : OneEntry ctx)
    (a : Address) (k v : Bytes32) (s : Store) :
    flush (execContextSetWrite env.realloc ctx a k v).2 s =
      put (flush ctx s) (storageCell a k) (bytes32ToHex v) := by
  have h' := @oneEntry_setWrite env.realloc ctx h a k v
  ext1 c
  by_cases hslot : ∃ b l, c = storageCell b l
  · obtain ⟨b, l, rfl⟩ := hslot
    rw [flush, puts_overlay h', getWrite_setWrite hr h]
    by_cases hs : (a, k) = (b, l)
    · obtain ⟨rfl, rfl⟩ := Prod.mk.inj hs
      rw [if_pos rfl, put_same]
      rfl
    · have hne : storageCell b l ≠ storageCell a k := by
        intro hc
        obtain ⟨rfl, rfl⟩ := storageCell_inj.mp hc
        exact hs rfl
      rw [if_neg hs, put_of_ne _ _ hne, flush, puts_overlay h]
  · have hother : ∀ b l, c ≠ storageCell b l := fun b l hc => hslot ⟨b, l, hc⟩
    rw [flush_other hother, put_of_ne _ _ (hother a k), flush_other hother]

/-- An overlay that can grow takes the write. -/
lemma rc_setWrite (hr : ∀ n, env.realloc n = true) (ctx : ExecContext) (a : Address)
    (k v : Bytes32) : (execContextSetWrite env.realloc ctx a k v).1 = 0 := by
  unfold execContextSetWrite
  split
  · rfl
  · simp only [hr, if_true]
    split_ifs <;> rfl

lemma txContext_setWrite (ctx : ExecContext) (a : Address) (k v : Bytes32) :
    hostGetTxContext (execContextSetWrite env.realloc ctx a k v).2 = hostGetTxContext ctx := by
  unfold execContextSetWrite
  split
  · rfl
  · dsimp only
    split_ifs <;> rfl

/-! ### Simulation -/

/-- The overlay over a store, and the store that is written at once. -/
structure Sim (ctx₀ : ExecContext) (s₀ : Store) (x : ExecContext × Store) (t : Store) : Prop where
  store : x.2 = s₀
  context : hostGetTxContext x.1 = hostGetTxContext ctx₀
  oneEntry : OneEntry x.1
  flushed : t = flush x.1 s₀

variable {ctx₀ : ExecContext} {s₀ : Store}

/-- What does not concern the storage is the same in the store an overlay stands for. -/
lemma answer_flush {ctx : ExecContext} (hctx : hostGetTxContext ctx = hostGetTxContext ctx₀)
    (c : HostCall) (s : Store) (hget : ∀ a k, c ≠ .getStorage a k)
    (hset : ∀ a k v, c ≠ .setStorage a k v) :
    hostHandler env (ctx, s) c = ((directHandler env ctx₀ (flush ctx s) c).1, (ctx, s)) ∧
      (directHandler env ctx₀ (flush ctx s) c).2 = flush ctx s := by
  have hcode : ∀ addr, storedCode (flush ctx s) addr = storedCode s addr := by
    intro addr
    unfold storedCode
    rw [flush_other fun a k hc => by cases hc]
  have hfield : ∀ (addr : Address) (f : Bytes), flush ctx s (.field (accountKey addr) f) =
      s (.field (accountKey addr) f) := by
    intro addr f
    apply flush_other
    intro a k hc
    have hk := congrArg List.head? (Cell.field.inj hc).1
    simp [storageKey, accountKey, ascii] at hk
  cases c with
  | getStorage a k => exact absurd rfl (hget a k)
  | setStorage a k v => exact absurd rfl (hset a k v)
  | accountExists addr =>
    refine ⟨?_, rfl⟩
    show (decide (numberOf (some (.ofCell (s (nonceCell addr)))) ≠ 0 ∨
        bytes32IsZero (wordOf env.uninit (some (.ofCell (s (.field (accountKey addr)
          (ascii "balance")))))) = false ∨ (storedCode s addr).length ≠ 0), (ctx, s)) =
      (decide (numberOf (some (.ofCell (flush ctx s (nonceCell addr)))) ≠ 0 ∨
        bytes32IsZero (wordOf env.uninit (some (.ofCell (flush ctx s (.field (accountKey addr)
          (ascii "balance")))))) = false ∨ (storedCode (flush ctx s) addr).length ≠ 0), (ctx, s))
    rw [hcode, nonceCell, hfield, hfield]
  | getBalance addr =>
    refine ⟨?_, rfl⟩
    show (wordOf env.uninit (some (.ofCell (s (.field (accountKey addr) (ascii "balance"))))),
        (ctx, s)) =
      (wordOf env.uninit (some (.ofCell (flush ctx s (.field (accountKey addr)
        (ascii "balance"))))), (ctx, s))
    rw [hfield]
  | getCodeSize addr =>
    refine ⟨?_, rfl⟩
    show ((storedCode s addr).length, (ctx, s)) = ((storedCode (flush ctx s) addr).length, (ctx, s))
    rw [hcode]
  | getCodeHash addr =>
    refine ⟨?_, rfl⟩
    show (keccak256 (storedCode s addr), (ctx, s)) =
      (keccak256 (storedCode (flush ctx s) addr), (ctx, s))
    rw [hcode]
  | copyCode addr offset size =>
    refine ⟨?_, rfl⟩
    show (if offset < (storedCode s addr).length then ((storedCode s addr).drop offset).take size
        else [], (ctx, s)) =
      (if offset < (storedCode (flush ctx s) addr).length then
        ((storedCode (flush ctx s) addr).drop offset).take size else [], (ctx, s))
    rw [hcode]
  | getTxContext => exact ⟨Prod.ext hctx rfl, rfl⟩
  | _ => exact ⟨rfl, rfl⟩

/-- **One callback cannot tell the overlay from the store that is written at once.** -/
lemma Sim.step (hr : ∀ n, env.realloc n = true) {x : ExecContext × Store} {t : Store}
    (h : Sim ctx₀ s₀ x t) (c : HostCall) :
    (hostHandler env x c).1 = (directHandler env ctx₀ t c).1 ∧
      Sim ctx₀ s₀ (hostHandler env x c).2 (directHandler env ctx₀ t c).2 := by
  obtain ⟨ctx, s⟩ := x
  obtain ⟨rfl, hctx, hone, rfl⟩ := h
  by_cases hget : ∃ a k, c = .getStorage a k
  · obtain ⟨a, k, rfl⟩ := hget
    have hrun : hostHandler env (ctx, s) (.getStorage a k) =
        ((run server (getStorage a k env.uninit) (flush ctx s)).1, (ctx, s)) := by
      show ((run server (currentStorage env ctx a k >>= fun v => .ret (v, ctx)) s).1.1,
        ((run server (currentStorage env ctx a k >>= fun v => .ret (v, ctx)) s).1.2,
          (run server (currentStorage env ctx a k >>= fun v => .ret (v, ctx)) s).2)) = _
      rw [run_bind, run_currentStorage hone]
      rfl
    rw [hrun]
    exact ⟨rfl, rfl, hctx, hone, rfl⟩
  by_cases hset : ∃ a k v, c = .setStorage a k v
  · obtain ⟨a, k, v, rfl⟩ := hset
    have hrc : (execContextSetWrite env.realloc ctx a k v).1 = 0 := rc_setWrite hr ctx a k v
    have hrun : hostHandler env (ctx, s) (.setStorage a k v) =
        (storageStatus (run server (getStorage a k env.uninit) (flush ctx s)).1 v,
          ((execContextSetWrite env.realloc ctx a k v).2, s)) := by
      show ((run server (hostSetStorage env ctx a k v) s).1.1,
        ((run server (hostSetStorage env ctx a k v) s).1.2,
          (run server (hostSetStorage env ctx a k v) s).2)) = _
      unfold hostSetStorage
      rw [run_bind, run_currentStorage hone]
      show (if (execContextSetWrite env.realloc ctx a k v).1 ≠ 0 then StorageStatus.assigned
        else storageStatus _ v, ((execContextSetWrite env.realloc ctx a k v).2, s)) = _
      rw [if_neg (not_not_intro hrc)]
    rw [hrun]
    refine ⟨rfl, rfl, ?_, oneEntry_setWrite hone a k v, (flush_setWrite hr hone a k v s).symm⟩
    rw [← hctx]
    exact txContext_setWrite ctx a k v
  · obtain ⟨hrun, hsame⟩ := @answer_flush env ctx₀ ctx hctx c s (fun a k hc => hget ⟨a, k, hc⟩)
      fun a k v hc => hset ⟨a, k, v, hc⟩
    rw [hrun, hsame]
    exact ⟨rfl, rfl, hctx, hone, rfl⟩

lemma sim_refl (s : Store) (h : ctx₀.writes = []) : Sim ctx₀ s (ctx₀, s) s where
  store := rfl
  context := rfl
  oneEntry := by
    unfold OneEntry
    rw [h]
    exact List.nodup_nil
  flushed := (flush_of_nil h s).symm

/-- **The overlay refines direct writes.** Whatever a contract does, it gets the answers it would
get if its writes went to the store at once; the store stays as it is meanwhile, with one entry in
the overlay for each slot; and committing the overlay makes the store what the writes would have
made it, which differs from the old one in slots only. -/
theorem overlay_refines (env : HostEnv) (hr : ∀ n, env.realloc n = true) {α : Type} (p : EvmProg α)
    (blockCtx : Option BlockContext) (origin : Address) (s : Store) :
    let ctx := contextFor blockCtx origin
    let direct := run (directHandler env ctx) p s
    transcript (hostHandler env) p (ctx, s) = transcript (directHandler env ctx) p s ∧
      (∀ x ∈ states (hostHandler env) p (ctx, s), x.2 = s ∧ OneEntry x.1) ∧
        (∃ ctx', run server (interp (hostInterface env) p ctx) s = ((direct.1, ctx'), s) ∧
          run server (execContextCommit ctx') s = (0, direct.2)) ∧
          ∀ c, (∀ a k, c ≠ storageCell a k) → direct.2 c = s c := by
  intro ctx direct
  have hstart : Sim ctx s (ctx, s) s := sim_refl s rfl
  have hstep : ∀ (x : ExecContext × Store) (t : Store) (c : HostCall), Sim ctx s x t →
      (hostHandler env x c).1 = (directHandler env ctx t c).1 ∧
        Sim ctx s (hostHandler env x c).2 (directHandler env ctx t c).2 :=
    fun _ _ c h => h.step hr c
  obtain ⟨hres, htr, hend⟩ := run_sim hstep p hstart
  refine ⟨htr, ?_, ⟨(run (hostHandler env) p (ctx, s)).2.1, ?_, ?_⟩, ?_⟩
  · refine forall_states (I := fun x : ExecContext × Store => x.2 = s ∧ OneEntry x.1) ?_ p
      ⟨rfl, hstart.oneEntry⟩
    rintro ⟨ctx', s'⟩ c ⟨rfl, hone⟩
    obtain ⟨hs, hone', -⟩ := hostHandler_step hr hone s' c
    exact ⟨hs, hone'⟩
  · rw [run_interp]
    exact Prod.ext (Prod.ext hres rfl) hend.store
  · unfold execContextCommit
    rw [commitWrites_eq, run_bind, run_perform]
    exact Prod.ext rfl hend.flushed.symm
  · intro c hc
    show (run (directHandler env ctx) p s).2 c = s c
    rw [hend.flushed, flush_other hc]

/-- A contract that sets a slot and reads it back. -/
def writeThenRead : EvmProg Bytes32 :=
  .cmd (.setStorage (.zero 20) (.zero 32) (bytes32FromUint64 7)) fun _ =>
    .cmd (.getStorage (.zero 20) (.zero 32)) .ret

/-- It gets what it has written. -/
theorem overlay_writeThenRead :
    ∃ ctx', run server (interp (hostInterface idle.toHostEnv) writeThenRead
        (contextFor none (.zero 20))) (fun _ => none) =
      ((bytes32FromUint64 7, ctx'), fun _ => none) := by
  obtain ⟨-, -, ⟨ctx', hrun, -⟩, -⟩ := overlay_refines idle.toHostEnv (fun _ => rfl)
    writeThenRead none (.zero 20) fun _ => none
  have hread : (run (directHandler idle.toHostEnv (contextFor none (.zero 20))) writeThenRead
      fun _ => none).1 = bytes32FromUint64 7 := by
    decide +kernel
  exact ⟨ctx', hrun.trans (by rw [hread])⟩

end EvmDb.Overlay
