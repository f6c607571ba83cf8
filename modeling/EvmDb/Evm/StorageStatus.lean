import EvmDb.Evm.Effects

/-!
The status of a storage write, against the status EVMC defines.

EVMC goes by the value of the slot when the transaction began, its value now, and the new one.
`host_set_storage` knows the last two only.
-/

namespace EvmDb.StorageStatus

open EvmDb.Types EvmDb.Program EvmDb.Redis EvmDb.RedisState EvmDb.Host EvmDb.Executor EvmDb.Plan
open EvmDb.Effects

/-! ### The status EVMC defines -/

/-- `evmc_storage_status`. -/
inductive EvmcStatus
  | assigned
  | added
  | deleted
  | modified
  | deletedAdded
  | modifiedDeleted
  | deletedRestored
  | addedDeleted
  | modifiedRestored
  deriving DecidableEq

/-- A status that `host_set_storage` knows. -/
def evmcStatusOf : Host.StorageStatus → EvmcStatus
  | .assigned => .assigned
  | .added => .added
  | .deleted => .deleted
  | .modified => .modified

/-- The status of a write, by the original value of the slot, its current one and the new one. -/
def evmcStatus (o c v : Bytes32) : EvmcStatus :=
  if c = v then .assigned
  else if c = o then
    if o = .zero 32 then .added else if v = .zero 32 then .deleted else .modified
  else if o ≠ .zero 32 ∧ c = .zero 32 ∧ v ≠ .zero 32 ∧ v ≠ o then .deletedAdded
  else if o ≠ .zero 32 ∧ c ≠ .zero 32 ∧ v = .zero 32 then .modifiedDeleted
  else if o ≠ .zero 32 ∧ c = .zero 32 ∧ v = o then .deletedRestored
  else if o = .zero 32 ∧ c ≠ .zero 32 ∧ v = .zero 32 then .addedDeleted
  else if o ≠ .zero 32 ∧ c ≠ .zero 32 ∧ v = o then .modifiedRestored
  else .assigned

/-- The host's status is EVMC's for a slot that has its original value, and for no other unless
nothing changes. -/
lemma storageStatus_eq_iff {o c v : Bytes32} :
    evmcStatusOf (storageStatus c v) = evmcStatus o c v ↔ c = v ∨ c = o := by
  unfold storageStatus evmcStatus
  simp only [bytes32IsZero_iff]
  by_cases hsame : c = v
  · simp [hsame, evmcStatusOf]
  by_cases hfirst : c = o
  · subst hfirst
    by_cases hc : c = .zero 32 <;> by_cases hv : v = .zero 32 <;> simp_all [evmcStatusOf]
  · simp only [hsame, hfirst, if_false, or_self, iff_false]
    split_ifs <;> exact fun h => by cases h

lemma evmcStatus_eq_assigned {o v : Bytes32} : evmcStatus o o v = .assigned ↔ o = v := by
  unfold evmcStatus
  by_cases hsame : o = v
  · rw [if_pos hsame]
    exact iff_of_true rfl hsame
  · rw [if_neg hsame, if_pos rfl]
    split_ifs <;> simp [hsame]

/-! ### The status of each call -/

/-- What a contract reads from a slot at some point of its run. -/
def slotValue (env : HostEnv) (x : ExecContext × Store) (addr : Address) (key : Bytes32) :
    Bytes32 :=
  (hostHandler env x (.getStorage addr key)).1

/-- The overlay takes a write: it has an entry for the slot, or there is room for one more. -/
def HasRoom (env : HostEnv) (ctx : ExecContext) (addr : Address) (key : Bytes32) : Prop :=
  (execContextGetWrite ctx addr key).isSome ∨ ctx.writes.length ≠ ctx.writeCap ∨
    env.realloc (if ctx.writeCap ≠ 0 then ctx.writeCap * 2 else 8) = true

/-- Every write of a run has the status that EVMC defines for it. -/
def StatusesMatch (env : HostEnv) {α : Type} (p : EvmProg α) (x : ExecContext × Store) : Prop :=
  ∀ y addr key v status,
    (y, (⟨.setStorage addr key v, status⟩ : (c : HostCall) × c.Answer)) ∈
        history (hostHandler env) p x →
      evmcStatusOf status = evmcStatus (slotValue env x addr key) (slotValue env y addr key) v

/-- No write of a run changes a slot twice: it has its original value, unless nothing changes, and
the overlay takes what is written. -/
def FirstChanges (env : HostEnv) {α : Type} (p : EvmProg α) (x : ExecContext × Store) : Prop :=
  ∀ y addr key v status,
    (y, (⟨.setStorage addr key v, status⟩ : (c : HostCall) × c.Answer)) ∈
        history (hostHandler env) p x →
      slotValue env y addr key = v ∨
        slotValue env y addr key = slotValue env x addr key ∧ HasRoom env y.1 addr key

section

variable {env : HostEnv} {ctx : ExecContext} {s : Store} {addr : Address} {key v : Bytes32}

lemma run_currentStorage : run server (currentStorage env ctx addr key) s =
    ((execContextGetWrite ctx addr key).getD (run server (getStorage addr key env.uninit) s).1,
      s) := by
  unfold currentStorage
  cases execContextGetWrite ctx addr key <;> rfl

lemma slotValue_eq : slotValue env (ctx, s) addr key =
    (execContextGetWrite ctx addr key).getD (run server (getStorage addr key env.uninit) s).1 := by
  show (run server (currentStorage env ctx addr key >>= fun v => .ret (v, ctx)) s).1.1 = _
  rw [run_bind, run_currentStorage]
  rfl

lemma getWrite_isSome : (execContextGetWrite ctx addr key).isSome ↔
    (addr, key) ∈ ctx.writes.map slot := by
  unfold execContextGetWrite
  rw [Option.isSome_map, List.find?_isSome, List.mem_map]
  constructor
  · rintro ⟨w, hw, hfor⟩
    exact ⟨w, List.mem_reverse.mp hw, isFor_iff.mp hfor⟩
  · rintro ⟨w, hw, hslot⟩
    exact ⟨w, List.mem_reverse.mpr hw, isFor_iff.mpr hslot⟩

lemma rc_setWrite_iff : (execContextSetWrite env.realloc ctx addr key v).1 = 0 ↔
    HasRoom env ctx addr key := by
  unfold execContextSetWrite HasRoom
  rw [getWrite_isSome]
  rcases ho : overwrite addr key v ctx.writes with _ | ws
  · have hout := overwrite_eq_none.mp ho
    dsimp only
    split_ifs with hfull hzero hgrows <;> simp_all
  · have hin : (addr, key) ∈ ctx.writes.map slot := by
      by_contra hout
      rw [overwrite_eq_none.mpr hout] at ho
      cases ho
    exact iff_of_true rfl (Or.inl hin)

/-- A write that finds no room is none. -/
lemma status_eq : (hostHandler env (ctx, s) (.setStorage addr key v)).1 =
    if (execContextSetWrite env.realloc ctx addr key v).1 ≠ 0 then .assigned
    else storageStatus (slotValue env (ctx, s) addr key) v := by
  show (run server (hostSetStorage env ctx addr key v) s).1.1 = _
  unfold hostSetStorage
  rw [run_bind, run_currentStorage, slotValue_eq]
  rfl

/-- The status of a write that finds the store as it was: an overlay without room has no entry for
the slot, so the slot has its original value. -/
lemma status_eq_iff : evmcStatusOf (hostHandler env (ctx, s) (.setStorage addr key v)).1 =
      evmcStatus (run server (getStorage addr key env.uninit) s).1
        (slotValue env (ctx, s) addr key) v ↔
    slotValue env (ctx, s) addr key = v ∨
      slotValue env (ctx, s) addr key = (run server (getStorage addr key env.uninit) s).1 ∧
        HasRoom env ctx addr key := by
  rw [status_eq]
  by_cases hroom : HasRoom env ctx addr key
  · rw [if_neg (not_not_intro (rc_setWrite_iff.mpr hroom)), storageStatus_eq_iff]
    simp [hroom]
  · have hnone : execContextGetWrite ctx addr key = none := by
      rw [← Option.not_isSome_iff_eq_none]
      exact fun h => hroom (Or.inl h)
    have hvalue : slotValue env (ctx, s) addr key =
        (run server (getStorage addr key env.uninit) s).1 := by
      rw [slotValue_eq, hnone]
      rfl
    rw [if_pos fun h => hroom (rc_setWrite_iff.mp h), hvalue]
    have hassigned := @evmcStatus_eq_assigned (run server (getStorage addr key env.uninit) s).1 v
    rw [← hassigned]
    simp [hroom, evmcStatusOf, eq_comm]

end

/-- **Which runs get the statuses of EVMC**: those in which every write finds the slot as it was
when the transaction began and the overlay takes the write, unless the write changes nothing. -/
theorem statusesMatch_iff (env : HostEnv) {α : Type} (p : EvmProg α)
    (blockCtx : Option BlockContext) (origin : Address) (s : Store) :
    StatusesMatch env p (contextFor blockCtx origin, s) ↔
      FirstChanges env p (contextFor blockCtx origin, s) := by
  have hinv := forall_history (h := hostHandler env) (I := fun x => x.2 = s ∧ OneEntry x.1)
    (fun x c hx => by
      obtain ⟨ctx, s'⟩ := x
      obtain ⟨rfl, hone⟩ := hx
      exact run_reads (reads_of_stateReads (issues_hostInterface c ctx hone)) s')
    p (s := (contextFor blockCtx origin, s)) ⟨rfl, List.nodup_nil⟩
  have horiginal : ∀ addr key, slotValue env (contextFor blockCtx origin, s) addr key =
      (run server (getStorage addr key env.uninit) s).1 := fun _ _ => slotValue_eq
  unfold StatusesMatch FirstChanges
  refine forall_congr' fun y => forall_congr' fun addr => forall_congr' fun key =>
    forall_congr' fun v => forall_congr' fun status => forall_congr' fun hmem => ?_
  obtain ⟨ctx, s'⟩ := y
  obtain ⟨⟨rfl, -⟩, hstatus⟩ := hinv _ hmem
  dsimp only at hstatus
  rw [hstatus, horiginal]
  exact status_eq_iff

/-- A slot that holds one is set to zero and then to one again. -/
def restoring : EvmProg Unit :=
  .cmd (.setStorage (.zero 20) (.zero 32) (.zero 32)) fun _ =>
    .cmd (.setStorage (.zero 20) (.zero 32) (bytes32FromUint64 1)) fun _ => .ret ()

def slotStore : Store :=
  put (fun _ => none) (storageCell (.zero 20) (.zero 32)) (bytes32ToHex (bytes32FromUint64 1))

/-- The second write restores the slot, but is said to add it. -/
theorem not_statusesMatch_restoring :
    ¬ StatusesMatch idle.toHostEnv restoring (contextFor none (.zero 20), slotStore) := by
  intro hmatch
  have hrestored := hmatch _ _ _ _ _ (List.mem_cons_of_mem _ List.mem_cons_self)
  revert hrestored
  decide +kernel

end EvmDb.StorageStatus
