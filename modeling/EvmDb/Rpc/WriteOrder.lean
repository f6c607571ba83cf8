import EvmDb.Lib.Paths
import EvmDb.Rpc.Concurrent

/-!
The order in which a request that sends a transaction writes.

Nothing is assumed of the replies: commands may fail, other requests may come in between, and the
request may be stopped after any command. It reads, and then it either ends with an error or
writes: the effects of its transaction, the nonce, the block number and the receipt.
-/

namespace EvmDb.WriteOrder

open EvmDb.Types EvmDb.Digits EvmDb.Program EvmDb.Redis EvmDb.RedisState EvmDb.Executor EvmDb.Plan
open EvmDb.Request EvmDb.SendRaw EvmDb.Threads EvmDb.Concurrent EvmDb.Paths

/-! ### The writes of a request -/

def blockWrite (number : UInt64) : Write := (blockCell, decimal number.toNat)

def receiptWrite (txHash : Hash) (receipt : Receipt) : Write := (receiptCell txHash, receipt.text)

/-- The writes of a transaction that is executed behind a block, in order. -/
def sendWrites (rpc : Rpc) (tx : Tx) (latest : UInt64) (success : Bool) (gasUsed : UInt64)
    (effects : List Write) : List Write :=
  effects ++ [nonceWrite tx.fromAddr (tx.nonce + 1), blockWrite (latest + 1),
    receiptWrite tx.hash (receiptFor rpc tx (latest + 1) success gasUsed)]

/-- The commands of a request and the replies to them. -/
abbrev Log := List ((_ : Command) × Option Reply)

def commands (l : Log) : List Command := l.map Sigma.fst

/-- A command was issued and its reply was read as a number. -/
def ReadNumber (l : Log) (c : Command) (n : UInt64) : Prop := ∃ r, ⟨c, r⟩ ∈ l ∧ numberOf r = n

/-- Where a request is, or how it has ended. It has only read, and if it has ended, with an error;
or it has read the nonce of its transaction and a block number, and then written in order, and if
it has ended, everything and with a result. -/
inductive InOrder (i : SendRequest) : Log → RedisProg Response → Prop
  | reading {l : Log} {q : RedisProg Response} (hreads : ∀ e ∈ l, Reads e.1)
    (hend : ∀ r, q = .ret r → r.isError = true) : InOrder i l q
  | writing {l : Log} {q : RedisProg Response} (reads writes : Log) (tx : Tx) (latest : UInt64)
    (success : Bool) (gasUsed : UInt64) (effects : List Write) (hl : l = reads ++ writes)
    (hreads : ∀ e ∈ reads, Reads e.1) (htx : i.tx = some tx)
    (hnonce : ReadNumber reads (.hget (accountKey tx.fromAddr) (ascii "nonce")) tx.nonce)
    (hlatest : ReadNumber reads (.get blockKey) latest)
    (heffects : ∀ w ∈ effects, IsEffect w.1) (hnodup : (effects.map Prod.fst).Nodup)
    (hwrites : commands writes <+:
      (sendWrites i.rpc tx latest success gasUsed effects).map Write.command)
    (hend : ∀ r, q = .ret r → r.isError = false ∧
      commands writes = (sendWrites i.rpc tx latest success gasUsed effects).map Write.command) :
    InOrder i l q

/-! ### Paths of the phases -/

variable {α : Type} {l : Log}

/-- On its way through some writes, a program has issued the first of them. -/
lemma path_perform {ws : List Write} {a : α} {q : RedisProg α}
    (h : Path (perform ws >>= fun _ => .ret a) l q) :
    commands l <+: ws.map Write.command ∧
      ∀ b, q = .ret b → b = a ∧ commands l = ws.map Write.command := by
  induction ws generalizing l with
  | nil =>
    obtain ⟨rfl, rfl⟩ := Path.of_ret h
    refine ⟨List.prefix_rfl, fun b hb => ?_⟩
    cases hb
    exact ⟨rfl, rfl⟩
  | cons w ws ih =>
    rcases Path.of_cmd h with ⟨rfl, rfl⟩ | ⟨r, l', rfl, hrest⟩
    · exact ⟨List.nil_prefix, nofun⟩
    · obtain ⟨hissued, hend⟩ := ih hrest
      refine ⟨List.cons_prefix_cons.mpr ⟨rfl, hissued⟩, fun b hb => ?_⟩
      obtain ⟨hba, hall⟩ := hend b hb
      exact ⟨hba, congrArg (w.command :: ·) hall⟩

/-- A plan with something to write is made with the nonce that was read. -/
lemma path_planTx {evm : Evm} {tx : Tx} {blockCtx : Option BlockContext} {result : ExecResult}
    {p : Planned} (h : Path (planTx evm tx blockCtx result) l (.ret p)) (hrc : p.rc = 0) :
    ReadNumber l (.hget (accountKey tx.fromAddr) (ascii "nonce")) tx.nonce := by
  unfold planTx at h
  split_ifs at h
  · obtain ⟨-, hp⟩ := Path.of_ret h
    cases hp
    cases hrc
  · obtain ⟨-, hp⟩ := Path.of_ret h
    cases hp
    cases hrc
  rcases Path.of_cmd h with ⟨-, hp⟩ | ⟨r, l', rfl, hrest⟩
  · cases hp
  refine ⟨r, List.mem_cons_self, ?_⟩
  have hplan : Path (planNonce evm tx blockCtx result (numberOf r)) l' (.ret p) := hrest
  unfold planNonce at hplan
  by_cases hne : tx.nonce ≠ numberOf r
  · rw [if_pos hne] at hplan
    obtain ⟨-, hp⟩ := Path.of_ret hplan
    cases hp
    cases hrc
  · exact (not_not.mp hne).symm

variable {i : SendRequest} {q : RedisProg Response}

/-- A program that has not ended does not end by going on with another one. -/
lemma bind_ne_ret {β : Type} {p : RedisProg α} (hp : ∀ a, p ≠ .ret a) (f : α → RedisProg β) (b : β) :
    (p >>= f) ≠ .ret b := by
  cases p with
  | ret a => exact absurd rfl (hp a)
  | cmd c k => exact nofun

/-! ### The phases of a request -/

/-- What follows the plan of a transaction. -/
def record (i : SendRequest) (tx : Tx) (latest : UInt64) (p : Planned) : RedisProg Response :=
  if p.rc ≠ 0 then perform p.writes >>= fun _ => .ret (.error i.id (-32603) p.result.error)
  else
    perform (p.writes ++ [blockWrite (latest + 1), receiptWrite tx.hash
      (receiptFor i.rpc tx (latest + 1) p.result.success p.result.gasUsed)]) >>= fun _ =>
        .ret (.result i.id (quoted (hashToHex tx.hash)))

/-- A request reads the block number, plans its transaction, and writes. -/
lemma executeAndRecord_eq (i : SendRequest) (tx : Tx) :
    executeAndRecord i.rpc i.time i.id tx = .cmd (.get blockKey) fun r =>
      planTx i.rpc.evm tx (some (blockContext i.rpc i.time (numberOf r))) .zero >>=
        record i tx (numberOf r) := by
  have hstart : executeAndRecord i.rpc i.time i.id tx = .cmd (.get blockKey) fun r =>
      executeTx i.rpc.evm tx (some (blockContext i.rpc i.time (numberOf r))) .zero >>= fun x =>
        if x.1 ≠ 0 then .ret (.error i.id (-32603) x.2.error)
        else perform [blockWrite (numberOf r + 1), receiptWrite tx.hash
          (receiptFor i.rpc tx (numberOf r + 1) x.2.success x.2.gasUsed)] >>= fun _ =>
            .ret (.result i.id (quoted (hashToHex tx.hash))) := rfl
  rw [hstart]
  refine congrArg _ (funext fun r => ?_)
  rw [executeTx_eq, bind_assoc]
  refine bind_congr fun p => ?_
  unfold finish record
  rw [bind_assoc]
  by_cases hrc : p.rc ≠ 0
  · rw [if_pos hrc]
    exact bind_congr fun _ => if_pos hrc
  · rw [if_neg hrc, perform_append, bind_assoc]
    exact bind_congr fun _ => if_neg hrc

/-- **The commands of a request with a transaction.** -/
lemma inOrder_executeAndRecord {tx : Tx} (htx : i.tx = some tx)
    (h : Path (executeAndRecord i.rpc i.time i.id tx) l q) : InOrder i l q := by
  rw [executeAndRecord_eq] at h
  rcases Path.of_cmd h with ⟨rfl, rfl⟩ | ⟨r, l', rfl, hrest⟩
  · exact .reading (by simp) nofun
  have hread : Reads (.get blockKey) := rfl
  have hplan := reads_of_stateReads (@issues_planTx i.rpc.evm tx
    (some (blockContext i.rpc i.time (numberOf r))) .zero)
  rcases hrest.of_bind with ⟨p', hp', hne, rfl⟩ | ⟨p, l₁, l₂, rfl, h₁, h₂⟩
  · exact .reading (List.forall_mem_cons.mpr ⟨hread, (hp'.issues hplan).1⟩)
      fun r hr => absurd hr (bind_ne_ret hne _ _)
  obtain ⟨hreads, hok⟩ := h₁.issues hplan
  have hreads' : ∀ e ∈ (⟨.get blockKey, r⟩ :: l₁ : Log), Reads e.1 :=
    List.forall_mem_cons.mpr ⟨hread, hreads⟩
  unfold record at h₂
  cases hok with
  | rejected hrc hws =>
    rw [if_pos hrc, hws] at h₂
    obtain ⟨rfl, rfl⟩ := Path.of_ret h₂
    rw [List.append_nil]
    refine .reading hreads' fun r hr => ?_
    cases hr
    rfl
  | executed hrc effects hws heffects hnodup =>
    obtain ⟨r', hmem, hnumber⟩ := path_planTx h₁ hrc
    rw [if_neg (not_not_intro hrc), hws, List.append_assoc] at h₂
    obtain ⟨hissued, hend⟩ := path_perform h₂
    refine .writing (⟨.get blockKey, r⟩ :: l₁) l₂ tx (numberOf r) p.result.success
      p.result.gasUsed effects rfl hreads' htx ⟨r', List.mem_cons_of_mem _ hmem, hnumber⟩
      ⟨r, List.mem_cons_self, rfl⟩ heffects hnodup hissued fun b hb => ?_
    obtain ⟨rfl, hall⟩ := hend b hb
    exact ⟨rfl, hall⟩

/-- **Every request keeps to the order**, on every path. -/
lemma inOrder_path (h : Path i.program l q) : InOrder i l q := by
  unfold SendRequest.program at h
  rcases handleSendRawTransaction_eq i.parser i.id i.request with
    ⟨tx, htx, hrun⟩ | ⟨-, message, -, hrun⟩
  · rw [hrun] at h
    exact inOrder_executeAndRecord htx h
  · rw [hrun] at h
    obtain ⟨rfl, rfl⟩ := Path.of_ret h
    refine .reading (by simp) fun r hr => ?_
    cases hr
    rfl

end EvmDb.WriteOrder
