import EvmDb.Lib.Counters
import EvmDb.Lib.Threads
import EvmDb.Rpc.SendRaw
import Mathlib.Data.Fintype.Card

/-!
Requests that are handled at the same time.

Every connection has a thread of its own, and the lock of the store is held for one command.
A request reads the nonce of the sender, and writes the next one when it is done. Where the nonce
is still the one that was read, the nonces number the transactions of their accounts.
-/

namespace EvmDb.Concurrent

open EvmDb.Types EvmDb.Digits EvmDb.Program EvmDb.Redis EvmDb.RedisState EvmDb.Host
open EvmDb.Executor EvmDb.Plan EvmDb.Request EvmDb.SendRaw EvmDb.Threads

/-! ### Requests and their runs -/

/-- A request `eth_sendRawTransaction`, with the server and the time of its handling. -/
structure SendRequest where
  rpc : Rpc
  parser : TxParser
  time : UInt64
  id : Bytes
  request : Bytes

def SendRequest.program (r : SendRequest) : RedisProg Response :=
  handleSendRawTransaction r.rpc r.parser r.time r.id r.request

/-- The transaction a request carries. -/
def SendRequest.tx (r : SendRequest) : Option Tx := sentTx r.parser r.request

variable {ι : Type} (requests : ι → SendRequest)

/-- The requests, each in a thread of its own, on a store. -/
def serve (s : Store) : Pool Command (fun _ => Option Reply) Response Store ι :=
  ⟨s, fun i => (requests i).program⟩

/-- The sender and the nonce of the transaction that is executed by a command: a request's last
command in `evmdb_evm_execute_tx`, which then returns 0, writes the nonce. -/
def executedBy (e : Event Command Store ι) : Option (Address × ℕ) :=
  match (requests e.who).tx with
  | some tx =>
    if e.command = (nonceWrite tx.fromAddr (tx.nonce + 1)).command then
      some (tx.fromAddr, tx.nonce.toNat)
    else none
  | none => none

/-- No nonce of an account is executed by two requests, and no stored nonce decreases. -/
structure AtMostOnce (es : List (Event Command Store ι)) : Prop where
  once : ∀ e ∈ es, ∀ e' ∈ es, ∀ x, executedBy requests e = some x →
    executedBy requests e' = some x → e.who = e'.who
  increasing : ∀ e ∈ es, ∀ addr, nonces e.before addr ≤ nonces e.after addr

lemma AtMostOnce.of_append {es es' : List (Event Command Store ι)}
    (h : AtMostOnce requests (es ++ es')) : AtMostOnce requests es where
  once e he e' he' := h.once e (List.mem_append_left _ he) e' (List.mem_append_left _ he')
  increasing e he := h.increasing e (List.mem_append_left _ he)

/-- If the command executes a transaction, its nonce is still the one that is stored. -/
def Undisturbed (e : Event Command Store ι) : Prop :=
  ∀ addr n, executedBy requests e = some (addr, n) → nonces e.before addr = n

instance (e : Event Command Store ι) : Decidable (Undisturbed requests e) :=
  decidable_of_iff (∀ x ∈ executedBy requests e, nonces e.before x.1 = x.2)
    ⟨fun h addr n hx => h (addr, n) hx, fun h x hx => h x.1 x.2 hx⟩

/-! ### The protocol of a request -/

/-- The command leaves all nonces as they are. -/
def Harmless (c : Command) : Prop := ∀ s, nonces (exec s c).2 = nonces s

inductive Phase
  | unchecked
  | checked
  | executed
  deriving DecidableEq

/-- What a request with a transaction may do: read the nonce, write the next one if it was the
transaction's, and anything that does not concern nonces. -/
inductive Next (tx : Tx) : Phase → Command → Option Reply → Phase → Prop
  | other (q : Phase) {c : Command} (r : Option Reply) (h : Harmless c) : Next tx q c r q
  | check (r : Option Reply) (h : numberOf r = tx.nonce) :
    Next tx .unchecked (.hget (accountKey tx.fromAddr) (ascii "nonce")) r .checked
  | execute (r : Option Reply) :
    Next tx .checked (nonceWrite tx.fromAddr (tx.nonce + 1)).command r .executed

lemma harmless_of_read {c : Command} (h : Reads c) : Harmless c := by
  intro s
  rw [exec_of_read h]

lemma nonces_put_of_ne {c : Cell} (h : ∀ addr, nonceCell addr ≠ c) (v : Bytes) (s : Store) :
    nonces (put s c v) = nonces s := by
  ext addr
  unfold nonces storedNonce
  rw [put_of_ne _ _ (h addr)]

lemma harmless_write {w : Write} (h : ∀ addr, nonceCell addr ≠ w.1) : Harmless w.command := by
  intro s
  rw [exec_command, nonces_put_of_ne h]

lemma harmless_effect {w : Write} (h : IsEffect w.1) : Harmless w.command := by
  apply harmless_write
  intro addr hc
  rcases h with ⟨a, ha⟩ | ⟨a, k, ha⟩
  · exact codeCell_ne_nonceCell a addr (ha.symm.trans hc.symm)
  · exact storageCell_ne_nonceCell a addr k (ha.symm.trans hc.symm)

/-- The nonce write is not harmless. -/
lemma nonceWrite_not_harmless (addr : Address) (n : UInt64) :
    ¬ Harmless (nonceWrite addr (n + 1)).command := by
  intro h
  have hn := congrFun (h (put (fun _ => none) (nonceCell addr) (decimal n.toNat))) addr
  rw [exec_command] at hn
  unfold nonces nonceWrite at hn
  rw [storedNonce_of_cell (put_same _ _ _), storedNonce_of_cell (put_same _ _ _),
    UInt64.toNat_inj] at hn
  simp at hn

/-! ### Requests keep to the protocol -/

variable {tx : Tx}

lemma follows_reads {α : Type} {post : α → Prop} {p : RedisProg α} (hp : Issues Reads post p)
    (q : Phase) : Follows (Next tx) (fun q' a => q' = q ∧ post a) q p :=
  follows_of_issues hp fun _ hc r => .other q r (harmless_of_read hc)

lemma follows_perform {ws : List Write} (h : ∀ w ∈ ws, Harmless w.command) (q : Phase) :
    Follows (Next tx) (fun q' _ => q' = q) q (perform ws) := by
  induction ws with
  | nil => exact rfl
  | cons w ws ih =>
    intro r
    refine ⟨q, .other q r (h w List.mem_cons_self), ?_⟩
    exact ih fun w' hw' => h w' (List.mem_cons_of_mem w hw')

/-- The plan of a transaction that will be executed is made with the right nonce. -/
lemma follows_planTx (evm : Evm) (blockCtx : Option BlockContext) (result : ExecResult) :
    Follows (Next tx) (fun q p => TxOk tx p ∧ (p.rc = 0 → q = .checked)) .unchecked
      (planTx evm tx blockCtx result) := by
  unfold planTx
  split_ifs
  · exact ⟨.rejected (by simp) rfl, nofun⟩
  · exact ⟨.rejected (by simp) rfl, nofun⟩
  intro r
  by_cases hr : numberOf r = tx.nonce
  · refine ⟨.checked, .check r hr, ?_⟩
    refine (follows_reads
      (reads_of_stateReads (issues_planNonce tx blockCtx result (numberOf r))) _).mono
      (fun _ _ _ _ h => h) ?_
    rintro q p ⟨hq, hp⟩
    exact ⟨hp, fun _ => hq⟩
  · refine ⟨.unchecked, .other _ r (harmless_of_read rfl), ?_⟩
    show Follows _ _ _ (planNonce evm tx blockCtx result (numberOf r))
    unfold planNonce
    rw [if_pos (Ne.symm hr)]
    exact ⟨.rejected (by simp) rfl, nofun⟩

/-- **A transaction is executed by its nonce write**, and by nothing else. -/
lemma follows_executeTx (evm : Evm) (blockCtx : Option BlockContext) (result : ExecResult) :
    Follows (Next tx) (fun q x => x.1 = 0 → q = .executed) .unchecked
      (executeTx evm tx blockCtx result) := by
  rw [executeTx_eq]
  refine (follows_planTx evm blockCtx result).bind ?_
  rintro q p ⟨hok, hq⟩
  unfold finish
  cases hok with
  | rejected hrc hws =>
    rw [hws]
    exact fun h0 => absurd h0 hrc
  | executed hrc effects hws heffects hnodup =>
    rw [hws, perform_append, hq hrc, bind_assoc]
    refine (follows_perform (fun w hw => harmless_effect (heffects w hw)) .checked).bind ?_
    rintro q' _ rfl
    exact fun r => ⟨.executed, .execute r, fun _ => rfl⟩

lemma follows_executeAndRecord (rpc : Rpc) (time : UInt64) (id : Bytes) :
    Follows (Next tx) (fun _ _ => True) .unchecked (executeAndRecord rpc time id tx) := by
  have hkey : ∀ (q : Phase) (k v : Bytes) (r : Option Reply), Next tx q (.set k v) r q :=
    fun q k v r => .other q r (harmless_write (w := (.key k, v)) nofun)
  intro r
  refine ⟨.unchecked, .other _ r (harmless_of_read rfl), ?_⟩
  refine (follows_executeTx rpc.evm _ _).bind ?_
  rintro q ⟨rc, result⟩ _
  by_cases hrc : rc ≠ 0
  · simp only [if_pos hrc]
    exact trivial
  · simp only [if_neg hrc]
    exact fun r => ⟨q, hkey q _ _ r, fun r' => ⟨q, hkey q _ _ r', trivial⟩⟩

/-- The protocol of each request. -/
def next (i : ι) (q : Phase) (c : Command) (r : Option Reply) (q' : Phase) : Prop :=
  ∃ tx, (requests i).tx = some tx ∧ Next tx q c r q'

lemma keeps_serve (s : Store) : (serve requests s).Keeps (next requests) fun _ => .unchecked := by
  intro i
  show Follows _ _ _ (handleSendRawTransaction _ _ _ _ _)
  rcases handleSendRawTransaction_eq (requests i).parser (requests i).id (requests i).request with
    ⟨tx, htx, hrun⟩ | ⟨-, message, -, hrun⟩
  · rw [hrun]
    exact (follows_executeAndRecord _ _ _).mono (fun _ _ _ _ h => ⟨tx, htx, h⟩) fun _ _ h => h
  · rw [hrun]
    exact trivial

/-! ### What a command does -/

variable {requests}

/-- A command that executes a transaction is a checked request's nonce write. -/
lemma phase_of_executedBy {i : ι} {q q' : Phase} {r : Option Reply}
    {e : Event Command Store ι} (hn : next requests i q e.command r q') (hi : e.who = i)
    {x : Address × ℕ} (hx : executedBy requests e = some x) :
    ∃ tx, (requests i).tx = some tx ∧ x = (tx.fromAddr, tx.nonce.toNat) ∧ q = .checked ∧
      q' = .executed ∧ e.command = (nonceWrite tx.fromAddr (tx.nonce + 1)).command := by
  obtain ⟨tx, htx, hn⟩ := hn
  unfold executedBy at hx
  rw [hi, htx] at hx
  simp only at hx
  split_ifs at hx with hc
  refine ⟨tx, htx, (Option.some.inj hx).symm, ?_⟩
  rw [hc] at hn
  generalize hw : (nonceWrite tx.fromAddr (tx.nonce + 1)).command = c at hn
  cases hn with
  | other _ _ h => exact absurd (hw ▸ h) (nonceWrite_not_harmless _ _)
  | check _ _ => cases hw
  | execute => exact ⟨rfl, rfl, hc.trans hw⟩

/-- Any other command is harmless, and at most checks the nonce. -/
lemma phase_of_not_executedBy {i : ι} {q q' : Phase} {s : Store} {e : Event Command Store ι}
    (hn : next requests i q e.command (server s e.command).1 q') (hi : e.who = i)
    (hx : executedBy requests e = none) :
    Harmless e.command ∧ (q' = q ∨ (q = .unchecked ∧ q' = .checked ∧
      ∃ tx, (requests i).tx = some tx ∧ storedNonce s tx.fromAddr = tx.nonce)) := by
  obtain ⟨tx, htx, hn⟩ := hn
  unfold executedBy at hx
  rw [hi, htx] at hx
  simp only [ite_eq_right_iff, reduceCtorEq, imp_false] at hx
  generalize hc : e.command = c at hn hx
  cases hn with
  | other _ _ h => exact ⟨h, Or.inl rfl⟩
  | check _ h => exact ⟨harmless_of_read rfl, Or.inr ⟨rfl, rfl, tx, htx, h⟩⟩
  | execute => exact absurd rfl hx

/-! ### The invariant -/

/-- A phase that one thread goes into, or another thread is in. -/
lemma update_eq_iff [DecidableEq ι] {phases : ι → Phase} {q q' : Phase} {i j : ι} :
    Function.update phases i q j = q' ↔ (j = i ∧ q = q') ∨ (j ≠ i ∧ phases j = q') := by
  rw [Function.update_apply]
  split_ifs with hj
  · simp [hj]
  · simp [hj]

variable [Fintype ι]

/-- What holds while no nonce write is disturbed. The nonces are counters, moved on by the commands
that execute transactions; a request that has checked its nonce finds it still there, unless
another request has executed a transaction with it. -/
structure Inv (requests : ι → SendRequest) (s₀ : Store) (es : List (Event Command Store ι))
    (p : Pool Command (fun _ => Option Reply) Response Store ι) (phases : ι → Phase) : Prop where
  keeps : p.Keeps (next requests) phases
  executed : ∀ e ∈ es, executedBy requests e ≠ none → phases e.who = .executed
  checked : ∀ i tx, (requests i).tx = some tx → phases i = .checked →
    nonces p.state tx.fromAddr = tx.nonce.toNat ∨
      ∃ e ∈ es, executedBy requests e = some (tx.fromAddr, tx.nonce.toNat)
  run : Counters.Run (nonces s₀) (es.map (executedBy requests)) (nonces p.state)
  bound : ∀ addr, nonces p.state addr ≤
    nonces s₀ addr + (Finset.univ.filter fun i => phases i = .executed).card

/-- The nonces are far from the end of their range. -/
def FarFromEnd (ι : Type) [Fintype ι] (s : Store) : Prop :=
  ∀ addr, nonces s addr + Fintype.card ι < 2 ^ 64

variable {s₀ : Store} {es : List (Event Command Store ι)} {e : Event Command Store ι} {i : ι}
  {p p' : Pool Command (fun _ => Option Reply) Response Store ι} {phases : ι → Phase}

lemma inv_serve (s : Store) : Inv requests s [] (serve requests s) fun _ => .unchecked where
  keeps := keeps_serve requests s
  executed := by simp
  checked := by simp
  run := .nil _
  bound := by simp [serve]

/-- The nonces after a nonce write that does not wrap. -/
lemma nonces_nonceWrite {s : Store} {addr : Address} {n : UInt64} (h : n.toNat < 2 ^ 64 - 1) :
    nonces (exec s (nonceWrite addr (n + 1)).command).2 =
      Function.update (nonces s) addr (n.toNat + 1) := by
  rw [exec_command]
  ext b
  rw [Function.update_apply]
  by_cases hb : b = addr
  · rw [if_pos hb, hb, ← toNat_succ h]
    exact congrArg UInt64.toNat (storedNonce_of_cell (put_same _ _ _))
  · rw [if_neg hb]
    have hne : nonceCell b ≠ (nonceWrite addr (n + 1)).1 := fun hc => hb (nonceCell_inj.mp hc)
    unfold nonces storedNonce
    rw [put_of_ne _ _ hne]

/-- A checked request has room for one more nonce. -/
lemma Inv.no_wrap (h : Inv requests s₀ es p phases) (hfar : FarFromEnd ι s₀)
    (hi : phases i = .checked) (addr : Address) : nonces p.state addr < 2 ^ 64 - 1 := by
  have hcard : (Finset.univ.filter fun i => phases i = .executed).card < Fintype.card ι :=
    Finset.card_lt_univ_of_notMem (x := i) (by simp [hi])
  have hb := h.bound addr
  have hf := hfar addr
  omega

/-- The nonce write of a checked request moves the nonce on by one. -/
lemma Inv.nonces_execute (h : Inv requests s₀ es p phases) (hfar : FarFromEnd ι s₀)
    (hi : phases i = .checked) {tx : Tx} (hu : nonces p.state tx.fromAddr = tx.nonce.toNat) :
    nonces (exec p.state (nonceWrite tx.fromAddr (tx.nonce + 1)).command).2 =
      Function.update (nonces p.state) tx.fromAddr (nonces p.state tx.fromAddr + 1) := by
  have hroom := h.no_wrap hfar hi tx.fromAddr
  rw [hu] at hroom
  rw [nonces_nonceWrite hroom, hu]

variable [DecidableEq ι]

/-- **An undisturbed command moves the counters as it should.** -/
lemma Inv.counters_step (h : Inv requests s₀ es p phases) (hfar : FarFromEnd ι s₀)
    (hs : p.step server i = (some e, p')) (hu : Undisturbed requests e) :
    Counters.Step (nonces p.state) (executedBy requests e) (nonces p'.state) := by
  obtain ⟨q, he, hstate, hn, -⟩ := h.keeps.step hs
  have hwho : e.who = i := by rw [he]
  have hbefore : e.before = p.state := by rw [he]
  rw [hstate]
  rcases hx : executedBy requests e with _ | x
  · obtain ⟨hharm, -⟩ := phase_of_not_executedBy hn hwho hx
    show Counters.Step _ _ (nonces (exec p.state e.command).2)
    rw [hharm]
    exact .idle
  · obtain ⟨tx, htx, rfl, hq, -, hcmd⟩ := phase_of_executedBy hn hwho hx
    have hnonce := hu _ _ hx
    rw [hbefore] at hnonce
    show Counters.Step _ _ (nonces (exec p.state e.command).2)
    rw [hcmd, h.nonces_execute hfar hq hnonce, ← hnonce]
    exact .use _ _ (Nat.lt_succ_self _)

lemma Inv.run_snoc (h : Inv requests s₀ es p phases) (hfar : FarFromEnd ι s₀)
    (hs : p.step server i = (some e, p')) (hu : Undisturbed requests e) :
    Counters.Run (nonces s₀) ((es ++ [e]).map (executedBy requests)) (nonces p'.state) := by
  rw [List.map_append]
  exact h.run.snoc (h.counters_step hfar hs hu)

/-- One more request has executed its transaction. -/
lemma card_update_executed (hi : phases i ≠ .executed) :
    (Finset.univ.filter fun j => Function.update phases i .executed j = .executed).card =
      (Finset.univ.filter fun j => phases j = .executed).card + 1 := by
  have hinsert : (Finset.univ.filter fun j => Function.update phases i .executed j = .executed) =
      insert i (Finset.univ.filter fun j => phases j = .executed) := by
    ext j
    simp only [Finset.mem_filter, Finset.mem_univ, true_and, Finset.mem_insert, update_eq_iff]
    tauto
  rw [hinsert, Finset.card_insert_of_notMem (by simp [hi])]

/-- A command that executes nothing keeps the invariant. -/
lemma Inv.step_other (h : Inv requests s₀ es p phases) (hfar : FarFromEnd ι s₀)
    (hs : p.step server i = (some e, p')) (hx : executedBy requests e = none) :
    ∃ phases', Inv requests s₀ (es ++ [e]) p' phases' := by
  have hu : Undisturbed requests e := fun addr n hx' => by rw [hx] at hx'; cases hx'
  have hrun := h.run_snoc hfar hs hu
  obtain ⟨q, he, hstate, hn, hkeeps⟩ := h.keeps.step hs
  have hwho : e.who = i := by rw [he]
  obtain ⟨hharm, hq⟩ := phase_of_not_executedBy hn hwho hx
  have hsame : nonces p'.state = nonces p.state := by
    rw [hstate]
    exact hharm p.state
  -- the thread is in the same phase, or has read its nonce
  have hex : ∀ j, Function.update phases i q j = .executed ↔ phases j = .executed := by
    intro j
    rw [update_eq_iff]
    rcases hq with rfl | ⟨hq, rfl, -⟩ <;> by_cases hj : j = i <;> simp [*]
  refine ⟨_, hkeeps, ?_, ?_, hrun, ?_⟩
  · intro e' he' hx'
    rcases List.mem_append.mp he' with he' | he'
    · exact (hex _).mpr (h.executed e' he' hx')
    · rw [List.mem_singleton.mp he'] at hx'
      exact absurd hx hx'
  · intro j tx htx hj
    rw [hsame]
    have hold : ∀ e' ∈ es, e' ∈ es ++ [e] := fun e' he' => List.mem_append_left _ he'
    rcases update_eq_iff.mp hj with ⟨rfl, hqc⟩ | ⟨-, hj⟩
    · rcases hq with hq | ⟨-, -, tx', htx', hnonce⟩
      · exact (h.checked j tx htx (hq.symm.trans hqc)).imp_right fun ⟨e', he', hx'⟩ =>
          ⟨e', hold e' he', hx'⟩
      · cases htx.symm.trans htx'
        exact Or.inl (congrArg UInt64.toNat hnonce)
    · exact (h.checked j tx htx hj).imp_right fun ⟨e', he', hx'⟩ => ⟨e', hold e' he', hx'⟩
  · intro addr
    rw [hsame, Finset.filter_congr fun j _ => hex j]
    exact h.bound addr

/-- So does a nonce write, where the nonce is still the one that was read. -/
lemma Inv.step_execute (h : Inv requests s₀ es p phases) (hfar : FarFromEnd ι s₀)
    (hs : p.step server i = (some e, p')) {x : Address × ℕ}
    (hx : executedBy requests e = some x) (hu : Undisturbed requests e) :
    ∃ phases', Inv requests s₀ (es ++ [e]) p' phases' := by
  have hrun := h.run_snoc hfar hs hu
  obtain ⟨q, he, hstate, hn, hkeeps⟩ := h.keeps.step hs
  have hwho : e.who = i := by rw [he]
  have hbefore : e.before = p.state := by rw [he]
  obtain ⟨tx, htx, rfl, hq, rfl, hcmd⟩ := phase_of_executedBy hn hwho hx
  have hnonce := hu _ _ hx
  rw [hbefore] at hnonce
  have hnext : nonces p'.state =
      Function.update (nonces p.state) tx.fromAddr (nonces p.state tx.fromAddr + 1) := by
    rw [hstate, hcmd]
    exact h.nonces_execute hfar hq hnonce
  refine ⟨_, hkeeps, ?_, ?_, hrun, ?_⟩
  · intro e' he' hx'
    rw [update_eq_iff]
    by_cases hi : e'.who = i
    · exact Or.inl ⟨hi, rfl⟩
    · rcases List.mem_append.mp he' with he' | he'
      · exact Or.inr ⟨hi, h.executed e' he' hx'⟩
      · exact absurd (List.mem_singleton.mp he' ▸ hwho) hi
  · intro j tx' htx' hj
    obtain ⟨-, hj⟩ := (update_eq_iff.mp hj).resolve_left (by simp)
    rcases h.checked j tx' htx' hj with hstored | ⟨e', he', hx'⟩
    · by_cases hfrom : tx'.fromAddr = tx.fromAddr
      · -- the other request has come first
        refine Or.inr ⟨e, by simp, ?_⟩
        rw [hx, ← hstored, hfrom, hnonce]
      · rw [hnext, Function.update_of_ne hfrom]
        exact Or.inl hstored
    · exact Or.inr ⟨e', List.mem_append_left _ he', hx'⟩
  · intro addr
    rw [card_update_executed (by rw [hq]; simp), hnext, Function.update_apply]
    have hb := h.bound addr
    split_ifs with haddr
    · rw [← haddr]
      omega
    · omega

/-- **The invariant is kept by every undisturbed command.** -/
lemma Inv.step (h : Inv requests s₀ es p phases) (hfar : FarFromEnd ι s₀)
    (hs : p.step server i = (some e, p')) (hu : Undisturbed requests e) :
    ∃ phases', Inv requests s₀ (es ++ [e]) p' phases' := by
  rcases hx : executedBy requests e with _ | x
  · exact h.step_other hfar hs hx
  · exact h.step_execute hfar hs hx hu

/-! ### Every run -/

/-- A nonce that is gone has been executed by another request. -/
lemma Inv.undisturbed (h : Inv requests s₀ es p phases) (hs : p.step server i = (some e, p'))
    (honce : AtMostOnce requests (es ++ [e])) : Undisturbed requests e := by
  obtain ⟨q, he, -, hn, -⟩ := h.keeps.step hs
  have hwho : e.who = i := by rw [he]
  have hbefore : e.before = p.state := by rw [he]
  intro addr n hx
  obtain ⟨tx, htx, hxtx, hq, -, -⟩ := phase_of_executedBy hn hwho hx
  cases hxtx
  rw [hbefore]
  refine (h.checked i tx htx hq).resolve_right ?_
  rintro ⟨e', he', hx'⟩
  have hsame : e'.who = i :=
    (honce.once e' (List.mem_append_left _ he') e (by simp) _ hx' hx).trans hwho
  have hex := h.executed e' he' (by simp [hx'])
  rw [hsame, hq] at hex
  cases hex

/-- A nonce that is there has not been executed by any request. -/
lemma Inv.atMostOnce (h : Inv requests s₀ es p phases) (hfar : FarFromEnd ι s₀)
    (hs : p.step server i = (some e, p')) (hu : Undisturbed requests e)
    (honce : AtMostOnce requests es) : AtMostOnce requests (es ++ [e]) := by
  have hcount := h.counters_step hfar hs hu
  obtain ⟨q, he, hstate, -, -⟩ := h.keeps.step hs
  have hbefore : e.before = p.state := by rw [he]
  have hafter : e.after = p'.state := by rw [hstate, he]
  -- what was executed earlier is below the counter
  have hnew : ∀ e' ∈ es, ∀ x, executedBy requests e' = some x →
      executedBy requests e ≠ some x := by
    rintro e' he' ⟨addr, n⟩ hx' hx
    have hlt := (h.run.between (List.mem_map.mpr ⟨e', he', hx'⟩)).2
    rw [hx] at hcount
    exact absurd hcount.used.1 hlt.ne
  constructor
  · intro e₁ he₁ e₂ he₂ x hx₁ hx₂
    rcases List.mem_append.mp he₁ with he₁ | he₁ <;> rcases List.mem_append.mp he₂ with he₂ | he₂
    · exact honce.once e₁ he₁ e₂ he₂ x hx₁ hx₂
    · exact absurd (List.mem_singleton.mp he₂ ▸ hx₂) (hnew e₁ he₁ x hx₁)
    · exact absurd (List.mem_singleton.mp he₁ ▸ hx₁) (hnew e₂ he₂ x hx₂)
    · rw [List.mem_singleton.mp he₁, List.mem_singleton.mp he₂]
  · intro e' he' addr
    rcases List.mem_append.mp he' with he' | he'
    · exact honce.increasing e' he' addr
    · rw [List.mem_singleton.mp he', hbefore, hafter]
      exact hcount.mono addr

/-- What every run keeps. -/
structure RunInv (requests : ι → SendRequest) (s₀ : Store) (es : List (Event Command Store ι))
    (p : Pool Command (fun _ => Option Reply) Response Store ι) : Prop where
  iff : AtMostOnce requests es ↔ ∀ e ∈ es, Undisturbed requests e
  inv : (∀ e ∈ es, Undisturbed requests e) → ∃ phases, Inv requests s₀ es p phases

omit [DecidableEq ι] in
lemma runInv_serve (s : Store) : RunInv requests s [] (serve requests s) where
  iff := ⟨fun _ => by simp, fun _ => ⟨by simp, by simp⟩⟩
  inv _ := ⟨_, inv_serve s⟩

lemma RunInv.step (h : RunInv requests s₀ es p) (hfar : FarFromEnd ι s₀)
    (hs : p.step server i = (some e, p')) : RunInv requests s₀ (es ++ [e]) p' := by
  constructor
  · rw [List.forall_mem_append, List.forall_mem_singleton]
    constructor
    · intro honce
      have hes := h.iff.mp honce.of_append
      obtain ⟨phases, hinv⟩ := h.inv hes
      exact ⟨hes, hinv.undisturbed hs honce⟩
    · rintro ⟨hes, hu⟩
      obtain ⟨phases, hinv⟩ := h.inv hes
      exact hinv.atMostOnce hfar hs hu (h.iff.mpr hes)
  · rw [List.forall_mem_append, List.forall_mem_singleton]
    rintro ⟨hes, hu⟩
    obtain ⟨phases, hinv⟩ := h.inv hes
    exact hinv.step hfar hs hu

/-- **Requests execute each nonce once, and no nonce decreases, exactly when each transaction is
executed while its nonce is still stored**: in every run, of any requests and by any schedule. -/
theorem atMostOnce_iff (requests : ι → SendRequest) (s : Store) (hfar : FarFromEnd ι s)
    (schedule : List ι) :
    AtMostOnce requests (Pool.run server schedule (serve requests s)).1 ↔
      ∀ e ∈ (Pool.run server schedule (serve requests s)).1, Undisturbed requests e := by
  have hrun : RunInv requests s _ _ := Pool.run_induction (M := RunInv requests s)
    (runInv_serve s) (fun _ _ _ _ _ h hs => h.step hfar hs) schedule
  exact hrun.iff

/-- The plain transaction, sent by two clients. -/
def sentTwice (_ : Bool) : SendRequest := ⟨idleRpc, plainParser, 0, [49], plainRequest⟩

lemma farFromEnd_empty : FarFromEnd Bool fun _ => none := by
  intro addr
  have h0 : nonces (fun _ => none) addr = 0 := rfl
  rw [h0, Fintype.card_bool]
  norm_num

/-- One request after the other: the second is rejected. -/
theorem atMostOnce_sentTwice :
    AtMostOnce sentTwice (Pool.run server (List.replicate 6 false ++ List.replicate 6 true)
      (serve sentTwice fun _ => none)).1 :=
  (atMostOnce_iff sentTwice _ farFromEnd_empty _).mpr (by decide +kernel)

/-- Both requests read the nonce before one of them writes it. -/
def overlapping : List Bool := [false, false, true, true, false, false, true, true]

/-- The transaction is then executed by both. -/
theorem not_atMostOnce_sentTwice :
    FarFromEnd Bool (fun _ => none) ∧
      ¬ AtMostOnce sentTwice (Pool.run server overlapping (serve sentTwice fun _ => none)).1 := by
  refine ⟨farFromEnd_empty, fun h => ?_⟩
  have hrun : ((Pool.run server overlapping (serve sentTwice fun _ => none)).1.filterMap fun e =>
      (executedBy sentTwice e).map fun x => (e.who, x)) =
        [(false, (.zero 20, 0)), (true, (.zero 20, 0))] := by
    decide +kernel
  have hboth : ∀ b : Bool, ∃ e ∈ (Pool.run server overlapping (serve sentTwice fun _ => none)).1,
      executedBy sentTwice e = some (.zero 20, 0) ∧ e.who = b := by
    intro b
    have hmem : (b, ((.zero 20, 0) : Address × ℕ)) ∈
        [(false, (.zero 20, 0)), (true, (.zero 20, 0))] := by
      cases b <;> simp
    rw [← hrun] at hmem
    obtain ⟨e, he, hx⟩ := List.mem_filterMap.mp hmem
    obtain ⟨x, hx, hpair⟩ := Option.map_eq_some_iff.mp hx
    cases hpair
    exact ⟨e, he, hx, rfl⟩
  obtain ⟨e, he, hx, hwho⟩ := hboth false
  obtain ⟨e', he', hx', hwho'⟩ := hboth true
  have hsame := h.once e he e' he' _ hx hx'
  rw [hwho, hwho'] at hsame
  cases hsame

end EvmDb.Concurrent
