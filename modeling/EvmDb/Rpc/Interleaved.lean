import EvmDb.Rpc.ReadOnly
import EvmDb.Rpc.WriteOrder
import EvmDb.State.Layout

/-!
Requests of any kind that are handled at the same time.

Every connection has a thread of its own, for a single request or for a batch. Whatever the
schedule is, and whichever commands fail, the store keeps to its layout.
-/

namespace EvmDb.Interleaved

open EvmDb.Checked EvmDb.Types EvmDb.Digits EvmDb.Program EvmDb.Redis EvmDb.RedisState EvmDb.Host
open EvmDb.StateLayout EvmDb.Executor EvmDb.Plan EvmDb.Request EvmDb.SendRaw EvmDb.Dispatch
open EvmDb.ReadOnly EvmDb.Threads EvmDb.Concurrent EvmDb.Paths EvmDb.WriteOrder

/-! ### Clients -/

/-- A request as it comes in, with the server and the clock of its handling. -/
structure Client where
  rpc : Rpc
  parser : TxParser
  clock : ℕ → UInt64
  request : Bytes

def Client.program (c : Client) : RedisProg (Read Bytes) :=
  handleRequest c.rpc c.parser c.clock c.request

/-! ### What requests write -/

/-- A transaction without a chain id, or one for the chain of the server. -/
def OnChain (rpc : Rpc) (tx : Tx) : Prop := tx.chainId = 0 ∨ tx.chainId = rpc.chainId

/-- What a transaction may write on a server. -/
inductive WriteOf (rpc : Rpc) (tx : Tx) : Write → Prop
  | code (h : tx.toIsNull = true) :
    WriteOf rpc tx (codeWrite (computeCreateAddress tx.fromAddr tx.nonce) tx.data)
  | slot (h : tx.toIsNull = false) (w : StorageWrite) : WriteOf rpc tx (storageWrite w)
  | nonce : WriteOf rpc tx (nonceWrite tx.fromAddr (tx.nonce + 1))
  | block (n : UInt64) : WriteOf rpc tx (blockWrite n)
  | receipt (number : UInt64) (success : Bool) (gasUsed : UInt64) :
    WriteOf rpc tx (receiptWrite tx.hash (receiptFor rpc tx number success gasUsed))

/-- What may be written for some requests: what a transaction that one of them carries writes on
its chain. -/
def Allowed (rpc : Rpc) (parser : TxParser) (items : List Bytes) (w : Write) : Prop :=
  ∃ item ∈ items, ∃ tx, sentTx parser item = some tx ∧ OnChain rpc tx ∧ WriteOf rpc tx w

/-- What a client may write. -/
def Client.Writes (c : Client) : Write → Prop := Allowed c.rpc c.parser (dispatched c.request)

/-- A command that reads, or that writes what is allowed. -/
def KeptCommand (K : Write → Prop) (c : Command) : Prop := Reads c ∨ ∃ w, K w ∧ c = w.command

/-- Every command reads, or writes what is allowed. -/
abbrev Keeps {α : Type} (K : Write → Prop) (p : RedisProg α) : Prop :=
  Issues (KeptCommand K) (fun _ => True) p

lemma KeptCommand.mono {K K' : Write → Prop} (hK : ∀ w, K w → K' w) {c : Command}
    (h : KeptCommand K c) : KeptCommand K' c :=
  h.imp_right fun ⟨w, hw, hc⟩ => ⟨w, hK w hw, hc⟩

lemma keeps_of_onlyReads {α : Type} {K : Write → Prop} {p : RedisProg α} (hp : OnlyReads p) :
    Keeps K p :=
  hp.mono (fun _ => Or.inl) fun _ => id

lemma keeps_perform {K : Write → Prop} {ws : List Write} (h : ∀ w ∈ ws, K w) :
    Keeps K (perform ws) := by
  induction ws with
  | nil => exact trivial
  | cons w ws ih =>
    exact ⟨Or.inr ⟨w, h w List.mem_cons_self, rfl⟩,
      fun _ => ih fun w' hw' => h w' (List.mem_cons_of_mem w hw')⟩

variable {rpc : Rpc} {parser : TxParser} {tx : Tx}

/-- A plan that writes what the transaction may write, and only on its chain. -/
structure KeptPlan (rpc : Rpc) (tx : Tx) (p : Planned) : Prop where
  writes : ∀ w ∈ p.writes, WriteOf rpc tx w
  chain : p.rc = 0 → OnChain rpc tx
  failed : p.rc ≠ 0 → p.writes = []

/-- What the effects write; nothing if they fail. -/
def KeptEffects (rpc : Rpc) (tx : Tx) (p : Planned) : Prop :=
  (∀ w ∈ p.writes, WriteOf rpc tx w) ∧ (p.rc ≠ 0 → p.writes = [])

lemma issues_planEffects_kept (blockCtx : Option BlockContext) (result : ExecResult) :
    Issues StateReads (KeptEffects rpc tx)
      (planEffects rpc.evm tx blockCtx tx.nonce result) := by
  unfold planEffects
  split_ifs with hnull
  · exact ⟨List.forall_mem_singleton.mpr (.code hnull), fun h => absurd rfl h⟩
  · rw [Bool.not_eq_true] at hnull
    have hnil : ∀ rc result, KeptEffects rpc tx ⟨rc, result, []⟩ :=
      fun _ _ => ⟨by simp, fun _ => rfl⟩
    refine (issues_planContract_of hnil blockCtx _ _ _ _ _ _ _ _
      (fun _ ctx _ r => ⟨?_, fun h => absurd rfl h⟩) _).bind fun p hp => ?_
    · exact List.forall_mem_map.mpr fun w _ => .slot hnull w
    · split_ifs <;> exact hp

/-- A transaction plans to write such values only. -/
lemma issues_planTx_kept {block : BlockContext} (hchain : block.chainId = rpc.chainId)
    (result : ExecResult) :
    Issues StateReads (KeptPlan rpc tx) (planTx rpc.evm tx (some block) result) := by
  have hnil : ∀ {result}, KeptPlan rpc tx ⟨-1, result, []⟩ :=
    ⟨by simp, fun h => absurd h (by simp), fun _ => rfl⟩
  unfold planTx
  split_ifs with _ hrejected
  · exact hnil
  · exact hnil
  have hon : OnChain rpc tx := by
    by_cases h0 : tx.chainId = 0
    · exact Or.inl h0
    · refine Or.inr (hchain ▸ ?_)
      simpa [chainIdRejected, h0] using hrejected
  refine issues_read (.hget _ _) _ fun n => ?_
  unfold planNonce
  by_cases hnonce : tx.nonce ≠ n
  · rw [if_pos hnonce]
    exact hnil
  rw [if_neg hnonce]
  obtain rfl := not_not.mp hnonce
  split_ifs
  · exact hnil
  refine (issues_planEffects_kept _ _).bind fun p hp => ?_
  split_ifs with hrc
  · exact ⟨hp.1, fun h => absurd h hrc, hp.2⟩
  · exact ⟨List.forall_mem_append.mpr ⟨hp.1, List.forall_mem_singleton.mpr .nonce⟩,
      fun _ => hon, fun h => absurd rfl h⟩

lemma keeps_record (i : SendRequest) (latest : UInt64) {p : Planned}
    (htx : i.tx = some tx) (hp : KeptPlan i.rpc tx p) :
    Keeps (Allowed i.rpc i.parser [i.request]) (record i tx latest p) := by
  unfold record
  by_cases hrc : p.rc ≠ 0
  · rw [if_pos hrc, hp.failed hrc]
    exact trivial
  rw [if_neg hrc]
  have hon := hp.chain (not_not.mp hrc)
  have hallowed : ∀ w, WriteOf i.rpc tx w → Allowed i.rpc i.parser [i.request] w := fun w hw =>
    ⟨i.request, List.mem_singleton_self _, tx, htx, hon, hw⟩
  refine (keeps_perform fun w hw => hallowed w ?_).bind fun _ _ => trivial
  rcases List.mem_append.mp hw with hw | hw
  · exact hp.writes w hw
  · rcases List.mem_pair.mp hw with rfl | rfl
    · exact .block _
    · exact .receipt _ _ _

/-- A request that sends a transaction writes what the transaction may write. -/
lemma keeps_send (i : SendRequest) : Keeps (Allowed i.rpc i.parser [i.request]) i.program := by
  unfold SendRequest.program
  rcases handleSendRawTransaction_eq i.parser i.id i.request with
    ⟨tx, htx, hrun⟩ | ⟨-, message, -, hrun⟩
  · rw [hrun, executeAndRecord_eq]
    refine ⟨Or.inl rfl, fun r => ?_⟩
    exact ((issues_planTx_kept rfl _).mono (fun _ h => Or.inl h.reads) fun _ => id).bind
      fun p hp => keeps_record i _ htx hp
  · rw [hrun]
    exact trivial

lemma Allowed.mono {items items' : List Bytes} (hsub : ∀ item ∈ items, item ∈ items') {w : Write}
    (h : Allowed rpc parser items w) : Allowed rpc parser items' w := by
  obtain ⟨item, hitem, hrest⟩ := h
  exact ⟨item, hsub item hitem, hrest⟩

lemma Keeps.mono {α : Type} {items items' : List Bytes} (hsub : ∀ item ∈ items, item ∈ items')
    {p : RedisProg α} (h : Keeps (Allowed rpc parser items) p) :
    Keeps (Allowed rpc parser items') p :=
  Issues.mono h (fun _ hc => hc.mono fun _ hw => hw.mono hsub) fun _ => id

lemma keeps_dispatchSingle (rpc : Rpc) (parser : TxParser) (time : UInt64) (request : Bytes) :
    Keeps (Allowed rpc parser [request]) (dispatchSingle rpc parser time request) := by
  by_cases hm : methodOf request = ascii "eth_sendRawTransaction"
  · rw [dispatchSingle_send rpc parser time request hm]
    exact (keeps_send ⟨rpc, parser, time, idOf request, request⟩).bind fun _ _ => trivial
  · exact keeps_of_onlyReads (onlyReads_dispatchSingle parser hm)

lemma keeps_dispatchAll (rpc : Rpc) (parser : TxParser) (clock : ℕ → UInt64)
    (items : List Bytes) : Keeps (Allowed rpc parser items) (dispatchAll rpc parser clock items) := by
  induction items generalizing clock with
  | nil => exact trivial
  | cons item items ih =>
    have hhead : Keeps (Allowed rpc parser (item :: items))
        (dispatchSingle rpc parser (clock 0) item) :=
      Keeps.mono (by simp) (keeps_dispatchSingle rpc parser _ item)
    have htail : Keeps (Allowed rpc parser (item :: items))
        (dispatchAll rpc parser (fun n => clock (n + 1)) items) :=
      Keeps.mono (fun _ h => List.mem_cons_of_mem _ h) (ih _)
    exact hhead.bind fun _ _ => htail.bind fun _ _ => trivial

/-- **Every client writes only what its transactions may write.** -/
lemma keeps_program (c : Client) : Keeps c.Writes c.program := by
  unfold Client.program Client.Writes
  rcases handleRequest_cases c.rpc c.parser c.request c.clock with hrun | ⟨single, hitems, hrun⟩
  · rw [hrun]
    exact (keeps_dispatchAll _ _ _ _).bind fun _ _ => trivial
  · rw [hrun, hitems]
    exact (keeps_dispatchSingle _ _ _ _).bind fun _ _ => trivial

/-! ### What becomes of the store -/

/-- A store that has come from another one by such writes. -/
def Tended (K : Write → Prop) (s₀ s : Store) : Prop :=
  ∀ c, s c = s₀ c ∨ ∃ v, s c = some v ∧ K (c, v)

lemma Tended.exec {K : Write → Prop} {s₀ s : Store} (h : Tended K s₀ s) {c : Command}
    (hc : KeptCommand K c) : Tended K s₀ (exec s c).2 := by
  rcases hc with hread | ⟨⟨cell, v⟩, hw, rfl⟩
  · rw [exec_of_read hread]
    exact h
  · rw [exec_command]
    intro c
    by_cases hcell : c = cell
    · subst hcell
      exact Or.inr ⟨v, put_same _ _ _, hw⟩
    · rw [put_of_ne _ _ hcell]
      exact h c

/-- A command that fails changes nothing, and any other does what it does. -/
lemma faultyServer_store (may : Command → Bool) (x : Store × Faults) (c : Command) :
    (faultyServer may x c).2.1 = x.1 ∨ (faultyServer may x c).2.1 = (exec x.1 c).2 := by
  unfold faultyServer
  dsimp only
  split_ifs
  · split
    · exact Or.inl rfl
    · exact Or.inr rfl
  · exact Or.inr rfl

/-- **At any time in any company, the store has come from the first one by what the clients may
write**, whichever commands fail. -/
lemma tended_run {ι : Type} [DecidableEq ι] (clients : ι → Client) (may : Command → Bool)
    (faults : Faults) (s : Store) (schedule : List ι) :
    Tended (fun w => ∃ i, (clients i).Writes w) s (Pool.run (faultyServer may) schedule
      ⟨(s, faults), fun i => (clients i).program⟩).2.state.1 := by
  have hprograms : ∀ i, Keeps (fun w => ∃ i, (clients i).Writes w) (clients i).program := fun i =>
    Issues.mono (keeps_program (clients i)) (fun _ hc => hc.mono fun _ hw => ⟨i, hw⟩) fun _ => id
  have hstart : Tended (fun w => ∃ i, (clients i).Writes w) s s := fun _ => Or.inl rfl
  refine run_keeps (I := fun x : Store × Faults => Tended _ s x.1) hprograms
    (fun x c hc hx => ?_) hstart schedule
  rcases faultyServer_store may x c with h | h
  · rw [h]
    exact hx
  · rw [h]
    exact hx.exec hc

/-! ### The layout -/

/-- A value that requests write is the value of a component that is neither a balance nor a code
hash; a receipt has the hash it is stored for. -/
lemma WriteOf.component {c : Cell} {v : Bytes} (h : WriteOf rpc tx (c, v)) :
    ∃ (k : Component) (x : k.Value), c = k.cell ∧ v = k.encode x ∧ (∀ addr, k ≠ .balance addr) ∧
      (∀ addr, k ≠ .codeHash addr) ∧
        ∀ txHash, k = .receipt txHash → ∃ r : Receipt, r.transactionHash = txHash ∧ v = r.json := by
  generalize hw : (c, v) = w at h
  cases h with
  | code h =>
    cases hw
    exact ⟨.code _, tx.data, rfl, rfl, nofun, nofun, nofun⟩
  | slot h w =>
    cases hw
    exact ⟨.storage w.address w.key, w.value, rfl, rfl, nofun, nofun, nofun⟩
  | nonce =>
    cases hw
    exact ⟨.nonce tx.fromAddr, tx.nonce + 1, rfl, rfl, nofun, nofun, nofun⟩
  | block n =>
    cases hw
    exact ⟨.blockNumber, n, rfl, rfl, nofun, nofun, nofun⟩
  | receipt number success gasUsed =>
    cases hw
    refine ⟨.receipt tx.hash, (receiptFor rpc tx number success gasUsed).text, rfl, rfl, nofun,
      nofun, fun txHash hk => ?_⟩
    exact ⟨receiptFor rpc tx number success gasUsed, Component.receipt.inj hk, Receipt.text_eq _⟩

/-- What a run of requests keeps of a store. -/
structure LayoutKept (s₀ s : Store) : Prop where
  changed : ∀ c, s c ≠ s₀ c → ∃ (k : Component) (x : k.Value), c = k.cell ∧ s c = some (k.encode x)
  balance : ∀ addr, s (balanceCell addr) = s₀ (balanceCell addr)
  codeHash : ∀ addr, s (codeHashCell addr) = s₀ (codeHashCell addr)
  receipt : ∀ txHash, s (receiptCell txHash) ≠ s₀ (receiptCell txHash) →
    ∃ r : Receipt, r.transactionHash = txHash ∧ s (receiptCell txHash) = some r.json

lemma Tended.layoutKept {K : Write → Prop} (hK : ∀ w, K w → ∃ rpc tx, WriteOf rpc tx w)
    {s₀ s : Store} (h : Tended K s₀ s) : LayoutKept s₀ s where
  changed c hc := by
    obtain ⟨v, hv, hkept⟩ := (h c).resolve_left hc
    obtain ⟨rpc, tx, hwrite⟩ := hK _ hkept
    obtain ⟨k, x, hcell, rfl, -⟩ := hwrite.component
    exact ⟨k, x, hcell, hv⟩
  balance addr := by
    rcases h (balanceCell addr) with hsame | ⟨v, -, hkept⟩
    · exact hsame
    · obtain ⟨rpc, tx, hwrite⟩ := hK _ hkept
      obtain ⟨k, x, hcell, -, hno, -⟩ := hwrite.component
      exact absurd (cell_injective (hcell.symm : k.cell = Component.cell (.balance addr))) (hno addr)
  codeHash addr := by
    rcases h (codeHashCell addr) with hsame | ⟨v, -, hkept⟩
    · exact hsame
    · obtain ⟨rpc, tx, hwrite⟩ := hK _ hkept
      obtain ⟨k, x, hcell, -, -, hno, -⟩ := hwrite.component
      exact absurd (cell_injective (hcell.symm : k.cell = Component.cell (.codeHash addr)))
        (hno addr)
  receipt txHash hc := by
    obtain ⟨v, hv, hkept⟩ := (h (receiptCell txHash)).resolve_left hc
    obtain ⟨rpc, tx, hwrite⟩ := hK _ hkept
    obtain ⟨k, x, hcell, -, -, -, hreceipt⟩ := hwrite.component
    have hk : k = .receipt txHash := cell_injective hcell.symm
    obtain ⟨r, hr, rfl⟩ := hreceipt txHash hk
    exact ⟨r, hr, hv⟩

/-- **The store keeps to its layout**, at any time in any company: whatever requests are handled,
by any schedule, and whichever commands fail, a cell that has changed has the text of a value of
its component, a receipt is stored for its own hash, and no balance and no code hash ever changes. -/
theorem layout_kept {ι : Type} [DecidableEq ι] (clients : ι → Client) (may : Command → Bool)
    (faults : Faults) (s : Store) (schedule : List ι) :
    LayoutKept s (Pool.run (faultyServer may) schedule
      ⟨(s, faults), fun i => (clients i).program⟩).2.state.1 := by
  refine Tended.layoutKept (fun w hw => ?_) (tended_run clients may faults s schedule)
  obtain ⟨i, item, -, tx, -, -, hwrite⟩ := hw
  exact ⟨(clients i).rpc, tx, hwrite⟩

/-! ### Receipts and what is behind them -/

/-- If a receipt is written in a log, it is the receipt of a transaction that is sent, and the nonce
of the transaction and the number of its block are written as well. -/
def Backed (rpc : Rpc) (parser : TxParser) (items : List Bytes) (l : Log) : Prop :=
  ∀ txHash text, .set (receiptKey txHash) text ∈ commands l →
    ∃ item ∈ items, ∃ tx number success gasUsed, sentTx parser item = some tx ∧ tx.hash = txHash ∧
      text = (receiptFor rpc tx number success gasUsed).text ∧
        (nonceWrite tx.fromAddr (tx.nonce + 1)).command ∈ commands l ∧
          (blockWrite number).command ∈ commands l

variable {items : List Bytes} {l l' : Log}

lemma Backed.append (h : Backed rpc parser items l) (h' : Backed rpc parser items l') :
    Backed rpc parser items (l ++ l') := by
  intro txHash text hmem
  have hcommands : commands (l ++ l') = commands l ++ commands l' := List.map_append
  rw [hcommands] at hmem ⊢
  rcases List.mem_append.mp hmem with hmem | hmem
  · obtain ⟨item, hitem, tx, number, success, gasUsed, hsent, hhash, htext, hn, hb⟩ :=
      h txHash text hmem
    exact ⟨item, hitem, tx, number, success, gasUsed, hsent, hhash, htext,
      List.mem_append_left _ hn, List.mem_append_left _ hb⟩
  · obtain ⟨item, hitem, tx, number, success, gasUsed, hsent, hhash, htext, hn, hb⟩ :=
      h' txHash text hmem
    exact ⟨item, hitem, tx, number, success, gasUsed, hsent, hhash, htext,
      List.mem_append_right _ hn, List.mem_append_right _ hb⟩

lemma Backed.mono {items' : List Bytes} (h : Backed rpc parser items l)
    (hsub : ∀ item ∈ items, item ∈ items') : Backed rpc parser items' l := by
  intro txHash text hmem
  obtain ⟨item, hitem, hrest⟩ := h txHash text hmem
  exact ⟨item, hsub item hitem, hrest⟩

/-- A log without writes. -/
lemma backed_of_reads (h : ∀ e ∈ l, Reads e.1) : Backed rpc parser items l := by
  intro txHash text hmem
  obtain ⟨e, he, hc⟩ := List.mem_map.mp hmem
  have hread := h e he
  rw [hc] at hread
  cases hread

/-- Of the writes of a request, only the last one is to a receipt. -/
lemma receipt_of_mem_sendWrites {tx : Tx} {latest : UInt64} {success : Bool} {gasUsed : UInt64}
    {effects : List Write} (heffects : ∀ w ∈ effects, IsEffect w.1) {cs : List Command}
    (hcs : cs <+: (sendWrites rpc tx latest success gasUsed effects).map Write.command)
    {txHash : Hash} {text : Bytes} (hmem : .set (receiptKey txHash) text ∈ cs) :
    txHash = tx.hash ∧ text = (receiptFor rpc tx (latest + 1) success gasUsed).text ∧
      cs = (sendWrites rpc tx latest success gasUsed effects).map Write.command := by
  have hother : ∀ w ∈ effects ++ [nonceWrite tx.fromAddr (tx.nonce + 1), blockWrite (latest + 1)],
      w.command ≠ .set (receiptKey txHash) text := by
    intro w hw hc
    obtain ⟨cell, v⟩ := w
    cases cell with
    | field k f => cases hc
    | key k =>
      have hk : Cell.key k = receiptCell txHash := congrArg Cell.key (Command.set.inj hc).1
      rcases List.mem_append.mp hw with hw | hw
      · rcases heffects _ hw with ⟨a, ha⟩ | ⟨a, b, ha⟩
        · exact codeCell_ne_receiptCell a txHash (ha.symm.trans hk)
        · cases ha.symm.trans hk
      · rcases List.mem_pair.mp hw with hw | hw
        · cases hw
        · exact receiptCell_ne_blockCell txHash (hk.symm.trans (Prod.mk.inj hw).1)
  have hlast : (sendWrites rpc tx latest success gasUsed effects).map Write.command =
      (effects ++ [nonceWrite tx.fromAddr (tx.nonce + 1), blockWrite (latest + 1)]).map
        Write.command ++
          [.set (receiptKey tx.hash) (receiptFor rpc tx (latest + 1) success gasUsed).text] := by
    unfold sendWrites
    simp [receiptWrite, receiptCell, Write.command]
  have hnot : ∀ c ∈ (effects ++ [nonceWrite tx.fromAddr (tx.nonce + 1),
      blockWrite (latest + 1)]).map Write.command, c ≠ .set (receiptKey txHash) text :=
    List.forall_mem_map.mpr hother
  rw [hlast] at hcs ⊢
  rcases List.prefix_concat_iff.mp hcs with hall | hshort
  · rw [hall, List.mem_append, List.mem_singleton] at hmem
    rcases hmem with hmem | hmem
    · exact absurd rfl (hnot _ hmem)
    · have hset := Command.set.inj hmem
      exact ⟨receiptCell_inj.mp (congrArg Cell.key hset.1), hset.2, hall⟩
  · exact absurd rfl (hnot _ (hshort.subset hmem))

lemma backed_of_inOrder {i : SendRequest} {q : RedisProg Response} (h : InOrder i l q) :
    Backed i.rpc i.parser [i.request] l := by
  cases h with
  | reading hreads => exact backed_of_reads hreads
  | writing reads writes tx latest success gasUsed effects hl hreads htx _ _ heffects _ hwrites =>
    intro txHash text hmem
    have hcommands : commands l = commands reads ++ commands writes := by
      rw [hl]
      exact List.map_append
    rw [hcommands] at hmem ⊢
    rcases List.mem_append.mp hmem with hmem | hmem
    · obtain ⟨e, he, hc⟩ := List.mem_map.mp hmem
      have hread := hreads e he
      rw [hc] at hread
      cases hread
    · obtain ⟨hhash, htext, hall⟩ := receipt_of_mem_sendWrites heffects hwrites hmem
      have hwritten : ∀ w ∈ sendWrites i.rpc tx latest success gasUsed effects,
          w.command ∈ commands writes := fun w hw => by
        rw [hall]
        exact List.mem_map_of_mem hw
      exact ⟨i.request, List.mem_singleton_self _, tx, latest + 1, success, gasUsed, htx,
        hhash.symm, htext, List.mem_append_right _ (hwritten _ (by simp [sendWrites])),
        List.mem_append_right _ (hwritten _ (by simp [sendWrites]))⟩

lemma backed_dispatchSingle {time : UInt64} {item : Bytes} {q : RedisProg (Read Response)}
    (h : Path (dispatchSingle rpc parser time item) l q) : Backed rpc parser [item] l := by
  by_cases hm : methodOf item = ascii "eth_sendRawTransaction"
  · rw [dispatchSingle_send rpc parser time item hm] at h
    rcases h.of_bind with ⟨p', hp', -⟩ | ⟨a, l₁, l₂, rfl, h₁, h₂⟩
    · exact backed_of_inOrder (inOrder_path (i := ⟨rpc, parser, time, idOf item, item⟩) hp')
    · obtain ⟨rfl, -⟩ := Path.of_ret h₂
      rw [List.append_nil]
      exact backed_of_inOrder (inOrder_path (i := ⟨rpc, parser, time, idOf item, item⟩) h₁)
  · exact backed_of_reads
      (h.issues (onlyReads_dispatchSingle parser hm)).1

lemma backed_dispatchAll {clock : ℕ → UInt64} {q : RedisProg (List (Read Response))}
    (h : Path (dispatchAll rpc parser clock items) l q) : Backed rpc parser items l := by
  induction items generalizing clock l q with
  | nil =>
    obtain ⟨rfl, -⟩ := Path.of_ret h
    exact backed_of_reads (by simp)
  | cons item items ih =>
    have hhead : ∀ {l q}, Path (dispatchSingle rpc parser (clock 0) item) l q →
        Backed rpc parser (item :: items) l := fun h =>
      (backed_dispatchSingle h).mono (by simp)
    have htail : ∀ {l q}, Path (dispatchAll rpc parser (fun n => clock (n + 1)) items) l q →
        Backed rpc parser (item :: items) l := fun h =>
      (ih h).mono fun item' hi => List.mem_cons_of_mem _ hi
    rcases Path.of_bind h with ⟨p', hp', -⟩ | ⟨a, l₁, l₂, rfl, h₁, h₂⟩
    · exact hhead hp'
    · rcases Path.of_bind h₂ with ⟨p', hp', -⟩ | ⟨b, l₃, l₄, rfl, h₃, h₄⟩
      · exact (hhead h₁).append (htail hp')
      · obtain ⟨rfl, -⟩ := Path.of_ret h₄
        rw [List.append_nil]
        exact (hhead h₁).append (htail h₃)

/-- **In the log of a request, a receipt has its transaction behind it.** -/
lemma backed_program {c : Client} {q : RedisProg (Read Bytes)} (h : Path c.program l q) :
    Backed c.rpc c.parser (dispatched c.request) l := by
  unfold Client.program at h
  rcases handleRequest_cases c.rpc c.parser c.request c.clock with hrun | ⟨single, hitems, hrun⟩
  · rw [hrun] at h
    rcases h.of_bind with ⟨p', hp', -⟩ | ⟨a, l₁, l₂, rfl, h₁, h₂⟩
    · exact backed_dispatchAll hp'
    · obtain ⟨rfl, -⟩ := Path.of_ret h₂
      rw [List.append_nil]
      exact backed_dispatchAll h₁
  · rw [hrun] at h
    rw [hitems]
    rcases h.of_bind with ⟨p', hp', -⟩ | ⟨a, l₁, l₂, rfl, h₁, h₂⟩
    · exact backed_dispatchSingle hp'
    · obtain ⟨rfl, -⟩ := Path.of_ret h₂
      rw [List.append_nil]
      exact backed_dispatchSingle h₁

/-- A string key is changed by setting it. -/
lemma exec_key (s : Store) (c : Command) (k : Bytes) :
    (exec s c).2 (.key k) = s (.key k) ∨ ∃ v, c = .set k v ∧ (exec s c).2 (.key k) = some v := by
  cases c with
  | set k' v =>
    by_cases hk : k = k'
    · subst hk
      exact Or.inr ⟨v, rfl, put_same _ _ _⟩
    · exact Or.inl (put_of_ne _ _ fun hc => hk (Cell.key.inj hc))
  | hset k' fvs =>
    rw [exec_writes]
    refine Or.inl (puts_of_notMem ?_ s)
    simp [Command.writes]
  | _ => exact Or.inl rfl

variable {ι : Type} [DecidableEq ι]

/-- A receipt that has appeared was written by some request. -/
lemma receipt_written (clients : ι → Client) (s : Store) (schedule : List ι) (txHash : Hash) :
    let run := Pool.run server schedule ⟨s, fun i => (clients i).program⟩
    run.2.state (receiptCell txHash) ≠ s (receiptCell txHash) →
      ∃ e ∈ run.1, ∃ text, e.command = .set (receiptKey txHash) text ∧
        run.2.state (receiptCell txHash) = some text := by
  refine Pool.run_induction (M := fun (es : List (Event Command Store ι))
      (p : Pool Command (fun _ => Option Reply) (Read Bytes) Store ι) =>
    p.state (receiptCell txHash) ≠ s (receiptCell txHash) → ∃ e ∈ es, ∃ text,
      e.command = .set (receiptKey txHash) text ∧ p.state (receiptCell txHash) = some text)
    (fun hne => absurd rfl hne) (fun es p i e p' hes hstep hne => ?_) schedule
  obtain ⟨c, k, -, rfl, rfl⟩ := step_cases hstep
  rcases exec_key p.state c (receiptKey txHash) with hsame | ⟨text, hset, htext⟩
  · have hstate : (server p.state c).2 (receiptCell txHash) = p.state (receiptCell txHash) := hsame
    obtain ⟨e, he, text, hset, htext⟩ := hes fun h => hne (hstate.trans h)
    exact ⟨e, List.mem_append_left _ he, text, hset, hstate.trans htext⟩
  · exact ⟨_, List.mem_append_right _ (List.mem_singleton_self _), text, hset, htext⟩

/-- **No receipt without its transaction**, at any time in any company: a receipt that has appeared
in the store is the receipt of a transaction that a request carries, and that request has already
written the next nonce of its sender and the number of the block that the receipt says. -/
theorem receipts_backed (clients : ι → Client) (s : Store) (schedule : List ι) (txHash : Hash)
    (happeared : (Pool.run server schedule ⟨s, fun i => (clients i).program⟩).2.state
      (receiptCell txHash) ≠ s (receiptCell txHash)) :
    let run := Pool.run server schedule ⟨s, fun i => (clients i).program⟩
    ∃ i, ∃ item ∈ dispatched (clients i).request, ∃ tx number success gasUsed,
      sentTx (clients i).parser item = some tx ∧ tx.hash = txHash ∧
        run.2.state (receiptCell txHash) =
          some (receiptFor (clients i).rpc tx number success gasUsed).json ∧
        (∃ e ∈ run.1, e.who = i ∧
          e.command = (nonceWrite tx.fromAddr (tx.nonce + 1)).command) ∧
        ∃ e ∈ run.1, e.who = i ∧ e.command = (blockWrite number).command := by
  intro run
  obtain ⟨e, he, text, hset, htext⟩ := receipt_written clients s schedule txHash happeared
  have hown : ∀ c, c ∈ commands (own server e.who run.1) ↔
      ∃ e' ∈ run.1, e'.who = e.who ∧ e'.command = c := by
    intro c
    unfold commands own
    simp only [List.mem_map, List.mem_filter, decide_eq_true_eq]
    constructor
    · rintro ⟨_, ⟨e', ⟨he', hwho⟩, rfl⟩, rfl⟩
      exact ⟨e', he', hwho, rfl⟩
    · rintro ⟨e', he', hwho, rfl⟩
      exact ⟨_, ⟨e', ⟨he', hwho⟩, rfl⟩, rfl⟩
  have hpath := run_path server (fun i => (clients i).program) s schedule e.who
  obtain ⟨item, hitem, tx, number, success, gasUsed, hsent, hhash, rfl, hn, hb⟩ :=
    backed_program hpath txHash text ((hown _).mpr ⟨e, he, rfl, hset⟩)
  refine ⟨e.who, item, hitem, tx, number, success, gasUsed, hsent, hhash, ?_, (hown _).mp hn,
    (hown _).mp hb⟩
  rw [← Receipt.text_eq]
  exact htext

/-- Two clients that send the plain transaction. -/
def plainClient : Client := ⟨idleRpc, plainParser, fun _ => 0, ascii
  "\x7b\"method\":\"eth_sendRawTransaction\",\"params\":[\"0x00\"]\x7d"⟩

/-- After six commands of one of them, there is a receipt; its transaction has been executed. -/
theorem receipts_backed_plainClient :
    ∃ e ∈ (Pool.run server (List.replicate 6 false)
        ⟨fun _ => none, fun _ : Bool => plainClient.program⟩).1,
      e.command = (nonceWrite (.zero 20) 1).command := by
  have happeared : (Pool.run server (List.replicate 6 false)
      ⟨fun _ => none, fun _ : Bool => plainClient.program⟩).2.state (receiptCell (.zero 32)) ≠
        none := by
    decide +kernel
  obtain ⟨i, item, hitem, tx, number, success, gasUsed, hsent, -, -, ⟨e, he, -, hc⟩, -⟩ :=
    receipts_backed (fun _ : Bool => plainClient) (fun _ => none) (List.replicate 6 false)
      (.zero 32) happeared
  refine ⟨e, he, ?_⟩
  have hitems : dispatched plainClient.request = [plainClient.request] := by decide +kernel
  have htx : sentTx plainParser plainClient.request = some plainTx := by decide +kernel
  have hsent' : sentTx plainParser item = some tx := hsent
  have hitem' : item ∈ dispatched plainClient.request := hitem
  rw [hitems] at hitem'
  rw [List.mem_singleton.mp hitem', htx] at hsent'
  cases hsent'
  exact hc

end EvmDb.Interleaved
