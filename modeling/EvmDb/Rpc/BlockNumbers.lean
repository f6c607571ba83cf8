import EvmDb.Rpc.Concurrent
import Mathlib.Algebra.BigOperators.Group.Finset.Basic
import Mathlib.Algebra.Order.Group.Multiset

/-!
The block numbers of requests that are handled at the same time.

A request reads the number of the latest block before it executes its transaction, and writes the
next number afterwards. Each transaction gets a block of its own where the number that was read is
still the stored one.
-/

namespace EvmDb.BlockNumbers

open EvmDb.Types EvmDb.Digits EvmDb.Hex EvmDb.Program EvmDb.Redis EvmDb.RedisState EvmDb.Host
open EvmDb.Executor EvmDb.Plan EvmDb.Request EvmDb.SendRaw EvmDb.Threads EvmDb.Concurrent

/-! ### Block numbers in commands -/

/-- The block number in the text of a receipt. -/
def receiptBlock (text : Bytes) : Option ℕ :=
  (strstr (ascii "\"blockNumber\":\"0x") text).map fun t =>
    value 16 (((t.drop 17).takeWhile (· ≠ 34)).map fun c => (hexCharVal c).getD 0)

/-- The block number a command stores. -/
def blockWritten : Command → Option UInt64
  | .set k v => if k = blockKey then some (strtoull v) else none
  | _ => none

/-- The block number in the receipt a command stores. -/
def receiptWritten : Command → Option ℕ
  | .set k v => if (ascii "receipt:").isPrefixOf k then receiptBlock v else none
  | _ => none

variable {ι : Type}

/-- The block numbers that are stored in a run, in order. -/
def numbersWritten (es : List (Event Command Store ι)) : List ℕ :=
  es.filterMap fun e => (blockWritten e.command).map UInt64.toNat

/-- The block numbers in the receipts of a run, in order. -/
def numbersRecorded (es : List (Event Command Store ι)) : List ℕ :=
  es.filterMap fun e => receiptWritten e.command

/-- The number of requests that have succeeded. -/
def succeeded [Fintype ι] (p : Pool Command (fun _ => Option Reply) Response Store ι) : ℕ :=
  (Finset.univ.filter fun i => (result (p.threads i)).any (!·.isError)).card

/-- Each of the requests that have succeeded has a block of its own, from the one after `b` on. -/
structure OwnBlocks [Fintype ι] (b : UInt64) (es : List (Event Command Store ι))
    (p : Pool Command (fun _ => Option Reply) Response Store ι) : Prop where
  latest : (storedBlock p.state).toNat = b.toNat + succeeded p
  receipts : (numbersRecorded es).Perm (List.range' (b.toNat + 1) (succeeded p))

/-- When a request stores a block number, the number it has read is still stored, and is not the
last of its range. -/
def NumbersKept (es : List (Event Command Store ι)) : Prop :=
  ∀ e ∈ es, ∀ e' ∈ es, e'.who = e.who → e'.command = .get blockKey →
    (blockWritten e.command).isSome = true →
      storedBlock e.before = storedBlock e'.before ∧ (storedBlock e.before).toNat < 2 ^ 64 - 1

instance [DecidableEq ι] (es : List (Event Command Store ι)) : Decidable (NumbersKept es) :=
  inferInstanceAs (Decidable (∀ e ∈ es, ∀ e' ∈ es, e'.who = e.who → e'.command = .get blockKey →
    (blockWritten e.command).isSome = true →
      storedBlock e.before = storedBlock e'.before ∧ (storedBlock e.before).toNat < 2 ^ 64 - 1))

/-! ### The text of a receipt -/

/-- The text of a receipt up to its block number. -/
lemma json_blockNumber (r : Receipt) :
    ∃ rest, r.json =
      ascii "\x7b\"transactionHash\":\"0x" ++ (r.transactionHash.bytes.flatMap hexByte ++
      (ascii "\",\"transactionIndex\":\"0x0\",\"blockHash\":\"0x" ++ (List.replicate 64 48 ++
        (ascii "\",\"blockNumber\":\"0x" ++
          ((digits 16 r.blockNumber.toNat).map hexChar ++ 34 :: rest))))) := by
  have hhash :
      (hexEncode r.transactionHash.bytes 67).getD [] = hexText r.transactionHash.bytes := by
    simp [hexEncode]
  simp only [Receipt.json, joined, field, quoted, zeroHex, hhash, hexText, hexNumber_eq,
    List.append_assoc,
    List.cons_append, List.nil_append]
  exact ⟨_, rfl⟩

/-- The block number can be read off the text of a receipt. -/
lemma receiptBlock_text (r : Receipt) : receiptBlock r.text = some r.blockNumber.toNat := by
  have hfind : ∀ t u v : Bytes, (34 ∉ t) → (34 ∉ u) →
      strstr (ascii "\"blockNumber\":\"0x") (ascii "\x7b\"transactionHash\":\"0x" ++ (t ++
        (ascii "\",\"transactionIndex\":\"0x0\",\"blockHash\":\"0x" ++ (u ++
          (ascii "\",\"blockNumber\":\"0x" ++ v))))) =
        some (ascii "\"blockNumber\":\"0x" ++ v) := by
    intro t u v ht hu
    have hskip : ∀ w x : Bytes, (34 ∉ w) → strstr (ascii "\"blockNumber\":\"0x") (w ++ x) =
        strstr (ascii "\"blockNumber\":\"0x") x := by
      intro w x hw
      refine strstr_append (fun c hc h => hw ?_) (by simp [ascii]) x
      have hquote : (34 : UInt8) = c := Option.some.inj h
      rw [hquote]
      exact hc
    calc strstr (ascii "\"blockNumber\":\"0x") (ascii "\x7b\"transactionHash\":\"0x" ++ (t ++
          (ascii "\",\"transactionIndex\":\"0x0\",\"blockHash\":\"0x" ++ (u ++
            (ascii "\",\"blockNumber\":\"0x" ++ v)))))
        = strstr (ascii "\"blockNumber\":\"0x") (t ++
          (ascii "\",\"transactionIndex\":\"0x0\",\"blockHash\":\"0x" ++ (u ++
            (ascii "\",\"blockNumber\":\"0x" ++ v)))) := rfl
      _ = strstr (ascii "\"blockNumber\":\"0x")
          (ascii "\",\"transactionIndex\":\"0x0\",\"blockHash\":\"0x" ++ (u ++
            (ascii "\",\"blockNumber\":\"0x" ++ v))) := hskip t _ ht
      _ = strstr (ascii "\"blockNumber\":\"0x") (u ++
            (ascii "\",\"blockNumber\":\"0x" ++ v)) := rfl
      _ = strstr (ascii "\"blockNumber\":\"0x") (ascii "\",\"blockNumber\":\"0x" ++ v) := hskip u _ hu
      _ = some (ascii "\"blockNumber\":\"0x" ++ v) := rfl
  have hdigit : ∀ c ∈ (digits 16 r.blockNumber.toNat).map hexChar, c ≠ 34 := by
    intro c hc
    obtain ⟨d, hd, rfl⟩ := List.mem_map.mp hc
    exact hexChar_ne_quote (digits_lt (by omega) _ d hd)
  obtain ⟨rest, hjson⟩ := json_blockNumber r
  unfold receiptBlock
  rw [Receipt.text_eq, hjson, hfind _ _ _ (quote_notMem_hexBytes _) (by simp)]
  rw [Option.map_some, List.drop_left' (by rfl),
    List.takeWhile_append_of_pos (by simpa using hdigit),
    List.takeWhile_cons_of_neg (by simp), List.append_nil, value_hexChars]

/-! ### The protocol of a request -/

/-- A command that has nothing to do with block numbers. -/
structure Quiet (c : Command) : Prop where
  notRead : c ≠ .get blockKey
  notWritten : blockWritten c = none
  notRecorded : receiptWritten c = none

inductive Phase
  | start
  | read (n : UInt64)
  | written (n : UInt64)
  | recorded (n : UInt64)

/-- What a request may do: read the block number, store the next one, and store a receipt with
that number. -/
inductive Next : Phase → Command → Option Reply → Phase → Prop
  | quiet (q : Phase) {c : Command} (r : Option Reply) (h : Quiet c) : Next q c r q
  | read (r : Option Reply) : Next .start (.get blockKey) r (.read (numberOf r))
  | write (n : UInt64) (r : Option Reply) :
    Next (.read n) (.set blockKey (decimal (n + 1).toNat)) r (.written n)
  | record (n : UInt64) {k v : Bytes} (r : Option Reply) (hk : k ≠ blockKey)
    (hv : receiptWritten (.set k v) = some (n + 1).toNat) : Next (.written n) (.set k v) r (.recorded n)

/-- How a request ends: it succeeds with a receipt, or fails before the block number is stored. -/
inductive Ends : Phase → Response → Prop
  | start {r : Response} (h : r.isError = true) : Ends .start r
  | read (n : UInt64) {r : Response} (h : r.isError = true) : Ends (.read n) r
  | recorded (n : UInt64) {r : Response} (h : r.isError = false) : Ends (.recorded n) r

lemma quiet_stateReads {c : Command} (h : StateReads c) : Quiet c := by
  cases h with
  | hget k f => exact ⟨nofun, rfl, rfl⟩
  | code addr =>
    refine ⟨fun h => codeCell_ne_blockCell addr ?_, rfl, rfl⟩
    exact congrArg Cell.key (Command.get.inj h)

lemma quiet_effect {w : Write} (h : IsEffect w.1) : Quiet w.command := by
  obtain ⟨c, v⟩ := w
  rcases h with ⟨a, rfl⟩ | ⟨a, k, rfl⟩
  · have hblock : codeKey a ≠ blockKey := fun hk => codeCell_ne_blockCell a (congrArg Cell.key hk)
    have hreceipt : (ascii "receipt:").isPrefixOf (codeKey a) = false := by
      simp [codeKey, ascii, List.isPrefixOf]
    refine ⟨?_, ?_, ?_⟩
    · intro hget
      cases hget
    · show (if codeKey a = blockKey then some (strtoull v) else none) = none
      rw [if_neg hblock]
    · show (if (ascii "receipt:").isPrefixOf (codeKey a) then receiptBlock v else none) = none
      rw [hreceipt]
      rfl
  · refine ⟨?_, rfl, rfl⟩
    intro hget
    cases hget

lemma issues_perform {P : Command → Prop} {ws : List Write} (h : ∀ w ∈ ws, P w.command) :
    Issues P (fun _ => True) (perform ws) := by
  induction ws with
  | nil => exact trivial
  | cons w ws ih =>
    refine ⟨h w List.mem_cons_self, fun _ => ih fun w' hw' => h w' (List.mem_cons_of_mem w hw')⟩

/-- A transaction has nothing to do with block numbers. -/
lemma issues_executeTx (evm : Evm) (tx : Tx) (blockCtx : Option BlockContext)
    (result : ExecResult) :
    Issues Quiet (fun _ => True) (executeTx evm tx blockCtx result) := by
  rw [executeTx_eq]
  refine ((issues_planTx tx blockCtx result).mono (fun _ => quiet_stateReads) fun _ => id).bind ?_
  intro p hp
  refine Issues.bind (issues_perform fun w hw => ?_) fun _ _ => trivial
  cases hp with
  | rejected _ hws =>
    rw [hws] at hw
    cases hw
  | executed _ effects hws heffects _ =>
    rw [hws, List.mem_append, List.mem_singleton] at hw
    rcases hw with hw | rfl
    · exact quiet_effect (heffects w hw)
    · exact ⟨nofun, rfl, rfl⟩

/-- **A request keeps to the protocol.** -/
lemma follows_executeAndRecord (rpc : Rpc) (time : UInt64) (id : Bytes) (tx : Tx) :
    Follows Next Ends .start (executeAndRecord rpc time id tx) := by
  intro r
  refine ⟨.read (numberOf r), .read r, ?_⟩
  refine (follows_of_issues (issues_executeTx rpc.evm tx _ _) fun _ hc r' =>
    .quiet _ r' hc).bind ?_
  rintro q ⟨rc, result⟩ ⟨rfl, -⟩
  by_cases hrc : rc ≠ 0
  · simp only [if_pos hrc]
    exact .read _ rfl
  · simp only [if_neg hrc]
    refine fun r' => ⟨.written (numberOf r), .write _ r', fun r'' =>
      ⟨.recorded (numberOf r), .record _ r'' ?_ ?_, .recorded _ rfl⟩⟩
    · exact fun hk => receiptCell_ne_blockCell tx.hash (congrArg Cell.key hk)
    · show (if (ascii "receipt:").isPrefixOf (receiptKey tx.hash) then receiptBlock _ else none) = _
      rw [if_pos (by simp [receiptKey, ascii, List.isPrefixOf]), receiptBlock_text]
      rfl

lemma keepsTo_serve (requests : ι → SendRequest) (s : Store) :
    (serve requests s).KeepsTo (fun _ => Next) (fun _ => Ends) fun _ => .start := by
  intro i
  show Follows _ _ _ (handleSendRawTransaction _ _ _ _ _)
  rcases handleSendRawTransaction_eq (requests i).parser (requests i).id (requests i).request with
    ⟨tx, -, hrun⟩ | ⟨-, message, -, hrun⟩
  · rw [hrun]
    exact follows_executeAndRecord _ _ _ _
  · rw [hrun]
    exact .start rfl

/-! ### The invariant -/

/-- The block number a request has read. -/
def Phase.number : Phase → Option UInt64
  | .start => none
  | .read n | .written n | .recorded n => some n

/-- The block number that a request has stored. -/
def Phase.stored : Phase → Multiset ℕ
  | .written n | .recorded n => {(n + 1).toNat}
  | _ => 0

/-- The block number that a request has put in a receipt. -/
def Phase.receipt : Phase → Multiset ℕ
  | .recorded n => {(n + 1).toNat}
  | _ => 0

variable [Fintype ι]

/-- What holds in every run. A request that has read a block number has read the first one or one
that was written; what was written and recorded is what the requests have stored and put in
receipts; and the numbers are kept as long as they are written in a row. -/
structure Inv (s₀ : Store) (es : List (Event Command Store ι))
    (p : Pool Command (fun _ => Option Reply) Response Store ι) (phases : ι → Phase) : Prop where
  keeps : p.KeepsTo (fun _ => Next) (fun _ => Ends) phases
  latest : (storedBlock p.state).toNat = (numbersWritten es).getLastD (storedBlock s₀).toNat
  grown : Counters.Grown (2 ^ 64) (storedBlock s₀).toNat (numbersWritten es)
  unread : ∀ e ∈ es, phases e.who = .start →
    e.command ≠ .get blockKey ∧ blockWritten e.command = none
  read : ∀ i n, (phases i).number = some n →
    (∃ e ∈ es, e.who = i ∧ e.command = .get blockKey) ∧
      (∀ e ∈ es, e.who = i → e.command = .get blockKey → storedBlock e.before = n) ∧
        n.toNat ∈ (storedBlock s₀).toNat :: numbersWritten es
  written : (numbersWritten es : Multiset ℕ) = ∑ i, (phases i).stored
  recorded : (numbersRecorded es : Multiset ℕ) = ∑ i, (phases i).receipt
  kept : NumbersKept es ↔ numbersWritten es =
    List.range' ((storedBlock s₀).toNat + 1) (numbersWritten es).length

variable {s₀ : Store} {es : List (Event Command Store ι)} {e : Event Command Store ι} {i : ι}
  {p p' : Pool Command (fun _ => Option Reply) Response Store ι} {phases : ι → Phase}

lemma inv_serve (requests : ι → SendRequest) (s : Store) :
    Inv s [] (serve requests s) fun _ => .start where
  keeps := keepsTo_serve requests s
  latest := rfl
  grown := .nil
  unread := by simp
  read := nofun
  written := by simp [numbersWritten, Phase.stored]
  recorded := by simp [numbersRecorded, Phase.receipt]
  kept := by simp [NumbersKept, numbersWritten]

/-- A command that stores no block number leaves it as it is. -/
lemma storedBlock_exec {c : Command} (h : blockWritten c = none) (s : Store) :
    storedBlock (exec s c).2 = storedBlock s := by
  unfold storedBlock
  cases c with
  | set k v =>
    have hk : blockCell ≠ .key k := by
      intro hk
      have hkey : k = blockKey := (Cell.key.inj hk).symm
      simp [blockWritten, hkey] at h
    show numberOf (some (.ofCell (put s (.key k) v blockCell))) = _
    rw [put_of_ne s v hk]
  | hset k fvs =>
    rw [exec_writes, puts_of_notMem]
    intro hmem
    obtain ⟨w, hw, hc⟩ := List.mem_map.mp hmem
    obtain ⟨fv, -, rfl⟩ := List.mem_map.mp hw
    cases hc
  | _ => rfl

/-! ### One more command -/

omit [Fintype ι] in
lemma numbersWritten_snoc (es : List (Event Command Store ι)) (e : Event Command Store ι) :
    numbersWritten (es ++ [e]) =
      numbersWritten es ++ ((blockWritten e.command).map UInt64.toNat).toList := by
  unfold numbersWritten
  rw [List.filterMap_append]
  rcases h : blockWritten e.command with _ | n <;> simp [h]

omit [Fintype ι] in
lemma numbersRecorded_snoc (es : List (Event Command Store ι)) (e : Event Command Store ι) :
    numbersRecorded (es ++ [e]) = numbersRecorded es ++ (receiptWritten e.command).toList := by
  unfold numbersRecorded
  rw [List.filterMap_append]
  rcases h : receiptWritten e.command with _ | n <;> simp [h]

omit [Fintype ι] in
/-- A command that stores no block number does not matter, unless it reads a number that was
stored before. -/
lemma numbersKept_snoc_of_none (hw : blockWritten e.command = none)
    (hr : e.command = .get blockKey →
      ∀ e' ∈ es, e'.who = e.who → blockWritten e'.command = none) :
    NumbersKept (es ++ [e]) ↔ NumbersKept es := by
  constructor
  · intro h x hx y hy
    exact h x (List.mem_append_left _ hx) y (List.mem_append_left _ hy)
  · intro h x hx y hy hwho hcmd hsome
    rcases List.mem_append.mp hx with hx | hx
    · rcases List.mem_append.mp hy with hy | hy
      · exact h x hx y hy hwho hcmd hsome
      · rw [List.mem_singleton.mp hy] at hwho hcmd
        rw [hr hcmd x hx hwho.symm] at hsome
        cases hsome
    · rw [List.mem_singleton.mp hx, hw] at hsome
      cases hsome

omit [Fintype ι] in
/-- A command that stores a block number has to find the number that its request has read. -/
lemma numbersKept_snoc_of_some {n : UInt64} (hw : (blockWritten e.command).isSome = true)
    (hex : ∃ e' ∈ es, e'.who = e.who ∧ e'.command = .get blockKey)
    (hall : ∀ e' ∈ es, e'.who = e.who → e'.command = .get blockKey → storedBlock e'.before = n) :
    NumbersKept (es ++ [e]) ↔
      NumbersKept es ∧ storedBlock e.before = n ∧ n.toNat < 2 ^ 64 - 1 := by
  constructor
  · intro h
    obtain ⟨e', he', hwho, hcmd⟩ := hex
    have hpair := h e (by simp) e' (List.mem_append_left _ he') hwho hcmd hw
    rw [hall e' he' hwho hcmd] at hpair
    refine ⟨fun x hx y hy => ?_, hpair.1, ?_⟩
    · exact h x (List.mem_append_left _ hx) y (List.mem_append_left _ hy)
    · rw [← hpair.1]
      exact hpair.2
  · rintro ⟨h, hbefore, hlt⟩ x hx y hy hwho hcmd hsome
    have hnoread : e.command ≠ .get blockKey := by
      intro hc
      rw [hc] at hw
      cases hw
    have hy' : y ∈ es := by
      refine (List.mem_append.mp hy).resolve_right fun hy => ?_
      rw [List.mem_singleton.mp hy] at hcmd
      exact hnoread hcmd
    rcases List.mem_append.mp hx with hx | hx
    · exact h x hx y hy' hwho hcmd hsome
    · rw [List.mem_singleton.mp hx] at hwho ⊢
      rw [hall y hy' hwho hcmd, hbefore]
      exact ⟨rfl, hlt⟩

variable [DecidableEq ι]

/-- One thread's phase counts for what it is now. -/
lemma sum_update (f : Phase → Multiset ℕ) (phases : ι → Phase) (i : ι) (q : Phase) :
    ∑ j, f (Function.update phases i q j) + f (phases i) = ∑ j, f (phases j) + f q := by
  rw [← Finset.add_sum_erase _ _ (Finset.mem_univ i),
    ← Finset.add_sum_erase _ (fun j => f (phases j)) (Finset.mem_univ i), Function.update_self]
  have hsame : ∑ j ∈ Finset.univ.erase i, f (Function.update phases i q j) =
      ∑ j ∈ Finset.univ.erase i, f (phases j) := by
    refine Finset.sum_congr rfl fun j hj => ?_
    rw [Function.update_of_ne (Finset.ne_of_mem_erase hj)]
  rw [hsame]
  ac_rfl

omit [Fintype ι] in
/-- The number a thread has read stays as it is. -/
lemma number_update {phases : ι → Phase} {i : ι} {q : Phase} (hq : q.number = (phases i).number)
    (j : ι) : (Function.update phases i q j).number = (phases j).number := by
  by_cases hj : j = i
  · rw [hj, Function.update_self, hq]
  · rw [Function.update_of_ne hj]

/-- A thread that has left the start has its commands behind it. -/
lemma Inv.unread_update (h : Inv s₀ es p phases) {q : Phase} (hq : q ≠ .start) :
    ∀ e' ∈ es ++ [e], Function.update phases e.who q e'.who = .start →
      e'.command ≠ .get blockKey ∧ blockWritten e'.command = none := by
  rw [List.forall_mem_append, List.forall_mem_singleton]
  constructor
  · intro e' he' hstart
    by_cases hwho : e'.who = e.who
    · rw [hwho, Function.update_self] at hstart
      exact absurd hstart hq
    · rw [Function.update_of_ne hwho] at hstart
      exact h.unread e' he' hstart
  · intro hstart
    rw [Function.update_self] at hstart
    exact absurd hstart hq

omit [DecidableEq ι] in
/-- A command that has nothing to do with block numbers keeps the invariant. -/
lemma Inv.step_quiet (h : Inv s₀ es p phases) (hc : Quiet e.command)
    (hstate : p'.state = (exec p.state e.command).2)
    (hkeeps : p'.KeepsTo (fun _ => Next) (fun _ => Ends) phases) :
    Inv s₀ (es ++ [e]) p' phases := by
  have hw : numbersWritten (es ++ [e]) = numbersWritten es := by
    rw [numbersWritten_snoc, hc.notWritten]
    simp
  have hr : numbersRecorded (es ++ [e]) = numbersRecorded es := by
    rw [numbersRecorded_snoc, hc.notRecorded]
    simp
  have hread : ∀ e' ∈ es ++ [e], e'.command = .get blockKey → e' ∈ es := by
    intro e' he' hcmd
    refine (List.mem_append.mp he').resolve_right fun he' => ?_
    rw [List.mem_singleton.mp he'] at hcmd
    exact hc.notRead hcmd
  refine ⟨hkeeps, ?_, ?_, ?_, ?_, ?_, ?_, ?_⟩
  · rw [hstate, storedBlock_exec hc.notWritten, hw]
    exact h.latest
  · rw [hw]
    exact h.grown
  · rw [List.forall_mem_append, List.forall_mem_singleton]
    exact ⟨h.unread, fun _ => ⟨hc.notRead, hc.notWritten⟩⟩
  · intro j n hj
    obtain ⟨⟨e', he', hx⟩, hall, hmem⟩ := h.read j n hj
    rw [hw]
    refine ⟨⟨e', List.mem_append_left _ he', hx⟩, fun e'' he'' hwho hcmd => ?_, hmem⟩
    exact hall e'' (hread e'' he'' hcmd) hwho hcmd
  · rw [hw]
    exact h.written
  · rw [hr]
    exact h.recorded
  · rw [hw, numbersKept_snoc_of_none hc.notWritten fun hcmd => absurd hcmd hc.notRead]
    exact h.kept

/-- So does reading the block number. -/
lemma Inv.step_read (h : Inv s₀ es p phases) (hi : phases e.who = .start)
    (hcmd : e.command = .get blockKey) (hbefore : e.before = p.state)
    (hstate : p'.state = p.state)
    (hkeeps : p'.KeepsTo (fun _ => Next) (fun _ => Ends)
      (Function.update phases e.who (.read (storedBlock p.state)))) :
    Inv s₀ (es ++ [e]) p' (Function.update phases e.who (.read (storedBlock p.state))) := by
  have hnone : blockWritten e.command = none := by rw [hcmd]; rfl
  have hw : numbersWritten (es ++ [e]) = numbersWritten es := by
    rw [numbersWritten_snoc, hnone]
    simp
  have hr : numbersRecorded (es ++ [e]) = numbersRecorded es := by
    rw [numbersRecorded_snoc, hcmd]
    simp [receiptWritten]
  have hsum : ∀ f : Phase → Multiset ℕ, f .start = 0 → (∀ n, f (.read n) = 0) →
      ∑ j, f (Function.update phases e.who (.read (storedBlock p.state)) j) =
        ∑ j, f (phases j) := by
    intro f h0 hf
    have hu := sum_update f phases e.who (.read (storedBlock p.state))
    rwa [hi, h0, hf, add_zero, add_zero] at hu
  refine ⟨hkeeps, ?_, ?_, ?_, ?_, ?_, ?_, ?_⟩
  · rw [hstate, hw]
    exact h.latest
  · rw [hw]
    exact h.grown
  · exact h.unread_update (by rintro ⟨⟩)
  · intro j n hj
    rw [hw]
    by_cases hji : j = e.who
    · subst hji
      rw [Function.update_self] at hj
      cases hj
      refine ⟨⟨e, by simp, rfl, hcmd⟩, ?_, ?_⟩
      · rw [List.forall_mem_append, List.forall_mem_singleton]
        refine ⟨fun e' he' hwho hcmd' => ?_, fun _ _ => by rw [hbefore]⟩
        exact absurd hcmd' (h.unread e' he' (hwho ▸ hi)).1
      · -- what is stored was there at the start, or was written
        rw [h.latest, List.getLastD_eq_getLast?]
        rcases hlast : (numbersWritten es).getLast? with _ | w
        · exact List.mem_cons_self
        · exact List.mem_cons_of_mem _ (List.mem_of_getLast? hlast)
    · rw [Function.update_of_ne hji] at hj
      obtain ⟨⟨e', he', hx⟩, hall, hmem⟩ := h.read j n hj
      refine ⟨⟨e', List.mem_append_left _ he', hx⟩, ?_, hmem⟩
      rw [List.forall_mem_append, List.forall_mem_singleton]
      exact ⟨hall, fun hwho => absurd hwho.symm hji⟩
  · rw [hw, hsum _ rfl fun _ => rfl]
    exact h.written
  · rw [hr, hsum _ rfl fun _ => rfl]
    exact h.recorded
  · rw [hw, numbersKept_snoc_of_none hnone fun _ e' he' hwho => (h.unread e' he' (hwho ▸ hi)).2]
    exact h.kept

/-- So does storing the number after the one that was read. -/
lemma Inv.step_write (h : Inv s₀ es p phases) {n : UInt64} (hi : phases e.who = .read n)
    (hcmd : e.command = .set blockKey (decimal (n + 1).toNat)) (hbefore : e.before = p.state)
    (hstate : p'.state = (exec p.state e.command).2)
    (hkeeps : p'.KeepsTo (fun _ => Next) (fun _ => Ends)
      (Function.update phases e.who (.written n))) :
    Inv s₀ (es ++ [e]) p' (Function.update phases e.who (.written n)) := by
  obtain ⟨hex, hall, hmem⟩ := h.read e.who n (by rw [hi]; rfl)
  have hsome : blockWritten e.command = some (n + 1) := by
    rw [hcmd, blockWritten, if_pos rfl, strtoull_decimal]
  have hsucc : (n + 1).toNat = (n.toNat + 1) % 2 ^ 64 := by
    rw [UInt64.toNat_add, UInt64.toNat_one]
  have hw : numbersWritten (es ++ [e]) = numbersWritten es ++ [(n + 1).toNat] := by
    rw [numbersWritten_snoc, hsome]
    simp
  have hr : numbersRecorded (es ++ [e]) = numbersRecorded es := by
    have hnone : receiptWritten e.command = none := by
      rw [hcmd, receiptWritten, if_neg (by decide)]
    rw [numbersRecorded_snoc, hnone]
    simp
  refine ⟨hkeeps, ?_, ?_, ?_, ?_, ?_, ?_, ?_⟩
  · rw [hw, List.getLastD_concat, hstate, hcmd]
    refine congrArg UInt64.toNat ?_
    show numberOf (some (.ofCell (put p.state blockCell _ blockCell))) = n + 1
    rw [put_same]
    exact strtoull_decimal (n + 1)
  · rw [hw, hsucc]
    exact h.grown.snoc hmem
  · exact h.unread_update (by rintro ⟨⟩)
  · intro j m hj
    rw [number_update (by rw [hi]; rfl)] at hj
    obtain ⟨⟨e', he', hx⟩, hall', hmem'⟩ := h.read j m hj
    refine ⟨⟨e', List.mem_append_left _ he', hx⟩, ?_, ?_⟩
    · rw [List.forall_mem_append, List.forall_mem_singleton]
      refine ⟨hall', fun _ hget => ?_⟩
      rw [hcmd] at hget
      cases hget
    · rw [hw, ← List.cons_append]
      exact List.mem_append_left _ hmem'
  · have hu := sum_update Phase.stored phases e.who (.written n)
    rw [hi] at hu
    rw [hw, ← Multiset.coe_add, Multiset.coe_singleton, h.written]
    simpa [Phase.stored] using hu.symm
  · have hu := sum_update Phase.receipt phases e.who (.written n)
    rw [hi] at hu
    rw [hr, h.recorded]
    simpa [Phase.receipt] using hu.symm
  · rw [numbersKept_snoc_of_some (by rw [hsome]; rfl) hex hall, h.kept, hw, hbefore,
      List.length_append, List.length_singleton]
    have hlatest := h.latest
    constructor
    · rintro ⟨hrow, hb, hlt⟩
      rw [hrow, Counters.getLastD_range', hb] at hlatest
      rw [hrow] at hmem
      conv_lhs => rw [hrow, hsucc]
      exact (Counters.snoc_range' hmem n.toNat_lt).mpr ⟨hlatest, by omega⟩
    · intro hrow
      have hpre : numbersWritten es =
          List.range' ((storedBlock s₀).toNat + 1) (numbersWritten es).length := by
        rw [List.range'_concat] at hrow
        exact (List.append_inj hrow (by simp)).1
      rw [hpre, Counters.getLastD_range'] at hlatest
      rw [hpre] at hmem
      have hnext := (Counters.snoc_range' hmem n.toNat_lt).mp (by rw [← hpre, ← hsucc, hrow])
      refine ⟨hpre, UInt64.toNat_inj.mp ?_, by omega⟩
      rw [hlatest]
      exact hnext.1.symm

/-- And so does storing the receipt. -/
lemma Inv.step_record (h : Inv s₀ es p phases) {n : UInt64} (hi : phases e.who = .written n)
    {k v : Bytes} (hcmd : e.command = .set k v) (hk : k ≠ blockKey)
    (hv : receiptWritten e.command = some (n + 1).toNat)
    (hstate : p'.state = (exec p.state e.command).2)
    (hkeeps : p'.KeepsTo (fun _ => Next) (fun _ => Ends)
      (Function.update phases e.who (.recorded n))) :
    Inv s₀ (es ++ [e]) p' (Function.update phases e.who (.recorded n)) := by
  have hnone : blockWritten e.command = none := by rw [hcmd, blockWritten, if_neg hk]
  have hnoread : e.command ≠ .get blockKey := by
    rw [hcmd]
    nofun
  have hw : numbersWritten (es ++ [e]) = numbersWritten es := by
    rw [numbersWritten_snoc, hnone]
    simp
  have hr : numbersRecorded (es ++ [e]) = numbersRecorded es ++ [(n + 1).toNat] := by
    rw [numbersRecorded_snoc, hv]
    rfl
  refine ⟨hkeeps, ?_, ?_, ?_, ?_, ?_, ?_, ?_⟩
  · rw [hstate, storedBlock_exec hnone, hw]
    exact h.latest
  · rw [hw]
    exact h.grown
  · exact h.unread_update (by rintro ⟨⟩)
  · intro j m hj
    rw [number_update (by rw [hi]; rfl)] at hj
    obtain ⟨⟨e', he', hx⟩, hall', hmem'⟩ := h.read j m hj
    rw [hw]
    refine ⟨⟨e', List.mem_append_left _ he', hx⟩, ?_, hmem'⟩
    rw [List.forall_mem_append, List.forall_mem_singleton]
    exact ⟨hall', fun _ hget => absurd hget hnoread⟩
  · have hu := sum_update Phase.stored phases e.who (.recorded n)
    rw [hi] at hu
    rw [hw, h.written]
    exact (add_right_cancel hu).symm
  · have hu := sum_update Phase.receipt phases e.who (.recorded n)
    rw [hi] at hu
    rw [hr, ← Multiset.coe_add, Multiset.coe_singleton, h.recorded]
    simpa [Phase.receipt] using hu.symm
  · rw [hw, numbersKept_snoc_of_none hnone fun hget => absurd hget hnoread]
    exact h.kept

/-- **The invariant is kept by every command.** -/
lemma Inv.step (h : Inv s₀ es p phases) (hs : p.step server i = (some e, p')) :
    ∃ phases', Inv s₀ (es ++ [e]) p' phases' := by
  obtain ⟨q, he, hstate, hn, hkeeps⟩ := h.keeps.step hs
  have hwho : e.who = i := by rw [he]
  have hbefore : e.before = p.state := by rw [he]
  rw [← hwho] at hn hkeeps
  change p'.state = (exec p.state e.command).2 at hstate
  generalize hc : e.command = c at hn hstate
  generalize hi : phases e.who = q₀ at hn
  cases hn with
  | quiet _ _ hquiet =>
    rw [← hi, Function.update_eq_self] at hkeeps
    rw [← hc] at hquiet hstate
    exact ⟨phases, h.step_quiet hquiet hstate hkeeps⟩
  | read => exact ⟨_, h.step_read hi hc hbefore hstate hkeeps⟩
  | write n =>
    rw [← hc] at hstate
    exact ⟨_, h.step_write hi hc hbefore hstate hkeeps⟩
  | record n _ hk hv =>
    rw [← hc] at hstate hv
    exact ⟨_, h.step_record hi hc hk hv hstate hkeeps⟩

/-! ### Every run -/

/-- All requests have been answered. -/
def Ended (p : Pool Command (fun _ => Option Reply) Response Store ι) : Prop :=
  ∀ i, (result (p.threads i)).isSome = true

omit [DecidableEq ι] in
instance (p : Pool Command (fun _ => Option Reply) Response Store ι) :
    Decidable (Ended p) :=
  inferInstanceAs (Decidable (∀ i, (result (p.threads i)).isSome = true))

omit [DecidableEq ι] in
/-- At the end, a receipt has been stored for every number that was. -/
lemma Inv.ended (h : Inv s₀ es p phases) (hend : Ended p) :
    (numbersRecorded es).Perm (numbersWritten es) ∧
      succeeded p = (numbersWritten es).length := by
  have hends : ∀ i, ∃ r, p.threads i = .ret r ∧ Ends (phases i) r := by
    intro i
    have hi := hend i
    have hkeeps := h.keeps i
    rcases hthread : p.threads i with r | ⟨c, k⟩
    · rw [hthread] at hkeeps
      exact ⟨r, rfl, hkeeps⟩
    · rw [hthread] at hi
      cases hi
  have hsame : ∀ i, (phases i).stored = (phases i).receipt := by
    intro i
    obtain ⟨r, -, hr⟩ := hends i
    generalize phases i = q at hr
    cases hr <;> rfl
  have hone : ∀ i, (phases i).stored.card =
      if (result (p.threads i)).any (!·.isError) then 1 else 0 := by
    intro i
    obtain ⟨r, hthread, hr⟩ := hends i
    rw [hthread]
    generalize phases i = q at hr
    cases hr with
    | start herr | read n herr | recorded n herr => simp [result, Phase.stored, herr]
  constructor
  · rw [← Multiset.coe_eq_coe, h.recorded, h.written]
    exact Finset.sum_congr rfl fun i _ => (hsame i).symm
  · rw [← Multiset.coe_card, h.written, Multiset.card_sum, succeeded, Finset.card_filter]
    exact Finset.sum_congr rfl fun i _ => (hone i).symm

omit [DecidableEq ι] in
/-- The requests have blocks of their own exactly when the numbers are written in a row. -/
lemma Inv.ownBlocks (h : Inv s₀ es p phases) (hend : Ended p) :
    OwnBlocks (storedBlock s₀) es p ↔
      numbersWritten es = List.range' ((storedBlock s₀).toNat + 1) (numbersWritten es).length := by
  obtain ⟨hperm, hcount⟩ := h.ended hend
  have hlatest := h.latest
  constructor
  · intro hown
    have hrow := hperm.symm.trans hown.receipts
    have hbound : ∀ w ∈ numbersWritten es, w < 2 ^ 64 := by
      intro w hw
      obtain ⟨e, -, he⟩ := List.mem_filterMap.mp hw
      obtain ⟨n, -, rfl⟩ := Option.map_eq_some_iff.mp he
      exact n.toNat_lt
    refine h.grown.eq_range' (storedBlock s₀).toNat_lt hbound ?_ ?_
    · exact hrow.symm.nodup (List.nodup_range' ..)
    · intro h0
      have := List.mem_range'_1.mp (hrow.mem_iff.mp h0)
      omega
  · intro hrow
    constructor
    · rw [hlatest, hcount, hrow, Counters.getLastD_range', List.length_range']
    · rw [hcount, ← hrow]
      exact hperm

/-- **Each transaction gets its own block exactly when every block number is kept until the next one
is stored**: in every run of any requests to its end, by any schedule. -/
theorem ownBlocks_iff (requests : ι → SendRequest) (s : Store) (schedule : List ι)
    (hend : Ended (Pool.run server schedule (serve requests s)).2) :
    let (es, p) := Pool.run server schedule (serve requests s)
    OwnBlocks (storedBlock s) es p ↔ NumbersKept es := by
  obtain ⟨phases, hinv⟩ := Pool.run_induction
    (M := fun es p => ∃ phases, Inv s es p phases) ⟨_, inv_serve requests s⟩
    (fun _ _ _ _ _ ⟨_, h⟩ hs => h.step hs) schedule
  exact (hinv.ownBlocks hend).trans hinv.kept.symm

/-- The plain transaction, sent by two accounts. -/
def sentByTwo (second : Bool) : SendRequest where
  rpc := idleRpc
  parser := ⟨fun _ => some { plainTx with fromAddr := .rightAlign 20 [if second then 2 else 1] }, some⟩
  time := 0
  id := [49]
  request := plainRequest

/-- One request after the other: they get one block each. -/
theorem ownBlocks_sentByTwo :
    let (es, p) := Pool.run server (List.replicate 6 false ++ List.replicate 6 true)
      (serve sentByTwo fun _ => none)
    OwnBlocks (storedBlock fun _ => none) es p :=
  (ownBlocks_iff sentByTwo (fun _ => none) (List.replicate 6 false ++ List.replicate 6 true)
    (by decide +kernel)).mpr (by decide +kernel)

/-- Both requests read the block number before one of them stores it, and both have block 1. -/
theorem not_ownBlocks_sentByTwo :
    let (es, p) := Pool.run server ([false, true] ++ List.replicate 6 false ++ List.replicate 6 true)
      (serve sentByTwo fun _ => none)
    Ended p ∧ succeeded p = 2 ∧ ¬ OwnBlocks (storedBlock fun _ => none) es p := by
  refine ⟨by decide +kernel, by decide +kernel, fun h => ?_⟩
  have hlatest := h.latest
  revert hlatest
  decide +kernel

end EvmDb.BlockNumbers
