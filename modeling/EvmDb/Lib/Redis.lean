import EvmDb.Lib.Program
import Mathlib.Logic.Function.Basic
import Mathlib.Data.List.Nodup

/-!
A key-value store with strings and hashes, and the commands on it.

A key is used for a string or for a hash, never for both, so a store is a function on cells:
the string keys, and the fields of the hashes. A command that fails is answered with nothing
at all or with an error, and leaves the store as it is.
-/

namespace EvmDb.Redis

open EvmDb.Program

/-- A place for a byte string. -/
inductive Cell
  | key (k : List UInt8)
  | field (k f : List UInt8)
  deriving DecidableEq

abbrev Store := Cell → Option (List UInt8)

/-- A store with one cell set. -/
def put (s : Store) (c : Cell) (v : List UInt8) : Store := Function.update s c (some v)

@[simp] lemma put_same (s : Store) (c : Cell) (v : List UInt8) : put s c v c = some v := by
  unfold put
  exact Function.update_self c (some v) s

lemma put_of_ne (s : Store) {c d : Cell} (v : List UInt8) (h : d ≠ c) : put s c v d = s d := by
  unfold put
  exact Function.update_of_ne h (some v) s

lemma put_eq_self {s : Store} {c : Cell} {v : List UInt8} : put s c v = s ↔ s c = some v := by
  unfold put
  rw [Function.update_eq_self_iff]
  exact eq_comm

inductive Command
  | get (k : List UInt8)
  | set (k v : List UInt8)
  | hget (k f : List UInt8)
  | hset (k : List UInt8) (fvs : List (List UInt8 × List UInt8))
  | hmget (k : List UInt8) (fs : List (List UInt8))
  deriving DecidableEq

inductive Reply
  | nil
  | status
  | integer (n : ℕ)
  | string (bs : List UInt8)
  | array (rs : List (Option (List UInt8)))
  | error
  deriving DecidableEq

def Reply.ofCell : Option (List UInt8) → Reply
  | some bs => .string bs
  | none => .nil

/-- The fields of one hash set, one after the other. -/
def hputs (s : Store) (k : List UInt8) (fvs : List (List UInt8 × List UInt8)) : Store :=
  fvs.foldl (fun s fv => put s (.field k fv.1) fv.2) s

/-- A command on a store, when it succeeds. -/
def exec (s : Store) : Command → Reply × Store
  | .get k => (.ofCell (s (.key k)), s)
  | .set k v => (.status, put s (.key k) v)
  | .hget k f => (.ofCell (s (.field k f)), s)
  | .hset k fvs => (.integer (fvs.countP fun fv => s (.field k fv.1) = none), hputs s k fvs)
  | .hmget k fs => (.array (fs.map fun f => s (.field k f)), s)

def Command.isWrite : Command → Bool
  | .set _ _ | .hset _ _ => true
  | _ => false

lemma exec_of_read {c : Command} (h : c.isWrite = false) (s : Store) : (exec s c).2 = s := by
  cases c <;> first | rfl | cases h

/-- Programs over the commands; the reply is a null pointer if there is none. -/
abbrev RedisProg := Prog Command fun _ => Option Reply

/-- Commands that all succeed. -/
def server : Handler Command (fun _ => Option Reply) Store :=
  fun s c => (some (exec s c).1, (exec s c).2)

/-! ### Failing commands -/

/-- A command can fail without a reply, or with an error reply. -/
inductive Fault
  | null
  | error
  deriving DecidableEq

def Fault.reply : Fault → Option Reply
  | .null => none
  | .error => some .error

/-- Which of the commands that may fail do fail, in the order they are issued. -/
abbrev Faults := ℕ → Option Fault

def Faults.tail (fs : Faults) : Faults := fun i => fs (i + 1)

/-- A server on which the commands that satisfy `may` fail as the pattern says. -/
def faultyServer (may : Command → Bool) :
    Handler Command (fun _ => Option Reply) (Store × Faults) :=
  fun (s, fs) c =>
    if may c then
      match fs 0 with
      | some f => (f.reply, (s, fs.tail))
      | none => (some (exec s c).1, ((exec s c).2, fs.tail))
    else (some (exec s c).1, ((exec s c).2, fs))

lemma faultyServer_of_not {may : Command → Bool} {c : Command} (h : may c = false) (s : Store)
    (fs : Faults) :
    faultyServer may (s, fs) c = (some (exec s c).1, ((exec s c).2, fs)) := by
  simp [faultyServer, h]

/-- A phase that only reads leaves the store as it is. -/
lemma run_reads {α : Type} {post : α → Prop} {p : RedisProg α}
    (hp : Issues (fun c => c.isWrite = false) post p) (s : Store) :
    (run server p s).2 = s ∧ post (run server p s).1 :=
  hp.run_inv (I := fun t => t = s) (fun t _ hc ht => (exec_of_read hc t).trans ht) rfl

/-- Faults that hit writes only are not noticed by a phase that reads. -/
lemma run_reads_faulty {α : Type} {post : α → Prop} {p : RedisProg α}
    (hp : Issues (fun c => c.isWrite = false) post p) (s : Store) (fs : Faults) :
    run (faultyServer Command.isWrite) p (s, fs) = ((run server p s).1, (s, fs)) := by
  have hrel : ∀ (t : Store × Faults) (u : Store) (c : Command), c.isWrite = false →
      t = (u, fs) → (faultyServer Command.isWrite t c).1 = (server u c).1 ∧
        (faultyServer Command.isWrite t c).2 = ((server u c).2, fs) := by
    rintro t u c hc rfl
    rw [faultyServer_of_not hc]
    exact ⟨rfl, rfl⟩
  obtain ⟨h₁, h₂⟩ := hp.run_congr hrel (s := (s, fs)) (t := s) rfl
  rw [(run_reads hp s).1] at h₂
  exact Prod.ext h₁ h₂

/-- A phase that reads leaves the store as it is, also when reads fail. -/
lemma run_reads_of_faults {α : Type} {post : α → Prop} {p : RedisProg α}
    (hp : Issues (fun c => c.isWrite = false) post p) (may : Command → Bool) (s : Store)
    (fs : Faults) :
    (run (faultyServer may) p (s, fs)).2.1 = s ∧ post (run (faultyServer may) p (s, fs)).1 := by
  refine hp.run_inv (I := fun t : Store × Faults => t.1 = s) ?_ rfl
  rintro ⟨t, fs⟩ c hc ht
  unfold faultyServer
  simp only
  split_ifs
  · split
    · exact ht
    · exact (exec_of_read hc t).trans ht
  · exact (exec_of_read hc t).trans ht

/-! ### Sequences of writes -/

/-- One cell and what is written to it. -/
abbrev Write := Cell × List UInt8

def Write.command : Write → Command
  | (.key k, v) => .set k v
  | (.field k f, v) => .hset k [(f, v)]

lemma exec_command (s : Store) (w : Write) : (exec s w.command).2 = put s w.1 w.2 := by
  obtain ⟨c, v⟩ := w
  cases c <;> rfl

lemma isWrite_command (w : Write) : w.command.isWrite = true := by
  obtain ⟨c, v⟩ := w
  cases c <;> rfl

/-- A store after some writes. -/
def puts (ws : List Write) (s : Store) : Store := ws.foldl (fun s w => put s w.1 w.2) s

/-- The writes, issued one after the other without regard to the replies. -/
def perform : List Write → RedisProg Unit
  | [] => .ret ()
  | w :: ws => .cmd w.command fun _ => perform ws

lemma run_perform (ws : List Write) (s : Store) : run server (perform ws) s = ((), puts ws s) := by
  induction ws generalizing s with
  | nil => rfl
  | cons w ws ih =>
    rw [perform, run_step, ih]
    simp [server, puts, exec_command]

lemma perform_append (ws ws' : List Write) :
    perform (ws ++ ws') = perform ws >>= fun _ => perform ws' := by
  induction ws with
  | nil => rfl
  | cons w ws ih => exact congrArg _ (funext fun _ => ih)

lemma puts_append (ws ws' : List Write) (s : Store) :
    puts (ws ++ ws') s = puts ws' (puts ws s) := List.foldl_append

/-- A store after the writes that did not fail. -/
def putsFaulty : Faults → List Write → Store → Store
  | _, [], s => s
  | fs, w :: ws, s => putsFaulty fs.tail ws (if fs 0 = none then put s w.1 w.2 else s)

lemma run_perform_faulty {may : Command → Bool} (hmay : ∀ c, c.isWrite = true → may c = true)
    (ws : List Write) (s : Store) (fs : Faults) :
    (run (faultyServer may) (perform ws) (s, fs)).2.1 = putsFaulty fs ws s := by
  induction ws generalizing s fs with
  | nil => rfl
  | cons w ws ih =>
    rw [perform, run_step, putsFaulty]
    rw [faultyServer, if_pos (hmay _ (isWrite_command w))]
    rcases fs 0 with _ | f
    · simp only [ih, exec_command, if_true]
    · simp only [ih, reduceCtorEq, if_false]

/-- Writes that cannot fail are all done. -/
lemma run_perform_of_reads_fail {may : Command → Bool}
    (hmay : ∀ c, c.isWrite = true → may c = false)
    (ws : List Write) (s : Store) (fs : Faults) :
    (run (faultyServer may) (perform ws) (s, fs)).2.1 = puts ws s := by
  induction ws generalizing s fs with
  | nil => rfl
  | cons w ws ih =>
    rw [perform, run_step, faultyServer_of_not (hmay _ (isWrite_command w)), ih, exec_command]
    rfl

lemma puts_of_notMem {ws : List Write} {c : Cell} (h : c ∉ ws.map Prod.fst) (s : Store) :
    puts ws s c = s c := by
  induction ws generalizing s with
  | nil => rfl
  | cons w ws ih =>
    rw [List.map_cons, List.mem_cons, not_or] at h
    show puts ws (put s w.1 w.2) c = s c
    rw [ih h.2, put_of_ne s w.2 h.1]

/-- Each of some writes to different cells is there afterwards. -/
lemma puts_of_mem {ws : List Write} (hnd : (ws.map Prod.fst).Nodup) {w : Write} (hw : w ∈ ws)
    (s : Store) : puts ws s w.1 = some w.2 := by
  induction ws generalizing s with
  | nil => cases hw
  | cons v vs ih =>
    obtain ⟨hv, hnd⟩ := List.nodup_cons.mp hnd
    rcases List.mem_cons.mp hw with rfl | hw
    · show puts vs (put s w.1 w.2) w.1 = some w.2
      rw [puts_of_notMem hv, put_same]
    · exact ih hnd hw _

lemma putsFaulty_of_notMem {ws : List Write} {c : Cell} (h : c ∉ ws.map Prod.fst) (fs : Faults)
    (s : Store) : putsFaulty fs ws s c = s c := by
  induction ws generalizing s fs with
  | nil => rfl
  | cons w ws ih =>
    rw [List.map_cons, List.mem_cons, not_or] at h
    rw [putsFaulty, ih h.2]
    split_ifs
    · exact put_of_ne s w.2 h.1
    · rfl

/-- A write to a cell that no other write concerns can be done first. -/
lemma puts_put_comm {ws : List Write} {c : Cell} (h : c ∉ ws.map Prod.fst) (v : List UInt8)
    (s : Store) : puts ws (put s c v) = put (puts ws s) c v := by
  induction ws generalizing s with
  | nil => rfl
  | cons w ws ih =>
    rw [List.map_cons, List.mem_cons, not_or] at h
    show puts ws (put (put s c v) w.1 w.2) = put (puts ws (put s w.1 w.2)) c v
    rw [← ih h.2]
    congr 1
    exact Function.update_comm h.1 _ _ s

lemma putsFaulty_put_comm {ws : List Write} {c : Cell} (h : c ∉ ws.map Prod.fst)
    (v : List UInt8) (fs : Faults) (s : Store) :
    putsFaulty fs ws (put s c v) = put (putsFaulty fs ws s) c v := by
  induction ws generalizing s fs with
  | nil => rfl
  | cons w ws ih =>
    rw [List.map_cons, List.mem_cons, not_or] at h
    rw [putsFaulty, putsFaulty, ← ih h.2]
    split_ifs
    · congr 1
      exact Function.update_comm h.1 _ _ s
    · rfl

/-- **Failed writes leave no trace exactly when they would have changed nothing**, for writes to
different cells. -/
theorem putsFaulty_eq_puts_iff {ws : List Write} (hnd : (ws.map Prod.fst).Nodup) (fs : Faults)
    (s : Store) :
    putsFaulty fs ws s = puts ws s ↔
      ∀ i w, ws[i]? = some w → fs i ≠ none → s w.1 = some w.2 := by
  induction ws generalizing s fs with
  | nil => simp [putsFaulty, puts]
  | cons w ws ih =>
    obtain ⟨hw, hnd⟩ := List.nodup_cons.mp hnd
    have hputs : puts (w :: ws) s = put (puts ws s) w.1 w.2 := puts_put_comm hw w.2 s
    have htail : (∀ i w', (w :: ws)[i]? = some w' → fs i ≠ none → s w'.1 = some w'.2) ↔
        (fs 0 ≠ none → s w.1 = some w.2) ∧
          ∀ i w', ws[i]? = some w' → fs.tail i ≠ none → s w'.1 = some w'.2 := by
      constructor
      · intro h
        exact ⟨h 0 w rfl, fun i w' hi => h (i + 1) w' hi⟩
      · rintro ⟨h0, h⟩ i w' hi
        rcases i with _ | i
        · cases hi
          exact h0
        · exact h i w' hi
    rw [htail, ← ih hnd, hputs, putsFaulty]
    have hout : ∀ v : List UInt8, put (putsFaulty fs.tail ws s) w.1 v = put (puts ws s) w.1 v ↔
        putsFaulty fs.tail ws s = puts ws s := by
      intro v
      refine ⟨fun h => funext fun c => ?_, fun h => by rw [h]⟩
      by_cases hc : c = w.1
      · rw [hc, putsFaulty_of_notMem hw, puts_of_notMem hw]
      · rw [← put_of_ne (putsFaulty fs.tail ws s) v hc, h, put_of_ne _ v hc]
    by_cases hf : fs 0 = none
    · rw [if_pos hf, putsFaulty_put_comm hw, hout]
      simp [hf]
    · rw [if_neg hf]
      simp only [hf, not_false_eq_true, ne_eq, true_implies]
      constructor
      · intro h
        have hs : s w.1 = some w.2 := by
          rw [← putsFaulty_of_notMem hw fs.tail s, h, put_same]
        refine ⟨hs, (hout w.2).mp ?_⟩
        rw [← h, put_eq_self, putsFaulty_of_notMem hw, hs]
      · rintro ⟨hs, h⟩
        rw [h, eq_comm, put_eq_self, puts_of_notMem hw, hs]

/-! ### What a command touches -/

/-- The cells a command reads or writes. -/
def Command.cells : Command → List Cell
  | .get k | .set k _ => [.key k]
  | .hget k f => [.field k f]
  | .hset k fvs => fvs.map fun fv => .field k fv.1
  | .hmget k fs => fs.map (.field k)

/-- What a command writes. -/
def Command.writes : Command → List Write
  | .set k v => [(.key k, v)]
  | .hset k fvs => fvs.map fun fv => (.field k fv.1, fv.2)
  | _ => []

lemma exec_writes (s : Store) (c : Command) : (exec s c).2 = puts c.writes s := by
  cases c with
  | hset k fvs =>
    show hputs s k fvs = puts (fvs.map fun fv => (.field k fv.1, fv.2)) s
    unfold hputs puts
    rw [List.foldl_map]
  | _ => rfl

/-- What is written to a cell does not depend on what was there. -/
lemma puts_congr {ws : List Write} {c : Cell} (hc : c ∈ ws.map Prod.fst) (s t : Store) :
    puts ws s c = puts ws t c := by
  induction ws generalizing s t with
  | nil => cases hc
  | cons w ws ih =>
    show puts ws (put s w.1 w.2) c = puts ws (put t w.1 w.2) c
    by_cases hmem : c ∈ ws.map Prod.fst
    · exact ih hmem _ _
    · have hw : c = w.1 := (List.mem_cons.mp hc).resolve_right hmem
      rw [puts_of_notMem hmem, puts_of_notMem hmem, hw, put_same, put_same]

lemma exec_reply {s t : Store} {c : Command} (h : ∀ x ∈ c.cells, s x = t x) :
    (exec s c).1 = (exec t c).1 := by
  cases c with
  | get k => exact congrArg Reply.ofCell (h _ List.mem_cons_self)
  | set k v => rfl
  | hget k f => exact congrArg Reply.ofCell (h _ List.mem_cons_self)
  | hset k fvs =>
    refine congrArg Reply.integer (List.countP_congr fun fv hfv => ?_)
    rw [h _ (List.mem_map.mpr ⟨fv, hfv, rfl⟩)]
  | hmget k fs =>
    refine congrArg Reply.array (List.map_congr_left fun f hf => ?_)
    exact h _ (List.mem_map.mpr ⟨f, hf, rfl⟩)

/-! ### Typed components -/

/-- Components with values of types of their own, each kept as a text in a cell of its own. -/
structure Layout (K : Type) (V : K → Type) where
  cell : K → Cell
  encode : (k : K) → V k → List UInt8
  decode : (k : K) → Option (List UInt8) → V k
  cell_inj : Function.Injective cell
  decode_encode : ∀ k v, decode k (some (encode k v)) = v

namespace Layout

variable {K : Type} {V : K → Type} [DecidableEq K]

/-- Some components set, one after the other. -/
def assign (kvs : List ((k : K) × V k)) (t : (k : K) → V k) : (k : K) → V k :=
  kvs.foldl (fun t kv => Function.update t kv.1 kv.2) t

variable (L : Layout K V)

/-- What a store says about the components. -/
def view (s : Store) (k : K) : V k := L.decode k (s (L.cell k))

/-- The write that sets a component. -/
def write (kv : (k : K) × V k) : Write := (L.cell kv.1, L.encode kv.1 kv.2)

/-- Writing a component changes what the store says about it, and nothing else. -/
lemma view_put (s : Store) (k : K) (v : V k) :
    L.view (put s (L.cell k) (L.encode k v)) = Function.update (L.view s) k v := by
  funext l
  unfold view
  by_cases hl : l = k
  · subst hl
    rw [put_same, L.decode_encode, Function.update_self]
  · rw [put_of_ne _ _ fun hc => hl (L.cell_inj hc), Function.update_of_ne hl]

/-- **The writes of components set them**, in order. -/
theorem view_puts (kvs : List ((k : K) × V k)) (s : Store) :
    L.view (puts (kvs.map L.write) s) = assign kvs (L.view s) := by
  induction kvs generalizing s with
  | nil => rfl
  | cons kv kvs ih =>
    show L.view (puts (kvs.map L.write) (put s (L.cell kv.1) (L.encode kv.1 kv.2))) = _
    rw [ih, view_put]
    rfl

end Layout

end EvmDb.Redis
