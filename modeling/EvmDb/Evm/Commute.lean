import EvmDb.Evm.Effects
import EvmDb.Lib.Footprints

/-!
Transactions that have nothing to do with each other.

Where no transaction reads or writes what the other one writes, it does not matter how their
commands are interleaved.
-/

namespace EvmDb.Commute

open EvmDb.Types EvmDb.Program EvmDb.Redis EvmDb.RedisState EvmDb.Host EvmDb.Executor
open EvmDb.Effects EvmDb.Threads EvmDb.Footprints

/-- The cells that a command reads or writes, and those it writes. -/
def footprint : Footprint server where
  touched := Command.cells
  altered c := c.writes.map Prod.fst
  touched_of_altered c x hx := by
    cases c with
    | hset k fvs =>
      rw [Command.writes, List.map_map] at hx
      exact hx
    | set k v => exact hx
    | _ => cases hx
  frame s c x hx := by
    show (exec s c).2 x = s x
    rw [exec_writes]
    exact puts_of_notMem hx s
  reply _ _ _ h := congrArg some (exec_reply h)
  effect s t c _ x hx := by
    show (exec s c).2 x = (exec t c).2 x
    rw [exec_writes, exec_writes]
    exact puts_congr hx s t

/-- Two transactions, each in a thread of its own, on a store. -/
def inParallel (c d : TxCall) (s : Store) :
    Pool Command (fun _ => Option Reply) (ℤ × ExecResult) Store Bool :=
  ⟨s, fun second => if second then d.program else c.program⟩

/-- Alone on the store, neither transaction reads or writes a cell that the other one writes. -/
abbrev Unrelated (c d : TxCall) (s : Store) : Prop :=
  footprint.Independent (trace server c.program s) (trace server d.program s)

/-- A schedule lets both transactions issue all commands they issue alone. -/
def Complete (c d : TxCall) (s : Store) (schedule : List Bool) : Prop :=
  (trace server c.program s).length ≤ schedule.count false ∧
    (trace server d.program s).length ≤ schedule.count true

instance (c d : TxCall) (s : Store) (schedule : List Bool) :
    Decidable (Complete c d s schedule) :=
  inferInstanceAs (Decidable (_ ∧ _))

variable {c d : TxCall} {s : Store}

lemma Unrelated.symm (h : Unrelated c d s) : Unrelated d c s := ⟨h.2, h.1⟩

/-- The store after both transactions, one after the other. -/
lemma run_run (h : Unrelated c d s) (x : Cell) :
    (x ∈ footprint.alteredBy (trace server c.program s) →
        (d.run (c.run s).2).2 x = (c.run s).2 x) ∧
      (x ∈ footprint.alteredBy (trace server d.program s) →
        (d.run (c.run s).2).2 x = (d.run s).2 x) ∧
      (x ∉ footprint.alteredBy (trace server c.program s) →
        x ∉ footprint.alteredBy (trace server d.program s) → (d.run (c.run s).2).2 x = s x) := by
  obtain ⟨-, hfirst, hsecond⟩ := Footprint.run_after h
  refine ⟨hfirst x, fun hx => ?_, fun hxc hxd => ?_⟩
  · exact hsecond x fun hxc => h.1 x hxc (Footprint.touchedBy_of_alteredBy hx)
  · exact (hsecond x hxc).trans (Footprint.run_frame _ s hxd)

/-- **Unrelated transactions commute under any interleaving**: both return what they return alone,
and the store is the one after either of them followed by the other. -/
theorem unrelated_commute (h : Unrelated c d s) (schedule : List Bool)
    (hall : Complete c d s schedule) :
    let p := (Pool.run server schedule (inParallel c d s)).2
    p.threads false = .ret (c.run s).1 ∧ p.threads true = .ret (d.run s).1 ∧
      p.state = (d.run (c.run s).2).2 ∧ p.state = (c.run (d.run s).2).2 := by
  intro p
  have hind : ∀ i j : Bool, i ≠ j →
      ∀ x ∈ footprint.alteredBy (trace server ((inParallel c d s).threads i) s),
        x ∉ footprint.touchedBy (trace server ((inParallel c d s).threads j) s) := by
    intro i j hij
    cases i <;> cases j
    · exact absurd rfl hij
    · exact h.1
    · exact h.2
    · exact absurd rfl hij
  have hturns : ∀ i : Bool, (trace server ((inParallel c d s).threads i) s).length ≤
      schedule.count i := by
    intro i
    cases i
    · exact hall.1
    · exact hall.2
  obtain ⟨hres, haltered, hrest⟩ := Footprint.run_interleaved hind schedule hturns
  have hstate : ∀ u : Store,
      (∀ x ∈ footprint.alteredBy (trace server c.program s), u x = (c.run s).2 x) →
      (∀ x ∈ footprint.alteredBy (trace server d.program s), u x = (d.run s).2 x) →
      (∀ x, x ∉ footprint.alteredBy (trace server c.program s) →
        x ∉ footprint.alteredBy (trace server d.program s) → u x = s x) → p.state = u := by
    intro u hc hd hs
    funext x
    by_cases hxc : x ∈ footprint.alteredBy (trace server c.program s)
    · rw [hc x hxc]
      exact haltered false x hxc
    by_cases hxd : x ∈ footprint.alteredBy (trace server d.program s)
    · rw [hd x hxd]
      exact haltered true x hxd
    · rw [hs x hxc hxd]
      refine hrest x fun i => ?_
      cases i
      · exact hxc
      · exact hxd
  refine ⟨hres false, hres true, hstate _ ?_ ?_ ?_, hstate _ ?_ ?_ ?_⟩
  · exact fun x hx => (run_run h x).1 hx
  · exact fun x hx => (run_run h x).2.1 hx
  · exact fun x hxc hxd => (run_run h x).2.2 hxc hxd
  · exact fun x hx => (run_run h.symm x).2.1 hx
  · exact fun x hx => (run_run h.symm x).1 hx
  · exact fun x hxc hxd => (run_run h.symm x).2.2 hxd hxc

/-- An account calls the contract that counts at an address of its own. -/
def callFrom (n : UInt8) : TxCall :=
  ⟨counting, callTx (.rightAlign 20 [n]) (.rightAlign 20 [n, 0]), none, .zero⟩

/-- A store with both contracts, at 6 and at 41. -/
def twoCounters : Store :=
  counter (.rightAlign 20 [1, 0]) 6 (counter (.rightAlign 20 [2, 0]) 41 fun _ => none)

/-- Two accounts count in contracts of their own, and the commands alternate. -/
theorem unrelated_commute_counting :
    let p := (Pool.run server ((List.replicate 6 [false, true]).flatten)
      (inParallel (callFrom 1) (callFrom 2) twoCounters)).2
    p.state = ((callFrom 2).run ((callFrom 1).run twoCounters).2).2 ∧
      p.state (storageCell (.rightAlign 20 [1, 0]) (.zero 32)) =
        some (bytes32ToHex (bytes32FromUint64 7)) ∧
      p.state (storageCell (.rightAlign 20 [2, 0]) (.zero 32)) =
        some (bytes32ToHex (bytes32FromUint64 42)) := by
  refine ⟨?_, by decide +kernel, by decide +kernel⟩
  exact (unrelated_commute (c := callFrom 1) (d := callFrom 2) (s := twoCounters)
    (by decide +kernel) _ (by decide +kernel)).2.2.1

end EvmDb.Commute
