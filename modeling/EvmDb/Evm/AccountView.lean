import EvmDb.Evm.Effects
import EvmDb.State.Layout

/-!
What the callbacks of the host say about an account.

Its code, the size of its code and parts of its code are read from the same cell. The hash of the
code is computed from it too, also for an account that does not exist.
-/

namespace EvmDb.AccountView

open EvmDb.Types EvmDb.Keccak EvmDb.Program EvmDb.Redis EvmDb.RedisState EvmDb.StateLayout
open EvmDb.Host EvmDb.Executor EvmDb.Plan EvmDb.Effects

variable (env : HostEnv) (ctx : ExecContext) (s : Store) (addr : Address)

/-- What a callback answers. -/
def answer (c : HostCall) : c.Answer := (hostHandler env (ctx, s) c).1

/-- The balance the store has for an account. -/
def storedBalance : Bytes32 := wordOf env.uninit (some (.ofCell (s (balanceCell addr))))

/-- The account has a nonce, a balance or a code. -/
def Present : Prop :=
  storedNonce s addr ≠ 0 ∨ storedBalance env s addr ≠ .zero 32 ∨ storedCode s addr ≠ []

/-- The callbacks describe one account: its code as a whole, its length and its parts, and its
hash, which is zero for an account that does not exist. -/
structure Consistent : Prop where
  size : answer env ctx s (.getCodeSize addr) = (storedCode s addr).length
  copied : ∀ offset size, answer env ctx s (.copyCode addr offset size) =
    ((storedCode s addr).drop offset).take size
  count : ∀ offset size, (answer env ctx s (.copyCode addr offset size)).length =
    if (storedCode s addr).length ≤ offset then 0
    else min size ((storedCode s addr).length - offset)
  zero : answer env ctx s (.getCodeHash addr) = .zero 32 ↔
    answer env ctx s (.accountExists addr) = false
  hash : answer env ctx s (.accountExists addr) = true →
    answer env ctx s (.getCodeHash addr) = keccak256 (storedCode s addr)

variable {env ctx s addr}

/-- The copy begins inside the code, or nothing is copied. -/
lemma answer_copyCode (offset size : ℕ) : answer env ctx s (.copyCode addr offset size) =
    ((storedCode s addr).drop offset).take size := by
  have hrun : answer env ctx s (.copyCode addr offset size) =
      if offset < (storedCode s addr).length then ((storedCode s addr).drop offset).take size
      else [] := rfl
  rw [hrun]
  split_ifs with h
  · rfl
  · rw [List.drop_of_length_le (by omega), List.take_nil]

lemma answer_accountExists :
    answer env ctx s (.accountExists addr) = true ↔ Present env s addr := by
  have hrun : answer env ctx s (.accountExists addr) =
      decide (storedNonce s addr ≠ 0 ∨ bytes32IsZero (storedBalance env s addr) = false ∨
        (storedCode s addr).length ≠ 0) := rfl
  have hzero := @bytes32IsZero_iff (storedBalance env s addr)
  rw [hrun, decide_eq_true_iff]
  unfold Present
  rw [← Bool.not_eq_true, hzero, ne_eq (List.length _), List.length_eq_zero_iff]

/-- The hash of no code is not zero. -/
lemma keccak256_nil_ne : keccak256 [] ≠ .zero 32 := by
  intro h
  have hbyte := congrArg (fun w => w.bytes.head?) h
  revert hbyte
  decide +kernel

/-- An account that does not exist has the hash of no code. -/
lemma answer_getCodeHash_of_missing (h : ¬ Present env s addr) :
    answer env ctx s (.getCodeHash addr) ≠ .zero 32 := by
  have hcode : storedCode s addr = [] := by
    by_contra hne
    exact h (Or.inr (Or.inr hne))
  have hrun : answer env ctx s (.getCodeHash addr) = keccak256 (storedCode s addr) := rfl
  rw [hrun, hcode]
  exact keccak256_nil_ne

/-- **When the host's view of an account is consistent**: the account exists, and the hash of its
code is not zero. -/
theorem consistent_iff :
    Consistent env ctx s addr ↔
      Present env s addr ∧ keccak256 (storedCode s addr) ≠ .zero 32 := by
  have hrun : answer env ctx s (.getCodeHash addr) = keccak256 (storedCode s addr) := rfl
  have hexists := @answer_accountExists env ctx s addr
  constructor
  · intro h
    by_cases hp : Present env s addr
    · refine ⟨hp, fun hzero => ?_⟩
      have hfalse := h.zero.mp (hrun.trans hzero)
      rw [hexists.mpr hp] at hfalse
      cases hfalse
    · refine absurd (h.zero.mpr ?_) (answer_getCodeHash_of_missing hp)
      exact Bool.eq_false_iff.mpr fun htrue => hp (hexists.mp htrue)
  · rintro ⟨hp, hne⟩
    refine ⟨rfl, answer_copyCode, fun offset size => ?_, ?_, fun _ => hrun⟩
    · rw [answer_copyCode, List.length_take, List.length_drop]
      split_ifs <;> omega
    · rw [hrun, hexists.mpr hp]
      exact ⟨fun hzero => absurd hzero hne, nofun⟩

/-- On an empty store, the account has no nonce, no balance and no code, but a hash. -/
theorem not_consistent_missing :
    ¬ Consistent idle.toHostEnv (contextFor none (.zero 20)) (fun _ => none) (.zero 20) := by
  have hmissing : ¬ Present idle.toHostEnv (fun _ => none) (.zero 20) := by
    unfold Present
    decide +kernel
  intro h
  refine answer_getCodeHash_of_missing hmissing (h.zero.mpr ?_)
  exact Bool.eq_false_iff.mpr fun htrue => hmissing (answer_accountExists.mp htrue)

end EvmDb.AccountView
