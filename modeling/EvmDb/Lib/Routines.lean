import Mathlib.Data.List.Basic
import Mathlib.Data.Nat.Basic

/-!
Routines with loops that read and write buffers through bare indices.

A routine is run with a number of rounds that each of its loops may make. It ends if, from some
number on, its outcome is always the same one, and no index is outside a buffer. The rule for
loops asks for an invariant and a measure.
-/

namespace EvmDb.Routines

/-- Where a routine stands after so many rounds: it has returned, has given up, has touched what is
outside a buffer, or still runs. -/
inductive Outcome (ε α : Type)
  | returns (a : α)
  | fails (e : ε)
  | outside (i : ℕ)
  | runs

/-- A routine, by the number of rounds that each of its loops may make. -/
def Routine (ε α : Type) : Type := ℕ → Outcome ε α

variable {ε α β σ : Type}

def Outcome.bind : Outcome ε α → (α → Outcome ε β) → Outcome ε β
  | returns a, f => f a
  | fails e, _ => fails e
  | outside i, _ => outside i
  | runs, _ => runs

instance : Monad (Routine ε) where
  pure a := fun _ => .returns a
  bind r f := fun limit => (r limit).bind fun a => f a limit

@[simp] lemma returns_bind (a : α) (f : α → Routine ε β) : (pure a >>= f) = f a := rfl

def fail (e : ε) : Routine ε α := fun _ => .fails e

def outside (i : ℕ) : Routine ε α := fun _ => .outside i

/-- So many rounds of a loop, whose body goes on with a state or returns. -/
def rounds (body : σ → Routine ε (σ ⊕ α)) (limit : ℕ) : ℕ → σ → Outcome ε α
  | 0, _ => .runs
  | n + 1, s => (body s limit).bind (Sum.elim (rounds body limit n) .returns)

def loop (body : σ → Routine ε (σ ⊕ α)) (s : σ) : Routine ε α := fun limit =>
  rounds body limit limit s

/-! ### Routines that end -/

/-- An outcome that is expected. -/
def Outcome.Expected (failed : ε → Prop) (post : α → Prop) : Outcome ε α → Prop
  | returns a => post a
  | fails e => failed e
  | outside _ => False
  | runs => False

/-- A routine ends as expected. -/
def Ends (failed : ε → Prop) (post : α → Prop) (r : Routine ε α) : Prop :=
  ∃ n o, Outcome.Expected failed post o ∧ ∀ limit ≥ n, r limit = o

variable {failed : ε → Prop} {post : α → Prop}

lemma ends_pure {a : α} (h : post a) : Ends failed post (pure a) :=
  ⟨0, .returns a, h, fun _ _ => rfl⟩

lemma ends_fail {e : ε} (h : failed e) : Ends failed post (fail e : Routine ε α) :=
  ⟨0, .fails e, h, fun _ _ => rfl⟩

lemma Ends.bind {m : α → Prop} {post : β → Prop} {r : Routine ε α} {f : α → Routine ε β}
    (hr : Ends failed m r) (hf : ∀ a, m a → Ends failed post (f a)) :
    Ends failed post (r >>= f) := by
  obtain ⟨n, o, ho, hn⟩ := hr
  have hrun : ∀ limit ≥ n, (r >>= f) limit = o.bind fun a => f a limit := fun limit hlimit =>
    congrArg (fun o => Outcome.bind o fun a => f a limit) (hn limit hlimit)
  cases o with
  | returns a =>
    obtain ⟨k, o, ho, hk⟩ := hf a ho
    refine ⟨max n k, o, ho, fun limit hlimit => ?_⟩
    rw [hrun limit (Nat.le_trans (Nat.le_max_left n k) hlimit)]
    exact hk limit (Nat.le_trans (Nat.le_max_right n k) hlimit)
  | fails e => exact ⟨n, .fails e, ho, hrun⟩
  | outside i => exact ho.elim
  | runs => exact ho.elim

lemma Ends.mono {m : α → Prop} {r : Routine ε α} (hr : Ends failed m r)
    (h : ∀ a, m a → post a) : Ends failed post r := by
  obtain ⟨n, o, ho, hn⟩ := hr
  refine ⟨n, o, ?_, hn⟩
  cases o with
  | returns a => exact h a ho
  | fails e => exact ho
  | outside i => exact ho
  | runs => exact ho

lemma rounds_of_pos {body : σ → Routine ε (σ ⊕ α)} {s : σ} {limit : ℕ} {o : Outcome ε (σ ⊕ α)}
    (h : body s limit = o) {count : ℕ} (hcount : 0 < count) : rounds body limit count s =
      o.bind (Sum.elim (rounds body limit (count - 1)) .returns) := by
  cases count with
  | zero => exact absurd hcount (Nat.lt_irrefl 0)
  | succ count => rw [rounds, h, Nat.add_sub_cancel]

/-- **A loop ends** if each round keeps an invariant and decreases a measure, or returns what is
expected. -/
theorem Ends.loop {body : σ → Routine ε (σ ⊕ α)} (inv : σ → Prop) (measure : σ → ℕ)
    (hbody : ∀ s, inv s →
      Ends failed (Sum.elim (fun s' => inv s' ∧ measure s' < measure s) post) (body s))
    {s : σ} (hs : inv s) : Ends failed post (loop body s) := by
  -- from some number of rounds on the outcome is the same, by induction on the measure
  have hrounds : ∀ k s, inv s → measure s < k → ∃ n o, Outcome.Expected failed post o ∧
      ∀ limit ≥ n, ∀ count ≥ n, rounds body limit count s = o := by
    intro k
    induction k with
    | zero => exact fun s _ hk => absurd hk (Nat.not_lt_zero _)
    | succ k ih =>
      intro s hs hk
      obtain ⟨n, o, ho, hn⟩ := hbody s hs
      cases o with
      | returns r =>
        cases r with
        | inl s' =>
          obtain ⟨hs', hless⟩ := ho
          obtain ⟨n', o, ho, hn'⟩ := ih s' hs' (by omega)
          refine ⟨n + n' + 1, o, ho, fun limit hlimit count hcount => ?_⟩
          rw [rounds_of_pos (hn limit (by omega)) (by omega)]
          exact hn' limit (by omega) (count - 1) (by omega)
        | inr a =>
          refine ⟨n + 1, .returns a, ho, fun limit hlimit count hcount => ?_⟩
          rw [rounds_of_pos (hn limit (by omega)) (by omega)]
          rfl
      | fails e =>
        refine ⟨n + 1, .fails e, ho, fun limit hlimit count hcount => ?_⟩
        rw [rounds_of_pos (hn limit (by omega)) (by omega)]
        rfl
      | outside i => exact ho.elim
      | runs => exact ho.elim
  obtain ⟨n, o, ho, hn⟩ := hrounds (measure s + 1) s hs (Nat.lt_succ_self _)
  exact ⟨n, o, ho, fun limit hlimit => hn limit hlimit limit hlimit⟩

/-! ### Reading -/

/-- One element of a buffer. -/
def readAt (raw : List β) (i : ℕ) : Routine ε β :=
  match raw[i]? with
  | some b => pure b
  | none => outside i

/-- `k` elements of a buffer, from index `i` on. -/
def sliceAt (raw : List β) (i : ℕ) : ℕ → Routine ε (List β)
  | 0 => pure []
  | k + 1 => do
    let b ← readAt raw i
    let bs ← sliceAt raw (i + 1) k
    return b :: bs

lemma readAt_of_lt {raw : List β} {i : ℕ} (h : i < raw.length) :
    (readAt raw i : Routine ε β) = pure raw[i] := by
  simp [readAt, h]

lemma sliceAt_of_le {raw : List β} {i k : ℕ} (h : i + k ≤ raw.length) :
    (sliceAt raw i k : Routine ε (List β)) = pure ((raw.drop i).take k) := by
  induction k generalizing i with
  | zero => simp [sliceAt]
  | succ k ih =>
    rw [sliceAt, readAt_of_lt (by omega), returns_bind, ih (by omega), returns_bind,
      ← List.take_succ_cons, List.getElem_cons_drop]

/-! ### Writing -/

/-- What has been written to a buffer, and its size. -/
structure Buffer (β : Type) where
  data : List β
  cap : ℕ

/-- One element behind the others. -/
def Buffer.push (buf : Buffer β) (b : β) : Routine ε (Buffer β) :=
  if buf.data.length < buf.cap then pure { buf with data := buf.data ++ [b] }
  else outside buf.data.length

/-- Some elements behind the others. -/
def Buffer.pushAll (buf : Buffer β) : List β → Routine ε (Buffer β)
  | [] => pure buf
  | b :: bs => do
    let buf ← buf.push b
    buf.pushAll bs

lemma push_of_lt {buf : Buffer β} (h : buf.data.length < buf.cap) (b : β) :
    (buf.push b : Routine ε (Buffer β)) = pure ⟨buf.data ++ [b], buf.cap⟩ :=
  if_pos h

lemma pushAll_of_le {buf : Buffer β} {bs : List β} (h : buf.data.length + bs.length ≤ buf.cap) :
    (buf.pushAll bs : Routine ε (Buffer β)) = pure ⟨buf.data ++ bs, buf.cap⟩ := by
  induction bs generalizing buf with
  | nil => simp [Buffer.pushAll]
  | cons b bs ih =>
    rw [List.length_cons] at h
    rw [Buffer.pushAll, push_of_lt (by omega), returns_bind, ih (by simp; omega)]
    simp

end EvmDb.Routines
