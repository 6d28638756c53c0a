import Mathlib.Tactic.Common

/-!
# Whose fault a failure is

A computation may reject its input, or fail in a step of its own. Marking the two kinds of failure
apart says whether the second kind ever happens: `Blameless x y` says that the marked computation `x`
does what `y` does, and every failure of it is a check. The rules compose along a `do` block, and the
only obligation they leave is that each step of its own succeeds.
-/

/-- A failure of a check, or of a step of the computation's own. -/
inductive Fault (ε : Type) where
  | check (error : ε)
  | own (error : ε)

namespace Fault

variable {ε α β : Type}

def checking (x : Except ε α) : Except (Fault ε) α := x.mapError .check

def owning (x : Except ε α) : Except (Fault ε) α := x.mapError .own

/-- The marked computation fails at its checks only. -/
def Blameless (x : Except (Fault ε) α) (y : Except ε α) : Prop := x = checking y

theorem Blameless.checking (x : Except ε α) : Blameless (checking x) x := rfl

theorem Blameless.ok (a : α) : Blameless (.ok a : Except (Fault ε) α) (.ok a) := rfl

/-- A step of its own that succeeds is no failure. -/
theorem Blameless.owning {x y : Except ε α} {a : α} (hx : x = .ok a) (hy : y = .ok a) :
    Blameless (owning x) y := by
  rw [hx, hy]
  rfl

theorem Blameless.bind {x : Except (Fault ε) α} {y : Except ε α} {f : α → Except (Fault ε) β}
    {g : α → Except ε β} (hx : Blameless x y) (hf : ∀ a, y = .ok a → Blameless (f a) (g a)) :
    Blameless (x >>= f) (y >>= g) := by
  rw [Blameless] at hx
  subst hx
  cases y with
  | error e => rfl
  | ok a => exact hf a rfl

/-- **No failure of a blameless computation is its own.** -/
theorem Blameless.ne_own {x : Except (Fault ε) α} {y : Except ε α} (h : Blameless x y) (e : ε) :
    x ≠ .error (.own e) := by
  rw [Blameless] at h
  subst h
  cases y with
  | error e' => simp [Fault.checking, Except.mapError]
  | ok a => simp [Fault.checking, Except.mapError]

/-- A blameless computation succeeds where the other does. -/
theorem Blameless.ok_iff {x : Except (Fault ε) α} {y : Except ε α} (h : Blameless x y) {a : α} :
    x = .ok a ↔ y = .ok a := by
  rw [Blameless] at h
  subst h
  cases y with
  | error e => simp [Fault.checking, Except.mapError]
  | ok b => simp [Fault.checking, Except.mapError]

end Fault
