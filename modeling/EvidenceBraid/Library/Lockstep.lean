import Mathlib.Logic.Basic

/-!
# Machines in lockstep

A machine answers each input from its state. Two machines whose states stay related, and which answer
every input alike from related states, answer every sequence of inputs alike.
-/

/-- A machine over states `σ` with inputs `ι` and answers `ω`. -/
def Machine (σ ι ω : Type) := σ → ι → ω × σ

namespace Machine

variable {σ τ ι ω : Type}

/-- The answers to a sequence of inputs, and the state after it. -/
def run (m : Machine σ ι ω) (s : σ) : List ι → List ω × σ
  | [] => ([], s)
  | i :: is => ((m s i).1 :: (run m (m s i).2 is).1, (run m (m s i).2 is).2)

/-- From related states the machines answer alike and stay related. -/
def Lockstep (m : Machine σ ι ω) (n : Machine τ ι ω) (R : σ → τ → Prop) : Prop :=
  ∀ s t, R s t → ∀ i, (m s i).1 = (n t i).1 ∧ R (m s i).2 (n t i).2

theorem Lockstep.run {m : Machine σ ι ω} {n : Machine τ ι ω} {R : σ → τ → Prop}
    (h : Lockstep m n R) (is : List ι) {s : σ} {t : τ} (hst : R s t) :
    (m.run s is).1 = (n.run t is).1 ∧ R (m.run s is).2 (n.run t is).2 := by
  induction is generalizing s t with
  | nil => exact ⟨rfl, hst⟩
  | cons i is ih =>
    obtain ⟨hanswer, hnext⟩ := h s t hst i
    obtain ⟨hanswers, hlast⟩ := ih hnext
    exact ⟨congrArg₂ List.cons hanswer hanswers, hlast⟩

end Machine
