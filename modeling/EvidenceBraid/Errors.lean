import Mathlib.Tactic.SplitIfs

/-!
# Errors

The exceptions the package raises, with their messages, and the small vocabulary for functions
that may raise one. A Python `raise` is `.error`; a statement that may raise is a bind.
-/

namespace EvidenceBraid

/-- The exceptions of `errors.py`, the workflow and case conflicts, and the Python ones that
the code catches or lets through. -/
inductive PyError where
  | validation (message : String)
  | inputFormat (message : String)
  | conflict (message : String)
  | value (message : String)
  | runtime (message : String)
  | stopIteration
  deriving DecidableEq, Repr

abbrev Result := Except PyError

/-- `if not condition: raise error`. -/
def require (condition : Prop) [Decidable condition] (error : PyError) : Result Unit :=
  if condition then .ok () else .error error

/-- `raise ValidationError(message)` unless the condition holds. -/
def valid (condition : Prop) [Decidable condition] (message : String) : Result Unit :=
  require condition (.validation message)

@[simp] theorem require_eq_ok {condition : Prop} [Decidable condition] {error : PyError} {u : Unit} :
    require condition error = .ok u ↔ condition := by
  unfold require
  split_ifs with h <;> simp [h]

@[simp] theorem valid_eq_ok {condition : Prop} [Decidable condition] {message : String} {u : Unit} :
    valid condition message = .ok u ↔ condition := require_eq_ok

theorem require_of {condition : Prop} [Decidable condition] {error : PyError} (h : condition) :
    require condition error = .ok () := require_eq_ok.mpr h

theorem valid_of {condition : Prop} [Decidable condition] {message : String} (h : condition) :
    valid condition message = .ok () := valid_eq_ok.mpr h

/-- What a bind that returns has computed on the way. -/
@[simp] theorem bind_eq_ok {ε α β : Type} {x : Except ε α} {f : α → Except ε β} {b : β} :
    (x >>= f) = .ok b ↔ ∃ a, x = .ok a ∧ f a = .ok b := by
  cases x <;> simp [bind, Except.bind]

/-- A statement that returns nothing has one thing to return. -/
theorem exists_unit {p : Unit → Prop} : (∃ u, p u) ↔ p () := by
  constructor
  · rintro ⟨u, h⟩
    exact h
  · intro h
    exact ⟨(), h⟩

/-- A bind after a value. -/
theorem ok_bind {ε α β : Type} (a : α) (f : α → Except ε β) : (Except.ok a >>= f) = f a := rfl

@[simp] theorem map_eq_ok {α β : Type} {x : Result α} {f : α → β} {b : β} :
    (f <$> x) = .ok b ↔ ∃ a, x = .ok a ∧ f a = b := by
  cases x <;> simp [Functor.map, Except.map]

@[simp] theorem pure_eq_ok {α : Type} {a b : α} : (pure a : Result α) = .ok b ↔ a = b := by
  simp [pure, Except.pure]

@[simp] theorem throw_ne_ok {α : Type} {e : PyError} {a : α} : (throw e : Result α) ≠ .ok a := by
  simp [throw, throwThe, MonadExceptOf.throw]

/-- A check whose proof the value keeps. -/
theorem dite_error_eq_ok {α : Type} {c : Prop} [Decidable c] {f : c → Result α} {e : PyError}
    {a : α} : (if h : c then f h else .error e) = .ok a ↔ ∃ h, f h = .ok a := by
  by_cases hc : c <;> simp [hc]

theorem ite_error_eq_ok {α : Type} {c : Prop} [Decidable c] {x : Result α} {e : PyError} {a : α} :
    (if c then x else .error e) = .ok a ↔ c ∧ x = .ok a := by
  by_cases hc : c <;> simp [hc]

/-- `None` where a value is needed raises this error. -/
def orError {α : Type} (x : Option α) (error : PyError) : Result α :=
  match x with
  | some a => .ok a
  | none => .error error

@[simp] theorem orError_eq_ok {α : Type} {x : Option α} {error : PyError} {a : α} :
    orError x error = .ok a ↔ x = some a := by
  cases x <;> simp [orError]

/-- A `try` whose handler turns every listed exception into a `ValidationError`. -/
def wrapping {α : Type} (caught : PyError → Bool) (message : String) (x : Result α) : Result α :=
  match x with
  | .error e => if caught e then .error (.validation message) else .error e
  | .ok a => .ok a

@[simp] theorem wrapping_eq_ok {α : Type} {caught : PyError → Bool} {message : String}
    {x : Result α} {a : α} : wrapping caught message x = .ok a ↔ x = .ok a := by
  cases x with
  | error e => simp only [wrapping]; split_ifs <;> simp
  | ok b => simp [wrapping]

/-- `except ValueError` also catches a `ValidationError`, its subclass. -/
def PyError.isValueError : PyError → Bool
  | .validation _ | .value _ | .conflict _ => true
  | _ => false

/-- `isinstance(error, ValidationError)`: the conflicts are subclasses of it. -/
def PyError.isValidationError : PyError → Bool
  | .validation _ | .conflict _ => true
  | _ => false

end EvidenceBraid
