import EvidenceBraid.Library.HalfEven
import EvidenceBraid.Text

/-!
# The arithmetic of scores

The engine computes with floats. `Arithmetic` is what it uses of them: an order, the operations, the
conversions from and to the floats of documents, and `stable`, the rounding to twelve decimal digits
that comparisons and public output share. Results that hold for every arithmetic hold for floats,
whatever they round.

`LawfulArithmetic` collects the few laws of rounding that decisions rest on. Exact rationals with the
same rounding are a lawful arithmetic.
-/

namespace EvidenceBraid

open Binary64

/-- `STABLE_FLOAT_DIGITS`. -/
def stableFloatDigits : ℕ := 12

/-- What the engine uses of floats. -/
class Arithmetic (N : Type) extends LinearOrder N, Zero N, One N, Add N, Sub N, Mul N, Div N, Neg N where
  /-- The number that a float of a document stands for. -/
  ofFloat : Finite → N
  /-- The float that a number is written as. -/
  toFloat : N → Finite
  /-- `float(n)` of a count. -/
  ofCount : ℕ → N
  /-- `total_seconds()` of a difference in microseconds. -/
  seconds : ℤ → N
  /-- `_stable_float`. -/
  stable : N → N
  /-- `f"{value:.3f}"`. -/
  fixed3 : N → String

namespace Arithmetic

variable {N : Type} [Arithmetic N]

/-- The number of a checked float. -/
def ofNumber {b : Bounds} (x : Number b) : N := ofFloat x.value

/-! ## Checks of computed numbers -/

/-- `_number(value, path, 0.0, 1.0)` of a computed number. -/
def checkUnit (x : N) (path : String) : Result Unit :=
  valid (0 ≤ x ∧ x ≤ 1) (path ++ " must be finite and in [0.0, 1.0]")

/-- `_number(value, path, -1.0, 1.0)`. -/
def checkSigned (x : N) (path : String) : Result Unit :=
  valid (-1 ≤ x ∧ x ≤ 1) (path ++ " must be finite and in [-1.0, 1.0]")

/-- `_number(value, path, 0.0)`. -/
def checkNonnegative (x : N) (path : String) : Result Unit :=
  valid (0 ≤ x) (path ++ " must be finite and in >= 0.0")

end Arithmetic

open Arithmetic

/-- Laws of rounded arithmetic: they hold of floats and of exact numbers alike. -/
class LawfulArithmetic (N : Type) [Arithmetic N] : Prop where
  stable_mono : Monotone (stable : N → N)
  stable_stable : ∀ x : N, stable (stable x) = stable x
  stable_zero : stable (0 : N) = 0
  sub_self : ∀ x : N, x - x = 0
  /-- Rounded numbers that differ, differ by more than what rounding loses. -/
  eq_of_stable_sub : ∀ x y : N, stable (stable x - stable y) = 0 → stable x = stable y
  le_neg : ∀ x y : N, x ≤ -y ↔ y ≤ -x
  neg_zero : -(0 : N) = 0
  ofFloat_nonneg : ∀ x : Finite, 0 ≤ x.toRat → 0 ≤ (ofFloat x : N)

/-- Negation as floats have it: it loses nothing, and rounding does not see it. -/
class SymmetricArithmetic (N : Type) [Arithmetic N] : Prop where
  neg_neg : ∀ x : N, -(-x) = x
  neg_le_neg : ∀ x y : N, -x ≤ -y ↔ y ≤ x
  neg_sub : ∀ x y : N, -(x - y) = y - x
  stable_neg : ∀ x : N, stable (-x) = -stable x

/-! ## Exact rationals -/

/-- The grid of numbers with twelve decimal digits. -/
def stableScale : ℚ := 10 ^ stableFloatDigits

theorem stableScale_pos : 0 < stableScale := by unfold stableScale; positivity

/-- The double nearest to a rational. -/
def nearestFloat (x : ℚ) : Finite :=
  if h : nearest |x| < 2047 * 2 ^ 52 then ⟨x < 0, nearest |x|, h⟩ else Bounds.zero

/-- Three decimals of a rational. -/
def fixedText (x : ℚ) : String :=
  let n := halfEven (x * 1000)
  let digits := toString (n.natAbs % 1000)
  (if n < 0 then "-" else "") ++ toString (n.natAbs / 1000) ++ "." ++
    String.ofList (List.replicate (3 - digits.length) '0') ++ digits

/-- **Exact arithmetic** with the rounding to twelve digits. -/
instance exactArithmetic : Arithmetic ℚ where
  ofFloat := Finite.toRat
  toFloat := nearestFloat
  ofCount n := n
  seconds micros := micros / 1000000
  stable := gridRound stableScale
  fixed3 := fixedText

theorem stable_eq (x : ℚ) : stable x = gridRound stableScale x := rfl

theorem onGrid_stable (x : ℚ) : OnGrid stableScale (stable x) := onGrid_gridRound x

theorem stable_of_grid {x : ℚ} (hx : OnGrid stableScale x) : stable x = x :=
  gridRound_of_grid stableScale_pos hx

theorem onGrid_one : OnGrid stableScale (1 : ℚ) :=
  OnGrid.one_of_int stableScale_pos (n := 10 ^ stableFloatDigits) (by norm_num [stableScale])

instance : LawfulArithmetic ℚ where
  stable_mono := gridRound_mono stableScale_pos
  stable_stable := gridRound_gridRound stableScale_pos
  stable_zero := gridRound_zero stableScale_pos
  sub_self := sub_self
  eq_of_stable_sub x y h := by
    rw [stable_of_grid ((onGrid_stable x).sub (onGrid_stable y))] at h
    exact sub_eq_zero.mp h
  le_neg _ _ := le_neg
  neg_zero := neg_zero
  ofFloat_nonneg _ h := h

instance : SymmetricArithmetic ℚ where
  neg_neg := neg_neg
  neg_le_neg _ _ := neg_le_neg_iff
  neg_sub := neg_sub
  stable_neg := gridRound_neg

end EvidenceBraid
