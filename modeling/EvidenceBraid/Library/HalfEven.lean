import Mathlib.Algebra.Order.Floor.Ring
import Mathlib.Algebra.Order.Field.Basic
import Mathlib.Algebra.Ring.Int.Parity
import Mathlib.Data.Int.ConditionallyCompleteOrder
import Mathlib.Tactic.FieldSimp
import Mathlib.Tactic.Linarith
import Mathlib.Tactic.NormNum
import Mathlib.Tactic.Ring

/-!
# Rounding half to even on a decimal grid

`halfEven` — the nearest integer, and the even one of two that are equally near. It is determined by
which integers bound it from above (`halfEven_le_iff`), so it is monotone.

`gridRound scale` — the nearest multiple of `1 / scale`. It is monotone (`gridRound_mono`), fixes the
multiples (`gridRound_of_grid`) and moves a number by half a step at most (`abs_gridRound_sub_le`).
-/

variable {K : Type} [Field K] [LinearOrder K] [IsStrictOrderedRing K] [FloorRing K]

/-- The nearest integer, ties to the even one. -/
def halfEven (x : K) : ℤ :=
  if Int.fract x < 1 / 2 then ⌊x⌋
  else if 1 / 2 < Int.fract x then ⌊x⌋ + 1
  else if Even ⌊x⌋ then ⌊x⌋ else ⌊x⌋ + 1

/-- A size that rounds to `n` at most, next to a number with the parity of `D`. -/
def RoundsWithin (D n : ℤ) (size : K) : Prop := size < n + 1 / 2 ∨ size = n + 1 / 2 ∧ Even (D + n)

/-- **The upper bounds of a rounded number.** -/
theorem halfEven_le_iff {x : K} {n : ℤ} :
    halfEven x ≤ n ↔ x < n + 1 / 2 ∨ x = n + 1 / 2 ∧ Even n := by
  have hx : x = ⌊x⌋ + Int.fract x := (Int.floor_add_fract x).symm
  have hnonneg := Int.fract_nonneg x
  have hlt := Int.fract_lt_one x
  have hcast : (⌊x⌋ : K) ≤ n ↔ ⌊x⌋ ≤ n := Int.cast_le
  unfold halfEven
  by_cases hle : ⌊x⌋ + 1 ≤ n
  · -- well below the bound
    have hle' : (⌊x⌋ : K) + 1 ≤ n := by exact_mod_cast hle
    have hbelow : x < n + 1 / 2 := by linarith
    refine iff_of_true ?_ (.inl hbelow)
    split_ifs <;> omega
  · by_cases heq : ⌊x⌋ = n
    · subst heq
      split_ifs with hlow hhigh heven
      · exact iff_of_true le_rfl (.inl (by linarith))
      · refine iff_of_false (by omega) ?_
        rintro (h | ⟨h, -⟩) <;> linarith
      · have hhalf : Int.fract x = 1 / 2 := le_antisymm (not_lt.mp hhigh) (not_lt.mp hlow)
        exact iff_of_true le_rfl (.inr ⟨by linarith, heven⟩)
      · refine iff_of_false (by omega) ?_
        rintro (h | ⟨-, h⟩)
        · linarith
        · exact heven h
    · have hgt : n + 1 ≤ ⌊x⌋ := by omega
      have hgt' : (n : K) + 1 ≤ ⌊x⌋ := by exact_mod_cast hgt
      refine iff_of_false (by split_ifs <;> omega) ?_
      rintro (h | ⟨h, -⟩) <;> linarith

theorem halfEven_mono : Monotone (halfEven : K → ℤ) := by
  intro x y hxy
  rw [halfEven_le_iff]
  rcases (halfEven_le_iff (x := y)).mp le_rfl with h | ⟨h, heven⟩
  · exact .inl (hxy.trans_lt h)
  · rcases hxy.lt_or_eq with hlt | heq
    · exact .inl (hlt.trans_eq h)
    · exact .inr ⟨heq.trans h, heven⟩

@[simp] theorem halfEven_intCast (n : ℤ) : halfEven (n : K) = n := by
  simp [halfEven]

/-- The lower bounds of a rounded number. -/
theorem le_halfEven_iff {x : K} {n : ℤ} :
    n ≤ halfEven x ↔ n - 1 / 2 < x ∨ x = n - 1 / 2 ∧ Even n := by
  have hbelow := not_congr (halfEven_le_iff (x := x) (n := n - 1))
  have heven : Even (n - 1) ↔ ¬ Even n := by rw [Int.even_sub_one]
  rw [not_le, Int.sub_one_lt_iff, heven] at hbelow
  push_cast at hbelow
  rw [hbelow]
  push Not
  constructor
  · rintro ⟨hle, heq⟩
    rcases hle.lt_or_eq with h | h
    · exact .inl (by linarith)
    · exact .inr ⟨by linarith, heq (by linarith)⟩
  · rintro (h | ⟨h, hn⟩)
    · exact ⟨by linarith, fun heq => by linarith⟩
    · exact ⟨by linarith, fun _ => hn⟩

theorem halfEven_neg (x : K) : halfEven (-x) = -halfEven x := by
  apply eq_of_forall_ge_iff
  intro n
  rw [halfEven_le_iff, neg_le, le_halfEven_iff, even_neg]
  push_cast
  refine or_congr ⟨fun h => by linarith, fun h => by linarith⟩ (and_congr_left fun _ => ?_)
  exact ⟨fun h => by linarith, fun h => by linarith⟩

theorem abs_halfEven_sub_le (x : K) : |(halfEven x : K) - x| ≤ 1 / 2 := by
  have hlow : x ≤ halfEven x + 1 / 2 := by
    rcases (halfEven_le_iff (x := x)).mp le_rfl with h | ⟨h, -⟩
    · exact h.le
    · exact h.le
  have hhigh : -x ≤ halfEven (-x) + 1 / 2 := by
    rcases (halfEven_le_iff (x := -x)).mp le_rfl with h | ⟨h, -⟩
    · exact h.le
    · exact h.le
  rw [halfEven_neg] at hhigh
  push_cast at hhigh
  rw [abs_le]
  constructor <;> linarith

/-- Which part of a unit is rounded down. -/
theorem halfEven_le_self_iff {x : K} : (halfEven x : K) ≤ x ↔
    Int.fract x < 1 / 2 ∨ Int.fract x = 1 / 2 ∧ Even ⌊x⌋ := by
  have hx : x = ⌊x⌋ + Int.fract x := (Int.floor_add_fract x).symm
  have hfloor : (halfEven x : K) ≤ x ↔ halfEven x ≤ ⌊x⌋ := Int.le_floor.symm
  rw [hfloor, halfEven_le_iff]
  refine or_congr ⟨fun h => by linarith, fun h => by linarith⟩ (and_congr_left fun _ => ?_)
  exact ⟨fun h => by linarith, fun h => by linarith⟩

/-! ## Grids -/

/-- A multiple of the grid's step. -/
def OnGrid (scale : K) (x : K) : Prop := ∃ n : ℤ, x = n / scale

/-- The nearest multiple of `1 / scale`, ties to the even one. -/
def gridRound (scale : K) (x : K) : K := halfEven (x * scale) / scale

section Grid

variable {scale : K}

omit [IsStrictOrderedRing K] in
theorem onGrid_gridRound (x : K) : OnGrid scale (gridRound scale x) := ⟨_, rfl⟩

omit [LinearOrder K] [IsStrictOrderedRing K] [FloorRing K] in
theorem OnGrid.zero : OnGrid scale (0 : K) := ⟨0, by simp⟩

omit [LinearOrder K] [IsStrictOrderedRing K] [FloorRing K] in
theorem OnGrid.add {x y : K} (hx : OnGrid scale x) (hy : OnGrid scale y) : OnGrid scale (x + y) := by
  obtain ⟨m, rfl⟩ := hx
  obtain ⟨n, rfl⟩ := hy
  exact ⟨m + n, by push_cast; ring⟩

omit [LinearOrder K] [IsStrictOrderedRing K] [FloorRing K] in
theorem OnGrid.sub {x y : K} (hx : OnGrid scale x) (hy : OnGrid scale y) : OnGrid scale (x - y) := by
  obtain ⟨m, rfl⟩ := hx
  obtain ⟨n, rfl⟩ := hy
  exact ⟨m - n, by push_cast; ring⟩

variable (hscale : 0 < scale)
include hscale

omit [IsStrictOrderedRing K] [FloorRing K] in
theorem OnGrid.one_of_int {n : ℤ} (hn : scale = n) : OnGrid scale (1 : K) :=
  ⟨n, by rw [← hn, div_self hscale.ne']⟩

theorem gridRound_mono : Monotone (gridRound scale) := by
  intro x y hxy
  have hmul : x * scale ≤ y * scale := mul_le_mul_of_nonneg_right hxy hscale.le
  have hcast : (halfEven (x * scale) : K) ≤ halfEven (y * scale) := by
    exact_mod_cast halfEven_mono hmul
  exact div_le_div_of_nonneg_right hcast hscale.le

/-- **A number on the grid** stays where it is. -/
theorem gridRound_of_grid {x : K} (hx : OnGrid scale x) : gridRound scale x = x := by
  obtain ⟨n, rfl⟩ := hx
  rw [gridRound, div_mul_cancel₀ _ hscale.ne', halfEven_intCast]

theorem gridRound_gridRound (x : K) : gridRound scale (gridRound scale x) = gridRound scale x :=
  gridRound_of_grid hscale (onGrid_gridRound x)

theorem gridRound_zero : gridRound scale (0 : K) = 0 := gridRound_of_grid hscale OnGrid.zero

omit hscale in
theorem gridRound_neg (x : K) : gridRound scale (-x) = -gridRound scale x := by
  rw [gridRound, neg_mul, halfEven_neg, gridRound]
  push_cast
  ring

theorem abs_gridRound_sub_le (x : K) : |gridRound scale x - x| ≤ 1 / (2 * scale) := by
  have hstep := abs_halfEven_sub_le (x * scale)
  have hsame : gridRound scale x - x = (halfEven (x * scale) - x * scale) / scale := by
    rw [gridRound]
    field_simp
  rw [hsame, abs_div, abs_of_pos hscale, div_le_iff₀ hscale]
  calc |(halfEven (x * scale) : K) - x * scale| ≤ 1 / 2 := hstep
    _ = 1 / (2 * scale) * scale := by field_simp

/-- **Between grid points** a rounded number stays between them. -/
theorem gridRound_le_of_le {x y : K} (hy : OnGrid scale y) (h : x ≤ y) : gridRound scale x ≤ y :=
  (gridRound_mono hscale h).trans_eq (gridRound_of_grid hscale hy)

theorem le_gridRound_of_le {x y : K} (hx : OnGrid scale x) (h : x ≤ y) : x ≤ gridRound scale y :=
  (gridRound_of_grid hscale hx).symm.trans_le (gridRound_mono hscale h)

end Grid
