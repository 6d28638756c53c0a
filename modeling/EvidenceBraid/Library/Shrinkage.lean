import EvidenceBraid.Library.HalfEven
import Mathlib.Algebra.Order.Group.MinMax

/-!
# Bounded movement towards an observed rate

`shrink w d c i` — a stated rate `d` with weight `w`, averaged with `c` successes and `i` failures. It
rises with every success and falls with every failure.

`clamp m x` — the movement `x`, of size at most `m`.

`clampedRound D M y` — the point `D` moved towards the rounded `y` by at most `M`, rounded again.
Rounding may carry it beyond the bound; `abs_clampedRound_sub_le_iff` says when it does not.
-/

variable {K : Type} [Field K] [LinearOrder K] [IsStrictOrderedRing K]

/-! ## Shrinkage -/

/-- A rate `d` of weight `w`, averaged with `c` successes and `i` failures. -/
def shrink (w d : K) (c i : ℕ) : K := (w * d + c) / (w + (c + i : ℕ))

section Shrink

variable {w d : K} (hw : 0 < w) (hzero : 0 ≤ d) (hone : d ≤ 1) (c i : ℕ)
include hw

theorem shrink_denom_pos : 0 < w + ((c + i : ℕ) : K) := add_pos_of_pos_of_nonneg hw (Nat.cast_nonneg _)

omit [IsStrictOrderedRing K] in
/-- Without observations the stated rate stays. -/
theorem shrink_zero : shrink w d 0 0 = d := by
  simp [shrink, mul_div_cancel_left₀ d hw.ne']

include hzero in
theorem shrink_nonneg : 0 ≤ shrink w d c i :=
  div_nonneg (add_nonneg (mul_nonneg hw.le hzero) (Nat.cast_nonneg c)) (shrink_denom_pos hw c i).le

include hone in
theorem shrink_le_one : shrink w d c i ≤ 1 := by
  rw [shrink, div_le_one (shrink_denom_pos hw c i)]
  have hwd : w * d ≤ w := mul_le_of_le_one_right hw.le hone
  have hi : (0 : K) ≤ i := Nat.cast_nonneg i
  push_cast
  linarith

include hone in
/-- **A success** does not lower the rate. -/
theorem shrink_le_shrink_succ : shrink w d c i ≤ shrink w d (c + 1) i := by
  have hle := shrink_le_one hw hone c i
  have hpos := shrink_denom_pos hw c i
  have hpos' := shrink_denom_pos hw (c + 1) i
  rw [shrink, div_le_one hpos] at hle
  rw [shrink, shrink, div_le_div_iff₀ hpos hpos']
  push_cast at *
  nlinarith

include hzero in
/-- **A failure** does not raise the rate. -/
theorem shrink_succ_le_shrink : shrink w d c (i + 1) ≤ shrink w d c i := by
  have hnum : 0 ≤ w * d + c := add_nonneg (mul_nonneg hw.le hzero) (Nat.cast_nonneg c)
  apply div_le_div_of_nonneg_left hnum (shrink_denom_pos hw c i)
  push_cast
  linarith

/-- A success in place of a failure does not lower the rate. -/
theorem shrink_exchange : shrink w d c (i + 1) ≤ shrink w d (c + 1) i := by
  have hsame : c + 1 + i = c + (i + 1) := by omega
  rw [shrink, shrink, hsame]
  apply div_le_div_of_nonneg_right _ (shrink_denom_pos hw c (i + 1)).le
  push_cast
  linarith

end Shrink

/-! ## Clamping -/

/-- A movement of size at most `m`. -/
def clamp (m x : K) : K := min (max x (-m)) m

omit [IsStrictOrderedRing K] in
theorem clamp_mono (m : K) : Monotone (clamp m) := fun _ _ h =>
  min_le_min_right m (max_le_max_right (-m) h)

section Clamp

variable {m : K} (hm : 0 ≤ m)
include hm

theorem clamp_of_nonneg {x : K} (hx : 0 ≤ x) : clamp m x = min x m := by
  rw [clamp, max_eq_left ((neg_nonpos.mpr hm).trans hx)]

theorem clamp_neg (x : K) : clamp m (-x) = -clamp m x := by
  have hle : -m ≤ m := (neg_nonpos.mpr hm).trans hm
  calc clamp m (-x) = min (max (-x) (-m)) (max m (-m)) := by rw [clamp, max_eq_left hle]
    _ = max (min (-x) m) (-m) := (max_min_distrib_right _ _ _).symm
    _ = max (-max x (-m)) (-m) := by rw [← min_neg_neg, neg_neg]
    _ = -clamp m x := max_neg_neg _ _

theorem clamp_zero : clamp m 0 = 0 := by
  rw [clamp_of_nonneg hm le_rfl, min_eq_left hm]

/-- A clamped movement goes the same way, and not further. -/
theorem clamp_between (x : K) : min 0 x ≤ clamp m x ∧ clamp m x ≤ max 0 x := by
  have hneg := neg_nonpos.mpr hm
  constructor
  · apply le_min _ ((min_le_left _ _).trans hm)
    exact (min_le_right _ _).trans (le_max_left _ _)
  · apply (min_le_left _ _).trans
    exact max_le (le_max_right _ _) (hneg.trans (le_max_left _ _))

end Clamp

theorem clamp_mul {m x s : K} (hs : 0 ≤ s) : clamp m x * s = clamp (m * s) (x * s) := by
  rw [clamp, clamp, min_mul_of_nonneg _ _ hs, max_mul_of_nonneg _ _ hs, neg_mul]

/-! ## Rounding a clamped movement -/

variable [FloorRing K]

/-- An integer moved towards a rounded number by at most `M`, and rounded. -/
def clampedRound (D : ℤ) (M y : K) : ℤ := halfEven (D + clamp M (halfEven y - D))

theorem roundsWithin_iff {D n : ℤ} {size : K} : halfEven (D + size) ≤ D + n ↔ RoundsWithin D n size := by
  rw [halfEven_le_iff, RoundsWithin]
  push_cast
  refine or_congr ⟨fun h => by linarith, fun h => by linarith⟩ (and_congr_left fun _ => ?_)
  exact ⟨fun h => by linarith, fun h => by linarith⟩

theorem roundsWithin_min {D n : ℤ} {a b : K} :
    RoundsWithin D n (min a b) ↔ RoundsWithin D n a ∨ RoundsWithin D n b := by
  rw [← roundsWithin_iff, ← roundsWithin_iff, ← roundsWithin_iff, ← min_add_add_left,
    halfEven_mono.map_min, min_le_iff]

/-- The movement upwards. -/
theorem clampedRound_sub_le_iff {D : ℤ} {M y : K} (hM : 0 ≤ M) (hy : (D : K) ≤ y) :
    |(clampedRound D M y : K) - D| ≤ M ↔ RoundsWithin D ⌊M⌋ (min (y - D) M) := by
  have hP : D ≤ halfEven y := (halfEven_intCast (K := K) D).symm.trans_le (halfEven_mono hy)
  have hP' : (0 : K) ≤ halfEven y - D := sub_nonneg.mpr (by exact_mod_cast hP)
  have hround : clampedRound D M y = min (halfEven y) (halfEven (D + M)) := by
    rw [clampedRound, clamp_of_nonneg hM hP', ← min_add_add_left, halfEven_mono.map_min,
      add_sub_cancel, halfEven_intCast]
  have hge : D ≤ clampedRound D M y := by
    rw [hround]
    apply le_min hP
    exact (halfEven_intCast (K := K) D).symm.trans_le (halfEven_mono (by linarith))
  have hge' : (0 : K) ≤ clampedRound D M y - D := sub_nonneg.mpr (by exact_mod_cast hge)
  rw [abs_of_nonneg hge', roundsWithin_min, ← roundsWithin_iff, ← roundsWithin_iff, add_sub_cancel,
    ← min_le_iff, ← hround]
  have hfloor : (clampedRound D M y : K) - D ≤ M ↔ clampedRound D M y - D ≤ ⌊M⌋ := by
    rw [Int.le_floor]
    push_cast
    rfl
  rw [hfloor]
  omega

theorem clampedRound_neg {D : ℤ} {M : K} (hM : 0 ≤ M) (y : K) :
    clampedRound (-D) M (-y) = -clampedRound D M y := by
  have hmove : (halfEven (-y) : K) - ((-D : ℤ) : K) = -(halfEven y - D) := by
    rw [halfEven_neg]
    push_cast
    ring
  rw [clampedRound, hmove, clamp_neg hM, clampedRound, ← halfEven_neg]
  push_cast
  congr 1
  ring

/-- **When the rounded movement keeps its bound.** -/
theorem abs_clampedRound_sub_le_iff {D : ℤ} {M : K} (hM : 0 ≤ M) (y : K) :
    |(clampedRound D M y : K) - D| ≤ M ↔ RoundsWithin D ⌊M⌋ (min |y - D| M) := by
  rcases le_total (D : K) y with hy | hy
  · rw [abs_of_nonneg (sub_nonneg.mpr hy)]
    exact clampedRound_sub_le_iff hM hy
  · have hneg : ((-D : ℤ) : K) ≤ -y := by
      push_cast
      exact neg_le_neg hy
    have h := clampedRound_sub_le_iff hM hneg
    rw [clampedRound_neg hM] at h
    have heven : Even (-D + ⌊M⌋) ↔ Even (D + ⌊M⌋) := by
      rw [Int.even_add, Int.even_add, even_neg]
    have hsize : -y - ((-D : ℤ) : K) = |y - D| := by
      rw [abs_of_nonpos (sub_nonpos.mpr hy)]
      push_cast
      ring
    rw [hsize, RoundsWithin, heven] at h
    rw [RoundsWithin, ← h, ← abs_neg]
    push_cast
    congr! 2
    ring
