import Mathlib.Algebra.Order.BigOperators.GroupWithZero.Finset
import Mathlib.Algebra.Order.BigOperators.Ring.Finset
import Mathlib.Algebra.BigOperators.Group.Finset.Basic
import Mathlib.Tactic.Linarith

/-!
# Independent confidences combined

`noisyOr S v` — the confidence that some of the independent groups `S` is right, when `v` is the
confidence in each. It is a confidence again, at least that of every group, and it rises with every
confidence and every further group (`noisyOr_mono`).

`List.peak xs` — the largest of a list of nonnegative numbers, zero of an empty one.
-/

variable {K κ : Type} [CommRing K] [LinearOrder K] [IsStrictOrderedRing K]

/-- One minus the chance that all groups are wrong. -/
def noisyOr (S : Finset κ) (v : κ → K) : K := 1 - ∏ k ∈ S, (1 - v k)

section NoisyOr

variable {S T : Finset κ} {v v' : κ → K}

theorem noisyOr_nonneg (hzero : ∀ k ∈ S, 0 ≤ v k) (hone : ∀ k ∈ S, v k ≤ 1) : 0 ≤ noisyOr S v := by
  have hprod : ∏ k ∈ S, (1 - v k) ≤ 1 :=
    Finset.prod_le_one (fun k hk => sub_nonneg.mpr (hone k hk)) fun k hk => by
      linarith [hzero k hk]
  exact sub_nonneg.mpr hprod

theorem noisyOr_le_one (hone : ∀ k ∈ S, v k ≤ 1) : noisyOr S v ≤ 1 := by
  have hprod : 0 ≤ ∏ k ∈ S, (1 - v k) := Finset.prod_nonneg fun k hk => sub_nonneg.mpr (hone k hk)
  unfold noisyOr
  linarith

/-- **More groups, and more confidence in each,** make more confidence. -/
theorem noisyOr_mono (hST : S ⊆ T) (hle : ∀ k ∈ S, v k ≤ v' k) (hzero : ∀ k ∈ T, 0 ≤ v' k)
    (hone : ∀ k ∈ T, v' k ≤ 1) : noisyOr S v ≤ noisyOr T v' := by
  have hgroups : ∏ k ∈ T, (1 - v' k) ≤ ∏ k ∈ S, (1 - v' k) :=
    Finset.prod_le_prod_of_subset_of_le_one hST (fun k hk => sub_nonneg.mpr (hone k hk))
      fun k hk _ => by linarith [hzero k hk]
  have heach : ∏ k ∈ S, (1 - v' k) ≤ ∏ k ∈ S, (1 - v k) :=
    Finset.prod_le_prod (fun k hk => sub_nonneg.mpr (hone k (hST hk))) fun k hk => by
      linarith [hle k hk]
  unfold noisyOr
  linarith

theorem le_noisyOr (hzero : ∀ k ∈ S, 0 ≤ v k) (hone : ∀ k ∈ S, v k ≤ 1) {k : κ} (hk : k ∈ S) :
    v k ≤ noisyOr S v := by
  have hsingle : noisyOr {k} v ≤ noisyOr S v :=
    noisyOr_mono (Finset.singleton_subset_iff.mpr hk) (fun _ _ => le_rfl) hzero hone
  rwa [noisyOr, Finset.prod_singleton, sub_sub_cancel] at hsingle

end NoisyOr

/-! ## Peaks -/

namespace List

/-- The largest item of a list, or zero. -/
def peak (xs : List K) : K := xs.foldr max 0

variable {xs : List K}

omit [IsStrictOrderedRing K] in
theorem peak_nonneg : ∀ xs : List K, 0 ≤ xs.peak
  | [] => le_rfl
  | x :: xs => (peak_nonneg xs).trans (le_max_right x _)

omit [IsStrictOrderedRing K] in
theorem le_peak {x : K} (hx : x ∈ xs) : x ≤ xs.peak := by
  induction xs with
  | nil => cases hx
  | cons y ys ih =>
    rcases mem_cons.mp hx with rfl | hx
    · exact le_max_left x _
    · exact (ih hx).trans (le_max_right y _)

omit [IsStrictOrderedRing K] in
theorem peak_le {bound : K} (hzero : 0 ≤ bound) (h : ∀ x ∈ xs, x ≤ bound) : xs.peak ≤ bound := by
  induction xs with
  | nil => exact hzero
  | cons y ys ih =>
    rw [forall_mem_cons] at h
    exact max_le h.1 (ih h.2)

end List
