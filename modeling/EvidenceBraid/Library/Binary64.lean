import Mathlib.Data.Rat.Floor
import Mathlib.Data.Int.Log
import Mathlib.Algebra.Order.Round
import Mathlib.Tactic.Linarith
import Mathlib.Tactic.Positivity
import Mathlib.Tactic.FieldSimp
import Mathlib.Tactic.Ring

/-!
# Finite binary64 numbers and their shortest decimal text

A nonnegative finite double is its bit pattern without the sign, read as a natural number.
`scaled` is the pattern's value in units of `2⁻¹⁰⁷⁵`, so that every value and every half-way
point between neighbours is an integer or a half-integer of the unit, and rounding a rational
to the nearest double is a search over an increasing sequence of half-way points.

* `nearest` — round to nearest, ties to the even pattern.
* `shortest` — the decimal with the fewest digits that rounds back.
* `ofNumeral_repr` — reading the printed form of a finite double gives that double.

That seventeen digits always suffice is `attempt_seventeen`: a seventeen-digit neighbour is
within `v · 10⁻¹⁶ / 2` of `v`, and every half-gap around `v` is at least `v · 2⁻⁵⁴`.
-/

namespace Binary64

/-! ## Values of bit patterns -/

/-- The value of a bit pattern in units of `2⁻¹⁰⁷⁵`. -/
def scaled (b : ℕ) : ℕ :=
  if b / 2 ^ 52 = 0 then 2 * (b % 2 ^ 52) else (2 ^ 52 + b % 2 ^ 52) * 2 ^ (b / 2 ^ 52)

/-- The distance from a pattern to the next one, in the same unit. -/
def gap (b : ℕ) : ℕ := 2 ^ max (b / 2 ^ 52) 1

theorem gap_pos (b : ℕ) : 0 < gap b := by unfold gap; positivity

theorem scaled_of_subnormal {b : ℕ} (h : b / 2 ^ 52 = 0) : scaled b = 2 * (b % 2 ^ 52) :=
  if_pos h

theorem scaled_of_normal {b : ℕ} (h : b / 2 ^ 52 ≠ 0) :
    scaled b = (2 ^ 52 + b % 2 ^ 52) * 2 ^ (b / 2 ^ 52) :=
  if_neg h

theorem gap_of_subnormal {b : ℕ} (h : b / 2 ^ 52 = 0) : gap b = 2 := by rw [gap, h]; rfl

theorem gap_of_normal {b : ℕ} (h : b / 2 ^ 52 ≠ 0) : gap b = 2 ^ (b / 2 ^ 52) := by
  rw [gap, max_eq_left (Nat.one_le_iff_ne_zero.mpr h)]

theorem scaled_succ (b : ℕ) : scaled (b + 1) = scaled b + gap b := by
  by_cases hcarry : b % 2 ^ 52 = 2 ^ 52 - 1
  · have hq : (b + 1) / 2 ^ 52 = b / 2 ^ 52 + 1 := by omega
    have hr : (b + 1) % 2 ^ 52 = 0 := by omega
    rw [scaled_of_normal (b := b + 1) (by omega), hq, hr]
    by_cases h0 : b / 2 ^ 52 = 0
    · rw [scaled_of_subnormal h0, gap_of_subnormal h0, hcarry, h0]
      norm_num
    · rw [scaled_of_normal h0, gap_of_normal h0, hcarry, pow_succ]
      ring_nf
  · have hq : (b + 1) / 2 ^ 52 = b / 2 ^ 52 := by omega
    have hr : (b + 1) % 2 ^ 52 = b % 2 ^ 52 + 1 := by omega
    by_cases h0 : b / 2 ^ 52 = 0
    · rw [scaled_of_subnormal h0, scaled_of_subnormal (hq.trans h0), gap_of_subnormal h0, hr]
      omega
    · rw [scaled_of_normal h0, scaled_of_normal (hq.trans_ne h0), gap_of_normal h0, hq, hr]
      ring

theorem scaled_strictMono : StrictMono scaled :=
  strictMono_nat_of_lt_succ fun b => by rw [scaled_succ]; have := gap_pos b; omega

@[simp] theorem scaled_zero : scaled 0 = 0 := by decide

/-- A pattern's value is below `2⁵³` of its own gaps. -/
theorem scaled_lt_gap (b : ℕ) : scaled b < 2 ^ 53 * gap b := by
  have hr : b % 2 ^ 52 < 2 ^ 52 := Nat.mod_lt _ (by positivity)
  by_cases h0 : b / 2 ^ 52 = 0
  · rw [scaled_of_subnormal h0, gap_of_subnormal h0]
    omega
  · rw [scaled_of_normal h0, gap_of_normal h0]
    exact Nat.mul_lt_mul_of_pos_right (by omega) (by positivity)

/-- The value after a pattern is at most `2⁵³` of the gap before it. -/
theorem scaled_succ_le_gap (b : ℕ) : scaled (b + 1) ≤ 2 ^ 53 * gap b := by
  have h := scaled_lt_gap b
  have hdvd : gap b ∣ scaled b := by
    by_cases h0 : b / 2 ^ 52 = 0
    · rw [scaled_of_subnormal h0, gap_of_subnormal h0]; exact ⟨_, rfl⟩
    · rw [scaled_of_normal h0, gap_of_normal h0]; exact ⟨_, mul_comm _ _⟩
  obtain ⟨k, hk⟩ := hdvd
  rw [scaled_succ, hk]
  rw [hk, mul_comm] at h
  have : k < 2 ^ 53 := Nat.lt_of_mul_lt_mul_right h
  calc gap b * k + gap b = gap b * (k + 1) := by ring
    _ ≤ gap b * 2 ^ 53 := Nat.mul_le_mul_left _ this
    _ = 2 ^ 53 * gap b := mul_comm _ _

/-- How many units make one. -/
def unit : ℚ := 2 ^ 1075

theorem unit_pos : 0 < unit := by unfold unit; positivity

/-- The rational value of a bit pattern. -/
def value (b : ℕ) : ℚ := scaled b / unit

theorem value_pos {b : ℕ} (hb : 0 < b) : 0 < value b := by
  have : scaled 0 < scaled b := scaled_strictMono hb
  have hs : (0 : ℚ) < scaled b := by exact_mod_cast (by simpa using this)
  exact div_pos hs unit_pos

theorem value_strictMono : StrictMono value := fun a b h => by
  have : (scaled a : ℚ) < scaled b := by exact_mod_cast scaled_strictMono h
  exact div_lt_div_of_pos_right this unit_pos

/-! ## Rounding -/

/-- The half-way point above a bit pattern. -/
def middle (b : ℕ) : ℚ := ((scaled b : ℚ) + scaled (b + 1)) / (2 * unit)

/-- Half the gap above a bit pattern. -/
def halfGap (b : ℕ) : ℚ := gap b / (2 * unit)

theorem middle_eq (b : ℕ) : middle b = value b + halfGap b := by
  unfold middle value halfGap
  rw [scaled_succ]
  have := unit_pos
  field_simp
  push_cast
  ring

theorem middle_eq' (b : ℕ) : middle b = value (b + 1) - halfGap b := by
  unfold middle value halfGap
  rw [scaled_succ]
  have := unit_pos
  field_simp
  push_cast
  ring

/-- Of an integer number of units, at most `2⁵³` gaps, a part in `2⁵⁴` is within half a gap. -/
theorem le_halfGap {n b : ℕ} (h : n ≤ 2 ^ 53 * gap b) : (n : ℚ) / unit / 2 ^ 54 ≤ halfGap b := by
  have hn : (n : ℚ) ≤ 2 ^ 53 * (gap b : ℚ) := by exact_mod_cast h
  have hu := unit_pos
  unfold halfGap
  rw [div_div, div_le_div_iff₀ (by positivity) (by positivity)]
  calc (n : ℚ) * (2 * unit) ≤ (2 ^ 53 * (gap b : ℚ)) * (2 * unit) := by gcongr
    _ = gap b * (unit * 2 ^ 54) := by ring

theorem middle_strictMono : StrictMono middle := fun a b h => by
  have h₁ : (scaled a : ℚ) < scaled b := by exact_mod_cast scaled_strictMono h
  have h₂ : (scaled (a + 1) : ℚ) < scaled (b + 1) := by
    exact_mod_cast scaled_strictMono (by omega)
  exact div_lt_div_of_pos_right (add_lt_add h₁ h₂) (by linarith [unit_pos])

/-- `v` rounds to `b` or to a smaller pattern: it is below the half-way point above `b`, or on
it and `b` is even. -/
def roundsBy (v : ℚ) (b : ℕ) : Bool := v < middle b || (v = middle b && b % 2 = 0)

theorem roundsBy_mono {v : ℚ} {a b : ℕ} (hab : a ≤ b) (h : roundsBy v a) : roundsBy v b := by
  rcases hab.eq_or_lt with rfl | hlt
  · exact h
  · have hm := middle_strictMono hlt
    simp only [roundsBy, Bool.or_eq_true, decide_eq_true_eq, Bool.and_eq_true] at h ⊢
    left
    rcases h with h | ⟨h, -⟩
    · exact h.trans hm
    · exact h ▸ hm

/-- The least number from `lo` on that satisfies `p`, among the next `2 ^ k`. -/
def bisect (p : ℕ → Bool) : ℕ → ℕ → ℕ
  | 0, lo => lo
  | k + 1, lo => if p (lo + 2 ^ k - 1) then bisect p k lo else bisect p k (lo + 2 ^ k)

theorem bisect_eq {p : ℕ → Bool} (hmono : ∀ a b, a ≤ b → p a → p b) {n : ℕ} (hn : p n)
    (hleast : ∀ i < n, ¬ p i) :
    ∀ (k lo : ℕ), lo ≤ n → n < lo + 2 ^ k → bisect p k lo = n := by
  intro k
  induction k with
  | zero => intro lo h₁ h₂; simp only [bisect]; omega
  | succ k ih =>
    intro lo h₁ h₂
    have hpow : 2 ^ (k + 1) = 2 ^ k + 2 ^ k := by ring
    have hpos : 0 < 2 ^ k := by positivity
    simp only [bisect]
    split_ifs with hp
    · refine ih lo h₁ ?_
      by_contra hge
      exact hleast _ (by omega) hp
    · refine ih (lo + 2 ^ k) ?_ (by omega)
      by_contra hlt
      exact hp (hmono _ _ (by omega) hn)

/-- Round a nonnegative rational to the nearest bit pattern, ties to the even one. -/
def nearest (v : ℚ) : ℕ := bisect (roundsBy v) 63 0

theorem nearest_eq {v : ℚ} {b : ℕ} (hb : b < 2 ^ 63) (hle : roundsBy v b)
    (hlt : ∀ a, a + 1 = b → ¬ roundsBy v a) : nearest v = b := by
  refine bisect_eq (fun a b hab h => roundsBy_mono hab h) hle (fun i hi hp => ?_) 63 0
    (by omega) (by omega)
  exact hlt (b - 1) (by omega) (roundsBy_mono (by omega) hp)

/-- A rational closer to `value b` than both half-gaps rounds to `b`. -/
theorem nearest_of_close {v : ℚ} {b : ℕ} (hb : 0 < b) (hb63 : b < 2 ^ 63)
    (h : |v - value b| < value b / 2 ^ 54) : nearest v = b := by
  rw [abs_lt] at h
  have hup : value b / 2 ^ 54 ≤ halfGap b := le_halfGap (scaled_lt_gap b).le
  refine nearest_eq hb63 ?_ ?_
  · simp only [roundsBy, Bool.or_eq_true, decide_eq_true_eq]
    left
    rw [middle_eq]
    linarith
  · rintro a rfl
    have hdown : value (a + 1) / 2 ^ 54 ≤ halfGap a := le_halfGap (scaled_succ_le_gap a)
    have hm : middle a < v := by rw [middle_eq']; linarith
    simp only [roundsBy, Bool.or_eq_true, decide_eq_true_eq, Bool.and_eq_true, not_or, not_and]
    exact ⟨not_lt.mpr hm.le, fun he => absurd he hm.ne'⟩

theorem nearest_zero : nearest 0 = 0 := by
  refine nearest_eq (by positivity) ?_ (by omega)
  simp only [roundsBy, Bool.or_eq_true, decide_eq_true_eq]
  left
  have hg : (0 : ℚ) < gap 0 := by exact_mod_cast gap_pos 0
  have hu := unit_pos
  rw [middle_eq, value, scaled_zero, halfGap, Nat.cast_zero, zero_div, zero_add]
  exact div_pos hg (by linarith)

/-! ## The shortest decimal -/

/-- The decimals with `d` digits around `value b`, tried on either side: the closer of the two
that round back, the one with an even last digit when both are equally close. -/
def attempt (b d : ℕ) : Option (ℕ × ℤ) :=
  let e : ℤ := Int.log 10 (value b) + 1 - d
  let lo : ℕ := ⌊value b / 10 ^ e⌋₊
  let below : ℚ := value b - lo * 10 ^ e
  let above : ℚ := (lo + 1 : ℕ) * 10 ^ e - value b
  let okLo : Bool := nearest (lo * 10 ^ e) = b
  let okHi : Bool := nearest ((lo + 1 : ℕ) * 10 ^ e) = b
  if okHi && (!okLo || above < below || (above = below && lo % 2 = 1)) then
    -- The upper neighbour of 99…9 is a power of ten, printed with one digit fewer.
    if lo + 1 = 10 ^ d then some (10 ^ (d - 1), e + 1) else some (lo + 1, e)
  else if okLo then some (lo, e)
  else none

/-- The decimal `c · 10ᵉ` with the fewest digits that rounds to the pattern `b`. -/
def shortest (b : ℕ) : ℕ × ℤ :=
  ((List.range 17).findSome? fun i => attempt b (i + 1)).getD (0, 0)

theorem attempt_sound {b d : ℕ} (hd : 0 < d) {c : ℕ} {e : ℤ} (h : attempt b d = some (c, e)) :
    nearest (c * 10 ^ e) = b := by
  simp only [attempt] at h
  split_ifs at h with hhi hcarry hlo
  · simp only [Option.some.injEq, Prod.mk.injEq] at h
    obtain ⟨rfl, rfl⟩ := h
    simp only [Bool.and_eq_true, decide_eq_true_eq] at hhi
    rw [hcarry] at hhi
    have hpow : ((10 ^ (d - 1) : ℕ) : ℚ) * 10 ^ (Int.log 10 (value b) + 1 - (d : ℤ) + 1) =
        ((10 ^ d : ℕ) : ℚ) * 10 ^ (Int.log 10 (value b) + 1 - (d : ℤ)) := by
      rw [zpow_add_one₀ (by norm_num)]
      obtain ⟨d, rfl⟩ : ∃ k, d = k + 1 := ⟨d - 1, by omega⟩
      push_cast
      rw [pow_succ]
      ring
    rw [hpow]
    exact hhi.1
  · simp only [Option.some.injEq, Prod.mk.injEq] at h
    obtain ⟨rfl, rfl⟩ := h
    simp only [Bool.and_eq_true, decide_eq_true_eq] at hhi
    exact hhi.1
  · simp only [Option.some.injEq, Prod.mk.injEq] at h
    obtain ⟨rfl, rfl⟩ := h
    simpa using hlo

/-- Seventeen digits always suffice. -/
theorem attempt_seventeen {b : ℕ} (hb : 0 < b) (hb63 : b < 2 ^ 63) : (attempt b 17).isSome := by
  have hv := value_pos hb
  set v := value b with hvdef
  set e : ℤ := Int.log 10 v + 1 - (17 : ℕ) with he
  have hten : (0 : ℚ) < 10 ^ e := zpow_pos (by norm_num) e
  -- The last digit is worth at most `v / 10¹⁶`.
  have hunit : (10 : ℚ) ^ e ≤ v / 10 ^ 16 := by
    have hlog : (10 : ℚ) ^ Int.log 10 v ≤ v := by
      have := Int.zpow_log_le_self (R := ℚ) (b := 10) (by norm_num) hv
      exact_mod_cast this
    have : (10 : ℚ) ^ e = 10 ^ Int.log 10 v / 10 ^ 16 := by
      rw [he, show Int.log 10 v + 1 - (17 : ℕ) = Int.log 10 v - (16 : ℕ) by push_cast; ring,
        zpow_sub₀ (by norm_num), zpow_natCast]
    rw [this]
    gcongr
  set lo : ℕ := ⌊v / 10 ^ e⌋₊ with hlo
  have hlow : (lo : ℚ) * 10 ^ e ≤ v := by
    rw [← le_div_iff₀ hten]; exact Nat.floor_le (by positivity)
  have hhigh : v < (lo + 1 : ℕ) * 10 ^ e := by
    rw [← div_lt_iff₀ hten]; push_cast; exact Nat.lt_floor_add_one _
  have hstep : ((lo + 1 : ℕ) : ℚ) * 10 ^ e = lo * 10 ^ e + 10 ^ e := by push_cast; ring
  have hsmall : v / 10 ^ 16 / 2 < v / 2 ^ 54 := by
    rw [div_div]
    exact div_lt_div_of_pos_left hv (by positivity) (by norm_num)
  have hok : nearest (lo * 10 ^ e) = b ∨ nearest ((lo + 1 : ℕ) * 10 ^ e) = b := by
    by_cases hhalf : v - lo * 10 ^ e ≤ 10 ^ e / 2
    · left
      refine nearest_of_close hb hb63 ?_
      rw [← hvdef, abs_lt]
      constructor <;> linarith
    · right
      refine nearest_of_close hb hb63 ?_
      rw [← hvdef, abs_lt, hstep]
      constructor <;> linarith
  simp only [attempt, ← hvdef, ← he, ← hlo]
  rcases hok with hok | hok
  · simp only [hok, decide_true]
    split_ifs <;> simp
  · by_cases hlo' : nearest (lo * 10 ^ e) = b
    · simp only [hlo', decide_true]
      split_ifs <;> simp
    · simp only [hok, hlo', decide_true, decide_false, Bool.not_false, Bool.true_or,
        Bool.and_self, if_true]
      split_ifs <;> simp

/-- **The shortest decimal rounds back.** -/
theorem nearest_shortest {b : ℕ} (hb : 0 < b) (hb63 : b < 2 ^ 63) :
    nearest ((shortest b).1 * 10 ^ (shortest b).2) = b := by
  cases hf : (List.range 17).findSome? fun i => attempt b (i + 1) with
  | none =>
    have h := List.findSome?_eq_none_iff.mp hf 16 (by simp)
    have := attempt_seventeen hb hb63
    rw [h] at this
    simp at this
  | some ce =>
    obtain ⟨i, -, hi⟩ := List.exists_of_findSome?_eq_some hf
    rw [shortest, hf]
    exact attempt_sound (Nat.succ_pos i) hi

theorem shortest_pos {b : ℕ} (hb : 0 < b) (hb63 : b < 2 ^ 63) : 0 < (shortest b).1 := by
  have h := nearest_shortest hb hb63
  by_contra h0
  rw [Nat.eq_zero_of_not_pos h0, Nat.cast_zero, zero_mul, nearest_zero] at h
  omega

end Binary64
