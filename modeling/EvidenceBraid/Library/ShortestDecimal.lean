import EvidenceBraid.Library.Binary64

/-!
# The shortest decimal, characterized

**Theorem (`shortestDecimal_shortest`).** `shortest` is the decimal that rounds back with the fewest
digits, is closest to the value among those, and has an even significand if another one is as close.

**Idea.** With `d` digits at hand, the decimals in the decade of the value are the multiples of one
power of ten, and every other decimal lies beyond the two multiples around the value. What rounds to a
pattern is an interval; so if any decimal of `d` digits rounds back, then so does the nearer of the two
multiples on its side.
-/

namespace Binary64

/-! ## What rounds to a pattern -/

theorem bisect_none {p : ℕ → Bool} : ∀ (k lo : ℕ), (∀ i, i < lo + 2 ^ k → ¬p i) →
    bisect p k lo = lo + 2 ^ k - 1
  | 0, lo, _ => by simp [bisect]
  | k + 1, lo, h => by
    have hpow : 2 ^ (k + 1) = 2 ^ k + 2 ^ k := by ring
    have hpos : 0 < 2 ^ k := by positivity
    rw [bisect, if_neg (h _ (by omega)), bisect_none k _ fun i hi => h i (by omega)]
    omega

/-- **Rounding** gives the first pattern that is not below. -/
theorem nearest_iff {v : ℚ} {b : ℕ} (hb : b + 1 < 2 ^ 63) :
    nearest v = b ↔ roundsBy v b ∧ ∀ a, a + 1 = b → ¬roundsBy v a := by
  constructor
  · intro h
    by_cases hex : ∃ n, n < 2 ^ 63 ∧ roundsBy v n
    · obtain ⟨hlt, hfirst⟩ := Nat.find_spec hex
      have hleast : ∀ i < Nat.find hex, ¬roundsBy v i := fun i hi hp =>
        Nat.find_min hex hi ⟨hi.trans hlt, hp⟩
      have hfind : nearest v = Nat.find hex :=
        nearest_eq hlt hfirst fun a ha => hleast a (by omega)
      rw [← h, hfind]
      exact ⟨hfirst, fun a ha => hleast a (by omega)⟩
    · have hnone : nearest v = 0 + 2 ^ 63 - 1 :=
        bisect_none 63 0 fun i hi hp => hex ⟨i, by omega, hp⟩
      omega
  · intro h
    exact nearest_eq (by omega) h.1 h.2

theorem roundsBy_antitone {u v : ℚ} (huv : u ≤ v) {b : ℕ} (h : roundsBy v b) : roundsBy u b := by
  simp only [roundsBy, Bool.or_eq_true, decide_eq_true_eq, Bool.and_eq_true] at h ⊢
  rcases h with h | ⟨h, heven⟩
  · exact .inl (huv.trans_lt h)
  · rcases huv.lt_or_eq with hlt | heq
    · exact .inl (hlt.trans_eq h)
    · exact .inr ⟨heq.trans h, heven⟩

/-- What rounds to a pattern is an interval. -/
theorem nearest_between {u v w : ℚ} {b : ℕ} (hb : b + 1 < 2 ^ 63) (hu : nearest u = b)
    (hw : nearest w = b) (huv : u ≤ v) (hvw : v ≤ w) : nearest v = b := by
  rw [nearest_iff hb] at hu hw ⊢
  exact ⟨roundsBy_antitone hvw hw.1, fun a ha h => hu.2 a ha (roundsBy_antitone huv h)⟩

theorem halfGap_pos (b : ℕ) : 0 < halfGap b := by
  have hgap : (0 : ℚ) < gap b := by exact_mod_cast gap_pos b
  have hunit := unit_pos
  exact div_pos hgap (by linarith)

/-- What rounds to a pattern is within half a gap of its value, above and below. -/
theorem within_of_nearest {v : ℚ} {b : ℕ} (hb : b + 1 < 2 ^ 63) (h : nearest v = b) :
    v ≤ value b + halfGap b ∧ ∀ a, a + 1 = b → value b - halfGap a ≤ v := by
  obtain ⟨hle, hlt⟩ := (nearest_iff hb).mp h
  simp only [roundsBy, Bool.or_eq_true, decide_eq_true_eq, Bool.and_eq_true] at hle hlt
  constructor
  · rw [← middle_eq]
    rcases hle with hle | ⟨hle, -⟩
    · exact hle.le
    · exact hle.le
  · intro a ha
    have hnot := hlt a ha
    rw [← ha, ← middle_eq']
    exact not_lt.mp fun hlow => hnot (.inl hlow)

theorem nearest_value_self {b : ℕ} (hb : b + 1 < 2 ^ 63) : nearest (value b) = b := by
  rw [nearest_iff hb]
  have hup := middle_eq b
  have hpos := halfGap_pos b
  refine ⟨?_, fun a ha h => ?_⟩
  · simp only [roundsBy, Bool.or_eq_true, decide_eq_true_eq]
    left
    linarith
  · have hdown := middle_eq' a
    have hposa := halfGap_pos a
    rw [ha] at hdown
    simp only [roundsBy, Bool.or_eq_true, decide_eq_true_eq, Bool.and_eq_true] at h
    rcases h with h | ⟨h, -⟩ <;> linarith

/-! ## Decimals of so many digits -/

/-- The decimal has exactly so many significant digits. -/
def HasDigits (d c : ℕ) : Prop := 10 ^ (d - 1) ≤ c ∧ c < 10 ^ d

/-- The multiples of a power of ten around a value, and the power. -/
structure Around (b d : ℕ) (lo : ℕ) (e : ℤ) : Prop where
  exponent : e = Int.log 10 (value b) + 1 - d
  floor : lo = ⌊value b / 10 ^ e⌋₊
  digits : HasDigits d lo
  le : (lo : ℚ) * 10 ^ e ≤ value b
  lt : value b < (lo + 1 : ℕ) * 10 ^ e

theorem ten_zpow_pos (e : ℤ) : (0 : ℚ) < 10 ^ e := zpow_pos (by norm_num) e

/-- A value is in the decade of its logarithm. -/
theorem decade {v : ℚ} (hv : 0 < v) :
    (10 : ℚ) ^ Int.log 10 v ≤ v ∧ v < 10 ^ (Int.log 10 v + 1) := by
  have hten : 1 < 10 := by norm_num
  exact_mod_cast And.intro (Int.zpow_log_le_self hten hv) (Int.lt_zpow_succ_log_self hten v)

theorem around {b d : ℕ} (hb : 0 < b) (hd : 0 < d) :
    Around b d ⌊value b / 10 ^ (Int.log 10 (value b) + 1 - (d : ℤ))⌋₊
      (Int.log 10 (value b) + 1 - d) := by
  have hv := value_pos hb
  obtain ⟨hlow, hhigh⟩ := decade hv
  set e : ℤ := Int.log 10 (value b) + 1 - (d : ℤ) with he
  have hten := ten_zpow_pos e
  have hpos : 0 ≤ value b / 10 ^ e := by positivity
  have hfirst : ((10 : ℚ) ^ (d - 1)) * 10 ^ e = 10 ^ Int.log 10 (value b) := by
    rw [← zpow_natCast, ← zpow_add₀ (by norm_num)]
    congr 1
    push_cast [Nat.cast_sub hd]
    omega
  have hlast : ((10 : ℚ) ^ d) * 10 ^ e = 10 ^ (Int.log 10 (value b) + 1) := by
    rw [← zpow_natCast, ← zpow_add₀ (by norm_num)]
    congr 1
    omega
  refine ⟨rfl, rfl, ⟨?_, ?_⟩, ?_, ?_⟩
  · refine Nat.le_floor ?_
    rw [le_div_iff₀ hten]
    push_cast
    rw [hfirst]
    exact hlow
  · rw [Nat.floor_lt hpos, div_lt_iff₀ hten]
    push_cast
    rw [hlast]
    exact hhigh
  · rw [← le_div_iff₀ hten]
    exact Nat.floor_le hpos
  · rw [← div_lt_iff₀ hten]
    push_cast
    exact Nat.lt_floor_add_one _

/-- **Every decimal of at most so many digits** lies beyond the two multiples. -/
theorem Around.outside {b d lo : ℕ} {e : ℤ} (h : Around b d lo e) {c : ℕ} (hc : c < 10 ^ d) (e' : ℤ) :
    (c : ℚ) * 10 ^ e' ≤ lo * 10 ^ e ∨ ((lo + 1 : ℕ) : ℚ) * 10 ^ e ≤ c * 10 ^ e' := by
  have hten := ten_zpow_pos e
  by_cases hle : e ≤ e'
  · -- a multiple of the power
    obtain ⟨k, hk⟩ := Int.eq_ofNat_of_zero_le (by omega : 0 ≤ e' - e)
    have hmultiple : (c : ℚ) * 10 ^ e' = (c * 10 ^ k : ℕ) * 10 ^ e := by
      have hsplit : e' = k + e := by omega
      rw [hsplit, zpow_add₀ (by norm_num), zpow_natCast]
      push_cast
      ring
    rw [hmultiple]
    rcases Nat.lt_or_ge lo (c * 10 ^ k) with hlt | hge
    · right
      exact mul_le_mul_of_nonneg_right (by exact_mod_cast hlt) hten.le
    · left
      exact mul_le_mul_of_nonneg_right (by exact_mod_cast hge) hten.le
  · -- below the decade
    left
    have hpow : (10 : ℚ) ^ e' ≤ 10 ^ (e - 1) := zpow_le_zpow_right₀ (by norm_num) (by omega)
    have hc' : (c : ℚ) ≤ 10 ^ d := by exact_mod_cast hc.le
    have hpos := ten_zpow_pos e'
    have hshift : (10 : ℚ) ^ d * 10 ^ (e - 1) ≤ lo * 10 ^ e := by
      rw [zpow_sub_one₀ (by norm_num)]
      have hlo : (10 : ℚ) ^ d ≤ 10 * lo := by
        have hdigits := h.digits.1
        have hle : 10 ^ d ≤ 10 * lo := by
          cases d with
          | zero =>
            have hlt := h.digits.2
            simp only [pow_zero] at hdigits hlt
            omega
          | succ d =>
            rw [pow_succ]
            simp only [Nat.add_sub_cancel] at hdigits
            omega
        exact_mod_cast hle
      nlinarith
    calc (c : ℚ) * 10 ^ e' ≤ 10 ^ d * 10 ^ (e - 1) := mul_le_mul hc' hpow hpos.le (by positivity)
      _ ≤ lo * 10 ^ e := hshift

/-- A decimal with its digits is determined by its value. -/
theorem decimal_unique {d c c' : ℕ} {e e' : ℤ} (hc : HasDigits d c) (hc' : HasDigits d c')
    (hd : 0 < d) (heq : (c : ℚ) * 10 ^ e = c' * 10 ^ e') : c = c' ∧ e = e' := by
  have hstep : ∀ {c c' : ℕ} {e e' : ℤ}, HasDigits d c → HasDigits d c' →
      (c : ℚ) * 10 ^ e = c' * 10 ^ e' → e' ≤ e := by
    intro c c' e e' hc hc' heq
    by_contra hlt
    have hpow : (10 : ℚ) ^ (e + 1) ≤ 10 ^ e' := zpow_le_zpow_right₀ (by norm_num) (by omega)
    have hlow : (10 : ℚ) ^ (d - 1) ≤ c' := by exact_mod_cast hc'.1
    have hhigh : (c : ℚ) < 10 ^ d := by exact_mod_cast hc.2
    have hten := ten_zpow_pos e
    have hlt : (c : ℚ) * 10 ^ e < c' * 10 ^ e' := by
      calc (c : ℚ) * 10 ^ e < 10 ^ d * 10 ^ e := mul_lt_mul_of_pos_right hhigh hten
        _ = 10 ^ (d - 1) * 10 ^ (e + 1) := by
          rw [zpow_add_one₀ (by norm_num)]
          have hsucc : (10 : ℚ) ^ d = 10 ^ (d - 1) * 10 := by
            rw [← pow_succ]
            congr 1
            omega
          rw [hsucc]
          ring
        _ ≤ c' * 10 ^ e' := mul_le_mul hlow hpow (ten_zpow_pos _).le (by positivity)
    exact absurd heq hlt.ne
  have hee : e = e' := le_antisymm (hstep hc' hc heq.symm) (hstep hc hc' heq)
  refine ⟨?_, hee⟩
  rw [hee] at heq
  exact_mod_cast mul_right_cancel₀ (ten_zpow_pos e').ne' heq

/-! ## The nearer multiple -/

/-- The multiple above, as a decimal of as many digits. -/
def upper (d lo : ℕ) (e : ℤ) : ℕ × ℤ :=
  if lo + 1 = 10 ^ d then (10 ^ (d - 1), e + 1) else (lo + 1, e)

theorem upper_value {d lo : ℕ} (hd : 0 < d) (e : ℤ) :
    ((upper d lo e).1 : ℚ) * 10 ^ (upper d lo e).2 = (lo + 1 : ℕ) * 10 ^ e := by
  unfold upper
  split_ifs with hcarry
  · have hsucc : (10 : ℚ) ^ d = 10 ^ (d - 1) * 10 := by
      rw [← pow_succ]
      congr 1
      omega
    rw [hcarry, zpow_add_one₀ (by norm_num)]
    push_cast
    rw [hsucc]
    ring
  · rfl

theorem upper_digits {d lo : ℕ} (hd : 0 < d) (h : HasDigits d lo) (e : ℤ) :
    HasDigits d (upper d lo e).1 := by
  obtain ⟨hlow, hhigh⟩ := h
  unfold upper
  split_ifs with hcarry
  · exact ⟨le_rfl, Nat.pow_lt_pow_right (by norm_num) (by omega)⟩
  · exact ⟨by dsimp only; omega, by dsimp only; omega⟩

/-- The multiple above an odd one is even, but for the step from 9 to 10. -/
theorem upper_even {d lo : ℕ} (hd : 0 < d) (hodd : lo % 2 = 1) (e : ℤ) :
    (upper d lo e).1 % 2 = 0 ∨ d = 1 ∧ lo = 9 := by
  unfold upper
  split_ifs with hcarry
  · by_cases hone : d = 1
    · right
      rw [hone] at hcarry
      exact ⟨hone, by omega⟩
    · left
      have hsplit : d - 1 = (d - 2) + 1 := by omega
      rw [hsplit, pow_succ]
      dsimp only
      omega
  · left
    dsimp only
    omega

/-- The multiple above is the nearer one, or the even one of two that are as near. -/
def Above (b lo : ℕ) (e : ℤ) : Prop :=
  (lo + 1 : ℕ) * 10 ^ e - value b < value b - lo * 10 ^ e ∨
    ((lo + 1 : ℕ) * 10 ^ e - value b = value b - lo * 10 ^ e ∧ lo % 2 = 1)

instance (b lo : ℕ) (e : ℤ) : Decidable (Above b lo e) := inferInstanceAs (Decidable (_ ∨ _))

/-- **What an attempt makes** of the two multiples. -/
theorem attempt_eq {b d lo : ℕ} {e : ℤ} (h : Around b d lo e) : attempt b d =
    if nearest ((lo + 1 : ℕ) * 10 ^ e) = b ∧ (nearest (lo * 10 ^ e) ≠ b ∨ Above b lo e) then
      some (upper d lo e)
    else if nearest (lo * 10 ^ e) = b then some (lo, e)
    else none := by
  have hunfold : attempt b d =
      (let below : ℚ := value b - lo * 10 ^ e
      let above : ℚ := (lo + 1 : ℕ) * 10 ^ e - value b
      let okLo : Bool := nearest (lo * 10 ^ e) = b
      let okHi : Bool := nearest ((lo + 1 : ℕ) * 10 ^ e) = b
      if okHi && (!okLo || above < below || (above = below && lo % 2 = 1)) then
        if lo + 1 = 10 ^ d then some (10 ^ (d - 1), e + 1) else some (lo + 1, e)
      else if okLo then some (lo, e)
      else none) := by
    rw [h.floor, h.exponent]
    rfl
  have hupper : (if lo + 1 = 10 ^ d then some (10 ^ (d - 1), e + 1) else some (lo + 1, e)) =
      some (upper d lo e) := by
    unfold upper
    split_ifs <;> rfl
  dsimp only at hunfold
  rw [hupper] at hunfold
  rw [hunfold]
  refine if_congr ?_ rfl (if_congr decide_eq_true_iff rfl rfl)
  simp only [Bool.and_eq_true, Bool.or_eq_true, Bool.not_eq_true', decide_eq_true_eq,
    decide_eq_false_iff_not, or_assoc, Above, ne_eq]

/-- The multiple that an attempt takes rounds back, and is the nearer one if both do. -/
theorem attempt_cases {b d lo : ℕ} {e : ℤ} (h : Around b d lo e) :
    (attempt b d = none ∧ nearest (lo * 10 ^ e) ≠ b ∧ nearest ((lo + 1 : ℕ) * 10 ^ e) ≠ b) ∨
    (attempt b d = some (lo, e) ∧ nearest (lo * 10 ^ e) = b ∧
      (nearest ((lo + 1 : ℕ) * 10 ^ e) = b →
        value b - lo * 10 ^ e ≤ (lo + 1 : ℕ) * 10 ^ e - value b ∧
          (value b - lo * 10 ^ e = (lo + 1 : ℕ) * 10 ^ e - value b → lo % 2 = 0))) ∨
    (attempt b d = some (upper d lo e) ∧ nearest ((lo + 1 : ℕ) * 10 ^ e) = b ∧
      (nearest (lo * 10 ^ e) = b →
        (lo + 1 : ℕ) * 10 ^ e - value b ≤ value b - lo * 10 ^ e ∧
          (value b - lo * 10 ^ e = (lo + 1 : ℕ) * 10 ^ e - value b → lo % 2 = 1))) := by
  rw [attempt_eq h]
  by_cases hup : nearest ((lo + 1 : ℕ) * 10 ^ e) = b ∧ (nearest (lo * 10 ^ e) ≠ b ∨ Above b lo e)
  · right; right
    refine ⟨if_pos hup, hup.1, fun hlo => ?_⟩
    rcases hup.2.resolve_left (not_not.mpr hlo) with hnear | ⟨htie, hodd⟩
    · exact ⟨hnear.le, fun heq => absurd heq hnear.ne'⟩
    · exact ⟨htie.le, fun _ => hodd⟩
  · rw [if_neg hup]
    by_cases hlo : nearest (lo * 10 ^ e) = b
    · right; left
      refine ⟨if_pos hlo, hlo, fun hhi => ?_⟩
      have hnot : ¬Above b lo e := fun hnear => hup ⟨hhi, .inr hnear⟩
      unfold Above at hnot
      rw [not_or, not_and, not_lt] at hnot
      refine ⟨hnot.1, fun heq => ?_⟩
      have hodd := hnot.2 heq.symm
      omega
    · left
      exact ⟨if_neg hlo, hlo, fun hhi => hup ⟨hhi, .inl hlo⟩⟩

/-! ## No tie between 9 and 10 -/

/-- A pattern whose value is at most ten gaps is its own value in units of `2⁻¹⁰⁷⁴`. -/
theorem subnormal_of_few_gaps {b : ℕ} (h : scaled b ≤ 10 * gap b) : scaled b = 2 * b ∧ gap b = 2 := by
  by_cases h0 : b / 2 ^ 52 = 0
  · have hmod : b % 2 ^ 52 = b := Nat.mod_eq_of_lt (by omega)
    exact ⟨by rw [scaled_of_subnormal h0, hmod], gap_of_subnormal h0⟩
  · rw [scaled_of_normal h0, gap_of_normal h0] at h
    have hlt := Nat.le_of_mul_le_mul_right h (by positivity)
    omega

/-- **Nine and ten of a power of ten** are never equally close to a value that both round to. -/
theorem no_tie_nine {b : ℕ} {e : ℤ} (hb : b + 1 < 2 ^ 63) (hten : nearest ((10 : ℕ) * 10 ^ e) = b)
    (htie : value b - (9 : ℕ) * 10 ^ e = (10 : ℕ) * 10 ^ e - value b) : False := by
  have hunit := unit_pos
  have hpow := ten_zpow_pos e
  have hup := (within_of_nearest hb hten).1
  push_cast at htie hup
  -- the power of ten is at most a gap, so the value is at most ten gaps
  have hvalue : value b * 2 = 19 * 10 ^ e := by linarith
  have hgap : (10 : ℚ) ^ e ≤ gap b / unit := by
    have hhalf : halfGap b = gap b / unit / 2 := by
      unfold halfGap
      rw [div_div, mul_comm]
    linarith
  have hfew : scaled b ≤ 10 * gap b := by
    have hle : (scaled b : ℚ) / unit ≤ 10 * (gap b / unit) := by
      have hdef : value b = scaled b / unit := rfl
      linarith
    rw [← mul_div_assoc, div_le_div_iff_of_pos_right hunit] at hle
    exact_mod_cast hle
  obtain ⟨hscaled, htwo⟩ := subnormal_of_few_gaps hfew
  -- then five divides a power of two times nineteen
  have hneg : e < 0 := by
    by_contra hge
    have hone : (1 : ℚ) ≤ 10 ^ e := one_le_zpow₀ (by norm_num) (by omega)
    have hlt : ((gap b : ℕ) : ℚ) / unit < 1 := by
      rw [htwo, div_lt_one hunit]
      unfold unit
      exact_mod_cast (by decide +kernel : 2 < 2 ^ 1075)
    linarith
  obtain ⟨n, hn⟩ := Int.eq_ofNat_of_zero_le (by omega : 0 ≤ -e - 1)
  have he : e = -((n + 1 : ℕ) : ℤ) := by
    push_cast
    omega
  obtain ⟨p, hp⟩ : ∃ p : ℕ, p = 2 ^ 1073 := ⟨_, rfl⟩
  have hunit' : unit = 4 * p := by
    have hfour : (4 : ℚ) = 2 ^ 2 := by norm_num
    rw [hp, Nat.cast_pow, Nat.cast_ofNat, hfour, ← pow_add]
    rfl
  have hequation : 19 * p = b * 10 ^ (n + 1) := by
    have hdef : value b = (2 * b : ℕ) / unit := by
      rw [← hscaled]
      rfl
    rw [hdef, he, zpow_neg, zpow_natCast] at hvalue
    have hcross : (4 * b : ℚ) * 10 ^ (n + 1) = 19 * unit := by
      field_simp at hvalue
      push_cast at hvalue
      linarith
    rw [hunit'] at hcross
    have hfinal : (19 : ℚ) * p = b * 10 ^ (n + 1) := by linarith
    exact_mod_cast hfinal
  have hfive : 5 ∣ 19 * p := by
    rw [hequation]
    exact Dvd.dvd.mul_left (Dvd.dvd.trans (by decide : 5 ∣ 10) (dvd_pow_self 10 (by omega))) b
  have hcoprime : Nat.Coprime 5 p := by
    rw [hp]
    exact Nat.Coprime.pow_right 1073 (by decide)
  exact absurd (hcoprime.dvd_of_dvd_mul_right hfive) (by decide)

/-! ## What an attempt finds -/

section

variable {b d : ℕ} (hb : 0 < b) (hb63 : b + 1 < 2 ^ 63) (hd : 0 < d)

include hb hb63 hd

/-- An attempt that finds nothing: no decimal of at most so many digits rounds back. -/
theorem attempt_none (h : attempt b d = none) {c : ℕ} (hc : c < 10 ^ d) (e : ℤ) :
    nearest (c * 10 ^ e) ≠ b := by
  have haround := around hb hd
  have hself := nearest_value_self hb63
  rcases attempt_cases haround with ⟨-, hlo, hhi⟩ | ⟨hsome, -⟩ | ⟨hsome, -⟩
  · intro hrounds
    rcases haround.outside hc e with hle | hle
    · exact hlo (nearest_between hb63 hrounds hself hle haround.le)
    · exact hhi (nearest_between hb63 hself hrounds haround.lt.le hle)
  · rw [h] at hsome
    cases hsome
  · rw [h] at hsome
    cases hsome

/-- **What an attempt finds** has its digits and rounds back; nothing else of as many digits that
rounds back is closer, and the significand is even if something else is as close. -/
theorem attempt_some {c : ℕ} {e : ℤ} (h : attempt b d = some (c, e)) :
    HasDigits d c ∧ nearest (c * 10 ^ e) = b ∧
      ∀ (c' : ℕ) (e' : ℤ), HasDigits d c' → nearest (c' * 10 ^ e') = b →
        |(c : ℚ) * 10 ^ e - value b| ≤ |(c' : ℚ) * 10 ^ e' - value b| ∧
          (|(c : ℚ) * 10 ^ e - value b| = |(c' : ℚ) * 10 ^ e' - value b| → (c', e') ≠ (c, e) →
            c % 2 = 0) := by
  obtain ⟨lo, k, haround⟩ : ∃ lo k, Around b d lo k := ⟨_, _, around hb hd⟩
  have hself := nearest_value_self hb63
  have hle := haround.le
  have hlt := haround.lt
  rcases attempt_cases haround with ⟨hnone, -⟩ | ⟨hsome, hlo, hnear⟩ | ⟨hsome, hhi, hnear⟩
  · rw [h] at hnone
    cases hnone
  · -- the multiple below
    rw [h] at hsome
    obtain ⟨rfl, rfl⟩ : lo = c ∧ k = e := by
      have hpair := Option.some.inj hsome
      exact ⟨(Prod.mk.inj hpair).1.symm, (Prod.mk.inj hpair).2.symm⟩
    refine ⟨haround.digits, hlo, fun c' e' hc' hrounds => ?_⟩
    have hdistance : |(lo : ℚ) * 10 ^ k - value b| = value b - lo * 10 ^ k := by
      rw [abs_sub_comm, abs_of_nonneg (by linarith)]
    rw [hdistance]
    rcases haround.outside hc'.2 e' with hbelow | habove
    · rw [abs_sub_comm, abs_of_nonneg (by linarith)]
      refine ⟨by linarith, fun heq hne => absurd ?_ hne⟩
      have hvalues : (c' : ℚ) * 10 ^ e' = lo * 10 ^ k := by linarith
      obtain ⟨hc, he⟩ := decimal_unique hc' haround.digits hd hvalues
      rw [hc, he]
    · have hhi := nearest_between hb63 hself hrounds hlt.le habove
      obtain ⟨hcloser, heven⟩ := hnear hhi
      rw [abs_of_nonneg (by linarith)]
      exact ⟨by linarith, fun heq _ => heven (by linarith)⟩
  · -- the multiple above
    have hvalue := @upper_value d lo hd k
    have hdigits := upper_digits hd haround.digits k
    have hsame : upper d lo k = (c, e) := Option.some.inj (hsome.symm.trans h)
    rw [hsame] at hvalue hdigits
    dsimp only at hvalue hdigits
    rw [hvalue]
    refine ⟨hdigits, hhi, fun c' e' hc' hrounds => ?_⟩
    rw [abs_of_nonneg (by linarith : 0 ≤ ((lo + 1 : ℕ) : ℚ) * 10 ^ k - value b)]
    rcases haround.outside hc'.2 e' with hbelow | habove
    · have hlo := nearest_between hb63 hrounds hself hbelow hle
      obtain ⟨hcloser, hodd⟩ := hnear hlo
      rw [abs_sub_comm, abs_of_nonneg (by linarith)]
      refine ⟨by linarith, fun heq _ => ?_⟩
      have htie : value b - lo * 10 ^ k = (lo + 1 : ℕ) * 10 ^ k - value b := by linarith
      have heven := upper_even hd (hodd htie) k
      rw [hsame] at heven
      refine heven.resolve_right fun ⟨_, hnine⟩ => ?_
      rw [hnine] at htie hhi
      exact no_tie_nine hb63 hhi htie
    · rw [abs_of_nonneg (by linarith)]
      refine ⟨by linarith, fun heq hne => absurd ?_ hne⟩
      have hvalues : (c' : ℚ) * 10 ^ e' = c * 10 ^ e := by
        rw [hvalue]
        linarith
      obtain ⟨hc, he⟩ := decimal_unique hc' hdigits hd hvalues
      rw [hc, he]

end

/-! ## The result -/

/-- The number of digits of a significand. -/
def significant (c : ℕ) : ℕ := (Nat.toDigits 10 c).length

theorem significant_pos (c : ℕ) : 0 < significant c := Nat.length_toDigits_pos

theorem significant_le_iff {c d : ℕ} (hd : 0 < d) : significant c ≤ d ↔ c < 10 ^ d :=
  Nat.length_toDigits_le_iff (by decide) hd

theorem significant_of_hasDigits {d c : ℕ} (hd : 0 < d) (h : HasDigits d c) : significant c = d := by
  refine le_antisymm ((significant_le_iff hd).mpr h.2) ?_
  by_contra hlt
  have hpos := significant_pos c
  have hle : significant c ≤ d - 1 := by omega
  rw [significant_le_iff (by omega)] at hle
  exact absurd h.1 (Nat.not_le.mpr hle)

theorem hasDigits_significant {c : ℕ} (hc : 0 < c) : HasDigits (significant c) c := by
  refine ⟨?_, (significant_le_iff (significant_pos c)).mp le_rfl⟩
  by_cases hone : significant c = 1
  · rw [hone]
    exact hc
  · have hpos := significant_pos c
    by_contra hlt
    have hle := (significant_le_iff (d := significant c - 1) (by omega)).mpr (Nat.lt_of_not_le hlt)
    omega

/-- The shortest decimal that rounds to a pattern: closest to its value among the shortest, with an
even significand if another one is as close. -/
structure ShortestDecimal (b c : ℕ) (e : ℤ) : Prop where
  rounds : nearest (c * 10 ^ e) = b
  fewest : ∀ (c' : ℕ) (e' : ℤ), nearest (c' * 10 ^ e') = b → significant c ≤ significant c'
  closest : ∀ (c' : ℕ) (e' : ℤ), significant c' = significant c → nearest (c' * 10 ^ e') = b →
    |(c : ℚ) * 10 ^ e - value b| ≤ |(c' : ℚ) * 10 ^ e' - value b|
  even : ∀ (c' : ℕ) (e' : ℤ), significant c' = significant c → nearest (c' * 10 ^ e') = b →
    |(c : ℚ) * 10 ^ e - value b| = |(c' : ℚ) * 10 ^ e' - value b| → (c', e') ≠ (c, e) → c % 2 = 0

/-- The first attempt that finds something. -/
theorem shortest_attempt {b : ℕ} (hb : 0 < b) (hb63 : b < 2 ^ 63) : ∃ d, 0 < d ∧ d ≤ 17 ∧
    attempt b d = some (shortest b) ∧ ∀ d', 0 < d' → d' < d → attempt b d' = none := by
  have hsome := attempt_seventeen hb hb63
  cases hfind : (List.range 17).findSome? fun i => attempt b (i + 1) with
  | none =>
    have hnone := List.findSome?_eq_none_iff.mp hfind 16 (by simp)
    rw [hnone] at hsome
    cases hsome
  | some found =>
    obtain ⟨before, i, after, hrange, hattempt, hbefore⟩ := List.findSome?_eq_some_iff.mp hfind
    have hi : i < 17 := by
      rw [← List.mem_range, hrange]
      simp
    have hpairwise : (before ++ i :: after).Pairwise (· < ·) := by
      rw [← hrange]
      exact List.pairwise_lt_range
    refine ⟨i + 1, Nat.succ_pos i, hi, ?_, fun d' hpos hlt => ?_⟩
    · rw [hattempt, shortest, hfind]
      rfl
    · have hmem : d' - 1 ∈ before ++ i :: after := by
        rw [← hrange, List.mem_range]
        omega
      have hfirst : d' - 1 ∈ before := by
        rcases List.mem_append.mp hmem with hmem | hmem
        · exact hmem
        · rcases List.mem_cons.mp hmem with heq | hmem
          · omega
          · have hafter := List.rel_of_pairwise_cons (List.pairwise_append.mp hpairwise).2.1 hmem
            omega
      have hnone := hbefore _ hfirst
      rwa [Nat.sub_add_cancel hpos] at hnone

/-- **`shortest` is the shortest decimal.** -/
theorem shortestDecimal_shortest {b : ℕ} (hb : 0 < b) (hb63 : b + 1 < 2 ^ 63) :
    ShortestDecimal b (shortest b).1 (shortest b).2 := by
  obtain ⟨d, hd, -, hattempt, hnone⟩ := shortest_attempt hb (by omega)
  have hpair : attempt b d = some ((shortest b).1, (shortest b).2) := hattempt
  obtain ⟨hdigits, hrounds, hbest⟩ := attempt_some hb hb63 hd hpair
  have hcount := significant_of_hasDigits hd hdigits
  have hpositive : ∀ {c' : ℕ} {e' : ℤ}, nearest (c' * 10 ^ e') = b → 0 < c' := by
    intro c' e' h
    by_contra hzero
    rw [Nat.eq_zero_of_not_pos hzero, Nat.cast_zero, zero_mul, nearest_zero] at h
    omega
  have hasDigits : ∀ {c' : ℕ} {e' : ℤ}, significant c' = significant (shortest b).1 →
      nearest (c' * 10 ^ e') = b → HasDigits d c' := by
    intro c' e' hc' h
    rw [← hcount, ← hc']
    exact hasDigits_significant (hpositive h)
  refine ⟨hrounds, fun c' e' h => ?_, fun c' e' hc' h => (hbest c' e' (hasDigits hc' h) h).1,
    fun c' e' hc' h => (hbest c' e' (hasDigits hc' h) h).2⟩
  by_contra hlt
  rw [hcount] at hlt
  exact attempt_none hb hb63 (significant_pos c') (hnone _ (significant_pos c') (by omega))
    ((significant_le_iff (significant_pos c')).mp le_rfl) e' h

end Binary64
