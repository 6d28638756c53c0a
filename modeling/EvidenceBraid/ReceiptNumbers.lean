import EvidenceBraid.Library.Numeral
import EvidenceBraid.Library.ShortestDecimal

/-!
# The canonical spelling of a float, as the Node verifier finds it

`canonicalFloat` of `receipt-numbers.mjs` searches for the shortest decimal with integers only. The
logarithm that it starts from is any integer that its table of powers covers.

**Theorem (`canonicalFloat_shortest`).** It never throws. It spells the decimal that rounds back with
the fewest digits, closest among those, with an even significand where another one is as close.

**Idea.** In units of `2⁻¹⁰⁷⁵` every bound of the search is an integer, and the search for so many
digits finds what `Binary64.attempt` finds (`search_eq`): at the exponent of the value one of the two
multiples around it, and one exponent higher only the power of ten above it.
-/

namespace EvidenceBraid

namespace ReceiptNumbers

/-! ## The search -/

/-- A `NumberWireError`, or the `TypeError` of arithmetic with a missing table entry. -/
inductive NumberError where
  | wire
  | missing
  deriving DecidableEq, Repr

abbrev Throws := Except NumberError

/-- `UNIT`. -/
def UNIT : ℕ := 1 <<< 1075

/-- `POW10`. -/
def POW10 (index : ℤ) : Throws ℕ :=
  if 0 ≤ index ∧ index ≤ 340 then .ok (10 ^ index.toNat) else .error .missing

/-- `scaled`. -/
def scaled (bits : ℕ) : ℕ :=
  let exponent := bits >>> 52
  let fraction := bits &&& (1 <<< 52 - 1)
  if exponent = 0 then fraction <<< 1 else (1 <<< 52 + fraction) <<< exponent

/-- `decimalFactors`. -/
def decimalFactors (exponent : ℤ) : Throws (ℕ × ℕ) :=
  if 0 ≤ exponent then do
    let power ← POW10 exponent
    .ok (UNIT * power, 1)
  else do
    let power ← POW10 (-exponent)
    .ok (UNIT, power)

/-- `comparePower`. -/
def comparePower (value : ℕ) (exponent : ℤ) : Throws Ordering := do
  let (numerator, denominator) ← decimalFactors exponent
  let difference : ℤ := value * denominator - numerator
  .ok (if difference < 0 then .lt else if difference = 0 then .eq else .gt)

/-- `nearestInteger`. -/
def nearestInteger (numerator denominator : ℕ) : ℕ :=
  let quotient := numerator / denominator
  let twiceRemainder := 2 * (numerator % denominator)
  quotient + if denominator < twiceRemainder ∨ (twiceRemainder = denominator ∧ quotient % 2 = 1)
    then 1 else 0

/-- What `candidate` returns. -/
structure Candidate where
  significand : ℕ
  exponent : ℤ
  distance : ℕ
  denominator : ℕ
  deriving DecidableEq, Repr

/-- The least and the greatest significand that `candidate` considers. -/
def bounds (low high numerator : ℕ) (inclusive : Bool) (least most : ℕ) : ℕ × ℕ :=
  let minimum := (low + numerator - 1) / numerator
  let minimum := if inclusive = false ∧ low % numerator = 0 then minimum + 1 else minimum
  let maximum := (high - if inclusive then 0 else 1) / numerator
  (if minimum < least then least else minimum, if most ≤ maximum then most - 1 else maximum)

/-- A significand moved between the bounds. -/
def clamp (significand minimum maximum : ℕ) : ℕ :=
  let significand := if significand < minimum then minimum else significand
  if maximum < significand then maximum else significand

/-- `candidate`, where `none` is `null`. -/
def candidate (value lower upper : ℕ) (inclusive : Bool) (digits : ℕ) (exponent : ℤ) :
    Throws (Option Candidate) := do
  let (numerator, denominator) ← decimalFactors exponent
  let least ← POW10 (digits - 1)
  let most ← POW10 digits
  let (minimum, maximum) :=
    bounds (lower * denominator) (upper * denominator) numerator inclusive least most
  if maximum < minimum then .ok none
  else
    let significand := clamp (nearestInteger (value * denominator) numerator) minimum maximum
    let difference : ℤ := significand * numerator - value * denominator
    .ok (some ⟨significand, exponent, difference.natAbs, denominator⟩)

/-- `closer`. -/
def closer : Option Candidate → Option Candidate → Option Candidate
  | none, right => right
  | left, none => left
  | some left, some right =>
    let difference : ℤ := left.distance * right.denominator - right.distance * left.denominator
    if difference < 0 then some left
    else if 0 < difference then some right
    else if left.significand % 2 = 0 then some left else some right

/-- `spelling`. -/
def spelling (significand : ℕ) (exponent : ℤ) : List Char :=
  let digits := Nat.toDigits 10 significand
  let magnitude : ℤ := digits.length + exponent - 1
  if magnitude < -4 ∨ 16 ≤ magnitude then
    let fraction := if digits.length = 1 then [] else '.' :: digits.drop 1
    digits.take 1 ++ fraction ++ ['e'] ++ [if magnitude < 0 then '-' else '+'] ++
      Numeral.pad2 magnitude.natAbs
  else if 0 ≤ exponent then digits ++ List.replicate exponent.toNat '0' ++ ['.', '0']
  else
    let point : ℤ := digits.length + exponent
    if 0 < point then digits.take point.toNat ++ ['.'] ++ digits.drop point.toNat
    else ['0', '.'] ++ List.replicate (-point).toNat '0' ++ digits

/-- The first loop of `canonicalFloat`: down to a power of ten that is not above the value. -/
def lowerMagnitude (value : ℕ) (magnitude : ℤ) : Throws ℤ :=
  match _h : comparePower value magnitude with
  | .error e => .error e
  | .ok .lt => lowerMagnitude value (magnitude - 1)
  | .ok _ => .ok magnitude
termination_by (magnitude + 341).toNat
decreasing_by
  have hrange : -340 ≤ magnitude := by
    by_contra hlow
    have hfactors : decimalFactors magnitude = .error .missing := by
      rw [decimalFactors, if_neg (by omega), POW10, if_neg (by omega)]
      rfl
    rw [comparePower, hfactors] at _h
    cases _h
  omega

/-- The second loop: up to the last power of ten that is not above the value. -/
def raiseMagnitude (value : ℕ) (magnitude : ℤ) : Throws ℤ :=
  match _h : comparePower value (magnitude + 1) with
  | .error e => .error e
  | .ok .lt => .ok magnitude
  | .ok _ => raiseMagnitude value (magnitude + 1)
termination_by (341 - magnitude).toNat
decreasing_by
  all_goals
    have hrange : magnitude + 1 ≤ 340 := by
      by_contra hhigh
      have hfactors : decimalFactors (magnitude + 1) = .error .missing := by
        rw [decimalFactors, if_pos (by omega), POW10, if_neg (by omega)]
        rfl
      rw [comparePower, hfactors] at _h
      cases _h
    omega

/-- The loop over the number of digits. -/
def search (exact lower upper : ℕ) (inclusive : Bool) (magnitude : ℤ) :
    List ℕ → Throws (ℕ × ℤ)
  | [] => .error .wire
  | digits :: more => do
    let exponent := magnitude - digits + 1
    let left ← candidate exact lower upper inclusive digits exponent
    let right ← candidate exact lower upper inclusive digits (exponent + 1)
    match closer left right with
    | some chosen => .ok (chosen.significand, chosen.exponent)
    | none => search exact lower upper inclusive magnitude more

/-- `canonicalFloat` of a finite number, from an estimate of its logarithm. -/
def canonicalFloat (estimate : ℕ → ℤ) (value : Binary64.Finite) : Throws (List Char) :=
  if value.bits = 0 then .ok (if value.neg then ['-', '0', '.', '0'] else ['0', '.', '0'])
  else do
    let bits := value.bits
    let exact := scaled bits
    let lower := (exact + scaled (bits - 1)) / 2
    let upper := (exact + scaled (bits + 1)) / 2
    let inclusive : Bool := bits % 2 = 0
    let magnitude ← lowerMagnitude exact (estimate bits)
    let magnitude ← raiseMagnitude exact magnitude
    let (significand, exponent) ←
      search exact lower upper inclusive magnitude ((List.range 17).map (· + 1))
    .ok ((if value.neg then ['-'] else []) ++ spelling significand exponent)

/-! ## Powers of ten in units -/

open Binary64 (value unit nearest middle attempt Around Above HasDigits)

theorem scaled_eq (bits : ℕ) : scaled bits = Binary64.scaled bits := by
  have hexponent : bits >>> 52 = bits / 2 ^ 52 := Nat.shiftRight_eq_div_pow _ _
  have hfraction : bits &&& (1 <<< 52 - 1) = bits % 2 ^ 52 := Nat.and_two_pow_sub_one_eq_mod _ 52
  unfold scaled Binary64.scaled
  rw [hexponent, hfraction]
  simp only [Nat.shiftLeft_eq, one_mul, pow_one, Nat.mul_comm]

theorem POW10_eq {index : ℤ} (h : 0 ≤ index ∧ index ≤ 340) : POW10 index = .ok (10 ^ index.toNat) :=
  if_pos h

/-- The two factors of a power of ten: a fraction that is worth that many units. -/
structure Scale (exponent : ℤ) (numerator denominator : ℕ) : Prop where
  factors : decimalFactors exponent = .ok (numerator, denominator)
  numerator_pos : 0 < numerator
  denominator_pos : 0 < denominator
  ratio : (numerator : ℚ) = denominator * (unit * 10 ^ exponent)

theorem cast_UNIT : (UNIT : ℚ) = unit := by
  rw [UNIT, Nat.shiftLeft_eq, one_mul, Nat.cast_pow, Nat.cast_ofNat]
  rfl

theorem UNIT_pos : 0 < UNIT := by
  rw [UNIT, Nat.shiftLeft_eq]
  exact Nat.mul_pos Nat.one_pos (Nat.pow_pos (by decide))

theorem exists_scale {e : ℤ} (h : -340 ≤ e ∧ e ≤ 340) :
    ∃ numerator denominator, Scale e numerator denominator := by
  by_cases hpos : 0 ≤ e
  · refine ⟨UNIT * 10 ^ e.toNat, 1, ?_, ?_, Nat.one_pos, ?_⟩
    · rw [decimalFactors, if_pos hpos, POW10_eq ⟨hpos, h.2⟩]
      rfl
    · exact Nat.mul_pos UNIT_pos (Nat.pow_pos (by decide))
    · obtain ⟨n, rfl⟩ := Int.eq_ofNat_of_zero_le hpos
      rw [Nat.cast_mul, cast_UNIT, Int.toNat_natCast, zpow_natCast]
      push_cast
      ring
  · refine ⟨UNIT, 10 ^ (-e).toNat, ?_, UNIT_pos, Nat.pow_pos (by decide), ?_⟩
    · rw [decimalFactors, if_neg hpos, POW10_eq ⟨by omega, by omega⟩]
      rfl
    · obtain ⟨n, hn⟩ := Int.eq_ofNat_of_zero_le (by omega : 0 ≤ -e)
      have hexponent : e = -(n : ℤ) := by omega
      rw [hexponent, neg_neg, Int.toNat_natCast, cast_UNIT, zpow_neg, zpow_natCast]
      push_cast
      field_simp

namespace Scale

variable {exponent : ℤ} {numerator denominator : ℕ} (h : Scale exponent numerator denominator)

include h

/-- A multiple of the power, compared with a number of units. -/
theorem le_iff (c w : ℕ) : c * numerator ≤ w * denominator ↔ (c : ℚ) * 10 ^ exponent ≤ w / unit := by
  have hden : (0 : ℚ) < denominator := by exact_mod_cast h.denominator_pos
  rw [le_div_iff₀ Binary64.unit_pos, ← Nat.cast_le (α := ℚ), Nat.cast_mul, Nat.cast_mul, h.ratio]
  have hleft : (c : ℚ) * (denominator * (unit * 10 ^ exponent)) =
      c * 10 ^ exponent * unit * denominator := by ring
  rw [hleft, mul_le_mul_iff_left₀ hden]

theorem ge_iff (c w : ℕ) : w * denominator ≤ c * numerator ↔ w / unit ≤ (c : ℚ) * 10 ^ exponent := by
  have hden : (0 : ℚ) < denominator := by exact_mod_cast h.denominator_pos
  rw [div_le_iff₀ Binary64.unit_pos, ← Nat.cast_le (α := ℚ), Nat.cast_mul, Nat.cast_mul, h.ratio]
  have hright : (c : ℚ) * (denominator * (unit * 10 ^ exponent)) =
      c * 10 ^ exponent * unit * denominator := by ring
  rw [hright, mul_le_mul_iff_left₀ hden]

theorem lt_iff (c w : ℕ) : c * numerator < w * denominator ↔ (c : ℚ) * 10 ^ exponent < w / unit := by
  rw [← not_le, ← not_le, h.ge_iff]

theorem gt_iff (c w : ℕ) : w * denominator < c * numerator ↔ w / unit < (c : ℚ) * 10 ^ exponent := by
  rw [← not_le, ← not_le, h.le_iff]

/-- The distance of a multiple from a number of units. -/
theorem distance_eq (c w : ℕ) :
    ((((c : ℤ) * numerator - w * denominator).natAbs : ℕ) : ℚ) =
      denominator * unit * |(c : ℚ) * 10 ^ exponent - w / unit| := by
  have hden : (0 : ℚ) < denominator := by exact_mod_cast h.denominator_pos
  have hunit := Binary64.unit_pos
  have hdifference : ((c : ℚ) * numerator - w * denominator) =
      denominator * unit * (c * 10 ^ exponent - w / unit) := by
    rw [h.ratio]
    field_simp
  rw [Nat.cast_natAbs]
  push_cast
  rw [hdifference, abs_mul, abs_of_pos (mul_pos hden hunit)]

end Scale

/-- `comparePower` compares a number of units with a power of ten. -/
theorem comparePower_eq {w : ℕ} {exponent : ℤ} (h : -340 ≤ exponent ∧ exponent ≤ 340) :
    ∃ o, comparePower w exponent = .ok o ∧ (o = .lt ↔ (w : ℚ) / unit < 10 ^ exponent) := by
  obtain ⟨numerator, denominator, hscale⟩ := exists_scale h
  have hiff := hscale.gt_iff 1 w
  rw [one_mul, Nat.cast_one, one_mul] at hiff
  refine ⟨_, by rw [comparePower, hscale.factors]; rfl, ?_⟩
  rw [← hiff]
  split_ifs with hlt heq
  · exact ⟨fun _ => by omega, fun _ => rfl⟩
  · exact ⟨nofun, fun hw => by omega⟩
  · exact ⟨nofun, fun hw => by omega⟩

/-! ## The magnitude -/

section

variable {b : ℕ} (hb : 0 < b) (hlt : b < 2047 * 2 ^ 52)

/-- The decade of a value. -/
theorem log_iff {b : ℕ} (hb : 0 < b) (exponent : ℤ) :
    value b < 10 ^ exponent ↔ Int.log 10 (value b) < exponent := by
  have hbase : 1 < 10 := by norm_num
  have hiff := Int.lt_zpow_iff_log_lt hbase (Binary64.value_pos hb) (x := exponent)
  exact_mod_cast hiff

include hlt in
theorem value_lt : value b < 10 ^ (309 : ℤ) := by
  have hmono := Binary64.scaled_strictMono hlt
  have htop : Binary64.scaled (2047 * 2 ^ 52) ≤ 10 ^ 309 * UNIT := by decide +kernel
  have hnat : Binary64.scaled b < 10 ^ 309 * UNIT := hmono.trans_le htop
  have hcast : (Binary64.scaled b : ℚ) < 10 ^ 309 * unit := by
    rw [← cast_UNIT]
    exact_mod_cast hnat
  rw [value, div_lt_iff₀ Binary64.unit_pos]
  exact hcast

include hb in
theorem value_ge : (10 : ℚ) ^ (-324 : ℤ) ≤ value b := by
  have hone : 2 ≤ Binary64.scaled b := by
    have hmono := Binary64.scaled_strictMono.monotone hb
    have htwo : Binary64.scaled (Nat.succ 0) = 2 := by decide
    omega
  have hunit : UNIT ≤ 2 * 10 ^ 324 := by decide +kernel
  have hnat : UNIT ≤ Binary64.scaled b * 10 ^ 324 := hunit.trans (Nat.mul_le_mul_right _ hone)
  have hcast : unit ≤ (Binary64.scaled b : ℚ) * 10 ^ 324 := by
    rw [← cast_UNIT]
    exact_mod_cast hnat
  have hpow : (0 : ℚ) < 10 ^ 324 := by positivity
  have hneg : (10 : ℚ) ^ (-324 : ℤ) = 1 / 10 ^ 324 := by
    rw [zpow_neg, one_div]
    rfl
  rw [hneg, value, div_le_div_iff₀ hpow Binary64.unit_pos, one_mul]
  exact hcast

include hb hlt in
theorem log_range : -324 ≤ Int.log 10 (value b) ∧ Int.log 10 (value b) ≤ 308 := by
  have hlow := (log_iff hb (-324)).not.mp (not_lt.mpr (value_ge hb))
  have hhigh := (log_iff hb 309).mp (value_lt hlt)
  omega

include hb hlt

/-- The first loop ends, at a magnitude that is not above the value's, or at the estimate. -/
theorem lowerMagnitude_eq (magnitude : ℤ) (hrange : -340 ≤ magnitude ∧ magnitude ≤ 340) :
    lowerMagnitude (Binary64.scaled b) magnitude =
      .ok (min magnitude (Int.log 10 (value b))) := by
  have hlog := log_range hb hlt
  obtain ⟨o, hcompare, ho⟩ := comparePower_eq (w := Binary64.scaled b) hrange
  have hiff : o = .lt ↔ Int.log 10 (value b) < magnitude := ho.trans (log_iff hb magnitude)
  rw [lowerMagnitude]
  split
  · next e herror =>
    rw [hcompare] at herror
    cases herror
  · next hok =>
    rw [hcompare] at hok
    have hless := hiff.mp (Except.ok.inj hok)
    rw [lowerMagnitude_eq (magnitude - 1) ⟨by omega, by omega⟩, min_eq_right (by omega),
      min_eq_right (by omega)]
  · next hnot hok =>
    rw [hcompare] at hok
    have hge : ¬Int.log 10 (value b) < magnitude := by
      rw [← hiff, Except.ok.inj hok]
      exact hnot
    rw [min_eq_left (by omega)]
termination_by (magnitude + 341).toNat
decreasing_by omega

/-- The second loop ends at the value's own magnitude. -/
theorem raiseMagnitude_eq (magnitude : ℤ) (hlow : -341 ≤ magnitude)
    (hle : magnitude ≤ Int.log 10 (value b)) :
    raiseMagnitude (Binary64.scaled b) magnitude = .ok (Int.log 10 (value b)) := by
  have hlog := log_range hb hlt
  have hrange : -340 ≤ magnitude + 1 ∧ magnitude + 1 ≤ 340 := ⟨by omega, by omega⟩
  obtain ⟨o, hcompare, ho⟩ := comparePower_eq (w := Binary64.scaled b) hrange
  have hiff : o = .lt ↔ Int.log 10 (value b) < magnitude + 1 := ho.trans (log_iff hb _)
  rw [raiseMagnitude]
  split
  · next e herror =>
    rw [hcompare] at herror
    cases herror
  · next hok =>
    rw [hcompare] at hok
    have hless := hiff.mp (Except.ok.inj hok)
    exact congrArg _ (by omega)
  · next hnot hok =>
    rw [hcompare] at hok
    have hge : ¬Int.log 10 (value b) < magnitude + 1 := by
      rw [← hiff, Except.ok.inj hok]
      exact hnot
    exact raiseMagnitude_eq (magnitude + 1) (by omega) (by omega)
termination_by (341 - magnitude).toNat
decreasing_by omega

end

/-! ## The bounds of a candidate -/

/-- Inside the interval, or on its ends where these count. -/
def Inside (low high : ℕ) (inclusive : Bool) (x : ℕ) : Prop :=
  if inclusive then low ≤ x ∧ x ≤ high else low < x ∧ x < high

theorem Inside.between {low high x y z : ℕ} {inclusive : Bool} (hx : Inside low high inclusive x)
    (hz : Inside low high inclusive z) (hxy : x ≤ y) (hyz : y ≤ z) : Inside low high inclusive y := by
  unfold Inside at *
  split_ifs at * <;> omega

/-- **The bounds** are those of the significands with their digits inside the interval. -/
theorem mem_bounds {low high numerator least most c : ℕ} {inclusive : Bool} (hnumerator : 0 < numerator)
    (hhigh : 0 < high) (hmost : 0 < most) :
    (bounds low high numerator inclusive least most).1 ≤ c ∧
        c ≤ (bounds low high numerator inclusive least most).2 ↔
      (least ≤ c ∧ c < most) ∧ Inside low high inclusive (c * numerator) := by
  have hceil : (low + numerator - 1) / numerator ≤ c ↔ low ≤ c * numerator := by
    rw [← Nat.lt_succ_iff, Nat.div_lt_iff_lt_mul hnumerator, Nat.succ_mul]
    omega
  have hexact : low % numerator = 0 → (c * numerator = low ↔ c = (low + numerator - 1) / numerator) := by
    intro hmod
    obtain ⟨k, rfl⟩ := Nat.dvd_of_mod_eq_zero hmod
    have hk : (numerator * k + numerator - 1) / numerator = k := by
      rw [Nat.add_sub_assoc hnumerator, Nat.mul_add_div hnumerator,
        Nat.div_eq_of_lt (by omega), Nat.add_zero]
    rw [hk, mul_comm numerator]
    exact Nat.mul_left_inj hnumerator.ne'
  have hdivides : low % numerator ≠ 0 → c * numerator ≠ low := by
    intro hmod heq
    rw [← heq] at hmod
    exact hmod (Nat.mul_mod_left _ _)
  have hminimum : (if inclusive = false ∧ low % numerator = 0 then
      (low + numerator - 1) / numerator + 1 else (low + numerator - 1) / numerator) ≤ c ↔
      if inclusive then low ≤ c * numerator else low < c * numerator := by
    cases inclusive with
    | true => simpa using hceil
    | false =>
      by_cases hmod : low % numerator = 0
      · have := hexact hmod
        simp only [hmod, and_self, if_true, Bool.false_eq_true, if_false]
        omega
      · have := hdivides hmod
        simp only [hmod, and_false, if_false, Bool.false_eq_true]
        omega
  have hmaximum : c ≤ (high - if inclusive then 0 else 1) / numerator ↔
      if inclusive then c * numerator ≤ high else c * numerator < high := by
    rw [Nat.le_div_iff_mul_le hnumerator]
    cases inclusive with
    | true => simp
    | false =>
      simp only [Bool.false_eq_true, if_false]
      omega
  have hclampLow : ∀ m : ℕ, (if m < least then least else m) ≤ c ↔ least ≤ c ∧ m ≤ c := by
    intro m
    split_ifs <;> omega
  have hclampHigh : ∀ m : ℕ, c ≤ (if most ≤ m then most - 1 else m) ↔ c < most ∧ c ≤ m := by
    intro m
    split_ifs <;> omega
  unfold bounds
  dsimp only
  rw [hclampLow, hclampHigh, hminimum, hmaximum, Inside]
  cases inclusive with
  | true =>
    simp only [if_true]
    exact and_and_and_comm
  | false =>
    simp only [Bool.false_eq_true, if_false]
    exact and_and_and_comm

/-- The integer nearest to a fraction, ties to the even one. -/
theorem nearestInteger_eq {n m lo : ℕ} (hlow : lo * m ≤ n) (hhigh : n < (lo + 1) * m) :
    nearestInteger n m =
      if (lo + 1) * m - n < n - lo * m ∨ ((lo + 1) * m - n = n - lo * m ∧ lo % 2 = 1) then lo + 1
      else lo := by
  have hpos : 0 < m := by
    by_contra hzero
    rw [Nat.eq_zero_of_not_pos hzero] at hhigh
    omega
  have hquotient : n / m = lo :=
    Nat.div_eq_of_lt_le hlow hhigh
  have hremainder : n % m = n - lo * m := by
    rw [Nat.mod_eq_sub_mul_div, hquotient, mul_comm]
  have hsucc : (lo + 1) * m = lo * m + m := Nat.succ_mul lo m
  unfold nearestInteger
  rw [hquotient, hremainder]
  rw [hsucc] at hhigh ⊢
  dsimp only
  by_cases hup : lo * m + m - n < n - lo * m ∨ (lo * m + m - n = n - lo * m ∧ lo % 2 = 1)
  · rw [if_pos hup, if_pos (by omega)]
  · rw [if_neg hup, if_neg (by omega), Nat.add_zero]

/-- A significand at an exponent, as a candidate. -/
def made (w c : ℕ) (exponent : ℤ) (numerator denominator : ℕ) : Candidate :=
  ⟨c, exponent, ((c : ℤ) * numerator - w * denominator).natAbs, denominator⟩

/-! ## Candidates -/

section

variable {c minimum maximum : ℕ}

theorem clamp_of_mem (h : minimum ≤ c ∧ c ≤ maximum) : clamp c minimum maximum = c := by
  unfold clamp
  dsimp only
  split_ifs <;> omega

theorem clamp_of_ge (h : minimum ≤ maximum) (hc : maximum ≤ c) : clamp c minimum maximum = maximum := by
  unfold clamp
  dsimp only
  split_ifs <;> omega

theorem clamp_of_le (h : minimum ≤ maximum) (hc : c ≤ minimum) : clamp c minimum maximum = minimum := by
  unfold clamp
  dsimp only
  split_ifs <;> omega

end

/-- The half-way points around a pattern, in units. -/
def lowerBound (b : ℕ) : ℕ := (Binary64.scaled b + Binary64.scaled (b - 1)) / 2

def upperBound (b : ℕ) : ℕ := (Binary64.scaled b + Binary64.scaled (b + 1)) / 2

theorem two_dvd_scaled (b : ℕ) : 2 ∣ Binary64.scaled b := by
  unfold Binary64.scaled
  split_ifs with h
  · exact ⟨_, rfl⟩
  · exact Dvd.dvd.mul_left (dvd_pow_self 2 h) _

theorem cast_half_sum (a b : ℕ) : (((Binary64.scaled a + Binary64.scaled b) / 2 : ℕ) : ℚ) / unit =
    ((Binary64.scaled a : ℚ) + Binary64.scaled b) / (2 * unit) := by
  obtain ⟨k, hk⟩ := dvd_add (two_dvd_scaled a) (two_dvd_scaled b)
  have hsum : (Binary64.scaled a : ℚ) + Binary64.scaled b = 2 * k := by exact_mod_cast hk
  rw [hk, hsum, Nat.mul_div_cancel_left k Nat.two_pos, mul_div_mul_left _ _ two_ne_zero]

theorem upperBound_eq (b : ℕ) : (upperBound b : ℚ) / unit = middle b := cast_half_sum b (b + 1)

theorem lowerBound_eq (b : ℕ) : (lowerBound (b + 1) : ℚ) / unit = middle b := by
  rw [lowerBound, cast_half_sum, Nat.add_sub_cancel, middle, add_comm]

section

variable {b : ℕ} (hb : 0 < b) (hlt : b < 2047 * 2 ^ 52)

include hb hlt

/-- **What rounds to a pattern** is inside its interval. -/
theorem rounds_iff {exponent : ℤ} {numerator denominator : ℕ}
    (hscale : Scale exponent numerator denominator) (c : ℕ) :
    nearest (c * 10 ^ exponent) = b ↔ Inside (lowerBound b * denominator) (upperBound b * denominator)
      (decide (b % 2 = 0)) (c * numerator) := by
  obtain ⟨a, rfl⟩ : ∃ a, b = a + 1 := ⟨b - 1, by omega⟩
  have hpred : ∀ {p : ℕ → Prop}, (∀ i, i + 1 = a + 1 → p i) ↔ p a :=
    fun {p} => ⟨fun h => h a rfl, fun h i hi => by rwa [Nat.succ_injective hi]⟩
  rw [Binary64.nearest_iff (by omega), hpred]
  have hlow := hscale.ge_iff c (lowerBound (a + 1))
  have hlow' := hscale.gt_iff c (lowerBound (a + 1))
  have hhigh := hscale.le_iff c (upperBound (a + 1))
  have hhigh' := hscale.lt_iff c (upperBound (a + 1))
  rw [lowerBound_eq] at hlow hlow'
  rw [upperBound_eq] at hhigh hhigh'
  unfold Inside
  simp only [Binary64.roundsBy, Bool.or_eq_true, decide_eq_true_eq, Bool.and_eq_true, hlow, hlow',
    hhigh, hhigh', not_or, not_lt, not_and]
  by_cases heven : (a + 1) % 2 = 0
  · have hodd : ¬a % 2 = 0 := by omega
    rw [if_pos heven]
    constructor
    · intro hall
      obtain ⟨hle, hge, _⟩ := hall
      refine ⟨hge, ?_⟩
      rcases hle with hle | ⟨hle, -⟩
      · exact hle.le
      · exact hle.le
    · intro hall
      obtain ⟨hge, hle⟩ := hall
      refine ⟨?_, hge, fun _ => hodd⟩
      rcases hle.lt_or_eq with hle | hle
      · exact .inl hle
      · exact .inr ⟨hle, heven⟩
  · have hpred' : a % 2 = 0 := by omega
    rw [if_neg heven]
    constructor
    · intro hall
      obtain ⟨hle, hge, hne⟩ := hall
      refine ⟨lt_of_le_of_ne hge fun heq => hne heq.symm hpred', ?_⟩
      rcases hle with hle | ⟨-, hle⟩
      · exact hle
      · exact absurd hle heven
    · intro hall
      obtain ⟨hge, hle⟩ := hall
      exact ⟨.inl hle, hge.le, fun heq => absurd heq hge.ne'⟩

/-- What `candidate` computes, with its bounds described by what they bound. -/
theorem candidate_eq {d : ℕ} (hd : 0 < d ∧ d ≤ 17) {exponent : ℤ} {numerator denominator : ℕ}
    (hscale : Scale exponent numerator denominator) : ∃ minimum maximum,
      (∀ c, minimum ≤ c ∧ c ≤ maximum ↔ HasDigits d c ∧ nearest (c * 10 ^ exponent) = b) ∧
      candidate (Binary64.scaled b) (lowerBound b) (upperBound b) (decide (b % 2 = 0)) d exponent =
        .ok (if maximum < minimum then none else
          some (made (Binary64.scaled b) (clamp (nearestInteger (Binary64.scaled b * denominator) numerator)
            minimum maximum) exponent numerator denominator)) := by
  have hupper : 0 < upperBound b * denominator := by
    refine Nat.mul_pos ?_ hscale.denominator_pos
    have hmono := Binary64.scaled_strictMono (Nat.lt_succ_self b)
    have hpos := Binary64.scaled_strictMono hb
    have hdvd := two_dvd_scaled b
    rw [Binary64.scaled_zero] at hpos
    unfold upperBound
    omega
  have hleast : POW10 ((d : ℤ) - 1) = .ok (10 ^ (d - 1)) := by
    rw [POW10_eq ⟨by omega, by omega⟩]
    congr 2
    omega
  have hmost : POW10 (d : ℤ) = .ok (10 ^ d) := POW10_eq ⟨by omega, by omega⟩
  obtain ⟨limits, hlimits⟩ : ∃ limits, limits = bounds (lowerBound b * denominator)
      (upperBound b * denominator) numerator (decide (b % 2 = 0)) (10 ^ (d - 1)) (10 ^ d) := ⟨_, rfl⟩
  refine ⟨limits.1, limits.2, fun c => ?_, ?_⟩
  · rw [rounds_iff hb hlt hscale, hlimits]
    exact mem_bounds hscale.numerator_pos hupper
      (Nat.pow_pos (by decide))
  · simp only [candidate, hscale.factors, hleast, hmost, bind, Except.bind, ← hlimits]
    split_ifs <;> rfl

omit hb hlt in
/-- The two multiples around a number of units, by which is nearer. -/
theorem near_iff {exponent : ℤ} {numerator denominator lo w : ℕ}
    (hscale : Scale exponent numerator denominator) (hlow : lo * numerator ≤ w * denominator)
    (hhigh : w * denominator < (lo + 1) * numerator) :
    ((lo + 1) * numerator - w * denominator < w * denominator - lo * numerator ↔
      ((lo + 1 : ℕ) : ℚ) * 10 ^ exponent - w / unit < w / unit - lo * 10 ^ exponent) ∧
    ((lo + 1) * numerator - w * denominator = w * denominator - lo * numerator ↔
      ((lo + 1 : ℕ) : ℚ) * 10 ^ exponent - w / unit = w / unit - lo * 10 ^ exponent) := by
  have hfactor : (0 : ℚ) < denominator * unit :=
    mul_pos (by exact_mod_cast hscale.denominator_pos) Binary64.unit_pos
  have hunit := Binary64.unit_pos.ne'
  have habove : (((lo + 1) * numerator - w * denominator : ℕ) : ℚ) =
      denominator * unit * (((lo + 1 : ℕ) : ℚ) * 10 ^ exponent - w / unit) := by
    rw [Nat.cast_sub hhigh.le, Nat.cast_mul, Nat.cast_mul, hscale.ratio]
    field_simp
  have hbelow : ((w * denominator - lo * numerator : ℕ) : ℚ) =
      denominator * unit * (w / unit - lo * 10 ^ exponent) := by
    rw [Nat.cast_sub hlow, Nat.cast_mul, Nat.cast_mul, hscale.ratio]
    field_simp
  constructor
  · rw [← Nat.cast_lt (α := ℚ), habove, hbelow, mul_lt_mul_iff_right₀ hfactor]
  · rw [← Nat.cast_inj (R := ℚ), habove, hbelow, mul_right_inj' hfactor.ne']

/-- **At the exponent of the value** the candidate is one of the two multiples. -/
theorem candidate_here {d lo : ℕ} {exponent : ℤ} {numerator denominator : ℕ} (hd : 0 < d ∧ d ≤ 17)
    (haround : Around b d lo exponent) (hscale : Scale exponent numerator denominator) :
    candidate (Binary64.scaled b) (lowerBound b) (upperBound b) (decide (b % 2 = 0)) d exponent =
      .ok (if (nearest ((lo + 1 : ℕ) * 10 ^ exponent) = b ∧ lo + 1 < 10 ^ d) ∧
          (nearest (lo * 10 ^ exponent) ≠ b ∨ Above b lo exponent) then
        some (made (Binary64.scaled b) (lo + 1) exponent numerator denominator)
      else if nearest (lo * 10 ^ exponent) = b then
        some (made (Binary64.scaled b) lo exponent numerator denominator)
      else none) := by
  have hself := Binary64.nearest_value_self (b := b) (by omega)
  obtain ⟨minimum, maximum, hmem, hcandidate⟩ := candidate_eq hb hlt hd hscale
  have hlow : lo * numerator ≤ Binary64.scaled b * denominator := (hscale.le_iff _ _).mpr haround.le
  have hhigh : Binary64.scaled b * denominator < (lo + 1) * numerator :=
    (hscale.gt_iff _ _).mpr haround.lt
  obtain ⟨hless, hequal⟩ := near_iff hscale hlow hhigh
  have hnearest : nearestInteger (Binary64.scaled b * denominator) numerator =
      if Above b lo exponent then lo + 1 else lo := by
    rw [nearestInteger_eq hlow hhigh]
    simp only [hless, hequal]
    rfl
  have hmemLo : minimum ≤ lo ∧ lo ≤ maximum ↔ nearest (lo * 10 ^ exponent) = b := by
    rw [hmem]
    exact and_iff_right haround.digits
  have hmemHi : minimum ≤ lo + 1 ∧ lo + 1 ≤ maximum ↔
      nearest ((lo + 1 : ℕ) * 10 ^ exponent) = b ∧ lo + 1 < 10 ^ d := by
    rw [hmem, and_comm]
    exact and_congr_right fun _ => ⟨fun h => h.2, fun h => ⟨by have := haround.digits.1; omega, h⟩⟩
  rw [hcandidate]
  congr 1
  by_cases hempty : maximum < minimum
  · rw [if_pos hempty, if_neg, if_neg]
    · intro hrounds
      have hin := hmemLo.mpr hrounds
      omega
    · intro hrounds
      have hin := hmemHi.mpr hrounds.1
      omega
  · -- some significand rounds back, so one of the two multiples does
    have hsome : (minimum ≤ lo ∧ lo ≤ maximum) ∨ (minimum ≤ lo + 1 ∧ lo + 1 ≤ maximum) := by
      obtain ⟨hdigits, hrounds⟩ := (hmem minimum).mp ⟨le_rfl, by omega⟩
      have hten := Binary64.ten_zpow_pos exponent
      rcases Nat.lt_or_ge lo minimum with hgt | hle
      · right
        have hcast : ((lo + 1 : ℕ) : ℚ) * 10 ^ exponent ≤ minimum * 10 ^ exponent :=
          mul_le_mul_of_nonneg_right (by exact_mod_cast hgt) hten.le
        exact hmemHi.mpr ⟨Binary64.nearest_between (by omega) hself hrounds haround.lt.le hcast,
          by have := hdigits.2; omega⟩
      · left
        have hcast : (minimum : ℚ) * 10 ^ exponent ≤ lo * 10 ^ exponent :=
          mul_le_mul_of_nonneg_right (by exact_mod_cast hle) hten.le
        exact hmemLo.mpr (Binary64.nearest_between (by omega) hrounds hself hcast haround.le)
    rw [if_neg hempty, hnearest]
    by_cases hhi : minimum ≤ lo + 1 ∧ lo + 1 ≤ maximum
    · by_cases hup : nearest (lo * 10 ^ exponent) ≠ b ∨ Above b lo exponent
      · have hclamp : clamp (if Above b lo exponent then lo + 1 else lo) minimum maximum = lo + 1 := by
          by_cases habove : Above b lo exponent
          · rw [if_pos habove, clamp_of_mem hhi]
          · have hlo := hmemLo.not.mpr (hup.resolve_right habove)
            have hminimum : minimum = lo + 1 := by omega
            rw [if_neg habove, clamp_of_le (by omega) (by omega), hminimum]
        rw [hclamp, if_pos ⟨hmemHi.mp hhi, hup⟩]
      · rw [not_or, not_not] at hup
        rw [if_neg hup.2, clamp_of_mem (hmemLo.mpr hup.1), if_neg, if_pos hup.1]
        exact fun h => h.2.elim (absurd hup.1) hup.2
    · have hlo := hsome.resolve_right hhi
      have hclamp : clamp (if Above b lo exponent then lo + 1 else lo) minimum maximum = lo := by
        by_cases habove : Above b lo exponent
        · have hmaximum : maximum = lo := by omega
          rw [if_pos habove, clamp_of_ge (by omega) (by omega), hmaximum]
        · rw [if_neg habove, clamp_of_mem hlo]
      rw [hclamp, if_neg fun h => hhi (hmemHi.mpr h.1), if_pos (hmemLo.mp hlo)]

omit hb hlt in
/-- One exponent higher, the power of ten above the value has a digit less. -/
theorem power_eq {d : ℕ} (hd : 0 < d) (exponent : ℤ) :
    ((10 ^ (d - 1) : ℕ) : ℚ) * 10 ^ (exponent + 1) = (10 ^ d : ℕ) * 10 ^ exponent := by
  have hsucc : (10 : ℚ) ^ d = 10 ^ (d - 1) * 10 := by
    rw [← pow_succ]
    congr 1
    omega
  rw [zpow_add_one₀ (by norm_num)]
  push_cast
  rw [hsucc]
  ring

/-- **One exponent higher** the candidate is the power of ten above the value. -/
theorem candidate_higher {d lo : ℕ} {exponent : ℤ} {numerator denominator : ℕ} (hd : 0 < d ∧ d ≤ 17)
    (haround : Around b d lo exponent) (hscale : Scale (exponent + 1) numerator denominator) :
    candidate (Binary64.scaled b) (lowerBound b) (upperBound b) (decide (b % 2 = 0)) d (exponent + 1) =
      .ok (if nearest ((10 ^ d : ℕ) * 10 ^ exponent) = b then
        some (made (Binary64.scaled b) (10 ^ (d - 1)) (exponent + 1) numerator denominator)
      else none) := by
  have hself := Binary64.nearest_value_self (b := b) (by omega)
  obtain ⟨minimum, maximum, hmem, hcandidate⟩ := candidate_eq hb hlt hd hscale
  have hpower := power_eq hd.1 exponent
  have hbelow : value b < (10 ^ d : ℕ) * 10 ^ exponent := by
    refine haround.lt.trans_le (mul_le_mul_of_nonneg_right ?_ (Binary64.ten_zpow_pos exponent).le)
    exact_mod_cast haround.digits.2
  have hdigits : HasDigits d (10 ^ (d - 1)) :=
    ⟨le_rfl, Nat.pow_lt_pow_right (by norm_num) (by omega)⟩
  have hmemTen : minimum ≤ 10 ^ (d - 1) ∧ 10 ^ (d - 1) ≤ maximum ↔
      nearest ((10 ^ d : ℕ) * 10 ^ exponent) = b := by
    rw [hmem, hpower]
    exact and_iff_right hdigits
  rw [hcandidate]
  congr 1
  by_cases hempty : maximum < minimum
  · rw [if_pos hempty, if_neg]
    intro hrounds
    have hin := hmemTen.mpr hrounds
    omega
  · obtain ⟨hfirst, hrounds⟩ := (hmem minimum).mp ⟨le_rfl, by omega⟩
    have hcast : ((10 ^ d : ℕ) : ℚ) * 10 ^ exponent ≤ minimum * 10 ^ (exponent + 1) := by
      rw [← hpower]
      exact mul_le_mul_of_nonneg_right (by exact_mod_cast hfirst.1) (Binary64.ten_zpow_pos _).le
    have hten := Binary64.nearest_between (by omega) hself hrounds hbelow.le hcast
    have hminimum : minimum = 10 ^ (d - 1) := le_antisymm (hmemTen.mpr hten).1 hfirst.1
    have hnearest : nearestInteger (Binary64.scaled b * denominator) numerator ≤ 10 ^ (d - 1) := by
      have hlt' : Binary64.scaled b * denominator < 10 ^ (d - 1) * numerator := by
        rw [hscale.gt_iff, hpower]
        exact hbelow
      have hquotient := (Nat.div_lt_iff_lt_mul hscale.numerator_pos).mpr hlt'
      unfold nearestInteger
      dsimp only
      split_ifs <;> omega
    rw [if_neg hempty, if_pos hten, clamp_of_le (by omega) (hnearest.trans hminimum.ge), hminimum]

omit hb hlt in
/-- `closer` compares the distances of the decimals. -/
theorem closer_made {w c c' : ℕ} {e e' : ℤ} {n m n' m' : ℕ} (h : Scale e n m) (h' : Scale e' n' m') :
    closer (some (made w c e n m)) (some (made w c' e' n' m')) =
      if |(c : ℚ) * 10 ^ e - w / unit| < |(c' : ℚ) * 10 ^ e' - w / unit| then some (made w c e n m)
      else if |(c' : ℚ) * 10 ^ e' - w / unit| < |(c : ℚ) * 10 ^ e - w / unit| then
        some (made w c' e' n' m')
      else if c % 2 = 0 then some (made w c e n m) else some (made w c' e' n' m') := by
  have hfactor : (0 : ℚ) < m * m' * unit :=
    mul_pos (mul_pos (by exact_mod_cast h.denominator_pos) (by exact_mod_cast h'.denominator_pos))
      Binary64.unit_pos
  have hleft : ((((c : ℤ) * n - w * m).natAbs * m' : ℕ) : ℚ) =
      m * m' * unit * |(c : ℚ) * 10 ^ e - w / unit| := by
    rw [Nat.cast_mul, h.distance_eq]
    ring
  have hright : ((((c' : ℤ) * n' - w * m').natAbs * m : ℕ) : ℚ) =
      m * m' * unit * |(c' : ℚ) * 10 ^ e' - w / unit| := by
    rw [Nat.cast_mul, h'.distance_eq]
    ring
  have hless : ((c : ℤ) * n - w * m).natAbs * m' < ((c' : ℤ) * n' - w * m').natAbs * m ↔
      |(c : ℚ) * 10 ^ e - w / unit| < |(c' : ℚ) * 10 ^ e' - w / unit| := by
    rw [← Nat.cast_lt (α := ℚ), hleft, hright, mul_lt_mul_iff_right₀ hfactor]
  have hmore : ((c' : ℤ) * n' - w * m').natAbs * m < ((c : ℤ) * n - w * m).natAbs * m' ↔
      |(c' : ℚ) * 10 ^ e' - w / unit| < |(c : ℚ) * 10 ^ e - w / unit| := by
    rw [← Nat.cast_lt (α := ℚ), hleft, hright, mul_lt_mul_iff_right₀ hfactor]
  simp only [← hless, ← hmore]
  unfold closer made
  dsimp only
  by_cases hlt : ((c : ℤ) * n - w * m).natAbs * m' < ((c' : ℤ) * n' - w * m').natAbs * m
  · rw [if_pos hlt, if_pos]
    exact sub_neg.mpr (by exact_mod_cast hlt)
  · rw [if_neg hlt, if_neg fun h => hlt (by exact_mod_cast sub_neg.mp h)]
    by_cases hgt : ((c' : ℤ) * n' - w * m').natAbs * m < ((c : ℤ) * n - w * m).natAbs * m'
    · rw [if_pos hgt, if_pos]
      exact sub_pos.mpr (by exact_mod_cast hgt)
    · rw [if_neg hgt, if_neg fun h => hgt (by exact_mod_cast sub_pos.mp h)]

/-- The decimal of a candidate. -/
def Candidate.decimal (k : Candidate) : ℕ × ℤ := (k.significand, k.exponent)

/-- **Both candidates together** give what an attempt gives. -/
theorem chosen_eq {d lo : ℕ} {e : ℤ} (hd : 0 < d ∧ d ≤ 17) (haround : Around b d lo e)
    (he : -340 ≤ e ∧ e + 1 ≤ 340) : ∃ left right,
      candidate (Binary64.scaled b) (lowerBound b) (upperBound b) (decide (b % 2 = 0)) d e = .ok left ∧
      candidate (Binary64.scaled b) (lowerBound b) (upperBound b) (decide (b % 2 = 0)) d (e + 1) =
        .ok right ∧
      (closer left right).map Candidate.decimal = attempt b d := by
  obtain ⟨n, m, hscale⟩ := exists_scale (e := e) ⟨he.1, by omega⟩
  obtain ⟨n', m', hscale'⟩ := exists_scale (e := e + 1) ⟨by omega, he.2⟩
  refine ⟨_, _, candidate_here hb hlt hd haround hscale, candidate_higher hb hlt hd haround hscale', ?_⟩
  have hself := Binary64.nearest_value_self (b := b) (by omega)
  have hpower := power_eq hd.1 e
  have hten := Binary64.ten_zpow_pos e
  have hvalue : (Binary64.scaled b : ℚ) / unit = value b := rfl
  have hbelow : |(lo : ℚ) * 10 ^ e - value b| = value b - lo * 10 ^ e := by
    rw [abs_sub_comm, abs_of_nonneg (sub_nonneg.mpr haround.le)]
  have habove : |((lo + 1 : ℕ) : ℚ) * 10 ^ e - value b| = (lo + 1 : ℕ) * 10 ^ e - value b :=
    abs_of_nonneg (sub_nonneg.mpr haround.lt.le)
  rw [Binary64.attempt_eq haround]
  by_cases hcarry : lo + 1 = 10 ^ d
  · -- the multiple above is the power of ten
    have hupper : Binary64.upper d lo e = (10 ^ (d - 1), e + 1) := if_pos hcarry
    rw [if_neg fun h => h.1.2.ne hcarry, hupper, ← hcarry]
    rw [← hcarry] at hpower
    by_cases hhi : nearest ((lo + 1 : ℕ) * 10 ^ e) = b
    · by_cases hlo : nearest (lo * 10 ^ e) = b
      · rw [if_pos hlo, if_pos hhi, closer_made hscale hscale', hvalue, hpower, hbelow, habove]
        by_cases hup : Above b lo e
        · have hnear := hup
          rcases hnear with hnear | ⟨htie, hodd⟩
          · rw [if_neg hnear.le.not_gt, if_pos hnear, if_pos ⟨hhi, .inr hup⟩]
            rfl
          · rw [if_neg htie.le.not_gt, if_neg htie.ge.not_gt, if_neg (by omega),
              if_pos ⟨hhi, .inr hup⟩]
            rfl
        · have hnot : ¬(nearest ((lo + 1 : ℕ) * 10 ^ e) = b ∧
              (nearest (lo * 10 ^ e) ≠ b ∨ Above b lo e)) :=
            fun h => h.2.elim (fun h => h hlo) hup
          unfold Binary64.Above at hup
          rw [not_or, not_and, not_lt] at hup
          rcases hup.1.lt_or_eq with hless | htie
          · rw [if_pos hless, if_neg hnot, if_pos hlo]
            rfl
          · have heven := hup.2 htie.symm
            rw [if_neg htie.ge.not_gt, if_neg htie.le.not_gt, if_pos (by omega), if_neg hnot, if_pos hlo]
            rfl
      · rw [if_neg hlo, if_pos hhi, if_pos ⟨hhi, .inl hlo⟩]
        rfl
    · have hnot : ¬(nearest ((lo + 1 : ℕ) * 10 ^ e) = b ∧
          (nearest (lo * 10 ^ e) ≠ b ∨ Above b lo e)) := fun h => hhi h.1
      rw [if_neg hhi, if_neg hnot]
      by_cases hlo : nearest (lo * 10 ^ e) = b
      · rw [if_pos hlo, if_pos hlo]
        rfl
      · rw [if_neg hlo, if_neg hlo]
        rfl
  · -- the power of ten is beyond the multiple above
    have hroom : lo + 1 < 10 ^ d := lt_of_le_of_ne haround.digits.2 hcarry
    have hupper : Binary64.upper d lo e = (lo + 1, e) := if_neg hcarry
    have hbeyond : ((lo + 1 : ℕ) : ℚ) * 10 ^ e < (10 ^ d : ℕ) * 10 ^ e :=
      mul_lt_mul_of_pos_right (by exact_mod_cast hroom) hten
    have hfar : |((10 ^ d : ℕ) : ℚ) * 10 ^ e - value b| = (10 ^ d : ℕ) * 10 ^ e - value b :=
      abs_of_nonneg (sub_nonneg.mpr (haround.lt.trans hbeyond).le)
    have hreaches : nearest ((10 ^ d : ℕ) * 10 ^ e) = b → nearest ((lo + 1 : ℕ) * 10 ^ e) = b :=
      fun h => Binary64.nearest_between (by omega) hself h haround.lt.le hbeyond.le
    rw [hupper]
    by_cases hup : nearest ((lo + 1 : ℕ) * 10 ^ e) = b ∧ (nearest (lo * 10 ^ e) ≠ b ∨ Above b lo e)
    · rw [if_pos ⟨⟨hup.1, hroom⟩, hup.2⟩, if_pos hup]
      by_cases hten : nearest ((10 ^ d : ℕ) * 10 ^ e) = b
      · rw [if_pos hten, closer_made hscale hscale', hvalue, hpower, habove, hfar, if_pos (by linarith)]
        rfl
      · rw [if_neg hten]
        rfl
    · rw [if_neg fun h => hup ⟨h.1.1, h.2⟩, if_neg hup]
      by_cases hlo : nearest (lo * 10 ^ e) = b
      · rw [if_pos hlo, if_pos hlo]
        by_cases hten : nearest ((10 ^ d : ℕ) * 10 ^ e) = b
        · have hnot : ¬Above b lo e := fun h => hup ⟨hreaches hten, .inr h⟩
          unfold Binary64.Above at hnot
          rw [not_or, not_and, not_lt] at hnot
          have hle := hnot.1
          rw [if_pos hten, closer_made hscale hscale', hvalue, hpower, hbelow, hfar, if_pos (by linarith)]
          rfl
        · rw [if_neg hten]
          rfl
      · rw [if_neg hlo, if_neg hlo, if_neg fun h => hup ⟨hreaches h, .inl hlo⟩]
        rfl

/-- **The search** over numbers of digits finds the first attempt that finds something. -/
theorem search_eq {digits : List ℕ} (hdigits : ∀ d ∈ digits, 0 < d ∧ d ≤ 17) :
    search (Binary64.scaled b) (lowerBound b) (upperBound b) (decide (b % 2 = 0))
        (Int.log 10 (value b)) digits =
      match digits.findSome? fun d => attempt b d with
      | some decimal => .ok decimal
      | none => .error .wire := by
  induction digits with
  | nil => rfl
  | cons d more ih =>
    have hd := hdigits d List.mem_cons_self
    have hlog := log_range hb hlt
    have haround := Binary64.around hb hd.1
    have hexponent : Int.log 10 (value b) - d + 1 = Int.log 10 (value b) + 1 - (d : ℤ) := by omega
    obtain ⟨left, right, hleft, hright, hchosen⟩ := chosen_eq hb hlt hd haround ⟨by omega, by omega⟩
    rw [List.findSome?_cons, ← hchosen]
    simp only [search, hexponent, hleft, hright, bind, Except.bind]
    cases hcloser : closer left right with
    | none => exact ih fun d' hd' => hdigits d' (List.mem_cons_of_mem d hd')
    | some chosen => rfl

/-- The search of `canonicalFloat` finds the shortest decimal. -/
theorem search_shortest :
    search (Binary64.scaled b) (lowerBound b) (upperBound b) (decide (b % 2 = 0))
        (Int.log 10 (value b)) ((List.range 17).map (· + 1)) =
      .ok (Binary64.shortest b) := by
  rw [search_eq hb hlt]
  · rw [List.findSome?_map]
    have hsome := Binary64.attempt_seventeen hb (by omega)
    unfold Binary64.shortest
    cases hfind : (List.range 17).findSome? fun i => attempt b (i + 1) with
    | none =>
      have hnone := List.findSome?_eq_none_iff.mp hfind 16 (by simp)
      rw [hnone] at hsome
      cases hsome
    | some decimal =>
      have hsame : (List.range 17).findSome? ((fun d => attempt b d) ∘ (· + 1)) = some decimal := hfind
      rw [hsame]
      rfl
  · intro d hd
    obtain ⟨i, hi, rfl⟩ := List.mem_map.mp hd
    rw [List.mem_range] at hi
    exact ⟨Nat.succ_pos i, hi⟩

end

/-! ## The spelling -/

/-- `spelling` writes the numeral of a decimal. -/
theorem spelling_eq (c : ℕ) (e : ℤ) : spelling c e = (Numeral.ofDecimal false c e).text := by
  have hlen := Nat.length_toDigits_pos (b := 10) (n := c)
  unfold spelling Numeral.ofDecimal Numeral.layout
  dsimp only
  by_cases hfar : ((Nat.toDigits 10 c).length : ℤ) + e - 1 < -4 ∨
      16 ≤ ((Nat.toDigits 10 c).length : ℤ) + e - 1
  · rw [if_pos hfar, if_pos hfar]
    by_cases hone : (Nat.toDigits 10 c).length = 1
    · rw [if_pos hone, if_pos hone]
      by_cases hneg : ((Nat.toDigits 10 c).length : ℤ) + e - 1 < 0 <;>
        simp [Numeral.text, Numeral.fracText, Numeral.expText, hneg]
    · rw [if_neg hone, if_neg hone]
      by_cases hneg : ((Nat.toDigits 10 c).length : ℤ) + e - 1 < 0 <;>
        simp [Numeral.text, Numeral.fracText, Numeral.expText, hneg]
  · rw [if_neg hfar, if_neg hfar]
    by_cases he : 0 ≤ e
    · rw [if_pos he, if_pos he]
      simp [Numeral.text, Numeral.fracText, Numeral.expText]
    · rw [if_neg he, if_neg he]
      by_cases hpoint : 0 < ((Nat.toDigits 10 c).length : ℤ) + e
      · have hplace : ((Nat.toDigits 10 c).length : ℤ) + e - 1 + 1 =
            (Nat.toDigits 10 c).length + e := by omega
        rw [if_pos hpoint, if_pos (by omega), hplace]
        simp [Numeral.text, Numeral.fracText, Numeral.expText]
      · have hplace : -(((Nat.toDigits 10 c).length : ℤ) + e - 1) - 1 =
            -((Nat.toDigits 10 c).length + e) := by omega
        rw [if_neg hpoint, if_neg (by omega), hplace]
        simp [Numeral.text, Numeral.fracText, Numeral.expText]

theorem text_ofDecimal (neg : Bool) (c : ℕ) (e : ℤ) : (Numeral.ofDecimal neg c e).text =
    (if neg then ['-'] else []) ++ (Numeral.ofDecimal false c e).text := by
  unfold Numeral.ofDecimal Numeral.layout
  split_ifs <;> simp [Numeral.text, *]

/-- **`canonicalFloat` spells the numeral** that a finite double is printed as. -/
theorem canonicalFloat_eq {estimate : ℕ → ℤ} {x : Binary64.Finite}
    (hestimate : -340 ≤ estimate x.bits ∧ estimate x.bits ≤ 340) :
    canonicalFloat estimate x = .ok (Numeral.repr x).text := by
  unfold canonicalFloat Numeral.repr
  by_cases hzero : x.bits = 0
  · rw [if_pos hzero, if_pos hzero]
    cases x.neg <;> rfl
  · rw [if_neg hzero, if_neg hzero]
    have hb : 0 < x.bits := Nat.pos_of_ne_zero hzero
    have hlog := log_range hb x.lt
    have hlower : (scaled x.bits + scaled (x.bits - 1)) / 2 = lowerBound x.bits := by
      rw [scaled_eq, scaled_eq]
      rfl
    have hupper : (scaled x.bits + scaled (x.bits + 1)) / 2 = upperBound x.bits := by
      rw [scaled_eq, scaled_eq]
      rfl
    have hlowered := lowerMagnitude_eq hb x.lt _ hestimate
    have hraised := raiseMagnitude_eq hb x.lt (min (estimate x.bits) (Int.log 10 (value x.bits)))
      (by omega) (min_le_right _ _)
    have hsearch := search_shortest hb x.lt
    dsimp only
    rw [hlower, hupper, scaled_eq]
    simp only [hlowered, hraised, hsearch, bind, Except.bind]
    rw [text_ofDecimal, spelling_eq]

/-- **The spelling is the shortest** that rounds back: no decimal with fewer digits does, none with as
many is closer, and the significand is even where another one is as close. -/
theorem canonicalFloat_shortest (estimate : ℕ → ℤ) (x : Binary64.Finite) (hx : x.bits ≠ 0)
    (hestimate : -340 ≤ estimate x.bits ∧ estimate x.bits ≤ 340) :
    ∃ (c : ℕ) (e : ℤ), canonicalFloat estimate x = .ok (Numeral.ofDecimal x.neg c e).text ∧
      (Numeral.ofDecimal x.neg c e).magnitude = c * 10 ^ e ∧
      (Numeral.ofDecimal x.neg c e).toFinite? = some x ∧
      Binary64.ShortestDecimal x.bits c e := by
  have hb : 0 < x.bits := Nat.pos_of_ne_zero hx
  have hlt := x.lt
  have hrepr : Numeral.repr x =
      Numeral.ofDecimal x.neg (Binary64.shortest x.bits).1 (Binary64.shortest x.bits).2 := if_neg hx
  refine ⟨(Binary64.shortest x.bits).1, (Binary64.shortest x.bits).2, ?_, Numeral.magnitude_ofDecimal, ?_,
    Binary64.shortestDecimal_shortest hb (by omega)⟩
  · rw [canonicalFloat_eq hestimate, hrepr]
  · rw [← hrepr]
    exact Numeral.toFinite?_repr x

/-- One, from its own logarithm. -/
theorem canonicalFloat_shortest_one :
    ∃ (c : ℕ) (e : ℤ), canonicalFloat (fun _ => 0) ⟨false, 1023 * 2 ^ 52, by decide⟩ =
        .ok (Numeral.ofDecimal false c e).text ∧
      (Numeral.ofDecimal false c e).magnitude = c * 10 ^ e ∧
      (Numeral.ofDecimal false c e).toFinite? = some ⟨false, 1023 * 2 ^ 52, by decide⟩ ∧
      Binary64.ShortestDecimal (1023 * 2 ^ 52) c e :=
  canonicalFloat_shortest (fun _ => 0) ⟨false, 1023 * 2 ^ 52, by decide⟩ (by decide) (by decide)

/-! ## Tokens -/

/-- `Math.floor(Math.log10(…))` of a magnitude: any integer that the table covers. -/
structure Log10 where
  floor : ℕ → ℤ
  range : ∀ bits, 0 < bits → bits < 2047 * 2 ^ 52 → -340 ≤ floor bits ∧ floor bits ≤ 340

/-- The numeral that a token is as a whole: both regular expressions together. -/
def lexeme (token : List Char) : Option Numeral :=
  match Numeral.scan token with
  | some (t, []) => some t
  | _ => none

/-- `verifyFloatToken`, with the `Number` of the token. -/
def verifyFloatToken (log : Log10) (token : List Char) : Throws Binary64.Finite :=
  match lexeme token with
  | some t =>
    if 24 < token.length ∨ t.isInt = true then .error .wire
    else
      match t.toFinite? with
      | some value => do
        let canonical ← canonicalFloat log.floor value
        if canonical = token then .ok value else .error .wire
      | none => .error .wire
  | none => .error .wire

/-- `canonicalFloat`, from any logarithm that the table covers. -/
theorem canonicalFloat_log (log : Log10) (x : Binary64.Finite) :
    canonicalFloat log.floor x = .ok (Numeral.repr x).text := by
  by_cases hzero : x.bits = 0
  · rw [canonicalFloat, if_pos hzero, Numeral.repr, if_pos hzero]
    cases x.neg <;> rfl
  · exact canonicalFloat_eq (log.range x.bits (Nat.pos_of_ne_zero hzero) x.lt)

theorem length_pad2_le {n : ℕ} (h : n < 1000) : (Numeral.pad2 n).length ≤ 3 := by
  have hlen : (Nat.toDigits 10 n).length ≤ 3 := (Nat.length_toDigits_le_iff (by decide) (by decide)).mpr h
  unfold Numeral.pad2
  split
  · exact Nat.le_succ 2
  · exact hlen

/-- A decimal of seventeen digits takes at most 24 characters. -/
theorem length_ofDecimal_le {neg : Bool} {c : ℕ} {e : ℤ} (hc : (Nat.toDigits 10 c).length ≤ 17)
    (hplace : ((Nat.toDigits 10 c).length + e - 1).natAbs < 1000) :
    (Numeral.ofDecimal neg c e).text.length ≤ 24 := by
  have hlen := Nat.length_toDigits_pos (b := 10) (n := c)
  have hpad := length_pad2_le hplace
  have hsign : (if neg then ['-'] else []).length ≤ 1 := by cases neg <;> decide
  unfold Numeral.ofDecimal Numeral.layout
  split_ifs with hfar hone he hpoint <;>
    simp only [Numeral.text, Numeral.fracText, Numeral.expText, List.length_append, List.length_cons,
      List.length_take, List.length_drop, List.length_replicate, List.length_nil] <;>
    omega

/-- **No finite double** takes more than 24 characters. -/
theorem length_repr_le (x : Binary64.Finite) : (Numeral.repr x).text.length ≤ 24 := by
  unfold Numeral.repr
  by_cases hzero : x.bits = 0
  · rw [if_pos hzero]
    cases x.neg <;> decide
  · rw [if_neg hzero]
    have hb : 0 < x.bits := Nat.pos_of_ne_zero hzero
    have hlog := log_range hb x.lt
    obtain ⟨d, hd, hle, hattempt, -⟩ := Binary64.shortest_attempt hb (by have := x.lt; omega)
    have haround := Binary64.around hb hd
    obtain ⟨hdigits, hexponent⟩ : HasDigits d (Binary64.shortest x.bits).1 ∧
        ((Binary64.shortest x.bits).2 = Int.log 10 (value x.bits) + 1 - d ∨
          (Binary64.shortest x.bits).2 = Int.log 10 (value x.bits) + 1 - d + 1) := by
      rcases Binary64.attempt_cases haround with ⟨hnone, -⟩ | ⟨hsome, -⟩ | ⟨hsome, -⟩
      · rw [hattempt] at hnone
        cases hnone
      · rw [Option.some.inj (hattempt.symm.trans hsome)]
        exact ⟨haround.digits, .inl rfl⟩
      · rw [Option.some.inj (hattempt.symm.trans hsome)]
        refine ⟨Binary64.upper_digits hd haround.digits _, ?_⟩
        unfold Binary64.upper
        split_ifs
        · exact .inr rfl
        · exact .inl rfl
    have hcount := Binary64.significant_of_hasDigits hd hdigits
    unfold Binary64.significant at hcount
    apply length_ofDecimal_le
    · omega
    · rw [hcount]
      omega

/-- **What `verifyFloatToken` accepts** is the spelling of a finite double. -/
theorem verifyFloatToken_eq_ok {log : Log10} {token : List Char} {x : Binary64.Finite} :
    verifyFloatToken log token = .ok x ↔ token = (Numeral.repr x).text := by
  constructor
  · intro h
    unfold verifyFloatToken at h
    split at h
    · next t _ =>
      by_cases hrefused : 24 < token.length ∨ t.isInt = true
      · rw [if_pos hrefused] at h
        cases h
      · rw [if_neg hrefused] at h
        split at h
        · next value _ =>
          simp only [canonicalFloat_log, bind, Except.bind] at h
          split_ifs at h with hsame
          rw [← Except.ok.inj h]
          exact hsame.symm
        · cases h
    · cases h
  · intro h
    have hscan := @Numeral.scan_text _ (Numeral.wf_repr x) [] trivial
    rw [List.append_nil, ← h] at hscan
    have hlexeme : lexeme token = some (Numeral.repr x) := by rw [lexeme, hscan]
    have hlen := length_repr_le x
    have haccepted : ¬(24 < token.length ∨ (Numeral.repr x).isInt = true) := by
      rw [Numeral.isInt_repr, h]
      simp only [Bool.false_eq_true, or_false]
      omega
    simp only [verifyFloatToken, hlexeme, if_neg haccepted, Numeral.toFinite?_repr, canonicalFloat_log, bind,
      Except.bind]
    rw [if_pos h.symm]

end ReceiptNumbers

end EvidenceBraid
