import Mathlib.Tactic.IntervalCases
import EvidenceBraid.Timestamp

/-!
# Timestamps survive their text

`ord2ymd` splits a day number into cycles of 400, 100, 4 and 1 years, and `ymd2ord` puts them back
together (`ymd2ord_ord2ymd`). So `formcuttimestamp` writes a date that `parse_timestamp` reads, and
the two are inverse (`parseTimestamp_formatTimestamp`).
-/

namespace EvidenceBraid

namespace Calendar

/-! ## Day numbers -/

/-- Days before a month of a leap year, or of another one. -/
def monthStart (leap : Bool) (month : ℕ) : ℕ :=
  [0, 31, 59, 90, 120, 151, 181, 212, 243, 273, 304, 334].getD (month - 1) 0 +
    (if 2 < month ∧ leap = true then 1 else 0)

def monthLength (leap : Bool) (month : ℕ) : ℕ :=
  if month = 2 then (if leap then 29 else 28)
  else if month = 4 ∨ month = 6 ∨ month = 9 ∨ month = 11 then 30
  else 31

theorem daysBeforeMonth_eq (year month : ℕ) :
    daysBeforeMonth year month = monthStart (isLeap year) month := rfl

theorem daysInMonth_eq (year month : ℕ) :
    daysInMonth year month = monthLength (isLeap year) month := rfl

/-- The month of a day of the year, as `ord2ymd` guesses and corrects it. -/
def monthOf (leap : Bool) (n : ℕ) : ℕ :=
  if n < monthStart leap ((n + 50) / 32) then (n + 50) / 32 - 1 else (n + 50) / 32

theorem monthOf_spec : ∀ leap : Bool, ∀ n < 366, (n < 365 ∨ leap = true) →
    (1 ≤ monthOf leap n ∧ monthOf leap n ≤ 12) ∧ monthStart leap (monthOf leap n) ≤ n ∧
      n - monthStart leap (monthOf leap n) + 1 ≤ monthLength leap (monthOf leap n) := by
  decide +kernel

/-- The days before a year, by its place in the cycles. -/
theorem daysBeforeYear_cycles {a b c e : ℕ} (hb : b < 4) (hc : c < 25) (he : e < 4) :
    daysBeforeYear (a * 400 + 1 + b * 100 + c * 4 + e) =
      146097 * a + 36524 * b + 1461 * c + 365 * e := by
  unfold daysBeforeYear
  have h4 : (a * 400 + 1 + b * 100 + c * 4 + e - 1) / 4 = a * 100 + b * 25 + c := by omega
  have h100 : (a * 400 + 1 + b * 100 + c * 4 + e - 1) / 100 = a * 4 + b := by omega
  have h400 : (a * 400 + 1 + b * 100 + c * 4 + e - 1) / 400 = a := by omega
  simp only [h4, h100, h400]
  omega

/-- Which years of a cycle are leap years. -/
theorem isLeap_cycles {a b c e : ℕ} (hb : b < 4) (hc : c < 25) (he : e < 4) :
    isLeap (a * 400 + 1 + b * 100 + c * 4 + e) = decide (e = 3 ∧ (c ≠ 24 ∨ b = 3)) := by
  unfold isLeap
  rw [Bool.eq_iff_iff]
  simp only [Bool.and_eq_true, decide_eq_true_eq, Bool.or_eq_true, bne_iff_ne]
  omega

/-- What a date says of itself: its fields are in range and its day number is this one. -/
structure IsDate (ordinal : ℕ) (date : ℕ × ℕ × ℕ) : Prop where
  year : 1 ≤ date.1
  month : 1 ≤ date.2.1 ∧ date.2.1 ≤ 12
  day : 1 ≤ date.2.2 ∧ date.2.2 ≤ daysInMonth date.1 date.2.1
  ordinal_eq : ymd2ord date.1 date.2.1 date.2.2 = ordinal

/-- The last day of a cycle of four or of four hundred years. -/
theorem isDate_last {a b c : ℕ} (hb : b < 4) (hc : c < 25) (hleap : c ≠ 24 ∨ b = 3) :
    IsDate (146097 * a + 36524 * b + 1461 * c + 1461)
      (a * 400 + 1 + b * 100 + c * 4 + 3, 12, 31) := by
  have hl : isLeap (a * 400 + 1 + b * 100 + c * 4 + 3) = true := by
    rw [isLeap_cycles hb hc (by omega)]
    simpa using hleap
  refine ⟨by simp only; omega, ⟨by simp, le_rfl⟩, ⟨by simp, le_rfl⟩, ?_⟩
  simp only [ymd2ord, daysBeforeMonth_eq, hl, daysBeforeYear_cycles hb hc (show 3 < 4 by omega)]
  simp [monthStart]

/-- A day of an ordinary year of the cycles. -/
theorem isDate_day {a b c e n : ℕ} (hb : b < 4) (hc : c < 25) (he : e < 4)
    (hn : n < 365 ∨ n < 366 ∧ e = 3 ∧ (c ≠ 24 ∨ b = 3)) :
    IsDate (146097 * a + 36524 * b + 1461 * c + 365 * e + n + 1)
      (a * 400 + 1 + b * 100 + c * 4 + e,
        monthOf (isLeap (a * 400 + 1 + b * 100 + c * 4 + e)) n,
        n - daysBeforeMonth (a * 400 + 1 + b * 100 + c * 4 + e)
          (monthOf (isLeap (a * 400 + 1 + b * 100 + c * 4 + e)) n) + 1) := by
  have hl := @isLeap_cycles a b c e hb hc he
  have hspec := monthOf_spec (isLeap (a * 400 + 1 + b * 100 + c * 4 + e)) n (by omega) (by
    rcases hn with hn | hn
    · exact .inl hn
    · exact .inr (by rw [hl]; simpa using hn.2))
  refine ⟨by simp only; omega, hspec.1, ⟨by simp only; omega, hspec.2.2⟩, ?_⟩
  have hstart := hspec.2.1
  simp only [ymd2ord, daysBeforeMonth_eq, daysBeforeYear_cycles hb hc he] at hstart ⊢
  omega

/-- A count in blocks of `k` and a rest. -/
theorem exists_blocks {k : ℕ} (hk : 0 < k) (n : ℕ) : ∃ q r, r < k ∧ n = k * q + r :=
  ⟨n / k, n % k, Nat.mod_lt n hk, (Nat.div_add_mod n k).symm⟩

theorem blocks_div {k q r : ℕ} (h : r < k) : (k * q + r) / k = q := by
  rw [Nat.mul_add_div (by omega), Nat.div_eq_of_lt h, Nat.add_zero]

theorem blocks_mod {k q r : ℕ} (h : r < k) : (k * q + r) % k = r := by
  rw [Nat.mul_add_mod, Nat.mod_eq_of_lt h]

/-- **`ord2ymd` finds the date of a day number.** -/
theorem isDate_ord2ymd {ordinal : ℕ} (hpos : 0 < ordinal) : IsDate ordinal (ord2ymd ordinal) := by
  obtain ⟨n, rfl⟩ : ∃ n, ordinal = n + 1 := ⟨ordinal - 1, by omega⟩
  obtain ⟨a, r, hr, rfl⟩ := exists_blocks (k := 146097) (by decide) n
  obtain ⟨b, s, hs, rfl⟩ := exists_blocks (k := 36524) (by decide) r
  obtain ⟨c, t, ht, rfl⟩ := exists_blocks (k := 1461) (by decide) s
  obtain ⟨e, n, hn, rfl⟩ := exists_blocks (k := 365) (by decide) t
  simp only [ord2ymd, Nat.add_sub_cancel, blocks_div hr, blocks_mod hr, blocks_div hs, blocks_mod hs,
    blocks_div ht, blocks_mod ht, blocks_div hn, blocks_mod hn]
  split_ifs with hlast hguess
  · -- the last day of a cycle: the year is counted one too high
    rcases Nat.lt_or_ge b 4 with hb | hb
    · have hdate := @isDate_last a b c hb (by omega) (by omega)
      have hyear : a * 400 + 1 + b * 100 + c * 4 + e - 1 = a * 400 + 1 + b * 100 + c * 4 + 3 := by
        omega
      rw [hyear]
      convert hdate using 1
      omega
    · have hdate := @isDate_last a 3 24 (by omega) (by omega) (.inr rfl)
      have hyear : a * 400 + 1 + b * 100 + c * 4 + e - 1 = a * 400 + 1 + 3 * 100 + 24 * 4 + 3 := by
        omega
      rw [hyear]
      convert hdate using 1
      omega
  all_goals
    have hdate := @isDate_day a b c e n (by omega) (by omega) (by omega) (.inl hn)
    rw [daysBeforeMonth_eq] at hguess
    simp only [monthOf, hguess, if_true, if_false] at hdate
    convert hdate using 1
    omega

/-- A day number up to `9999-12-31` has a year of four digits. -/
theorem IsDate.year_le {ordinal : ℕ} {date : ℕ × ℕ × ℕ} (h : IsDate ordinal date)
    (hle : ordinal ≤ maxOrdinal) : date.1 ≤ 9999 := by
  have hday := h.ordinal_eq
  have hpos := h.day.1
  unfold maxOrdinal at hle
  unfold ymd2ord daysBeforeYear at hday
  simp only at hday
  omega

end Calendar

open Calendar

/-! ## Decimal fields -/

@[simp] theorem length_padded : ∀ k n : ℕ, (padded k n).length = k
  | 0, _ => rfl
  | k + 1, n => by simp [padded, length_padded k]

theorem isDigit_digitChar : ∀ d < 10, (Nat.digitChar d).isDigit = true := by decide

theorem mem_padded {c : Char} : ∀ {k n : ℕ}, c ∈ padded k n → c.isDigit = true
  | 0, _, h => by simp [padded] at h
  | k + 1, n, h => by
    rw [padded, List.mem_append, List.mem_singleton] at h
    rcases h with h | rfl
    · exact mem_padded h
    · exact isDigit_digitChar _ (Nat.mod_lt _ (by decide))

/-- The first digit and the others. -/
theorem padded_succ (k n : ℕ) :
    padded (k + 1) n = Nat.digitChar (n / 10 ^ k % 10) :: padded k n := by
  induction k generalizing n with
  | zero => simp [padded]
  | succ k ih =>
    rw [padded, ih (n / 10), List.cons_append, Nat.div_div_eq_div_mul, ← pow_succ']
    rfl

theorem digit_digitChar : ∀ d < 10, Iso.digit (Nat.digitChar d) = some d := by decide

/-- Reading a decimal field back. -/
theorem digits_padded {k n : ℕ} (s : List Char) (hn : n < 10 ^ k) :
    Iso.digits k (padded k n ++ s) = some (n, s) := by
  have hmod : Iso.digits k (padded k n ++ s) = some (n % 10 ^ k, s) := by
    clear hn
    induction k with
    | zero => simp [Iso.digits, padded, Nat.mod_one]
    | succ k ih =>
      have hdigit := digit_digitChar (n / 10 ^ k % 10) (Nat.mod_lt _ (by decide))
      rw [padded_succ, List.cons_append, Iso.digits, hdigit]
      simp only [Option.bind_eq_bind, Option.bind_some, ih]
      rw [Nat.mod_pow_succ, mul_comm, Nat.add_comm]
  rw [hmod, Nat.mod_eq_of_lt hn]

/-! ## Dates and times -/

theorem date_padded {year month day : ℕ} (hy : year ≤ 9999) (hm : month ≤ 12) (hd : day ≤ 31) :
    Iso.date (padded 4 year ++ '-' :: (padded 2 month ++ '-' :: padded 2 day)) =
      some (year, month, day) := by
  have hday := digits_padded (k := 2) (n := day) [] (by omega)
  rw [List.append_nil] at hday
  have hmonth : ((padded 2 month ++ '-' :: padded 2 day).head? = some 'W') = False := by
    rw [padded_succ, List.cons_append, List.head?_cons, Option.some.injEq, eq_iff_iff, iff_false]
    intro h
    have hdigit := isDigit_digitChar (month / 10 ^ 1 % 10) (Nat.mod_lt _ (by decide))
    rw [h] at hdigit
    exact absurd hdigit (by decide)
  unfold Iso.date
  rw [digits_padded _ (by omega)]
  simp only [Option.bind_eq_bind, Option.bind_some, List.head?_cons, if_true, List.tail_cons]
  rw [if_neg (by simpa using hmonth), digits_padded _ (by omega)]
  simp [hday]

/-- The text of a time of day, without its offset. -/
def clockText (seconds micro : ℕ) : List Char :=
  padded 2 (seconds / 3600) ++ ':' :: (padded 2 (seconds / 60 % 60) ++ ':' ::
    (padded 2 (seconds % 60) ++ (if micro = 0 then [] else '.' :: padded 6 micro)))

theorem fraction_padded {micro : ℕ} (h : micro < 1000000) :
    Iso.fraction (padded 6 micro) = some micro := by
  have hne : padded 6 micro ≠ [] := by
    intro hnil
    have hlen := length_padded 6 micro
    rw [hnil] at hlen
    simp at hlen
  have hall : (padded 6 micro).all Char.isDigit = true :=
    List.all_eq_true.mpr fun c hc => mem_padded hc
  have hdigits := digits_padded (k := 6) (n := micro) [] (by omega)
  rw [List.append_nil] at hdigits
  simp [Iso.fraction, hne, hall, hdigits]

theorem clock_clockText {seconds micro : ℕ} (hs : seconds < 86400) (hm : micro < 1000000) :
    Iso.clock (clockText seconds micro) =
      some (seconds / 3600, seconds / 60 % 60, seconds % 60, micro) := by
  have hhour := @digits_padded 2 (seconds / 3600)
  have hminute := @digits_padded 2 (seconds / 60 % 60)
  have hsecond := @digits_padded 2 (seconds % 60)
  unfold clockText Iso.clock
  rw [hhour _ (by omega)]
  simp only [Option.bind_eq_bind, Option.bind_some, reduceCtorEq, if_false, List.head?_cons,
    if_true, List.tail_cons, hminute _ (by omega), hsecond _ (by omega)]
  rw [if_neg (by simp)]
  by_cases hmicro : micro = 0
  · simp [hmicro]
  · simp [hmicro, fraction_padded hm]

/-- Decimal digits are none of the characters that end a time. -/
theorem mem_clockText {seconds micro : ℕ} {c : Char} (h : c ∈ clockText seconds micro) :
    c.isDigit = true ∨ c = ':' ∨ c = '.' := by
  simp only [clockText, List.mem_append, List.mem_cons] at h
  rcases h with h | rfl | h | rfl | h | h
  · exact .inl (mem_padded h)
  · exact .inr (.inl rfl)
  · exact .inl (mem_padded h)
  · exact .inr (.inl rfl)
  · exact .inl (mem_padded h)
  · split_ifs at h
    · simp at h
    · rcases List.mem_cons.mp h with rfl | h
      · exact .inr (.inr rfl)
      · exact .inl (mem_padded h)

theorem time_clockText {seconds micro : ℕ} (hs : seconds < 86400) (hm : micro < 1000000) :
    Iso.time (clockText seconds micro ++ ['+', '0', '0', ':', '0', '0']) =
      some ((seconds / 3600, seconds / 60 % 60, seconds % 60, micro), some 0) := by
  have hbody : (clockText seconds micro ++ ['+', '0', '0', ':', '0', '0']).takeWhile
      (fun c => c ≠ '+' ∧ c ≠ '-' ∧ c ≠ 'Z') = clockText seconds micro := by
    rw [List.takeWhile_append_of_pos]
    · simp
    · intro c hc
      rcases mem_clockText hc with hd | rfl | rfl
      · rw [decide_eq_true_eq]
        refine ⟨?_, ?_, ?_⟩ <;> rintro rfl <;> exact absurd hd (by decide)
      · decide
      · decide
  unfold Iso.time
  simp only [hbody, clock_clockText hs hm, Option.bind_eq_bind, Option.bind_some,
    List.drop_left]
  rfl

/-! ## The whole text -/

/-- The text of a date. -/
def dateText (date : ℕ × ℕ × ℕ) : List Char :=
  padded 4 date.1 ++ '-' :: (padded 2 date.2.1 ++ '-' :: padded 2 date.2.2)

/-- The text up to its final `Z`. -/
def bodyText (t : Datetime) : List Char :=
  dateText (ord2ymd (t.micros / microsPerDay + 1)) ++
    'T' :: clockText (t.micros % microsPerDay / 1000000) (t.micros % 1000000)

theorem formatTimestamp_eq (t : Datetime) :
    formatTimestamp t = String.ofList (bodyText t ++ ['Z']) := by
  delta formatTimestamp
  simp [bodyText, dateText, clockText]

theorem length_dateText (date : ℕ × ℕ × ℕ) : (dateText date).length = 10 := by
  simp [dateText]

/-- Every character of the text is a digit or one of its separators. -/
theorem mem_bodyText {t : Datetime} {c : Char} (h : c ∈ bodyText t) :
    c.isDigit = true ∨ c ∈ ['-', 'T', ':', '.'] := by
  simp only [bodyText, dateText, List.mem_append, List.mem_cons] at h
  rcases h with (h | rfl | h | rfl | h) | rfl | h
  · exact .inl (mem_padded h)
  · exact .inr (by decide)
  · exact .inl (mem_padded h)
  · exact .inr (by decide)
  · exact .inl (mem_padded h)
  · exact .inr (by decide)
  · rcases mem_clockText h with hd | rfl | rfl
    · exact .inl hd
    · exact .inr (by decide)
    · exact .inr (by decide)

theorem isDigit_toNat {c : Char} (h : c.isDigit = true) : 48 ≤ c.toNat ∧ c.toNat ≤ 57 := by
  simp only [Char.isDigit, Bool.and_eq_true, decide_eq_true_eq] at h
  exact ⟨h.1, h.2⟩

theorem isXmlChar_of_isDigit {c : Char} (h : c.isDigit = true) :
    isXmlChar c = true ∧ isWhitespace c = false := by
  have hc := isDigit_toNat h
  constructor
  · have h20 : 32 ≤ c.toNat ∧ c.toNat ≤ 0xD7FF := by omega
    simp [isXmlChar, h20]
  · simp only [isWhitespace, Bool.or_eq_false_iff, Bool.and_eq_false_iff, decide_eq_false_iff_not]
    omega

/-- Text whose first and last characters are not whitespace is trimmed. -/
theorem strip_of_ends {c d : Char} {cs : List Char} (hc : isWhitespace c = false)
    (hd : isWhitespace d = false) :
    strip (String.ofList (c :: (cs ++ [d]))) = String.ofList (c :: (cs ++ [d])) := by
  rw [strip, String.toList_ofList, List.dropWhile_cons_of_neg (by simp [hc]), ← List.cons_append,
    List.rdropWhile_concat_neg _ _ _ (by simp [hd])]

theorem strip_formatTimestamp (t : Datetime) : strip (formatTimestamp t) = formatTimestamp t := by
  have hdigit := isDigit_digitChar
    ((ord2ymd (t.micros / microsPerDay + 1)).1 / 10 ^ 3 % 10) (Nat.mod_lt _ (by decide))
  rw [formatTimestamp_eq, bodyText, dateText, padded_succ]
  exact strip_of_ends (isXmlChar_of_isDigit hdigit).2 (by decide)

theorem isXmlCharacter_formatTimestamp (t : Datetime) :
    isXmlCharacter (formatTimestamp t) = true := by
  have hseparators : ∀ c ∈ ['-', 'T', ':', '.', 'Z'], isXmlChar c = true :=
    List.all_iff_forall_prop.mp (by decide)
  rw [formatTimestamp_eq, isXmlCharacter, String.toList_ofList, List.all_eq_true]
  intro c hc
  rcases List.mem_append.mp hc with hc | hc
  · rcases mem_bodyText hc with hd | hc
    · exact (isXmlChar_of_isDigit hd).1
    · exact hseparators c (List.mem_append_left ['Z'] hc)
  · exact hseparators c (List.mem_append_right ['-', 'T', ':', '.'] hc)

/-- **The fields that `fromisoformat` reads** are the ones that were written. -/
theorem fromisoformat_bodyText (t : Datetime) : ∃ year month day,
    fromisoformat (bodyText t ++ ['+', '0', '0', ':', '0', '0']) =
      .aware year month day (t.micros % microsPerDay / 1000000 / 3600)
        (t.micros % microsPerDay / 1000000 / 60 % 60) (t.micros % microsPerDay / 1000000 % 60)
        (t.micros % 1000000) 0 ∧
      ymd2ord year month day = t.micros / microsPerDay + 1 := by
  have hlt := t.lt
  have hdate := isDate_ord2ymd (Nat.succ_pos (t.micros / microsPerDay))
  have hyear := hdate.year_le (by
    unfold microsPerDay at hlt ⊢
    omega)
  obtain ⟨year, month, day, hymd⟩ : ∃ year month day,
      ord2ymd (t.micros / microsPerDay + 1) = (year, month, day) := ⟨_, _, _, rfl⟩
  rw [hymd] at hdate hyear
  obtain ⟨hy, ⟨hm, hm'⟩, ⟨hd, hd'⟩, hordinal⟩ := hdate
  simp only at hy hm hm' hd hd' hordinal hyear
  have hd31 : day ≤ 31 := by
    refine hd'.trans ?_
    unfold daysInMonth
    split_ifs <;> omega
  have hseconds : t.micros % microsPerDay / 1000000 < 86400 := by
    unfold microsPerDay
    omega
  have hmicro : t.micros % 1000000 < 1000000 := Nat.mod_lt _ (by decide)
  refine ⟨year, month, day, ?_, hordinal⟩
  set seconds := t.micros % microsPerDay / 1000000
  set zone := ['+', '0', '0', ':', '0', '0'] with hzone
  have htext : bodyText t ++ zone =
      dateText (year, month, day) ++ 'T' :: (clockText seconds (t.micros % 1000000) ++ zone) := by
    simp [bodyText, hymd, seconds]
  have htake : (bodyText t ++ zone).take 10 = dateText (year, month, day) := by
    rw [htext]
    exact List.take_left' (length_dateText _)
  have hdrop : (bodyText t ++ zone).drop 11 = clockText seconds (t.micros % 1000000) ++ zone := by
    rw [htext, ← List.singleton_append (x := 'T'), ← List.append_assoc]
    exact List.drop_left' (by simp [length_dateText])
  have hlong : 17 ≤ (bodyText t ++ zone).length := by
    have hlen := length_dateText (year, month, day)
    rw [htext, hzone]
    simp only [List.length_append, List.length_cons, List.length_nil]
    omega
  have hsep : Iso.separator (bodyText t ++ zone) = some 10 := by
    have h4 : (bodyText t ++ zone)[4]? = some '-' := by
      rw [htext]
      simp [dateText]
    have h5 : (bodyText t ++ zone)[5]? = some (Nat.digitChar (month / 10 ^ 1 % 10)) := by
      rw [htext, dateText, List.append_assoc,
        List.getElem?_append_right (by rw [length_padded]; omega), length_padded, List.cons_append,
        List.append_assoc, padded_succ 1 month]
      rfl
    rw [Iso.separator, if_neg (by omega), if_pos h4, h5, if_neg (by simp)]
  have hrange : inRange year month day (seconds / 3600) (seconds / 60 % 60) (seconds % 60) = true := by
    simp only [inRange, Bool.and_eq_true, decide_eq_true_eq]
    refine ⟨⟨⟨⟨⟨⟨⟨⟨hy, hyear⟩, hm⟩, hm'⟩, hd⟩, hd'⟩, ?_⟩, ?_⟩, ?_⟩ <;> omega
  have hdatetext := date_padded hyear hm' hd31
  unfold fromisoformat
  rw [if_neg (by omega), hsep]
  simp only [Option.bind_eq_bind, Option.bind_some, htake, hdrop]
  rw [dateText, hdatetext, hzone]
  rw [hzone] at hlong
  simp only [Option.bind_some, time_clockText hseconds hmicro]
  rw [if_neg (by omega)]
  simp [hrange]

/-- **A timestamp survives its text.** -/
@[simp] theorem parseTimestamp_formatTimestamp (t : Datetime) (path : String) :
    parseTimestamp (some (.str (formatTimestamp t))) path = .ok t := by
  have hstrip := strip_formatTimestamp t
  have hne : strip (formatTimestamp t) ≠ "" := by
    rw [hstrip, formatTimestamp_eq]
    intro h
    have hlist := congrArg String.toList h
    simp at hlist
  have htext : text (formatTimestamp t) path =
      .ok ⟨formatTimestamp t, hstrip ▸ hne, hstrip, isXmlCharacter_formatTimestamp t⟩ :=
    text_value ⟨formatTimestamp t, hstrip ▸ hne, hstrip, isXmlCharacter_formatTimestamp t⟩ path
  have hchars : (formatTimestamp t).toList = bodyText t ++ ['Z'] := by
    rw [formatTimestamp_eq, String.toList_ofList]
  obtain ⟨year, month, day, hread, hordinal⟩ := fromisoformat_bodyText t
  have hlt := t.lt
  have hutc : Datetime.astimezone year month day (t.micros % microsPerDay / 1000000 / 3600)
      (t.micros % microsPerDay / 1000000 / 60 % 60) (t.micros % microsPerDay / 1000000 % 60)
      (t.micros % 1000000) 0 = some t := by
    have hmicros : ((((t.micros / microsPerDay + 1 - 1) * 24 +
        t.micros % microsPerDay / 1000000 / 3600) * 60 +
        t.micros % microsPerDay / 1000000 / 60 % 60) * 60 +
        t.micros % microsPerDay / 1000000 % 60) * 1000000 + t.micros % 1000000 = t.micros := by
      unfold microsPerDay
      omega
    simp only [Datetime.astimezone, hordinal, hmicros, sub_zero, Int.toNat_natCast]
    rw [dif_pos ⟨by omega, hlt⟩]
  unfold parseTimestamp
  simp only [bind_eq_ok]
  refine ⟨(), valid_of hne, _, htext, ?_⟩
  simp only [hchars, List.getLast?_concat, List.dropLast_concat, if_true, hread, hutc]
  rfl

end EvidenceBraid
