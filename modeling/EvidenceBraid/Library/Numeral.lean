import Mathlib.Tactic.IntervalCases
import EvidenceBraid.Library.Binary64

/-!
# Decimal numerals

A number as JSON spells it: a sign, the integer digits, an optional fraction, an optional
exponent. `text` is the spelling, `scan` reads the longest numeral a text starts with, and
`scan_text` says the two agree. Integers and finite binary64 values are printed as numerals
(`ofInt`, `repr`) and read back from them (`toInt`, `toFinite?`).
-/

/-! ## Numerals and their text -/

/-- The parts of a JSON number. The exponent is its sign (`true` is negative) and its digits. -/
structure Numeral where
  neg : Bool
  int : List Char
  frac : Option (List Char) := none
  exp : Option (Bool × List Char) := none
  deriving DecidableEq

namespace Numeral

def fracText : Option (List Char) → List Char
  | none => []
  | some ds => '.' :: ds

def expText : Option (Bool × List Char) → List Char
  | none => []
  | some (neg, ds) => 'e' :: (if neg then '-' else '+') :: ds

def text (t : Numeral) : List Char :=
  (if t.neg then ['-'] else []) ++ t.int ++ fracText t.frac ++ expText t.exp

/-- Digits only, and at least one. -/
def IsDigits (ds : List Char) : Prop := ds ≠ [] ∧ ∀ c ∈ ds, c.isDigit

/-- What JSON admits: no superfluous leading zero, and no empty part. -/
structure Wf (t : Numeral) : Prop where
  int : IsDigits t.int
  lead : t.int = ['0'] ∨ t.int.head? ≠ some '0'
  frac : ∀ ds, t.frac = some ds → IsDigits ds
  exp : ∀ n ds, t.exp = some (n, ds) → IsDigits ds

/-- A numeral is spelled with digits, signs, a point and an exponent letter. -/
theorem mem_text {t : Numeral} (ht : t.Wf) {c : Char} (hc : c ∈ t.text) :
    c.isDigit = true ∨ c = '-' ∨ c = '+' ∨ c = '.' ∨ c = 'e' := by
  obtain ⟨neg, int, frac, exp⟩ := t
  simp only [text, List.mem_append] at hc
  rcases hc with ((hc | hc) | hc) | hc
  · cases neg with
    | true => exact .inr (.inl (by simpa using hc))
    | false => simp at hc
  · exact .inl (ht.int.2 c hc)
  · cases frac with
    | none => simp [fracText] at hc
    | some ds =>
      rcases List.mem_cons.mp hc with rfl | hc
      · simp
      · exact .inl ((ht.frac ds rfl).2 c hc)
  · cases exp with
    | none => simp [expText] at hc
    | some e =>
      obtain ⟨n, ds⟩ := e
      rcases List.mem_cons.mp hc with rfl | hc
      · simp
      · rcases List.mem_cons.mp hc with rfl | hc
        · cases n <;> simp
        · exact .inl ((ht.exp n ds rfl).2 c hc)

/-! ## Scanning -/

/-- `(\.[0-9]+)?` -/
def scanFrac : List Char → Option (List Char) × List Char
  | '.' :: s =>
    match s.takeWhile Char.isDigit with
    | [] => (none, '.' :: s)
    | ds => (some ds, s.dropWhile Char.isDigit)
  | s => (none, s)

/-- `[-+]?` after an exponent letter. -/
def scanSign : List Char → Bool × List Char
  | '-' :: s => (true, s)
  | '+' :: s => (false, s)
  | s => (false, s)

/-- `([eE][-+]?[0-9]+)?` -/
def scanExp : List Char → Option (Bool × List Char) × List Char
  | c :: s =>
    if c = 'e' ∨ c = 'E' then
      match (scanSign s).2.takeWhile Char.isDigit with
      | [] => (none, c :: s)
      | ds => (some ((scanSign s).1, ds), (scanSign s).2.dropWhile Char.isDigit)
    else (none, c :: s)
  | [] => (none, [])

/-- `0|[1-9][0-9]*` -/
def scanInt : List Char → Option (List Char × List Char)
  | '0' :: s => some (['0'], s)
  | s =>
    match s.takeWhile Char.isDigit with
    | [] => none
    | ds => some (ds, s.dropWhile Char.isDigit)

/-- `-?` -/
def scanMinus : List Char → Bool × List Char
  | '-' :: s => (true, s)
  | s => (false, s)

/-- The longest numeral at the start of a text, and what follows it. -/
def scan (s : List Char) : Option (Numeral × List Char) := do
  let (neg, s) := scanMinus s
  let (int, s) ← scanInt s
  let (frac, s) := scanFrac s
  let (exp, s) := scanExp s
  some (⟨neg, int, frac, exp⟩, s)

/-- A text a numeral cannot run into: it is empty or starts with none of the characters that
would continue the numeral. -/
def Stops : List Char → Prop
  | [] => True
  | c :: _ => c.isDigit = false ∧ c ≠ '.' ∧ c ≠ 'e' ∧ c ≠ 'E'

theorem takeWhile_digits {ds rest : List Char} (hds : ∀ c ∈ ds, c.isDigit)
    (hrest : ∀ c ∈ rest.head?, c.isDigit = false) :
    (ds ++ rest).takeWhile Char.isDigit = ds ∧ (ds ++ rest).dropWhile Char.isDigit = rest := by
  induction ds with
  | nil => cases rest <;> simp_all
  | cons c ds ih => simp_all

theorem Stops.head {rest : List Char} (h : Stops rest) : ∀ c ∈ rest.head?, c.isDigit = false := by
  cases rest with
  | nil => simp
  | cons c s => intro d hd; simp at hd; exact hd ▸ h.1

theorem scanExp_text {exp : Option (Bool × List Char)} {rest : List Char}
    (hexp : ∀ n ds, exp = some (n, ds) → IsDigits ds) (hrest : Stops rest) :
    scanExp (expText exp ++ rest) = (exp, rest) := by
  cases exp with
  | none =>
    cases rest with
    | nil => rfl
    | cons c s =>
      obtain ⟨-, -, he, hE⟩ := hrest
      simp [expText, scanExp, he, hE]
  | some p =>
    obtain ⟨neg, ds⟩ := p
    obtain ⟨hne, hds⟩ := hexp neg ds rfl
    have hsign : scanSign ((if neg then '-' else '+') :: (ds ++ rest)) = (neg, ds ++ rest) := by
      cases neg <;> rfl
    obtain ⟨htake, hdrop⟩ := takeWhile_digits hds hrest.head
    simp only [expText, List.cons_append, scanExp, true_or, if_true, hsign, htake, hdrop]

theorem scanFrac_text {frac : Option (List Char)} {rest : List Char}
    (hfrac : ∀ ds, frac = some ds → IsDigits ds)
    (hrest : ∀ c ∈ rest.head?, c.isDigit = false ∧ c ≠ '.') :
    scanFrac (fracText frac ++ rest) = (frac, rest) := by
  cases frac with
  | none =>
    cases rest with
    | nil => rfl
    | cons c s =>
      have hc := (hrest c (by simp)).2
      simp only [fracText, List.nil_append, scanFrac]
      split
      · rename_i h; simp_all
      · rfl
  | some ds =>
    obtain ⟨hne, hds⟩ := hfrac ds rfl
    obtain ⟨htake, hdrop⟩ := takeWhile_digits hds fun c hc => (hrest c hc).1
    simp only [fracText, List.cons_append, scanFrac, htake, hdrop]

theorem scanInt_text {int rest : List Char} (hint : IsDigits int)
    (hlead : int = ['0'] ∨ int.head? ≠ some '0')
    (hrest : ∀ c ∈ rest.head?, c.isDigit = false) : scanInt (int ++ rest) = some (int, rest) := by
  rcases hlead with rfl | hlead
  · rfl
  · obtain ⟨hne, hds⟩ := hint
    obtain ⟨htake, hdrop⟩ := takeWhile_digits hds hrest
    cases int with
    | nil => exact absurd rfl hne
    | cons c ds =>
      have hc : c ≠ '0' := fun h => hlead (by simp [h])
      simp only [List.cons_append] at htake hdrop ⊢
      unfold scanInt
      split
      · rename_i h; simp_all
      · rw [htake, hdrop]

theorem scanMinus_text {neg : Bool} {rest : List Char} (h : neg = true ∨ rest.head? ≠ some '-') :
    scanMinus ((if neg then ['-'] else []) ++ rest) = (neg, rest) := by
  cases neg with
  | true => rfl
  | false =>
    cases rest with
    | nil => rfl
    | cons c s =>
      have : c ≠ '-' := fun hc => by simp [hc] at h
      simp only [Bool.false_eq_true, if_false, List.nil_append, scanMinus]
      split
      · rename_i heq; simp_all
      · rfl

theorem expText_head (exp : Option (Bool × List Char)) {rest : List Char} (hrest : Stops rest) :
    ∀ c ∈ (expText exp ++ rest).head?, c.isDigit = false ∧ c ≠ '.' := by
  cases exp with
  | none =>
    cases rest with
    | nil => simp [expText]
    | cons c s => intro d hd; simp [expText] at hd; subst hd; exact ⟨hrest.1, hrest.2.1⟩
  | some p => intro c hc; simp [expText] at hc; subst hc; decide

theorem fracText_head (frac : Option (List Char)) {rest : List Char}
    (hrest : ∀ c ∈ rest.head?, c.isDigit = false ∧ c ≠ '.') :
    ∀ c ∈ (fracText frac ++ rest).head?, c.isDigit = false := by
  cases frac with
  | none => exact fun c hc => (hrest c hc).1
  | some ds => intro c hc; simp [fracText] at hc; subst hc; decide

theorem head?_digit_ne {ds rest : List Char} (h : IsDigits ds) :
    (ds ++ rest).head? ≠ some '-' := by
  obtain ⟨hne, hds⟩ := h
  cases ds with
  | nil => exact absurd rfl hne
  | cons c ds =>
    have hc := hds c (by simp)
    intro hh
    simp at hh
    subst hh
    exact absurd hc (by decide)

/-- **A numeral is read back from its text**, whatever follows it. -/
theorem scan_text {t : Numeral} (h : t.Wf) {rest : List Char} (hrest : Stops rest) :
    scan (t.text ++ rest) = some (t, rest) := by
  have hexp := expText_head t.exp hrest
  have hfrac := fracText_head t.frac hexp
  simp only [scan, text, List.append_assoc]
  rw [scanMinus_text (.inr (head?_digit_ne h.int))]
  simp only [scanInt_text h.int h.lead hfrac, scanFrac_text h.frac hexp,
    scanExp_text h.exp hrest, Option.bind_eq_bind, Option.bind_some]

/-! ## Integers -/

def natOfDigits (ds : List Char) : ℕ := Nat.ofDigitChars 10 ds 0

theorem isDigits_toDigits (n : ℕ) : IsDigits (Nat.toDigits 10 n) :=
  ⟨Nat.toDigits_ne_nil, fun _ hc => Nat.isDigit_of_mem_toDigits (by decide) (by decide) hc⟩

@[simp] theorem natOfDigits_toDigits (n : ℕ) : natOfDigits (Nat.toDigits 10 n) = n :=
  Nat.ofDigitChars_ten_toDigits

/-- The numeral of an integer. -/
def ofInt (n : ℤ) : Numeral := { neg := n < 0, int := Nat.toDigits 10 n.natAbs }

/-- A numeral without fraction and exponent is an integer. -/
def isInt (t : Numeral) : Bool := t.frac.isNone && t.exp.isNone

def toInt (t : Numeral) : ℤ := if t.neg then -natOfDigits t.int else natOfDigits t.int

@[simp] theorem isInt_ofInt (n : ℤ) : (ofInt n).isInt = true := rfl

@[simp] theorem toInt_ofInt (n : ℤ) : (ofInt n).toInt = n := by
  simp only [toInt, ofInt, natOfDigits_toDigits, decide_eq_true_eq]
  split_ifs <;> omega

theorem head?_toDigits {n : ℕ} (hn : 0 < n) : (Nat.toDigits 10 n).head? ≠ some '0' := by
  induction n using Nat.strong_induction_on with
  | _ n ih =>
    by_cases hlt : n < 10
    · rw [Nat.toDigits_of_lt_base hlt]
      intro h
      simp only [List.head?_cons, Option.some.injEq] at h
      interval_cases n <;> exact absurd h (by decide)
    · rw [Nat.toDigits_of_base_le (by decide) (by omega)]
      have hne : Nat.toDigits 10 (n / 10) ≠ [] := Nat.toDigits_ne_nil
      rw [List.head?_append_of_ne_nil _ hne]
      exact ih (n / 10) (by omega) (by omega)

theorem lead_toDigits (n : ℕ) :
    Nat.toDigits 10 n = ['0'] ∨ (Nat.toDigits 10 n).head? ≠ some '0' := by
  rcases Nat.eq_zero_or_pos n with rfl | hn
  · exact .inl (Nat.toDigits_zero 10)
  · exact .inr (head?_toDigits hn)

theorem wf_ofInt (n : ℤ) : (ofInt n).Wf where
  int := isDigits_toDigits _
  lead := lead_toDigits _
  frac := by simp [ofInt]
  exp := by simp [ofInt]

/-! ## Finite binary64 values -/

end Numeral

namespace Binary64

/-- A finite double: a sign and the pattern of its magnitude. -/
structure Finite where
  neg : Bool
  bits : ℕ
  lt : bits < 2047 * 2 ^ 52
  deriving DecidableEq

namespace Finite

def toRat (x : Finite) : ℚ := if x.neg then -value x.bits else value x.bits

end Finite

end Binary64

namespace Numeral

open Binary64

/-- The nonnegative rational a numeral's digits and exponent spell. -/
def magnitude (t : Numeral) : ℚ :=
  let frac := t.frac.getD []
  let exp : ℤ := match t.exp with
    | none => 0
    | some (neg, ds) => if neg then -natOfDigits ds else natOfDigits ds
  natOfDigits (t.int ++ frac) * 10 ^ (exp - frac.length)

/-- The nearest double, unless that is an infinity. -/
def toFinite? (t : Numeral) : Option Finite :=
  if h : nearest t.magnitude < 2047 * 2 ^ 52 then some ⟨t.neg, _, h⟩ else none

/-- At least two digits. -/
def pad2 (n : ℕ) : List Char :=
  match Nat.toDigits 10 n with
  | [c] => ['0', c]
  | ds => ds

/-- The numeral of the digits `ds` times `10ᵉ`, given the decimal place of the leading digit: in
exponent form when that place is below `10⁻⁴` or from `10¹⁶` on. -/
def layout (neg : Bool) (ds : List Char) (e place : ℤ) : Numeral :=
  if place < -4 ∨ 16 ≤ place then
    { neg, int := ds.take 1
      frac := if ds.length = 1 then none else some (ds.drop 1)
      exp := some (place < 0, pad2 place.natAbs) }
  else if 0 ≤ e then
    { neg, int := ds ++ List.replicate e.toNat '0', frac := some ['0'] }
  else if 0 ≤ place then
    { neg, int := ds.take (place + 1).toNat, frac := some (ds.drop (place + 1).toNat) }
  else
    { neg, int := ['0'], frac := some (List.replicate (-place - 1).toNat '0' ++ ds) }

/-- The numeral of `c · 10ᵉ`. -/
def ofDecimal (neg : Bool) (c : ℕ) (e : ℤ) : Numeral :=
  layout neg (Nat.toDigits 10 c) e ((Nat.toDigits 10 c).length + e - 1)

/-- The numeral a finite double is printed as. -/
def repr (x : Finite) : Numeral :=
  if x.bits = 0 then { neg := x.neg, int := ['0'], frac := some ['0'] }
  else ofDecimal x.neg (shortest x.bits).1 (shortest x.bits).2

@[simp] theorem ofDecimal_neg (neg : Bool) (c : ℕ) (e : ℤ) : (ofDecimal neg c e).neg = neg := by
  unfold ofDecimal layout
  split_ifs <;> rfl

@[simp] theorem repr_neg (x : Finite) : (repr x).neg = x.neg := by
  unfold repr
  split_ifs <;> simp

theorem isInt_repr (x : Finite) : (repr x).isInt = false := by
  unfold repr ofDecimal layout
  split_ifs <;> simp [isInt]

/-! ### Digit strings -/

theorem natOfDigits_append (as bs : List Char) :
    natOfDigits (as ++ bs) = natOfDigits as * 10 ^ bs.length + natOfDigits bs := by
  unfold natOfDigits
  induction bs using List.reverseRecOn with
  | nil => simp [Nat.ofDigitChars]
  | append_singleton bs c ih =>
    simp only [Nat.ofDigitChars, ← List.append_assoc, List.foldl_append, List.foldl_cons,
      List.foldl_nil, List.length_append, List.length_cons, List.length_nil, pow_succ] at ih ⊢
    rw [ih]
    ring

theorem natOfDigits_replicate (k : ℕ) : natOfDigits (List.replicate k '0') = 0 := by
  induction k with
  | zero => rfl
  | succ k ih => rw [List.replicate_succ', natOfDigits_append, ih]; rfl

theorem isDigits_append {as bs : List Char} (has : IsDigits as) (hbs : ∀ c ∈ bs, c.isDigit) :
    IsDigits (as ++ bs) :=
  ⟨by simp [has.1], by simpa [or_imp, forall_and] using ⟨has.2, hbs⟩⟩

theorem isDigit_replicate {k : ℕ} : ∀ c ∈ List.replicate k '0', c.isDigit := by
  intro c hc
  rw [List.eq_of_mem_replicate hc]
  decide

theorem natOfDigits_pad2 (n : ℕ) : natOfDigits (pad2 n) = n := by
  have h := natOfDigits_toDigits n
  unfold pad2
  split
  · rename_i c hc
    rw [hc] at h
    rw [show ['0', c] = ['0'] ++ [c] from rfl, natOfDigits_append, h]
    simp [natOfDigits, Nat.ofDigitChars]
  · exact h

theorem isDigits_zero : IsDigits ['0'] := ⟨by simp, by simp⟩

theorem isDigits_pad2 (n : ℕ) : IsDigits (pad2 n) := by
  have h := isDigits_toDigits n
  unfold pad2
  split
  · rename_i c hc
    rw [hc] at h
    refine ⟨by simp, fun d hd => ?_⟩
    rcases List.mem_cons.mp hd with rfl | hd
    · decide
    · exact h.2 d hd
  · exact h

/-! ### The printed numeral -/

variable {neg : Bool} {c : ℕ} {e : ℤ}

theorem wf_layout {ds : List Char} (hdigits : IsDigits ds) (hhead : ds.head? ≠ some '0')
    {place : ℤ} (hplace : place = ds.length + e - 1) : (layout neg ds e place).Wf := by
  obtain ⟨hne, hds⟩ := hdigits
  have hlen : 0 < ds.length := List.length_pos_iff.mpr hne
  have htake : ∀ {k}, 0 < k → IsDigits (ds.take k) := fun {k} hk =>
    ⟨by simp [hne]; omega, fun d hd => hds d (List.mem_of_mem_take hd)⟩
  have htakeHead : ∀ {k}, 0 < k → (ds.take k).head? ≠ some '0' := fun {k} hk => by
    rwa [List.head?_take, if_neg (by omega)]
  unfold layout
  split_ifs with hfar hone he hpos
  · refine ⟨htake one_pos, .inr (htakeHead one_pos), by simp, ?_⟩
    simp only [Option.some.injEq, Prod.mk.injEq]
    rintro n l ⟨-, rfl⟩
    exact isDigits_pad2 _
  · refine ⟨htake one_pos, .inr (htakeHead one_pos), ?_, ?_⟩
    · simp only [Option.some.injEq]
      rintro l rfl
      exact ⟨fun h => by rw [List.drop_eq_nil_iff] at h; omega,
        fun d hd => hds d (List.mem_of_mem_drop hd)⟩
    · simp only [Option.some.injEq, Prod.mk.injEq]
      rintro n l ⟨-, rfl⟩
      exact isDigits_pad2 _
  · refine ⟨isDigits_append ⟨hne, hds⟩ isDigit_replicate, .inr ?_, ?_, by simp⟩
    · rwa [List.head?_append_of_ne_nil _ hne]
    · simp only [Option.some.injEq]
      rintro l rfl
      exact ⟨by simp, fun d hd => by simp_all⟩
  · refine ⟨htake (by omega), .inr (htakeHead (by omega)), ?_, by simp⟩
    simp only [Option.some.injEq]
    rintro l rfl
    exact ⟨fun h => by rw [List.drop_eq_nil_iff] at h; omega,
      fun d hd => hds d (List.mem_of_mem_drop hd)⟩
  · refine ⟨isDigits_zero, .inl rfl, ?_, by simp⟩
    simp only [Option.some.injEq]
    rintro l rfl
    refine ⟨by simp [hne], fun d hd => ?_⟩
    rcases List.mem_append.mp hd with hd | hd
    · exact isDigit_replicate d hd
    · exact hds d hd

theorem wf_ofDecimal (hc : 0 < c) : (ofDecimal neg c e).Wf :=
  wf_layout (isDigits_toDigits c) (head?_toDigits hc) rfl

theorem signed_pad2 (place : ℤ) :
    (if decide (place < 0) = true then -(natOfDigits (pad2 place.natAbs) : ℤ)
      else natOfDigits (pad2 place.natAbs)) = place := by
  rw [natOfDigits_pad2]
  simp only [decide_eq_true_eq]
  split_ifs <;> omega

theorem magnitude_layout {ds : List Char} (hne : ds ≠ []) {place : ℤ}
    (hplace : place = ds.length + e - 1) :
    (layout neg ds e place).magnitude = natOfDigits ds * 10 ^ e := by
  have hlen : 0 < ds.length := List.length_pos_iff.mpr hne
  have h0 : natOfDigits ['0'] = 0 := rfl
  unfold layout
  split_ifs with hfar hone he hpos
  · simp only [magnitude, signed_pad2, Option.getD_none, List.append_nil, List.length_nil]
    rw [List.take_of_length_le (by omega), hplace, hone]
    congr 2
    omega
  · simp only [magnitude, signed_pad2, Option.getD_some, List.take_append_drop, List.length_drop]
    congr 2
    omega
  · obtain ⟨k, rfl⟩ : ∃ k : ℕ, e = k := ⟨e.toNat, by omega⟩
    simp only [magnitude, Option.getD_some, natOfDigits_append, natOfDigits_replicate, h0,
      List.length_replicate, List.length_cons, List.length_nil, Int.toNat_natCast, add_zero,
      zero_add, pow_one]
    push_cast
    rw [zpow_neg_one, zpow_natCast]
    field_simp
  · simp only [magnitude, Option.getD_some, List.take_append_drop, List.length_drop]
    congr 2
    omega
  · simp only [magnitude, Option.getD_some, natOfDigits_append, natOfDigits_replicate,
      List.length_append, List.length_replicate, h0, zero_mul, zero_add]
    congr 2
    omega

theorem magnitude_ofDecimal : (ofDecimal neg c e).magnitude = c * 10 ^ e := by
  rw [ofDecimal, magnitude_layout (isDigits_toDigits c).1 rfl, natOfDigits_toDigits]

theorem wf_repr (x : Finite) : (repr x).Wf := by
  unfold repr
  split_ifs with h
  · exact ⟨isDigits_zero, .inl rfl, by rintro l ⟨⟩; exact isDigits_zero, by simp⟩
  · exact wf_ofDecimal (shortest_pos (by omega) (by have := x.lt; omega))

theorem nearest_magnitude_repr (x : Finite) : nearest (repr x).magnitude = x.bits := by
  unfold repr
  split_ifs with h
  · rw [h]
    simp only [magnitude]
    rw [show natOfDigits (['0'] ++ (some ['0']).getD []) = 0 from rfl, Nat.cast_zero, zero_mul,
      nearest_zero]
  · have hlt := x.lt
    rw [magnitude_ofDecimal, nearest_shortest (by omega) (by omega)]

/-- **A finite double is read back from its printed form.** -/
theorem toFinite?_repr (x : Finite) : (repr x).toFinite? = some x := by
  have h := nearest_magnitude_repr x
  unfold toFinite?
  rw [dif_pos (h ▸ x.lt)]
  cases x
  simp_all

end Numeral
