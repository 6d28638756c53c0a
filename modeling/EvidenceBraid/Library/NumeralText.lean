import Mathlib.Data.List.TakeWhile
import EvidenceBraid.Library.Numeral

/-!
# Numerals in their own spelling

A whole text that scans as an integer is the spelling of that integer, unless it is `-0`
(`text_of_scan`).
-/

namespace Numeral

/-! ## What a scan has read -/

theorem scanMinus_sound {s rest : List Char} {neg : Bool} (h : scanMinus s = (neg, rest)) :
    s = (if neg then ['-'] else []) ++ rest := by
  unfold scanMinus at h
  split at h
  · obtain ⟨rfl, rfl⟩ := Prod.mk.inj h
    rfl
  · obtain ⟨rfl, rfl⟩ := Prod.mk.inj h
    rfl

theorem scanInt_sound {s int rest : List Char} (h : scanInt s = some (int, rest)) :
    s = int ++ rest ∧ IsDigits int ∧ (int = ['0'] ∨ int.head? ≠ some '0') := by
  unfold scanInt at h
  split at h
  · obtain ⟨rfl, rfl⟩ := Prod.mk.inj (Option.some.inj h)
    exact ⟨rfl, isDigits_zero, .inl rfl⟩
  · next hzero =>
    split at h
    · cases h
    · next hnil =>
      obtain ⟨rfl, rfl⟩ := Prod.mk.inj (Option.some.inj h)
      refine ⟨List.takeWhile_append_dropWhile.symm, ⟨hnil, fun c hc => List.mem_takeWhile_imp hc⟩, .inr ?_⟩
      cases s with
      | nil => exact fun h => by cases h
      | cons c s =>
        by_cases hc : c.isDigit = true
        · rw [List.takeWhile_cons_of_pos hc, List.head?_cons]
          exact fun heq => hzero s (by rw [Option.some.inj heq])
        · rw [List.takeWhile_cons_of_neg hc]
          exact fun h => by cases h

theorem scanFrac_sound {s rest : List Char} (h : scanFrac s = (none, rest)) : s = rest := by
  unfold scanFrac at h
  split at h
  · split at h
    · exact (Prod.mk.inj h).2
    · cases (Prod.mk.inj h).1
  · exact (Prod.mk.inj h).2

theorem scanExp_sound {s rest : List Char} (h : scanExp s = (none, rest)) : s = rest := by
  unfold scanExp at h
  split at h
  · split_ifs at h
    · split at h
      · exact (Prod.mk.inj h).2
      · cases (Prod.mk.inj h).1
    · exact (Prod.mk.inj h).2
  · exact (Prod.mk.inj h).2

/-- The digits of an integer numeral. -/
theorem scan_sound {s rest : List Char} {t : Numeral} (h : scan s = some (t, rest)) (hint : t.isInt = true) :
    s = t.text ++ rest ∧ IsDigits t.int ∧ (t.int = ['0'] ∨ t.int.head? ≠ some '0') := by
  unfold scan at h
  rcases hminus : scanMinus s with ⟨neg, s₁⟩
  simp only [hminus, Option.bind_eq_bind, Option.bind_eq_some_iff] at h
  obtain ⟨⟨int, s₂⟩, hscan, h⟩ := h
  rcases hfrac : scanFrac s₂ with ⟨frac, s₃⟩
  simp only [hfrac] at h
  rcases hexp : scanExp s₃ with ⟨exp, s₄⟩
  simp only [hexp] at h
  obtain ⟨rfl, rfl⟩ := Prod.mk.inj (Option.some.inj h)
  simp only [isInt, Bool.and_eq_true, Option.isNone_iff_eq_none] at hint
  obtain ⟨rfl, rfl⟩ := hint
  obtain ⟨hs₂, hdigits, hlead⟩ := scanInt_sound hscan
  refine ⟨?_, hdigits, hlead⟩
  rw [scanMinus_sound hminus, hs₂, scanFrac_sound hfrac, scanExp_sound hexp]
  simp [text, fracText, expText]

/-! ## Digits -/

theorem digitChar_sub {c : Char} (h : c.isDigit = true) :
    c.toNat - 48 < 10 ∧ Nat.digitChar (c.toNat - 48) = c := by
  have hrange : 48 ≤ c.toNat ∧ c.toNat ≤ 57 := by
    simpa [Char.isDigit, UInt32.le_iff_toNat_le] using h
  obtain ⟨n, hn⟩ : ∃ n, c.toNat = 48 + n := ⟨c.toNat - 48, by omega⟩
  have hchar : c = Char.ofNat (48 + n) := by rw [← hn, Char.ofNat_toNat]
  have hlt : n < 10 := by omega
  have hcases : ∀ n < 10, Nat.digitChar n = Char.ofNat (48 + n) := by decide
  refine ⟨by omega, ?_⟩
  rw [hn, Nat.add_sub_cancel_left, hcases n hlt, hchar]

/-- Digits without a superfluous zero spell the number that they are. -/
theorem toDigits_natOfDigits {ds : List Char} (hdigits : IsDigits ds)
    (hlead : ds = ['0'] ∨ ds.head? ≠ some '0') : Nat.toDigits 10 (natOfDigits ds) = ds := by
  rcases hlead with rfl | hhead
  · rfl
  induction ds using List.reverseRecOn with
  | nil => exact absurd rfl hdigits.1
  | append_singleton ds c ih =>
    obtain ⟨hlt, hchar⟩ := digitChar_sub (hdigits.2 c (by simp))
    have hone : natOfDigits [c] = c.toNat - 48 := by
      unfold natOfDigits
      rw [Nat.ofDigitChars_cons, Nat.ofDigitChars_nil]
      simp
    rw [natOfDigits_append, hone, List.length_singleton, pow_one]
    by_cases hnil : ds = []
    · rw [hnil, List.nil_append]
      have hzero : natOfDigits [] = 0 := rfl
      rw [hzero, Nat.zero_mul, Nat.zero_add, Nat.toDigits_of_lt_base hlt, hchar]
    · rw [List.head?_append_of_ne_nil ds hnil] at hhead
      have hds : IsDigits ds := ⟨hnil, fun d hd => hdigits.2 d (by simp [hd])⟩
      have hprevious := ih hds hhead
      have hpos : 0 < natOfDigits ds := by
        by_contra hzero
        rw [Nat.eq_zero_of_not_pos hzero, Nat.toDigits_zero] at hprevious
        rw [← hprevious] at hhead
        exact hhead rfl
      rw [mul_comm, ← Nat.toDigits_append_toDigits (by decide) hpos hlt, hprevious,
        Nat.toDigits_of_lt_base hlt, hchar]

/-- **A text that scans as an integer** spells it, unless it is `-0`. -/
theorem text_of_scan {s : List Char} {t : Numeral} (h : scan s = some (t, [])) (hint : t.isInt = true)
    (hzero : s ≠ ['-', '0']) : s = (ofInt t.toInt).text := by
  obtain ⟨hs, hdigits, hlead⟩ := scan_sound h hint
  have hround := toDigits_natOfDigits hdigits hlead
  rw [List.append_nil] at hs
  obtain ⟨neg, int, frac, exp⟩ := t
  simp only [isInt, Bool.and_eq_true, Option.isNone_iff_eq_none] at hint
  obtain ⟨rfl, rfl⟩ := hint
  dsimp only at hround
  rw [hs]
  by_cases hneg : neg = true
  · have hpos : 0 < natOfDigits int := by
      by_contra hnot
      rw [Nat.eq_zero_of_not_pos hnot, Nat.toDigits_zero] at hround
      rw [hs, hneg, ← hround] at hzero
      exact hzero rfl
    have hsign : ((-(natOfDigits int : ℤ)) < 0) := by omega
    simp [text, ofInt, toInt, hneg, hround, fracText, expText, hpos]
  · have hsign : ¬((natOfDigits int : ℤ) < 0) := by omega
    simp [text, ofInt, toInt, hneg, hround, fracText, expText, hsign]

end Numeral
