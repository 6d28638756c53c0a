import EvidenceBraid.Library.JsonDepth
import EvidenceBraid.Library.JsonNodes
import EvidenceBraid.Library.JsonRoundTrip
import EvidenceBraid.Library.NumeralText

/-!
# The JSON grammar, and scanners of its texts

`Grammar.Text s n` derives `s` as a JSON text whose containers are nested `n` deep: with any
whitespace, any escapes in its strings, lone surrogates among them, any numbers, and keys that may
occur twice.

**Theorem (`scanDepth_text`).** The byte scanner passes such a text exactly when `n` is within the
limit.

**Theorem (`text_of_loads`).** What a reader reads is such a text, nested as deep as the value.

**Idea.** The scanner's place follows the derivation: it is outside strings at the start and the end
of every value, and the pieces of a string leave it inside, as a backslash takes the next character
along. A value is then passed with the depth it is met with, or stopped inside.
-/

namespace Json

namespace Grammar

/-! ## Grammar -/

/-- Whitespace. -/
def Blank (s : List Char) : Prop := ∀ c ∈ s, isSpace c = true

theorem blank_nil : Blank [] := List.forall_mem_nil _

/-- What follows a backslash, but for `u`. -/
def escapeLetters : List Char := ['"', '\\', '/', 'b', 'f', 'n', 'r', 't']

/-- One character of a string, plain or escaped. -/
inductive Piece : List Char → Prop
  | plain {c : Char} (hcontrol : 32 ≤ c.toNat) (hquote : c ≠ '"') (hescape : c ≠ '\\') : Piece [c]
  | short {e : Char} (he : e ∈ escapeLetters) : Piece ['\\', e]
  | unit {a b c d : Char} (h : ∀ x ∈ [a, b, c, d], (hexVal x).isSome) : Piece ['\\', 'u', a, b, c, d]

/-- The pieces of a string and its closing quote. -/
inductive Pieces : List Char → Prop
  | close : Pieces ['"']
  | more {p s : List Char} (hp : Piece p) (hs : Pieces s) : Pieces (p ++ s)

/-- An optional sign before digits. -/
def Signed (signs : List Char) (s : List Char) : Prop :=
  ∃ ds, Numeral.IsDigits ds ∧ (s = ds ∨ ∃ c ∈ signs, s = c :: ds)

/-- A number. -/
structure Number (s : List Char) : Prop where
  parts : ∃ int frac exp, s = int ++ (frac ++ exp) ∧
    (∃ ds, Numeral.IsDigits ds ∧ (ds = ['0'] ∨ ds.head? ≠ some '0') ∧ (int = ds ∨ int = '-' :: ds)) ∧
    (frac = [] ∨ ∃ ds, Numeral.IsDigits ds ∧ frac = '.' :: ds) ∧
    (exp = [] ∨ ∃ e ds, (e = 'e' ∨ e = 'E') ∧ Signed ['-', '+'] ds ∧ exp = e :: ds)

/-- The literals. -/
def literals : List (List Char) := [['n', 'u', 'l', 'l'], ['t', 'r', 'u', 'e'], ['f', 'a', 'l', 's', 'e']]

mutual

/-- The text of a value whose containers are nested so deep. -/
inductive Value : List Char → ℕ → Prop
  | literal {s : List Char} (h : s ∈ literals) : Value s 0
  | number {s : List Char} (h : Number s) : Value s 0
  | string {s : List Char} (h : Pieces s) : Value ('"' :: s) 0
  | emptyArray {w : List Char} (hw : Blank w) : Value ('[' :: (w ++ [']'])) 1
  | array {s : List Char} {n : ℕ} (h : Items s n) : Value ('[' :: s) (n + 1)
  | emptyObject {w : List Char} (hw : Blank w) : Value ('{' :: (w ++ ['}'])) 1
  | object {s : List Char} {n : ℕ} (h : Members s n) : Value ('{' :: s) (n + 1)

/-- The items of an array and the closing bracket. -/
inductive Items : List Char → ℕ → Prop
  | last {w s w' : List Char} {n : ℕ} (hw : Blank w) (h : Value s n) (hw' : Blank w') :
      Items (w ++ (s ++ (w' ++ [']']))) n
  | more {w s w' t : List Char} {n m : ℕ} (hw : Blank w) (h : Value s n) (hw' : Blank w')
      (ht : Items t m) : Items (w ++ (s ++ (w' ++ (',' :: t)))) (max n m)

/-- The members of an object and the closing brace. -/
inductive Members : List Char → ℕ → Prop
  | last {w k w₁ w₂ s w₃ : List Char} {n : ℕ} (hw : Blank w) (hk : Pieces k) (hw₁ : Blank w₁)
      (hw₂ : Blank w₂) (h : Value s n) (hw₃ : Blank w₃) :
      Members (w ++ ('"' :: (k ++ (w₁ ++ (':' :: (w₂ ++ (s ++ (w₃ ++ ['}'])))))))) n
  | more {w k w₁ w₂ s w₃ t : List Char} {n m : ℕ} (hw : Blank w) (hk : Pieces k) (hw₁ : Blank w₁)
      (hw₂ : Blank w₂) (h : Value s n) (hw₃ : Blank w₃) (ht : Members t m) :
      Members (w ++ ('"' :: (k ++ (w₁ ++ (':' :: (w₂ ++ (s ++ (w₃ ++ (',' :: t)))))))) ) (max n m)

end

/-- A value between whitespace. -/
def Text (s : List Char) (n : ℕ) : Prop :=
  ∃ w t w', s = w ++ (t ++ w') ∧ Blank w ∧ Value t n ∧ Blank w'

/-! ## The scanner on a text -/

section Scanner

variable {limit depth : ℤ}

theorem scanChars_blank {w : List Char} (hw : Blank w) (s : List Char) :
    scanChars limit depth .outside (w ++ s) = scanChars limit depth .outside s := by
  have hflat : ∀ c ∈ w, Flat c := by
    intro c hc
    have hspace := hw c hc
    simp only [isSpace, Bool.or_eq_true, decide_eq_true_eq] at hspace
    obtain ((rfl | rfl) | rfl) | rfl := hspace <;> decide
  rw [scanChars_append, scanChars_flat hflat, Option.bind_some]

/-- A character that is neither a quote nor a bracket is passed over. -/
theorem scanChars_cons {c : Char} (hc : Flat c) (s : List Char) :
    scanChars limit depth .outside (c :: s) = scanChars limit depth .outside s := by
  show scanChars limit depth .outside ([c] ++ s) = _
  rw [scanChars_append, scanChars_flat (List.forall_mem_singleton.mpr hc), Option.bind_some]

theorem scanChars_piece {p : List Char} (hp : Piece p) :
    scanChars limit depth .quoted p = some (depth, .quoted) := by
  cases hp with
  | plain _ hquote hescape => exact scanChars_quoted_plain (by simpa using ⟨hquote, hescape⟩)
  | short _ => rfl
  | @unit a b c d h =>
    -- The backslash takes the `u` along, and no digit is a quote or a backslash.
    have hdigit : ∀ x ∈ [a, b, c, d], x ≠ '"' ∧ x ≠ '\\' := by
      intro x hx
      refine ⟨?_, ?_⟩ <;> intro heq <;> have hsome := h x hx <;> rw [heq] at hsome <;>
        exact absurd hsome (by decide)
    have hpair : scanChars limit depth .quoted ['\\', 'u', a, b, c, d] =
        scanChars limit depth .quoted [a, b, c, d] := rfl
    rw [hpair]
    exact scanChars_quoted_plain hdigit

/-- The pieces of a string lead out of it. -/
theorem scanChars_pieces {s : List Char} (hs : Pieces s) :
    scanChars limit depth .quoted s = some (depth, .outside) := by
  induction hs with
  | close => rfl
  | more hp _ ih => rw [scanChars_append, scanChars_piece hp, Option.bind_some, ih]

theorem scanChars_string {k : List Char} (hk : Pieces k) (s : List Char) :
    scanChars limit depth .outside ('"' :: (k ++ s)) = scanChars limit depth .outside s := by
  show scanChars limit depth .quoted (k ++ s) = _
  rw [scanChars_append, scanChars_pieces hk, Option.bind_some]

theorem flat_digits {ds : List Char} (h : Numeral.IsDigits ds) : ∀ c ∈ ds, Flat c := by
  intro c hc
  have hrange : 48 ≤ c.toNat ∧ c.toNat ≤ 57 := by
    simpa [Char.isDigit, UInt32.le_iff_toNat_le] using h.2 c hc
  unfold Flat
  omega

theorem flat_of_all {cs : List Char} (h : (cs.all fun c => decide (Flat c)) = true) : ∀ c ∈ cs, Flat c :=
  fun c hc => of_decide_eq_true (List.all_eq_true.mp h c hc)

theorem flat_number {s : List Char} (h : Number s) : ∀ c ∈ s, Flat c := by
  obtain ⟨int, frac, exp, rfl, ⟨ds, hds, _, hint⟩, hfrac, hexp⟩ := h.parts
  have hminus : Flat '-' := by decide
  have hsigned : ∀ ds, Signed ['-', '+'] ds → ∀ c ∈ ds, Flat c := by
    intro ds hall
    obtain ⟨es, hes, hsame⟩ := hall
    obtain rfl | ⟨sign, hsign, rfl⟩ := hsame
    · exact flat_digits hes
    · have hflat : ∀ c ∈ ['-', '+'], Flat c := flat_of_all (by decide)
      exact List.forall_mem_cons.mpr ⟨hflat sign hsign, flat_digits hes⟩
  have hi : ∀ c ∈ int, Flat c := by
    obtain rfl | rfl := hint
    · exact flat_digits hds
    · exact List.forall_mem_cons.mpr ⟨hminus, flat_digits hds⟩
  have hf : ∀ c ∈ frac, Flat c := by
    obtain rfl | ⟨es, hes, rfl⟩ := hfrac
    · exact nofun
    · exact List.forall_mem_cons.mpr ⟨by decide, flat_digits hes⟩
  have he : ∀ c ∈ exp, Flat c := by
    obtain rfl | ⟨e, es, rfl | rfl, hes, rfl⟩ := hexp
    · exact nofun
    · exact List.forall_mem_cons.mpr ⟨by decide, hsigned es hes⟩
    · exact List.forall_mem_cons.mpr ⟨by decide, hsigned es hes⟩
  intro c hc
  rw [List.mem_append, List.mem_append] at hc
  obtain hc | hc | hc := hc
  · exact hi c hc
  · exact hf c hc
  · exact he c hc

/-- What a scan of a value leaves: the depth it was met with, or nothing if it is too deep. -/
def passed (limit depth : ℤ) (n : ℕ) : Option (ℤ × Place) :=
  if depth + n ≤ limit then some (depth, .outside) else none

/-- A container in whose content the scanner comes down again. -/
theorem scanChars_container {c : Char} (hc : c = '[' ∨ c = '{') {s : List Char} {n : ℕ}
    (h : depth + 1 ≤ limit → scanChars limit (depth + 1) .outside s =
      if depth + 1 + n ≤ limit then some (depth, .outside) else none) :
    scanChars limit depth .outside (c :: s) = passed limit depth (n + 1) := by
  rw [scanChars_open hc, passed]
  by_cases hopen : depth + 1 ≤ limit
  · rw [if_pos hopen, h hopen]
    push_cast
    rw [add_right_comm, add_assoc]
  · rw [if_neg hopen, if_neg (by push_cast; omega)]

/-- A closing bracket after whitespace. -/
theorem scanChars_close {c : Char} (hc : c = ']' ∨ c = '}') {w : List Char} (hw : Blank w) :
    scanChars limit (depth + 1) .outside (w ++ [c]) = some (depth, .outside) := by
  rw [scanChars_blank hw]
  obtain rfl | rfl := hc
  · show some (depth + 1 - 1, Place.outside) = _
    rw [add_sub_cancel_right]
  · show some (depth + 1 - 1, Place.outside) = _
    rw [add_sub_cancel_right]

/-- A value before more text. -/
theorem scanChars_value_append {s : List Char} {n : ℕ}
    (h : scanChars limit depth .outside s = passed limit depth n) (t : List Char) :
    scanChars limit depth .outside (s ++ t) =
      if depth + n ≤ limit then scanChars limit depth .outside t else none := by
  rw [scanChars_append, h, passed]
  by_cases hn : depth + n ≤ limit
  · rw [if_pos hn, if_pos hn, Option.bind_some]
  · rw [if_neg hn, if_neg hn, Option.bind_none]

/-- Of two values the deeper one decides. -/
theorem ite_max {n m : ℕ} {α : Type} (x : Option α) :
    (if depth + n ≤ limit then (if depth + m ≤ limit then x else none) else none) =
      if depth + (max n m : ℕ) ≤ limit then x else none := by
  rw [Nat.cast_max]
  by_cases hn : depth + n ≤ limit
  · rw [if_pos hn]
    exact if_congr (by omega) rfl rfl
  · rw [if_neg hn, if_neg (by omega)]

mutual

/-- **What the scanner makes of a value.** -/
theorem scanChars_value : ∀ {s : List Char} {n : ℕ}, Value s n → ∀ {limit depth : ℤ}, depth ≤ limit →
    scanChars limit depth .outside s = passed limit depth n
  | _, _, .literal h, limit, depth, hdepth => by
    have hall : (literals.all fun s => s.all fun c => decide (Flat c)) = true := by decide
    rw [scanChars_flat (flat_of_all (List.all_eq_true.mp hall _ h)), passed, if_pos (by simpa using hdepth)]
  | _, _, .number h, limit, depth, hdepth => by
    rw [scanChars_flat (flat_number h), passed, if_pos (by simpa using hdepth)]
  | _, _, @Value.string s h, limit, depth, hdepth => by
    have hstring := @scanChars_string limit depth s h []
    rw [List.append_nil] at hstring
    rw [hstring, passed, if_pos (by simpa using hdepth)]
    rfl
  | _, _, .emptyArray hw, limit, depth, hdepth =>
    @scanChars_container limit depth '[' (.inl rfl) _ 0 fun hopen => by
      rw [scanChars_close (.inl rfl) hw, if_pos (by simpa using hopen)]
  | _, _, .array h, limit, depth, hdepth =>
    scanChars_container (.inl rfl) fun hopen => scanChars_items h hopen
  | _, _, .emptyObject hw, limit, depth, hdepth =>
    @scanChars_container limit depth '{' (.inr rfl) _ 0 fun hopen => by
      rw [scanChars_close (.inr rfl) hw, if_pos (by simpa using hopen)]
  | _, _, .object h, limit, depth, hdepth =>
    scanChars_container (.inr rfl) fun hopen => scanChars_members h hopen

theorem scanChars_items : ∀ {s : List Char} {n : ℕ}, Items s n → ∀ {limit depth : ℤ},
    depth + 1 ≤ limit → scanChars limit (depth + 1) .outside s =
      if depth + 1 + n ≤ limit then some (depth, .outside) else none
  | _, _, .last hw h hw', limit, depth, hdepth => by
    rw [scanChars_blank hw, scanChars_value_append (scanChars_value h hdepth),
      scanChars_close (.inl rfl) hw']
  | _, _, .more hw h hw' ht, limit, depth, hdepth => by
    rw [scanChars_blank hw, scanChars_value_append (scanChars_value h hdepth), scanChars_blank hw',
      scanChars_cons (by decide), scanChars_items ht hdepth, ite_max]

theorem scanChars_members : ∀ {s : List Char} {n : ℕ}, Members s n → ∀ {limit depth : ℤ},
    depth + 1 ≤ limit → scanChars limit (depth + 1) .outside s =
      if depth + 1 + n ≤ limit then some (depth, .outside) else none
  | _, _, .last hw hk hw₁ hw₂ h hw₃, limit, depth, hdepth => by
    rw [scanChars_blank hw, scanChars_string hk, scanChars_blank hw₁, scanChars_cons (by decide),
      scanChars_blank hw₂, scanChars_value_append (scanChars_value h hdepth),
      scanChars_close (.inr rfl) hw₃]
  | _, _, .more hw hk hw₁ hw₂ h hw₃ ht, limit, depth, hdepth => by
    rw [scanChars_blank hw, scanChars_string hk, scanChars_blank hw₁, scanChars_cons (by decide),
      scanChars_blank hw₂, scanChars_value_append (scanChars_value h hdepth), scanChars_blank hw₃,
      scanChars_cons (by decide), scanChars_members ht hdepth, ite_max]

end

end Scanner

/-- **The scanner is exact** on every JSON text. -/
theorem scanDepth_text {s : List Char} {n : ℕ} (h : Text s n) (limit : ℕ) :
    scanDepth limit (Utf8.encode s) = true ↔ n ≤ limit := by
  obtain ⟨w, t, w', rfl, hw, ht, hw'⟩ := h
  have hend : scanChars (limit : ℤ) 0 .outside w' = some (0, .outside) := by
    have hblank := @scanChars_blank limit 0 w' hw' []
    rwa [List.append_nil] at hblank
  have hscan : scanChars (limit : ℤ) 0 .outside (w ++ (t ++ w')) = passed limit 0 n := by
    rw [scanChars_blank hw, scanChars_value_append (scanChars_value ht (Int.natCast_nonneg limit)),
      hend]
    rfl
  rw [scanDepth, scanCodes_encode]
  show (scanChars (limit : ℤ) 0 .outside (w ++ (t ++ w'))).isSome = true ↔ _
  rw [hscan, passed]
  by_cases hn : n ≤ limit
  · rw [if_pos (by omega)]
    simp [hn]
  · rw [if_neg (by omega)]
    simp [hn]

/-- A text has one nesting. -/
theorem Text.unique {s : List Char} {n m : ℕ} (hn : Text s n) (hm : Text s m) : n = m := by
  apply le_antisymm
  · rw [← scanDepth_text hn, scanDepth_text hm]
  · rw [← scanDepth_text hm, scanDepth_text hn]

/-! ## What a reader reads -/

theorem exists_blank (s : List Char) : ∃ w, s = w ++ skip s ∧ Blank w :=
  ⟨s.takeWhile isSpace, List.takeWhile_append_dropWhile.symm, fun _ hc => List.mem_takeWhile_imp hc⟩

theorem exists_digits {s : List Char} (h : s.takeWhile Char.isDigit ≠ []) :
    ∃ ds, Numeral.IsDigits ds ∧ s.takeWhile Char.isDigit = ds ∧ s = ds ++ s.dropWhile Char.isDigit :=
  ⟨_, ⟨h, fun _ hc => List.mem_takeWhile_imp hc⟩, rfl, List.takeWhile_append_dropWhile.symm⟩

theorem frac_of_scan (s : List Char) : ∃ frac, s = frac ++ (Numeral.scanFrac s).2 ∧
    (frac = [] ∨ ∃ ds, Numeral.IsDigits ds ∧ frac = '.' :: ds) := by
  unfold Numeral.scanFrac
  split
  · next s =>
    split
    · exact ⟨[], rfl, .inl rfl⟩
    · next ds hne =>
      obtain ⟨ds, hds, _, hs⟩ := exists_digits hne
      exact ⟨'.' :: ds, congrArg (List.cons '.') hs, .inr ⟨ds, hds, rfl⟩⟩
  · exact ⟨[], rfl, .inl rfl⟩

theorem sign_of_scan (s : List Char) : s = (Numeral.scanSign s).2 ∨
    ∃ c ∈ ['-', '+'], s = c :: (Numeral.scanSign s).2 := by
  unfold Numeral.scanSign
  split
  · exact .inr ⟨'-', by simp, rfl⟩
  · exact .inr ⟨'+', by simp, rfl⟩
  · exact .inl rfl

theorem exp_of_scan (s : List Char) : ∃ exp, s = exp ++ (Numeral.scanExp s).2 ∧
    (exp = [] ∨ ∃ e ds, (e = 'e' ∨ e = 'E') ∧ Signed ['-', '+'] ds ∧ exp = e :: ds) := by
  unfold Numeral.scanExp
  split
  · next c s =>
    split_ifs with hc
    · split
      · exact ⟨[], rfl, .inl rfl⟩
      · next ds hne =>
        obtain ⟨ds, hds, _, hs⟩ := exists_digits hne
        obtain hsign | ⟨sign, hmem, hsign⟩ := sign_of_scan s
        · exact ⟨c :: ds, congrArg (List.cons c) (hsign.trans hs), .inr ⟨c, ds, hc, ⟨ds, hds, .inl rfl⟩, rfl⟩⟩
        · refine ⟨c :: sign :: ds, congrArg (List.cons c) ?_,
            .inr ⟨c, sign :: ds, hc, ⟨ds, hds, .inr ⟨sign, hmem, rfl⟩⟩, rfl⟩⟩
          exact hsign.trans (congrArg (List.cons sign) hs)
    · exact ⟨[], rfl, .inl rfl⟩
  · exact ⟨[], rfl, .inl rfl⟩

/-- The scanner of numbers takes a number. -/
theorem number_of_scan {s rest : List Char} {t : Numeral} (h : Numeral.scan s = some (t, rest)) :
    ∃ p, s = p ++ rest ∧ Number p := by
  unfold Numeral.scan at h
  rcases hminus : Numeral.scanMinus s with ⟨neg, s₁⟩
  simp only [hminus, Option.bind_eq_bind, Option.bind_eq_some_iff] at h
  obtain ⟨⟨int, s₂⟩, hscan, h⟩ := h
  obtain ⟨hs₂, hdigits, hlead⟩ := Numeral.scanInt_sound hscan
  obtain ⟨frac, hfrac, hfracs⟩ := frac_of_scan s₂
  obtain ⟨exp, hexp, hexps⟩ := exp_of_scan (Numeral.scanFrac s₂).2
  obtain ⟨_, rfl⟩ := Prod.mk.inj (Option.some.inj h)
  refine ⟨((if neg then ['-'] else []) ++ int) ++ (frac ++ exp), ?_, ⟨_, frac, exp, rfl, ?_, hfracs, hexps⟩⟩
  · rw [Numeral.scanMinus_sound hminus, hs₂]
    conv_lhs => rw [hfrac, hexp]
    simp only [List.append_assoc]
  · refine ⟨int, hdigits, hlead, ?_⟩
    cases neg with
    | true => exact .inr rfl
    | false => exact .inl rfl

/-- What a character of a string is read from: one piece, or the two of a surrogate pair. -/
def Extends (p : List Char) : Prop := ∀ t, Pieces t → Pieces (p ++ t)

theorem Piece.extends {p : List Char} (hp : Piece p) : Extends p := fun _ ht => .more hp ht

theorem hex4_of_read {s rest : List Char} {u : ℕ} (h : readHex4 s = some (u, rest)) :
    ∃ p, '\\' :: 'u' :: s = p ++ rest ∧ Piece p := by
  unfold readHex4 at h
  split at h
  · next a b c d s =>
    simp only [Option.bind_eq_bind, Option.bind_eq_some_iff, Option.some.injEq, Prod.mk.injEq] at h
    obtain ⟨_, ha, _, hb, _, hc, _, hd, _, rfl⟩ := h
    exact ⟨['\\', 'u', a, b, c, d], rfl, .unit (by simp [ha, hb, hc, hd])⟩
  · simp at h

theorem extends_of_unicode {s rest : List Char} {c : Char} (h : readUnicode s = some (c, rest)) :
    ∃ p, '\\' :: 'u' :: s = p ++ rest ∧ Extends p := by
  unfold readUnicode at h
  simp only [Option.bind_eq_bind, Option.bind_eq_some_iff, Prod.exists] at h
  obtain ⟨u, s', hu, h⟩ := h
  obtain ⟨p, hp, hpiece⟩ := hex4_of_read hu
  split_ifs at h
  · split at h
    · next s'' =>
      simp only [Option.bind_eq_some_iff, Prod.exists] at h
      obtain ⟨v, s₃, hv, h⟩ := h
      obtain ⟨q, hq, hpiece'⟩ := hex4_of_read hv
      split_ifs at h
      obtain ⟨_, rfl⟩ := Prod.mk.inj (Option.some.inj h)
      refine ⟨p ++ q, by rw [hp, hq, List.append_assoc], fun t ht => ?_⟩
      rw [List.append_assoc]
      exact hpiece.extends _ (hpiece'.extends t ht)
    · simp at h
  · obtain ⟨_, rfl⟩ := Prod.mk.inj (Option.some.inj h)
    exact ⟨p, hp, hpiece.extends⟩

theorem extends_of_escape {s rest : List Char} {c : Char} (h : readEscape s = some (c, rest)) :
    ∃ p, '\\' :: s = p ++ rest ∧ Extends p := by
  cases s with
  | nil => simp [readEscape] at h
  | cons e s =>
    by_cases hu : e = 'u'
    · subst hu
      exact extends_of_unicode h
    · by_cases he : e ∈ escapeLetters
      · refine ⟨['\\', e], ?_, (Piece.short he).extends⟩
        have hrest : s = rest := by
          simp only [escapeLetters, List.mem_cons, List.not_mem_nil, or_false] at he
          rcases he with rfl | rfl | rfl | rfl | rfl | rfl | rfl | rfl
          all_goals exact (Prod.mk.inj (Option.some.inj h)).2
        rw [hrest]
        rfl
      · simp only [escapeLetters, List.mem_cons, List.not_mem_nil, or_false, not_or] at he
        simp [readEscape, he, hu] at h

/-- The reader of strings takes the pieces of a string. -/
theorem pieces_of_read : ∀ (n : ℕ) {s cs rest : List Char}, readChars n s = some (cs, rest) →
    ∃ t, s = t ++ rest ∧ Pieces t
  | 0, _, _, _, h => by simp [readChars] at h
  | _ + 1, [], _, _, h => by simp [readChars] at h
  | n + 1, c :: s, cs, rest, h => by
    unfold readChars at h
    by_cases hquote : c = '"'
    · rw [if_pos hquote] at h
      obtain ⟨_, rfl⟩ := Prod.mk.inj (Option.some.inj h)
      exact ⟨['"'], by rw [hquote]; rfl, .close⟩
    · rw [if_neg hquote] at h
      simp only [Option.bind_eq_bind, Option.bind_eq_some_iff, Prod.exists] at h
      obtain ⟨d, s', hchar, ds, s'', hrest, h⟩ := h
      obtain ⟨_, rfl⟩ := Prod.mk.inj (Option.some.inj h)
      obtain ⟨t, rfl, ht⟩ := pieces_of_read n hrest
      have hextends : ∃ p, c :: s = p ++ (t ++ s'') ∧ Extends p := by
        rw [readChar] at hchar
        by_cases hescape : c = '\\'
        · rw [if_pos hescape] at hchar
          rw [hescape]
          exact extends_of_escape hchar
        · rw [if_neg hescape] at hchar
          split_ifs at hchar with hcontrol
          obtain ⟨_, rfl⟩ := Prod.mk.inj (Option.some.inj hchar)
          exact ⟨[c], rfl, (Piece.plain (not_lt.mp hcontrol) hquote hescape).extends⟩
      obtain ⟨p, hp, hmore⟩ := hextends
      exact ⟨p ++ t, by rw [hp, List.append_assoc], hmore t ht⟩

theorem Items.blank {w s : List Char} {n : ℕ} (hw : Blank w) (h : Items s n) : Items (w ++ s) n := by
  have hjoin : ∀ {v : List Char}, Blank v → Blank (w ++ v) := fun hv c hc =>
    (List.mem_append.mp hc).elim (hw c) (hv c)
  cases h with
  | last hv h hw' =>
    rw [← List.append_assoc]
    exact .last (hjoin hv) h hw'
  | more hv h hw' ht =>
    rw [← List.append_assoc]
    exact .more (hjoin hv) h hw' ht

theorem Members.blank {w s : List Char} {n : ℕ} (hw : Blank w) (h : Members s n) :
    Members (w ++ s) n := by
  have hjoin : ∀ {v : List Char}, Blank v → Blank (w ++ v) := fun hv c hc =>
    (List.mem_append.mp hc).elim (hw c) (hv c)
  cases h with
  | last hv hk hw₁ hw₂ h hw₃ =>
    rw [← List.append_assoc]
    exact .last (hjoin hv) hk hw₁ hw₂ h hw₃
  | more hv hk hw₁ hw₂ h hw₃ ht =>
    rw [← List.append_assoc]
    exact .more (hjoin hv) hk hw₁ hw₂ h hw₃ ht

theorem heightMembers_perm {kvs lws : List (String × Json)} (h : kvs.Perm lws) :
    heightMembers kvs = heightMembers lws := by
  induction h with
  | nil => rfl
  | cons kv _ ih => rw [heightMembers, heightMembers, ih]
  | swap kv lw rest =>
    rw [heightMembers, heightMembers, heightMembers, heightMembers, max_left_comm]
  | trans _ _ ih₁ ih₂ => exact ih₁.trans ih₂

/-- What comes after whitespace and a punctuation character. -/
theorem exists_punctuation {c : Char} {s : List Char} (h : (skip s).head? = some c) :
    ∃ w, Blank w ∧ s = w ++ (c :: (skip s).tail) := by
  obtain ⟨w, hs, hw⟩ := exists_blank s
  refine ⟨w, hw, ?_⟩
  have hcons : skip s = c :: (skip s).tail := (List.cons_head?_tail h).symm
  rw [← hcons]
  exact hs

theorem literal_text {tail s rest : List Char} {c : Char} {v w : Json}
    (hletters : c :: tail ∈ literals) (h : literal tail w s = some (v, rest)) (hw : height w = 0) :
    ∃ t, c :: s = t ++ rest ∧ Value t (height v) := by
  unfold literal at h
  split_ifs at h with hprefix
  obtain ⟨rfl, rfl⟩ := Prod.mk.inj (Option.some.inj h)
  obtain ⟨s', rfl⟩ := List.isPrefixOf_iff_prefix.mp hprefix
  refine ⟨c :: tail, ?_, hw ▸ .literal hletters⟩
  rw [List.drop_left, List.cons_append]

/-- **What a reader takes is the text of what it returns.** -/
theorem text_of_read (h : Hooks) : ∀ n : ℕ,
    (∀ {s v rest}, readValue h n s = some (v, rest) → ∃ t, s = t ++ rest ∧ Value t (height v)) ∧
    (∀ {s xs rest}, readItems h n s = some (xs, rest) →
      ∃ t, s = t ++ rest ∧ Items t (heightItems xs)) ∧
    (∀ {s kvs rest}, readMembers h n s = some (kvs, rest) →
      ∃ t, s = t ++ rest ∧ Members t (heightMembers kvs)) := by
  intro n
  induction n with
  | zero =>
    refine ⟨?_, ?_, ?_⟩ <;> intro _ _ _ hread
    · simp [readValue] at hread
    · simp [readItems] at hread
    · simp [readMembers] at hread
  | succ n ih =>
    obtain ⟨hvalue, hitems, hmembers⟩ := ih
    refine ⟨?_, ?_, ?_⟩
    · intro s v rest hread
      cases s with
      | nil => simp [readValue] at hread
      | cons c s =>
        rw [readValue] at hread
        split_ifs at hread with h1 h2 h3 h4 h5 h6 h7 h8
        · simp only [Option.bind_eq_bind, Option.bind_eq_some_iff, Option.some.injEq,
            Prod.mk.injEq, Prod.exists] at hread
          obtain ⟨cs, s', hchars, rfl, rfl⟩ := hread
          obtain ⟨t, rfl, ht⟩ := pieces_of_read n hchars
          exact ⟨'"' :: t, by rw [h1]; rfl, .string ht⟩
        · obtain ⟨rfl, rfl⟩ := Prod.mk.inj (Option.some.inj hread)
          obtain ⟨w, hw, hs⟩ := exists_punctuation h3
          refine ⟨'[' :: (w ++ [']']), ?_, .emptyArray hw⟩
          rw [h2]
          conv_lhs => rw [hs]
          simp
        · simp only [Option.bind_eq_bind, Option.bind_eq_some_iff, Option.some.injEq,
            Prod.mk.injEq, Prod.exists] at hread
          obtain ⟨xs, s', hxs, rfl, rfl⟩ := hread
          obtain ⟨t, hskip, ht⟩ := hitems hxs
          obtain ⟨w, hs, hw⟩ := exists_blank s
          refine ⟨'[' :: (w ++ t), ?_, .array (ht.blank hw)⟩
          rw [h2, hs, hskip]
          simp
        · obtain ⟨rfl, rfl⟩ := Prod.mk.inj (Option.some.inj hread)
          obtain ⟨w, hw, hs⟩ := exists_punctuation h5
          refine ⟨'{' :: (w ++ ['}']), ?_, .emptyObject hw⟩
          rw [h4]
          conv_lhs => rw [hs]
          simp
        · simp only [Option.bind_eq_bind, Option.bind_eq_some_iff, Option.some.injEq,
            Prod.mk.injEq, Prod.exists, rejectDuplicateKeys] at hread
          obtain ⟨kvs, s', hkvs, w, hdict, rfl, rfl⟩ := hread
          split_ifs at hdict with hnodup
          obtain rfl := Option.some.inj hdict
          obtain ⟨t, hskip, ht⟩ := hmembers hkvs
          obtain ⟨w, hs, hw⟩ := exists_blank s
          have hheight : height (dict kvs) = heightMembers kvs + 1 := by
            rw [dict, height, heightMembers_perm (foldr_insertKey_perm hnodup)]
          refine ⟨'{' :: (w ++ t), ?_, hheight ▸ .object (ht.blank hw)⟩
          rw [h4, hs, hskip]
          simp
        · rw [h6]
          exact literal_text (by decide) hread rfl
        · rw [h7]
          exact literal_text (by decide) hread rfl
        · rw [h8]
          exact literal_text (by decide) hread rfl
        · simp only [readNumber, Option.bind_eq_bind, Option.bind_eq_some_iff, Prod.exists] at hread
          obtain ⟨t, s', hscan, hread⟩ := hread
          obtain ⟨p, hp, hnumber⟩ := number_of_scan hscan
          split_ifs at hread
          · simp only [Option.bind_eq_some_iff, Option.some.injEq, Prod.mk.injEq] at hread
            obtain ⟨m, _, rfl, rfl⟩ := hread
            exact ⟨p, hp, .number hnumber⟩
          · simp only [Option.bind_eq_some_iff, Option.some.injEq, Prod.mk.injEq] at hread
            obtain ⟨x, _, rfl, rfl⟩ := hread
            exact ⟨p, hp, .number hnumber⟩
    · intro s xs rest hread
      simp only [readItems, Option.bind_eq_bind, Option.bind_eq_some_iff, Prod.exists] at hread
      obtain ⟨x, s', hx, hread⟩ := hread
      obtain ⟨t, rfl, ht⟩ := hvalue hx
      split_ifs at hread with hclose hcomma
      · obtain ⟨rfl, rfl⟩ := Prod.mk.inj (Option.some.inj hread)
        obtain ⟨w, hw, hs⟩ := exists_punctuation hclose
        refine ⟨[] ++ (t ++ (w ++ [']'])), ?_, ?_⟩
        · conv_lhs => rw [hs]
          simp
        · have hone : heightItems [x] = height x := Nat.max_zero _
          rw [hone]
          exact .last blank_nil ht hw
      · simp only [Option.bind_eq_some_iff, Option.some.injEq, Prod.mk.injEq, Prod.exists] at hread
        obtain ⟨ys, s'', hys, rfl, rfl⟩ := hread
        obtain ⟨w, hw, hs⟩ := exists_punctuation hcomma
        obtain ⟨t', hskip, ht'⟩ := hitems hys
        obtain ⟨w', hs', hw'⟩ := exists_blank (skip s').tail
        refine ⟨[] ++ (t ++ (w ++ (',' :: (w' ++ t')))), ?_, .more blank_nil ht hw (ht'.blank hw')⟩
        conv_lhs => rw [hs, hs', hskip]
        simp
    · intro s kvs rest hread
      rw [readMembers] at hread
      split_ifs at hread with hquote
      simp only [Option.bind_eq_bind, Option.bind_eq_some_iff, Prod.exists] at hread
      obtain ⟨cs, s₁, hcs, hread⟩ := hread
      split_ifs at hread with hcolon
      simp only [Option.bind_eq_some_iff, Prod.exists] at hread
      obtain ⟨x, s₂, hx, hread⟩ := hread
      obtain ⟨k, hkey, hk⟩ := pieces_of_read n hcs
      obtain ⟨w₁, hw₁, hs₁⟩ := exists_punctuation hcolon
      obtain ⟨w₂, hs₂, hw₂⟩ := exists_blank (skip s₁).tail
      obtain ⟨t, hvalue', ht⟩ := hvalue hx
      have hs : s = '"' :: (k ++ (w₁ ++ (':' :: (w₂ ++ (t ++ s₂))))) := by
        rw [← List.cons_head?_tail hquote, hkey]
        conv_lhs => rw [hs₁, hs₂, hvalue']
      split_ifs at hread with hclose hcomma
      · obtain ⟨rfl, rfl⟩ := Prod.mk.inj (Option.some.inj hread)
        obtain ⟨w₃, hw₃, hs₃⟩ := exists_punctuation hclose
        refine ⟨[] ++ ('"' :: (k ++ (w₁ ++ (':' :: (w₂ ++ (t ++ (w₃ ++ ['}']))))))), ?_, ?_⟩
        · rw [hs]
          conv_lhs => rw [hs₃]
          simp
        · have hone : heightMembers [(String.ofList cs, x)] = height x := Nat.max_zero _
          rw [hone]
          exact .last blank_nil hk hw₁ hw₂ ht hw₃
      · simp only [Option.bind_eq_some_iff, Option.some.injEq, Prod.mk.injEq, Prod.exists] at hread
        obtain ⟨lws, s₃, hlws, rfl, rfl⟩ := hread
        obtain ⟨w₃, hw₃, hs₃⟩ := exists_punctuation hcomma
        obtain ⟨t', hskip, ht'⟩ := hmembers hlws
        obtain ⟨w₄, hs₄, hw₄⟩ := exists_blank (skip s₂).tail
        refine ⟨[] ++ ('"' :: (k ++ (w₁ ++ (':' :: (w₂ ++ (t ++ (w₃ ++ (',' :: (w₄ ++ t'))))))))), ?_,
          .more blank_nil hk hw₁ hw₂ ht hw₃ (ht'.blank hw₄)⟩
        rw [hs]
        conv_lhs => rw [hs₃, hs₄, hskip]
        simp

/-- **What is read is a JSON text**, nested as deep as the value. -/
theorem text_of_loads {h : Hooks} {s : List Char} {v : Json} (hread : loads h s = some v) :
    Text s (height v) := by
  simp only [loads, Option.bind_eq_bind, Option.bind_eq_some_iff, Prod.exists] at hread
  obtain ⟨w, rest, hw, hread⟩ := hread
  split_ifs at hread with hend
  obtain rfl := Option.some.inj hread
  obtain ⟨t, hskip, ht⟩ := (text_of_read h _).1 hw
  obtain ⟨u, hs, hu⟩ := exists_blank s
  obtain ⟨u', hrest, hu'⟩ := exists_blank rest
  rw [hend, List.append_nil] at hrest
  exact ⟨u, t, rest, by rw [hs, hskip], hu, ht, hrest ▸ hu'⟩

end Grammar

end Json
