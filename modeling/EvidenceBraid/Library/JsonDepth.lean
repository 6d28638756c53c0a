import EvidenceBraid.Library.Utf8
import EvidenceBraid.Library.JsonLayout

/-!
# Bounding a text's nesting before it is parsed

`scanDepth` counts open brackets outside strings, byte by byte, and fails when there are more
than the limit. On a canonical text it accepts exactly the documents nested no deeper than the
limit (`scanDepth_dumps`): a byte of a multi-byte character is never a quote, a backslash or a
bracket.
-/

namespace Json

/-- Where a byte stands. -/
inductive Place where
  | outside | quoted | escaped
  deriving DecidableEq, Repr

/-- One byte, or one character, of the scanner: the open brackets and the place, unless there
are too many. -/
def scanStep (limit : ℤ) (depth : ℤ) (place : Place) (code : ℕ) : Option (ℤ × Place) :=
  match place with
  | .quoted =>
    if code = 92 then some (depth, .escaped)
    else if code = 34 then some (depth, .outside)
    else some (depth, .quoted)
  | .escaped => some (depth, .quoted)
  | .outside =>
    if code = 34 then some (depth, .quoted)
    else if code = 91 ∨ code = 123 then
      if limit < depth + 1 then none else some (depth + 1, .outside)
    else if code = 93 ∨ code = 125 then some (depth - 1, .outside)
    else some (depth, .outside)

def scanCodes (limit : ℤ) : ℤ → Place → List ℕ → Option (ℤ × Place)
  | depth, place, [] => some (depth, place)
  | depth, place, code :: codes => do
    let (depth, place) ← scanStep limit depth place code
    scanCodes limit depth place codes

/-- The text never has more open brackets than the limit. -/
def scanDepth (limit : ℕ) (bytes : Bytes) : Bool :=
  (scanCodes limit 0 .outside (bytes.map UInt8.toNat)).isSome

mutual

/-- How deep containers are nested. -/
def height : Json → ℕ
  | .arr xs => heightItems xs + 1
  | .obj kvs => heightMembers kvs + 1
  | .null | .bool _ | .int _ | .float _ | .str _ => 0

def heightItems : List Json → ℕ
  | [] => 0
  | x :: xs => max (height x) (heightItems xs)

def heightMembers : List (String × Json) → ℕ
  | [] => 0
  | (_, x) :: kvs => max (height x) (heightMembers kvs)

end

/-! ## Bytes and characters -/

theorem scanCodes_append (limit depth : ℤ) (place : Place) (as bs : List ℕ) :
    scanCodes limit depth place (as ++ bs) =
      (scanCodes limit depth place as).bind fun p => scanCodes limit p.1 p.2 bs := by
  induction as generalizing depth place with
  | nil => rfl
  | cons a as ih =>
    simp only [List.cons_append, scanCodes]
    cases scanStep limit depth place a with
    | none => rfl
    | some p => simpa using ih p.1 p.2

/-- Codes from `0x80` on are read like any plain character. -/
theorem scanStep_high (limit depth : ℤ) {place : Place} {code : ℕ} (h : 128 ≤ code) :
    scanStep limit depth place code =
      some (depth, if place = .escaped then .quoted else place) := by
  cases place with
  | outside =>
    simp only [scanStep]
    rw [if_neg (by omega), if_neg (by omega), if_neg (by omega)]
    rfl
  | quoted =>
    simp only [scanStep]
    rw [if_neg (by omega), if_neg (by omega)]
    rfl
  | escaped => rfl

theorem scanCodes_high (limit depth : ℤ) {place : Place} {codes : List ℕ}
    (hplace : place ≠ .escaped) (h : ∀ code ∈ codes, 128 ≤ code) :
    scanCodes limit depth place codes = some (depth, place) := by
  induction codes with
  | nil => rfl
  | cons code codes ih =>
    rw [scanCodes, scanStep_high limit depth (h code (by simp)), if_neg hplace]
    exact ih fun c hc => h c (by simp [hc])

/-- Reading the bytes of a character is reading the character. -/
theorem scanCodes_char (limit depth : ℤ) (place : Place) (c : Char) :
    scanCodes limit depth place ((String.utf8EncodeChar c).map UInt8.toNat) =
      scanStep limit depth place c.toNat := by
  rcases Nat.lt_or_ge c.toNat 128 with hlow | hhigh
  · have hcode : (UInt8.ofNat c.toNat).toNat = c.toNat := by
      rw [UInt8.toNat_ofNat']
      omega
    rw [Utf8.encode_ascii hlow, List.map_singleton, hcode, scanCodes]
    cases scanStep limit depth place c.toNat <;> rfl
  · have hbytes : ∀ code ∈ (String.utf8EncodeChar c).map UInt8.toNat, 128 ≤ code := by
      intro code hcode
      obtain ⟨b, hb, rfl⟩ := List.mem_map.mp hcode
      exact Utf8.encode_not_ascii hhigh b hb
    obtain ⟨b, bs, hbs⟩ := List.exists_cons_of_ne_nil (String.utf8EncodeChar_ne_nil (c := c))
    rw [hbs, List.map_cons] at hbytes ⊢
    rw [scanCodes, scanStep_high limit depth (hbytes _ (by simp)), scanStep_high limit depth hhigh]
    refine scanCodes_high limit depth ?_ fun code hcode => hbytes code (by simp [hcode])
    split_ifs with hesc
    · decide
    · exact hesc

theorem scanCodes_encode (limit depth : ℤ) (place : Place) (cs : List Char) :
    scanCodes limit depth place ((Utf8.encode cs).map UInt8.toNat) =
      scanCodes limit depth place (cs.map Char.toNat) := by
  induction cs generalizing depth place with
  | nil => rfl
  | cons c cs ih =>
    rw [Utf8.encode_cons, List.map_append, scanCodes_append, scanCodes_char, List.map_cons,
      scanCodes]
    cases scanStep limit depth place c.toNat with
    | none => rfl
    | some p => exact ih p.1 p.2

/-! ## Canonical texts -/

/-- Reading characters. -/
def scanChars (limit depth : ℤ) (place : Place) (cs : List Char) : Option (ℤ × Place) :=
  scanCodes limit depth place (cs.map Char.toNat)

theorem scanChars_append (limit depth : ℤ) (place : Place) (as bs : List Char) :
    scanChars limit depth place (as ++ bs) =
      (scanChars limit depth place as).bind fun p => scanChars limit p.1 p.2 bs := by
  rw [scanChars, List.map_append, scanCodes_append]
  rfl

/-- Neither a quote nor a bracket. -/
def Flat (c : Char) : Prop :=
  c.toNat ≠ 34 ∧ c.toNat ≠ 91 ∧ c.toNat ≠ 123 ∧ c.toNat ≠ 93 ∧ c.toNat ≠ 125

instance (c : Char) : Decidable (Flat c) := by unfold Flat; infer_instance

theorem scanChars_flat {limit depth : ℤ} {cs : List Char} (h : ∀ c ∈ cs, Flat c) :
    scanChars limit depth .outside cs = some (depth, .outside) := by
  induction cs with
  | nil => rfl
  | cons c cs ih =>
    obtain ⟨h1, h2, h3, h4, h5⟩ := h c (by simp)
    rw [scanChars, List.map_cons, scanCodes, scanStep, if_neg h1, if_neg (by omega),
      if_neg (by omega)]
    exact ih fun d hd => h d (by simp [hd])

theorem toNat_ne {c d : Char} (h : c ≠ d) : c.toNat ≠ d.toNat := fun h' => h (Char.toNat_inj.mp h')

theorem scanChars_quoted_plain {limit depth : ℤ} {cs : List Char}
    (h : ∀ c ∈ cs, c ≠ '"' ∧ c ≠ '\\') :
    scanChars limit depth .quoted cs = some (depth, .quoted) := by
  induction cs with
  | nil => rfl
  | cons c cs ih =>
    obtain ⟨hq, hb⟩ := h c (by simp)
    have hb' : c.toNat ≠ 92 := toNat_ne hb
    have hq' : c.toNat ≠ 34 := toNat_ne hq
    rw [scanChars, List.map_cons, scanCodes, scanStep, if_neg hb', if_neg hq']
    exact ih fun d hd => h d (by simp [hd])

/-- Inside a string every escaped character is passed over. -/
theorem scanChars_escape {limit depth : ℤ} (cs : List Char) :
    scanChars limit depth .quoted (cs.flatMap escape) = some (depth, .quoted) := by
  induction cs with
  | nil => rfl
  | cons c cs ih =>
    rw [List.flatMap_cons, scanChars_append]
    have hone : scanChars limit depth .quoted (escape c) = some (depth, .quoted) := by
      rcases escape_shape c with ⟨hesc, hq, hb⟩ | ⟨d, ds, hesc, hds⟩
      · rw [hesc]
        exact scanChars_quoted_plain (by simpa using ⟨hq, hb⟩)
      · -- the backslash takes the next character with it
        have hpair : ∀ cs, scanChars limit depth .quoted ('\\' :: d :: cs) =
            scanChars limit depth .quoted cs := fun _ => rfl
        rw [hesc, hpair]
        exact scanChars_quoted_plain hds
    rw [hone]
    exact ih

theorem scanChars_dumpsString {limit depth : ℤ} (k : String) :
    scanChars limit depth .outside (dumpsString k) = some (depth, .outside) := by
  have hsplit : dumpsString k = ['"'] ++ (k.toList.flatMap escape ++ ['"']) := rfl
  have hopen : scanChars limit depth .outside ['"'] = some (depth, .quoted) := rfl
  have hclose : scanChars limit depth .quoted ['"'] = some (depth, .outside) := rfl
  rw [hsplit, scanChars_append, hopen, Option.bind_some, scanChars_append, scanChars_escape,
    Option.bind_some, hclose]

theorem flat_numeral {t : Numeral} (ht : t.Wf) : ∀ c ∈ t.text, Flat c := by
  intro c hc
  rcases Numeral.mem_text ht hc with hd | rfl | rfl | rfl | rfl
  · have hrange : 48 ≤ c.toNat ∧ c.toNat ≤ 57 := by
      simpa [Char.isDigit, UInt32.le_iff_toNat_le] using hd
    unfold Flat
    omega
  all_goals decide

/-- A step that opens a bracket. -/
theorem scanChars_open {limit depth : ℤ} {c : Char} (hc : c = '[' ∨ c = '{') (cs : List Char) :
    scanChars limit depth .outside (c :: cs) =
      if depth + 1 ≤ limit then scanChars limit (depth + 1) .outside cs else none := by
  have hcode : c.toNat = 91 ∨ c.toNat = 123 := by
    rcases hc with rfl | rfl
    · exact .inl rfl
    · exact .inr rfl
  rw [scanChars, List.map_cons, scanCodes, scanStep, if_neg (by omega), if_pos hcode]
  rcases lt_or_ge limit (depth + 1) with h | h
  · rw [if_pos h, if_neg (by omega)]
    rfl
  · rw [if_neg (by omega), if_pos h]
    rfl

mutual

/-- **What the scanner makes of a canonical text.** -/
theorem scanChars_dumps : ∀ (v : Json) {limit depth : ℤ}, depth ≤ limit →
    scanChars limit depth .outside (dumps v) =
      if depth + height v ≤ limit then some (depth, .outside) else none
  | .null, limit, depth, h => by
    rw [height, if_pos (by simpa using h)]
    exact scanChars_flat (List.all_iff_forall_prop.mp (by decide))
  | .bool b, limit, depth, h => by
    rw [height, if_pos (by simpa using h)]
    cases b <;> exact scanChars_flat (List.all_iff_forall_prop.mp (by decide))
  | .int n, limit, depth, h => by
    rw [height, if_pos (by simpa using h)]
    exact scanChars_flat (flat_numeral (Numeral.wf_ofInt n))
  | .float x, limit, depth, h => by
    rw [height, if_pos (by simpa using h)]
    exact scanChars_flat (flat_numeral (Numeral.wf_repr x))
  | .str k, limit, depth, h => by
    rw [height, if_pos (by simpa using h)]
    exact scanChars_dumpsString k
  | .arr xs, limit, depth, h => by
    rw [dumps, scanChars_open (.inl rfl), height]
    by_cases hopen : depth + 1 ≤ limit
    · rw [if_pos hopen, scanChars_dumpsItems xs true hopen]
      push_cast
      simp only [← add_assoc, add_right_comm depth 1, add_sub_cancel_right]
    · rw [if_neg hopen, if_neg (by push_cast; omega)]
  | .obj kvs, limit, depth, h => by
    rw [dumps, scanChars_open (.inr rfl), height]
    by_cases hopen : depth + 1 ≤ limit
    · rw [if_pos hopen, scanChars_dumpsMembers kvs true hopen]
      push_cast
      simp only [← add_assoc, add_right_comm depth 1, add_sub_cancel_right]
    · rw [if_neg hopen, if_neg (by push_cast; omega)]

theorem scanChars_dumpsItems : ∀ (xs : List Json) (first : Bool) {limit depth : ℤ},
    depth ≤ limit → scanChars limit depth .outside (dumpsItems first xs) =
      if depth + heightItems xs ≤ limit then some (depth - 1, .outside) else none
  | [], first, limit, depth, h => by
    rw [heightItems, if_pos (by simpa using h)]
    rfl
  | x :: xs, first, limit, depth, h => by
    have hcomma : scanChars limit depth .outside (if first then [] else [',']) =
        some (depth, .outside) := by
      cases first
      · exact scanChars_flat (List.all_iff_forall_prop.mp (by decide))
      · rfl
    rw [dumpsItems, scanChars_append, hcomma, Option.bind_some, scanChars_append,
      scanChars_dumps x h, heightItems]
    by_cases hx : depth + height x ≤ limit
    · rw [if_pos hx, Option.bind_some, scanChars_dumpsItems xs false h]
      simp only [Nat.cast_max]
      congr 1
      simp only [eq_iff_iff]
      omega
    · rw [if_neg hx, if_neg (by simp only [Nat.cast_max]; omega)]
      rfl

theorem scanChars_dumpsMembers : ∀ (kvs : List (String × Json)) (first : Bool) {limit depth : ℤ},
    depth ≤ limit → scanChars limit depth .outside (dumpsMembers first kvs) =
      if depth + heightMembers kvs ≤ limit then some (depth - 1, .outside) else none
  | [], first, limit, depth, h => by
    rw [heightMembers, if_pos (by simpa using h)]
    rfl
  | (k, x) :: kvs, first, limit, depth, h => by
    have hcomma : scanChars limit depth .outside (if first then [] else [',']) =
        some (depth, .outside) := by
      cases first
      · exact scanChars_flat (List.all_iff_forall_prop.mp (by decide))
      · rfl
    have hcolon : ∀ cs, scanChars limit depth .outside (':' :: cs) =
        scanChars limit depth .outside cs := fun _ => rfl
    rw [dumpsMembers, scanChars_append, hcomma, Option.bind_some, scanChars_append,
      scanChars_dumpsString, Option.bind_some, hcolon, scanChars_append, scanChars_dumps x h,
      heightMembers]
    by_cases hx : depth + height x ≤ limit
    · rw [if_pos hx, Option.bind_some, scanChars_dumpsMembers kvs false h]
      simp only [Nat.cast_max]
      congr 1
      simp only [eq_iff_iff]
      omega
    · rw [if_neg hx, if_neg (by simp only [Nat.cast_max]; omega)]
      rfl

end

/-- A larger limit lets every text pass that a smaller one does. -/
theorem scanDepth_mono {limit limit' : ℕ} (h : limit ≤ limit') {bytes : Bytes}
    (hscan : scanDepth limit bytes = true) : scanDepth limit' bytes = true := by
  have hstep : ∀ {depth place code p}, scanStep limit depth place code = some p →
      scanStep limit' depth place code = some p := by
    intro depth place code p hp
    cases place with
    | outside =>
      simp only [scanStep] at hp ⊢
      split_ifs at hp ⊢ <;> first | exact hp | omega
    | quoted => exact hp
    | escaped => exact hp
  have hcodes : ∀ {codes : List ℕ} {depth place p}, scanCodes limit depth place codes = some p →
      scanCodes limit' depth place codes = some p := by
    intro codes
    induction codes with
    | nil => exact id
    | cons code codes ih =>
      intro depth place p hp
      simp only [scanCodes, bind, Option.bind_eq_some_iff] at hp ⊢
      obtain ⟨q, hq, hp⟩ := hp
      exact ⟨q, hstep hq, ih hp⟩
  obtain ⟨p, hp⟩ := Option.isSome_iff_exists.mp hscan
  exact Option.isSome_iff_exists.mpr ⟨p, hcodes hp⟩

/-- **The scanner is exact on canonical texts.** -/
theorem scanDepth_dumps (limit : ℕ) (v : Json) :
    scanDepth limit (Utf8.encode (dumps v)) = true ↔ height v ≤ limit := by
  have hscan := @scanChars_dumps v limit 0 (by omega)
  rw [scanDepth, scanCodes_encode]
  change (scanChars limit 0 .outside (dumps v)).isSome = true ↔ _
  rw [hscan]
  by_cases h : height v ≤ limit
  · rw [if_pos (by omega)]
    simp [h]
  · rw [if_neg (by omega)]
    simp [h]

end Json
