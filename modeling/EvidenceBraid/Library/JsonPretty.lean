import EvidenceBraid.Library.JsonLayout

/-!
# The indented text is read back

`loads_pretty`: a readable document is read back from its indented text, as from its compact one.
The reader skips the layout before an item, after a key and before a closing bracket, and nowhere
else, so the induction is the one of `readValue_dumps` with a `skip` at each of these places.
-/

namespace Json

variable {h : Hooks}

theorem skip_newline (level : ℕ) (s : List Char) : skip (newline level ++ s) = skip s := by
  have hblanks : ∀ k, skip (List.replicate k ' ' ++ s) = skip s := by
    intro k
    induction k with
    | zero => rfl
    | succ k ih => exact ih
  exact hblanks _

theorem follows_newline (level : ℕ) (s : List Char) : Follows (newline level ++ s) := by
  simp [Follows, Numeral.Stops, newline]

theorem follows_prettyItems (level : ℕ) (xs : List Json) (rest : List Char) :
    Follows (prettyItems level false xs ++ rest) := by
  cases xs with
  | nil =>
    rw [prettyItems, List.append_assoc]
    exact follows_newline _ _
  | cons x xs => exact follows_comma _

theorem follows_prettyMembers (level : ℕ) (kvs : List (String × Json)) (rest : List Char) :
    Follows (prettyMembers level false kvs ++ rest) := by
  cases kvs with
  | nil =>
    rw [prettyMembers, List.append_assoc]
    exact follows_newline _ _
  | cons kv kvs => exact follows_comma _

/-- A value's indented text starts as its compact text does. -/
theorem pretty_head {v : Json} (hv : Readable h v) (level : ℕ) :
    ∃ c s, pretty level v = c :: s ∧ isSpace c = false ∧ c ≠ ']' ∧ c ≠ '}' := by
  cases v with
  | arr xs => cases xs <;> exact ⟨'[', _, by rw [pretty], by decide⟩
  | obj kvs => cases kvs <;> exact ⟨'{', _, by rw [pretty], by decide⟩
  | _ =>
    rw [pretty]
    exact dumps_head hv

/-- Skipping stops at a value. -/
theorem skip_pretty {v : Json} (hv : Readable h v) (level : ℕ) (s : List Char) :
    skip (pretty level v ++ s) = pretty level v ++ s := by
  obtain ⟨c, t, hct, hc, -⟩ := pretty_head hv level
  rw [hct, List.cons_append]
  exact skip_cons hc _

theorem length_prettyItems_pos (level : ℕ) (xs : List Json) :
    0 < (prettyItems level false xs).length := by
  cases xs <;> simp [prettyItems]

theorem length_prettyMembers_pos (level : ℕ) (kvs : List (String × Json)) :
    0 < (prettyMembers level false kvs).length := by
  cases kvs <;> simp [prettyMembers]

/-- The items after the first are written like the first ones, after a comma. -/
theorem prettyItems_comma (level : ℕ) (x : Json) (xs : List Json) :
    prettyItems level false (x :: xs) = ',' :: prettyItems level true (x :: xs) := by
  simp [prettyItems]

theorem prettyMembers_comma (level : ℕ) (kv : String × Json) (kvs : List (String × Json)) :
    prettyMembers level false (kv :: kvs) = ',' :: prettyMembers level true (kv :: kvs) := by
  obtain ⟨k, x⟩ := kv
  simp [prettyMembers]

mutual

/-- **A readable document is read back from its indented text**, whatever follows it. -/
theorem readValue_pretty : ∀ (v : Json), Readable h v → ∀ (level n : ℕ) (rest : List Char),
    (pretty level v).length ≤ n → Follows rest →
      readValue h n (pretty level v ++ rest) = some (v, rest)
  | .null, hv, level, n, rest, hn, hrest => by
    rw [pretty] at hn ⊢
    exact readValue_dumps _ hv n rest hn hrest
  | .bool _, hv, level, n, rest, hn, hrest => by
    rw [pretty] at hn ⊢
    exact readValue_dumps _ hv n rest hn hrest
  | .int _, hv, level, n, rest, hn, hrest => by
    rw [pretty] at hn ⊢
    exact readValue_dumps _ hv n rest hn hrest
  | .float _, hv, level, n, rest, hn, hrest => by
    rw [pretty] at hn ⊢
    exact readValue_dumps _ hv n rest hn hrest
  | .str _, hv, level, n, rest, hn, hrest => by
    rw [pretty] at hn ⊢
    exact readValue_dumps _ hv n rest hn hrest
  | .arr [], _, level, n, rest, hn, _ => by
    obtain ⟨n, rfl⟩ : ∃ k, n = k + 1 := ⟨n - 1, by simp [pretty] at hn; omega⟩
    simp [pretty, readValue, skip, isSpace]
  | .arr (x :: xs), hv, level, n, rest, hn, _ => by
    simp only [Readable] at hv
    rw [pretty, List.length_cons] at hn
    obtain ⟨n, rfl⟩ : ∃ k, n = k + 1 := ⟨n - 1, by omega⟩
    obtain ⟨hskip, hitems⟩ := readItems_pretty (x :: xs) (by simp) hv (level + 1) n rest (by omega)
    rw [pretty, List.cons_append, readValue, if_neg (by decide), if_pos rfl, if_neg hskip, hitems]
    rfl
  | .obj [], _, level, n, rest, hn, _ => by
    obtain ⟨n, rfl⟩ : ∃ k, n = k + 1 := ⟨n - 1, by simp [pretty] at hn; omega⟩
    simp [pretty, readValue, skip, isSpace]
  | .obj ((k, x) :: kvs), hv, level, n, rest, hn, _ => by
    simp only [Readable] at hv
    obtain ⟨hsorted, hmem⟩ := hv
    rw [pretty, List.length_cons] at hn
    obtain ⟨n, rfl⟩ : ∃ k, n = k + 1 := ⟨n - 1, by omega⟩
    obtain ⟨hskip, hmembers⟩ := readMembers_pretty ((k, x) :: kvs) (by simp) hmem (level + 1) n rest (by omega)
    rw [pretty, List.cons_append, readValue, if_neg (by decide), if_neg (by decide), if_pos rfl,
      if_neg hskip, hmembers]
    simp [rejectDuplicateKeys_of_sorted hsorted]

theorem readItems_pretty : ∀ (xs : List Json), xs ≠ [] → ReadableItems h xs →
    ∀ (level n : ℕ) (rest : List Char), (prettyItems level true xs).length ≤ n →
      (skip (prettyItems level true xs ++ rest)).head? ≠ some ']' ∧
      readItems h n (skip (prettyItems level true xs ++ rest)) = some (xs, rest)
  | [], hne, _, _, _, _, _ => absurd rfl hne
  | x :: xs, _, hv, level, n, rest, hn => by
    simp only [ReadableItems] at hv
    obtain ⟨hx, hxs⟩ := hv
    simp only [prettyItems, if_true, List.nil_append, List.length_append] at hn
    have hlen := length_prettyItems_pos level xs
    obtain ⟨n, rfl⟩ : ∃ k, n = k + 1 := ⟨n - 1, by omega⟩
    have hvalue := readValue_pretty x hx level n (prettyItems level false xs ++ rest) (by omega)
      (follows_prettyItems level xs rest)
    have hskip : skip (prettyItems level true (x :: xs) ++ rest) =
        pretty level x ++ (prettyItems level false xs ++ rest) := by
      simp only [prettyItems, if_true, List.nil_append, List.append_assoc]
      rw [skip_newline, skip_pretty hx]
    rw [hskip]
    refine ⟨?_, ?_⟩
    · obtain ⟨c, s, hcs, -, hbr, -⟩ := pretty_head hx level
      simpa [hcs] using hbr
    · rw [readItems, hvalue]
      cases xs with
      | nil =>
        simp only [prettyItems, Option.bind_eq_bind, Option.bind_some, List.append_assoc,
          skip_newline]
        rw [List.singleton_append, skip_cons (by decide), if_pos (by rfl), List.tail_cons]
      | cons y ys =>
        obtain ⟨-, htail⟩ := readItems_pretty (y :: ys) (by simp) hxs level n rest (by
          rw [prettyItems_comma, List.length_cons] at hn
          omega)
        simp only [Option.bind_eq_bind, Option.bind_some, prettyItems_comma, List.cons_append]
        rw [skip_cons (by decide), if_neg (by simp), if_pos (by simp), List.tail_cons, htail]
        rfl

theorem readMembers_pretty : ∀ (kvs : List (String × Json)), kvs ≠ [] → ReadableMembers h kvs →
    ∀ (level n : ℕ) (rest : List Char), (prettyMembers level true kvs).length ≤ n →
      (skip (prettyMembers level true kvs ++ rest)).head? ≠ some '}' ∧
      readMembers h n (skip (prettyMembers level true kvs ++ rest)) = some (kvs, rest)
  | [], hne, _, _, _, _, _ => absurd rfl hne
  | (k, x) :: kvs, _, hv, level, n, rest, hn => by
    simp only [ReadableMembers] at hv
    obtain ⟨hx, hkvs⟩ := hv
    simp only [prettyMembers, if_true, List.nil_append, List.length_append, List.length_cons] at hn
    have hlen := length_prettyMembers_pos level kvs
    obtain ⟨n, rfl⟩ : ∃ k, n = k + 1 := ⟨n - 1, by omega⟩
    have hvalue := readValue_pretty x hx level n (prettyMembers level false kvs ++ rest) (by omega)
      (follows_prettyMembers level kvs rest)
    have hskip : skip (prettyMembers level true ((k, x) :: kvs) ++ rest) =
        dumpsString k ++ (':' :: ' ' :: (pretty level x ++
          (prettyMembers level false kvs ++ rest))) := by
      simp only [prettyMembers, if_true, List.nil_append, List.append_assoc, List.cons_append]
      rw [skip_newline, dumpsString_eq, List.cons_append]
      exact skip_cons (by decide) _
    have hkey : readChars n ((k.toList.flatMap escape ++ ['"']) ++
        (':' :: ' ' :: (pretty level x ++ (prettyMembers level false kvs ++ rest)))) = _ :=
      readChars_dumpsString (by omega)
    have hblank : skip (' ' :: (pretty level x ++ (prettyMembers level false kvs ++ rest))) =
        pretty level x ++ (prettyMembers level false kvs ++ rest) := skip_pretty hx level _
    rw [hskip, dumpsString_eq]
    refine ⟨by simp, ?_⟩
    rw [List.cons_append, readMembers, if_pos (by rfl), List.tail_cons, hkey]
    simp only [Option.bind_eq_bind, Option.bind_some]
    rw [skip_cons (by decide), if_pos (by rfl), List.tail_cons, hblank, hvalue]
    cases kvs with
    | nil =>
      simp only [prettyMembers, Option.bind_some, List.append_assoc, skip_newline]
      rw [List.singleton_append, skip_cons (by decide), if_pos (by rfl), List.tail_cons,
        String.ofList_toList]
    | cons kv kvs =>
      obtain ⟨l, y⟩ := kv
      obtain ⟨-, htail⟩ := readMembers_pretty ((l, y) :: kvs) (by simp) hkvs level n rest (by
        rw [prettyMembers_comma, List.length_cons] at hn
        omega)
      simp only [Option.bind_some, prettyMembers_comma, List.cons_append]
      rw [skip_cons (by decide), if_neg (by simp), if_pos (by rfl), List.tail_cons, htail]
      simp

end

/-- **`loads` inverts the indented text**, with or without the line break after it. -/
theorem loads_pretty {v : Json} (hv : Readable h v) {rest : List Char} (hspace : skip rest = [])
    (hrest : Follows rest) : loads h (pretty 0 v ++ rest) = some v := by
  have hread := readValue_pretty v hv 0 ((pretty 0 v ++ rest).length + 1) rest
    (by simp only [List.length_append]; omega) hrest
  rw [loads, skip_pretty hv, hread]
  simp [hspace]

end Json
