import EvidenceBraid.Library.Json

/-!
# Reading a canonical text gives back its document

`loads_dumps`: a document whose dicts have sorted keys and whose numbers the reader's hooks
accept is read back from its canonical text, so the canonical text determines the document
(`dumps_injOn`). The induction follows the document; each case says what the reader does on the
text of that constructor, whatever follows it.
-/

namespace Json

/-! ## Strings -/

theorem hexVal_hexChar {n : ℕ} (hn : n < 16) : hexVal (hexChar n) = some n := by
  unfold hexChar
  interval_cases n <;> decide

theorem readHex4_control {n : ℕ} (hn : n < 32) (s : List Char) :
    readHex4 ('0' :: '0' :: hexChar (n / 16) :: hexChar (n % 16) :: s) = some (n, s) := by
  have hzero : hexVal '0' = some 0 := by decide
  simp only [readHex4, hzero, hexVal_hexChar (show n / 16 < 16 by omega),
    hexVal_hexChar (Nat.mod_lt n (by decide)), Option.bind_eq_bind, Option.bind_some,
    Option.some.injEq, Prod.mk.injEq, and_true]
  omega

/-- One escaped character is read back. -/
theorem readChar_escape (c : Char) (s : List Char) : readChar (escape c ++ s) = some (c, s) := by
  rcases escape_cases c with ⟨e, hmem, h⟩ | ⟨hlow, h⟩ | ⟨hhigh, -, hb, h⟩
  · rw [h]
    simp only [shortEscapes, List.mem_cons, Prod.mk.injEq, List.not_mem_nil, or_false] at hmem
    rcases hmem with ⟨rfl, rfl⟩ | ⟨rfl, rfl⟩ | ⟨rfl, rfl⟩ | ⟨rfl, rfl⟩ | ⟨rfl, rfl⟩ | ⟨rfl, rfl⟩ |
      ⟨rfl, rfl⟩ <;> rfl
  · have hu : readUnicode ('0' :: '0' :: hexChar (c.toNat / 16) :: hexChar (c.toNat % 16) :: s) =
        some (c, s) := by
      simp only [readUnicode, readHex4_control hlow, Option.bind_eq_bind, Option.bind_some]
      rw [if_neg (by omega), if_neg (by omega), Char.ofNat_toNat]
    rw [h]
    simpa [readChar, readEscape] using hu
  · rw [h]
    simp [readChar, hb, hhigh.not_gt]

theorem escape_head (c : Char) : ∃ d t, escape c = d :: t ∧ d ≠ '"' := by
  rcases escape_cases c with ⟨e, -, h⟩ | ⟨-, h⟩ | ⟨-, hq, -, h⟩
  · exact ⟨_, _, h, by decide⟩
  · exact ⟨_, _, h, by decide⟩
  · exact ⟨_, _, h, hq⟩

/-- The characters of a string are read back from their escapes, up to the closing quote. -/
theorem readChars_escape (cs : List Char) :
    ∀ (n : ℕ) (rest : List Char), (cs.flatMap escape).length < n →
      readChars n (cs.flatMap escape ++ '"' :: rest) = some (cs, rest) := by
  induction cs with
  | nil =>
    intro n rest hn
    obtain ⟨n, rfl⟩ : ∃ k, n = k + 1 := ⟨n - 1, by simp at hn; omega⟩
    simp [readChars]
  | cons c cs ih =>
    intro n rest hn
    obtain ⟨n, rfl⟩ : ∃ k, n = k + 1 := ⟨n - 1, by omega⟩
    have hread := readChar_escape c (cs.flatMap escape ++ '"' :: rest)
    obtain ⟨d, t, hdt, hd⟩ := escape_head c
    have hlen : (cs.flatMap escape).length < n := by
      simp only [List.flatMap_cons, List.length_append, hdt, List.length_cons] at hn
      omega
    simp only [List.flatMap_cons, List.append_assoc]
    rw [hdt, List.cons_append] at hread ⊢
    rw [readChars, if_neg hd, hread]
    simp only [Option.bind_eq_bind, Option.bind_some, ih n rest hlen]

theorem readChars_dumpsString {s : String} {n : ℕ} {rest : List Char}
    (hn : (dumpsString s).length ≤ n + 1) :
    readChars n ((s.toList.flatMap escape ++ ['"']) ++ rest) = some (s.toList, rest) := by
  rw [List.append_assoc]
  refine readChars_escape s.toList n rest ?_
  simp only [dumpsString, List.length_append, List.length_cons, List.length_nil] at hn
  omega

/-! ## Numbers -/

/-- A text no value can run into. -/
def Follows (rest : List Char) : Prop := Numeral.Stops rest

theorem follows_comma (s : List Char) : Follows (',' :: s) := by simp [Follows, Numeral.Stops]

theorem follows_bracket (s : List Char) : Follows (']' :: s) := by simp [Follows, Numeral.Stops]

theorem follows_brace (s : List Char) : Follows ('}' :: s) := by simp [Follows, Numeral.Stops]

theorem follows_nil : Follows [] := trivial

/-- A numeral starts with a minus sign or a digit. -/
theorem numeral_head {t : Numeral} (ht : t.Wf) :
    ∃ c s, t.text = c :: s ∧ (c = '-' ∨ c.isDigit = true) := by
  obtain ⟨hne, hds⟩ := ht.int
  cases hneg : t.neg with
  | true => exact ⟨'-', _, by simp [Numeral.text, hneg]; rfl, .inl rfl⟩
  | false =>
    obtain ⟨c, ds, hcd⟩ := List.exists_cons_of_ne_nil hne
    refine ⟨c, ds ++ (Numeral.fracText t.frac ++ Numeral.expText t.exp), ?_,
      .inr (hds c (by simp [hcd]))⟩
    simp [Numeral.text, hneg, hcd]

/-- On a numeral the reader's dispatch reaches its number case. -/
theorem readValue_numeral {h : Hooks} {t : Numeral} (ht : t.Wf) {n : ℕ}
    (hn : t.text.length ≤ n) (rest : List Char) :
    readValue h n (t.text ++ rest) = readNumber h (t.text ++ rest) := by
  obtain ⟨c, s, hcs, hc⟩ := numeral_head ht
  rw [hcs, List.length_cons] at hn
  obtain ⟨n, rfl⟩ : ∃ k, n = k + 1 := ⟨n - 1, by omega⟩
  have hother : ∀ d : Char, d ≠ '-' → d.isDigit = false → c ≠ d := by
    intro d hd hd' hcd
    subst hcd
    rcases hc with hc | hc
    · exact hd hc
    · rw [hc] at hd'; exact absurd hd' (by decide)
  rw [hcs, List.cons_append, readValue,
    if_neg (hother '"' (by decide) (by decide)), if_neg (hother '[' (by decide) (by decide)),
    if_neg (hother '{' (by decide) (by decide)), if_neg (hother 'n' (by decide) (by decide)),
    if_neg (hother 't' (by decide) (by decide)), if_neg (hother 'f' (by decide) (by decide))]

/-! ## Documents -/

mutual

/-- Sorted keys everywhere, and only numbers that the hooks read back from their own text. -/
def Readable (h : Hooks) : Json → Prop
  | .int n => h.parseInt (Numeral.ofInt n) = some n
  | .float x => h.parseFloat (Numeral.repr x) = some x
  | .arr xs => ReadableItems h xs
  | .obj kvs => KeysSorted kvs ∧ ReadableMembers h kvs
  | _ => True

def ReadableItems (h : Hooks) : List Json → Prop
  | [] => True
  | x :: xs => Readable h x ∧ ReadableItems h xs

def ReadableMembers (h : Hooks) : List (String × Json) → Prop
  | [] => True
  | (_, x) :: kvs => Readable h x ∧ ReadableMembers h kvs

end

theorem readableItems_iff {h : Hooks} {xs : List Json} :
    ReadableItems h xs ↔ ∀ x ∈ xs, Readable h x := by
  induction xs with
  | nil => simp [ReadableItems]
  | cons x xs ih => simp [ReadableItems, ih]

theorem readableMembers_iff {h : Hooks} {kvs : List (String × Json)} :
    ReadableMembers h kvs ↔ ∀ kv ∈ kvs, Readable h kv.2 := by
  induction kvs with
  | nil => simp [ReadableMembers]
  | cons kv kvs ih => obtain ⟨k, x⟩ := kv; simp [ReadableMembers, ih]

@[simp] theorem readable_str {h : Hooks} (s : String) : Readable h (.str s) := trivial

@[simp] theorem readable_arr {h : Hooks} {xs : List Json} :
    Readable h (.arr xs) ↔ ∀ x ∈ xs, Readable h x := readableItems_iff

@[simp] theorem readable_obj {h : Hooks} {kvs : List (String × Json)} :
    Readable h (.obj kvs) ↔ KeysSorted kvs ∧ ∀ kv ∈ kvs, Readable h kv.2 :=
  and_congr_right fun _ => readableMembers_iff

theorem readable_dict {hooks : Hooks} {kvs : List (String × Json)}
    (h : ∀ kv ∈ kvs, Readable hooks kv.2) : Readable hooks (dict kvs) := by
  rw [dict, readable_obj]
  refine ⟨keysSorted_foldr_insertKey kvs, ?_⟩
  induction kvs with
  | nil => simp
  | cons kv kvs ih =>
    intro x hx
    rcases mem_insertKey hx with rfl | hx
    · exact h x (by simp)
    · exact ih (fun y hy => h y (by simp [hy])) x hx

/-- The hooks of a reader without bounds of its own. -/
def plain : Hooks := ⟨fun t => some t.toInt, Numeral.toFinite?⟩

/-- Sorted keys everywhere. -/
def WellKeyed (v : Json) : Prop := Readable plain v

@[simp] theorem wellKeyed_null : WellKeyed .null := trivial

@[simp] theorem wellKeyed_bool (b : Bool) : WellKeyed (.bool b) := trivial

@[simp] theorem wellKeyed_int (n : ℤ) : WellKeyed (.int n) := by
  simp [WellKeyed, Readable, plain]

@[simp] theorem wellKeyed_float (x : Binary64.Finite) : WellKeyed (.float x) :=
  Numeral.toFinite?_repr x

@[simp] theorem wellKeyed_str (s : String) : WellKeyed (.str s) := trivial

@[simp] theorem wellKeyed_arr {xs : List Json} : WellKeyed (.arr xs) ↔ ∀ x ∈ xs, WellKeyed x :=
  readable_arr

@[simp] theorem wellKeyed_obj {kvs : List (String × Json)} :
    WellKeyed (.obj kvs) ↔ KeysSorted kvs ∧ ∀ kv ∈ kvs, WellKeyed kv.2 := readable_obj

theorem wellKeyed_dict {kvs : List (String × Json)} (h : ∀ kv ∈ kvs, WellKeyed kv.2) :
    WellKeyed (dict kvs) := readable_dict h

theorem skip_cons {c : Char} (hc : isSpace c = false) (s : List Char) :
    skip (c :: s) = c :: s := by simp [skip, hc]

/-- A value's text starts with a character that is neither a space nor a closing bracket. -/
theorem dumps_head {h : Hooks} {v : Json} (_ : Readable h v) :
    ∃ c s, dumps v = c :: s ∧ isSpace c = false ∧ c ≠ ']' ∧ c ≠ '}' := by
  have hnum : ∀ {t : Numeral}, t.Wf →
      ∃ c s, t.text = c :: s ∧ isSpace c = false ∧ c ≠ ']' ∧ c ≠ '}' := by
    intro t ht
    obtain ⟨c, s, hcs, hc⟩ := numeral_head ht
    refine ⟨c, s, hcs, ?_⟩
    rcases hc with rfl | hc
    · decide
    · refine ⟨?_, ?_, ?_⟩
      · by_contra hs
        simp only [isSpace, Bool.not_eq_false, Bool.or_eq_true, decide_eq_true_eq] at hs
        rcases hs with ((rfl | rfl) | rfl) | rfl <;> exact absurd hc (by decide)
      · rintro rfl; exact absurd hc (by decide)
      · rintro rfl; exact absurd hc (by decide)
  cases v with
  | null => exact ⟨_, _, rfl, by decide⟩
  | bool b => cases b <;> exact ⟨_, _, rfl, by decide⟩
  | int n => exact hnum (Numeral.wf_ofInt n)
  | float x => exact hnum (Numeral.wf_repr x)
  | str s => exact ⟨_, _, rfl, by decide⟩
  | arr xs => exact ⟨'[', _, by rw [dumps], by decide⟩
  | obj kvs => exact ⟨'{', _, by rw [dumps], by decide⟩

theorem dumpsString_eq (s : String) :
    dumpsString s = '"' :: (s.toList.flatMap escape ++ ['"']) := rfl

theorem follows_dumpsItems (xs : List Json) (rest : List Char) :
    Follows (dumpsItems false xs ++ rest) := by
  cases xs with
  | nil => exact follows_bracket rest
  | cons x xs => exact follows_comma _

theorem follows_dumpsMembers (kvs : List (String × Json)) (rest : List Char) :
    Follows (dumpsMembers false kvs ++ rest) := by
  cases kvs with
  | nil => exact follows_brace rest
  | cons kv kvs => exact follows_comma _

theorem nodup_of_sorted {kvs : List (String × Json)} (h : KeysSorted kvs) : (keys kvs).Nodup :=
  h.imp fun hab => ne_of_lt hab

theorem keysSorted_tail {kv : String × Json} {kvs : List (String × Json)}
    (h : KeysSorted (kv :: kvs)) : KeysSorted kvs :=
  List.Pairwise.of_cons h

theorem rejectDuplicateKeys_of_sorted {kvs : List (String × Json)} (h : KeysSorted kvs) :
    rejectDuplicateKeys kvs = some (.obj kvs) := by
  rw [rejectDuplicateKeys, if_pos (nodup_of_sorted h), dict_of_sorted h]

variable {h : Hooks}

mutual

/-- **A readable document is read back from its canonical text**, whatever follows it. -/
theorem readValue_dumps : ∀ (v : Json), Readable h v → ∀ (n : ℕ) (rest : List Char),
    (dumps v).length ≤ n → Follows rest → readValue h n (dumps v ++ rest) = some (v, rest)
  | .null, _, n, rest, hn, _ => by
    obtain ⟨n, rfl⟩ : ∃ k, n = k + 1 := ⟨n - 1, by simp [dumps] at hn; omega⟩
    simp [dumps, readValue, literal]
  | .bool true, _, n, rest, hn, _ => by
    obtain ⟨n, rfl⟩ : ∃ k, n = k + 1 := ⟨n - 1, by simp [dumps] at hn; omega⟩
    simp [dumps, readValue, literal]
  | .bool false, _, n, rest, hn, _ => by
    obtain ⟨n, rfl⟩ : ∃ k, n = k + 1 := ⟨n - 1, by simp [dumps] at hn; omega⟩
    simp [dumps, readValue, literal]
  | .int i, hv, n, rest, hn, hrest => by
    rw [dumps] at hn ⊢
    have hwf := Numeral.wf_ofInt i
    rw [readValue_numeral hwf hn, readNumber, Numeral.scan_text hwf hrest]
    simp only [Readable] at hv
    simp [hv]
  | .float x, hv, n, rest, hn, hrest => by
    rw [dumps] at hn ⊢
    have hwf := Numeral.wf_repr x
    rw [readValue_numeral hwf hn, readNumber, Numeral.scan_text hwf hrest]
    simp only [Readable] at hv
    simp [hv, Numeral.isInt_repr]
  | .str s, _, n, rest, hn, _ => by
    rw [dumps] at hn ⊢
    obtain ⟨n, rfl⟩ : ∃ k, n = k + 1 := ⟨n - 1, by simp [dumpsString] at hn; omega⟩
    rw [dumpsString_eq, List.cons_append, readValue, if_pos rfl, readChars_dumpsString hn]
    simp
  | .arr [], _, n, rest, hn, _ => by
    obtain ⟨n, rfl⟩ : ∃ k, n = k + 1 := ⟨n - 1, by simp [dumps, dumpsItems] at hn; omega⟩
    simp [dumps, dumpsItems, readValue, skip, isSpace]
  | .arr (x :: xs), hv, n, rest, hn, _ => by
    simp only [Readable] at hv
    rw [dumps, List.length_cons] at hn
    obtain ⟨n, rfl⟩ : ∃ k, n = k + 1 := ⟨n - 1, by omega⟩
    have hitems := readItems_dumps (x :: xs) (by simp) hv n rest (by omega)
    obtain ⟨c, s, hcs, hsp, hbr, -⟩ := dumps_head hv.1
    have hskip : skip (dumpsItems true (x :: xs) ++ rest) = dumpsItems true (x :: xs) ++ rest := by
      simp only [dumpsItems, if_true, List.nil_append, hcs, List.cons_append]
      exact skip_cons hsp _
    have hhead : (dumpsItems true (x :: xs) ++ rest).head? ≠ some ']' := by
      simp [dumpsItems, hcs, hbr]
    rw [dumps, List.cons_append, readValue, if_neg (by decide), if_pos rfl, hskip, if_neg hhead,
      hitems]
    rfl
  | .obj [], _, n, rest, hn, _ => by
    obtain ⟨n, rfl⟩ : ∃ k, n = k + 1 := ⟨n - 1, by simp [dumps, dumpsMembers] at hn; omega⟩
    simp [dumps, dumpsMembers, readValue, skip, isSpace]
  | .obj ((k, x) :: kvs), hv, n, rest, hn, _ => by
    simp only [Readable] at hv
    obtain ⟨hsorted, hmem⟩ := hv
    rw [dumps, List.length_cons] at hn
    obtain ⟨n, rfl⟩ : ∃ k, n = k + 1 := ⟨n - 1, by omega⟩
    have hmembers := readMembers_dumps ((k, x) :: kvs) (by simp) hmem n rest (by omega)
    have hskip : skip (dumpsMembers true ((k, x) :: kvs) ++ rest) =
        dumpsMembers true ((k, x) :: kvs) ++ rest := by
      simp only [dumpsMembers, if_true, List.nil_append, dumpsString_eq, List.cons_append]
      exact skip_cons (by decide) _
    have hhead : (dumpsMembers true ((k, x) :: kvs) ++ rest).head? ≠ some '}' := by
      simp [dumpsMembers, dumpsString_eq]
    rw [dumps, List.cons_append, readValue, if_neg (by decide), if_neg (by decide), if_pos rfl,
      hskip, if_neg hhead, hmembers]
    simp [rejectDuplicateKeys_of_sorted hsorted]

theorem readItems_dumps : ∀ (xs : List Json), xs ≠ [] → ReadableItems h xs →
    ∀ (n : ℕ) (rest : List Char), (dumpsItems true xs).length ≤ n →
      readItems h n (dumpsItems true xs ++ rest) = some (xs, rest)
  | [], hne, _, _, _, _ => absurd rfl hne
  | x :: xs, _, hv, n, rest, hn => by
    simp only [ReadableItems] at hv
    obtain ⟨hx, hxs⟩ := hv
    simp only [dumpsItems, if_true, List.nil_append, List.length_append] at hn ⊢
    have hlen : 0 < (dumpsItems false xs).length := by cases xs <;> simp [dumpsItems]
    obtain ⟨n, rfl⟩ : ∃ k, n = k + 1 := ⟨n - 1, by omega⟩
    have hvalue := readValue_dumps x hx n (dumpsItems false xs ++ rest) (by omega)
      (follows_dumpsItems xs rest)
    rw [List.append_assoc, readItems, hvalue]
    cases xs with
    | nil => simp [dumpsItems, skip, isSpace]
    | cons y ys =>
      have htail := readItems_dumps (y :: ys) (by simp) hxs n rest (by
        simp only [dumpsItems, if_true, if_false, List.length_append, List.length_cons,
          List.length_nil, Bool.false_eq_true] at hn ⊢
        omega)
      simp only [ReadableItems] at hxs
      obtain ⟨c, s, hcs, hsp, -, -⟩ := dumps_head hxs.1
      have hskip : skip (dumpsItems true (y :: ys) ++ rest) = dumpsItems true (y :: ys) ++ rest := by
        simp only [dumpsItems, if_true, List.nil_append, hcs, List.cons_append]
        exact skip_cons hsp _
      have hcomma : dumpsItems false (y :: ys) ++ rest =
          ',' :: (dumpsItems true (y :: ys) ++ rest) := by simp [dumpsItems]
      simp only [Option.bind_eq_bind, Option.bind_some, hcomma]
      rw [skip_cons (by decide), if_neg (by simp), if_pos (by simp), List.tail_cons, hskip, htail]
      rfl

theorem readMembers_dumps : ∀ (kvs : List (String × Json)), kvs ≠ [] → ReadableMembers h kvs →
    ∀ (n : ℕ) (rest : List Char), (dumpsMembers true kvs).length ≤ n →
      readMembers h n (dumpsMembers true kvs ++ rest) = some (kvs, rest)
  | [], hne, _, _, _, _ => absurd rfl hne
  | (k, x) :: kvs, _, hv, n, rest, hn => by
    simp only [ReadableMembers] at hv
    obtain ⟨hx, hkvs⟩ := hv
    simp only [dumpsMembers, if_true, List.nil_append, List.length_append, List.length_cons] at hn ⊢
    have hlen : 0 < (dumpsMembers false kvs).length := by
      cases kvs <;> simp [dumpsMembers]
    obtain ⟨n, rfl⟩ : ∃ k, n = k + 1 := ⟨n - 1, by omega⟩
    have hvalue := readValue_dumps x hx n (dumpsMembers false kvs ++ rest) (by omega)
      (follows_dumpsMembers kvs rest)
    obtain ⟨c, s, hcs, hsp, -, -⟩ := dumps_head hx
    have hskipv : skip (dumps x ++ (dumpsMembers false kvs ++ rest)) =
        dumps x ++ (dumpsMembers false kvs ++ rest) := by
      rw [hcs, List.cons_append]; exact skip_cons hsp _
    have hkey : readChars n ((k.toList.flatMap escape ++ ['"']) ++
        ':' :: (dumps x ++ (dumpsMembers false kvs ++ rest))) = _ :=
      readChars_dumpsString (by omega)
    rw [dumpsString_eq] at hn ⊢
    simp only [List.append_assoc, List.cons_append, List.nil_append] at hkey ⊢
    rw [readMembers, if_pos (by rfl), List.tail_cons, hkey]
    simp only [Option.bind_eq_bind, Option.bind_some]
    rw [skip_cons (by decide), if_pos (by rfl), List.tail_cons, hskipv, hvalue]
    cases kvs with
    | nil => simp [dumpsMembers, skip, isSpace]
    | cons kv kvs =>
      obtain ⟨l, y⟩ := kv
      have htail := readMembers_dumps ((l, y) :: kvs) (by simp) hkvs n rest (by
        simp only [dumpsMembers, if_true, if_false, List.length_append, List.length_cons,
          List.length_nil, Bool.false_eq_true] at hn ⊢
        omega)
      have hskip : skip (dumpsMembers true ((l, y) :: kvs) ++ rest) =
          dumpsMembers true ((l, y) :: kvs) ++ rest := by
        simp only [dumpsMembers, if_true, List.nil_append, dumpsString_eq, List.cons_append]
        exact skip_cons (by decide) _
      have hcomma : dumpsMembers false ((l, y) :: kvs) ++ rest =
          ',' :: (dumpsMembers true ((l, y) :: kvs) ++ rest) := by simp [dumpsMembers]
      simp only [Option.bind_some, hcomma]
      rw [skip_cons (by decide), if_neg (by simp), if_pos (by rfl), List.tail_cons, hskip, htail]
      simp

end

/-- **`loads` inverts `dumps`** on readable documents. -/
theorem loads_dumps {v : Json} (hv : Readable h v) : loads h (dumps v) = some v := by
  obtain ⟨c, s, hcs, hsp, -, -⟩ := dumps_head hv
  have hskip : skip (dumps v) = dumps v := by rw [hcs]; exact skip_cons hsp s
  have hread := readValue_dumps v hv ((dumps v).length + 1) [] (by omega) follows_nil
  rw [List.append_nil] at hread
  rw [loads, hskip, hread]
  rfl

/-- The canonical text determines a readable document. -/
theorem dumps_injOn {v w : Json} (hv : Readable h v) (hw : Readable h w)
    (heq : dumps v = dumps w) : v = w := by
  have h₁ := loads_dumps hv
  rw [heq, loads_dumps hw] at h₁
  exact (Option.some.inj h₁).symm

/-! ## What readers build -/


/-- What any reader builds has sorted keys. -/
theorem wellKeyed_read (h : Hooks) : ∀ n : ℕ,
    (∀ {s v rest}, readValue h n s = some (v, rest) → WellKeyed v) ∧
    (∀ {s xs rest}, readItems h n s = some (xs, rest) → ∀ x ∈ xs, WellKeyed x) ∧
    (∀ {s kvs rest}, readMembers h n s = some (kvs, rest) → ∀ kv ∈ kvs, WellKeyed kv.2) := by
  intro n
  induction n with
  | zero =>
    refine ⟨?_, ?_, ?_⟩ <;> intro _ _ _ hread
    · simp [readValue] at hread
    · simp [readItems] at hread
    · simp [readMembers] at hread
  | succ n ih =>
    obtain ⟨hvalue, hitems, hmembers⟩ := ih
    have hliteral : ∀ {tail s rest : List Char} {v w : Json}, WellKeyed w →
        literal tail w s = some (v, rest) → WellKeyed v := by
      intro tail s rest v w hw hread
      unfold literal at hread
      split_ifs at hread
      simp only [Option.some.injEq, Prod.mk.injEq] at hread
      exact hread.1 ▸ hw
    refine ⟨?_, ?_, ?_⟩
    · intro s v rest hread
      cases s with
      | nil => simp [readValue] at hread
      | cons c s =>
        rw [readValue] at hread
        split_ifs at hread
        · simp only [Option.bind_eq_bind, Option.bind_eq_some_iff, Option.some.injEq,
            Prod.mk.injEq] at hread
          obtain ⟨-, -, rfl, -⟩ := hread
          exact wellKeyed_str _
        · simp only [Option.some.injEq, Prod.mk.injEq] at hread
          rw [← hread.1]
          simp
        · simp only [Option.bind_eq_bind, Option.bind_eq_some_iff, Option.some.injEq,
            Prod.mk.injEq] at hread
          obtain ⟨⟨xs, t⟩, hxs, rfl, -⟩ := hread
          exact wellKeyed_arr.mpr (hitems hxs)
        · simp only [Option.some.injEq, Prod.mk.injEq] at hread
          rw [← hread.1]
          simp [KeysSorted, keys]
        · simp only [Option.bind_eq_bind, Option.bind_eq_some_iff, Option.some.injEq,
            Prod.mk.injEq, rejectDuplicateKeys] at hread
          obtain ⟨⟨kvs, t⟩, hkvs, w, hw, rfl, -⟩ := hread
          split_ifs at hw
          rw [← Option.some.inj hw]
          exact wellKeyed_dict (hmembers hkvs)
        · exact hliteral wellKeyed_null hread
        · exact hliteral (wellKeyed_bool _) hread
        · exact hliteral (wellKeyed_bool _) hread
        · simp only [readNumber, Option.bind_eq_bind, Option.bind_eq_some_iff] at hread
          obtain ⟨⟨t, u⟩, -, hread⟩ := hread
          split_ifs at hread
          · simp only [Option.bind_eq_some_iff, Option.some.injEq, Prod.mk.injEq] at hread
            obtain ⟨m, -, rfl, -⟩ := hread
            exact wellKeyed_int m
          · simp only [Option.bind_eq_some_iff, Option.some.injEq, Prod.mk.injEq] at hread
            obtain ⟨x, -, rfl, -⟩ := hread
            exact wellKeyed_float x
    · intro s xs rest hread
      simp only [readItems, Option.bind_eq_bind, Option.bind_eq_some_iff] at hread
      obtain ⟨⟨x, t⟩, hx, hread⟩ := hread
      split_ifs at hread
      · simp only [Option.some.injEq, Prod.mk.injEq] at hread
        rw [← hread.1]
        simpa using hvalue hx
      · simp only [Option.bind_eq_some_iff, Option.some.injEq, Prod.mk.injEq] at hread
        obtain ⟨⟨ys, u⟩, hys, rfl, -⟩ := hread
        simpa using And.intro (hvalue hx) (hitems hys)
    · intro s kvs rest hread
      rw [readMembers] at hread
      split_ifs at hread
      simp only [Option.bind_eq_bind, Option.bind_eq_some_iff] at hread
      obtain ⟨⟨cs, t⟩, -, hread⟩ := hread
      split_ifs at hread
      simp only [Option.bind_eq_some_iff] at hread
      obtain ⟨⟨x, u⟩, hx, hread⟩ := hread
      split_ifs at hread
      · simp only [Option.some.injEq, Prod.mk.injEq] at hread
        rw [← hread.1]
        simpa using hvalue hx
      · simp only [Option.bind_eq_some_iff, Option.some.injEq, Prod.mk.injEq] at hread
        obtain ⟨⟨lws, w⟩, hlws, rfl, -⟩ := hread
        simpa using And.intro (hvalue hx) (hmembers hlws)

/-- **What is read has sorted keys everywhere.** -/
theorem wellKeyed_of_loads {h : Hooks} {s : List Char} {v : Json} (hread : loads h s = some v) :
    WellKeyed v := by
  simp only [loads, Option.bind_eq_bind, Option.bind_eq_some_iff] at hread
  obtain ⟨⟨w, rest⟩, hw, hread⟩ := hread
  split_ifs at hread
  exact Option.some.inj hread ▸ (wellKeyed_read h _).1 hw

end Json
