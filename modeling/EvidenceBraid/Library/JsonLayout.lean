import EvidenceBraid.Library.JsonRoundTrip

/-!
# The indented text

`pretty` puts every item on its own line, indented by two blanks a level, as in `indent=2`.
`squeeze` drops the blanks and line breaks outside strings and leaves the compact text
(`squeeze_pretty`), so the indented text determines the document too (`pretty_injOn`).
-/

namespace Json

/-! ## Indented text -/

/-- A line break and the indentation of a level. -/
def newline (level : ℕ) : List Char := '\n' :: List.replicate (2 * level) ' '

mutual

/-- The indented text of a document at a level. -/
def pretty (level : ℕ) : Json → List Char
  | .arr [] => ['[', ']']
  | .arr (x :: xs) => '[' :: prettyItems (level + 1) true (x :: xs)
  | .obj [] => ['{', '}']
  | .obj (kv :: kvs) => '{' :: prettyMembers (level + 1) true (kv :: kvs)
  | .null => dumps .null
  | .bool b => dumps (.bool b)
  | .int n => dumps (.int n)
  | .float x => dumps (.float x)
  | .str s => dumps (.str s)

def prettyItems (level : ℕ) (first : Bool) : List Json → List Char
  | [] => newline (level - 1) ++ [']']
  | x :: xs =>
    (if first then [] else [',']) ++ newline level ++ pretty level x ++
      prettyItems level false xs

def prettyMembers (level : ℕ) (first : Bool) : List (String × Json) → List Char
  | [] => newline (level - 1) ++ ['}']
  | (k, x) :: kvs =>
    (if first then [] else [',']) ++ newline level ++ dumpsString k ++ [':', ' '] ++
      pretty level x ++ prettyMembers level false kvs

end

/-! ## Dropping the layout -/

mutual

/-- Drop spaces outside strings. -/
def squeeze : List Char → List Char
  | [] => []
  | c :: s =>
    if c = '"' then c :: quoted s
    else if isSpace c then squeeze s
    else c :: squeeze s

/-- Inside a string, up to its closing quote. -/
def quoted : List Char → List Char
  | [] => []
  | c :: s => if c = '"' then c :: squeeze s else if c = '\\' then c :: escaped s else c :: quoted s

/-- After a backslash. -/
def escaped : List Char → List Char
  | [] => []
  | c :: s => c :: quoted s

end

theorem squeeze_space {c : Char} (hc : isSpace c = true) (s : List Char) :
    squeeze (c :: s) = squeeze s := by
  have hq : c ≠ '"' := by rintro rfl; exact absurd hc (by decide)
  rw [squeeze, if_neg hq, if_pos hc]

theorem squeeze_newline (level : ℕ) (s : List Char) : squeeze (newline level ++ s) = squeeze s := by
  have hblanks : ∀ k, squeeze (List.replicate k ' ' ++ s) = squeeze s := by
    intro k
    induction k with
    | zero => rfl
    | succ k ih => rw [List.replicate_succ, List.cons_append, squeeze_space (by decide), ih]
  rw [newline, List.cons_append, squeeze_space (by decide), hblanks]

/-- A character outside strings that is neither a quote nor a space stays. -/
theorem squeeze_plain {cs : List Char} (hcs : ∀ c ∈ cs, c ≠ '"' ∧ isSpace c = false)
    (s : List Char) : squeeze (cs ++ s) = cs ++ squeeze s := by
  induction cs with
  | nil => rfl
  | cons c cs ih =>
    obtain ⟨hq, hsp⟩ := hcs c (by simp)
    rw [List.cons_append, squeeze, if_neg hq, if_neg (by simp [hsp]),
      ih fun d hd => hcs d (by simp [hd]), List.cons_append]

theorem quoted_plain {cs : List Char} (hcs : ∀ c ∈ cs, c ≠ '"' ∧ c ≠ '\\') (s : List Char) :
    quoted (cs ++ s) = cs ++ quoted s := by
  induction cs with
  | nil => rfl
  | cons c cs ih =>
    obtain ⟨hq, hb⟩ := hcs c (by simp)
    rw [List.cons_append, quoted, if_neg hq, if_neg hb, ih fun d hd => hcs d (by simp [hd]),
      List.cons_append]

/-- An escaped character is a plain one, or a backslash, a character and plain ones. -/
theorem escape_shape (c : Char) :
    (escape c = [c] ∧ c ≠ '"' ∧ c ≠ '\\') ∨
      ∃ d ds, escape c = '\\' :: d :: ds ∧ ∀ e ∈ ds, e ≠ '"' ∧ e ≠ '\\' := by
  rcases escape_cases c with ⟨e, -, h⟩ | ⟨hlow, h⟩ | ⟨-, hq, hb, h⟩
  · exact .inr ⟨_, _, h, by simp⟩
  · have hhex : ∀ n < 16, hexChar n ≠ '"' ∧ hexChar n ≠ '\\' := by decide
    obtain ⟨hhi, hlo⟩ := hexChar_all (P := fun d => d ≠ '"' ∧ d ≠ '\\') hhex hlow
    refine .inr ⟨_, _, h, ?_⟩
    simp only [List.forall_mem_cons, List.not_mem_nil, false_implies, implies_true, and_true]
    exact ⟨by decide, by decide, hhi, hlo⟩
  · exact .inl ⟨h, hq, hb⟩

theorem quoted_escape (cs : List Char) (s : List Char) :
    quoted (cs.flatMap escape ++ '"' :: s) = cs.flatMap escape ++ '"' :: squeeze s := by
  induction cs with
  | nil => rw [List.flatMap_nil, List.nil_append, quoted, if_pos rfl, List.nil_append]
  | cons c cs ih =>
    rw [List.flatMap_cons, List.append_assoc, List.append_assoc]
    rcases escape_shape c with ⟨hesc, hq, hb⟩ | ⟨d, ds, hesc, hds⟩
    · rw [hesc, List.singleton_append, List.singleton_append, quoted, if_neg hq, if_neg hb, ih]
    · rw [hesc]
      simp only [List.cons_append]
      rw [quoted, if_neg (by decide), if_pos rfl, escaped, quoted_plain hds, ih]

theorem squeeze_dumpsString (k : String) (s : List Char) :
    squeeze (dumpsString k ++ s) = dumpsString k ++ squeeze s := by
  rw [dumpsString_eq]
  simp only [List.cons_append, List.append_assoc, List.nil_append]
  rw [squeeze, if_pos rfl, quoted_escape]

theorem squeeze_numeral {t : Numeral} (ht : t.Wf) (s : List Char) :
    squeeze (t.text ++ s) = t.text ++ squeeze s := by
  refine squeeze_plain (fun c hc => ?_) s
  rcases Numeral.mem_text ht hc with hd | rfl | rfl | rfl | rfl
  · refine ⟨?_, ?_⟩
    · rintro rfl
      exact absurd hd (by decide)
    · by_contra hsp
      simp only [isSpace, Bool.not_eq_false, Bool.or_eq_true, decide_eq_true_eq] at hsp
      rcases hsp with ((rfl | rfl) | rfl) | rfl <;> exact absurd hd (by decide)
  all_goals decide

mutual

/-- **Without its layout the indented text is the compact one.** -/
theorem squeeze_pretty : ∀ (v : Json) (level : ℕ) (s : List Char),
    squeeze (pretty level v ++ s) = dumps v ++ squeeze s
  | .null, level, s => by
    rw [pretty]; exact squeeze_plain (List.all_iff_forall_prop.mp (by decide)) s
  | .bool b, level, s => by
    rw [pretty]; cases b <;> exact squeeze_plain (List.all_iff_forall_prop.mp (by decide)) s
  | .int n, level, s => by
    rw [pretty]; exact squeeze_numeral (Numeral.wf_ofInt n) s
  | .float x, level, s => by
    rw [pretty]; exact squeeze_numeral (Numeral.wf_repr x) s
  | .str k, level, s => by
    rw [pretty]; exact squeeze_dumpsString k s
  | .arr [], level, s => by
    rw [pretty]; exact squeeze_plain (List.all_iff_forall_prop.mp (by decide)) s
  | .arr (x :: xs), level, s => by
    rw [pretty, dumps, List.cons_append, squeeze, if_neg (by decide), if_neg (by decide),
      squeeze_prettyItems (x :: xs) (level + 1) true s, List.cons_append]
  | .obj [], level, s => by
    rw [pretty]; exact squeeze_plain (List.all_iff_forall_prop.mp (by decide)) s
  | .obj (kv :: kvs), level, s => by
    rw [pretty, dumps, List.cons_append, squeeze, if_neg (by decide), if_neg (by decide),
      squeeze_prettyMembers (kv :: kvs) (level + 1) true s, List.cons_append]

theorem squeeze_prettyItems : ∀ (xs : List Json) (level : ℕ) (first : Bool) (s : List Char),
    squeeze (prettyItems level first xs ++ s) = dumpsItems first xs ++ squeeze s
  | [], level, first, s => by
    rw [prettyItems, dumpsItems, List.append_assoc, squeeze_newline]
    exact squeeze_plain (List.all_iff_forall_prop.mp (by decide)) s
  | x :: xs, level, first, s => by
    have hcomma : ∀ r : List Char, squeeze ((if first then [] else [',']) ++ r) =
        (if first then [] else [',']) ++ squeeze r := by
      intro r
      cases first
      · exact @squeeze_plain [','] (List.all_iff_forall_prop.mp (by decide)) r
      · rfl
    simp only [prettyItems, dumpsItems, List.append_assoc]
    rw [hcomma, squeeze_newline, squeeze_pretty x level, squeeze_prettyItems xs level false s]

theorem squeeze_prettyMembers :
    ∀ (kvs : List (String × Json)) (level : ℕ) (first : Bool) (s : List Char),
      squeeze (prettyMembers level first kvs ++ s) = dumpsMembers first kvs ++ squeeze s
  | [], level, first, s => by
    rw [prettyMembers, dumpsMembers, List.append_assoc, squeeze_newline]
    exact squeeze_plain (List.all_iff_forall_prop.mp (by decide)) s
  | (k, x) :: kvs, level, first, s => by
    have hcomma : ∀ r : List Char, squeeze ((if first then [] else [',']) ++ r) =
        (if first then [] else [',']) ++ squeeze r := by
      intro r
      cases first
      · exact @squeeze_plain [','] (List.all_iff_forall_prop.mp (by decide)) r
      · rfl
    have hcolon : ∀ r : List Char, squeeze (':' :: ' ' :: r) = ':' :: squeeze r := by
      intro r
      rw [squeeze, if_neg (by decide), if_neg (by decide), squeeze_space (by decide)]
    simp only [prettyMembers, dumpsMembers, List.append_assoc, List.cons_append, List.nil_append]
    rw [hcomma, squeeze_newline, squeeze_dumpsString, hcolon, squeeze_pretty x level,
      squeeze_prettyMembers kvs level false s]

end

/-! ## Line breaks -/

theorem printable_escape (c : Char) : ∀ d ∈ escape c, 32 ≤ d.toNat := by
  rcases escape_cases c with ⟨e, hmem, h⟩ | ⟨hlow, h⟩ | ⟨hhigh, -, -, h⟩
  · have hall : ∀ p ∈ shortEscapes, 32 ≤ p.2.toNat := by decide
    rw [h, List.forall_mem_cons, List.forall_mem_singleton]
    exact ⟨by decide, hall _ hmem⟩
  · have hhex : ∀ n < 16, 32 ≤ (hexChar n).toNat := by decide
    obtain ⟨hhi, hlo⟩ := hexChar_all (P := fun d => 32 ≤ d.toNat) hhex hlow
    rw [h]
    simp only [List.forall_mem_cons, List.not_mem_nil, false_implies, implies_true, and_true]
    exact ⟨by decide, by decide, by decide, by decide, hhi, hlo⟩
  · rwa [h, List.forall_mem_singleton]

theorem printable_dumpsString (s : String) : ∀ d ∈ dumpsString s, 32 ≤ d.toNat := by
  intro d hd
  rw [dumpsString_eq] at hd
  simp only [List.mem_cons, List.mem_append, List.mem_flatMap, List.not_mem_nil, or_false] at hd
  rcases hd with rfl | ⟨c, -, hd⟩ | rfl
  · decide
  · exact printable_escape c d hd
  · decide

theorem printable_numeral {t : Numeral} (ht : t.Wf) : ∀ d ∈ t.text, 32 ≤ d.toNat := by
  intro d hd
  rcases Numeral.mem_text ht hd with hdigit | rfl | rfl | rfl | rfl
  on_goal 1 =>
    simp only [Char.isDigit, Bool.and_eq_true, decide_eq_true_eq] at hdigit
    have hlow : 48 ≤ d.toNat := hdigit.1
    omega
  all_goals decide

mutual

/-- **The compact text has no control character**, so no line break. -/
theorem printable_dumps : ∀ (v : Json), ∀ d ∈ dumps v, 32 ≤ d.toNat
  | .null => List.all_iff_forall_prop.mp (by decide)
  | .bool true => List.all_iff_forall_prop.mp (by decide)
  | .bool false => List.all_iff_forall_prop.mp (by decide)
  | .int n => printable_numeral (Numeral.wf_ofInt n)
  | .float x => printable_numeral (Numeral.wf_repr x)
  | .str s => printable_dumpsString s
  | .arr xs => by
    intro d hd
    rcases List.mem_cons.mp hd with rfl | hd
    · decide
    · exact printable_dumpsItems xs true d hd
  | .obj kvs => by
    intro d hd
    rcases List.mem_cons.mp hd with rfl | hd
    · decide
    · exact printable_dumpsMembers kvs true d hd

theorem printable_dumpsItems : ∀ (xs : List Json) (first : Bool),
    ∀ d ∈ dumpsItems first xs, 32 ≤ d.toNat
  | [], first => by rw [dumpsItems]; exact List.all_iff_forall_prop.mp (by decide)
  | x :: xs, first => by
    intro d hd
    simp only [dumpsItems, List.mem_append] at hd
    rcases hd with hd | hd | hd
    · revert d
      cases first <;> exact List.all_iff_forall_prop.mp (by decide)
    · exact printable_dumps x d hd
    · exact printable_dumpsItems xs false d hd

theorem printable_dumpsMembers : ∀ (kvs : List (String × Json)) (first : Bool),
    ∀ d ∈ dumpsMembers first kvs, 32 ≤ d.toNat
  | [], first => by rw [dumpsMembers]; exact List.all_iff_forall_prop.mp (by decide)
  | (k, x) :: kvs, first => by
    intro d hd
    simp only [dumpsMembers, List.mem_append, List.mem_cons] at hd
    rcases hd with hd | hd | rfl | hd | hd
    · revert d
      cases first <;> exact List.all_iff_forall_prop.mp (by decide)
    · exact printable_dumpsString k d hd
    · decide
    · exact printable_dumps x d hd
    · exact printable_dumpsMembers kvs false d hd

end

/-- The indented text determines a document, as the compact one does. -/
theorem pretty_injOn {h : Hooks} {v w : Json} (hv : Readable h v) (hw : Readable h w)
    (heq : pretty 0 v = pretty 0 w) : v = w := by
  refine dumps_injOn hv hw ?_
  have hv' := squeeze_pretty v 0 []
  have hw' := squeeze_pretty w 0 []
  rw [heq, hw'] at hv'
  simpa using hv'.symm

end Json
