import EvidenceBraid.Library.JsonShape

/-!
# Counting a text's tokens before it is parsed

`scanTokens` walks over a text byte by byte. It counts open brackets, it counts strings, containers
and scalar tokens, and it measures every scalar token. On a canonical text it accepts exactly the
documents within its limits (`scanTokens_dumps`): its tokens are the document's values and keys.
-/

namespace Json

/-- The bounds on open brackets, on tokens, and on the bytes of a scalar token after its sign. -/
structure TokenLimits where
  depth : ℕ
  nodes : ℕ
  digits : ℕ

/-- What follows a string whose opening quote has been read. A backslash takes a byte with it. -/
def afterString : Bytes → Bytes
  | [] => []
  | [_] => []
  | b :: c :: rest =>
    if b = 92 then afterString rest
    else if b = 34 then c :: rest
    else afterString (c :: rest)

/-- The bytes that end a scalar token. -/
def isDelimiter (b : UInt8) : Bool := b ∈ [32, 13, 10, 9, 44, 93, 125, 58]

/-- The bytes that begin a scalar token. -/
def startsScalar (b : UInt8) : Bool :=
  b ∈ [45, 48, 49, 50, 51, 52, 53, 54, 55, 56, 57, 116, 102, 110]

theorem length_afterString_le (bs : Bytes) : (afterString bs).length ≤ bs.length := by
  induction bs using afterString.induct with
  | case1 => exact le_rfl
  | case2 b => exact Nat.zero_le _
  | case3 c rest ih =>
    rw [afterString, if_pos rfl]
    simp only [List.length_cons]
    omega
  | case4 c rest h =>
    rw [afterString, if_neg h, if_pos rfl]
    simp
  | case5 b c rest h h' ih =>
    rw [afterString, if_neg h, if_neg h']
    simp only [List.length_cons] at ih ⊢
    omega

namespace TokenLimits

/-- The check after every step. -/
def within (l : TokenLimits) (depth : ℤ) (nodes : ℕ) : Bool := depth ≤ l.depth ∧ nodes ≤ l.nodes

/-- The bytes of a scalar token after its sign, where `tail` is what follows its first byte. -/
def measure (b : UInt8) (tail : Bytes) : ℕ :=
  (tail.takeWhile (!isDelimiter ·)).length + 1 - if b = 45 then 1 else 0

end TokenLimits

/-- The text stays within the limits, from a place outside of its strings on. -/
def scanTokens (l : TokenLimits) : Bytes → ℤ → ℕ → Bool
  | [], _, _ => true
  | b :: bs, depth, nodes =>
    if b = 34 then
      l.within depth (nodes + 1) && scanTokens l (afterString bs) depth (nodes + 1)
    else if b = 123 ∨ b = 91 then
      l.within (depth + 1) (nodes + 1) && scanTokens l bs (depth + 1) (nodes + 1)
    else if b = 125 ∨ b = 93 then
      l.within (depth - 1) nodes && scanTokens l bs (depth - 1) nodes
    else if startsScalar b then
      TokenLimits.measure b bs ≤ l.digits && (l.within depth (nodes + 1) &&
        scanTokens l (bs.dropWhile (!isDelimiter ·)) depth (nodes + 1))
    else
      l.within depth nodes && scanTokens l bs depth nodes
termination_by bytes => bytes.length
decreasing_by
  · exact Nat.lt_succ_of_le (length_afterString_le bs)
  · exact Nat.lt_succ_self _
  · exact Nat.lt_succ_self _
  · exact Nat.lt_succ_of_le (List.dropWhile_sublist _).length_le
  · exact Nat.lt_succ_self _

/-! ## What a document costs -/

mutual

/-- The values and the keys of a document. -/
def tokens : Json → ℕ
  | .arr xs => 1 + tokensItems xs
  | .obj kvs => 1 + tokensMembers kvs
  | .null | .bool _ | .int _ | .float _ | .str _ => 1

def tokensItems : List Json → ℕ
  | [] => 0
  | x :: xs => tokens x + tokensItems xs

def tokensMembers : List (String × Json) → ℕ
  | [] => 0
  | (_, x) :: kvs => 1 + tokens x + tokensMembers kvs

end

/-- The length of a numeral after its sign. -/
def numeralWidth (t : Numeral) : ℕ := t.text.length - if t.neg then 1 else 0

mutual

/-- No number is longer than the bound. -/
def Narrow (digits : ℕ) : Json → Prop
  | .int n => numeralWidth (Numeral.ofInt n) ≤ digits
  | .float x => numeralWidth (Numeral.repr x) ≤ digits
  | .arr xs => NarrowItems digits xs
  | .obj kvs => NarrowMembers digits kvs
  | .null | .bool _ | .str _ => True

def NarrowItems (digits : ℕ) : List Json → Prop
  | [] => True
  | x :: xs => Narrow digits x ∧ NarrowItems digits xs

def NarrowMembers (digits : ℕ) : List (String × Json) → Prop
  | [] => True
  | (_, x) :: kvs => Narrow digits x ∧ NarrowMembers digits kvs

end

theorem tokensMembers_eq_sum (kvs : List (String × Json)) :
    tokensMembers kvs = (kvs.map fun kv => 1 + tokens kv.2).sum := by
  induction kvs with
  | nil => rfl
  | cons kv kvs ih => rw [tokensMembers, ih, List.map_cons, List.sum_cons]

theorem narrowMembers_iff {digits : ℕ} {kvs : List (String × Json)} :
    NarrowMembers digits kvs ↔ ∀ kv ∈ kvs, Narrow digits kv.2 := by
  induction kvs with
  | nil => simp [NarrowMembers]
  | cons kv kvs ih => rw [NarrowMembers, ih, List.forall_mem_cons]

/-- A dict costs what its items cost, in any order. -/
theorem tokens_dict {kvs : List (String × Json)} (h : (keys kvs).Nodup) :
    tokens (dict kvs) = 1 + tokensMembers kvs := by
  rw [dict, tokens, tokensMembers_eq_sum, tokensMembers_eq_sum]
  exact congrArg (1 + ·) ((foldr_insertKey_perm h).map _).sum_eq

theorem narrow_dict {digits : ℕ} {kvs : List (String × Json)} (h : (keys kvs).Nodup) :
    Narrow digits (dict kvs) ↔ NarrowMembers digits kvs := by
  rw [dict, Narrow, narrowMembers_iff, narrowMembers_iff]
  exact forall_congr' fun kv => imp_congr_left (foldr_insertKey_perm h).mem_iff

/-- The width of an integer is the number of its digits. -/
theorem numeralWidth_ofInt_le {n : ℤ} {digits : ℕ} (h : 0 < digits) :
    numeralWidth (Numeral.ofInt n) ≤ digits ↔ n.natAbs < 10 ^ digits := by
  have hwidth : numeralWidth (Numeral.ofInt n) = (Nat.toDigits 10 n.natAbs).length := by
    by_cases hneg : n < 0 <;>
      simp [numeralWidth, Numeral.text, Numeral.ofInt, Numeral.fracText, Numeral.expText, hneg]
  rw [hwidth]
  exact Nat.length_toDigits_le_iff (by decide) h

/-! ## Strings -/

theorem afterString_plain {bs : Bytes} (h : ∀ b ∈ bs, b ≠ 92 ∧ b ≠ 34) (rest : Bytes) :
    afterString (bs ++ rest) = afterString rest := by
  induction bs with
  | nil => rfl
  | cons b bs ih =>
    rw [List.forall_mem_cons] at h
    rw [← ih h.2, List.cons_append]
    cases bs ++ rest with
    | nil => rfl
    | cons c cs => rw [afterString, if_neg h.1.1, if_neg h.1.2]

/-- A byte of another character is not the byte of an ASCII character. -/
theorem ne_of_mem_encodeChar {c d : Char} (hd : d.toNat < 128) (hne : c ≠ d) {b : UInt8}
    (hb : b ∈ String.utf8EncodeChar c) : b ≠ UInt8.ofNat d.toNat := by
  have hcode : (UInt8.ofNat d.toNat).toNat = d.toNat := by
    rw [UInt8.toNat_ofNat']
    omega
  intro heq
  have htoNat : b.toNat = d.toNat := by rw [heq, hcode]
  by_cases hlow : c.toNat < 128
  · rw [Utf8.encode_ascii hlow, List.mem_singleton] at hb
    rw [hb, UInt8.toNat_ofNat'] at htoNat
    exact toNat_ne hne (by omega)
  · have hhigh := Utf8.encode_not_ascii (Nat.le_of_not_lt hlow) b hb
    omega

theorem plain_encodeChar {c : Char} (hq : c ≠ '"') (hb : c ≠ '\\') :
    ∀ b ∈ String.utf8EncodeChar c, b ≠ 92 ∧ b ≠ 34 := fun _ hmem =>
  ⟨ne_of_mem_encodeChar (by decide) hb hmem, ne_of_mem_encodeChar (by decide) hq hmem⟩

theorem plain_encode {cs : List Char} (h : ∀ c ∈ cs, c ≠ '"' ∧ c ≠ '\\') :
    ∀ b ∈ Utf8.encode cs, b ≠ 92 ∧ b ≠ 34 := by
  intro b hb
  obtain ⟨c, hc, hb⟩ := List.mem_flatMap.mp hb
  exact plain_encodeChar (h c hc).1 (h c hc).2 b hb

/-- After a backslash, whatever character follows is passed over. -/
theorem afterString_backslash (d : Char) (rest : Bytes) :
    afterString (92 :: (String.utf8EncodeChar d ++ rest)) = afterString rest := by
  by_cases hlow : d.toNat < 128
  · rw [Utf8.encode_ascii hlow, List.singleton_append, afterString, if_pos rfl]
  · have hhigh := Utf8.encode_not_ascii (Nat.le_of_not_lt hlow)
    obtain ⟨b, bs, hbs⟩ := List.exists_cons_of_ne_nil (String.utf8EncodeChar_ne_nil (c := d))
    rw [hbs, List.forall_mem_cons] at hhigh
    rw [hbs, List.cons_append, afterString, if_pos rfl]
    refine afterString_plain (fun x hx => ?_) rest
    have hx' := hhigh.2 x hx
    constructor <;> rintro rfl <;> exact absurd hx' (by decide)

/-- The body of a canonical string is passed over, with the quote after it. -/
theorem afterString_escape (cs : List Char) (rest : Bytes) :
    afterString (Utf8.encode (cs.flatMap escape) ++ 34 :: rest) = rest := by
  induction cs with
  | nil =>
    cases rest with
    | nil => rfl
    | cons b bs => rw [List.flatMap_nil, Utf8.encode_nil, List.nil_append, afterString,
        if_neg (by decide), if_pos rfl]
  | cons c cs ih =>
    rw [List.flatMap_cons, Utf8.encode_append, List.append_assoc]
    rcases escape_shape c with ⟨hesc, hq, hb⟩ | ⟨d, ds, hesc, hds⟩
    · rw [hesc, afterString_plain (plain_encode (by simpa using ⟨hq, hb⟩)), ih]
    · have hbackslash : Utf8.encode ('\\' :: d :: ds) =
          92 :: (String.utf8EncodeChar d ++ Utf8.encode ds) := rfl
      rw [hesc, hbackslash, List.cons_append, List.append_assoc, afterString_backslash,
        afterString_plain (plain_encode hds), ih]

variable {l : TokenLimits} {depth : ℤ} {nodes : ℕ}

theorem scanTokens_dumpsString (k : String) (rest : Bytes) :
    scanTokens l (Utf8.encode (dumpsString k) ++ rest) depth nodes =
      (l.within depth (nodes + 1) && scanTokens l rest depth (nodes + 1)) := by
  have hsplit : Utf8.encode (dumpsString k) ++ rest =
      34 :: (Utf8.encode (k.toList.flatMap escape) ++ 34 :: rest) := by
    rw [dumpsString, Utf8.encode_append, List.append_assoc]
    rfl
  rw [hsplit, scanTokens, if_pos rfl, afterString_escape]

/-! ## Scalars -/

/-- A scalar token ends here. -/
def TokenEnds (rest : Bytes) : Prop := ∀ b ∈ rest.head?, isDelimiter b = true

theorem span_token {tail rest : Bytes} (htail : ∀ b ∈ tail, isDelimiter b = false)
    (hrest : TokenEnds rest) :
    (tail ++ rest).takeWhile (!isDelimiter ·) = tail ∧
      (tail ++ rest).dropWhile (!isDelimiter ·) = rest := by
  have hall : ∀ b ∈ tail, (!isDelimiter b) = true := fun b hb => by rw [htail b hb]; rfl
  have hstop : rest.takeWhile (!isDelimiter ·) = [] ∧ rest.dropWhile (!isDelimiter ·) = rest := by
    cases rest with
    | nil => exact ⟨rfl, rfl⟩
    | cons b bs =>
      have hb : (!isDelimiter b) = false := by rw [hrest b rfl]; rfl
      exact ⟨List.takeWhile_cons_of_neg (by simp [hb]), List.dropWhile_cons_of_neg (by simp [hb])⟩
  rw [List.takeWhile_append_of_pos hall, List.dropWhile_append_of_pos hall, hstop.1, hstop.2,
    List.append_nil]
  exact ⟨rfl, rfl⟩

/-- A scalar token is measured and counted. -/
theorem scanTokens_scalar {b : UInt8} {tail rest : Bytes} (hb : startsScalar b = true)
    (htail : ∀ b ∈ tail, isDelimiter b = false) (hrest : TokenEnds rest) :
    scanTokens l (b :: tail ++ rest) depth nodes =
      (decide (tail.length + 1 - (if b = 45 then 1 else 0) ≤ l.digits) &&
        (l.within depth (nodes + 1) && scanTokens l rest depth (nodes + 1))) := by
  obtain ⟨htake, hdrop⟩ := span_token htail hrest
  have hother : b ≠ 34 ∧ ¬(b = 123 ∨ b = 91) ∧ ¬(b = 125 ∨ b = 93) := by
    simp only [startsScalar, List.mem_cons, List.not_mem_nil, or_false, decide_eq_true_eq] at hb
    rcases hb with rfl | rfl | rfl | rfl | rfl | rfl | rfl | rfl | rfl | rfl | rfl | rfl | rfl | rfl <;>
      decide
  rw [List.cons_append, scanTokens, if_neg hother.1, if_neg hother.2.1, if_neg hother.2.2, if_pos hb,
    TokenLimits.measure, htake, hdrop]

theorem encode_eq_map {cs : List Char} (h : ∀ c ∈ cs, c.toNat < 128) :
    Utf8.encode cs = cs.map fun c => UInt8.ofNat c.toNat := by
  induction cs with
  | nil => rfl
  | cons c cs ih =>
    rw [List.forall_mem_cons] at h
    rw [Utf8.encode_cons, Utf8.encode_ascii h.1, ih h.2]
    rfl

theorem isDigit_iff_toNat {c : Char} : c.isDigit = true ↔ 48 ≤ c.toNat ∧ c.toNat ≤ 57 := by
  simp [Char.isDigit, UInt32.le_iff_toNat_le]

/-- The characters of a numeral are not delimiters, and its digits and minus sign begin tokens. -/
theorem numeral_codes {c : Char} (hc : c.isDigit = true ∨ c = '-' ∨ c = '+' ∨ c = '.' ∨ c = 'e') :
    c.toNat < 128 ∧ isDelimiter (UInt8.ofNat c.toNat) = false := by
  rcases hc with hd | rfl | rfl | rfl | rfl
  · rw [isDigit_iff_toNat] at hd
    refine ⟨by omega, ?_⟩
    have hcases : ∀ n ≤ 57, 48 ≤ n → isDelimiter (UInt8.ofNat n) = false := by decide
    exact hcases _ hd.2 hd.1
  all_goals decide

theorem starts_digit {c : Char} (hd : c.isDigit = true) :
    startsScalar (UInt8.ofNat c.toNat) = true ∧ UInt8.ofNat c.toNat ≠ 45 := by
  rw [isDigit_iff_toNat] at hd
  have hcases : ∀ n ≤ 57, 48 ≤ n →
      startsScalar (UInt8.ofNat n) = true ∧ UInt8.ofNat n ≠ 45 := by decide
  exact hcases _ hd.2 hd.1

/-- **A numeral is one token**, of its own width. -/
theorem scanTokens_numeral {t : Numeral} (ht : t.Wf) {rest : Bytes} (hrest : TokenEnds rest) :
    scanTokens l (Utf8.encode t.text ++ rest) depth nodes =
      (decide (numeralWidth t ≤ l.digits) &&
        (l.within depth (nodes + 1) && scanTokens l rest depth (nodes + 1))) := by
  have hcodes : ∀ c ∈ t.text, c.toNat < 128 ∧ isDelimiter (UInt8.ofNat c.toNat) = false :=
    fun c hc => numeral_codes (Numeral.mem_text ht hc)
  obtain ⟨c, cs, htext, hc⟩ := numeral_head ht
  have hsign : t.neg = true ↔ c = '-' := by
    cases hneg : t.neg with
    | true => simpa [Numeral.text, hneg] using (congrArg List.head? htext).symm
    | false =>
      obtain ⟨d, ds, hd⟩ := List.exists_cons_of_ne_nil ht.int.1
      have hcd : d = c := by
        simp only [Numeral.text, hneg, hd, Bool.false_eq_true, if_false, List.nil_append,
          List.cons_append, List.cons.injEq] at htext
        exact htext.1
      have hdigit := ht.int.2 d (by rw [hd]; exact List.mem_cons_self)
      rw [hcd] at hdigit
      simp only [Bool.false_eq_true, false_iff]
      intro h
      rw [h] at hdigit
      exact absurd hdigit (by decide)
  have hminus : (UInt8.ofNat c.toNat = 45) ↔ t.neg = true := by
    rw [hsign]
    rcases hc with rfl | hd
    · decide
    · exact ⟨fun h => absurd h (starts_digit hd).2, fun h => by rw [h] at hd; exact absurd hd (by decide)⟩
  have hstart : startsScalar (UInt8.ofNat c.toNat) = true := by
    rcases hc with rfl | hd
    · decide
    · exact (starts_digit hd).1
  have hbytes : Utf8.encode t.text =
      UInt8.ofNat c.toNat :: cs.map fun c => UInt8.ofNat c.toNat := by
    rw [encode_eq_map fun c hc => (hcodes c hc).1, htext]
    rfl
  have htail : ∀ b ∈ cs.map fun c => UInt8.ofNat c.toNat, isDelimiter b = false := by
    intro b hb
    obtain ⟨d, hd, rfl⟩ := List.mem_map.mp hb
    exact (hcodes d (by rw [htext]; exact List.mem_cons_of_mem _ hd)).2
  have hwidth : numeralWidth t = cs.length + 1 - if t.neg = true then 1 else 0 := by
    rw [numeralWidth, htext]
    rfl
  rw [hbytes, scanTokens_scalar hstart htail hrest, List.length_map, hwidth]
  simp only [hminus]

/-! ## Documents -/

theorem tokenEnds_dumpsItems (xs : List Json) (rest : Bytes) :
    TokenEnds (Utf8.encode (dumpsItems false xs) ++ rest) := by
  cases xs with
  | nil => intro b hb; cases hb; rfl
  | cons x xs => intro b hb; cases hb; rfl

theorem tokenEnds_dumpsMembers (kvs : List (String × Json)) (rest : Bytes) :
    TokenEnds (Utf8.encode (dumpsMembers false kvs) ++ rest) := by
  cases kvs with
  | nil => intro b hb; cases hb; rfl
  | cons kv kvs => intro b hb; cases hb; rfl

/-- The check, spelled out. -/
theorem TokenLimits.within_iff : l.within depth nodes = true ↔ depth ≤ l.depth ∧ nodes ≤ l.nodes := by
  rw [within, decide_eq_true_iff]

/-- A comma or a colon changes nothing. -/
theorem scanTokens_separator {b : UInt8} (hb : b = 44 ∨ b = 58) (hdepth : depth ≤ l.depth)
    (hnodes : nodes ≤ l.nodes) (rest : Bytes) :
    scanTokens l (b :: rest) depth nodes = scanTokens l rest depth nodes := by
  have hother : b ≠ 34 ∧ ¬(b = 123 ∨ b = 91) ∧ ¬(b = 125 ∨ b = 93) ∧ ¬startsScalar b = true := by
    rcases hb with rfl | rfl <;> decide
  rw [scanTokens, if_neg hother.1, if_neg hother.2.1, if_neg hother.2.2.1, if_neg hother.2.2.2,
    TokenLimits.within_iff.mpr ⟨hdepth, hnodes⟩, Bool.true_and]

theorem scanTokens_open {b : UInt8} (hb : b = 123 ∨ b = 91) (rest : Bytes) :
    scanTokens l (b :: rest) depth nodes =
      (l.within (depth + 1) (nodes + 1) && scanTokens l rest (depth + 1) (nodes + 1)) := by
  have hquote : b ≠ 34 := by rcases hb with rfl | rfl <;> decide
  rw [scanTokens, if_neg hquote, if_pos hb]

theorem scanTokens_close {b : UInt8} (hb : b = 125 ∨ b = 93) (hdepth : depth ≤ l.depth)
    (hnodes : nodes ≤ l.nodes) (rest : Bytes) :
    scanTokens l (b :: rest) depth nodes = scanTokens l rest (depth - 1) nodes := by
  have hother : b ≠ 34 ∧ ¬(b = 123 ∨ b = 91) := by rcases hb with rfl | rfl <;> decide
  rw [scanTokens, if_neg hother.1, if_neg hother.2, if_pos hb,
    TokenLimits.within_iff.mpr ⟨by omega, hnodes⟩, Bool.true_and]

/-- A comma between two parts. -/
theorem scanTokens_comma (first : Bool) (hdepth : depth ≤ l.depth) (hnodes : nodes ≤ l.nodes)
    (rest : Bytes) :
    scanTokens l (Utf8.encode (if first then [] else [',']) ++ rest) depth nodes =
      scanTokens l rest depth nodes := by
  cases first with
  | true => rfl
  | false => exact scanTokens_separator (.inl rfl) hdepth hnodes rest

theorem scanTokens_literal {cs : List Char} {b : UInt8} {tail : Bytes}
    (hcs : Utf8.encode cs = b :: tail) (hb : startsScalar b = true) (hminus : b ≠ 45)
    (htail : tail.any isDelimiter = false) (hdigits : tail.length + 1 ≤ l.digits) {rest : Bytes}
    (hrest : TokenEnds rest) (hdepth : depth ≤ l.depth) :
    scanTokens l (Utf8.encode cs ++ rest) depth nodes = true ↔
      nodes + 1 ≤ l.nodes ∧ scanTokens l rest depth (nodes + 1) = true := by
  have hplain : ∀ b ∈ tail, isDelimiter b = false := by simpa using htail
  rw [hcs, scanTokens_scalar hb hplain hrest, if_neg hminus, Nat.sub_zero]
  simp only [hdigits, decide_true, Bool.true_and, Bool.and_eq_true, TokenLimits.within_iff, hdepth,
    true_and]

mutual

/-- **What the scan makes of a canonical text.** -/
theorem scanTokens_dumps_append (hdigits : 5 ≤ l.digits) : ∀ (v : Json) {depth : ℤ} {nodes : ℕ}
    {rest : Bytes}, depth ≤ l.depth → nodes ≤ l.nodes → TokenEnds rest →
    (scanTokens l (Utf8.encode (dumps v) ++ rest) depth nodes = true ↔
      (depth + height v ≤ l.depth ∧ nodes + tokens v ≤ l.nodes ∧ Narrow l.digits v) ∧
        scanTokens l rest depth (nodes + tokens v) = true)
  | .null, depth, nodes, rest, hdepth, hnodes, hrest => by
    rw [dumps, scanTokens_literal rfl rfl (by decide) (by decide) (le_trans (by decide) hdigits) hrest hdepth]
    simp [height, tokens, Narrow, hdepth]
  | .bool true, depth, nodes, rest, hdepth, hnodes, hrest => by
    rw [dumps, scanTokens_literal rfl rfl (by decide) (by decide) (le_trans (by decide) hdigits) hrest hdepth]
    simp [height, tokens, Narrow, hdepth]
  | .bool false, depth, nodes, rest, hdepth, hnodes, hrest => by
    rw [dumps, scanTokens_literal rfl rfl (by decide) (by decide) (le_trans (by decide) hdigits) hrest hdepth]
    simp [height, tokens, Narrow, hdepth]
  | .int n, depth, nodes, rest, hdepth, hnodes, hrest => by
    rw [dumps, scanTokens_numeral (Numeral.wf_ofInt n) hrest]
    simp only [Bool.and_eq_true, decide_eq_true_eq, TokenLimits.within_iff, height, tokens, Narrow,
      Nat.cast_zero, add_zero, hdepth, true_and]
    tauto
  | .float x, depth, nodes, rest, hdepth, hnodes, hrest => by
    rw [dumps, scanTokens_numeral (Numeral.wf_repr x) hrest]
    simp only [Bool.and_eq_true, decide_eq_true_eq, TokenLimits.within_iff, height, tokens, Narrow,
      Nat.cast_zero, add_zero, hdepth, true_and]
    tauto
  | .str s, depth, nodes, rest, hdepth, hnodes, hrest => by
    rw [dumps, scanTokens_dumpsString]
    simp [TokenLimits.within_iff, height, tokens, Narrow, hdepth]
  | .arr xs, depth, nodes, rest, hdepth, hnodes, hrest => by
    have hopen : Utf8.encode (dumps (.arr xs)) ++ rest =
        91 :: (Utf8.encode (dumpsItems true xs) ++ rest) := rfl
    rw [hopen, scanTokens_open (.inr rfl), Bool.and_eq_true, TokenLimits.within_iff, height, tokens,
      Narrow]
    constructor
    · intro ⟨⟨hd, hn⟩, hscan⟩
      obtain ⟨⟨hd', hn', hw⟩, hscan⟩ := (scanTokens_dumpsItems hdigits xs true hd hn).mp hscan
      rw [add_sub_cancel_right, add_assoc] at hscan
      exact ⟨⟨by push_cast; omega, by omega, hw⟩, hscan⟩
    · intro ⟨⟨hd, hn, hw⟩, hscan⟩
      push_cast at hd
      have hd' : depth + 1 ≤ l.depth := by omega
      have hn' : nodes + 1 ≤ l.nodes := by omega
      refine ⟨⟨hd', hn'⟩, (scanTokens_dumpsItems hdigits xs true hd' hn').mpr ?_⟩
      rw [add_sub_cancel_right, add_assoc nodes]
      exact ⟨⟨by omega, by omega, hw⟩, hscan⟩
  | .obj kvs, depth, nodes, rest, hdepth, hnodes, hrest => by
    have hopen : Utf8.encode (dumps (.obj kvs)) ++ rest =
        123 :: (Utf8.encode (dumpsMembers true kvs) ++ rest) := rfl
    rw [hopen, scanTokens_open (.inl rfl), Bool.and_eq_true, TokenLimits.within_iff, height, tokens,
      Narrow]
    constructor
    · intro ⟨⟨hd, hn⟩, hscan⟩
      obtain ⟨⟨hd', hn', hw⟩, hscan⟩ := (scanTokens_dumpsMembers hdigits kvs true hd hn).mp hscan
      rw [add_sub_cancel_right, add_assoc] at hscan
      exact ⟨⟨by push_cast; omega, by omega, hw⟩, hscan⟩
    · intro ⟨⟨hd, hn, hw⟩, hscan⟩
      push_cast at hd
      have hd' : depth + 1 ≤ l.depth := by omega
      have hn' : nodes + 1 ≤ l.nodes := by omega
      refine ⟨⟨hd', hn'⟩, (scanTokens_dumpsMembers hdigits kvs true hd' hn').mpr ?_⟩
      rw [add_sub_cancel_right, add_assoc nodes]
      exact ⟨⟨by omega, by omega, hw⟩, hscan⟩

theorem scanTokens_dumpsItems (hdigits : 5 ≤ l.digits) : ∀ (xs : List Json) (first : Bool)
    {depth : ℤ} {nodes : ℕ} {rest : Bytes}, depth ≤ l.depth → nodes ≤ l.nodes →
    (scanTokens l (Utf8.encode (dumpsItems first xs) ++ rest) depth nodes = true ↔
      (depth + heightItems xs ≤ l.depth ∧ nodes + tokensItems xs ≤ l.nodes ∧
        NarrowItems l.digits xs) ∧ scanTokens l rest (depth - 1) (nodes + tokensItems xs) = true)
  | [], first, depth, nodes, rest, hdepth, hnodes => by
    have hclose : Utf8.encode (dumpsItems first []) ++ rest = 93 :: rest := rfl
    rw [hclose, scanTokens_close (.inr rfl) hdepth hnodes]
    simp [heightItems, tokensItems, NarrowItems, hdepth, hnodes]
  | x :: xs, first, depth, nodes, rest, hdepth, hnodes => by
    rw [dumpsItems, Utf8.encode_append, List.append_assoc, scanTokens_comma first hdepth hnodes,
      Utf8.encode_append, List.append_assoc,
      scanTokens_dumps_append hdigits x hdepth hnodes (tokenEnds_dumpsItems xs rest), heightItems,
      tokensItems, NarrowItems, ← add_assoc]
    constructor
    · intro ⟨⟨hd, hn, hw⟩, hscan⟩
      obtain ⟨⟨hd', hn', hw'⟩, hscan⟩ := (scanTokens_dumpsItems hdigits xs false hdepth hn).mp hscan
      exact ⟨⟨by push_cast; omega, hn', hw, hw'⟩, hscan⟩
    · intro ⟨⟨hd, hn, hw, hw'⟩, hscan⟩
      push_cast at hd
      have hn' : nodes + tokens x ≤ l.nodes := by omega
      exact ⟨⟨by omega, hn', hw⟩,
        (scanTokens_dumpsItems hdigits xs false hdepth hn').mpr ⟨⟨by omega, hn, hw'⟩, hscan⟩⟩

theorem scanTokens_dumpsMembers (hdigits : 5 ≤ l.digits) : ∀ (kvs : List (String × Json))
    (first : Bool) {depth : ℤ} {nodes : ℕ} {rest : Bytes}, depth ≤ l.depth → nodes ≤ l.nodes →
    (scanTokens l (Utf8.encode (dumpsMembers first kvs) ++ rest) depth nodes = true ↔
      (depth + heightMembers kvs ≤ l.depth ∧ nodes + tokensMembers kvs ≤ l.nodes ∧
        NarrowMembers l.digits kvs) ∧
          scanTokens l rest (depth - 1) (nodes + tokensMembers kvs) = true)
  | [], first, depth, nodes, rest, hdepth, hnodes => by
    have hclose : Utf8.encode (dumpsMembers first []) ++ rest = 125 :: rest := rfl
    rw [hclose, scanTokens_close (.inl rfl) hdepth hnodes]
    simp [heightMembers, tokensMembers, NarrowMembers, hdepth, hnodes]
  | (k, x) :: kvs, first, depth, nodes, rest, hdepth, hnodes => by
    have hcolon : Utf8.encode (':' :: (dumps x ++ dumpsMembers false kvs)) ++ rest =
        58 :: (Utf8.encode (dumps x) ++ (Utf8.encode (dumpsMembers false kvs) ++ rest)) := by
      rw [Utf8.encode_cons, Utf8.encode_append, List.append_assoc, List.append_assoc]
      rfl
    rw [dumpsMembers, Utf8.encode_append, List.append_assoc, scanTokens_comma first hdepth hnodes,
      Utf8.encode_append, List.append_assoc, scanTokens_dumpsString, hcolon, Bool.and_eq_true,
      TokenLimits.within_iff, heightMembers, tokensMembers, NarrowMembers, ← add_assoc, ← add_assoc]
    constructor
    · intro ⟨⟨_, hkey⟩, hscan⟩
      rw [scanTokens_separator (.inr rfl) hdepth hkey,
        scanTokens_dumps_append hdigits x hdepth hkey (tokenEnds_dumpsMembers kvs rest)] at hscan
      obtain ⟨⟨hd, hn, hw⟩, hscan⟩ := hscan
      obtain ⟨⟨hd', hn', hw'⟩, hscan⟩ := (scanTokens_dumpsMembers hdigits kvs false hdepth hn).mp hscan
      exact ⟨⟨by push_cast; omega, hn', hw, hw'⟩, hscan⟩
    · intro ⟨⟨hd, hn, hw, hw'⟩, hscan⟩
      push_cast at hd
      have hkey : nodes + 1 ≤ l.nodes := by omega
      have hn' : nodes + 1 + tokens x ≤ l.nodes := by omega
      rw [scanTokens_separator (.inr rfl) hdepth hkey,
        scanTokens_dumps_append hdigits x hdepth hkey (tokenEnds_dumpsMembers kvs rest)]
      exact ⟨⟨hdepth, hkey⟩, ⟨by omega, hn', hw⟩,
        (scanTokens_dumpsMembers hdigits kvs false hdepth hn').mpr ⟨⟨by omega, hn, hw'⟩, hscan⟩⟩

end

/-- **The scan is exact on canonical texts.** -/
theorem scanTokens_dumps (hdigits : 5 ≤ l.digits) (v : Json) :
    scanTokens l (Utf8.encode (dumps v)) 0 0 = true ↔
      height v ≤ l.depth ∧ tokens v ≤ l.nodes ∧ Narrow l.digits v := by
  have hend : TokenEnds [] := nofun
  have hscan := scanTokens_dumps_append hdigits v (Int.natCast_nonneg l.depth) (Nat.zero_le l.nodes) hend
  rw [List.append_nil] at hscan
  rw [hscan, scanTokens]
  simp

end Json
