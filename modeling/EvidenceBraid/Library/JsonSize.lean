import EvidenceBraid.Library.Json
import EvidenceBraid.Library.Utf8

/-!
# The size of canonical texts

`size` is the number of UTF-8 bytes of a document's canonical text. A container is at most its
parts with their separators; text without escapes takes one byte a character.
-/

namespace Json

def size (v : Json) : ℕ := (Utf8.encode (dumps v)).length

/-- The size of a quoted text. -/
def quotedSize (s : String) : ℕ := (Utf8.encode (dumpsString s)).length

@[simp] theorem size_str (s : String) : size (.str s) = quotedSize s := rfl

/-- Text that needs no escape and no byte beyond ASCII. -/
def PlainText (s : String) : Prop :=
  ∀ c ∈ s.toList, 32 ≤ c.toNat ∧ c.toNat < 128 ∧ c ≠ '"' ∧ c ≠ '\\'

theorem escape_plain {c : Char} (h : 32 ≤ c.toNat ∧ c.toNat < 128 ∧ c ≠ '"' ∧ c ≠ '\\') :
    escape c = [c] := by
  have hne : ∀ d : Char, d.toNat < 32 → c ≠ d := by
    intro d hd heq
    rw [heq] at h
    omega
  rw [escape, if_neg h.2.2.1, if_neg h.2.2.2, if_neg (hne _ (by decide)),
    if_neg (hne _ (by decide)), if_neg (hne _ (by decide)), if_neg (hne _ (by decide)),
    if_neg (hne _ (by decide)), if_neg (by omega)]

theorem dumpsString_plain {s : String} (h : PlainText s) :
    dumpsString s = '"' :: (s.toList ++ ['"']) := by
  have hbody : s.toList.flatMap escape = s.toList := by
    rw [List.flatMap_congr (g := fun c => [c]) fun c hc => escape_plain (h c hc)]
    simp
  rw [dumpsString, hbody, List.cons_append]

theorem quotedSize_plain {s : String} (h : PlainText s) : quotedSize s = s.toList.length + 2 := by
  have hlen : (Utf8.encode s.toList).length = s.toList.length :=
    Utf8.length_encode_ascii fun c hc => (h c hc).2.1
  have hquote : (Utf8.encode ['"']).length = 1 := by decide
  rw [quotedSize, dumpsString_plain h, ← List.singleton_append, Utf8.encode_append,
    Utf8.encode_append, List.length_append, List.length_append, hlen, hquote]
  omega

/-- A character of plain text, as a test on its number. -/
def plainChar (c : Char) : Bool :=
  Nat.ble 32 c.toNat && Nat.blt c.toNat 128 && !(c.toNat == 34) && !(c.toNat == 92)

theorem plain_of_plainChar {c : Char} (h : plainChar c = true) :
    32 ≤ c.toNat ∧ c.toNat < 128 ∧ c ≠ '"' ∧ c ≠ '\\' := by
  simp only [plainChar, Bool.and_eq_true, Nat.ble_eq, Nat.blt_eq, Bool.not_eq_true',
    beq_eq_false_iff_ne] at h
  obtain ⟨⟨⟨hlow, hhigh⟩, hquote⟩, hbackslash⟩ := h
  refine ⟨hlow, hhigh, ?_, ?_⟩
  · intro hc
    exact hquote (congrArg Char.toNat hc)
  · intro hc
    exact hbackslash (congrArg Char.toNat hc)

theorem plainText_literal {cs : List Char} (h : cs.all plainChar = true) :
    PlainText (String.ofList cs) := by
  intro c hc
  rw [String.toList_ofList] at hc
  exact plain_of_plainChar (List.all_eq_true.mp h c hc)

theorem dumpsString_literal {cs : List Char} (h : cs.all plainChar = true) :
    dumpsString (String.ofList cs) = '"' :: (cs ++ ['"']) := by
  rw [dumpsString_plain (plainText_literal h), String.toList_ofList]

/-- **A literal's size** is found from its characters, without decoding its bytes. -/
theorem quotedSize_literal {cs : List Char} {n : ℕ}
    (h : (cs.all plainChar && cs.length + 2 == n) = true) : quotedSize (String.ofList cs) = n := by
  rw [Bool.and_eq_true, beq_iff_eq] at h
  rw [quotedSize_plain (plainText_literal h.1), String.toList_ofList, h.2]

theorem quotedSize_literal_le {cs : List Char} {n : ℕ}
    (h : (cs.all plainChar && Nat.ble (cs.length + 2) n) = true) :
    quotedSize (String.ofList cs) ≤ n := by
  rw [Bool.and_eq_true, Nat.ble_eq] at h
  rw [quotedSize_plain (plainText_literal h.1), String.toList_ofList]
  exact h.2

/-- An escaped character takes at most six bytes. -/
theorem length_escape_le (c : Char) : (Utf8.encode (escape c)).length ≤ 6 := by
  rcases escape_cases c with ⟨e, hmem, h⟩ | ⟨hlow, h⟩ | ⟨-, -, -, h⟩
  · have hall : ∀ p ∈ shortEscapes, (Utf8.encode ['\\', p.2]).length ≤ 6 := by decide
    exact h ▸ hall _ hmem
  · have hhex : ∀ n < 16, (Utf8.encode [hexChar n]).length = 1 := by decide
    obtain ⟨hhi, hlo⟩ := hexChar_all (P := fun d => (Utf8.encode [d]).length = 1) hhex hlow
    have hstart : (Utf8.encode ['\\', 'u', '0', '0']).length = 4 := by decide
    rw [h, show ['\\', 'u', '0', '0', hexChar (c.toNat / 16), hexChar (c.toNat % 16)] =
      ['\\', 'u', '0', '0'] ++ ([hexChar (c.toNat / 16)] ++ [hexChar (c.toNat % 16)]) from rfl,
      Utf8.encode_append, Utf8.encode_append, List.length_append, List.length_append, hhi, hlo,
      hstart]
  · have hsize := c.utf8Size_le_four
    rw [h]
    simp only [Utf8.encode_cons, Utf8.encode_nil, List.append_nil, String.length_utf8EncodeChar]
    omega

theorem quotedSize_le (s : String) : quotedSize s ≤ 6 * s.toList.length + 2 := by
  have hbody : ∀ cs : List Char, (Utf8.encode (cs.flatMap escape)).length ≤ 6 * cs.length := by
    intro cs
    induction cs with
    | nil => exact Nat.le_refl _
    | cons c cs ih =>
      have hc := length_escape_le c
      rw [List.flatMap_cons, Utf8.encode_append, List.length_append, List.length_cons]
      omega
  have hquote : (Utf8.encode ['"']).length = 1 := by decide
  have hs := hbody s.toList
  rw [quotedSize, dumpsString, ← List.singleton_append, Utf8.encode_append, Utf8.encode_append,
    List.length_append, List.length_append, hquote]
  omega

/-- An escaped character takes at least its own bytes. -/
theorem length_utf8EncodeChar_le_escape (c : Char) :
    (String.utf8EncodeChar c).length ≤ (Utf8.encode (escape c)).length := by
  rcases escape_cases c with ⟨e, hmem, h⟩ | ⟨hlow, h⟩ | ⟨-, -, -, h⟩
  · have hall : ∀ p ∈ shortEscapes,
        (String.utf8EncodeChar p.1).length ≤ (Utf8.encode ['\\', p.2]).length := by decide
    exact h ▸ hall _ hmem
  · rw [Utf8.encode_ascii (show c.toNat < 128 by omega), h]
    simp only [Utf8.encode_cons, List.length_append, String.length_utf8EncodeChar]
    have hpos := Char.utf8Size_pos '\\'
    rw [List.length_singleton]
    omega
  · rw [h]
    simp

theorem length_encode_le_quotedSize (s : String) :
    (Utf8.encode s.toList).length + 2 ≤ quotedSize s := by
  have hbody : ∀ cs : List Char,
      (Utf8.encode cs).length ≤ (Utf8.encode (cs.flatMap escape)).length := by
    intro cs
    induction cs with
    | nil => exact Nat.le_refl _
    | cons c cs ih =>
      have hc := length_utf8EncodeChar_le_escape c
      rw [List.flatMap_cons, Utf8.encode_append, Utf8.encode_cons, List.length_append,
        List.length_append]
      omega
  have hquote : (Utf8.encode ['"']).length = 1 := by decide
  have hs := hbody s.toList
  rw [quotedSize, dumpsString, ← List.singleton_append, Utf8.encode_append, Utf8.encode_append,
    List.length_append, List.length_append, hquote]
  omega

/-- A natural number below `10 ^ k` takes at most `k` bytes. -/
theorem size_nat_le {n k : ℕ} (hk : 0 < k) (h : n < 10 ^ k) : size (.int n) ≤ k := by
  have hwf := Numeral.wf_ofInt n
  have htext : (Numeral.ofInt n).text = Nat.toDigits 10 n := by
    simp [Numeral.ofInt, Numeral.text, Numeral.fracText, Numeral.expText]
  have hascii : ∀ c ∈ Nat.toDigits 10 n, c.toNat < 128 := by
    intro c hc
    have hd : c.isDigit = true := Nat.isDigit_of_mem_toDigits (by omega) (by omega) hc
    have hrange : 48 ≤ c.toNat ∧ c.toNat ≤ 57 := by
      simpa [Char.isDigit, UInt32.le_iff_toNat_le] using hd
    omega
  rw [size, dumps, htext, Utf8.length_encode_ascii hascii]
  exact (Nat.length_toDigits_le_iff (by omega) hk).mpr h

/-- A numeral takes one byte a character. -/
theorem length_encode_text {t : Numeral} (ht : t.Wf) :
    (Utf8.encode t.text).length = t.text.length := by
  refine Utf8.length_encode_ascii ?_
  intro c hc
  rcases Numeral.mem_text ht hc with hd | rfl | rfl | rfl | rfl
  · have hrange : 48 ≤ c.toNat ∧ c.toNat ≤ 57 := by
      simpa [Char.isDigit, UInt32.le_iff_toNat_le] using hd
    omega
  all_goals decide

/-! ## Containers -/

theorem length_dumpsItems (xs : List Json) :
    (Utf8.encode (dumpsItems false xs)).length = (xs.map fun x => size x + 1).sum + 1 := by
  induction xs with
  | nil =>
    rw [dumpsItems]
    decide
  | cons x xs ih =>
    have hsep : (Utf8.encode (if false = true then [] else [','])).length = 1 := by decide
    rw [dumpsItems, Utf8.encode_append, Utf8.encode_append, List.length_append,
      List.length_append, hsep, ih, List.map_cons, List.sum_cons, size]
    omega

theorem length_dumpsMembers (kvs : List (String × Json)) :
    (Utf8.encode (dumpsMembers false kvs)).length =
      (kvs.map fun kv => quotedSize kv.1 + size kv.2 + 2).sum + 1 := by
  induction kvs with
  | nil =>
    rw [dumpsMembers]
    decide
  | cons kv kvs ih =>
    obtain ⟨k, x⟩ := kv
    have hsep : (Utf8.encode (if false = true then [] else [','])).length = 1 := by decide
    have hcolon : (String.utf8EncodeChar ':').length = 1 := by decide
    rw [dumpsMembers, Utf8.encode_append, Utf8.encode_append, Utf8.encode_cons,
      Utf8.encode_append, List.length_append, List.length_append, List.length_append,
      List.length_append, hsep, hcolon, ih, List.map_cons, List.sum_cons]
    change _ = (Utf8.encode (dumpsString k)).length + (Utf8.encode (dumps x)).length + 2 + _ + 1
    omega

theorem size_arr_nil : size (.arr []) = 2 := by
  rw [size, dumps, dumpsItems]
  decide

theorem size_arr_cons (x : Json) (xs : List Json) :
    size (.arr (x :: xs)) = size x + (xs.map fun x => size x + 1).sum + 2 := by
  have hopen : (String.utf8EncodeChar '[').length = 1 := by decide
  rw [size, dumps, dumpsItems, if_pos rfl, List.nil_append, Utf8.encode_cons, Utf8.encode_append,
    List.length_append, List.length_append, hopen, length_dumpsItems, size]
  omega

theorem size_obj_nil : size (.obj []) = 2 := by
  rw [size, dumps, dumpsMembers]
  decide

theorem size_obj_cons (k : String) (x : Json) (kvs : List (String × Json)) :
    size (.obj ((k, x) :: kvs)) = quotedSize k + size x +
      (kvs.map fun kv => quotedSize kv.1 + size kv.2 + 2).sum + 3 := by
  have hopen : (String.utf8EncodeChar '{').length = 1 := by decide
  have hcolon : (String.utf8EncodeChar ':').length = 1 := by decide
  rw [size, dumps, dumpsMembers, if_pos rfl, List.nil_append, Utf8.encode_cons, Utf8.encode_append,
    Utf8.encode_cons, Utf8.encode_append, List.length_append, List.length_append,
    List.length_append, List.length_append, hopen, hcolon, length_dumpsMembers, quotedSize, size]
  omega

theorem size_arr_le (xs : List Json) : size (.arr xs) ≤ (xs.map fun x => size x + 1).sum + 2 := by
  cases xs with
  | nil => rw [size_arr_nil]; simp
  | cons x xs =>
    rw [size_arr_cons, List.map_cons, List.sum_cons]
    omega

theorem size_arr_of_ne {xs : List Json} (h : xs ≠ []) :
    size (.arr xs) = (xs.map fun x => size x + 1).sum + 1 := by
  cases xs with
  | nil => exact absurd rfl h
  | cons x xs =>
    rw [size_arr_cons, List.map_cons, List.sum_cons]
    omega

/-- The size of an array of documents that are all this small. -/
theorem size_arr_le_of {xs : List Json} {n : ℕ} (h : ∀ x ∈ xs, size x ≤ n) :
    size (.arr xs) ≤ xs.length * (n + 1) + 2 := by
  refine (size_arr_le _).trans (Nat.add_le_add_right ?_ 2)
  have hsum := List.sum_le_card_nsmul (xs.map fun x => size x + 1) (n + 1) fun m hm => by
    obtain ⟨x, hx, rfl⟩ := List.mem_map.mp hm
    exact Nat.succ_le_succ (h x hx)
  rw [List.length_map] at hsum
  exact hsum

theorem size_map_le {α : Type} {f : α → Json} {n : ℕ} (h : ∀ a, size (f a) ≤ n) (as : List α) :
    size (.arr (as.map f)) ≤ as.length * (n + 1) + 2 := by
  have hle : size (.arr (as.map f)) ≤ _ := size_arr_le_of fun x hx => by
    obtain ⟨a, -, rfl⟩ := List.mem_map.mp hx
    exact h a
  rwa [List.length_map] at hle

theorem size_obj_le (kvs : List (String × Json)) :
    size (.obj kvs) ≤ (kvs.map fun kv => quotedSize kv.1 + size kv.2 + 2).sum + 2 := by
  cases kvs with
  | nil => rw [size_obj_nil]; simp
  | cons kv kvs =>
    obtain ⟨k, x⟩ := kv
    rw [size_obj_cons, List.map_cons, List.sum_cons]
    change _ ≤ quotedSize k + size x + 2 + _ + 2
    omega

/-- A dict without repeated keys holds its items in another order. -/
theorem foldr_insertKey_perm {kvs : List (String × Json)} (h : (keys kvs).Nodup) :
    (kvs.foldr insertKey []).Perm kvs := by
  have hk : (keys (kvs.foldr insertKey [])).Nodup :=
    (keysSorted_foldr_insertKey kvs).imp fun hlt => hlt.ne
  refine (List.perm_ext_iff_of_nodup hk.of_map h.of_map).mpr ?_
  rintro ⟨k, v⟩
  rw [mem_iff_get? hk, mem_iff_get? h, get?_foldr_insertKey h]

theorem size_dict {kvs : List (String × Json)} (h : (keys kvs).Nodup) (hne : kvs ≠ []) :
    size (dict kvs) = (kvs.map fun kv => quotedSize kv.1 + size kv.2 + 2).sum + 1 := by
  have hperm := foldr_insertKey_perm h
  have hsum := (hperm.map fun kv => quotedSize kv.1 + size kv.2 + 2).sum_eq
  rw [dict, ← hsum]
  cases hitems : kvs.foldr insertKey [] with
  | nil =>
    rw [hitems] at hperm
    exact absurd hperm.symm.eq_nil hne
  | cons kv rest =>
    obtain ⟨k, v⟩ := kv
    simp only [size_obj_cons, List.map_cons, List.sum_cons]
    omega

theorem size_arr_le_append (xs ys : List Json) : size (.arr xs) ≤ size (.arr (xs ++ ys)) := by
  cases xs with
  | nil =>
    cases ys with
    | nil => exact le_rfl
    | cons y ys =>
      rw [List.nil_append, size_arr_nil, size_arr_cons]
      omega
  | cons x xs =>
    rw [List.cons_append, size_arr_cons, size_arr_cons, List.map_append, List.sum_append]
    omega

theorem size_nat_mono {m n : ℕ} (h : m ≤ n) : size (.int m) ≤ size (.int n) := by
  have hdigits : ∀ k : ℕ, size (.int k) = (Nat.toDigits 10 k).length := by
    intro k
    have htext : (Numeral.ofInt k).text = Nat.toDigits 10 k := by
      simp [Numeral.ofInt, Numeral.text, Numeral.fracText, Numeral.expText]
    rw [size, dumps, length_encode_text (Numeral.wf_ofInt k), htext]
  rw [hdigits]
  have hpos : 0 < size (.int n) := by
    rw [hdigits]
    exact Nat.length_toDigits_pos
  refine (Nat.length_toDigits_le_iff (by omega) hpos).mpr (lt_of_le_of_lt h ?_)
  exact (Nat.length_toDigits_le_iff (by omega) hpos).mp (hdigits n).symm.le

end Json
