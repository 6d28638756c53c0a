import Mathlib.Data.Bool.AllAny
import Mathlib.Data.List.Basic
import Mathlib.Data.String.Basic
import EvidenceBraid.Library.Numeral

/-!
# JSON values, their canonical text, and the strict reader

* `Json` — a decoded document. A dict is its members in key order: decoding sorts them, so two
  dicts are equal when they have the same items, in whatever order these were written.
* `dumps` — the compact text with sorted keys and minimal escapes.
* `loads` — the JSON grammar with whitespace and every escape, number hooks, and duplicate keys
  rejected. A lone surrogate escape is rejected: it is not a Unicode scalar value.

The reader takes a fuel argument that only bounds its recursion; `loads` passes more than any
text can use.
-/

/-- A decoded JSON document. -/
inductive Json where
  | null
  | bool (b : Bool)
  | int (n : ℤ)
  | float (x : Binary64.Finite)
  | str (s : String)
  | arr (xs : List Json)
  | obj (kvs : List (String × Json))

namespace Json

/-! ## Equality -/

mutual

def beq : Json → Json → Bool
  | .null, .null => true
  | .bool a, .bool b => a = b
  | .int a, .int b => a = b
  | .float a, .float b => a = b
  | .str a, .str b => a = b
  | .arr a, .arr b => beqItems a b
  | .obj a, .obj b => beqMembers a b
  | _, _ => false

def beqItems : List Json → List Json → Bool
  | [], [] => true
  | x :: xs, y :: ys => beq x y && beqItems xs ys
  | _, _ => false

def beqMembers : List (String × Json) → List (String × Json) → Bool
  | [], [] => true
  | (k, x) :: xs, (l, y) :: ys => (k = l) && (beq x y && beqMembers xs ys)
  | _, _ => false

end

mutual

theorem beq_iff : ∀ a b : Json, beq a b = true ↔ a = b
  | .null, b => by cases b <;> simp [beq]
  | .bool _, b => by cases b <;> simp [beq]
  | .int _, b => by cases b <;> simp [beq]
  | .float _, b => by cases b <;> simp [beq]
  | .str _, b => by cases b <;> simp [beq]
  | .arr xs, b => by cases b <;> simp [beq, beqItems_iff xs]
  | .obj kvs, b => by cases b <;> simp [beq, beqMembers_iff kvs]

theorem beqItems_iff : ∀ a b : List Json, beqItems a b = true ↔ a = b
  | [], b => by cases b <;> simp [beqItems]
  | x :: xs, b => by cases b <;> simp [beqItems, beq_iff x, beqItems_iff xs]

theorem beqMembers_iff : ∀ a b : List (String × Json), beqMembers a b = true ↔ a = b
  | [], b => by cases b <;> simp [beqMembers]
  | (k, x) :: xs, b => by
    cases b <;> simp [beqMembers, beq_iff x, beqMembers_iff xs, Prod.ext_iff, and_assoc]

end

instance : DecidableEq Json := fun a b => decidable_of_iff _ (beq_iff a b)

/-! ## Dicts -/

/-- The value of a key. -/
def get? (kvs : List (String × Json)) (k : String) : Option Json := kvs.lookup k

@[simp] theorem get?_nil (k : String) : get? [] k = none := rfl

theorem get?_cons (k l : String) (v : Json) (kvs : List (String × Json)) :
    get? ((l, v) :: kvs) k = if k = l then some v else get? kvs k := by
  by_cases h : k = l
  · simp [get?, h]
  · simp [get?, List.lookup_cons, h, beq_eq_false_iff_ne.mpr h]

def keys (kvs : List (String × Json)) : List String := kvs.map Prod.fst

/-- Members in strictly increasing key order. -/
def KeysSorted (kvs : List (String × Json)) : Prop := (keys kvs).Pairwise (· < ·)

instance (kvs : List (String × Json)) : Decidable (KeysSorted kvs) := by
  unfold KeysSorted; infer_instance

/-- Put a member in its place; a key already present keeps its value. -/
def insertKey (kv : String × Json) : List (String × Json) → List (String × Json)
  | [] => [kv]
  | lw :: rest =>
    if kv.1 < lw.1 then kv :: lw :: rest
    else if lw.1 < kv.1 then lw :: insertKey kv rest
    else lw :: rest

/-- The dict built from these items; a later item replaces an earlier one with its key. -/
def dict (kvs : List (String × Json)) : Json := .obj (kvs.foldr insertKey [])

theorem mem_insertKey {kv x : String × Json} {kvs : List (String × Json)}
    (h : x ∈ insertKey kv kvs) : x = kv ∨ x ∈ kvs := by
  induction kvs with
  | nil => simpa [insertKey] using h
  | cons lw rest ih =>
    simp only [insertKey] at h
    split_ifs at h with h1 h2
    · simpa using h
    · rcases List.mem_cons.mp h with rfl | h
      · exact .inr (by simp)
      · exact (ih h).imp_right (List.mem_cons_of_mem lw)
    · exact .inr h

theorem keysSorted_insertKey {kv : String × Json} {kvs : List (String × Json)}
    (h : KeysSorted kvs) : KeysSorted (insertKey kv kvs) := by
  induction kvs with
  | nil => simp [insertKey, KeysSorted, keys]
  | cons lw rest ih =>
    simp only [KeysSorted, keys, List.pairwise_map, List.pairwise_cons] at h ih ⊢
    simp only [insertKey]
    split_ifs with h1 h2
    · simp only [List.pairwise_cons, List.mem_cons]
      refine ⟨?_, h.1, h.2⟩
      rintro x (rfl | hx)
      · exact h1
      · exact h1.trans (h.1 x hx)
    · refine List.pairwise_cons.mpr ⟨?_, ih h.2⟩
      intro x hx
      rcases mem_insertKey hx with rfl | hx
      · exact h2
      · exact h.1 x hx
    · exact List.pairwise_cons.mpr h

theorem keysSorted_foldr_insertKey (kvs : List (String × Json)) :
    KeysSorted (kvs.foldr insertKey []) := by
  induction kvs with
  | nil => exact List.Pairwise.nil
  | cons kv kvs ih => exact keysSorted_insertKey ih

theorem foldr_insertKey_of_sorted {kvs : List (String × Json)} (h : KeysSorted kvs) :
    kvs.foldr insertKey [] = kvs := by
  induction kvs with
  | nil => rfl
  | cons kv rest ih =>
    rw [List.foldr_cons, ih (List.Pairwise.of_cons h)]
    match rest, h with
    | [], _ => rfl
    | lw :: rest, h =>
      have hlt : kv.1 < lw.1 := List.rel_of_pairwise_cons h (by simp)
      rw [insertKey, if_pos hlt]

@[simp] theorem dict_of_sorted {kvs : List (String × Json)} (h : KeysSorted kvs) :
    dict kvs = .obj kvs := by rw [dict, foldr_insertKey_of_sorted h]

theorem get?_insertKey {l : String} {v : Json} {kvs : List (String × Json)} (hl : l ∉ keys kvs)
    (k : String) : get? (insertKey (l, v) kvs) k = if k = l then some v else get? kvs k := by
  induction kvs with
  | nil => rw [insertKey, get?_cons]
  | cons mw rest ih =>
    obtain ⟨m, w⟩ := mw
    simp only [keys, List.map_cons, List.mem_cons, not_or] at hl
    rw [insertKey]
    rcases lt_trichotomy l m with hlt | rfl | hgt
    · rw [if_pos hlt, get?_cons]
    · exact absurd rfl hl.1
    · rw [if_neg hgt.not_gt, if_pos hgt, get?_cons, ih hl.2, get?_cons]
      split_ifs with hm hk
      · exact absurd (hk.symm.trans hm) hl.1
      · rfl
      · rfl
      · rfl

theorem mem_keys_foldr_insertKey {kvs : List (String × Json)} {k : String}
    (h : k ∈ keys (kvs.foldr insertKey [])) : k ∈ keys kvs := by
  induction kvs with
  | nil => simpa using h
  | cons kv kvs ih =>
    obtain ⟨x, hx, rfl⟩ := List.mem_map.mp h
    rcases mem_insertKey hx with rfl | hx
    · simp [keys]
    · exact List.mem_cons_of_mem _ (ih (List.mem_map_of_mem hx))

/-- A dict holds the items it was built from. -/
theorem get?_foldr_insertKey {kvs : List (String × Json)} (h : (keys kvs).Nodup) (k : String) :
    get? (kvs.foldr insertKey []) k = get? kvs k := by
  induction kvs with
  | nil => rfl
  | cons kv kvs ih =>
    obtain ⟨l, v⟩ := kv
    obtain ⟨hl, hnodup⟩ := List.nodup_cons.mp h
    rw [List.foldr_cons, get?_insertKey (fun hmem => hl (mem_keys_foldr_insertKey hmem)), ih hnodup,
      get?_cons]

theorem mem_iff_get? {kvs : List (String × Json)} (h : (keys kvs).Nodup) {k : String} {v : Json} :
    (k, v) ∈ kvs ↔ get? kvs k = some v := by
  induction kvs with
  | nil => simp
  | cons lw kvs ih =>
    obtain ⟨l, w⟩ := lw
    obtain ⟨hl, hnodup⟩ := List.nodup_cons.mp h
    rw [List.mem_cons, ih hnodup, get?_cons, Prod.mk.injEq]
    by_cases hk : k = l
    · subst hk
      have hnone : get? kvs k ≠ some v := by
        rw [Ne, ← ih hnodup]
        exact fun hmem => hl (List.mem_map.mpr ⟨_, hmem, rfl⟩)
      simp [hnone, @eq_comm _ v]
    · simp [hk]

theorem mem_keys_iff {kvs : List (String × Json)} {k : String} :
    k ∈ keys kvs ↔ (get? kvs k).isSome := by
  induction kvs with
  | nil => simp [keys]
  | cons lw kvs ih =>
    rw [get?_cons]
    by_cases hk : k = lw.1
    · simp [keys, hk]
    · rw [if_neg hk, ← ih]
      simp [keys, hk]

/-- An object with sorted keys is the dict of the items it holds. -/
theorem obj_eq_dict {kvs items : List (String × Json)} (hsorted : KeysSorted kvs)
    (hnodup : (keys items).Nodup) (hkeys : ∀ k ∈ keys kvs, k ∈ keys items)
    (h : ∀ kv ∈ items, get? kvs kv.1 = some kv.2) : .obj kvs = dict items := by
  have hsorted' := keysSorted_foldr_insertKey items
  have hk : (keys kvs).Nodup := hsorted.imp fun hlt => hlt.ne
  have hk' : (keys (items.foldr insertKey [])).Nodup := hsorted'.imp fun hlt => hlt.ne
  have hmem : ∀ p, p ∈ kvs ↔ p ∈ items.foldr insertKey [] := by
    rintro ⟨k, v⟩
    rw [mem_iff_get? hk, mem_iff_get? hk', get?_foldr_insertKey hnodup]
    constructor
    · intro hget
      obtain ⟨⟨l, w⟩, hitem, rfl⟩ := List.mem_map.mp (hkeys k (mem_keys_iff.mpr (by rw [hget]; rfl)))
      have hvalue := h (l, w) hitem
      rw [hget] at hvalue
      exact (mem_iff_get? hnodup).mp (Option.some.inj hvalue ▸ hitem)
    · intro hget
      exact h (k, v) ((mem_iff_get? hnodup).mpr hget)
  have hperm : kvs.Perm (items.foldr insertKey []) :=
    (List.perm_ext_iff_of_nodup hk.of_map hk'.of_map).mpr hmem
  have heq : kvs = items.foldr insertKey [] := by
    refine @List.Perm.eq_of_pairwise _ (fun p q => p.1 < q.1) _ _ ?_ (List.pairwise_map.mp hsorted)
      (List.pairwise_map.mp hsorted') hperm
    intro p q _ _ hpq hqp
    exact absurd hpq hqp.not_gt
  rw [dict, heq]

theorem mem_keys_foldr_insertKey_iff {kvs : List (String × Json)} (h : (keys kvs).Nodup)
    {k : String} : k ∈ keys (kvs.foldr insertKey []) ↔ k ∈ keys kvs := by
  rw [mem_keys_iff, mem_keys_iff, get?_foldr_insertKey h]

/-! ## Canonical text -/

def hexChar (n : ℕ) : Char := Nat.digitChar n

/-- `\n`, `\r`, `\t`, `\b`, `\f`, the quote and the backslash have short escapes, other control
characters a `\u00xx` one, and nothing else is escaped. -/
def escape (c : Char) : List Char :=
  if c = '"' then ['\\', '"']
  else if c = '\\' then ['\\', '\\']
  else if c = '\n' then ['\\', 'n']
  else if c = '\r' then ['\\', 'r']
  else if c = '\t' then ['\\', 't']
  else if c = '\x0c' then ['\\', 'f']
  else if c = '\x08' then ['\\', 'b']
  else if c.toNat < 32 then
    ['\\', 'u', '0', '0', hexChar (c.toNat / 16), hexChar (c.toNat % 16)]
  else [c]

/-- The characters with a short escape, and its letter. -/
def shortEscapes : List (Char × Char) :=
  [('"', '"'), ('\\', '\\'), ('\n', 'n'), ('\r', 'r'), ('\t', 't'), ('\x0c', 'f'), ('\x08', 'b')]

/-- What an escape looks like. -/
theorem escape_cases (c : Char) :
    (∃ e, (c, e) ∈ shortEscapes ∧ escape c = ['\\', e]) ∨
    (c.toNat < 32 ∧
      escape c = ['\\', 'u', '0', '0', hexChar (c.toNat / 16), hexChar (c.toNat % 16)]) ∨
    (32 ≤ c.toNat ∧ c ≠ '"' ∧ c ≠ '\\' ∧ escape c = [c]) := by
  by_cases hshort : c ∈ shortEscapes.map Prod.fst
  · have hall : ∀ p ∈ shortEscapes, escape p.1 = ['\\', p.2] := by decide
    obtain ⟨⟨c, e⟩, hmem, rfl⟩ := List.mem_map.mp hshort
    exact .inl ⟨e, hmem, hall _ hmem⟩
  · simp only [shortEscapes, List.map_cons, List.map_nil, List.mem_cons, List.not_mem_nil, or_false,
      not_or] at hshort
    obtain ⟨h1, h2, h3, h4, h5, h6, h7⟩ := hshort
    rw [escape, if_neg h1, if_neg h2, if_neg h3, if_neg h4, if_neg h5, if_neg h6, if_neg h7]
    by_cases hlow : c.toNat < 32
    · exact .inr (.inl ⟨hlow, if_pos hlow⟩)
    · exact .inr (.inr ⟨not_lt.mp hlow, h1, h2, if_neg hlow⟩)

/-- The digits of a control character's escape. -/
theorem hexChar_all {P : Char → Prop} (h : ∀ n < 16, P (hexChar n)) {c : Char} (hlow : c.toNat < 32) :
    P (hexChar (c.toNat / 16)) ∧ P (hexChar (c.toNat % 16)) :=
  ⟨h _ (by omega), h _ (Nat.mod_lt _ (by decide))⟩

def dumpsString (s : String) : List Char := '"' :: s.toList.flatMap escape ++ ['"']

mutual

/-- The canonical compact text. -/
def dumps : Json → List Char
  | .null => ['n', 'u', 'l', 'l']
  | .bool true => ['t', 'r', 'u', 'e']
  | .bool false => ['f', 'a', 'l', 's', 'e']
  | .int n => (Numeral.ofInt n).text
  | .float x => (Numeral.repr x).text
  | .str s => dumpsString s
  | .arr xs => '[' :: dumpsItems true xs
  | .obj kvs => '{' :: dumpsMembers true kvs

/-- The items after `[`, each but the first after a comma, and the closing bracket. -/
def dumpsItems (first : Bool) : List Json → List Char
  | [] => [']']
  | x :: xs => (if first then [] else [',']) ++ (dumps x ++ dumpsItems false xs)

def dumpsMembers (first : Bool) : List (String × Json) → List Char
  | [] => ['}']
  | (k, x) :: kvs =>
    (if first then [] else [',']) ++ (dumpsString k ++ (':' :: (dumps x ++ dumpsMembers false kvs)))

end

/-! ## Reading strings -/

def hexVal (c : Char) : Option ℕ :=
  if '0' ≤ c ∧ c ≤ '9' then some (c.toNat - 48)
  else if 'a' ≤ c ∧ c ≤ 'f' then some (c.toNat - 87)
  else if 'A' ≤ c ∧ c ≤ 'F' then some (c.toNat - 55)
  else none

/-- Four hexadecimal digits. -/
def readHex4 : List Char → Option (ℕ × List Char)
  | a :: b :: c :: d :: s => do
    let a ← hexVal a
    let b ← hexVal b
    let c ← hexVal c
    let d ← hexVal d
    some (((a * 16 + b) * 16 + c) * 16 + d, s)
  | _ => none

/-- After `\u`: one code unit, or a surrogate pair. -/
def readUnicode (s : List Char) : Option (Char × List Char) := do
  let (u, s) ← readHex4 s
  if 0xD800 ≤ u ∧ u < 0xDC00 then
    match s with
    | '\\' :: 'u' :: s => do
      let (v, s) ← readHex4 s
      if 0xDC00 ≤ v ∧ v < 0xE000 then
        some (Char.ofNat (0x10000 + (u - 0xD800) * 0x400 + (v - 0xDC00)), s)
      else none
    | _ => none
  else if 0xDC00 ≤ u ∧ u < 0xE000 then none
  else some (Char.ofNat u, s)

/-- After a backslash. -/
def readEscape : List Char → Option (Char × List Char)
  | [] => none
  | c :: s =>
    if c = '"' then some ('"', s)
    else if c = '\\' then some ('\\', s)
    else if c = '/' then some ('/', s)
    else if c = 'b' then some ('\x08', s)
    else if c = 'f' then some ('\x0c', s)
    else if c = 'n' then some ('\n', s)
    else if c = 'r' then some ('\r', s)
    else if c = 't' then some ('\t', s)
    else if c = 'u' then readUnicode s
    else none

/-- One character of a string, escaped or not. Control characters must be escaped. -/
def readChar : List Char → Option (Char × List Char)
  | [] => none
  | c :: s =>
    if c = '\\' then readEscape s
    else if c.toNat < 32 then none
    else some (c, s)

/-- The characters up to the closing quote. -/
def readChars : ℕ → List Char → Option (List Char × List Char)
  | 0, _ => none
  | _ + 1, [] => none
  | n + 1, c :: s =>
    if c = '"' then some ([], s)
    else do
      let (d, s) ← readChar (c :: s)
      let (ds, s) ← readChars n s
      some (d :: ds, s)

/-! ## Reading documents -/

/-- The hooks of a reader: what it makes of an integer and of a number with a fraction or an
exponent. -/
structure Hooks where
  parseInt : Numeral → Option ℤ
  parseFloat : Numeral → Option Binary64.Finite

def isSpace (c : Char) : Bool := c = ' ' || c = '\t' || c = '\n' || c = '\r'

def skip (s : List Char) : List Char := s.dropWhile isSpace

/-- A literal whose first letter is already read. -/
def literal (tail : List Char) (v : Json) (s : List Char) : Option (Json × List Char) :=
  if tail.isPrefixOf s then some (v, s.drop tail.length) else none

def readNumber (h : Hooks) (s : List Char) : Option (Json × List Char) := do
  let (t, s) ← Numeral.scan s
  if t.isInt then
    let n ← h.parseInt t
    some (.int n, s)
  else
    let x ← h.parseFloat t
    some (.float x, s)

/-- The dict of the decoded pairs, unless a key occurs twice. -/
def rejectDuplicateKeys (kvs : List (String × Json)) : Option Json :=
  if (keys kvs).Nodup then some (dict kvs) else none

mutual

def readValue (h : Hooks) : ℕ → List Char → Option (Json × List Char)
  | 0, _ => none
  | _ + 1, [] => none
  | n + 1, c :: s =>
    if c = '"' then do
      let (cs, s) ← readChars n s
      some (.str (String.ofList cs), s)
    else if c = '[' then
      if (skip s).head? = some ']' then some (.arr [], (skip s).tail)
      else do
        let (xs, s) ← readItems h n (skip s)
        some (.arr xs, s)
    else if c = '{' then
      if (skip s).head? = some '}' then some (.obj [], (skip s).tail)
      else do
        let (kvs, s) ← readMembers h n (skip s)
        let v ← rejectDuplicateKeys kvs
        some (v, s)
    else if c = 'n' then literal ['u', 'l', 'l'] .null s
    else if c = 't' then literal ['r', 'u', 'e'] (.bool true) s
    else if c = 'f' then literal ['a', 'l', 's', 'e'] (.bool false) s
    else readNumber h (c :: s)

/-- One or more items, and the closing bracket. -/
def readItems (h : Hooks) : ℕ → List Char → Option (List Json × List Char)
  | 0, _ => none
  | n + 1, s => do
    let (x, s) ← readValue h n s
    if (skip s).head? = some ']' then some ([x], (skip s).tail)
    else if (skip s).head? = some ',' then do
      let (xs, s) ← readItems h n (skip (skip s).tail)
      some (x :: xs, s)
    else none

/-- One or more members, and the closing brace. -/
def readMembers (h : Hooks) : ℕ → List Char → Option (List (String × Json) × List Char)
  | 0, _ => none
  | n + 1, s =>
    if s.head? = some '"' then do
      let (cs, s) ← readChars n s.tail
      if (skip s).head? = some ':' then do
        let (x, s) ← readValue h n (skip (skip s).tail)
        if (skip s).head? = some '}' then some ([(String.ofList cs, x)], (skip s).tail)
        else if (skip s).head? = some ',' then do
          let (kvs, s) ← readMembers h n (skip (skip s).tail)
          some ((String.ofList cs, x) :: kvs, s)
        else none
      else none
    else none

end

/-- Read a whole text. -/
def loads (h : Hooks) (s : List Char) : Option Json := do
  let (v, rest) ← readValue h (s.length + 1) (skip s)
  if skip rest = [] then some v else none

end Json
