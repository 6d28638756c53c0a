import EvidenceBraid.ReceiptWire

/-!
# What the canonical reader accepts

**Theorem (`readCanonicalWire_exact`).** The reader accepts the canonical texts of the documents within
its budgets, and nothing else. The tree is the document, every span holds the text of its node, and a
node's height is the length of the longest chain of nodes below it.

**Idea.** A reader that starts where the text of a document stands ends behind it with the tree that
`place` puts there (`value_place`); and whatever a reader accepts is the text of a document
(`value_sound`).
-/

namespace EvidenceBraid

namespace ReceiptWire

open Json (dumps dumpsString dumpsItems dumpsMembers escape size quotedSize tokens tokensItems tokensMembers
  height heightItems heightMembers popped keys KeysSorted)
open ReceiptNumbers (Log10 verifyFloatToken lexeme)

@[simp] theorem requireWire_eq_ok {condition : Prop} [Decidable condition] {message : String} {u : Unit} :
    requireWire condition message = .ok u ↔ condition := by
  unfold requireWire
  split_ifs with h <;> simp [h]

theorem requireWire_of {condition : Prop} [Decidable condition] {message : String} (h : condition) :
    requireWire condition message = .ok () := if_pos h

theorem map_ok {α β : Type} {x : Wire α} {f : α → β} {b : β} :
    x.map f = .ok b ↔ ∃ a, x = .ok a ∧ f a = b := by
  cases x <;> simp [Except.map]

/-! ## Reading a text -/

/-- A text, with so many nodes in it, stands between two cursors. -/
structure Reads (text : List Char) (nodes : ℕ) (c c' : Cursor) : Prop where
  rest : c.rest = Utf8.encode text ++ c'.rest
  offset : c'.offset = c.offset + (Utf8.encode text).length
  nodes : c'.nodes = c.nodes + nodes

namespace Reads

variable {a b : List Char} {k l : ℕ} {c c' c'' : Cursor}

theorem refl (c : Cursor) : Reads [] 0 c c := ⟨rfl, rfl, rfl⟩

theorem append (h : Reads a k c c') (h' : Reads b l c' c'') : Reads (a ++ b) (k + l) c c'' := by
  refine ⟨?_, ?_, ?_⟩
  · rw [h.rest, h'.rest, Utf8.encode_append, List.append_assoc]
  · rw [h'.offset, h.offset, Utf8.encode_append, List.length_append, Nat.add_assoc]
  · rw [h'.nodes, h.nodes, Nat.add_assoc]

/-- A cursor between two parts of a text. -/
theorem split (h : Reads (a ++ b) (k + l) c c'') : ∃ c', Reads a k c c' ∧ Reads b l c' c'' := by
  obtain ⟨hrest, hoffset, hnodes⟩ := h
  rw [Utf8.encode_append, List.append_assoc] at hrest
  rw [Utf8.encode_append, List.length_append, ← Nat.add_assoc] at hoffset
  rw [← Nat.add_assoc] at hnodes
  exact ⟨⟨_, _, _⟩, ⟨hrest, rfl, rfl⟩, ⟨rfl, hoffset, hnodes⟩⟩

theorem unique (h : Reads a k c c') (h' : Reads a k c c'') : c' = c'' := by
  obtain ⟨offset, rest, nodes⟩ := c'
  obtain ⟨offset', rest', nodes'⟩ := c''
  have hrest : rest = rest' := List.append_cancel_left (h.rest.symm.trans h'.rest)
  have hoffset : offset = offset' := h.offset.trans h'.offset.symm
  have hnodes : nodes = nodes' := h.nodes.trans h'.nodes.symm
  rw [hrest, hoffset, hnodes]

theorem advance (h : Reads a 0 c c') : c' = c.advance (Utf8.encode a).length := by
  refine h.unique ⟨?_, rfl, rfl⟩
  rw [Cursor.advance, h.rest, List.drop_left]

/-- One ASCII character. -/
theorem ascii_iff {x : Char} (hascii : x.toNat < 128) :
    Reads [x] 0 c (c.advance 1) ↔ c.rest.head? = some (UInt8.ofNat x.toNat) := by
  have hencode : Utf8.encode [x] = [UInt8.ofNat x.toNat] := by
    rw [Utf8.encode_cons, Utf8.encode_ascii hascii]
    rfl
  constructor
  · intro h
    rw [h.rest, hencode]
    rfl
  · intro h
    refine ⟨?_, by rw [hencode]; rfl, rfl⟩
    rw [hencode]
    cases hrest : c.rest with
    | nil =>
      rw [hrest] at h
      cases h
    | cons byte bytes =>
      rw [hrest, List.head?_cons, Option.some_inj] at h
      rw [h, Cursor.advance, hrest]
      rfl

/-- What a text begins with. -/
theorem head? {x : Char} (hascii : x.toNat < 128) (h : Reads (x :: a) k c c') :
    c.rest.head? = some (UInt8.ofNat x.toNat) := by
  rw [h.rest, Utf8.encode_cons, Utf8.encode_ascii hascii]
  rfl

end Reads

/-! ## Strings -/

theorem scanString_quote (bytes : Bytes) : scanString (34 :: bytes) = .ok 0 := by
  cases bytes <;> rfl

theorem scanString_control {byte : UInt8} (h : byte < 32) (bytes : Bytes) :
    scanString (byte :: bytes) = .error ⟨"unescaped control byte in string"⟩ := by
  have hne : byte ≠ 34 := fun heq => by
    rw [heq] at h
    exact absurd h (by decide)
  cases bytes <;> rw [scanString.eq_def] <;> dsimp only <;> rw [if_neg hne, if_pos h]

theorem scanString_other {byte : UInt8} (h : byte ≠ 34 ∧ ¬byte < 32 ∧ byte ≠ 92) (bytes : Bytes) :
    scanString (byte :: bytes) = (scanString bytes).map (· + 1) := by
  cases bytes <;> rw [scanString.eq_def] <;> dsimp only <;> rw [if_neg h.1, if_neg h.2.1, if_neg h.2.2]

theorem scanString_escape (escaped : UInt8) (bytes : Bytes) : scanString (92 :: escaped :: bytes) =
    if escaped = 34 ∨ escaped = 92 ∨ escaped = 116 ∨ escaped = 110 ∨ escaped = 114 then
      (scanString bytes).map (· + 2)
    else .error ⟨"noncanonical string escape"⟩ := by
  rw [scanString.eq_def]
  rfl

/-- The loop passes over bytes that are neither a quote nor a backslash nor a control character. -/
theorem scanString_plain {bytes rest : Bytes} (h : ∀ b ∈ bytes, b ≠ 34 ∧ ¬b < 32 ∧ b ≠ 92) :
    scanString (bytes ++ rest) = (scanString rest).map (· + bytes.length) := by
  induction bytes with
  | nil => cases h : scanString rest <;> simp [Except.map, h]
  | cons b bytes ih =>
    rw [List.forall_mem_cons] at h
    rw [List.cons_append, scanString_other h.1, ih h.2]
    cases scanString rest with
    | error e => rfl
    | ok n => rw [Except.map, Except.map, Except.map, List.length_cons, Nat.add_assoc]

theorem plain_char {c : Char} (hquote : c ≠ '"') (hslash : c ≠ '\\') (hlow : 32 ≤ c.toNat) :
    ∀ b ∈ String.utf8EncodeChar c, b ≠ 34 ∧ ¬b < 32 ∧ b ≠ 92 := by
  intro b hb
  obtain ⟨hb92, hb34⟩ := Json.plain_encodeChar hquote hslash b hb
  refine ⟨hb34, ?_, hb92⟩
  rw [UInt8.lt_iff_toNat_lt, not_lt]
  by_cases hascii : c.toNat < 128
  · rw [Utf8.encode_ascii hascii, List.mem_singleton] at hb
    rw [hb, UInt8.toNat_ofNat']
    show 32 ≤ _
    omega
  · have hhigh := Utf8.encode_not_ascii (Nat.le_of_not_lt hascii) b hb
    show 32 ≤ _
    omega

/-- Where the loop ends there is a quote. -/
theorem scanString_sound {bytes : Bytes} {n : ℕ} (h : scanString bytes = .ok n) :
    ∃ rest, bytes = bytes.take n ++ 34 :: rest := by
  fun_induction scanString bytes generalizing n with
  | case1 => cases h
  | case2 bytes =>
    rw [← Except.ok.inj h]
    exact ⟨bytes, rfl⟩
  | case3 => cases h
  | case4 => cases h
  | case5 escaped bytes _ _ _ ih =>
    obtain ⟨m, hm, rfl⟩ := map_ok.mp h
    obtain ⟨rest, hrest⟩ := ih hm
    exact ⟨rest, congrArg (fun tail => 92 :: escaped :: tail) hrest⟩
  | case6 => cases h
  | case7 byte bytes _ _ _ ih =>
    obtain ⟨m, hm, rfl⟩ := map_ok.mp h
    obtain ⟨rest, hrest⟩ := ih hm
    exact ⟨rest, congrArg (fun tail => byte :: tail) hrest⟩

/-- The loop, at a character that is not a backslash. -/
theorem scanString_char {c : Char} {rest : Bytes} {n : ℕ} (hslash : c ≠ '\\')
    (h : scanString (String.utf8EncodeChar c ++ rest) = .ok n) :
    n = 0 ∨ (c ≠ '"' ∧ 32 ≤ c.toNat ∧
      ∃ m, scanString rest = .ok m ∧ m + (String.utf8EncodeChar c).length = n) := by
  by_cases hquote : c = '"'
  · left
    rw [hquote, Utf8.encode_ascii (by decide), List.singleton_append] at h
    exact Except.ok.inj (h.symm.trans (scanString_quote rest))
  · right
    by_cases hlow : 32 ≤ c.toNat
    · rw [scanString_plain (plain_char hquote hslash hlow)] at h
      exact ⟨hquote, hlow, map_ok.mp h⟩
    · have hbyte : (UInt8.ofNat c.toNat).toNat = c.toNat := by
        rw [UInt8.toNat_ofNat']
        omega
      have hcontrol : UInt8.ofNat c.toNat < 32 := by
        rw [UInt8.lt_iff_toNat_lt, hbyte]
        show c.toNat < 32
        omega
      rw [Utf8.encode_ascii (by omega), List.singleton_append, scanString_control hcontrol] at h
      cases h

theorem unescape_cons {c : Char} (hc : c ≠ '\\') (text : List Char) :
    unescape (c :: text) = c :: unescape text := by
  cases text with
  | nil => rfl
  | cons d text => rw [unescape, if_neg hc]

/-- A character that is written as it is. -/
theorem escape_self {c : Char} (hquote : c ≠ '"') (hslash : c ≠ '\\') (hlow : 32 ≤ c.toNat) :
    escape c = [c] := by
  rcases Json.escape_cases c with ⟨e, hmem, -⟩ | ⟨hcontrol, -⟩ | ⟨-, -, -, h⟩
  · have hall : ∀ p ∈ Json.shortEscapes, p.1 = '"' ∨ p.1 = '\\' ∨ p.1.toNat < 32 := by decide
    rcases hall _ hmem with h | h | h
    · exact absurd h hquote
    · exact absurd h hslash
    · exact absurd hlow (Nat.not_le.mpr h)
  · exact absurd hlow (Nat.not_le.mpr hcontrol)
  · exact h

/-- **The body of an accepted string** is the escaped text of its value. -/
theorem escape_unescape (text : List Char) (rest : Bytes)
    (h : scanString (Utf8.encode text ++ 34 :: rest) = .ok (Utf8.encode text).length) :
    (unescape text).flatMap escape = text := by
  have hlength : ∀ c : Char, 0 < (String.utf8EncodeChar c).length := fun c => by
    rw [String.length_utf8EncodeChar]
    exact c.utf8Size_pos
  fun_induction unescape text with
  | case1 => rfl
  | case2 c =>
    by_cases hslash : c = '\\'
    · have hencode : Utf8.encode [c] = [92] := by
        rw [hslash]
        decide
      rw [hencode, List.singleton_append, scanString_escape, if_pos (.inl rfl)] at h
      obtain ⟨m, -, hm⟩ := map_ok.mp h
      rw [List.length_singleton] at hm
      omega
    · rw [Utf8.encode_cons, List.append_assoc] at h
      rcases scanString_char hslash h with hzero | ⟨hquote, hlow, -⟩
      · have hpos := hlength c
        rw [List.length_append] at hzero
        omega
      · rw [List.flatMap_cons, escape_self hquote hslash hlow]
        rfl
  | case3 escaped text character hlookup ih =>
    have hall : ∀ p ∈ escapes, escape p.2 = ['\\', p.1] ∧ p.1.toNat < 128 ∧
        (UInt8.ofNat p.1.toNat = 34 ∨ UInt8.ofNat p.1.toNat = 92 ∨ UInt8.ofNat p.1.toNat = 116 ∨
          UInt8.ofNat p.1.toNat = 110 ∨ UInt8.ofNat p.1.toNat = 114) := by decide
    have hmem : (escaped, character) ∈ escapes := by
      obtain ⟨before, after, hescapes, -⟩ := List.lookup_eq_some_iff.mp hlookup
      rw [hescapes]
      simp
    obtain ⟨hescape, hascii, hletter⟩ := hall _ hmem
    have hencode : Utf8.encode ('\\' :: escaped :: text) =
        92 :: UInt8.ofNat escaped.toNat :: Utf8.encode text := by
      rw [Utf8.encode_cons, Utf8.encode_cons, Utf8.encode_ascii (by decide), Utf8.encode_ascii hascii]
      rfl
    rw [hencode, List.cons_append, List.cons_append, scanString_escape, if_pos hletter] at h
    obtain ⟨m, hm, hlen⟩ := map_ok.mp h
    have hsame : m = (Utf8.encode text).length := Nat.add_right_cancel hlen
    rw [hsame] at hm
    rw [List.flatMap_cons, hescape, ih hm]
    rfl
  | case4 escaped text hlookup _ =>
    -- a backslash before anything else is refused
    exfalso
    have hother : ∀ p ∈ escapes, escaped ≠ p.1 := fun p hp heq => by
      have hall : ∀ p ∈ escapes, (escapes.lookup p.1).isSome := by decide
      have hsome := hall p hp
      rw [← heq, hlookup] at hsome
      cases hsome
    have hascii : ∀ p ∈ escapes, p.1.toNat < 128 := by decide
    have hrefused : ∀ {byte : UInt8} {tail : Bytes}, String.utf8EncodeChar escaped = byte :: tail →
        ¬(byte = 34 ∨ byte = 92 ∨ byte = 116 ∨ byte = 110 ∨ byte = 114) := by
      intro byte tail hencode hletter
      have hmem : byte ∈ String.utf8EncodeChar escaped := by rw [hencode]; exact List.mem_cons_self
      have hdiffers : ∀ p ∈ escapes, byte ≠ UInt8.ofNat p.1.toNat := fun p hp =>
        Json.ne_of_mem_encodeChar (hascii p hp) (hother p hp) hmem
      rcases hletter with rfl | rfl | rfl | rfl | rfl
      · exact hdiffers ('"', '"') (by decide) (by decide)
      · exact hdiffers ('\\', '\\') (by decide) (by decide)
      · exact hdiffers ('t', '\t') (by decide) (by decide)
      · exact hdiffers ('n', '\n') (by decide) (by decide)
      · exact hdiffers ('r', '\r') (by decide) (by decide)
    obtain ⟨byte, tail, hencode⟩ := List.exists_cons_of_ne_nil (String.utf8EncodeChar_ne_nil (c := escaped))
    have hbytes : Utf8.encode ('\\' :: escaped :: text) = 92 :: byte :: (tail ++ Utf8.encode text) := by
      rw [Utf8.encode_cons, Utf8.encode_cons, Utf8.encode_ascii (by decide), hencode]
      rfl
    rw [hbytes, List.cons_append, List.cons_append, scanString_escape, if_neg (hrefused hencode)] at h
    cases h
  | case5 c escaped text hslash ih =>
    rw [Utf8.encode_cons, List.append_assoc] at h
    rcases scanString_char hslash h with hzero | ⟨hquote, hlow, m, hm, hlen⟩
    · have hpos := hlength c
      rw [List.length_append] at hzero
      omega
    · rw [List.length_append, Nat.add_comm] at hlen
      rw [Nat.add_left_cancel hlen] at hm
      rw [List.flatMap_cons, escape_self hquote hslash hlow, ih hm]
      rfl

theorem isXmlPoint_eq (c : Char) : isXmlPoint c.toNat = isXmlChar c := by
  have hiff : ∀ d : Char, (decide (c.toNat = d.toNat)) = decide (c = d) := fun d => by
    rw [decide_eq_decide, Char.toNat_inj]
  have htab := hiff '\t'
  have hnewline := hiff '\n'
  have hreturn := hiff '\r'
  unfold isXmlPoint isXmlChar
  rw [← htab, ← hnewline, ← hreturn]
  rfl

/-- **An escaped text** is passed over, and read back. -/
theorem scanString_text {text : List Char} (hxml : ∀ c ∈ text, isXmlChar c = true) (rest : Bytes) :
    scanString (Utf8.encode (text.flatMap escape) ++ 34 :: rest) =
        .ok (Utf8.encode (text.flatMap escape)).length ∧
      unescape (text.flatMap escape) = text := by
  induction text with
  | nil => exact ⟨scanString_quote rest, rfl⟩
  | cons c text ih =>
    rw [List.forall_mem_cons] at hxml
    obtain ⟨hscan, hvalue⟩ := ih hxml.2
    have hstep : ∀ {n m : ℕ}, (Except.ok n : Wire ℕ).map (· + m) = .ok (m + n) := fun {n m} =>
      congrArg Except.ok (Nat.add_comm n m)
    by_cases hshort : ∃ p ∈ escapes, p.2 = c
    · obtain ⟨p, hp, hchar⟩ := hshort
      have hall : ∀ p ∈ escapes, escape p.2 = ['\\', p.1] ∧ escapes.lookup p.1 = some p.2 ∧
          p.1.toNat < 128 ∧
          (UInt8.ofNat p.1.toNat = 34 ∨ UInt8.ofNat p.1.toNat = 92 ∨ UInt8.ofNat p.1.toNat = 116 ∨
            UInt8.ofNat p.1.toNat = 110 ∨ UInt8.ofNat p.1.toNat = 114) := by decide
      obtain ⟨hescape, hlookup, hascii, hletter⟩ := hall p hp
      rw [hchar] at hescape hlookup
      have hencode : Utf8.encode ('\\' :: p.1 :: text.flatMap escape) =
          92 :: UInt8.ofNat p.1.toNat :: Utf8.encode (text.flatMap escape) := by
        rw [Utf8.encode_cons, Utf8.encode_cons, Utf8.encode_ascii (by decide), Utf8.encode_ascii hascii]
        rfl
      have hflat : (c :: text).flatMap escape = '\\' :: p.1 :: text.flatMap escape := by
        rw [List.flatMap_cons, hescape]
        rfl
      rw [hflat, hencode]
      refine ⟨?_, ?_⟩
      · rw [List.cons_append, List.cons_append, scanString_escape, if_pos hletter, hscan]
        rfl
      · rw [unescape, if_pos rfl, hlookup]
        exact congrArg (c :: ·) hvalue
    · -- any other character of XML text is written as it is
      have hplain : c ≠ '"' ∧ c ≠ '\\' ∧ 32 ≤ c.toNat := by
        have hnot : ∀ p ∈ escapes, p.2 ≠ c := fun p hp heq => hshort ⟨p, hp, heq⟩
        refine ⟨fun h => hnot ('"', '"') (by decide) h.symm,
          fun h => hnot ('\\', '\\') (by decide) h.symm, ?_⟩
        by_contra hlow
        have hc := hxml.1
        simp only [isXmlChar, Bool.or_eq_true, decide_eq_true_eq, Bool.and_eq_true] at hc
        rcases hc with ((((h | h) | h) | h) | h) | h
        · exact hnot ('t', '\t') (by decide) h.symm
        · exact hnot ('n', '\n') (by decide) h.symm
        · exact hnot ('r', '\r') (by decide) h.symm
        all_goals omega
      obtain ⟨hquote, hslash, hlow⟩ := hplain
      have hflat : (c :: text).flatMap escape = c :: text.flatMap escape := by
        rw [List.flatMap_cons, escape_self hquote hslash hlow]
        rfl
      rw [hflat, Utf8.encode_cons, List.append_assoc, scanString_plain (plain_char hquote hslash hlow), hscan,
        List.length_append, unescape_cons hslash, hvalue]
      exact ⟨hstep, rfl⟩

theorem xmlText_eq_ok {text : List Char} {s : String} :
    xmlText text = .ok s ↔ s.toList = text ∧ isXmlCharacter s = true := by
  unfold xmlText isXmlCharacter
  simp only [bind_eq_ok, requireWire_eq_ok, exists_unit, Except.ok.injEq, isXmlPoint_eq, List.all_eq_true]
  constructor
  · intro hall
    obtain ⟨hxml, hs⟩ := hall
    rw [← hs, String.toList_ofList]
    exact ⟨rfl, hxml⟩
  · intro hall
    obtain ⟨hs, hxml⟩ := hall
    rw [← hs]
    exact ⟨hxml, String.ofList_toList⟩

theorem encode_dumpsString (s : String) (rest : Bytes) : Utf8.encode (dumpsString s) ++ rest =
    34 :: (Utf8.encode (s.toList.flatMap escape) ++ 34 :: rest) := by
  have hquote : Utf8.encode ['"'] = [34] := by decide
  have hchar : String.utf8EncodeChar '"' = [34] := Utf8.encode_ascii (by decide)
  rw [dumpsString, List.cons_append, Utf8.encode_cons, Utf8.encode_append, hquote, hchar]
  simp

theorem quotedSize_eq (s : String) :
    quotedSize s = (Utf8.encode (s.toList.flatMap escape)).length + 2 := by
  have h := congrArg List.length (encode_dumpsString s [])
  rw [List.append_nil, List.length_cons, List.length_append, List.length_singleton] at h
  exact h

/-- **What `string` accepts** is the quoted text of an XML string. -/
theorem string_sound {c c' : Cursor} {s : String} (h : string c = .ok (s, c'))
    (hquote : c.rest.head? = some 34) : isXmlCharacter s = true ∧ Reads (dumpsString s) 0 c c' := by
  simp only [string, bind_eq_ok] at h
  obtain ⟨n, hscan, h⟩ := h
  obtain ⟨rest, hrest⟩ := scanString_sound hscan
  cases hdecode : Utf8.decode ((c.rest.drop 1).take n) with
  | none =>
    rw [hdecode] at h
    cases h
  | some text =>
    simp only [hdecode, bind_eq_ok, xmlText_eq_ok, Except.ok.injEq, Prod.mk.injEq] at h
    obtain ⟨accepted, ⟨hvalue, hxml⟩, rfl, rfl⟩ := h
    have hencode := Utf8.encode_of_decode hdecode
    rw [← hencode] at hrest
    have hlen : n = (Utf8.encode text).length := by
      have hle : n ≤ (c.rest.drop 1).length := by
        by_contra hgt
        have hall : (c.rest.drop 1).take n = c.rest.drop 1 := List.take_of_length_le (by omega)
        have hlength := congrArg List.length hrest
        rw [hencode, hall, List.length_append, List.length_cons] at hlength
        omega
      rw [hencode, List.length_take, min_eq_left hle]
    rw [hrest, hlen] at hscan
    have htext := escape_unescape text rest hscan
    rw [← hvalue] at htext
    have hbytes : c.rest = 34 :: c.rest.drop 1 := by
      cases hcases : c.rest with
      | nil =>
        rw [hcases] at hquote
        cases hquote
      | cons byte bytes =>
        rw [hcases, List.head?_cons, Option.some_inj] at hquote
        rw [hquote]
        rfl
    refine ⟨hxml, ?_, ?_, rfl⟩
    · have hlast : (c.advance (n + 2)).rest = rest := by
        show c.rest.drop (n + 2) = rest
        rw [hbytes, List.drop_succ_cons, hrest, hlen]
        simp
      rw [encode_dumpsString, htext, hlast, ← hrest]
      exact hbytes
    · show c.offset + (n + 2) = c.offset + quotedSize accepted
      rw [quotedSize_eq, htext, hlen]

/-- **A quoted XML string** is read. -/
theorem string_text {c c' : Cursor} {s : String} (hxml : isXmlCharacter s = true)
    (h : Reads (dumpsString s) 0 c c') : string c = .ok (s, c') := by
  obtain ⟨hscan, hvalue⟩ := scanString_text (List.all_eq_true.mp hxml) c'.rest
  have hbody : c.rest.drop 1 = Utf8.encode (s.toList.flatMap escape) ++ 34 :: c'.rest := by
    rw [h.rest, encode_dumpsString]
    rfl
  have hlast : c.advance ((Utf8.encode (s.toList.flatMap escape)).length + 2) = c' := by
    rw [h.advance, ← quotedSize_eq]
    rfl
  have htext : xmlText s.toList = .ok s := xmlText_eq_ok.mpr ⟨rfl, hxml⟩
  simp only [string, hbody, hscan, ok_bind, List.take_left, Utf8.decode_encode, hvalue, htext, hlast]

theorem precedes_iff (left right : List Char) : precedes left right = true ↔ left < right := by
  fun_induction precedes left right with
  | case1 x left y right hne =>
    rw [decide_eq_true_eq, List.cons_lt_cons_iff]
    exact ⟨.inl, fun h => h.elim id fun h => absurd h.1 hne⟩
  | case2 x left y right heq ih =>
    rw [not_not] at heq
    rw [ih, heq, List.cons_lt_cons_iff]
    exact ⟨fun h => .inr ⟨rfl, h⟩, fun h => h.elim (fun h => absurd h (lt_irrefl _)) And.right⟩
  | case3 y right => exact ⟨fun _ => List.nil_lt_cons _ _, fun _ => rfl⟩
  | case4 left => exact ⟨nofun, fun h => absurd h (List.not_lt_nil _)⟩

/-! ## Numbers -/

/-- A number token ends here. -/
def Ends (rest : Bytes) : Prop := ∀ b ∈ rest.head?, b = 44 ∨ b = 93 ∨ b = 125

theorem scanNumber_sound {bytes : Bytes} {k m : ℕ} (h : scanNumber k bytes = .ok m) :
    ∃ token rest, bytes = token ++ rest ∧ m = k + token.length ∧ ∀ b ∈ token, b.toNat < 128 := by
  fun_induction scanNumber k bytes with
  | case1 k => exact ⟨[], [], rfl, (Except.ok.inj h).symm, by simp⟩
  | case2 k byte bytes _ => exact ⟨[], byte :: bytes, rfl, (Except.ok.inj h).symm, by simp⟩
  | case3 k byte bytes _ hbyte ih =>
    obtain ⟨token, rest, hbytes, hm, hall⟩ := ih h
    refine ⟨byte :: token, rest, by rw [hbytes]; rfl, by rw [hm, List.length_cons]; omega, ?_⟩
    rw [List.forall_mem_cons]
    exact ⟨UInt8.lt_iff_toNat_lt.mp hbyte.2, hall⟩
  | case4 => cases h

theorem scanNumber_token {token rest : Bytes} (htoken : ∀ b ∈ token, ¬(b = 44 ∨ b = 93 ∨ b = 125) ∧ b < 128)
    (hrest : Ends rest) {k : ℕ} (hlen : k + token.length ≤ 641) :
    scanNumber k (token ++ rest) = .ok (k + token.length) := by
  induction token generalizing k with
  | nil =>
    cases rest with
    | nil => rfl
    | cons b rest => rw [List.nil_append, scanNumber, if_pos (hrest b rfl), List.length_nil, Nat.add_zero]
  | cons b token ih =>
    rw [List.forall_mem_cons] at htoken
    rw [List.length_cons] at hlen
    rw [List.cons_append, scanNumber, if_neg htoken.1.1, if_pos ⟨by omega, htoken.1.2⟩,
      ih htoken.2 (by omega), List.length_cons]
    congr 1
    omega

theorem toNat_ascii {b : UInt8} (h : b.toNat < 128) : (Char.ofNat b.toNat).toNat = b.toNat := by
  have hvalid : b.toNat.isValidChar := .inl (by omega)
  rw [Char.ofNat, dif_pos hvalid]
  rfl

theorem encode_ascii {bytes : Bytes} (h : ∀ b ∈ bytes, b.toNat < 128) : Utf8.encode (ascii bytes) = bytes := by
  induction bytes with
  | nil => rfl
  | cons b bytes ih =>
    rw [List.forall_mem_cons] at h
    have hchar := toNat_ascii h.1
    rw [ascii, List.map_cons, Utf8.encode_cons, Utf8.encode_ascii (by omega), hchar, UInt8.ofNat_toNat]
    exact congrArg (b :: ·) (ih h.2)

theorem ascii_encode {text : List Char} (h : ∀ c ∈ text, c.toNat < 128) : ascii (Utf8.encode text) = text := by
  apply Utf8.encode_injective
  apply encode_ascii
  intro b hb
  rw [Json.encode_eq_map h] at hb
  obtain ⟨c, hc, rfl⟩ := List.mem_map.mp hb
  have hlow := h c hc
  rw [UInt8.toNat_ofNat']
  omega

theorem lexeme_eq_some {token : List Char} {t : Numeral} :
    lexeme token = some t ↔ Numeral.scan token = some (t, []) := by
  unfold lexeme
  split
  · next t' hscan => rw [hscan, Option.some_inj, Option.some_inj, Prod.mk.injEq, and_iff_left rfl]
  · next hnot => exact ⟨nofun, fun h => absurd h (hnot t)⟩

theorem text_ofInt (n : ℤ) : (Numeral.ofInt n).text =
    (if n < 0 then ['-'] else []) ++ Nat.toDigits 10 n.natAbs := by
  by_cases hneg : n < 0 <;> simp [Numeral.text, Numeral.ofInt, Numeral.fracText, Numeral.expText, hneg]

/-- The digits that the reader counts. -/
theorem digits_ofInt (n : ℤ) : (Numeral.ofInt n).text.length -
    (if (Numeral.ofInt n).text.head? = some '-' then 1 else 0) = (Nat.toDigits 10 n.natAbs).length := by
  rw [text_ofInt]
  by_cases hneg : n < 0
  · rw [if_pos hneg]
    rfl
  · have hhead : ([] ++ Nat.toDigits 10 n.natAbs).head? ≠ some '-' := by
      have h := @Numeral.head?_digit_ne _ [] (Numeral.isDigits_toDigits n.natAbs)
      rwa [List.append_nil] at h
    rw [if_neg hneg, if_neg hhead]
    rfl

theorem ofInt_ne_negZero (n : ℤ) : (Numeral.ofInt n).text ≠ ['-', '0'] := by
  rw [text_ofInt]
  by_cases hneg : n < 0
  · rw [if_pos hneg]
    intro heq
    have hdigits : Nat.toDigits 10 n.natAbs = ['0'] := (List.cons.inj heq).2
    have hzero := Numeral.natOfDigits_toDigits n.natAbs
    rw [hdigits] at hzero
    have habs : n.natAbs = 0 := hzero.symm
    omega
  · rw [if_neg hneg]
    intro heq
    have hhead := @Numeral.head?_digit_ne _ [] (Numeral.isDigits_toDigits n.natAbs)
    rw [List.append_nil] at hhead
    rw [List.nil_append] at heq
    rw [heq] at hhead
    exact hhead rfl

/-- A numeral's token is read as a whole. -/
theorem number_token {t : Numeral} (ht : t.Wf) (hlen : t.text.length ≤ 641) {c c' : Cursor}
    (h : Reads t.text 0 c c') (hends : Ends c'.rest) :
    scanNumber 0 c.rest = .ok t.text.length ∧ ascii (c.rest.take t.text.length) = t.text ∧
      lexeme t.text = some t ∧ c.advance t.text.length = c' := by
  have hcodes : ∀ d ∈ t.text, d.toNat < 128 ∧ Json.isDelimiter (UInt8.ofNat d.toNat) = false :=
    fun d hd => Json.numeral_codes (Numeral.mem_text ht hd)
  have hascii : ∀ d ∈ t.text, d.toNat < 128 := fun d hd => (hcodes d hd).1
  have hlength := Utf8.length_encode_ascii hascii
  have htoken : ∀ b ∈ Utf8.encode t.text, ¬(b = 44 ∨ b = 93 ∨ b = 125) ∧ b < 128 := by
    intro b hb
    rw [Json.encode_eq_map hascii] at hb
    obtain ⟨d, hd, rfl⟩ := List.mem_map.mp hb
    obtain ⟨hlow, hdelimiter⟩ := hcodes d hd
    refine ⟨?_, ?_⟩
    · intro hend
      rcases hend with hend | hend | hend <;> rw [hend] at hdelimiter <;> exact absurd hdelimiter (by decide)
    · rw [UInt8.lt_iff_toNat_lt, UInt8.toNat_ofNat']
      show _ < 128
      omega
  have hscan := scanNumber_token htoken hends (k := 0) (by omega)
  have hadvance := h.advance
  rw [hlength] at hscan hadvance
  refine ⟨by rw [h.rest, hscan, Nat.zero_add], ?_, ?_, hadvance.symm⟩
  · rw [h.rest, ← hlength, List.take_left, ascii_encode hascii]
  · rw [lexeme_eq_some]
    have hwhole := @Numeral.scan_text _ ht [] trivial
    rwa [List.append_nil] at hwhole

/-! ## The tree of a document -/

mutual

/-- The nodes of a document whose text stands at an offset. -/
def place : ℕ → Json → Node
  | offset, .null => .null ⟨offset, offset + size .null, 0⟩
  | offset, .bool b => .boolean b ⟨offset, offset + size (.bool b), 0⟩
  | offset, .int n => .integer n (Numeral.ofInt n).text ⟨offset, offset + size (.int n), 0⟩
  | offset, .float x => .float x (Numeral.repr x).text ⟨offset, offset + size (.float x), 0⟩
  | offset, .str s => .string s ⟨offset, offset + size (.str s), 0⟩
  | offset, .arr xs => .array (placeItems (offset + 1) xs)
      ⟨offset, offset + size (.arr xs), heightOf (placeItems (offset + 1) xs)⟩
  | offset, .obj kvs => .object (placeMembers (offset + 1) kvs)
      ⟨offset, offset + size (.obj kvs), heightOf ((placeMembers (offset + 1) kvs).map Prod.snd)⟩

def placeItems : ℕ → List Json → List Node
  | _, [] => []
  | offset, x :: xs => place offset x :: placeItems (offset + size x + 1) xs

def placeMembers : ℕ → List (String × Json) → List (String × Node)
  | _, [] => []
  | offset, (k, x) :: kvs =>
    (k, place (offset + quotedSize k + 1) x) :: placeMembers (offset + quotedSize k + 1 + size x + 1) kvs

end

/-- What the reader asks of a node's own value. -/
def Own : Json → Prop
  | .int n => (Nat.toDigits 10 n.natAbs).length ≤ 640
  | .str s => isXmlCharacter s = true
  | .obj kvs => KeysSorted kvs ∧ ∀ k ∈ keys kvs, isXmlCharacter k = true
  | .null | .bool _ | .float _ | .arr _ => True

/-- **A document within the budgets**: its integers have at most 640 digits, its strings are XML text, the
keys of its objects increase, containers are nested 72 deep at most, and it has at most a million values
and keys. -/
structure Admitted (v : Json) : Prop where
  own : ∀ item ∈ popped v, Own item
  depth : height v ≤ 72
  nodes : tokens v ≤ 1000000

/-! ## Soundness -/

/-- What has been read as a value: a document within the bounds, and the tree that `place` puts there. -/
structure Read (v : Json) (depth : ℕ) (c c' : Cursor) (n : Node) : Prop where
  own : ∀ item ∈ popped v, Own item
  depth : depth + height v ≤ 72
  reads : Reads (dumps v) (tokens v) c c'
  nodes : c'.nodes ≤ 1000000
  node : n = place c.offset v

structure ReadItems (xs : List Json) (depth : ℕ) (c c' : Cursor) (ns : List Node) : Prop where
  ne_nil : xs ≠ []
  own : ∀ x ∈ xs, ∀ item ∈ popped x, Own item
  depth : depth + 1 + heightItems xs ≤ 72
  reads : Reads (dumpsItems true xs) (tokensItems xs) c (c'.advance 1)
  nodes : c'.nodes ≤ 1000000
  node : ns = placeItems c.offset xs

structure ReadMembers (kvs : List (String × Json)) (depth : ℕ) (previous : Option String) (c c' : Cursor)
    (ns : List (String × Node)) : Prop where
  ne_nil : kvs ≠ []
  own : ∀ kv ∈ kvs, isXmlCharacter kv.1 = true ∧ ∀ item ∈ popped kv.2, Own item
  sorted : KeysSorted kvs
  previous : ∀ before ∈ previous, ∀ k ∈ keys kvs, before < k
  depth : depth + 1 + heightMembers kvs ≤ 72
  reads : Reads (dumpsMembers true kvs) (tokensMembers kvs) c (c'.advance 1)
  nodes : c'.nodes ≤ 1000000
  node : ns = placeMembers c.offset kvs

theorem count_eq_ok {depth : ℕ} {c c' : Cursor} :
    count depth c = .ok c' ↔ depth ≤ 72 ∧ c.nodes + 1 ≤ 1000000 ∧ c' = { c with nodes := c.nodes + 1 } := by
  simp only [count, bind_eq_ok, requireWire_eq_ok, exists_unit, Except.ok.injEq]
  exact and_congr_right fun _ => and_congr_right fun _ => eq_comm

/-- A node that has been counted. -/
theorem Reads.count {text : List Char} {k : ℕ} {c c' : Cursor} :
    Reads text k { c with nodes := c.nodes + 1 } c' ↔ Reads text (1 + k) c c' := by
  constructor
  · intro hall
    obtain ⟨hrest, hoffset, hnodes⟩ := hall
    exact ⟨hrest, hoffset, by rw [hnodes, Nat.add_assoc]⟩
  · intro hall
    obtain ⟨hrest, hoffset, hnodes⟩ := hall
    exact ⟨hrest, hoffset, by rw [hnodes, Nat.add_assoc]⟩

theorem literal_sound {text : List Char} {bytes : Bytes} {node : Extent → Node} {c c' : Cursor} {n : Node}
    (hbytes : Utf8.encode text = bytes) (h : literal bytes node c = .ok (n, c')) :
    Reads text 0 c c' ∧ n = node ⟨c.offset, c.offset + (Utf8.encode text).length, 0⟩ := by
  simp only [literal, bind_eq_ok, requireWire_eq_ok, exists_unit, Except.ok.injEq, Prod.mk.injEq] at h
  obtain ⟨htake, rfl, rfl⟩ := h
  rw [← hbytes] at htake ⊢
  refine ⟨⟨?_, rfl, rfl⟩, rfl⟩
  show c.rest = _ ++ c.rest.drop _
  nth_rewrite 1 [← List.take_append_drop (Utf8.encode text).length c.rest]
  rw [htake]

/-- **A number that is accepted** is the spelling of an integer or of a finite double. -/
theorem number_sound {log : Log10} {c c' : Cursor} {n : Node} (h : number log c = .ok (n, c')) :
    (∃ i : ℤ, Own (.int i) ∧ Reads (dumps (.int i)) 0 c c' ∧ n = place c.offset (.int i)) ∨
    (∃ x, Reads (dumps (.float x)) 0 c c' ∧ n = place c.offset (.float x)) := by
  simp only [number, bind_eq_ok] at h
  obtain ⟨length, hscan, h⟩ := h
  obtain ⟨token, rest, hrest, hlength, hall⟩ := scanNumber_sound hscan
  rw [Nat.zero_add] at hlength
  have htake : c.rest.take length = token := by rw [hrest, hlength, List.take_left]
  have hreads : Reads (ascii token) 0 c (c.advance length) := by
    refine ⟨?_, ?_, rfl⟩
    · show c.rest = _ ++ c.rest.drop length
      rw [encode_ascii hall, ← htake, List.take_append_drop]
    · show c.offset + length = _
      rw [encode_ascii hall, hlength]
  rw [htake] at h
  split at h
  · next t hlexeme =>
    by_cases hint : t.isInt = true
    · left
      rw [if_pos hint] at h
      simp only [bind_eq_ok, requireWire_eq_ok, exists_unit, Except.ok.injEq, Prod.mk.injEq] at h
      obtain ⟨⟨hzero, hdigits⟩, rfl, rfl⟩ := h
      have htext := Numeral.text_of_scan (lexeme_eq_some.mp hlexeme) hint hzero
      have hsize : size (.int t.toInt) = length := by
        rw [size, dumps, ← htext, encode_ascii hall, hlength]
      rw [htext, digits_ofInt] at hdigits
      refine ⟨t.toInt, hdigits, ?_, ?_⟩
      · rw [dumps, ← htext]
        exact hreads
      · rw [place, hsize, htext]
    · right
      rw [if_neg hint] at h
      split at h
      · next x hverify =>
        obtain ⟨rfl, rfl⟩ := Prod.mk.inj (Except.ok.inj h)
        have htext := ReceiptNumbers.verifyFloatToken_eq_ok.mp hverify
        have hsize : size (.float x) = length := by
          rw [size, dumps, ← htext, encode_ascii hall, hlength]
        refine ⟨x, ?_, ?_⟩
        · rw [dumps, ← htext]
          exact hreads
        · rw [place, hsize, htext]
      · cases h
  · cases h

theorem dumpsItems_cons (x y : Json) (xs : List Json) :
    dumpsItems true (x :: y :: xs) = dumps x ++ ([','] ++ dumpsItems true (y :: xs)) := rfl

theorem dumpsMembers_cons (k : String) (x : Json) (kv : String × Json) (kvs : List (String × Json)) :
    dumpsMembers true ((k, x) :: kv :: kvs) =
      dumpsString k ++ ([':'] ++ (dumps x ++ ([','] ++ dumpsMembers true (kv :: kvs)))) := rfl

variable (log : Log10)

/-- Within this bound of the recursion, what the reader accepts is the text of a document. -/
def ValuesRead (fuel : ℕ) : Prop :=
  ∀ depth c c' n, value log fuel depth c = .ok (n, c') → ∃ v, Read v depth c c' n

def ItemsRead (fuel : ℕ) : Prop :=
  ∀ depth c c' ns, elements log fuel depth c = .ok (ns, c') →
    c'.rest.head? = some 93 ∧ ∃ xs, ReadItems xs depth c c' ns

def MembersRead (fuel : ℕ) : Prop :=
  ∀ depth previous c c' ns, members log fuel depth previous c = .ok (ns, c') →
    c'.rest.head? = some 125 ∧ ∃ kvs, ReadMembers kvs depth previous c c' ns

variable {log}

theorem valuesRead_succ {fuel : ℕ} (helements : ItemsRead log fuel) (hmembers : MembersRead log fuel) :
    ValuesRead log (fuel + 1) := by
  intro depth c c' n h
  simp only [value, bind_eq_ok] at h
  obtain ⟨c₁, hcount, h⟩ := h
  obtain ⟨hdepth, hnodes, rfl⟩ := count_eq_ok.mp hcount
  -- a value without children
  have hleaf : ∀ v, popped v = [v] → Own v → height v = 0 → tokens v = 1 →
      Reads (dumps v) 0 { c with nodes := c.nodes + 1 } c' → n = place c.offset v →
      ∃ v, Read v depth c c' n := by
    intro v hpopped hown hheight htokens hreads hnode
    refine ⟨v, ?_, by omega, ?_, ?_, hnode⟩
    · rw [hpopped, List.forall_mem_singleton]
      exact hown
    · rw [htokens]
      exact Reads.count.mp hreads
    · rw [hreads.nodes]
      exact hnodes
  by_cases hstring : c.rest.head? = some 34
  · rw [if_pos hstring] at h
    simp only [bind_eq_ok, Except.ok.injEq, Prod.mk.injEq] at h
    obtain ⟨⟨s, last⟩, hread, rfl, rfl⟩ := h
    obtain ⟨hxml, hreads⟩ := string_sound hread hstring
    refine hleaf (.str s) rfl hxml rfl rfl hreads ?_
    rw [hreads.offset]
    rfl
  rw [if_neg hstring] at h
  by_cases hobject : c.rest.head? = some 123
  · rw [if_pos hobject] at h
    simp only [bind_eq_ok, requireWire_eq_ok, exists_unit, Except.ok.injEq, Prod.mk.injEq] at h
    obtain ⟨hroom, ⟨result, last⟩, hinner, rfl, rfl⟩ := h
    have hopen : Reads ['{'] 0 { c with nodes := c.nodes + 1 } _ := (Reads.ascii_iff (by decide)).mpr hobject
    split_ifs at hinner with hclose
    · obtain ⟨rfl, rfl⟩ := Prod.mk.inj (Except.ok.inj hinner)
      have hreads := hopen.append ((Reads.ascii_iff (x := '}') (by decide)).mpr hclose)
      refine ⟨.obj [], ?_, ?_, Reads.count.mp hreads, hnodes, ?_⟩
      · rw [popped, List.forall_mem_cons]
        exact ⟨⟨List.Pairwise.nil, by intros; contradiction⟩, by intros; contradiction⟩
      · rw [height, heightMembers]
        omega
      · rw [place, Json.size_obj_nil]
        rfl
    · obtain ⟨hend, kvs, hread⟩ := hmembers _ _ _ _ _ hinner
      have hreads := hopen.append hread.reads
      rw [Nat.zero_add] at hreads
      refine ⟨.obj kvs, ?_, ?_, Reads.count.mp hreads, hread.nodes, ?_⟩
      · rw [Json.forall_popped_obj]
        refine ⟨⟨hread.sorted, ?_⟩, fun kv hkv => (hread.own kv hkv).2⟩
        intro k hk
        obtain ⟨kv, hkv, rfl⟩ := List.mem_map.mp hk
        exact (hread.own kv hkv).1
      · have := hread.depth
        rw [height]
        omega
      · have hoffset : last.offset + 1 = c.offset + size (.obj kvs) := hreads.offset
        rw [place, ← hoffset, hread.node]
        rfl
  rw [if_neg hobject] at h
  by_cases harray : c.rest.head? = some 91
  · rw [if_pos harray] at h
    simp only [bind_eq_ok, requireWire_eq_ok, exists_unit, Except.ok.injEq, Prod.mk.injEq] at h
    obtain ⟨hroom, ⟨result, last⟩, hinner, rfl, rfl⟩ := h
    have hopen : Reads ['['] 0 { c with nodes := c.nodes + 1 } _ := (Reads.ascii_iff (by decide)).mpr harray
    split_ifs at hinner with hclose
    · obtain ⟨rfl, rfl⟩ := Prod.mk.inj (Except.ok.inj hinner)
      have hreads := hopen.append ((Reads.ascii_iff (x := ']') (by decide)).mpr hclose)
      refine ⟨.arr [], ?_, ?_, Reads.count.mp hreads, hnodes, ?_⟩
      · rw [popped, List.forall_mem_cons]
        exact ⟨trivial, by intros; contradiction⟩
      · rw [height, heightItems]
        omega
      · rw [place, Json.size_arr_nil]
        rfl
    · obtain ⟨hend, xs, hread⟩ := helements _ _ _ _ hinner
      have hreads := hopen.append hread.reads
      rw [Nat.zero_add] at hreads
      refine ⟨.arr xs, ?_, ?_, Reads.count.mp hreads, hread.nodes, ?_⟩
      · rw [Json.forall_popped_arr]
        exact ⟨trivial, hread.own⟩
      · have := hread.depth
        rw [height]
        omega
      · have hoffset : last.offset + 1 = c.offset + size (.arr xs) := hreads.offset
        rw [place, ← hoffset, hread.node]
        rfl
  rw [if_neg harray] at h
  by_cases htrue : c.rest.head? = some 116
  · rw [if_pos htrue] at h
    obtain ⟨hreads, hnode⟩ := @literal_sound ['t', 'r', 'u', 'e'] _ _ _ _ _ (by decide) h
    exact hleaf (.bool true) rfl trivial rfl rfl hreads hnode
  rw [if_neg htrue] at h
  by_cases hfalse : c.rest.head? = some 102
  · rw [if_pos hfalse] at h
    obtain ⟨hreads, hnode⟩ := @literal_sound ['f', 'a', 'l', 's', 'e'] _ _ _ _ _ (by decide) h
    exact hleaf (.bool false) rfl trivial rfl rfl hreads hnode
  rw [if_neg hfalse] at h
  by_cases hnull : c.rest.head? = some 110
  · rw [if_pos hnull] at h
    obtain ⟨hreads, hnode⟩ := @literal_sound ['n', 'u', 'l', 'l'] _ _ _ _ _ (by decide) h
    exact hleaf .null rfl trivial rfl rfl hreads hnode
  rw [if_neg hnull] at h
  simp only [bind_eq_ok, requireWire_eq_ok, exists_unit] at h
  rcases number_sound h.2 with ⟨i, hown, hreads, hnode⟩ | ⟨x, hreads, hnode⟩
  · exact hleaf (.int i) rfl hown rfl rfl hreads hnode
  · exact hleaf (.float x) rfl trivial rfl rfl hreads hnode

theorem itemsRead_succ {fuel : ℕ} (hvalue : ValuesRead log fuel) (helements : ItemsRead log fuel) :
    ItemsRead log (fuel + 1) := by
  intro depth c c' ns h
  simp only [elements, bind_eq_ok] at h
  obtain ⟨⟨child, c₁⟩, hchild, h⟩ := h
  obtain ⟨x, hread⟩ := hvalue _ _ _ _ hchild
  have hdepth := hread.depth
  dsimp only at h
  split_ifs at h with hclose
  · obtain ⟨rfl, rfl⟩ := Prod.mk.inj (Except.ok.inj h)
    refine ⟨hclose, [x], List.cons_ne_nil _ _, ?_, ?_, ?_, hread.nodes, ?_⟩
    · rw [List.forall_mem_singleton]
      exact hread.own
    · rw [heightItems, heightItems]
      omega
    · exact hread.reads.append ((Reads.ascii_iff (x := ']') (by decide)).mpr hclose)
    · rw [hread.node]
      rfl
  · simp only [bind_eq_ok, requireWire_eq_ok, exists_unit, Except.ok.injEq, Prod.mk.injEq] at h
    obtain ⟨hcomma, ⟨more, last⟩, hmore, rfl, rfl⟩ := h
    obtain ⟨hend, xs, hreadMore⟩ := helements _ _ _ _ hmore
    have hdepthMore := hreadMore.depth
    refine ⟨hend, x :: xs, List.cons_ne_nil _ _, ?_, ?_, ?_, hreadMore.nodes, ?_⟩
    · rw [List.forall_mem_cons]
      exact ⟨hread.own, hreadMore.own⟩
    · rw [heightItems]
      omega
    · obtain ⟨y, ys, rfl⟩ := List.exists_cons_of_ne_nil hreadMore.ne_nil
      have hseparator := ((Reads.ascii_iff (x := ',') (by decide)).mpr hcomma).append hreadMore.reads
      rw [Nat.zero_add] at hseparator
      rw [dumpsItems_cons]
      exact hread.reads.append hseparator
    · have hoffset : (c₁.advance 1).offset = c.offset + size x + 1 :=
        congrArg (· + 1) hread.reads.offset
      rw [placeItems, hread.node, hreadMore.node, hoffset]

theorem membersRead_succ {fuel : ℕ} (hvalue : ValuesRead log fuel) (hmembers : MembersRead log fuel) :
    MembersRead log (fuel + 1) := by
  intro depth previous c c' ns h
  simp only [members, bind_eq_ok, requireWire_eq_ok, exists_unit] at h
  obtain ⟨c₁, hcount, hquote, ⟨key, c₂⟩, hkey, hprevious, hcolon, ⟨child, c₃⟩, hchild, h⟩ := h
  obtain ⟨hkeyDepth, hnodes, rfl⟩ := count_eq_ok.mp hcount
  obtain ⟨hxml, hreadKey⟩ := string_sound hkey hquote
  obtain ⟨x, hread⟩ := hvalue _ _ _ _ hchild
  have hdepth := hread.depth
  have hbefore : ∀ before ∈ previous, before < key := fun before hmem =>
    String.lt_iff_toList_lt.mpr ((precedes_iff _ _).mp (hprevious before hmem))
  have hhead : ∀ {text k last}, Reads text k c₃ last →
      Reads (dumpsString key ++ ([':'] ++ (dumps x ++ text))) (1 + tokens x + k) c last := by
    intro text k last htext
    have hvalueText := hread.reads.append htext
    have hcolonText := ((Reads.ascii_iff (x := ':') (by decide)).mpr hcolon).append hvalueText
    have hkeyText := hreadKey.append hcolonText
    rw [Nat.zero_add, Nat.zero_add] at hkeyText
    rw [Nat.add_assoc]
    exact Reads.count.mp hkeyText
  have hkeyOffset : (c₂.advance 1).offset = c.offset + quotedSize key + 1 :=
    congrArg (· + 1) hreadKey.offset
  dsimp only at h
  split_ifs at h with hclose
  · obtain ⟨rfl, rfl⟩ := Prod.mk.inj (Except.ok.inj h)
    refine ⟨hclose, [(key, x)], List.cons_ne_nil _ _, ?_, List.pairwise_singleton _ _, ?_, ?_, ?_,
      hread.nodes, ?_⟩
    · rw [List.forall_mem_singleton]
      exact ⟨hxml, hread.own⟩
    · intro before hmem k hk
      rw [List.mem_singleton.mp hk]
      exact hbefore before hmem
    · rw [heightMembers, heightMembers]
      omega
    · exact hhead ((Reads.ascii_iff (x := '}') (by decide)).mpr hclose)
    · rw [hread.node, hkeyOffset]
      rfl
  · simp only [bind_eq_ok, requireWire_eq_ok, exists_unit, Except.ok.injEq, Prod.mk.injEq] at h
    obtain ⟨hcomma, ⟨more, last⟩, hmore, rfl, rfl⟩ := h
    obtain ⟨hend, kvs, hreadMore⟩ := hmembers _ _ _ _ _ hmore
    have hdepthMore := hreadMore.depth
    have hafter : ∀ k ∈ keys kvs, key < k := hreadMore.previous key rfl
    refine ⟨hend, (key, x) :: kvs, List.cons_ne_nil _ _, ?_, ?_, ?_, ?_, ?_, hreadMore.nodes, ?_⟩
    · rw [List.forall_mem_cons]
      exact ⟨⟨hxml, hread.own⟩, hreadMore.own⟩
    · exact List.pairwise_cons.mpr ⟨hafter, hreadMore.sorted⟩
    · intro before hmem k hk
      rcases List.mem_cons.mp hk with rfl | hk
      · exact hbefore before hmem
      · exact (hbefore before hmem).trans (hafter k hk)
    · rw [heightMembers]
      omega
    · obtain ⟨kv, rest, rfl⟩ := List.exists_cons_of_ne_nil hreadMore.ne_nil
      have hseparator := ((Reads.ascii_iff (x := ',') (by decide)).mpr hcomma).append hreadMore.reads
      rw [Nat.zero_add] at hseparator
      rw [dumpsMembers_cons]
      exact hhead hseparator
    · have hoffset : (c₃.advance 1).offset = c.offset + quotedSize key + 1 + size x + 1 := by
        show c₃.offset + 1 = _
        rw [hread.reads.offset, hkeyOffset]
        rfl
      rw [placeMembers, hread.node, hreadMore.node, hoffset, hkeyOffset]

/-- **What the reader accepts** is the text of a document, by induction on the bound of the recursion. -/
theorem allRead : ∀ fuel : ℕ, ValuesRead log fuel ∧ ItemsRead log fuel ∧ MembersRead log fuel := by
  intro fuel
  induction fuel with
  | zero => exact ⟨nofun, nofun, nofun⟩
  | succ fuel ih =>
    obtain ⟨hvalues, hitems, hmembers⟩ := ih
    exact ⟨valuesRead_succ hitems hmembers, itemsRead_succ hvalues hitems, membersRead_succ hvalues hmembers⟩

/-! ## Completeness -/

variable (log)

/-- The first byte of a numeral. -/
theorem numeral_byte {t : Numeral} (ht : t.Wf) {k : ℕ} {c c' : Cursor} (h : Reads t.text k c c') :
    ∃ byte, c.rest.head? = some byte ∧ (byte = 45 ∨ (48 ≤ byte ∧ byte ≤ 57)) := by
  obtain ⟨d, ds, htext, hd⟩ := Json.numeral_head ht
  rw [htext] at h
  rcases hd with rfl | hd
  · exact ⟨45, h.head? (by decide), .inl rfl⟩
  · have hrange := Json.isDigit_iff_toNat.mp hd
    refine ⟨_, h.head? (by omega), .inr ?_⟩
    rw [UInt8.le_iff_toNat_le, UInt8.le_iff_toNat_le, UInt8.toNat_ofNat']
    show 48 ≤ _ ∧ _ ≤ 57
    omega

/-- A document does not begin with a closing bracket. -/
theorem not_closed {v : Json} {text : List Char} {k : ℕ} {c c' : Cursor} (h : Reads (dumps v ++ text) k c c') :
    c.rest.head? ≠ some 93 ∧ c.rest.head? ≠ some 125 := by
  have hbyte : ∃ byte, c.rest.head? = some byte ∧ byte ≠ 93 ∧ byte ≠ 125 := by
    have hnumeral : ∀ {t : Numeral}, t.Wf → Reads (t.text ++ text) k c c' →
        ∃ byte, c.rest.head? = some byte ∧ byte ≠ 93 ∧ byte ≠ 125 := by
      intro t ht hreads
      obtain ⟨c₁, hreads, -⟩ := hreads.split (k := k) (l := 0)
      obtain ⟨byte, hhead, hdigit⟩ := numeral_byte ht hreads
      refine ⟨byte, hhead, ?_⟩
      constructor <;> intro hclose <;> rw [hclose] at hdigit <;> exact absurd hdigit (by decide)
    cases v with
    | null => exact ⟨110, h.head? (x := 'n') (by decide), by decide⟩
    | bool b => cases b with
      | true => exact ⟨116, h.head? (x := 't') (by decide), by decide⟩
      | false => exact ⟨102, h.head? (x := 'f') (by decide), by decide⟩
    | int n => exact hnumeral (Numeral.wf_ofInt n) h
    | float x => exact hnumeral (Numeral.wf_repr x) h
    | str s => exact ⟨34, h.head? (x := '"') (by decide), by decide⟩
    | arr xs => exact ⟨91, h.head? (x := '[') (by decide), by decide⟩
    | obj kvs => exact ⟨123, h.head? (x := '{') (by decide), by decide⟩
  obtain ⟨byte, hhead, hbracket, hbrace⟩ := hbyte
  rw [hhead]
  exact ⟨fun heq => hbracket (Option.some.inj heq), fun heq => hbrace (Option.some.inj heq)⟩

theorem ends_items (xs : List Json) {k : ℕ} {c c' : Cursor} (h : Reads (dumpsItems false xs) k c c') :
    Ends c.rest := by
  intro b hb
  cases xs with
  | nil =>
    rw [h.head? (x := ']') (by decide)] at hb
    exact .inr (.inl (Option.some.inj hb).symm)
  | cons x xs =>
    rw [h.head? (x := ',') (by decide)] at hb
    exact .inl (Option.some.inj hb).symm

theorem ends_members (kvs : List (String × Json)) {k : ℕ} {c c' : Cursor}
    (h : Reads (dumpsMembers false kvs) k c c') : Ends c.rest := by
  intro b hb
  cases kvs with
  | nil =>
    rw [h.head? (x := '}') (by decide)] at hb
    exact .inr (.inr (Option.some.inj hb).symm)
  | cons kv kvs =>
    rw [h.head? (x := ',') (by decide)] at hb
    exact .inl (Option.some.inj hb).symm

theorem literal_place {t : List Char} {bytes : Bytes} {node : Extent → Node} {c c' : Cursor}
    (hbytes : Utf8.encode t = bytes) (h : Reads t 0 c c') :
    literal bytes node c = .ok (node ⟨c.offset, c.offset + (Utf8.encode t).length, 0⟩, c') := by
  have htake : c.rest.take (Utf8.encode t).length = Utf8.encode t := by rw [h.rest, List.take_left]
  rw [← hbytes, literal, requireWire_of htake, h.advance]
  rfl

theorem number_int {i : ℤ} (hown : Own (.int i)) {c c' : Cursor} (h : Reads (dumps (.int i)) 0 c c')
    (hends : Ends c'.rest) : number log c = .ok (place c.offset (.int i), c') := by
  have hdigits := digits_ofInt i
  have hwf := Numeral.wf_ofInt i
  have hlen : (Numeral.ofInt i).text.length ≤ 641 := by
    have hle : (Nat.toDigits 10 i.natAbs).length ≤ 640 := hown
    split_ifs at hdigits <;> omega
  obtain ⟨hscan, htoken, hlexeme, hlast⟩ := number_token hwf hlen h hends
  have hsize : size (.int i) = (Numeral.ofInt i).text.length := Json.length_encode_text hwf
  have hchecked : (Numeral.ofInt i).text ≠ ['-', '0'] ∧ (Numeral.ofInt i).text.length -
      (if (Numeral.ofInt i).text.head? = some '-' then 1 else 0) ≤ 640 := by
    rw [hdigits]
    exact ⟨ofInt_ne_negZero i, hown⟩
  simp only [number, hscan, ok_bind, htoken, hlexeme, Numeral.isInt_ofInt, if_true, requireWire_of hchecked,
    Numeral.toInt_ofInt, hlast]
  rw [place, hsize]

theorem number_float {x : Binary64.Finite} {c c' : Cursor} (h : Reads (dumps (.float x)) 0 c c')
    (hends : Ends c'.rest) : number log c = .ok (place c.offset (.float x), c') := by
  have hwf := Numeral.wf_repr x
  have hlen := ReceiptNumbers.length_repr_le x
  obtain ⟨hscan, htoken, hlexeme, hlast⟩ := number_token hwf (by omega) h hends
  have hsize : size (.float x) = (Numeral.repr x).text.length := Json.length_encode_text hwf
  have hverify : verifyFloatToken log (Numeral.repr x).text = .ok x :=
    ReceiptNumbers.verifyFloatToken_eq_ok.mpr rfl
  simp only [number, hscan, ok_bind, htoken, hlexeme, Numeral.isInt_repr, Bool.false_eq_true, if_false, hverify,
    hlast]
  rw [place, hsize]

/-- The reader at a numeral. -/
theorem value_number {t : Numeral} (ht : t.Wf) {fuel depth : ℕ} {c c' : Cursor} (hcount : depth ≤ 72)
    (hnodes : c.nodes + 1 ≤ 1000000) (h : Reads t.text 0 { c with nodes := c.nodes + 1 } c') :
    value log (fuel + 1) depth c = number log { c with nodes := c.nodes + 1 } := by
  obtain ⟨byte, hhead, hbyte⟩ := numeral_byte ht h
  have hfirst : c.rest.head? = some byte := hhead
  have hother : ∀ b : UInt8, ¬(b = 45 ∨ (48 ≤ b ∧ b ≤ 57)) → c.rest.head? ≠ some b := by
    intro b hb heq
    rw [Option.some.inj (hfirst.symm.trans heq)] at hbyte
    exact hb hbyte
  have hdigit : ∃ byte ∈ c.rest.head?, byte = 45 ∨ (48 ≤ byte ∧ byte ≤ 57) := ⟨byte, hfirst, hbyte⟩
  rw [value, count_eq_ok.mpr ⟨hcount, hnodes, rfl⟩, ok_bind]
  dsimp only
  rw [if_neg (hother 34 (by decide)), if_neg (hother 123 (by decide)), if_neg (hother 91 (by decide)),
    if_neg (hother 116 (by decide)), if_neg (hother 102 (by decide)), if_neg (hother 110 (by decide)),
    requireWire_of hdigit, ok_bind]

/-- Within this bound of the recursion, the text of a document is read, and makes the tree that `place`
puts there. -/
def ValuesPlaced (fuel : ℕ) : Prop :=
  ∀ (v : Json) {d : ℕ} {c c' : Cursor}, (∀ item ∈ popped v, Own item) → d + height v ≤ 72 →
    2 * size v ≤ fuel → Reads (dumps v) (tokens v) c c' → c'.nodes ≤ 1000000 → Ends c'.rest →
    value log fuel d c = .ok (place c.offset v, c')

def ItemsPlaced (fuel : ℕ) : Prop :=
  ∀ (x : Json) (xs : List Json) {d : ℕ} {c c' : Cursor},
    (∀ y ∈ x :: xs, ∀ item ∈ popped y, Own item) → d + 1 + heightItems (x :: xs) ≤ 72 →
    2 * (Utf8.encode (dumpsItems true (x :: xs))).length + 1 ≤ fuel →
    Reads (dumpsItems true (x :: xs)) (tokensItems (x :: xs)) c c' → c'.nodes ≤ 1000000 →
    ∃ last, elements log fuel d c = .ok (placeItems c.offset (x :: xs), last) ∧
      last.rest.head? = some 93 ∧ c' = last.advance 1

def MembersPlaced (fuel : ℕ) : Prop :=
  ∀ (k : String) (x : Json) (kvs : List (String × Json)) {d : ℕ} {p : Option String}
    {c c' : Cursor},
    (∀ kv ∈ (k, x) :: kvs, isXmlCharacter kv.1 = true ∧ ∀ item ∈ popped kv.2, Own item) →
    KeysSorted ((k, x) :: kvs) → (∀ before ∈ p, before < k) →
    d + 1 + heightMembers ((k, x) :: kvs) ≤ 72 →
    2 * (Utf8.encode (dumpsMembers true ((k, x) :: kvs))).length + 1 ≤ fuel →
    Reads (dumpsMembers true ((k, x) :: kvs)) (tokensMembers ((k, x) :: kvs)) c c' → c'.nodes ≤ 1000000 →
    ∃ last, members log fuel d p c = .ok (placeMembers c.offset ((k, x) :: kvs), last) ∧
      last.rest.head? = some 125 ∧ c' = last.advance 1

variable {log}

theorem valuesPlaced_succ {fuel : ℕ} (hitemsPlaced : ItemsPlaced log fuel)
    (hmembersPlaced : MembersPlaced log fuel) : ValuesPlaced log (fuel + 1) := by
  intro v depth c c' hown hdepth hfuel hreads hbudget hends
  have htokens : 1 ≤ tokens v := by cases v <;> rw [tokens] <;> omega
  have hnodes : c.nodes + 1 ≤ 1000000 := by have := hreads.nodes; omega
  have hcount : count depth c = .ok { c with nodes := c.nodes + 1 } :=
    count_eq_ok.mpr ⟨by omega, hnodes, rfl⟩
  cases v with
  | null =>
    have hfirst : c.rest.head? = some 110 := hreads.head? (x := 'n') (by decide)
    rw [value, hcount, ok_bind]
    dsimp only
    rw [hfirst, if_neg (by decide), if_neg (by decide), if_neg (by decide), if_neg (by decide),
      if_neg (by decide), if_pos rfl]
    exact literal_place (t := ['n', 'u', 'l', 'l']) (by decide) (Reads.count.mpr hreads)
  | bool flag =>
    cases flag with
    | true =>
      have hfirst : c.rest.head? = some 116 := hreads.head? (x := 't') (by decide)
      rw [value, hcount, ok_bind]
      dsimp only
      rw [hfirst, if_neg (by decide), if_neg (by decide), if_neg (by decide), if_pos rfl]
      exact literal_place (t := ['t', 'r', 'u', 'e']) (by decide) (Reads.count.mpr hreads)
    | false =>
      have hfirst : c.rest.head? = some 102 := hreads.head? (x := 'f') (by decide)
      rw [value, hcount, ok_bind]
      dsimp only
      rw [hfirst, if_neg (by decide), if_neg (by decide), if_neg (by decide), if_neg (by decide), if_pos rfl]
      exact literal_place (t := ['f', 'a', 'l', 's', 'e']) (by decide) (Reads.count.mpr hreads)
  | int i =>
    have hcounted : Reads (Numeral.ofInt i).text 0 { c with nodes := c.nodes + 1 } c' :=
      Reads.count.mpr hreads
    rw [value_number log (Numeral.wf_ofInt i) (by omega) hnodes hcounted]
    exact number_int log (hown _ (List.mem_singleton_self _)) hcounted hends
  | float x =>
    have hcounted : Reads (Numeral.repr x).text 0 { c with nodes := c.nodes + 1 } c' :=
      Reads.count.mpr hreads
    rw [value_number log (Numeral.wf_repr x) (by omega) hnodes hcounted]
    exact number_float log hcounted hends
  | str s =>
    have hfirst : c.rest.head? = some 34 := hreads.head? (x := '"') (by decide)
    have hcounted : Reads (dumpsString s) 0 { c with nodes := c.nodes + 1 } c' := Reads.count.mpr hreads
    have hxml : isXmlCharacter s = true := hown _ (List.mem_singleton_self _)
    rw [value, hcount, ok_bind]
    dsimp only
    rw [hfirst, if_pos rfl, string_text hxml hcounted, ok_bind]
    dsimp only
    rw [hcounted.offset]
    rfl
  | arr xs =>
    have hfirst : c.rest.head? = some 91 := hreads.head? (x := '[') (by decide)
    have hcounted : Reads (['['] ++ dumpsItems true xs) (0 + tokensItems xs)
        { c with nodes := c.nodes + 1 } c' := by
      rw [Nat.zero_add]
      exact Reads.count.mpr hreads
    obtain ⟨inner, hopen, hitems⟩ := hcounted.split
    have hinner : inner = Cursor.advance { c with nodes := c.nodes + 1 } 1 := hopen.advance
    have hheight : depth + 1 + heightItems xs ≤ 72 := by
      rw [height] at hdepth
      omega
    rw [Json.forall_popped_arr] at hown
    rw [value, hcount, ok_bind]
    dsimp only
    rw [hfirst, if_neg (by decide), if_neg (by decide), if_pos rfl, requireWire_of (by omega), ok_bind, ← hinner]
    have hsize : c'.offset = c.offset + size (.arr xs) := hreads.offset
    cases xs with
    | nil =>
      have hclose : inner.rest.head? = some 93 := hitems.head? (x := ']') (by decide)
      have hlast : c' = inner.advance 1 := hitems.advance
      rw [if_pos hclose, ok_bind, place, ← hsize, hlast]
      rfl
    | cons x xs =>
      have hfuel' : 2 * (Utf8.encode (dumpsItems true (x :: xs))).length + 1 ≤ fuel := by
        have hlen : size (.arr (x :: xs)) = 1 + (Utf8.encode (dumpsItems true (x :: xs))).length := by
          rw [size, dumps, Utf8.encode_cons, List.length_append, Utf8.encode_ascii (by decide)]
          rfl
        omega
      obtain ⟨last, helements, hclose, hlast⟩ := hitemsPlaced x xs hown.2 hheight hfuel' hitems hbudget
      have hopened := hitems
      rw [dumpsItems, if_pos rfl, List.nil_append] at hopened
      have hstart : inner.offset = c.offset + 1 := hopen.offset
      rw [if_neg (not_closed hopened).1, helements, ok_bind, place, ← hsize, hlast, hstart]
      rfl
  | obj kvs =>
    have hfirst : c.rest.head? = some 123 := hreads.head? (x := '{') (by decide)
    have hcounted : Reads (['{'] ++ dumpsMembers true kvs) (0 + tokensMembers kvs)
        { c with nodes := c.nodes + 1 } c' := by
      rw [Nat.zero_add]
      exact Reads.count.mpr hreads
    obtain ⟨inner, hopen, hmembers⟩ := hcounted.split
    have hinner : inner = Cursor.advance { c with nodes := c.nodes + 1 } 1 := hopen.advance
    have hheight : depth + 1 + heightMembers kvs ≤ 72 := by
      rw [height] at hdepth
      omega
    rw [Json.forall_popped_obj] at hown
    rw [value, hcount, ok_bind]
    dsimp only
    rw [hfirst, if_neg (by decide), if_pos rfl, requireWire_of (by omega), ok_bind, ← hinner]
    have hsize : c'.offset = c.offset + size (.obj kvs) := hreads.offset
    cases kvs with
    | nil =>
      have hclose : inner.rest.head? = some 125 := hmembers.head? (x := '}') (by decide)
      have hlast : c' = inner.advance 1 := hmembers.advance
      rw [if_pos hclose, ok_bind, place, ← hsize, hlast]
      rfl
    | cons kv kvs =>
      obtain ⟨k, x⟩ := kv
      have hfuel' : 2 * (Utf8.encode (dumpsMembers true ((k, x) :: kvs))).length + 1 ≤ fuel := by
        have hlen : size (.obj ((k, x) :: kvs)) =
            1 + (Utf8.encode (dumpsMembers true ((k, x) :: kvs))).length := by
          rw [size, dumps, Utf8.encode_cons, List.length_append, Utf8.encode_ascii (by decide)]
          rfl
        omega
      have hquote : inner.rest.head? = some 34 := hmembers.head? (x := '"') (by decide)
      obtain ⟨last, hread, hclose, hlast⟩ := hmembersPlaced k x kvs (p := none)
        (fun kv hkv => ⟨hown.1.2 _ (List.mem_map_of_mem hkv), hown.2 kv hkv⟩) hown.1.1 (by simp) hheight hfuel'
        hmembers hbudget
      have hstart : inner.offset = c.offset + 1 := hopen.offset
      rw [hquote, if_neg (by decide), hread, ok_bind, place, ← hsize, hlast, hstart]
      rfl

theorem itemsPlaced_succ {fuel : ℕ} (hvaluesPlaced : ValuesPlaced log fuel)
    (hitemsPlaced : ItemsPlaced log fuel) : ItemsPlaced log (fuel + 1) := by
  intro x xs depth c c' hown hdepth hfuel hreads hbudget
  have htext : dumpsItems true (x :: xs) = dumps x ++ dumpsItems false xs := by
    rw [dumpsItems, if_pos rfl, List.nil_append]
  rw [htext] at hfuel hreads
  rw [Utf8.encode_append, List.length_append] at hfuel
  rw [heightItems] at hdepth
  rw [List.forall_mem_cons] at hown
  obtain ⟨c₁, hfirst, hmore⟩ := hreads.split (k := tokens x) (l := tokensItems xs)
  have hc₁ : c₁.nodes ≤ 1000000 := by have := hmore.nodes; omega
  have hchild := hvaluesPlaced x (d := depth + 1) hown.1 (by omega)
    (by change 2 * (Utf8.encode (dumps x)).length ≤ fuel; omega) hfirst hc₁ (ends_items xs hmore)
  rw [elements, hchild, ok_bind]
  dsimp only
  match xs with
  | [] =>
    have hclose : c₁.rest.head? = some 93 := hmore.head? (x := ']') (by decide)
    refine ⟨c₁, ?_, hclose, hmore.advance⟩
    rw [if_pos hclose]
    rfl
  | y :: ys =>
    have hsplit : Reads ([','] ++ dumpsItems true (y :: ys)) (0 + tokensItems (y :: ys)) c₁ c' := by
      rw [Nat.zero_add]
      exact hmore
    obtain ⟨c₂, hcomma, hrest⟩ := hsplit.split
    have hc₂ : c₂ = c₁.advance 1 := hcomma.advance
    have hhead : c₁.rest.head? = some 44 := hmore.head? (x := ',') (by decide)
    have hlen : (Utf8.encode (dumpsItems false (y :: ys))).length =
        1 + (Utf8.encode (dumpsItems true (y :: ys))).length := by
      have hcons : dumpsItems false (y :: ys) = ',' :: dumpsItems true (y :: ys) := rfl
      rw [hcons, Utf8.encode_cons, List.length_append, Utf8.encode_ascii (by decide)]
      rfl
    obtain ⟨last, hread, hclose, hlast⟩ := hitemsPlaced y ys (d := depth) hown.2
      (by omega) (by omega) hrest hbudget
    refine ⟨last, ?_, hclose, hlast⟩
    rw [hhead, if_neg (by decide), requireWire_of rfl, ok_bind, ← hc₂, hread, ok_bind, placeItems,
      hcomma.offset, hfirst.offset]
    rfl

theorem membersPlaced_succ {fuel : ℕ} (hvaluesPlaced : ValuesPlaced log fuel)
    (hmembersPlaced : MembersPlaced log fuel) : MembersPlaced log (fuel + 1) := by
  intro k x kvs depth previous c c' hown hsorted hprevious hdepth hfuel hreads hbudget
  have htext : dumpsMembers true ((k, x) :: kvs) =
      dumpsString k ++ ([':'] ++ (dumps x ++ dumpsMembers false kvs)) := rfl
  rw [htext] at hfuel hreads
  simp only [Utf8.encode_append, List.length_append] at hfuel
  rw [heightMembers] at hdepth
  rw [List.forall_mem_cons] at hown
  have hcounted : Reads (dumpsString k ++ ([':'] ++ (dumps x ++ dumpsMembers false kvs)))
      (0 + (0 + (tokens x + tokensMembers kvs))) { c with nodes := c.nodes + 1 } c' := by
    rw [Nat.zero_add, Nat.zero_add]
    exact Reads.count.mpr (by rw [← Nat.add_assoc]; exact hreads)
  have hnodes : c.nodes + 1 ≤ 1000000 := by
    have hsum := hcounted.nodes
    dsimp only at hsum
    omega
  have hcount : count (depth + 1) c = .ok { c with nodes := c.nodes + 1 } :=
    count_eq_ok.mpr ⟨by omega, hnodes, rfl⟩
  have hquote : c.rest.head? = some 34 := hreads.head? (x := '"') (by decide)
  obtain ⟨c₁, hkey, hafterKey⟩ := hcounted.split
  obtain ⟨c₂, hcolon, hafterColon⟩ := hafterKey.split
  obtain ⟨c₃, hfirst, hmore⟩ := hafterColon.split
  have hcolonByte : c₁.rest.head? = some 58 := hafterKey.head? (x := ':') (by decide)
  have hc₂ : c₂ = c₁.advance 1 := hcolon.advance
  have hc₃ : c₃.nodes ≤ 1000000 := by have := hmore.nodes; omega
  have hordered : ∀ before ∈ previous, precedes before.toList k.toList = true := fun before hmem =>
    (precedes_iff _ _).mpr (String.lt_iff_toList_lt.mp (hprevious before hmem))
  have hchild := hvaluesPlaced x (d := depth + 1) hown.1.2 (by omega)
    (by change 2 * (Utf8.encode (dumps x)).length ≤ fuel; omega) hfirst hc₃ (ends_members kvs hmore)
  have hoffset : c₂.offset = c.offset + quotedSize k + 1 := by
    rw [hcolon.offset, hkey.offset]
    rfl
  rw [members, hcount, ok_bind, requireWire_of hquote, ok_bind, string_text hown.1.1 hkey, ok_bind]
  dsimp only
  rw [requireWire_of hordered, ok_bind, requireWire_of hcolonByte, ok_bind, ← hc₂, hchild, ok_bind]
  dsimp only
  match kvs with
  | [] =>
    have hclose : c₃.rest.head? = some 125 := hmore.head? (x := '}') (by decide)
    refine ⟨c₃, ?_, hclose, hmore.advance⟩
    rw [if_pos hclose, hoffset]
    rfl
  | (l, y) :: rest =>
    have hsplit : Reads ([','] ++ dumpsMembers true ((l, y) :: rest)) (0 + tokensMembers ((l, y) :: rest)) c₃ c' := by
      rw [Nat.zero_add]
      exact hmore
    obtain ⟨c₄, hcomma, hrest⟩ := hsplit.split
    have hc₄ : c₄ = c₃.advance 1 := hcomma.advance
    have hhead : c₃.rest.head? = some 44 := hmore.head? (x := ',') (by decide)
    have hlen : (Utf8.encode (dumpsMembers false ((l, y) :: rest))).length =
        1 + (Utf8.encode (dumpsMembers true ((l, y) :: rest))).length := by
      have hcons : dumpsMembers false ((l, y) :: rest) = ',' :: dumpsMembers true ((l, y) :: rest) := rfl
      rw [hcons, Utf8.encode_cons, List.length_append, Utf8.encode_ascii (by decide)]
      rfl
    have hsorted' := List.pairwise_cons.mp hsorted
    have hnext : ∀ before ∈ some k, before < l := by
      intro before hmem
      rw [← Option.some.inj hmem]
      exact hsorted'.1 l List.mem_cons_self
    obtain ⟨last, hread, hclose, hlast⟩ := hmembersPlaced l y rest (d := depth) hown.2
      hsorted'.2 hnext (by omega) (by omega) hrest hbudget
    refine ⟨last, ?_, hclose, hlast⟩
    rw [hhead, if_neg (by decide), requireWire_of rfl, ok_bind, ← hc₄, hread, ok_bind, placeMembers,
      hcomma.offset, hfirst.offset, hoffset]
    rfl

/-- **The text of a document is read**, by induction on the bound of the recursion. -/
theorem placed : ∀ fuel : ℕ, ValuesPlaced log fuel ∧ ItemsPlaced log fuel ∧ MembersPlaced log fuel := by
  intro fuel
  induction fuel with
  | zero =>
    refine ⟨fun v _ _ _ _ _ hfuel => ?_, fun _ _ _ _ _ _ _ hfuel => ?_, fun _ _ _ _ _ _ _ _ _ _ _ hfuel => ?_⟩
    · have hpos := Json.size_pos v
      omega
    · omega
    · omega
  | succ fuel ih =>
    obtain ⟨hvalues, hitems, hmembers⟩ := ih
    exact ⟨valuesPlaced_succ hitems hmembers, itemsPlaced_succ hvalues hitems,
      membersPlaced_succ hvalues hmembers⟩

/-! ## Spans -/

mutual

/-- The document that a tree stands for. -/
def Node.json : Node → Json
  | .null _ => .null
  | .boolean b _ => .bool b
  | .integer n _ _ => .int n
  | .float x _ _ => .float x
  | .string s _ => .str s
  | .array items _ => .arr (jsonItems items)
  | .object members _ => .obj (jsonMembers members)

def jsonItems : List Node → List Json
  | [] => []
  | n :: ns => n.json :: jsonItems ns

def jsonMembers : List (String × Node) → List (String × Json)
  | [] => []
  | (k, n) :: ns => (k, n.json) :: jsonMembers ns

end

/-- The nodes of a container, in their order. -/
def Node.children : Node → List Node
  | .array items _ => items
  | .object members _ => members.map Prod.snd
  | .null _ | .boolean _ _ | .integer _ _ _ | .float _ _ _ | .string _ _ => []

/-- `below k a b`: the node `b` is inside `a`, with `k` steps from a node to a child. -/
inductive Below : ℕ → Node → Node → Prop where
  | refl (n : Node) : Below 0 n n
  | step {k : ℕ} {a child b : Node} : child ∈ a.children → Below k child b → Below (k + 1) a b

/-- The bytes of a node. -/
def span (bytes : Bytes) (n : Node) : Bytes := (bytes.take n.extent.stop).drop n.extent.start

/-- What a node's extent says of it. -/
structure Spanned (bytes : Bytes) (n : Node) : Prop where
  span : span bytes n = Utf8.encode (dumps n.json)
  inside : ∀ child ∈ n.children, n.extent.start < child.extent.start ∧ child.extent.stop < n.extent.stop
  ordered : n.children.Pairwise fun a b => a.extent.stop < b.extent.start
  height : (∃ b, Below n.extent.height n b) ∧ ∀ k b, Below k n b → k ≤ n.extent.height

/-- The height of a container is that of its highest child, and one. -/
theorem heightOf_spec (ns : List Node) :
    (∀ n ∈ ns, n.extent.height + 1 ≤ heightOf ns) ∧
      (heightOf ns = 0 ∧ ns = [] ∨ ∃ n ∈ ns, n.extent.height + 1 = heightOf ns) := by
  have hfold : ∀ (ns : List Node) (h : ℕ),
      h ≤ ns.foldl (fun height child => max height (child.extent.height + 1)) h ∧
      (∀ n ∈ ns, n.extent.height + 1 ≤ ns.foldl (fun height child => max height (child.extent.height + 1)) h) ∧
      (ns.foldl (fun height child => max height (child.extent.height + 1)) h = h ∨
        ∃ n ∈ ns, n.extent.height + 1 =
          ns.foldl (fun height child => max height (child.extent.height + 1)) h) := by
    intro ns
    induction ns with
    | nil => exact fun h => ⟨le_rfl, nofun, .inl rfl⟩
    | cons n ns ih =>
      intro h
      obtain ⟨hle, hall, hattained⟩ := ih (max h (n.extent.height + 1))
      rw [List.foldl_cons]
      refine ⟨(le_max_left _ _).trans hle, ?_, ?_⟩
      · rw [List.forall_mem_cons]
        exact ⟨(le_max_right _ _).trans hle, hall⟩
      · rcases hattained with heq | ⟨m, hm, heq⟩
        · rcases le_total h (n.extent.height + 1) with hh | hh
          · rw [heq, max_eq_right hh]
            exact .inr ⟨n, List.mem_cons_self, rfl⟩
          · rw [heq, max_eq_left hh]
            exact .inl rfl
        · exact .inr ⟨m, List.mem_cons_of_mem n hm, heq⟩
  obtain ⟨-, hall, hattained⟩ := hfold ns 0
  refine ⟨hall, ?_⟩
  rcases hattained with hzero | hsome
  · left
    refine ⟨hzero, ?_⟩
    cases ns with
    | nil => rfl
    | cons n ns =>
      have hpos := hall n List.mem_cons_self
      omega
  · exact .inr hsome

/-- **A height counts the longest chain** of nodes inside one another, if it does so for the children. -/
theorem height_of_children {n : Node} (hheight : n.extent.height = heightOf n.children)
    (hchildren : ∀ child ∈ n.children,
      (∃ b, Below child.extent.height child b) ∧ ∀ k b, Below k child b → k ≤ child.extent.height) :
    (∃ b, Below n.extent.height n b) ∧ ∀ k b, Below k n b → k ≤ n.extent.height := by
  obtain ⟨hall, hattained⟩ := heightOf_spec n.children
  rw [← hheight] at hall hattained
  refine ⟨?_, ?_⟩
  · rcases hattained with ⟨hzero, -⟩ | ⟨child, hmem, heq⟩
    · rw [hzero]
      exact ⟨n, .refl n⟩
    · obtain ⟨b, hb⟩ := (hchildren child hmem).1
      rw [← heq]
      exact ⟨b, .step hmem hb⟩
  · intro k b hb
    cases hb with
    | refl => exact Nat.zero_le _
    | step hmem hb =>
      have hle := (hchildren _ hmem).2 _ _ hb
      exact (Nat.succ_le_succ hle).trans (hall _ hmem)

mutual

theorem json_place : ∀ (offset : ℕ) (v : Json), (place offset v).json = v
  | _, .null | _, .bool _ | _, .int _ | _, .float _ | _, .str _ => rfl
  | offset, .arr xs => by rw [place, Node.json, json_placeItems]
  | offset, .obj kvs => by rw [place, Node.json, json_placeMembers]

theorem json_placeItems : ∀ (offset : ℕ) (xs : List Json), jsonItems (placeItems offset xs) = xs
  | _, [] => rfl
  | offset, x :: xs => by rw [placeItems, jsonItems, json_place, json_placeItems]

theorem json_placeMembers : ∀ (offset : ℕ) (kvs : List (String × Json)),
    jsonMembers (placeMembers offset kvs) = kvs
  | _, [] => rfl
  | offset, (k, x) :: kvs => by rw [placeMembers, jsonMembers, json_place, json_placeMembers]

end

theorem extent_place (offset : ℕ) (v : Json) :
    (place offset v).extent.start = offset ∧ (place offset v).extent.stop = offset + size v := by
  cases v <;> rw [place] <;> exact ⟨rfl, rfl⟩

theorem length_items (x : Json) (xs : List Json) : (Utf8.encode (dumpsItems true (x :: xs))).length =
    size x + (Utf8.encode (dumpsItems false xs)).length := by
  rw [dumpsItems, if_pos rfl, List.nil_append, Utf8.encode_append, List.length_append]
  rfl

theorem length_comma_items (x : Json) (xs : List Json) : (Utf8.encode (dumpsItems false (x :: xs))).length =
    1 + (Utf8.encode (dumpsItems true (x :: xs))).length := by
  have hcons : dumpsItems false (x :: xs) = ',' :: dumpsItems true (x :: xs) := rfl
  rw [hcons, Utf8.encode_cons, List.length_append, Utf8.encode_ascii (by decide)]
  rfl

theorem length_members (k : String) (x : Json) (kvs : List (String × Json)) :
    (Utf8.encode (dumpsMembers true ((k, x) :: kvs))).length =
      quotedSize k + 1 + size x + (Utf8.encode (dumpsMembers false kvs)).length := by
  have htext : dumpsMembers true ((k, x) :: kvs) =
      dumpsString k ++ (':' :: (dumps x ++ dumpsMembers false kvs)) := rfl
  rw [htext, Utf8.encode_append, Utf8.encode_cons, Utf8.encode_append, Utf8.encode_ascii (by decide)]
  simp only [List.length_append, List.length_singleton, size, quotedSize]
  omega

theorem length_comma_members (kv : String × Json) (kvs : List (String × Json)) :
    (Utf8.encode (dumpsMembers false (kv :: kvs))).length =
      1 + (Utf8.encode (dumpsMembers true (kv :: kvs))).length := by
  have hcons : dumpsMembers false (kv :: kvs) = ',' :: dumpsMembers true (kv :: kvs) := rfl
  rw [hcons, Utf8.encode_cons, List.length_append, Utf8.encode_ascii (by decide)]
  rfl

/-- The items of an array stand one behind the other, before its closing bracket. -/
theorem extents_items : ∀ (xs : List Json) (offset : ℕ),
    (∀ n ∈ placeItems offset xs, offset ≤ n.extent.start ∧
      n.extent.stop < offset + (Utf8.encode (dumpsItems true xs)).length) ∧
    (placeItems offset xs).Pairwise fun a b => a.extent.stop < b.extent.start
  | [], _ => ⟨nofun, .nil⟩
  | [x], offset => by
    obtain ⟨hstart, hstop⟩ := extent_place offset x
    have hclose : (Utf8.encode (dumpsItems false [])).length = 1 := by decide
    refine ⟨?_, List.pairwise_singleton _ _⟩
    rw [placeItems, placeItems, List.forall_mem_singleton, hstart, hstop, length_items, hclose]
    omega
  | x :: y :: xs, offset => by
    obtain ⟨hstart, hstop⟩ := extent_place offset x
    obtain ⟨hall, hordered⟩ := extents_items (y :: xs) (offset + size x + 1)
    rw [placeItems, List.forall_mem_cons, List.pairwise_cons, hstart, hstop, length_items, length_comma_items]
    refine ⟨⟨by omega, fun n hn => ?_⟩, fun n hn => ?_, hordered⟩
    · have hn := hall n hn
      omega
    · have hn := hall n hn
      omega

theorem extents_members : ∀ (kvs : List (String × Json)) (offset : ℕ),
    (∀ n ∈ (placeMembers offset kvs).map Prod.snd, offset ≤ n.extent.start ∧
      n.extent.stop < offset + (Utf8.encode (dumpsMembers true kvs)).length) ∧
    ((placeMembers offset kvs).map Prod.snd).Pairwise fun a b => a.extent.stop < b.extent.start
  | [], _ => ⟨nofun, .nil⟩
  | [(k, x)], offset => by
    obtain ⟨hstart, hstop⟩ := extent_place (offset + quotedSize k + 1) x
    have hclose : (Utf8.encode (dumpsMembers false [])).length = 1 := by decide
    refine ⟨?_, List.pairwise_singleton _ _⟩
    rw [placeMembers, placeMembers, List.map_singleton, List.forall_mem_singleton, hstart, hstop,
      length_members, hclose]
    omega
  | (k, x) :: kv :: kvs, offset => by
    obtain ⟨hstart, hstop⟩ := extent_place (offset + quotedSize k + 1) x
    obtain ⟨hall, hordered⟩ := extents_members (kv :: kvs) (offset + quotedSize k + 1 + size x + 1)
    rw [placeMembers, List.map_cons, List.forall_mem_cons, List.pairwise_cons, hstart, hstop, length_members,
      length_comma_members]
    refine ⟨⟨by omega, fun n hn => ?_⟩, fun n hn => ?_, hordered⟩
    · have hn := hall n hn
      omega
    · have hn := hall n hn
      omega

/-- Every node of a tree has the extent that it should have. -/
def AllSpanned (bytes : Bytes) (n : Node) : Prop := ∀ k b, Below k n b → Spanned bytes b

theorem allSpanned_iff {bytes : Bytes} {n : Node} :
    AllSpanned bytes n ↔ Spanned bytes n ∧ ∀ child ∈ n.children, AllSpanned bytes child := by
  constructor
  · exact fun h => ⟨h 0 n (.refl n), fun child hmem k b hb => h (k + 1) b (.step hmem hb)⟩
  · intro hall k b hb
    obtain ⟨hself, hchildren⟩ := hall
    cases hb with
    | refl => exact hself
    | step hmem hb => exact hchildren _ hmem _ _ hb

/-- A node, from its children. -/
theorem allSpanned_place {v : Json} {before after : Bytes}
    (hinside : ∀ child ∈ (place before.length v).children, before.length < child.extent.start ∧
      child.extent.stop < before.length + size v)
    (hordered : (place before.length v).children.Pairwise fun a b => a.extent.stop < b.extent.start)
    (hheight : (place before.length v).extent.height = heightOf (place before.length v).children)
    (hchildren : ∀ child ∈ (place before.length v).children,
      AllSpanned (before ++ (Utf8.encode (dumps v) ++ after)) child) :
    AllSpanned (before ++ (Utf8.encode (dumps v) ++ after)) (place before.length v) := by
  obtain ⟨hstart, hstop⟩ := extent_place before.length v
  rw [allSpanned_iff]
  refine ⟨⟨?_, ?_, hordered, ?_⟩, hchildren⟩
  · rw [span, hstart, hstop, json_place, List.take_length_add_append, List.drop_left, size, List.take_left]
  · rw [hstart, hstop]
    exact hinside
  · exact height_of_children hheight fun child hmem => (hchildren child hmem 0 child (.refl child)).height

mutual

/-- **Every node of the tree of a document** has the extent that it should have. -/
theorem spanned_place : ∀ (v : Json) (before after : Bytes),
    AllSpanned (before ++ (Utf8.encode (dumps v) ++ after)) (place before.length v)
  | .null, _, _ => allSpanned_place nofun .nil rfl nofun
  | .bool _, _, _ => allSpanned_place nofun .nil rfl nofun
  | .int _, _, _ => allSpanned_place nofun .nil rfl nofun
  | .float _, _, _ => allSpanned_place nofun .nil rfl nofun
  | .str _, _, _ => allSpanned_place nofun .nil rfl nofun
  | .arr xs, before, after => by
    have hbracket : String.utf8EncodeChar '[' = [91] := Utf8.encode_ascii (by decide)
    have hsize : size (.arr xs) = 1 + (Utf8.encode (dumpsItems true xs)).length := by
      rw [size, dumps, Utf8.encode_cons, hbracket, List.length_append]
      rfl
    obtain ⟨hinside, hordered⟩ := extents_items xs (before.length + 1)
    have hitems := spanned_placeItems xs (before ++ [91]) after
    have hlength : (before ++ [91]).length = before.length + 1 := List.length_append
    have hbytes : before ++ [91] ++ (Utf8.encode (dumpsItems true xs) ++ after) =
        before ++ (Utf8.encode (dumps (.arr xs)) ++ after) := by
      rw [dumps, Utf8.encode_cons, hbracket]
      simp
    rw [hlength, hbytes] at hitems
    refine allSpanned_place (fun child hmem => ?_) hordered rfl hitems
    have hchild := hinside child hmem
    rw [hsize]
    omega
  | .obj kvs, before, after => by
    have hbrace : String.utf8EncodeChar '{' = [123] := Utf8.encode_ascii (by decide)
    have hsize : size (.obj kvs) = 1 + (Utf8.encode (dumpsMembers true kvs)).length := by
      rw [size, dumps, Utf8.encode_cons, hbrace, List.length_append]
      rfl
    obtain ⟨hinside, hordered⟩ := extents_members kvs (before.length + 1)
    have hmembers := spanned_placeMembers kvs (before ++ [123]) after
    have hlength : (before ++ [123]).length = before.length + 1 := List.length_append
    have hbytes : before ++ [123] ++ (Utf8.encode (dumpsMembers true kvs) ++ after) =
        before ++ (Utf8.encode (dumps (.obj kvs)) ++ after) := by
      rw [dumps, Utf8.encode_cons, hbrace]
      simp
    rw [hlength, hbytes] at hmembers
    refine allSpanned_place (fun child hmem => ?_) hordered rfl hmembers
    have hchild := hinside child hmem
    rw [hsize]
    omega

theorem spanned_placeItems : ∀ (xs : List Json) (before after : Bytes), ∀ n ∈ placeItems before.length xs,
    AllSpanned (before ++ (Utf8.encode (dumpsItems true xs) ++ after)) n
  | [], _, _ => nofun
  | x :: xs, before, after => by
    have htext : dumpsItems true (x :: xs) = dumps x ++ dumpsItems false xs := rfl
    have hfirst := spanned_place x before (Utf8.encode (dumpsItems false xs) ++ after)
    rw [placeItems, List.forall_mem_cons, htext, Utf8.encode_append, List.append_assoc]
    refine ⟨hfirst, fun n hn => ?_⟩
    have hrest := spanned_placeItems xs (before ++ (Utf8.encode (dumps x) ++ [44])) after
    have hlength : (before ++ (Utf8.encode (dumps x) ++ [44])).length = before.length + size x + 1 := by
      rw [List.length_append, List.length_append, List.length_singleton, size, Nat.add_assoc]
    rw [hlength] at hrest
    cases xs with
    | nil => cases hn
    | cons y ys =>
      have hcomma : Utf8.encode (dumpsItems false (y :: ys)) = [44] ++ Utf8.encode (dumpsItems true (y :: ys)) := by
        have hcons : dumpsItems false (y :: ys) = ',' :: dumpsItems true (y :: ys) := rfl
        rw [hcons, Utf8.encode_cons, Utf8.encode_ascii (by decide)]
        rfl
      have hspanned := hrest n hn
      rw [hcomma]
      simpa only [List.append_assoc] using hspanned

theorem spanned_placeMembers : ∀ (kvs : List (String × Json)) (before after : Bytes),
    ∀ n ∈ (placeMembers before.length kvs).map Prod.snd,
      AllSpanned (before ++ (Utf8.encode (dumpsMembers true kvs) ++ after)) n
  | [], _, _ => nofun
  | (k, x) :: kvs, before, after => by
    have hcolon : String.utf8EncodeChar ':' = [58] := Utf8.encode_ascii (by decide)
    have htext : Utf8.encode (dumpsMembers true ((k, x) :: kvs)) =
        Utf8.encode (dumpsString k) ++ ([58] ++ (Utf8.encode (dumps x) ++ Utf8.encode (dumpsMembers false kvs))) := by
      have hcons : dumpsMembers true ((k, x) :: kvs) =
          dumpsString k ++ (':' :: (dumps x ++ dumpsMembers false kvs)) := rfl
      rw [hcons, Utf8.encode_append, Utf8.encode_cons, Utf8.encode_append, hcolon]
    have hfirst := spanned_place x (before ++ (Utf8.encode (dumpsString k) ++ [58]))
      (Utf8.encode (dumpsMembers false kvs) ++ after)
    have hkey : (before ++ (Utf8.encode (dumpsString k) ++ [58])).length = before.length + quotedSize k + 1 := by
      rw [List.length_append, List.length_append, List.length_singleton, quotedSize, Nat.add_assoc]
    rw [hkey] at hfirst
    rw [placeMembers, List.map_cons, List.forall_mem_cons, htext]
    refine ⟨by simpa only [List.append_assoc] using hfirst, fun n hn => ?_⟩
    have hrest := spanned_placeMembers kvs
      (before ++ (Utf8.encode (dumpsString k) ++ ([58] ++ (Utf8.encode (dumps x) ++ [44])))) after
    have hlength : (before ++ (Utf8.encode (dumpsString k) ++ ([58] ++ (Utf8.encode (dumps x) ++ [44])))).length =
        before.length + quotedSize k + 1 + size x + 1 := by
      simp only [List.length_append, List.length_singleton, quotedSize, size]
      omega
    rw [hlength] at hrest
    cases kvs with
    | nil => cases hn
    | cons kv kvs =>
      have hcomma : Utf8.encode (dumpsMembers false (kv :: kvs)) =
          [44] ++ Utf8.encode (dumpsMembers true (kv :: kvs)) := by
        have hcons : dumpsMembers false (kv :: kvs) = ',' :: dumpsMembers true (kv :: kvs) := rfl
        rw [hcons, Utf8.encode_cons, Utf8.encode_ascii (by decide)]
        rfl
      have hspanned := hrest n hn
      rw [hcomma]
      simpa only [List.append_assoc] using hspanned

end

/-! ## The reader -/

variable (log : Log10)

/-- What is read in full is the text of an admitted document, and the other way round. -/
theorem value_eq_ok {bytes : Bytes} {root : Node} :
    (∃ nodes offset, value log (2 * bytes.length) 0 ⟨0, bytes, 0⟩ = .ok (root, ⟨offset, [], nodes⟩)) ↔
      ∃ v, Admitted v ∧ bytes = Utf8.encode (dumps v) ∧ root = place 0 v := by
  constructor
  · intro hall
    obtain ⟨nodes, offset, h⟩ := hall
    obtain ⟨v, hread⟩ := (allRead _).1 _ _ _ _ h
    have hbytes := hread.reads.rest
    have htokens := hread.reads.nodes
    have hbudget := hread.nodes
    have hdepth := hread.depth
    dsimp only at hbytes htokens hbudget
    rw [List.append_nil] at hbytes
    exact ⟨v, ⟨hread.own, by omega, by omega⟩, hbytes, hread.node⟩
  · intro hall
    obtain ⟨v, hadmitted, hbytes, hroot⟩ := hall
    have hsize : size v = bytes.length := by rw [hbytes, size]
    have hreads : Reads (dumps v) (tokens v) ⟨0, bytes, 0⟩ ⟨size v, [], tokens v⟩ :=
      ⟨by rw [hbytes, List.append_nil], by rw [size, Nat.zero_add], (Nat.zero_add _).symm⟩
    have hdepth := hadmitted.depth
    have hvalue := (@placed log (2 * bytes.length)).1 v (d := 0) hadmitted.own (by omega)
      (by omega) hreads hadmitted.nodes nofun
    exact ⟨_, _, hvalue.trans (by rw [hroot])⟩

/-- **The reader accepts the canonical wire**, and nothing else. -/
theorem readCanonicalWire_eq_ok {raw bytes : Bytes} {maximumBytes : ℤ} {root : Node} :
    readCanonicalWire log raw maximumBytes = .ok (bytes, root) ↔
      (0 < maximumBytes ∧ maximumBytes ≤ MAX_BYTES ∧ raw.length ≤ maximumBytes) ∧ bytes = raw ∧
        ∃ v, Admitted v ∧ raw = Utf8.encode (dumps v) ∧ root = place 0 v := by
  rw [← value_eq_ok log]
  simp only [readCanonicalWire, copyBytes, bind_eq_ok, requireWire_eq_ok, exists_unit, Except.ok.injEq,
    Prod.mk.injEq]
  constructor
  · intro hall
    obtain ⟨⟨hpos, hmax⟩, read, ⟨⟨_, hle⟩, hraw⟩, ⟨node, c⟩, hvalue, hend, hbytes, hroot⟩ := hall
    rw [← hraw] at hvalue hbytes
    dsimp only at hend hroot
    rw [hroot] at hvalue
    refine ⟨⟨hpos, hmax, hle⟩, hbytes.symm, c.nodes, c.offset, ?_⟩
    rw [hvalue, ← hend]
  · intro hall
    obtain ⟨⟨hpos, hmax, hle⟩, hbytes, nodes, offset, hvalue⟩ := hall
    have hlength : 0 < raw.length := by
      by_contra hzero
      rw [List.eq_nil_of_length_eq_zero (Nat.eq_zero_of_not_pos hzero)] at hvalue
      cases hvalue
    exact ⟨⟨hpos, hmax⟩, raw, ⟨⟨hlength, hle⟩, rfl⟩, (root, ⟨offset, [], nodes⟩), hvalue, rfl, hbytes.symm, rfl⟩

/-- **The reader is exact.** It accepts just the canonical texts of the documents within the budgets. The
tree stands for the document, the root spans the wire, and every node has the extent that it should have:
the span of its own text, behind its earlier siblings' and around its children's, and the length of the
longest chain of nodes below it. -/
theorem readCanonicalWire_exact (raw : Bytes) (maximumBytes : ℤ) :
    ((∃ bytes root, readCanonicalWire log raw maximumBytes = .ok (bytes, root)) ↔
      (0 < maximumBytes ∧ maximumBytes ≤ MAX_BYTES ∧ raw.length ≤ maximumBytes) ∧
        ∃ v, Admitted v ∧ raw = Utf8.encode (dumps v)) ∧
    ∀ bytes root, readCanonicalWire log raw maximumBytes = .ok (bytes, root) →
      bytes = raw ∧ Admitted root.json ∧ raw = Utf8.encode (dumps root.json) ∧
        root.extent.start = 0 ∧ root.extent.stop = raw.length ∧
        ∀ k node, Below k root node → Spanned raw node := by
  refine ⟨⟨?_, ?_⟩, ?_⟩
  · intro hall
    obtain ⟨bytes, root, h⟩ := hall
    obtain ⟨hbudget, -, v, hadmitted, hraw, -⟩ := (readCanonicalWire_eq_ok log).mp h
    exact ⟨hbudget, v, hadmitted, hraw⟩
  · intro hall
    obtain ⟨hbudget, v, hadmitted, hraw⟩ := hall
    exact ⟨raw, place 0 v, (readCanonicalWire_eq_ok log).mpr ⟨hbudget, rfl, v, hadmitted, hraw, rfl⟩⟩
  · intro bytes root h
    obtain ⟨-, hbytes, v, hadmitted, hraw, hroot⟩ := (readCanonicalWire_eq_ok log).mp h
    obtain ⟨hstart, hstop⟩ := extent_place 0 v
    have hspanned := spanned_place v [] []
    rw [List.append_nil, List.nil_append, ← hraw] at hspanned
    rw [hroot, json_place]
    refine ⟨hbytes, hadmitted, hraw, hstart, ?_, hspanned⟩
    rw [hstop, Nat.zero_add, hraw, size]

end ReceiptWire

end EvidenceBraid
