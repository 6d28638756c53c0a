import EvidenceBraid.Text
import EvidenceBraid.Library.JsonMembers
import EvidenceBraid.Library.JsonTokens
import EvidenceBraid.Library.NumeralText
import EvidenceBraid.ReceiptNumbers

/-!
# The reader of the canonical wire

`readCanonicalWire` of `receipt-wire.mjs`: one pass over the bytes that checks that they are canonical
while it builds a tree, each of whose nodes keeps the span of bytes that it was read from. A cursor
holds the offset and the bytes from there on.
-/

namespace EvidenceBraid

namespace ReceiptWire

open ReceiptNumbers (Log10 verifyFloatToken lexeme)

/-! ## The reader -/

/-- `ReceiptWireError`. -/
structure ReceiptWireError where
  message : String
  deriving DecidableEq, Repr

abbrev Wire := Except ReceiptWireError

/-- `requireWire`. -/
def requireWire (condition : Prop) [Decidable condition] (message : String) : Wire Unit :=
  if condition then .ok () else .error ⟨message⟩

/-- `MAX_BYTES`. -/
def MAX_BYTES : ℕ := 20 * 1024 * 1024

/-- `copyBytes`, of a native byte view. -/
def copyBytes (raw : Bytes) (maximum : ℤ) : Wire Bytes := do
  requireWire (0 < raw.length ∧ (raw.length : ℤ) ≤ maximum) "wire exceeds byte budget or is empty"
  .ok raw

/-- `precedes`, of the code points of two strings. -/
def precedes : List Char → List Char → Bool
  | x :: left, y :: right => if x ≠ y then x.toNat < y.toNat else precedes left right
  | [], _ :: _ => true
  | _, [] => false

/-- The code points that `xmlText` admits. -/
def isXmlPoint (point : ℕ) : Bool :=
  point = 9 || point = 10 || point = 13 || (0x20 ≤ point && point ≤ 0xd7ff) ||
    (0xe000 ≤ point && point ≤ 0xfffd) || (0x10000 ≤ point && point ≤ 0x10ffff)

/-- `xmlText`. -/
def xmlText (value : List Char) : Wire String := do
  requireWire (value.all fun character => isXmlPoint character.toNat) "string is not XML 1.0 scalar text"
  .ok (String.ofList value)

/-- The `start`, the `end` and the `height` of a node. -/
structure Extent where
  start : ℕ
  stop : ℕ
  height : ℕ
  deriving DecidableEq, Repr

/-- A node: its kind, its value, its token if it is a number, and its extent. -/
inductive Node where
  | null (extent : Extent)
  | boolean (value : Bool) (extent : Extent)
  | integer (value : ℤ) (token : List Char) (extent : Extent)
  | float (value : Binary64.Finite) (token : List Char) (extent : Extent)
  | string (value : String) (extent : Extent)
  | array (value : List Node) (extent : Extent)
  | object (value : List (String × Node)) (extent : Extent)

def Node.extent : Node → Extent
  | .null extent | .boolean _ extent | .integer _ _ extent | .float _ _ extent | .string _ extent
  | .array _ extent | .object _ extent => extent

/-- The height that a container accumulates over its children. -/
def heightOf (nodes : List Node) : ℕ :=
  nodes.foldl (fun height child => max height (child.extent.height + 1)) 0

/-- `offset`, the bytes from there on, and `nodes`. -/
structure Cursor where
  offset : ℕ
  rest : Bytes
  nodes : ℕ

def Cursor.advance (c : Cursor) (length : ℕ) : Cursor :=
  { c with offset := c.offset + length, rest := c.rest.drop length }

/-- `count`. -/
def count (depth : ℕ) (c : Cursor) : Wire Cursor := do
  requireWire (depth ≤ 72) "wire exceeds nesting budget"
  requireWire (c.nodes + 1 ≤ 1000000) "wire exceeds node budget"
  .ok { c with nodes := c.nodes + 1 }

/-- The loop of `string`: how many bytes stand before the closing quote. -/
def scanString : Bytes → Wire ℕ
  | [] => .error ⟨"unterminated string"⟩
  | byte :: bytes =>
    if byte = 34 then .ok 0
    else if byte < 32 then .error ⟨"unescaped control byte in string"⟩
    else if byte = 92 then
      match bytes with
      | [] => .error ⟨"noncanonical string escape"⟩
      | escaped :: bytes =>
        if escaped = 34 ∨ escaped = 92 ∨ escaped = 116 ∨ escaped = 110 ∨ escaped = 114 then
          (scanString bytes).map (· + 2)
        else .error ⟨"noncanonical string escape"⟩
    else (scanString bytes).map (· + 1)

/-- What the escapes stand for. -/
def escapes : List (Char × Char) :=
  [('t', '\t'), ('n', '\n'), ('r', '\r'), ('"', '"'), ('\\', '\\')]

/-- `value.replace(/\\(["\\tnr])/g, …)`. -/
def unescape : List Char → List Char
  | [] => []
  | [c] => [c]
  | c :: escaped :: text =>
    if c = '\\' then
      match escapes.lookup escaped with
      | some character => character :: unescape text
      | none => c :: unescape (escaped :: text)
    else c :: unescape (escaped :: text)

/-- `string`, at an opening quote: the value, and the cursor behind the closing quote. -/
def string (c : Cursor) : Wire (String × Cursor) := do
  let body := c.rest.drop 1
  let length ← scanString body
  match Utf8.decode (body.take length) with
  | none => .error ⟨"string is not strict UTF-8"⟩
  | some text => do
    let value ← xmlText (unescape text)
    .ok (value, c.advance (length + 2))

/-- A literal whose first letter has been seen. -/
def literal (text : Bytes) (node : Extent → Node) (c : Cursor) : Wire (Node × Cursor) := do
  requireWire (c.rest.take text.length = text) "invalid JSON literal"
  .ok (node ⟨c.offset, c.offset + text.length, 0⟩, c.advance text.length)

/-- The loop over a number: its length, after so many of its bytes. -/
def scanNumber : ℕ → Bytes → Wire ℕ
  | length, [] => .ok length
  | length, byte :: bytes =>
    if byte = 44 ∨ byte = 93 ∨ byte = 125 then .ok length
    else if length < 641 ∧ byte < 128 then scanNumber (length + 1) bytes
    else .error ⟨"number exceeds lexical budget"⟩

/-- `toString("ascii")`. -/
def ascii (bytes : Bytes) : List Char := bytes.map fun byte => Char.ofNat byte.toNat

/-- A number, at its first byte. -/
def number (log : Log10) (c : Cursor) : Wire (Node × Cursor) := do
  let length ← scanNumber 0 c.rest
  let token := ascii (c.rest.take length)
  let extent : Extent := ⟨c.offset, c.offset + length, 0⟩
  match lexeme token with
  | some t =>
    if t.isInt = true then do
      requireWire (token ≠ ['-', '0'] ∧
        token.length - (if token.head? = some '-' then 1 else 0) ≤ 640) "noncanonical or oversized integer"
      .ok (.integer t.toInt token extent, c.advance length)
    else
      match verifyFloatToken log token with
      | .ok value => .ok (.float value token extent, c.advance length)
      | .error _ => .error ⟨"noncanonical or invalid finite float"⟩
  | none => .error ⟨"noncanonical or invalid finite float"⟩

mutual

/-- `value`. The first argument only bounds the recursion. -/
def value (log : Log10) : ℕ → ℕ → Cursor → Wire (Node × Cursor)
  | 0, _, _ => .error ⟨"wire exceeds nesting budget"⟩
  | fuel + 1, depth, c => do
    let c ← count depth c
    let first := c.rest.head?
    if first = some 34 then do
      let (value, last) ← string c
      .ok (.string value ⟨c.offset, last.offset, 0⟩, last)
    else if first = some 123 then do
      requireWire (depth < 72) "wire exceeds container nesting budget"
      let inner := c.advance 1
      let (result, last) ← (if inner.rest.head? = some 125 then .ok ([], inner)
        else members log fuel depth none inner : Wire _)
      .ok (.object result ⟨c.offset, last.offset + 1, heightOf (result.map Prod.snd)⟩, last.advance 1)
    else if first = some 91 then do
      requireWire (depth < 72) "wire exceeds container nesting budget"
      let inner := c.advance 1
      let (result, last) ← (if inner.rest.head? = some 93 then .ok ([], inner)
        else elements log fuel depth inner : Wire _)
      .ok (.array result ⟨c.offset, last.offset + 1, heightOf result⟩, last.advance 1)
    else if first = some 116 then literal [116, 114, 117, 101] (.boolean true) c
    else if first = some 102 then literal [102, 97, 108, 115, 101] (.boolean false) c
    else if first = some 110 then literal [110, 117, 108, 108] .null c
    else do
      requireWire (∃ byte ∈ first, byte = 45 ∨ (48 ≤ byte ∧ byte ≤ 57)) "invalid canonical JSON value"
      number log c

/-- The loop over an array, up to its closing bracket. -/
def elements (log : Log10) : ℕ → ℕ → Cursor → Wire (List Node × Cursor)
  | 0, _, _ => .error ⟨"wire exceeds nesting budget"⟩
  | fuel + 1, depth, c => do
    let (child, c) ← value log fuel (depth + 1) c
    if c.rest.head? = some 93 then .ok ([child], c)
    else do
      requireWire (c.rest.head? = some 44) "missing container separator"
      let (result, c) ← elements log fuel depth (c.advance 1)
      .ok (child :: result, c)

/-- The loop over an object, up to its closing brace. -/
def members (log : Log10) : ℕ → ℕ → Option String → Cursor → Wire (List (String × Node) × Cursor)
  | 0, _, _, _ => .error ⟨"wire exceeds nesting budget"⟩
  | fuel + 1, depth, previous, c => do
    let c ← count (depth + 1) c
    requireWire (c.rest.head? = some 34) "object key must be a string"
    let (key, c) ← string c
    requireWire (∀ before ∈ previous, precedes before.toList key.toList = true)
      "object keys are duplicated or not in scalar order"
    requireWire (c.rest.head? = some 58) "missing object colon"
    let (child, c) ← value log fuel (depth + 1) (c.advance 1)
    if c.rest.head? = some 125 then .ok ([(key, child)], c)
    else do
      requireWire (c.rest.head? = some 44) "missing container separator"
      let (result, c) ← members log fuel depth (some key) (c.advance 1)
      .ok ((key, child) :: result, c)

end

/-- `readCanonicalWire`. -/
def readCanonicalWire (log : Log10) (raw : Bytes) (maximumBytes : ℤ) : Wire (Bytes × Node) := do
  requireWire (0 < maximumBytes ∧ maximumBytes ≤ MAX_BYTES) "invalid byte budget"
  let bytes ← copyBytes raw maximumBytes
  let (root, c) ← value log (2 * bytes.length) 0 ⟨0, bytes, 0⟩
  requireWire (c.rest = []) "trailing wire bytes"
  .ok (bytes, root)

end ReceiptWire

end EvidenceBraid
