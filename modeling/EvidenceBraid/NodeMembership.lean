import EvidenceBraid.Membership
import EvidenceBraid.ReceiptWireProof

/-!
# The independent membership verifier

`verification/ledger-membership.mjs`: the verifier of canonical receipts and selected Merkle members that
hashes the spans of the bytes it was given. It reads the tree of `readCanonicalWire`, and shares nothing
with `membership.py` but the hash.

The digests that have passed `digest` are values of `D`.
-/

namespace EvidenceBraid

namespace NodeMembership

open Hashing
open ReceiptNumbers (Log10)
open ReceiptWire (Wire ReceiptWireError requireWire readCanonicalWire MAX_BYTES span)

/-- `DOMAIN`. -/
def DOMAIN : Bytes := Utf8.encode "evidence-braid:ledger-membership:v1\x00".toList

/-- `RECEIPT_LIMIT`. -/
def RECEIPT_LIMIT : ℕ := 16 * 1024 * 1024

/-- `LedgerVerificationError`. -/
structure LedgerVerificationError where
  message : String
  deriving DecidableEq, Repr

/-- `verified`. -/
def verified {α : Type} (operation : Wire α) : Except LedgerVerificationError α :=
  operation.mapError fun error => ⟨error.message⟩

/-! ## Hashes -/

variable {D : Type} [Hashing D]

/-- `sha`. -/
def sha (parts : List Bytes) : D := sha256 parts.flatten

/-- `tagged`. -/
def tagged (tag : Char) (parts : List Bytes) : D := sha (DOMAIN :: Utf8.encode [tag] :: parts)

/-- `join`. -/
def join (left right : D) : D := tagged 'N' [fromhex left, fromhex right]

/-- The UTF-8 bytes that `hash.update` makes of a string. -/
def utf8 (text : String) : Bytes := Utf8.encode text.toList

/-! ## Fields -/

/-- `data.get(key)`. -/
def get (data : List (String × ReceiptWire.Node)) (key : String) : Option ReceiptWire.Node :=
  data.lookup key

/-- `if (data.has(key))`. -/
def whenPresent (node : Option ReceiptWire.Node) (check : ReceiptWire.Node → Wire Unit) : Wire Unit :=
  match node with
  | some n => check n
  | none => .ok ()

/-- `fields`. -/
def fields (node : Option ReceiptWire.Node) (required optional : List String) :
    Wire (List (String × ReceiptWire.Node)) :=
  match node with
  | some (.object value _) => do
    requireWire ((∀ key ∈ required, key ∈ value.map Prod.fst) ∧
      ∀ key ∈ value.map Prod.fst, key ∈ required ∨ key ∈ optional) "invalid wire object fields"
    .ok value
  | _ => .error ⟨"expected closed wire object"⟩

/-- `text`. -/
def text (node : Option ReceiptWire.Node) : Wire String :=
  match node with
  | some (.string value _) => .ok value
  | _ => .error ⟨"expected wire string"⟩

/-- The class of `EDGE_SPACE`. -/
def isEdgeSpace (c : Char) : Bool :=
  (0x09 ≤ c.toNat && c.toNat ≤ 0x0d) || (0x1c ≤ c.toNat && c.toNat ≤ 0x20) || c.toNat = 0x85 ||
    c.toNat = 0xa0 || c.toNat = 0x1680 || (0x2000 ≤ c.toNat && c.toNat ≤ 0x200a) || c.toNat = 0x2028 ||
    c.toNat = 0x2029 || c.toNat = 0x202f || c.toNat = 0x205f || c.toNat = 0x3000

/-- `EDGE_SPACE.test(value)`: one of them begins or ends the text. -/
def edgeSpace (value : List Char) : Bool := value.head?.any isEdgeSpace || value.getLast?.any isEdgeSpace

/-- `identifier`. -/
def identifier (node : Option ReceiptWire.Node) : Wire String := do
  let value ← text node
  requireWire (value.toList ≠ [] ∧ edgeSpace value.toList = false)
    "identifier is empty or not canonically trimmed"
  .ok value

/-- `digest`. -/
def digest (value : String) : Wire D :=
  match ofHex? value with
  | some d => .ok d
  | none => .error ⟨"expected lowercase SHA-256 digest"⟩

/-- `node.end`. -/
def stopOf (node : Option ReceiptWire.Node) : ℕ := (node.map fun n => n.extent.stop).getD 0

/-- `node.end - node.start`. -/
def lengthOf (node : Option ReceiptWire.Node) : ℕ := (node.map fun n => n.extent.stop - n.extent.start).getD 0

/-- `span`. -/
def spanOf (bytes : Bytes) (node : Option ReceiptWire.Node) : Bytes := (node.map (span bytes)).getD []

/-- `integer`. -/
def integer (node : Option ReceiptWire.Node) (maximum : ℕ) : Wire ℕ :=
  match node with
  | some (.integer value _ _) => do
    requireWire (0 ≤ value ∧ value ≤ maximum) "integer field is outside protocol bounds"
    .ok value.toNat
  | _ => .error ⟨"integer field is outside protocol bounds"⟩

/-- `version`. -/
def version (value : String) : Wire String := do
  requireWire (value = "1.0" ∨ value = "2.0") "unsupported ledger version"
  .ok value

/-! ## Timestamps -/

/-- What the pattern of a timestamp captures, as numbers. -/
structure Captures where
  year : ℕ
  month : ℕ
  day : ℕ
  hour : ℕ
  minute : ℕ
  second : ℕ
  fraction : Option ℕ

/-- One character of the pattern. -/
def literal (c : Char) : List Char → Option (List Char)
  | [] => none
  | d :: s => if d = c then some s else none

/-- `(?:\.(\d{6}))?Z$`. -/
def fractionEnd : List Char → Option (Option ℕ)
  | '.' :: s => do
    let (fraction, s) ← Iso.digits 6 s
    if s = ['Z'] then some (some fraction) else none
  | s => if s = ['Z'] then some none else none

/-- The pattern of `timestamp`. -/
def captures (value : List Char) : Option Captures := do
  let (year, s) ← Iso.digits 4 value
  let s ← literal '-' s
  let (month, s) ← Iso.digits 2 s
  let s ← literal '-' s
  let (day, s) ← Iso.digits 2 s
  let s ← literal 'T' s
  let (hour, s) ← Iso.digits 2 s
  let s ← literal ':' s
  let (minute, s) ← Iso.digits 2 s
  let s ← literal ':' s
  let (second, s) ← Iso.digits 2 s
  let fraction ← fractionEnd s
  some ⟨year, month, day, hour, minute, second, fraction⟩

/-- `days[month - 1]`. -/
def days (year month : ℕ) : ℕ :=
  let leap : Bool := year % 4 = 0 && (year % 100 ≠ 0 || year % 400 = 0)
  [31, if leap then 29 else 28, 31, 30, 31, 30, 31, 31, 30, 31, 30, 31].getD (month - 1) 0

/-- `timestamp`. Six digits are `000000` if their number is zero. -/
def timestamp (node : Option ReceiptWire.Node) : Wire Unit := do
  let value ← text node
  match captures value.toList with
  | none => .error ⟨"timestamp must use canonical UTC spelling"⟩
  | some m =>
    requireWire (1 ≤ m.year ∧ 1 ≤ m.month ∧ m.month ≤ 12 ∧ 1 ≤ m.day ∧ m.day ≤ days m.year m.month ∧
      m.hour < 24 ∧ m.minute < 60 ∧ m.second < 60 ∧ m.fraction ≠ some 0)
      "invalid calendar value or redundant zero microseconds"

/-! ## Receipts -/

/-- The check of `confidence`. -/
def confidence (node : Option ReceiptWire.Node) : Wire Unit :=
  match node with
  | some (.float value token _) =>
    requireWire (0 ≤ value.toRat ∧ value.toRat ≤ 1 ∧ token ≠ ['-', '0', '.', '0'])
      "confidence must be a canonical normalized float in [0,1]"
  | _ => .error ⟨"confidence must be a canonical normalized float in [0,1]"⟩

/-- The check of `attributes`. -/
def attributes (node : ReceiptWire.Node) : Wire Unit :=
  match node with
  | .object value _ => requireWire (0 < value.length) "attributes must be a nonempty object or omitted"
  | _ => .error ⟨"attributes must be a nonempty object or omitted"⟩

/-- `event`. -/
def event (node : Option ReceiptWire.Node) : Wire String := do
  let data ← fields node ["claim", "confidence", "event_id", "ingested_at", "modality", "observed_at", "signal",
    "source"] ["attributes", "correlation_group"]
  requireWire (∀ n ∈ node, n.extent.height ≤ 64) "event exceeds full-event nesting bound"
  let _ ← identifier (get data "claim")
  let _ ← identifier (get data "event_id")
  let _ ← identifier (get data "source")
  let modality ← text (get data "modality")
  requireWire (modality ∈ ["vision", "audio", "text", "sensor"]) "invalid modality"
  let signal ← text (get data "signal")
  requireWire (signal ∈ ["support", "contradict"]) "invalid signal"
  confidence (get data "confidence")
  timestamp (get data "observed_at")
  timestamp (get data "ingested_at")
  whenPresent (get data "correlation_group") fun group => do
    let _ ← identifier (some group)
    .ok ()
  whenPresent (get data "attributes") attributes
  text (get data "event_id")

/-- What `receipt` returns. -/
structure Receipt (D : Type) where
  sequence : ℕ
  eventId : String
  receiptDigest : D
  previousDigest : D
  deriving DecidableEq

variable [DecidableEq D]

/-- The chain digest of a receipt. -/
def chained (ledgerVersion : String) (previous : D) (sequence : ℕ) (rawEvent : Bytes) : D :=
  if ledgerVersion = "1.0" then sha [utf8 (hex previous), utf8 "\n", rawEvent]
  else sha [utf8 "\x7b\"event\":", rawEvent, utf8 (",\"previous_digest\":\"" ++ hex previous ++
    "\",\"schema_version\":\"2.0\",\"sequence\":" ++ toString sequence ++ "\x7d")]

/-- `receipt`. -/
def receipt (bytes : Bytes) (node : Option ReceiptWire.Node) (ledgerVersion : String) : Wire (Receipt D) := do
  requireWire (lengthOf node ≤ RECEIPT_LIMIT) "receipt exceeds 16 MiB"
  let data ← fields node ["digest", "event", "event_id", "previous_digest", "sequence"] []
  let sequence ← integer (get data "sequence") 99999
  let eventId ← event (get data "event")
  let named ← text (get data "event_id")
  requireWire (named = eventId) "receipt and event identifiers differ"
  let previousText ← text (get data "previous_digest")
  let previous : D ← digest previousText
  let suppliedText ← text (get data "digest")
  let supplied : D ← digest suppliedText
  let expected := chained ledgerVersion previous sequence (spanOf bytes (get data "event"))
  requireWire (expected = supplied) "receipt chain digest mismatch"
  .ok ⟨sequence, eventId, supplied, previous⟩

/-! ## The commitment -/

/-- What `header` returns. -/
structure Header (D : Type) where
  ledgerVersion : String
  entryCount : ℕ
  genesis : D
  headDigest : D
  rootHash : D
  commitmentDigest : D

/-- `header`. -/
def header (bytes : Bytes) (node : Option ReceiptWire.Node) : Wire (Header D) := do
  let data ← fields node ["commitment_digest", "entry_count", "genesis", "head_digest", "kind", "ledger_version",
    "root_hash", "schema_version"] []
  let kind ← text (get data "kind")
  let schemaVersion ← text (get data "schema_version")
  requireWire (kind = "evidence-braid-ledger-commitment" ∧ schemaVersion = "1.0")
    "unsupported commitment profile"
  let versionText ← text (get data "ledger_version")
  let ledgerVersion ← version versionText
  let entryCount ← integer (get data "entry_count") 100000
  let genesisText ← text (get data "genesis")
  let genesis : D ← digest genesisText
  let headText ← text (get data "head_digest")
  let headDigest : D ← digest headText
  let rootText ← text (get data "root_hash")
  let rootHash : D ← digest rootText
  let commitmentText ← text (get data "commitment_digest")
  let commitmentDigest : D ← digest commitmentText
  requireWire (genesis = sha [utf8 ("evidence-braid-ledger:v" ++ String.ofList (ledgerVersion.toList.take 1))])
    "genesis/version mismatch"
  requireWire (entryCount = 0 → headDigest = genesis ∧ rootHash = tagged 'E' []) "inconsistent empty commitment"
  -- all that follows the first field and its comma, up to the end of the node
  let body := (bytes.take (stopOf node)).drop (stopOf (get data "commitment_digest") + 1)
  requireWire (tagged 'C' [utf8 "\x7b", body] = commitmentDigest) "commitment digest mismatch"
  .ok ⟨ledgerVersion, entryCount, genesis, headDigest, rootHash, commitmentDigest⟩

/-! ## The route -/

/-- `while (split * 2 < width) split *= 2`. -/
def doubled (width split : ℕ) : ℕ :=
  if _h : 0 < split ∧ split * 2 < width then doubled width (split * 2) else split
termination_by width - split

theorem doubled_spec {width split : ℕ} (hpos : 0 < split) (hlt : split < width) :
    split ≤ doubled width split ∧ doubled width split < width ∧ width ≤ doubled width split * 2 := by
  induction hk : width - split using Nat.strong_induction_on generalizing split with
  | _ k ih =>
    rw [doubled]
    by_cases h : split * 2 < width
    · rw [dif_pos ⟨hpos, h⟩]
      have hnext := ih (width - split * 2) (by omega) (by omega) h rfl
      exact ⟨by omega, hnext.2⟩
    · rw [dif_neg fun hboth => h hboth.2]
      exact ⟨le_rfl, hlt, by omega⟩

/-- The loop over the intervals, from the root down: `true` where the sibling is on the left. -/
def leftSiblings (width position : ℕ) : List Bool :=
  if _h : 1 < width then
    let split := doubled width 1
    if split ≤ position then true :: leftSiblings (width - split) (position - split)
    else false :: leftSiblings split position
  else []
termination_by width
decreasing_by
  · have := doubled_spec Nat.one_pos _h
    omega
  · exact (doubled_spec Nat.one_pos _h).2.1

omit [DecidableEq D] in
variable (leftSibling : List Bool) in
/-- The loop over the sibling hashes, from an index on. -/
def ascend (index : ℕ) (rootHash : D) : List D → D
  | [] => rootHash
  | hash :: hashes =>
    let left := leftSibling[leftSibling.length - index - 1]?.getD false
    ascend (index + 1) (if left then join hash rootHash else join rootHash hash) hashes

/-! ## Membership -/

/-- The loop over the siblings: `siblings.value.map((item) => digest(text(item)))`. -/
def siblingHashes : List ReceiptWire.Node → Wire (List D)
  | [] => .ok []
  | item :: items => do
    let value ← text (some item)
    let hash ← digest value
    let hashes ← siblingHashes items
    .ok (hash :: hashes)

/-- The items of an array node. -/
def items (node : Option ReceiptWire.Node) (message : String) : Wire (List ReceiptWire.Node) :=
  match node with
  | some (.array value _) => .ok value
  | _ => .error ⟨message⟩

/-- The loop over the members, after a position and so many bytes of receipts. -/
def checkMembers (bytes : Bytes) (commitment : Header D) (previous : ℤ) (receiptBytes : ℕ) :
    List ReceiptWire.Node → Wire (List (Receipt D))
  | [] => .ok []
  | member :: members => do
    let proof ← fields (some member) ["entry", "siblings"] []
    let entry := get proof "entry"
    let receiptBytes := receiptBytes + lengthOf entry
    requireWire (receiptBytes ≤ RECEIPT_LIMIT) "selected receipts exceed 16 MiB"
    let siblings ← items (get proof "siblings") "invalid sibling array bound"
    requireWire (siblings.length ≤ 17) "invalid sibling array bound"
    let hashes : List D ← siblingHashes siblings
    let result : Receipt D ← receipt bytes entry commitment.ledgerVersion
    requireWire (previous < result.sequence ∧ result.sequence < commitment.entryCount)
      "member positions must strictly increase within the commitment"
    requireWire (result.sequence = 0 → result.previousDigest = commitment.genesis)
      "first receipt does not follow genesis"
    requireWire ((result.sequence : ℤ) = commitment.entryCount - 1 → result.receiptDigest = commitment.headDigest)
      "last receipt differs from committed head"
    let leftSibling := leftSiblings commitment.entryCount result.sequence
    requireWire (hashes.length = leftSibling.length) "sibling count differs from exact tree route"
    let leaf : D := tagged 'L' [utf8 ("\x7b\"ledger_version\":\"" ++ commitment.ledgerVersion ++ "\",\"receipt\":"),
      spanOf bytes entry, utf8 "\x7d"]
    requireWire (ascend leftSibling 0 leaf hashes = commitment.rootHash)
      "membership path does not reproduce committed root"
    let results ← checkMembers bytes commitment result.sequence receiptBytes members
    .ok (result :: results)

/-- What `verifyLedgerMembership` returns. -/
structure Report (D : Type) where
  ledgerVersion : String
  entryCount : ℕ
  commitmentDigest : D
  members : List (Receipt D)

/-- `verifyLedgerMembership`. -/
def verifyLedgerMembership (log : Log10) (raw : Bytes) (expectedCommitmentDigest : String) :
    Except LedgerVerificationError (Report D) := verified do
  let expected : D ← digest expectedCommitmentDigest
  let (bytes, root) ← readCanonicalWire log raw MAX_BYTES
  let data ← fields (some root) ["commitment", "kind", "members", "schema_version"] []
  let kind ← text (get data "kind")
  let schemaVersion ← text (get data "schema_version")
  requireWire (kind = "evidence-braid-ledger-membership" ∧ schemaVersion = "1.0")
    "unsupported membership profile"
  let commitment : Header D ← header bytes (get data "commitment")
  requireWire (commitment.commitmentDigest = expected) "commitment differs from external anchor"
  let members ← items (get data "members") "membership requires 1..1000 members"
  requireWire (1 ≤ members.length ∧ members.length ≤ 1000) "membership requires 1..1000 members"
  let results ← checkMembers bytes commitment (-1) 0 members
  .ok ⟨commitment.ledgerVersion, commitment.entryCount, expected, results⟩

end NodeMembership

end EvidenceBraid
