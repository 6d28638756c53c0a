import EvidenceBraid.EpistemicCodec
import EvidenceBraid.Library.Sqlite
import EvidenceBraid.StoreRun

/-!
# The SQLite case store

`case_storage.py`: five tables that hold one case, the reader that checks them all, and the
writer behind claims, finishes and checked verdicts. The actions are programs of the runner
(`caseRun`); what they check and what they write are functions of the tables that they read.
-/

namespace EvidenceBraid

open Hashing Transaction Sqlite
open Json (WellKeyed)

def maxCaseReceipt : ℕ := 20 * 1024

def maxCaseOperations : ℕ := 3

def maxCaseOperationBytes : ℕ := 8192

def maxAssertion : ℕ := 64 * 1024

def maxInput : ℕ := 256 * 1024

def maxOutput : ℕ := 4096

def maxTotalPayload : ℕ := 512 * 1024

def maxCaseContext : ℕ := 8192

def maxCaseMeta : ℕ := 8192

variable {D : Type} [Hashing D]

/-- The digest of `_DOMAIN`, a tag and a content. -/
def caseStoreHash (tag : Char) (content : Bytes) : D :=
  sha256 (Utf8.encode "evidence-braid:case-store:v1".toList ++ 0 :: Utf8.encode [tag] ++ content)

/-- `_digest`. -/
def caseStoreDigest (tag : Char) (value : Json) : D := caseStoreHash tag (canonicalBytes value)

/-! ## Documents -/

/-- `json.loads` without floating-point numbers. -/
def caseHooks : Json.Hooks := ⟨fun t => some t.toInt, fun _ => none⟩

/-- `type(value) is dict`. -/
def isObject : Json → Bool
  | .obj _ => true
  | _ => false

/-- `_parse`. -/
def caseParse (raw : Bytes) (maximum : ℕ) : Result Json := do
  valid (raw.length ≤ maximum) "case store document exceeds its BLOB bound"
  let value ← orError ((Utf8.decode raw).bind (Json.loads caseHooks))
    (.inputFormat "invalid case store document")
  valid (isObject value = true ∧ canonicalBytes value = raw)
    "case store document is not a canonical object"
  .ok value

/-- `_fields`. -/
def caseStoreFields (value : Json) (names : List String) : Result (List (String × Json)) :=
  wrapping PyError.isValidationError "case store document has unsupported fields"
    (exactly value names "")

/-! ## Checkpoints -/

/-- `CaseStoreCheckpoint`. -/
structure CaseStoreCheckpoint (D : Type) where
  contextDigest : D
  recordCount : ℕ
  caseHead : D
  operationCount : ℕ
  operationHead : D
  generation : ℕ
  records_range : 1 ≤ recordCount ∧ recordCount ≤ 3
  operations_le : operationCount ≤ 3
  generation_eq : generation = operationCount
  deriving DecidableEq

namespace CaseStoreCheckpoint

def fields : List String :=
  ["case_head", "context_digest", "generation", "operation_count", "operation_head",
    "record_count", "schema_version"]

def items (c : CaseStoreCheckpoint D) : List (String × Json) :=
  [("schema_version", .str "1.0"), ("context_digest", .str (hex c.contextDigest)),
    ("record_count", .int c.recordCount), ("case_head", .str (hex c.caseHead)),
    ("operation_count", .int c.operationCount), ("operation_head", .str (hex c.operationHead)),
    ("generation", .int c.generation)]

/-- `to_dict`. -/
def toDict (c : CaseStoreCheckpoint D) : Json := Json.dict c.items

/-- A hash of a checkpoint. -/
def hashOf (value : Option Json) : Result D :=
  wrapping PyError.isValidationError "invalid case store checkpoint hash" (hashField value "")

/-- A count of a checkpoint. -/
def countOf (value : Option Json) (minimum : ℕ) : Result ℕ :=
  wrapping PyError.isValidationError "invalid case store checkpoint count"
    (integerField value "" 3 minimum)

/-- The constructor, from fields of the right types. -/
def make (contextDigest : D) (recordCount : ℕ) (caseHead : D) (operationCount : ℕ)
    (operationHead : D) (generation : ℕ) : Result (CaseStoreCheckpoint D) :=
  if h : (1 ≤ recordCount ∧ recordCount ≤ 3) ∧ operationCount ≤ 3 ∧ generation = operationCount then
    .ok ⟨contextDigest, recordCount, caseHead, operationCount, operationHead, generation, h.1, h.2.1,
      h.2.2⟩
  else .error (.validation "invalid case store checkpoint count")

/-- `from_dict`. -/
def fromDict (value : Json) : Result (CaseStoreCheckpoint D) := do
  let data ← caseStoreFields value fields
  valid (Json.get? data "schema_version" = some (.str "1.0")) "unsupported case checkpoint version"
  let contextDigest ← hashOf (Json.get? data "context_digest")
  let caseHead ← hashOf (Json.get? data "case_head")
  let operationHead ← hashOf (Json.get? data "operation_head")
  let recordCount ← countOf (Json.get? data "record_count") 1
  let operationCount ← countOf (Json.get? data "operation_count") 0
  let generation ← countOf (Json.get? data "generation") 0
  make contextDigest recordCount caseHead operationCount operationHead generation

end CaseStoreCheckpoint

/-! ## Tables -/

/-- A row of `case_payloads`, whose primary key SQLite lets be `NULL`. -/
structure PayloadRow where
  role : Option Cell
  artifactId : Cell
  digest : Cell
  content : Cell
  deriving DecidableEq

namespace PayloadRow

/-- The storage classes in their order. -/
def rank : Option Cell → ℕ
  | none => 0
  | some (.integer _) | some (.real _) => 1
  | some (.text _) => 2
  | some (.blob _) => 3

/-- `ORDER BY role` of a unique `TEXT` column. -/
def Before (a b : PayloadRow) : Prop :=
  rank a.role < rank b.role ∨ match a.role, b.role with
    | none, none => True
    | some (.text x), some (.text y) => x.map UInt8.toNat < y.map UInt8.toNat
    | some (.blob x), some (.blob y) => x.map UInt8.toNat < y.map UInt8.toNat
    | _, _ => False

instance (a b : PayloadRow) : Decidable (Before a b) := by
  unfold Before
  split <;> infer_instance

end PayloadRow

/-- The content of the five tables under the schema's constraints. The columns of an operation are
`operation_id` and `document`. -/
structure CaseTables where
  context : Option Cell
  receipts : Table Cell
  payloads : List PayloadRow
  operations : Table (Cell × Cell)
  metadata : Option Cell
  payloads_sorted : payloads.Pairwise PayloadRow.Before
  operations_unique : (operations.values.map Prod.fst).Nodup

namespace CaseTables

theorem ext_fields {s t : CaseTables} (hcontext : s.context = t.context)
    (hreceipts : s.receipts = t.receipts) (hpayloads : s.payloads = t.payloads)
    (hoperations : s.operations = t.operations) (hmetadata : s.metadata = t.metadata) : s = t := by
  cases s; cases t; simp_all

def integrityError : PyError := .runtime "constraint failed"

/-- `INSERT INTO case_receipts`. -/
def insertReceipt (sequence : ℕ) (document : Bytes) (t : CaseTables) : Result CaseTables := do
  let receipts ← orError (t.receipts.insert sequence (.blob document)) integrityError
  .ok { t with receipts := receipts }

/-- `INSERT INTO case_payloads`. -/
def insertPayload (row : PayloadRow) (t : CaseTables) : Result CaseTables :=
  let payloads := t.payloads.takeWhile (fun r => decide (r.Before row)) ++
    row :: t.payloads.dropWhile fun r => decide (r.Before row)
  if h : payloads.Pairwise PayloadRow.Before then
    .ok { t with payloads := payloads, payloads_sorted := h }
  else .error integrityError

/-- `INSERT INTO case_operations`. -/
def insertOperation (sequence : ℕ) (operationId : String) (document : Bytes) (t : CaseTables) :
    Result CaseTables := do
  let operations ← orError (t.operations.insert sequence
    (.text (Utf8.encode operationId.toList), .blob document)) integrityError
  if h : (operations.values.map Prod.fst).Nodup then
    .ok { t with operations := operations, operations_unique := h }
  else .error integrityError

/-- `UPDATE case_meta SET document=? WHERE singleton=1`. -/
def updateMeta (document : Bytes) (t : CaseTables) : Result CaseTables :=
  .ok { t with metadata := t.metadata.map fun _ => .blob document }

end CaseTables

/-- The text of a `TEXT` value. -/
def cellText : Cell → Result String
  | .text bytes => orError ((Utf8.decode bytes).map String.ofList)
      (.runtime "Could not decode to UTF-8 column")
  | _ => .error (.validation "case store payload role differs")

/-- The bytes of a `BLOB`. -/
def cellBytes : Cell → Result Bytes
  | .blob bytes => .ok bytes
  | _ => .error (.validation "case store document exceeds its BLOB bound")

/-! ## What is read -/

/-- `StoredCase`. -/
structure StoredCase (D : Type) [Hashing D] where
  journal : CaseJournal D
  checkpoint : CaseStoreCheckpoint D
  assertionBytes : Bytes
  inputBytes : Bytes
  observedBytes : Option Bytes
  pendingRequestId : Option Identifier

/-- `CaseStoreCommit`. -/
structure CaseStoreCommit (D : Type) [Hashing D] where
  operationId : Identifier
  requestDigest : D
  previous : CaseStoreCheckpoint D
  result : StoredCase D

/-- The adapter of a claim: its test, its name, its version and its observer. -/
structure AdapterKey where
  testId : Identifier
  adapterId : Identifier
  adapterVersion : Identifier
  observerId : Identifier
  deriving DecidableEq

namespace AdapterKey

def toJson (k : AdapterKey) : Json :=
  .arr [.str k.testId.value, .str k.adapterId.value, .str k.adapterVersion.value,
    .str k.observerId.value]

end AdapterKey

/-- `_Read`. -/
structure CaseRead (D : Type) [Hashing D] where
  snapshot : StoredCase D
  operations : List (CaseStoreCommit D)
  claimedAdapterKey : Option AdapterKey

/-! ## Contexts and operations -/

/-- `_context`, of the plan and the digest of its receipt. -/
def caseContextItems (authorityDigest : D) (plan : CasePlan D) (planHead : D) :
    List (String × Json) :=
  [("kind", .str "evidence-braid-case-store-context"), ("schema_version", .str "1.0"),
    ("authority_digest", .str (hex authorityDigest)), ("case_id", .str plan.caseId.value),
    ("plan_head", .str (hex planHead)), ("plan_digest", .str (hex plan.digest)),
    ("assertion_artifact_id", .str plan.assertionArtifactId.value),
    ("input_artifact_id", .str plan.inputArtifactId.value)]

def caseContext (authorityDigest : D) (plan : CasePlan D) (planHead : D) : Json :=
  Json.dict (caseContextItems authorityDigest plan planHead)

/-- `_genesis`. -/
def caseStoreGenesis (context : Json) (planHead : D) : CaseStoreCheckpoint D where
  contextDigest := caseStoreDigest 'C' context
  recordCount := 1
  caseHead := planHead
  operationCount := 0
  operationHead := caseStoreHash 'G' (fromhex (caseStoreDigest 'C' context : D))
  generation := 0
  records_range := by simp
  operations_le := by simp
  generation_eq := rfl

/-- The fields of a request that are its type's own. -/
structure RequestDetails where
  operationType : Json
  adapterKey : Json
  payloadDigest : Json
  status : Json
  recordDigest : Json
  evaluatorId : Json
  deriving DecidableEq

/-- `_request_content`. -/
def requestItems (details : RequestDetails) (operationId requestId : Identifier)
    (expected : CaseStoreCheckpoint D) : List (String × Json) :=
  [("operation_type", details.operationType), ("operation_id", .str operationId.value),
    ("request_id", .str requestId.value), ("expected", expected.toDict),
    ("adapter_key", details.adapterKey), ("payload_digest", details.payloadDigest),
    ("status", details.status), ("record_digest", details.recordDigest),
    ("evaluator_id", details.evaluatorId)]

/-- The digest of a request. -/
def caseRequestDigest (details : RequestDetails) (operationId requestId : Identifier)
    (expected : CaseStoreCheckpoint D) : D :=
  caseStoreDigest 'Q' (Json.dict (requestItems details operationId requestId expected))

/-- The document of an operation, without its digest. -/
def operationItems (details : RequestDetails) (operationId requestId : Identifier)
    (before : CaseStoreCheckpoint D) (recordCount : ℕ) (caseHead : D) : List (String × Json) :=
  [("kind", Json.str "evidence-braid-case-store-operation"), ("schema_version", Json.str "1.0"),
    ("sequence", Json.int before.operationCount)] ++
  requestItems details operationId requestId before ++
  [("request_digest", Json.str (hex (caseRequestDigest details operationId requestId before))),
    ("result_record_count", Json.int recordCount), ("result_case_head", Json.str (hex caseHead)),
    ("previous_digest", Json.str (hex before.operationHead))]

/-- `_operation`: the document's bytes and the checkpoint after it. -/
def caseOperation (details : RequestDetails) (operationId requestId : Identifier)
    (before : CaseStoreCheckpoint D) (journal : CaseJournal D) :
    Result (Bytes × CaseStoreCheckpoint D) := do
  let items := operationItems details operationId requestId before journal.receipts.length
    journal.headDigest
  let digest : D := caseStoreDigest 'O' (Json.dict items)
  let raw := canonicalBytes (Json.dict (items ++ [("digest", Json.str (hex digest))]))
  valid (raw.length ≤ maxCaseOperationBytes) "case operation exceeds byte limit"
  let after ← CaseStoreCheckpoint.make before.contextDigest journal.receipts.length
    journal.headDigest (before.operationCount + 1) digest (before.generation + 1)
  .ok (raw, after)

/-! ## Admission -/

/-- `_admit` of all tables and `_admit_text_metadata`. -/
def admitCase (t : CaseTables) : Result Unit := do
  let exceeds := "case store table exceeds closed BLOB bounds"
  valid (admitted Cell.isBlob t.context.toList 1 maxCaseContext maxCaseContext) exceeds
  valid (admitted Cell.isBlob t.receipts.values 3 maxCaseReceipt maxCaseWireBytes) exceeds
  valid (admitted Cell.isBlob (t.payloads.map (·.content)) 3 maxInput maxTotalPayload) exceeds
  valid (admitted Cell.isBlob (t.operations.values.map Prod.snd) maxCaseOperations
    maxCaseOperationBytes (maxCaseOperations * maxCaseOperationBytes)) exceeds
  valid (admitted Cell.isBlob t.metadata.toList 1 maxCaseMeta maxCaseMeta) exceeds
  valid ((t.payloads.all fun r => r.role.isSome) ∧
      admitted Cell.isText (t.payloads.filterMap (·.role)) 3 16 (3 * 16) ∧
      admitted Cell.isText (t.payloads.map (·.artifactId)) 3 128 (3 * 128) ∧
      admitted Cell.isText (t.payloads.map (·.digest)) 3 64 (3 * 64))
    "case store payload metadata bounds differ"
  valid (admitted Cell.isText (t.operations.values.map Prod.fst) maxCaseOperations 128
    (maxCaseOperations * 128)) "case store operation metadata bounds differ"

/-! ## Payloads -/

/-- `_output`, under the fixed observation limits. -/
def checkedOutput (raw : Bytes) (inputTotal : ℕ) : Result Bytes := do
  valid (raw.length ≤ maxOutput) "adapter output must be bounded built-in bytes"
  valid (inputTotal + raw.length ≤ maxTotalPayload)
    "retained observation exceeds the total byte bound"
  let text ← orError ((Utf8.decode raw).map String.ofList)
    (.validation "adapter output is not strict UTF-8")
  valid (isXmlCharacter text = true) "adapter output has unsupported text"
  .ok raw

/-- The payloads that are read so far. -/
structure CasePayloads where
  assertion : Option Bytes
  input : Option Bytes
  output : Option Bytes

/-- The columns of a payload row. -/
def decodePayload (row : PayloadRow) : Result (String × String × String × Bytes) := do
  let role ← orError row.role (.validation "case store payload role differs")
  let role ← cellText role
  let artifactId ← cellText row.artifactId
  let digest ← cellText row.digest
  let content ← cellBytes row.content
  .ok (role, artifactId, digest, content)

/-- The columns of the payload rows. -/
def decodePayloads : List PayloadRow → Result (List (String × String × String × Bytes))
  | [] => .ok []
  | row :: rows => do
    let columns ← decodePayload row
    let rest ← decodePayloads rows
    .ok (columns :: rest)

/-- What a payload is committed to, and how long it may be. -/
structure PayloadCommitment (D : Type) where
  artifactId : Identifier
  digest : D
  maximum : ℕ

/-- The observation that an output belongs to. -/
def outputCommitment (records : List (CaseRecord D)) : Result (PayloadCommitment D) :=
  match (records[1]? : Option (CaseRecord D)) with
  | some (.observation o) =>
    if o.status = .observed then
      match o.artifactId, o.observedSha256 with
      | some artifactId, some digest => .ok ⟨artifactId, digest, maxOutput⟩
      | _, _ => .error (.validation "failed observation has output BLOB")
    else .error (.validation "failed observation has output BLOB")
  | _ => .error (.validation "orphan output BLOB")

variable [DecidableEq D]

/-- The content of a payload row that keeps to its commitment. -/
def committedContent (expected : PayloadCommitment D)
    (row : String × String × String × Bytes) : Result Bytes := do
  let (role, artifactId, digest, content) := row
  valid (content.length ≤ expected.maximum)
    ("stored " ++ role ++ " requires bounded built-in bytes")
  valid (artifactId = expected.artifactId.value ∧ digest = hex expected.digest ∧
    hex (sha256 content : D) = digest) "case store payload commitment differs"
  .ok content

/-- One row of the loop over the payloads. -/
def readPayload (plan : CasePlan D) (records : List (CaseRecord D)) (p : CasePayloads)
    (row : String × String × String × Bytes) : Result CasePayloads :=
  if row.1 = "assertion" ∧ p.assertion = none then do
    let content ← committedContent ⟨plan.assertionArtifactId, plan.assertionSha256, maxAssertion⟩ row
    .ok { p with assertion := some content }
  else if row.1 = "input" ∧ p.input = none then do
    let content ← committedContent ⟨plan.inputArtifactId, plan.inputSha256, maxInput⟩ row
    .ok { p with input := some content }
  else if row.1 = "output" ∧ p.output = none then do
    let expected ← outputCommitment records
    let content ← committedContent expected row
    .ok { p with output := some content }
  else .error (.validation "case store payload role differs")

/-- The loop over the payloads. -/
def readPayloads (plan : CasePlan D) (records : List (CaseRecord D)) (p : CasePayloads) :
    List (String × String × String × Bytes) → Result CasePayloads
  | [] => .ok p
  | row :: rows => do
    let q ← readPayload plan records p row
    readPayloads plan records q rows

/-- The stored bytes of a case. -/
structure RetainedBytes where
  assertion : Bytes
  input : Bytes
  output : Option Bytes

/-- Whether the records hold a successful observation. -/
def hasOutput (records : List (CaseRecord D)) : Option Bool :=
  match (records[1]? : Option (CaseRecord D)) with
  | some (.observation o) => some (decide (o.status = .observed))
  | _ => none

/-- The payload part of `_read`. -/
def readRetained (plan : CasePlan D) (records : List (CaseRecord D)) (rows : List PayloadRow) :
    Result RetainedBytes := do
  let decoded ← decodePayloads rows
  valid (decoded.length = 2 ∨ decoded.length = 3) "case store payload inventory differs"
  let p ← readPayloads plan records ⟨none, none, none⟩ decoded
  let assertion ← orError p.assertion
    (.validation "case store retained input inventory differs")
  let input ← orError p.input (.validation "case store retained input inventory differs")
  valid (assertion.length + input.length + (p.output.getD []).length ≤ maxTotalPayload)
    "case store retained input inventory differs"
  match hasOutput records with
  | none => .ok ⟨assertion, input, p.output⟩
  | some observed => do
    valid (observed = p.output.isSome) "observation and stored output differ"
    match p.output with
    | none => .ok ⟨assertion, input, none⟩
    | some output => do
      let output ← checkedOutput output (assertion.length + input.length)
      .ok ⟨assertion, input, some output⟩

/-! ## Operations -/

/-- What the loop over the operations carries. -/
structure OperationState (D : Type) [Hashing D] where
  checkpoint : CaseStoreCheckpoint D
  commits : List (CaseStoreCommit D)
  pending : Option Identifier
  claimedKey : Option AdapterKey

/-- What the loop over the operations looks up. -/
structure OperationContext (D : Type) [Hashing D] where
  authority : CaseAuthority
  planHead : D
  plan : CasePlan D
  journal : CaseJournal D
  retained : RetainedBytes

def operationFields : List String :=
  ["adapter_key", "digest", "evaluator_id", "expected", "kind", "operation_id", "operation_type",
    "payload_digest", "previous_digest", "record_digest", "request_digest", "request_id",
    "result_case_head", "result_record_count", "schema_version", "sequence", "status"]

/-- A member of an operation's document, all of which are there. -/
def member (node : List (String × Json)) (name : String) : Json := (Json.get? node name).getD .null

/-- The fields of a stored operation that are its type's own. -/
def detailsOf (node : List (String × Json)) : RequestDetails where
  operationType := member node "operation_type"
  adapterKey := member node "adapter_key"
  payloadDigest := member node "payload_digest"
  status := member node "status"
  recordDigest := member node "record_digest"
  evaluatorId := member node "evaluator_id"

/-- The adapter that a stored claim names. -/
def adapterKeyOf (plan : CasePlan D) (value : Json) : Result AdapterKey :=
  match value with
  | .arr [.str testId, .str adapterId, .str adapterVersion, .str observerId] => do
    valid (testId = plan.testId.value ∧ adapterId = plan.adapterId.value ∧
      adapterVersion = plan.adapterVersion.value) "case claimed adapter differs"
    let observerId ← wrapping PyError.isValidationError "case claimed observer lacks authority"
      (identifier observerId "")
    .ok ⟨plan.testId, plan.adapterId, plan.adapterVersion, observerId⟩
  | _ => .error (.validation "case claimed adapter differs")

/-- The `claim` branch. -/
def checkClaim (c : OperationContext D) (s : OperationState D) (sequence : ℕ)
    (operationId requestId : Identifier) (node : List (String × Json)) :
    Result (Option Identifier × Option AdapterKey) := do
  let details := detailsOf node
  valid (sequence = 0 ∧ requestId = operationId ∧ s.pending = none ∧
    member node "result_record_count" = .int 1 ∧
    member node "result_case_head" = .str (hex c.planHead) ∧ details.payloadDigest = .null ∧
    details.status = .null ∧ details.recordDigest = .null ∧ details.evaluatorId = .null)
    "case claim structure differs"
  let key ← adapterKeyOf c.plan details.adapterKey
  valid (c.authority.admits key.observerId (· = .tool) c.plan.scope .observe ∧
    key.observerId ≠ c.plan.proposerId) "case claimed observer lacks authority"
  .ok (some requestId, some key)

/-- The `finish` branch. -/
def checkFinish (c : OperationContext D) (s : OperationState D) (sequence : ℕ)
    (requestId : Identifier) (node : List (String × Json)) :
    Result (Option Identifier × Option AdapterKey) := do
  let details := detailsOf node
  let receipt ← orError c.journal.receipts[1]? (.validation "case finish receipt missing")
  valid (sequence = 1 ∧ s.pending = some requestId ∧ details.adapterKey = .null ∧
    details.evaluatorId = .null ∧ member node "result_record_count" = .int 2)
    "case finish structure differs"
  match receipt.record with
  | .observation o => do
    valid (o.requestId = requestId ∧ details.recordDigest = .str (hex o.digest) ∧
      member node "result_case_head" = .str (hex receipt.digest) ∧
      details.status = .str o.status.value ∧
      details.payloadDigest = takenJson hex o.observedSha256) "case finish does not bind observation"
    valid (o.status = .observed → ∃ output ∈ c.retained.output,
      o.artifactId.map (·.value) = some ("observed-" ++ hex (sha256 (Utf8.encode
        (hex c.plan.digest).toList ++ Utf8.encode requestId.value.toList ++ output) : D)))
      "case observed artifact identity differs"
    .ok (none, s.claimedKey)
  | _ => .error (.validation "case finish does not bind observation")

/-- The `verdict` branch. -/
def checkVerdict (c : OperationContext D) (s : OperationState D) (sequence : ℕ)
    (requestId : Identifier) (node : List (String × Json)) :
    Result (Option Identifier × Option AdapterKey) := do
  let details := detailsOf node
  let receipt ← orError c.journal.receipts[2]? (.validation "case verdict receipt missing")
  match (c.journal.records[1]? : Option (CaseRecord D)) with
  | some (.observation o) => do
    valid (sequence = 2 ∧ s.pending = none ∧ requestId = o.requestId ∧ details.adapterKey = .null ∧
      details.payloadDigest = .null ∧ details.status = .null ∧
      member node "result_record_count" = .int 3) "case verdict structure differs"
    match receipt.record with
    | .verdict v => do
      valid (details.recordDigest = .str (hex v.digest) ∧
        details.evaluatorId = .str v.evaluatorId.value ∧
        member node "result_case_head" = .str (hex receipt.digest))
        "case verdict operation differs"
      .ok (none, s.claimedKey)
    | _ => .error (.validation "case verdict operation differs")
  | _ => .error (.validation "case verdict structure differs")

/-- The branch of an operation's type. -/
def checkOperation (c : OperationContext D) (s : OperationState D) (sequence : ℕ)
    (operationId requestId : Identifier) (node : List (String × Json)) :
    Result (Option Identifier × Option AdapterKey) :=
  if member node "operation_type" = .str "claim" then
    checkClaim c s sequence operationId requestId node
  else if member node "operation_type" = .str "finish" then
    checkFinish c s sequence requestId node
  else if member node "operation_type" = .str "verdict" then
    checkVerdict c s sequence requestId node
  else .error (.validation "unsupported case store operation type")

/-- The prefix of a journal that an operation results in. -/
def journalPrefix (c : OperationContext D) (count : ℕ) : Result (CaseJournal D) :=
  CaseJournal.make c.authority.digest (c.journal.receipts.take count)

/-- How many records an operation results in. -/
def resultCount (node : List (String × Json)) : ℕ :=
  match member node "result_record_count" with
  | .int n => n.toNat
  | _ => 0

/-- One row of the loop over the operations. -/
def readOperation (c : OperationContext D) (s : OperationState D) (row : ℕ × Cell × Cell) :
    Result (OperationState D) := do
  let sequence := row.1
  let operationText ← cellText row.2.1
  let raw ← cellBytes row.2.2
  valid (sequence = s.commits.length) "case operation sequence differs"
  let document ← caseParse raw maxCaseOperationBytes
  let node ← caseStoreFields document operationFields
  valid (member node "kind" = .str "evidence-braid-case-store-operation" ∧
    member node "schema_version" = .str "1.0" ∧ member node "sequence" = .int sequence ∧
    member node "operation_id" = .str operationText) "case operation header differs"
  let operationId ← identifier operationText "case operation ID"
  let requestId ← identifierField (Json.get? node "request_id") "case request ID"
  let expected ← CaseStoreCheckpoint.fromDict (D := D) (member node "expected")
  valid (expected = s.checkpoint ∧
    member node "previous_digest" = .str (hex s.checkpoint.operationHead))
    "case operation previous checkpoint differs"
  let details := detailsOf node
  let requestDigest := caseRequestDigest details operationId requestId s.checkpoint
  valid (member node "request_digest" = .str (hex requestDigest)) "case request digest differs"
  let (pending, claimedKey) ← checkOperation c s sequence operationId requestId node
  let journal ← journalPrefix c (resultCount node)
  let (operationRaw, after) ← caseOperation details operationId requestId s.checkpoint journal
  valid (raw = operationRaw ∧ member node "digest" = .str (hex after.operationHead))
    "case operation does not bind exact receipt prefix"
  let observed := if member node "operation_type" = .str "claim" then none else c.retained.output
  let historical : StoredCase D :=
    ⟨journal, after, c.retained.assertion, c.retained.input, observed, pending⟩
  .ok ⟨after, s.commits ++ [⟨operationId, requestDigest, s.checkpoint, historical⟩], pending,
    claimedKey⟩

/-- The loop over the operations. -/
def readOperations (c : OperationContext D) (s : OperationState D) :
    List (ℕ × Cell × Cell) → Result (OperationState D)
  | [] => .ok s
  | row :: rows => do
    let t ← readOperation c s row
    readOperations c t rows

/-! ## The reader -/

/-- The receipts of the rows. -/
def readReceipts : List Cell → Result (List (CaseReceipt D))
  | [] => .ok []
  | cell :: cells => do
    let raw ← cellBytes cell
    let document ← caseParse raw maxCaseReceipt
    let receipt ← CaseReceipt.fromDict document
    let rest ← readReceipts cells
    .ok (receipt :: rest)

def contextFields : List String :=
  ["assertion_artifact_id", "authority_digest", "case_id", "input_artifact_id", "kind",
    "plan_digest", "plan_head", "schema_version"]

/-- The context part of `_read`. -/
def readContext (authority : CaseAuthority) (planHead : D) (raw : Bytes) : Result Json := do
  let context ← caseParse raw maxCaseContext
  let data ← caseStoreFields context contextFields
  valid (member data "kind" = .str "evidence-braid-case-store-context" ∧
    member data "schema_version" = .str "1.0" ∧
    member data "authority_digest" = .str (hex (authority.digest : D)) ∧
    member data "plan_head" = .str (hex planHead)) "case store context or authority differs"
  .ok context

/-- The journal part of `_read`: the journal, its plan and the digest of the plan's receipt. -/
def readJournal (authority : CaseAuthority) (receipts : Table Cell) :
    Result (CaseJournal D × CasePlan D × D) := do
  valid (1 ≤ receipts.rows.length ∧ receipts.rows.length ≤ 3 ∧ receipts.Contiguous)
    "case receipt sequence is not contiguous"
  let entries ← readReceipts receipts.values
  let journal ← CaseJournal.make authority.digest entries
  let _ ← replayCase (D := D) journal authority none
  match journal.receipts with
  | receipt :: _ =>
    match receipt.record with
    | .plan plan => .ok (journal, plan, receipt.digest)
    | _ => .error (.validation "case store context differs from exact plan")
  | [] => .error (.validation "case store context differs from exact plan")

/-- `_read`. -/
def readCase (authority : CaseAuthority) (planHead : D) (t : CaseTables) : Result (CaseRead D) := do
  admitCase t
  let contextCell ← orError t.context (.validation "case store singleton missing")
  let metaCell ← orError t.metadata (.validation "case store singleton missing")
  let contextRaw ← cellBytes contextCell
  let context ← readContext authority planHead contextRaw
  let (journal, plan, planDigest) ← readJournal authority t.receipts
  valid (caseContext (authority.digest : D) plan planDigest = context)
    "case store context differs from exact plan"
  let retained ← readRetained plan journal.records t.payloads
  let s ← readOperations ⟨authority, planHead, plan, journal, retained⟩
    ⟨caseStoreGenesis context planHead, [], none, none⟩ t.operations.rows
  let metaRaw ← cellBytes metaCell
  let metaDocument ← caseParse metaRaw maxCaseMeta
  let stored ← CaseStoreCheckpoint.fromDict (D := D) metaDocument
  valid (stored = s.checkpoint ∧ s.checkpoint.recordCount = journal.receipts.length)
    "case store checkpoint differs from its history"
  .ok ⟨⟨journal, s.checkpoint, retained.assertion, retained.input, retained.output, s.pending⟩,
    s.commits, s.claimedKey⟩

/-! ## The writer -/

/-- The type of an operation. -/
inductive CaseOperationType where
  | claim | finish | verdict
  deriving DecidableEq, Repr

namespace CaseOperationType

def value : CaseOperationType → String
  | claim => "claim"
  | finish => "finish"
  | verdict => "verdict"

end CaseOperationType

/-- The arguments of `_write`. -/
structure CaseWrite (D : Type) [Hashing D] where
  operationType : CaseOperationType
  operationId : Identifier
  requestId : Identifier
  expected : CaseStoreCheckpoint D
  adapterKey : Option AdapterKey
  payloadDigest : Option D
  status : Option CaseObservationStatus
  recordDigest : Option D
  evaluatorId : Option Identifier
  record : Option (CaseRecord D)
  output : Option Bytes

namespace CaseWrite

/-- The fields of the request that are its type's own. -/
def details (w : CaseWrite D) : RequestDetails where
  operationType := .str w.operationType.value
  adapterKey := (w.adapterKey.map AdapterKey.toJson).getD .null
  payloadDigest := takenJson hex w.payloadDigest
  status := takenJson CaseObservationStatus.value w.status
  recordDigest := takenJson hex w.recordDigest
  evaluatorId := takenJson Identifier.value w.evaluatorId

/-- The journal and the pending request after the operation. -/
def outcome (authority : CaseAuthority) (current : CaseRead D) (w : CaseWrite D) :
    Result (CaseJournal D × Option Identifier) :=
  let snapshot := current.snapshot
  let before := snapshot.checkpoint
  match w.operationType, w.record with
  | .claim, _ => do
    require (before.operationCount = 0 ∧ snapshot.pendingRequestId = none)
      (.conflict "case observation already claimed")
    .ok (snapshot.journal, some w.requestId)
  | .finish, some (.observation o) => do
    require (before.operationCount = 1 ∧ snapshot.pendingRequestId = some w.requestId)
      (.conflict "case observation claim is not current")
    let journal ← snapshot.journal.append [.observation o] authority
      (some snapshot.journal.checkpoint)
    .ok (journal, none)
  | .finish, _ => .error (.conflict "case observation claim is not current")
  | .verdict, some (.verdict v) => do
    require (before.operationCount = 2) (.conflict "case verdict input is not current")
    let journal ← snapshot.journal.append [.verdict v] authority (some snapshot.journal.checkpoint)
    .ok (journal, none)
  | .verdict, _ => .error (.conflict "case verdict input is not current")

/-- The artifact of an output, which only an observation has. -/
def outputArtifact (w : CaseWrite D) : Result (Option (Identifier × Bytes)) :=
  match w.output with
  | none => .ok none
  | some output =>
    match w.record with
    | some (.observation o) => do
      let artifactId ← orError o.artifactId
        (.validation "output requires a committed observation identity")
      .ok (some (artifactId, output))
    | _ => .error (.validation "output requires a committed observation identity")

end CaseWrite

/-- What a write puts into the tables. -/
structure CasePlanned (D : Type) [Hashing D] where
  commit : CaseStoreCommit D
  receipt : Option (ℕ × Bytes)
  payload : Option PayloadRow
  operation : ℕ × String × Bytes
  metadata : Bytes

/-- The checks of `_write` on what it reads, and what it is going to write. -/
def prepareWrite (authority : CaseAuthority) (w : CaseWrite D) (current : CaseRead D) :
    Result (CasePlanned D) := do
  require (∀ commit ∈ current.operations, commit.operationId ≠ w.operationId)
    (.conflict "case operation ID already consumed; use lookup")
  let before := current.snapshot.checkpoint
  require (before = w.expected) (.conflict "case write checkpoint is stale")
  valid (before.operationCount < maxCaseOperations) "case operation limit reached"
  let (journal, pending) ← w.outcome authority current
  let (raw, after) ← caseOperation w.details w.operationId w.requestId before journal
  let artifact ← w.outputArtifact
  let observed := if w.output.isSome then w.output else current.snapshot.observedBytes
  .ok {
    commit := {
      operationId := w.operationId
      requestDigest := caseRequestDigest w.details w.operationId w.requestId w.expected
      previous := before
      result := ⟨journal, after, current.snapshot.assertionBytes, current.snapshot.inputBytes,
        observed, pending⟩ }
    receipt := if w.record.isSome then
        journal.receipts.getLast?.map fun r =>
          (journal.receipts.length - 1, canonicalBytes r.toDict)
      else none
    payload := artifact.map fun (artifactId, output) =>
      ⟨some (.text (Utf8.encode "output".toList)), .text (Utf8.encode artifactId.value.toList),
        .text (Utf8.encode (hex (sha256 output : D)).toList), .blob output⟩
    operation := (before.operationCount, w.operationId.value, raw)
    metadata := canonicalBytes after.toDict }

abbrev CaseProgram := Program CaseTables CommitOutcome PyError

/-- The statements of a write. -/
def writeRows (p : CasePlanned D) : CaseProgram Unit := do
  match p.receipt with
  | some (sequence, document) => execute (CaseTables.insertReceipt sequence document)
  | none => pure ()
  match p.payload with
  | some row => execute (CaseTables.insertPayload row)
  | none => pure ()
  execute (CaseTables.insertOperation p.operation.1 p.operation.2.1 p.operation.2.2)
  execute (CaseTables.updateMeta p.metadata)

/-- The action of `_write`. -/
def writeAction (authority : CaseAuthority) (planHead : D) (w : CaseWrite D) :
    CaseProgram (CaseStoreCommit D) := do
  let current ← query (readCase authority planHead)
  let planned ← compute (prepareWrite authority w current)
  writeRows planned
  pure planned.commit

/-- The action of `snapshot`. -/
def snapshotAction (authority : CaseAuthority) (planHead : D)
    (expected : Option (CaseStoreCheckpoint D)) : CaseProgram (StoredCase D) := do
  let current ← query (readCase authority planHead)
  compute (require (∀ checkpoint ∈ expected, current.snapshot.checkpoint = checkpoint)
    (.conflict "case store current checkpoint differs"))
  pure current.snapshot

/-- The action of `lookup`. -/
def lookupAction (authority : CaseAuthority) (planHead : D) (operationId : Identifier)
    (expectedRequestDigest : String) : CaseProgram (Option (CaseStoreCommit D)) := do
  let current ← query (readCase authority planHead)
  let found := current.operations.find? fun commit => commit.operationId = operationId
  compute (require (∀ commit ∈ found, hex commit.requestDigest = expectedRequestDigest)
    (.conflict "case operation ID bound to different request"))
  pure found

/-- The action of `lookup_operation`. -/
def lookupOperationAction (authority : CaseAuthority) (planHead : D) (operationId : Identifier) :
    CaseProgram (Option (CaseStoreCommit D)) := do
  let current ← query (readCase authority planHead)
  pure (current.operations.find? fun commit => commit.operationId = operationId)

/-- The action of `_prepare_finish` that asks for the claimed adapter. -/
def claimedKeyAction (authority : CaseAuthority) (planHead : D) :
    CaseProgram (Option AdapterKey) := do
  let current ← query (readCase authority planHead)
  pure current.claimedAdapterKey

end EvidenceBraid
