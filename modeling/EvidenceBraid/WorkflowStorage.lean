import EvidenceBraid.CaseStorageCodec
import EvidenceBraid.WorkflowPrefix

/-!
# The SQLite workflow store

`workflow_storage.py`: four tables that hold one workflow, its context, its receipts, the appends
that brought them and the current checkpoint. The reader recomputes all of it from the receipts; the
writer appends a batch under a request identity at an expected checkpoint.
-/

namespace EvidenceBraid

open Hashing Transaction Sqlite
open Json (WellKeyed)

/-! ## Limits -/

def maxWorkflowAppend : ℕ := 1000

/-- The bound of `_digest`, and of the current checkpoint's document. -/
def maxWorkflowDocument : ℕ := 8192

/-- The fields of `WorkflowStoreLimits`, by their names. -/
structure StoreLimitFields where
  maxBundleBytes : ℕ
  maxRecords : ℕ
  maxReceiptBytes : ℕ
  maxAppendRecords : ℕ
  maxRequestBytes : ℕ
  maxOperations : ℕ
  maxOperationBytes : ℕ
  maxOperationsBytes : ℕ
  deriving DecidableEq

namespace StoreLimitFields

/-- The largest values, which are also the defaults. -/
def largest : StoreLimitFields where
  maxBundleBytes := 64 * 1024 * 1024
  maxRecords := 10000
  maxReceiptBytes := 256 * 1024
  maxAppendRecords := maxWorkflowAppend
  maxRequestBytes := 8 * 1024 * 1024
  maxOperations := 10000
  maxOperationBytes := 8 * 1024
  maxOperationsBytes := 16 * 1024 * 1024

/-- The limits with their names, in the order of the checks. -/
def named (f : StoreLimitFields) : List (String × ℕ) :=
  [("max_bundle_bytes", f.maxBundleBytes), ("max_records", f.maxRecords),
    ("max_receipt_bytes", f.maxReceiptBytes), ("max_append_records", f.maxAppendRecords),
    ("max_request_bytes", f.maxRequestBytes), ("max_operations", f.maxOperations),
    ("max_operation_bytes", f.maxOperationBytes), ("max_operations_bytes", f.maxOperationsBytes)]

/-- Every limit is between one and the largest. -/
def Valid (f : StoreLimitFields) : Prop :=
  List.Forall₂ (fun field largest => 1 ≤ field.2 ∧ field.2 ≤ largest.2) f.named largest.named

instance (f : StoreLimitFields) : Decidable f.Valid := by unfold Valid; infer_instance

theorem largest_valid : largest.Valid := by decide

end StoreLimitFields

/-- `WorkflowStoreLimits`. -/
structure WorkflowStoreLimits extends StoreLimitFields where
  ok : toStoreLimitFields.Valid

namespace WorkflowStoreLimits

/-- The loop of the constructor. -/
def check : List ((String × ℕ) × String × ℕ) → Result Unit
  | [] => .ok ()
  | ((name, value), (_, largest)) :: rest => do
    let _ ← integerField (some (.int value)) name largest 1
    check rest

/-- The constructor. -/
def make (f : StoreLimitFields) : Result WorkflowStoreLimits := do
  check (f.named.zip StoreLimitFields.largest.named)
  if h : f.Valid then .ok ⟨f, h⟩
  else .error (.validation "workflow store limits are out of range")

/-- `WorkflowStoreLimits()`. -/
def default : WorkflowStoreLimits := ⟨.largest, StoreLimitFields.largest_valid⟩

/-- No limit is above the default, as far as commits are checked. -/
theorem le_default (l : WorkflowStoreLimits) : l.maxAppendRecords ≤ maxWorkflowAppend ∧
    l.maxRequestBytes ≤ default.maxRequestBytes := by
  obtain ⟨f, h⟩ := l
  simp only [StoreLimitFields.Valid, StoreLimitFields.named, StoreLimitFields.largest,
    List.forall₂_cons] at h
  exact ⟨h.2.2.2.1.2, h.2.2.2.2.1.2⟩

end WorkflowStoreLimits

variable {D : Type} [Hashing D]

/-! ## Documents -/

/-- `_bytes`. -/
def workflowBytes (value : Json) (maximum : ℕ) : Result Bytes := do
  valid ((canonicalBytes value).length ≤ maximum) "workflow store canonical byte limit exceeded"
  .ok (canonicalBytes value)

/-- `_parse`. -/
def workflowParse (raw : Bytes) : Result Json :=
  wrapping PyError.isValueError "invalid stored workflow canonical JSON" (do
    let chars ← orError (Utf8.decode raw) (.value "invalid UTF-8")
    let value ← LedgerSelection.strictLoads chars
    valid (isObject value = true ∧ canonicalBytes value = raw)
      "stored workflow JSON must be a canonical object"
    .ok value)

/-- `_digest`. -/
def workflowStoreDigest (value : Json) (maximum : ℕ) : Result D := do
  let raw ← workflowBytes value maximum
  .ok (sha256 raw)

/-! ## Checkpoints -/

/-- `WorkflowCheckpoint`. -/
structure WorkflowCheckpoint (D : Type) where
  contextDigest : D
  recordCount : ℕ
  workflowHead : D
  operationCount : ℕ
  operationHead : D
  records_le : recordCount ≤ maxWorkflowRecords
  operations_le : operationCount ≤ recordCount
  head_eq : recordCount = 0 → workflowHead = contextDigest

namespace WorkflowCheckpoint

omit [Hashing D] in
theorem ext_iff_fields {c d : WorkflowCheckpoint D} :
    c = d ↔ c.contextDigest = d.contextDigest ∧ c.recordCount = d.recordCount ∧
      c.workflowHead = d.workflowHead ∧ c.operationCount = d.operationCount ∧
      c.operationHead = d.operationHead := by
  cases c
  cases d
  simp

instance [DecidableEq D] : DecidableEq (WorkflowCheckpoint D) := fun _ _ =>
  decidable_of_iff _ ext_iff_fields.symm

def fields : List String :=
  ["context_digest", "operation_count", "operation_head", "record_count", "schema_version",
    "workflow_head"]

def items (c : WorkflowCheckpoint D) : List (String × Json) :=
  [("schema_version", .str "1.0"), ("context_digest", .str (hex c.contextDigest)),
    ("record_count", .int c.recordCount), ("workflow_head", .str (hex c.workflowHead)),
    ("operation_count", .int c.operationCount), ("operation_head", .str (hex c.operationHead))]

/-- `to_dict`. -/
def toDict (c : WorkflowCheckpoint D) : Json := Json.dict c.items

variable [DecidableEq D]

/-- The constructor, from fields of the right types. -/
def make (contextDigest : D) (recordCount : ℕ) (workflowHead : D) (operationCount : ℕ)
    (operationHead : D) : Result (WorkflowCheckpoint D) := do
  valid (recordCount ≤ maxWorkflowRecords) "record_count must be an integer between 0 and 10000"
  valid (operationCount ≤ recordCount)
    ("operation_count must be an integer between 0 and " ++ toString recordCount)
  if h : recordCount ≤ maxWorkflowRecords ∧ operationCount ≤ recordCount ∧
      (recordCount = 0 → workflowHead = contextDigest) then
    .ok ⟨contextDigest, recordCount, workflowHead, operationCount, operationHead, h.1, h.2.1, h.2.2⟩
  else .error (.validation "empty workflow checkpoint must use its context head")

/-- `from_dict`. -/
def fromDict (value : Json) : Result (WorkflowCheckpoint D) := do
  let data ← exactly value fields "checkpoint"
  valid (Json.get? data "schema_version" = some (.str "1.0"))
    "unsupported workflow checkpoint version"
  let contextDigest ← hashField (Json.get? data "context_digest") "context_digest"
  let workflowHead ← hashField (Json.get? data "workflow_head") "workflow_head"
  let operationHead ← hashField (Json.get? data "operation_head") "operation_head"
  let recordCount ← integerField (Json.get? data "record_count") "record_count" maxWorkflowRecords 0
  let operationCount ← integerField (Json.get? data "operation_count") "operation_count" recordCount 0
  make contextDigest recordCount workflowHead operationCount operationHead

end WorkflowCheckpoint

/-! ## Contexts, requests and operations -/

namespace BundleFields

variable [DecidableEq D]

/-- `_head`, of a count within the records. -/
def headAt (b : BundleFields D) (count : ℕ) : D :=
  if count = 0 then b.contextDigest
  else ((b.records[count - 1]?).map (·.digest)).getD b.contextDigest

/-- The document whose digest begins the chain of operations. -/
def genesisItems (b : BundleFields D) (initialCount : ℕ) : List (String × Json) :=
  [("kind", .str "evidence-braid-workflow-operation-genesis"), ("schema_version", .str "1.0"),
    ("context_digest", .str (hex b.contextDigest)), ("initial_record_count", .int initialCount),
    ("initial_workflow_head", .str (hex (b.headAt initialCount)))]

/-- `_genesis`. -/
def genesis (b : BundleFields D) (initialCount : ℕ) : Result (WorkflowCheckpoint D) := do
  let digest ← workflowStoreDigest (Json.dict (b.genesisItems initialCount)) maxWorkflowDocument
  WorkflowCheckpoint.make b.contextDigest initialCount (b.headAt initialCount) 0 digest

def storeContextItems (b : BundleFields D) (initialCount : ℕ) : List (String × Json) :=
  [("kind", .str "evidence-braid-workflow-store-context"), ("schema_version", .str "1.0"),
    ("workflow_id", .str b.workflowId.value), ("authority_digest", .str (hex b.authorityDigest)),
    ("evidence", b.evidence.toDict), ("artifacts", .arr (b.artifacts.map ArtifactReference.toDict)),
    ("context_digest", .str (hex b.contextDigest)), ("initial_record_count", .int initialCount),
    ("initial_workflow_head", .str (hex (b.headAt initialCount)))]

/-- `_context`. -/
def storeContext (b : BundleFields D) (initialCount : ℕ) : Json :=
  Json.dict (b.storeContextItems initialCount)

end BundleFields

def requestItemsOf (requestId : Identifier) (expected : WorkflowCheckpoint D)
    (transitions : List (WorkflowTransition D)) : List (String × Json) :=
  [("kind", .str "evidence-braid-workflow-request"), ("schema_version", .str "1.0"),
    ("request_id", .str requestId.value), ("expected_checkpoint", expected.toDict),
    ("transitions", .arr (transitions.map WorkflowTransition.toDict))]

/-- `_request_digest`. -/
def workflowRequestDigest (requestId : Identifier) (expected : WorkflowCheckpoint D)
    (transitions : List (WorkflowTransition D)) (limits : WorkflowStoreLimits) : Result D :=
  workflowStoreDigest (Json.dict (requestItemsOf requestId expected transitions))
    limits.maxRequestBytes

/-- An operation's document without its digest. -/
def workflowOperationItems (sequence : ℕ) (requestId : Identifier) (requestDigest : D)
    (previous : WorkflowCheckpoint D) (resultCount : ℕ) (resultHead : D) : List (String × Json) :=
  [("kind", .str "evidence-braid-workflow-operation"), ("schema_version", .str "1.0"),
    ("sequence", .int sequence), ("request_id", .str requestId.value),
    ("request_digest", .str (hex requestDigest)), ("expected_checkpoint", previous.toDict),
    ("result_record_count", .int resultCount), ("result_workflow_head", .str (hex resultHead)),
    ("previous_digest", .str (hex previous.operationHead))]

section Operations

variable [DecidableEq D]

/-- `_operation`: the document and the checkpoint after it. -/
def workflowOperation (requestId : Identifier) (requestDigest : D) (previous : WorkflowCheckpoint D)
    (bundle : BundleFields D) : Result (Json × WorkflowCheckpoint D) := do
  let content := workflowOperationItems previous.operationCount requestId requestDigest previous
    bundle.records.length bundle.headDigest
  let digest ← workflowStoreDigest (Json.dict content) maxWorkflowDocument
  let after ← WorkflowCheckpoint.make bundle.contextDigest bundle.records.length bundle.headDigest
    (previous.operationCount + 1) digest
  .ok (Json.dict (content ++ [("digest", Json.str (hex digest))]), after)

end Operations

/-! ## What is read -/

/-- `StoredWorkflow`: a bundle at its checkpoint. -/
structure StoredWorkflow (D : Type) [Hashing D] [DecidableEq D] where
  bundle : WorkflowBundle D
  checkpoint : WorkflowCheckpoint D
  context_eq : bundle.contextDigest = checkpoint.contextDigest
  count_eq : bundle.records.length = checkpoint.recordCount
  head_eq : bundle.headDigest = checkpoint.workflowHead

/-- `_Operation`. -/
structure WorkflowOperation (D : Type) where
  requestId : Identifier
  requestDigest : D
  previous : WorkflowCheckpoint D
  result : WorkflowCheckpoint D
  deriving DecidableEq

/-- `_Read`. -/
structure WorkflowRead (D : Type) [Hashing D] [DecidableEq D] where
  snapshot : StoredWorkflow D
  operations : List (WorkflowOperation D)
  operationBytes : ℕ
  storedPayloadBytes : ℕ

variable [DecidableEq D]

namespace StoredWorkflow

/-- The constructor. -/
def make (bundle : WorkflowBundle D) (checkpoint : WorkflowCheckpoint D) :
    Result (StoredWorkflow D) :=
  if h : bundle.contextDigest = checkpoint.contextDigest ∧
      bundle.records.length = checkpoint.recordCount ∧
      bundle.headDigest = checkpoint.workflowHead then
    .ok ⟨bundle, checkpoint, h.1, h.2.1, h.2.2⟩
  else .error (.validation "stored workflow does not match its checkpoint")

end StoredWorkflow

/-- The fields of a `WorkflowCommit`. -/
structure CommitFields (D : Type) [Hashing D] [DecidableEq D] where
  requestId : Identifier
  requestDigest : D
  previous : WorkflowCheckpoint D
  result : StoredWorkflow D

namespace CommitFields

/-- The transitions of the receipts that were appended. -/
def appended (c : CommitFields D) : List (WorkflowTransition D) :=
  (c.result.bundle.records.drop c.previous.recordCount).map (·.transition)

/-- The checkpoints describe a nonempty append. -/
def Appends (c : CommitFields D) : Prop :=
  c.previous.contextDigest = c.result.checkpoint.contextDigest ∧
    c.result.checkpoint.operationCount = c.previous.operationCount + 1 ∧
    (c.previous.recordCount < c.result.checkpoint.recordCount ∧
      c.result.checkpoint.recordCount ≤ c.previous.recordCount + maxWorkflowAppend) ∧
    c.result.bundle.headAt c.previous.recordCount = c.previous.workflowHead

instance (c : CommitFields D) : Decidable c.Appends := by unfold Appends; infer_instance

/-- What the constructor establishes. -/
def Valid (c : CommitFields D) : Prop :=
  c.Appends ∧ workflowRequestDigest c.requestId c.previous c.appended .default =
      .ok c.requestDigest ∧
    ∃ document ∈ ((workflowOperation c.requestId c.requestDigest c.previous
      c.result.bundle.toBundleFields).toOption), document.2 = c.result.checkpoint

instance (c : CommitFields D) : Decidable c.Valid := by unfold Valid; infer_instance

end CommitFields

/-- `WorkflowCommit`. -/
structure WorkflowCommit (D : Type) [Hashing D] [DecidableEq D] extends CommitFields D where
  ok : toCommitFields.Valid

namespace WorkflowCommit

/-- The constructor. -/
def make (c : CommitFields D) : Result (WorkflowCommit D) := do
  valid c.Appends "commit checkpoints do not describe a nonempty append"
  let digest ← workflowRequestDigest c.requestId c.previous c.appended .default
  valid (digest = c.requestDigest) "commit request digest does not match its receipt range"
  let _ ← workflowOperation c.requestId c.requestDigest c.previous c.result.bundle.toBundleFields
  if h : c.Valid then .ok ⟨c, h⟩
  else .error (.validation "commit operation head does not bind its result")

end WorkflowCommit

/-! ## Tables -/

/-- The content of the four tables under the schema's constraints. The columns of an operation are
`request_id` and `document`. -/
structure WorkflowTables where
  context : Option Cell
  receipts : Table Cell
  operations : Table (Cell × Cell)
  metadata : Option Cell
  operations_unique : (operations.values.map Prod.fst).Nodup

namespace WorkflowTables

theorem ext_fields {s t : WorkflowTables} (hcontext : s.context = t.context)
    (hreceipts : s.receipts = t.receipts) (hoperations : s.operations = t.operations)
    (hmetadata : s.metadata = t.metadata) : s = t := by
  cases s; cases t; simp_all

def integrityError : PyError := .runtime "constraint failed"

/-- The database whose file has just been reserved. -/
def reserved : WorkflowTables := ⟨none, Table.empty, Table.empty, none, List.nodup_nil⟩

/-- `INSERT INTO workflow_context VALUES (1, ?)`. -/
def insertContext (document : Bytes) (t : WorkflowTables) : Result WorkflowTables := do
  require (t.context = none) integrityError
  .ok { t with context := some (.blob document) }

/-- `INSERT INTO workflow_meta VALUES (1, ?)`. -/
def insertMeta (document : Bytes) (t : WorkflowTables) : Result WorkflowTables := do
  require (t.metadata = none) integrityError
  .ok { t with metadata := some (.blob document) }

/-- `INSERT INTO workflow_receipts`. -/
def insertReceipt (sequence : ℕ) (document : Bytes) (t : WorkflowTables) : Result WorkflowTables := do
  let receipts ← orError (t.receipts.insert sequence (.blob document)) integrityError
  .ok { t with receipts := receipts }

/-- `INSERT INTO workflow_operations`. -/
def insertOperation (sequence : ℕ) (requestId : Identifier) (document : Bytes) (t : WorkflowTables) :
    Result WorkflowTables := do
  let operations ← orError (t.operations.insert sequence
    (.text (Utf8.encode requestId.value.toList), .blob document)) integrityError
  if h : (operations.values.map Prod.fst).Nodup then
    .ok { t with operations := operations, operations_unique := h }
  else .error integrityError

/-- `UPDATE workflow_meta SET document=? WHERE singleton=1`. -/
def updateMeta (document : Bytes) (t : WorkflowTables) : Result WorkflowTables :=
  .ok { t with metadata := t.metadata.map fun _ => .blob document }

/-- `sum(length(document))` of the context. -/
def contextBytes (t : WorkflowTables) : ℕ := (t.context.toList.map Cell.size).sum

/-- `sum(length(document))` of the receipts. -/
def receiptBytes (t : WorkflowTables) : ℕ := (t.receipts.values.map Cell.size).sum

/-- `sum(length(document))` of the operations. -/
def operationBytes (t : WorkflowTables) : ℕ :=
  ((t.operations.values.map Prod.snd).map Cell.size).sum

end WorkflowTables

/-- What a handle is configured with. -/
structure SQLiteWorkflowStore (D : Type) where
  authority : AuthorityPolicy
  contextDigest : D
  limits : WorkflowStoreLimits

namespace SQLiteWorkflowStore

/-! ## The reader -/

/-- The admission pass of `_read`. -/
def admitTables (limits : WorkflowStoreLimits) (t : WorkflowTables) : Result Unit := do
  let exceeds := "workflow database exceeds canonical BLOB type/count/byte limits"
  valid (admitted Cell.isBlob t.context.toList 1 limits.maxBundleBytes limits.maxBundleBytes) exceeds
  valid (admitted Cell.isBlob t.metadata.toList 1 maxWorkflowDocument maxWorkflowDocument) exceeds
  valid (admitted Cell.isBlob t.receipts.values limits.maxRecords limits.maxReceiptBytes
    limits.maxBundleBytes) exceeds
  valid (admitted Cell.isBlob (t.operations.values.map Prod.snd) limits.maxOperations
    limits.maxOperationBytes limits.maxOperationsBytes) exceeds
  valid ((t.operations.values.map Prod.fst).all fun c =>
      c.isText && decide (1 ≤ c.size) && decide (c.size ≤ 128))
    "stored workflow request IDs exceed type/byte limits"
  valid (t.context.isSome ∧ t.metadata.isSome ∧
      t.contextBytes + t.receiptBytes ≤ limits.maxBundleBytes)
    "workflow database context/meta or aggregate byte limits disagree"

def contextFields : List String :=
  ["artifacts", "authority_digest", "context_digest", "evidence", "initial_record_count",
    "initial_workflow_head", "kind", "schema_version", "workflow_id"]

/-- The context's members and the count of its initial records. -/
def readContext (store : SQLiteWorkflowStore D) (raw : Bytes) (recordCount : ℕ) :
    Result (List (String × Json) × ℕ) := do
  let document ← workflowParse raw
  let data ← exactly document contextFields "store context"
  valid (Json.get? data "kind" = some (.str "evidence-braid-workflow-store-context") ∧
      Json.get? data "schema_version" = some (.str "1.0") ∧
      Json.get? data "context_digest" = some (.str (hex store.contextDigest)) ∧
      Json.get? data "authority_digest" = some (.str (hex (store.authority.digest : D))))
    "workflow store context or independent authority does not match"
  let initialCount ← integerField (Json.get? data "initial_record_count") "initial_record_count"
    recordCount 0
  .ok (data, initialCount)

/-- The loop over the receipts, from a sequence number on. -/
def readReceipts (n : ℕ) : List (ℕ × Cell) → Result (List (WorkflowReceipt D))
  | [] => .ok []
  | (sequence, cell) :: rows => do
    valid (sequence = n) "stored workflow receipt sequence is not contiguous"
    let raw ← cellBytes cell
    let document ← workflowParse raw
    let receipt ← WorkflowReceipt.fromDict document
    let receipts ← readReceipts (n + 1) rows
    .ok (receipt :: receipts)

/-- The artifacts' documents. -/
def artifactDocuments (data : List (String × Json)) : Result (List Json) :=
  match Json.get? data "artifacts" with
  | some (.arr documents) => .ok documents
  | _ => .error (.validation "stored workflow artifacts must be an array")

/-- The bundle of the context and the receipts. -/
def readBundle (data : List (String × Json)) (records : List (WorkflowReceipt D)) :
    Result (WorkflowBundle D) := do
  let documents ← artifactDocuments data
  let evidence ← EvidenceLedger.fromDict ((Json.get? data "evidence").getD .null) none
  let artifacts ← decodeItems ArtifactReference.fromDict documents
  let workflowId ← identifierField (Json.get? data "workflow_id") "workflow.workflow_id"
  let authorityDigest ← hashField (Json.get? data "authority_digest") "workflow.authority_digest"
  WorkflowBundle.make ⟨workflowId, authorityDigest, evidence, artifacts, records⟩

def operationFields : List String :=
  ["digest", "expected_checkpoint", "kind", "previous_digest", "request_digest", "request_id",
    "result_record_count", "result_workflow_head", "schema_version", "sequence"]

/-- One row of the loop over the operations, at its place and at the checkpoint before it. -/
def readOperation (store : SQLiteWorkflowStore D) (bundle : BundleFields D) (n : ℕ)
    (checkpoint : WorkflowCheckpoint D) (row : ℕ × Cell × Cell) : Result (WorkflowOperation D) := do
  let sequence := row.1
  let text ← cellText row.2.1
  let raw ← cellBytes row.2.2
  let document ← workflowParse raw
  let node ← exactly document operationFields "operation"
  valid (sequence = n ∧ Json.get? node "sequence" = some (.int sequence))
    "stored workflow operation sequence is not contiguous"
  let requestId ← identifier text "stored request_id"
  let count ← integerField (Json.get? node "result_record_count") "operation result count"
    bundle.records.length (checkpoint.recordCount + 1)
  valid (count - checkpoint.recordCount ≤ store.limits.maxAppendRecords)
    "stored workflow operation exceeds append count limit"
  let requestDigest ← workflowRequestDigest requestId checkpoint
    (((bundle.records.take count).drop checkpoint.recordCount).map (·.transition)) store.limits
  let content := workflowOperationItems sequence requestId requestDigest checkpoint count
    (bundle.headAt count)
  let digest ← workflowStoreDigest (Json.dict content) maxWorkflowDocument
  let expected ← workflowBytes (Json.dict (content ++ [("digest", Json.str (hex digest))]))
    store.limits.maxOperationBytes
  valid (expected = raw) "stored operation does not bind its exact workflow receipt range"
  let after ← WorkflowCheckpoint.make checkpoint.contextDigest count (bundle.headAt count)
    (sequence + 1) digest
  .ok ⟨requestId, requestDigest, checkpoint, after⟩

/-- The loop over the operations: what it read, and the checkpoint that it ends at. -/
def readOperations (store : SQLiteWorkflowStore D) (bundle : BundleFields D) (n : ℕ)
    (checkpoint : WorkflowCheckpoint D) :
    List (ℕ × Cell × Cell) → Result (List (WorkflowOperation D) × WorkflowCheckpoint D)
  | [] => .ok ([], checkpoint)
  | row :: rows => do
    let operation ← readOperation store bundle n checkpoint row
    let (operations, last) ← readOperations store bundle (n + 1) operation.result rows
    .ok (operation :: operations, last)

/-- `_read`. -/
def read (store : SQLiteWorkflowStore D) (t : WorkflowTables) : Result (WorkflowRead D) := do
  admitTables store.limits t
  let contextCell ← orError t.context (.validation "workflow database singleton is missing")
  let contextRaw ← cellBytes contextCell
  let (data, initialCount) ← readContext store contextRaw t.receipts.rows.length
  let records ← readReceipts 0 t.receipts.rows
  let bundle ← readBundle data records
  let _ ← workflowBytes bundle.toDict store.limits.maxBundleBytes
  let _ ← replayWorkflow bundle store.authority none
  let context ← workflowBytes (bundle.storeContext initialCount) store.limits.maxBundleBytes
  valid (context = contextRaw) "stored workflow context is not its exact derived representation"
  let first ← bundle.genesis initialCount
  let (operations, last) ← readOperations store bundle.toBundleFields 0 first t.operations.rows
  let metaCell ← orError t.metadata (.validation "workflow database singleton is missing")
  let metaRaw ← cellBytes metaCell
  let metaDocument ← workflowParse metaRaw
  let stored ← WorkflowCheckpoint.fromDict (D := D) metaDocument
  valid (last = stored ∧ last.recordCount = t.receipts.rows.length ∧
      last.operationCount = t.operations.rows.length)
    "stored workflow checkpoint or operation partition disagrees with history"
  let snapshot ← StoredWorkflow.make bundle last
  .ok ⟨snapshot, operations, t.operationBytes, t.contextBytes + t.receiptBytes⟩

/-! ## The writer -/

/-- `_historical`. -/
def historical (store : SQLiteWorkflowStore D) (current : WorkflowBundle D)
    (operation : WorkflowOperation D) : Result (WorkflowCommit D) := do
  let bundle ← WorkflowBundle.make
    { current.toBundleFields with records := current.records.take operation.result.recordCount }
  let _ ← replayWorkflow bundle store.authority none
  let result ← StoredWorkflow.make bundle operation.result
  WorkflowCommit.make ⟨operation.requestId, operation.requestDigest, operation.previous, result⟩

/-- A request that `_prepare` has admitted. -/
structure Request (D : Type) where
  requestId : Identifier
  expected : WorkflowCheckpoint D
  transitions : List (WorkflowTransition D)
  digest : D

/-- `_prepare`. -/
def prepare (store : SQLiteWorkflowStore D) (transitions : List (WorkflowTransition D))
    (requestId : Identifier) (expected : WorkflowCheckpoint D) : Result (Request D) := do
  let before ← WorkflowCheckpoint.fromDict (D := D) expected.toDict
  require (before.contextDigest = store.contextDigest)
    (.conflict "expected checkpoint belongs to another context")
  valid (1 ≤ transitions.length ∧ transitions.length ≤ store.limits.maxAppendRecords)
    "append requires a bounded nonempty exact tuple/list"
  let supplied ← decodeItems WorkflowTransition.fromDict (transitions.map WorkflowTransition.toDict)
  let digest ← workflowRequestDigest requestId before supplied store.limits
  .ok ⟨requestId, before, supplied, digest⟩

/-- The rows of the receipts. -/
def receiptRows (maximum : ℕ) : List (WorkflowReceipt D) → Result (List Bytes)
  | [] => .ok []
  | r :: rs => do
    let raw ← workflowBytes r.toDict maximum
    let rows ← receiptRows maximum rs
    .ok (raw :: rows)

/-- What an append returns and puts into the tables. -/
structure Planned (D : Type) [Hashing D] [DecidableEq D] where
  commit : WorkflowCommit D
  receipts : List Bytes
  operation : Bytes
  metadata : Bytes

/-- The checks of `append` on what it reads, and what it is going to write. -/
def plan (store : SQLiteWorkflowStore D) (r : Request D) (current : WorkflowRead D) :
    Result (Planned D) := do
  require (current.snapshot.checkpoint = r.expected) (.conflict "append checkpoint is stale")
  valid (r.expected.recordCount + r.transitions.length ≤ store.limits.maxRecords ∧
      r.expected.operationCount < store.limits.maxOperations)
    "workflow append exceeds record or operation limits"
  let candidate ← current.snapshot.bundle.append r.transitions store.authority
  let _ ← workflowBytes candidate.toDict store.limits.maxBundleBytes
  let rows ← receiptRows store.limits.maxReceiptBytes
    (candidate.records.drop r.expected.recordCount)
  valid (current.storedPayloadBytes + (rows.map List.length).sum ≤ store.limits.maxBundleBytes)
    "workflow append exceeds stored aggregate byte limit"
  let (document, after) ← workflowOperation r.requestId r.digest r.expected candidate.toBundleFields
  let raw ← workflowBytes document store.limits.maxOperationBytes
  valid (current.operationBytes + raw.length ≤ store.limits.maxOperationsBytes)
    "workflow append exceeds aggregate operation byte limit"
  let result ← StoredWorkflow.make candidate after
  let commit ← WorkflowCommit.make ⟨r.requestId, r.digest, r.expected, result⟩
  let metadata ← workflowBytes after.toDict maxWorkflowDocument
  .ok ⟨commit, rows, raw, metadata⟩

abbrev StoreProgram := Program WorkflowTables WorkflowFlags PyError

/-- The loop that inserts the receipts. -/
def insertReceipts (n : ℕ) : List Bytes → StoreProgram Unit
  | [] => pure ()
  | row :: rows => do
    execute (WorkflowTables.insertReceipt n row)
    insertReceipts (n + 1) rows

/-- The statements of an append. -/
def writePlanned (p : Planned D) : StoreProgram Unit := do
  insertReceipts p.commit.previous.recordCount p.receipts
  execute (WorkflowTables.insertOperation p.commit.previous.operationCount p.commit.requestId
    p.operation)
  execute (WorkflowTables.updateMeta p.metadata)
  setFlags fun f => { f with dirty := true }

/-- What is answered for an operation that is already stored. -/
def answer (store : SQLiteWorkflowStore D) (digest : D) (current : WorkflowBundle D)
    (operation : WorkflowOperation D) : StoreProgram (WorkflowCommit D) := do
  compute (require (operation.requestDigest = digest)
    (.conflict "request ID is bound to different canonical input"))
  let result ← compute (historical store current operation)
  setFlags fun f => { f with outcome := .complete }
  pure result

/-- The operation of a request identity. -/
def find (current : WorkflowRead D) (requestId : Identifier) : Option (WorkflowOperation D) :=
  current.operations.find? fun operation => operation.requestId = requestId

/-- A first append. -/
def appendFresh (store : SQLiteWorkflowStore D) (r : Request D) (current : WorkflowRead D) :
    StoreProgram (WorkflowCommit D) := do
  let planned ← compute (plan store r current)
  writePlanned planned
  pure planned.commit

/-- The action of `append`. -/
def appendAction (store : SQLiteWorkflowStore D) (r : Request D) : StoreProgram (WorkflowCommit D) := do
  let current ← query (read store)
  match find current r.requestId with
  | some operation => answer store r.digest current.snapshot.bundle operation
  | none => appendFresh store r current

/-- The action of `lookup`. -/
def lookupAction (store : SQLiteWorkflowStore D) (requestId : Identifier) (digest : D) :
    StoreProgram (Option (WorkflowCommit D)) := do
  let current ← query (read store)
  match find current requestId with
  | some operation => do
    let result ← answer store digest current.snapshot.bundle operation
    pure (some result)
  | none => pure none

/-- The action of `snapshot`. -/
def snapshotAction (store : SQLiteWorkflowStore D) (expected : Option (WorkflowCheckpoint D)) :
    StoreProgram (StoredWorkflow D) := do
  let current ← query (read store)
  compute (require (∀ checkpoint ∈ expected, current.snapshot.checkpoint = checkpoint)
    (.conflict "workflow current checkpoint does not match the external anchor"))
  pure current.snapshot

/-! ## Creation -/

/-- The rows of a new store. -/
structure NewRows where
  context : Bytes
  metadata : Bytes
  receipts : List Bytes

/-- `create_workflow_store` up to the reservation of the file. -/
def prepareCreate (store : SQLiteWorkflowStore D) (initial : WorkflowBundle D) (expectedHead : D) :
    Result NewRows := do
  let raw ← workflowBytes initial.toDict store.limits.maxBundleBytes
  let document ← workflowParse raw
  let bundle ← WorkflowBundle.fromDict document store.authority (some expectedHead) none
  valid (bundle.contextDigest = store.contextDigest ∧
      bundle.records.length ≤ store.limits.maxRecords)
    "initial workflow context or record limit does not match"
  let checkpoint ← bundle.genesis bundle.records.length
  let context ← workflowBytes (bundle.storeContext bundle.records.length) store.limits.maxBundleBytes
  let receipts ← receiptRows store.limits.maxReceiptBytes bundle.records
  valid (context.length + (receipts.map List.length).sum ≤ store.limits.maxBundleBytes)
    "initial workflow exceeds stored aggregate byte limit"
  let metadata ← workflowBytes checkpoint.toDict maxWorkflowDocument
  .ok ⟨context, metadata, receipts⟩

/-- The action of `create_workflow_store`, after the schema. -/
def createAction (rows : NewRows) : StoreProgram Unit := do
  execute (WorkflowTables.insertContext rows.context)
  execute (WorkflowTables.insertMeta rows.metadata)
  insertReceipts 0 rows.receipts
  setFlags fun f => { f with dirty := true }

/-! ## Transactions -/

abbrev StoreAction := Action WorkflowTables (Failure PyError)

/-- `_run` of an action on a database, with these faults. -/
def transact {α : Type} (faults : List (Option (Transaction.Fault PyError))) (writable : Bool)
    (action : StoreProgram α) : StoreAction α := fun t =>
  let (result, s) := workflowRun PyError.isValidationError writable action
    ⟨⟨t, t⟩, .start, faults, false⟩
  (result, s.copies.durable)

/-- `append`. -/
def append (store : SQLiteWorkflowStore D) (transitions : List (WorkflowTransition D))
    (requestId : Identifier) (expected : WorkflowCheckpoint D)
    (faults : List (Option (Transaction.Fault PyError))) : StoreAction (WorkflowCommit D) := do
  let r ← Action.lift ((prepare store transitions requestId expected).mapError .validation)
  transact faults true (appendAction store r)

/-- `lookup`. -/
def lookup (store : SQLiteWorkflowStore D) (requestId : Identifier) (digest : D)
    (faults : List (Option (Transaction.Fault PyError))) :
    StoreAction (Option (WorkflowCommit D)) :=
  transact faults false (lookupAction store requestId digest)

/-- `snapshot`. -/
def snapshot (store : SQLiteWorkflowStore D) (expected : Option (WorkflowCheckpoint D))
    (faults : List (Option (Transaction.Fault PyError))) : StoreAction (StoredWorkflow D) :=
  transact faults false (snapshotAction store expected)

/-- `create_workflow_store`, on the database that it has just reserved. -/
def create (store : SQLiteWorkflowStore D) (initial : WorkflowBundle D) (expectedHead : D)
    (faults : List (Option (Transaction.Fault PyError))) : StoreAction Unit := do
  let rows ← Action.lift ((prepareCreate store initial expectedHead).mapError .validation)
  transact faults true (createAction rows)

end SQLiteWorkflowStore

end EvidenceBraid
