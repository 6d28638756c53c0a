import EvidenceBraid.Authority
import EvidenceBraid.LedgerCodec
import EvidenceBraid.Library.Dict

/-!
# Workflow bundles and their replay

`workflow.py`: receipts chain transitions to a context, a bundle holds a verified ledger, the
artifacts and the chain, and `replay_workflow` runs every transition against a trusted policy.
-/

namespace EvidenceBraid

open Hashing
open Json (WellKeyed)

def maxWorkflowBytes : ℕ := 64 * 1024 * 1024

variable {D : Type} [Hashing D]

/-! ## Receipts -/

/-- `WorkflowReceipt`. -/
structure WorkflowReceipt (D : Type) where
  sequence : ℕ
  contextDigest : D
  previousDigest : D
  transition : WorkflowTransition D
  digest : D
  sequence_lt : sequence < maxWorkflowRecords
  deriving DecidableEq

namespace WorkflowReceipt

def contentItems (sequence : ℕ) (contextDigest previousDigest : D)
    (transition : WorkflowTransition D) : List (String × Json) :=
  [("schema_version", .str "1.0"), ("sequence", .int sequence),
    ("context_digest", .str (hex contextDigest)), ("previous_digest", .str (hex previousDigest)),
    ("transition", transition.toDict)]

/-- `_digest(content())`. -/
def contentDigest (sequence : ℕ) (contextDigest previousDigest : D)
    (transition : WorkflowTransition D) : D :=
  sha256 (canonicalBytes (Json.dict (contentItems sequence contextDigest previousDigest transition)))

def fields : List String :=
  ["context_digest", "digest", "previous_digest", "schema_version", "sequence", "transition"]

def items (r : WorkflowReceipt D) : List (String × Json) :=
  contentItems r.sequence r.contextDigest r.previousDigest r.transition ++
    [("digest", Json.str (hex r.digest))]

/-- `to_dict`. -/
def toDict (r : WorkflowReceipt D) : Json := Json.dict r.items

/-- `from_dict` and the constructor. -/
def fromDict (value : Json) : Result (WorkflowReceipt D) := do
  let data ← exactly value fields "receipt"
  valid (Json.get? data "schema_version" = some (.str "1.0"))
    "unsupported workflow receipt version"
  let transition ← WorkflowTransition.fromDict ((Json.get? data "transition").getD .null)
  let sequence ← integerField (Json.get? data "sequence") "receipt.sequence"
    (maxWorkflowRecords - 1) 0
  let contextDigest ← hashField (Json.get? data "context_digest") "receipt.context_digest"
  let previousDigest ← hashField (Json.get? data "previous_digest") "receipt.previous_digest"
  let digest ← hashField (Json.get? data "digest") "receipt.digest"
  if h : sequence < maxWorkflowRecords then
    .ok ⟨sequence, contextDigest, previousDigest, transition, digest, h⟩
  else .error (.validation "receipt.sequence must be an integer between 0 and 9999")

end WorkflowReceipt

/-! ## Bundles -/

/-- What a bundle is built from. -/
structure BundleFields (D : Type) where
  workflowId : Identifier
  authorityDigest : D
  evidence : EvidenceLedger D
  artifacts : List (ArtifactReference D)
  records : List (WorkflowReceipt D)

/-- Receipts that follow each other from a position and a digest on. -/
def LinkedReceipts (context : D) (sequence : ℕ) (previous : D) : List (WorkflowReceipt D) → Prop
  | [] => True
  | r :: rs =>
    (r.sequence = sequence ∧ r.contextDigest = context ∧ r.previousDigest = previous ∧
      r.digest = WorkflowReceipt.contentDigest r.sequence r.contextDigest r.previousDigest
        r.transition) ∧ LinkedReceipts context (sequence + 1) r.digest rs

variable [DecidableEq D]

instance decidableLinkedReceipts (context : D) (sequence : ℕ) (previous : D) :
    ∀ rs : List (WorkflowReceipt D), Decidable (LinkedReceipts context sequence previous rs)
  | [] => inferInstanceAs (Decidable True)
  | r :: rs =>
    have := decidableLinkedReceipts context (sequence + 1) r.digest rs
    inferInstanceAs (Decidable (_ ∧ _))

namespace BundleFields

/-- `context_digest`. -/
def contextDigest (b : BundleFields D) : D :=
  sha256 (canonicalBytes (Json.dict [("kind", .str "evidence-braid-workflow-context"),
    ("schema_version", .str "1.0"), ("workflow_id", .str b.workflowId.value),
    ("authority_digest", .str (hex b.authorityDigest)),
    ("evidence_head", .str (hex b.evidence.headDigest)),
    ("artifacts", .arr (b.artifacts.map ArtifactReference.toDict))]))

/-- `head_digest`. -/
def headDigest (b : BundleFields D) : D :=
  (b.records.getLast?.map (·.digest)).getD b.contextDigest

def fields : List String :=
  ["artifacts", "authority_digest", "context_digest", "evidence", "head_digest", "kind",
    "record_count", "records", "schema_version", "workflow_id"]

def items (b : BundleFields D) : List (String × Json) :=
  [("kind", .str "evidence-braid-workflow-bundle"), ("schema_version", .str "1.0"),
    ("workflow_id", .str b.workflowId.value), ("authority_digest", .str (hex b.authorityDigest)),
    ("evidence", b.evidence.toDict), ("artifacts", .arr (b.artifacts.map ArtifactReference.toDict)),
    ("context_digest", .str (hex b.contextDigest)), ("head_digest", .str (hex b.headDigest)),
    ("record_count", .int b.records.length),
    ("records", .arr (b.records.map WorkflowReceipt.toDict))]

/-- `to_dict`. -/
def toDict (b : BundleFields D) : Json := Json.dict b.items

/-- What the constructor establishes. -/
structure Valid (b : BundleFields D) : Prop where
  verified : b.evidence.verify = true
  artifacts_length : b.artifacts.length ≤ maxWorkflowArtifacts
  artifacts_sorted : (b.artifacts.map (·.artifactId)).Pairwise (· < ·)
  records_length : b.records.length ≤ maxWorkflowRecords
  linked : LinkedReceipts b.contextDigest 0 b.contextDigest b.records
  distinct : (b.records.map (·.transition.transitionId)).Nodup
  size_le : (canonicalBytes b.toDict).length ≤ maxWorkflowBytes

instance (b : BundleFields D) : Decidable b.Valid :=
  decidable_of_iff (b.evidence.verify = true ∧ b.artifacts.length ≤ maxWorkflowArtifacts ∧
      (b.artifacts.map (·.artifactId)).Pairwise (· < ·) ∧ b.records.length ≤ maxWorkflowRecords ∧
      LinkedReceipts b.contextDigest 0 b.contextDigest b.records ∧
      (b.records.map (·.transition.transitionId)).Nodup ∧
      (canonicalBytes b.toDict).length ≤ maxWorkflowBytes)
    ⟨fun ⟨h₁, h₂, h₃, h₄, h₅, h₆, h₇⟩ => ⟨h₁, h₂, h₃, h₄, h₅, h₆, h₇⟩,
      fun ⟨h₁, h₂, h₃, h₄, h₅, h₆, h₇⟩ => ⟨h₁, h₂, h₃, h₄, h₅, h₆, h₇⟩⟩

/-- `sorted(artifacts, key=lambda a: a.artifact_id)`. -/
def sortArtifacts (artifacts : List (ArtifactReference D)) : List (ArtifactReference D) :=
  artifacts.insertionSort fun a b => a.artifactId ≤ b.artifactId

end BundleFields

/-- `WorkflowBundle`: the receipts' integrity is established, not their actors' authority. -/
structure WorkflowBundle (D : Type) [Hashing D] [DecidableEq D] extends BundleFields D where
  ok : toBundleFields.Valid

namespace WorkflowBundle

theorem ext_fields {v w : WorkflowBundle D} (h : v.toBundleFields = w.toBundleFields) : v = w := by
  cases v; cases w; cases h; rfl

/-- The constructor, with the loop over the receipts as one condition: its failures are one
error. -/
def make (b : BundleFields D) : Result (WorkflowBundle D) := do
  valid (b.evidence.verify = true) "workflow requires a verified evidence ledger"
  valid (b.artifacts.length ≤ maxWorkflowArtifacts)
    "workflow artifacts must be a bounded ArtifactReference tuple"
  valid ((b.artifacts.map (·.artifactId)).Nodup) "workflow artifact IDs must be unique"
  let b := { b with artifacts := BundleFields.sortArtifacts b.artifacts }
  valid (b.records.length ≤ maxWorkflowRecords)
    "workflow records must be a bounded WorkflowReceipt tuple"
  valid (LinkedReceipts b.contextDigest 0 b.contextDigest b.records ∧
    (b.records.map (·.transition.transitionId)).Nodup)
    "workflow receipt integrity/order verification failed"
  if h : b.Valid then .ok ⟨b, h⟩
  else .error (.validation "workflow bundle exceeds the 64 MiB limit")

end WorkflowBundle

/-! ## Claims -/

/-- `ClaimWorkflow`. -/
structure ClaimWorkflow where
  claimId : Identifier
  scope : Identifier
  statement : Description 8192
  status : ClaimStatus
  revision : ℕ
  authors : List Identifier
  evidenceIds : List Identifier
  artifactIds : List Identifier
  approvals : List Identifier

namespace ClaimWorkflow

/-- The checks on one of the tuples of identities. -/
def checkTuple (name : String) (values : List Identifier) (maximum minimum : ℕ) : Result Unit := do
  valid (minimum ≤ values.length ∧ values.length ≤ maximum)
    ("claim." ++ name ++ " must be a bounded immutable tuple")
  valid values.Nodup ("claim." ++ name ++ " must contain unique identities")

/-- The constructor, which `replace` runs again. -/
def make (c : ClaimWorkflow) : Result ClaimWorkflow := do
  valid (1 ≤ c.revision ∧ c.revision ≤ maxWorkflowRecords)
    "claim.revision must be an integer between 1 and 10000"
  checkTuple "authors" c.authors 256 1
  checkTuple "evidence_ids" c.evidenceIds maxWorkflowRecords 0
  checkTuple "artifact_ids" c.artifactIds maxWorkflowArtifacts 0
  checkTuple "approvals" c.approvals 16 0
  valid (∀ a ∈ c.authors, a ∉ c.approvals) "claim authors and approvers must be independent"
  .ok c

end ClaimWorkflow

/-! ## Replay -/

namespace WorkflowAction

/-- The role that an action needs. -/
def role : WorkflowAction → AuthorityRole
  | approve | reject => .reviewer
  | revoke => .revoker
  | _ => .author

end WorkflowAction

namespace LedgerEntry

/-- `event["claim"]`. -/
def claim? (e : LedgerEntry D) : Option Json := Json.get? e.event.members "claim"

/-- `event.get("attributes", {}).get("workflow_scope")`. -/
def workflowScope? (e : LedgerEntry D) : Option Json :=
  match Json.get? e.event.members "attributes" with
  | some (.obj attributes) => Json.get? attributes "workflow_scope"
  | _ => none

end LedgerEntry

namespace BundleFields

/-- The receipt of an event. Event identities are distinct in a verified ledger. -/
def entry? (b : BundleFields D) (eventId : Identifier) : Option (LedgerEntry D) :=
  b.evidence.entries.find? fun e => e.eventId = eventId.value

/-- The artifact of an identity. -/
def artifact? (b : BundleFields D) (artifactId : Identifier) : Option (ArtifactReference D) :=
  b.artifacts.find? fun a => a.artifactId = artifactId

end BundleFields

namespace ClaimWorkflow

/-- `BIND_EVIDENCE`. -/
def bindEvidence (b : BundleFields D) (command : WorkflowTransition D) (claim : ClaimWorkflow) :
    Result ClaimWorkflow := do
  let mismatch := PyError.validation "evidence reference is missing, mismatched, or duplicated"
  let reference ← orError command.referenceId mismatch
  let entry ← orError (b.entry? reference) mismatch
  require (command.referenceDigest = some entry.digest ∧
    entry.claim? = some (.str claim.claimId.value) ∧
    entry.workflowScope? = some (.str claim.scope.value) ∧ reference ∉ claim.evidenceIds) mismatch
  make { claim with evidenceIds := claim.evidenceIds ++ [reference] }

/-- `BIND_ARTIFACT`. -/
def bindArtifact (b : BundleFields D) (command : WorkflowTransition D) (claim : ClaimWorkflow) :
    Result ClaimWorkflow := do
  let mismatch := PyError.validation "artifact reference is missing, mismatched, or duplicated"
  let reference ← orError command.referenceId mismatch
  let artifact ← orError (b.artifact? reference) mismatch
  require (command.referenceDigest = some artifact.sha256 ∧ artifact.claimId = claim.claimId ∧
    artifact.scope = claim.scope ∧ artifact.artifactId ∉ claim.artifactIds) mismatch
  make { claim with artifactIds := claim.artifactIds ++ [artifact.artifactId] }

/-- `SUBMIT`. -/
def submit (claim : ClaimWorkflow) : Result ClaimWorkflow := do
  valid (claim.evidenceIds ≠ [] ∧ claim.artifactIds ≠ [])
    "submit requires bound evidence and an artifact"
  make { claim with status := .submitted }

/-- `sorted(set(claim.authors) | {command.actor_id})`. -/
def withAuthor (authors : List Identifier) (actorId : Identifier) : List Identifier :=
  (authors ++ [actorId]).dedup.insertionSort (· ≤ ·)

/-- What an author's action does to a draft, before the author is recorded. -/
def authored (b : BundleFields D) (command : WorkflowTransition D) (claim : ClaimWorkflow) :
    Result ClaimWorkflow :=
  match command.action with
  | .bindEvidence => bindEvidence b command claim
  | .bindArtifact => bindArtifact b command claim
  | _ => submit claim

/-- The author's actions on a draft. -/
def author (b : BundleFields D) (command : WorkflowTransition D) (claim : ClaimWorkflow) :
    Result ClaimWorkflow := do
  valid (claim.status = .draft) "only draft claims can be authored or submitted"
  let changed ← authored b command claim
  make { changed with authors := withAuthor claim.authors command.actorId }

/-- The reviewer's actions on a submitted claim. -/
def review (authority : AuthorityPolicy) (command : WorkflowTransition D) (claim : ClaimWorkflow) :
    Result ClaimWorkflow := do
  valid (claim.status = .submitted) "only submitted claims can be reviewed"
  valid (command.actorId ∉ claim.authors ∧ command.actorId ∉ claim.approvals)
    "reviewer must be independent and may vote only once"
  if command.action = .reject then make { claim with status := .rejected }
  else
    let approvals := claim.approvals ++ [command.actorId]
    let status :=
      if authority.approvalQuorum ≤ approvals.length then ClaimStatus.approved else .submitted
    make { claim with approvals, status }

/-- The revoker's action on an approved claim. -/
def revoke (command : WorkflowTransition D) (claim : ClaimWorkflow) : Result ClaimWorkflow := do
  valid (claim.status = .approved) "only approved claims can be revoked"
  valid (command.actorId ∉ claim.authors ∧ command.actorId ∉ claim.approvals)
    "revoker must be independent of authors and approvers"
  make { claim with status := .revoked }

/-- The action of a transition on a present claim. -/
def perform (b : BundleFields D) (authority : AuthorityPolicy) (command : WorkflowTransition D)
    (claim : ClaimWorkflow) : Result ClaimWorkflow :=
  match command.action.role with
  | .author => claim.author b command
  | .reviewer => claim.review authority command
  | .revoker => claim.revoke command

end ClaimWorkflow

abbrev Claims := Dict Identifier ClaimWorkflow

/-- `CREATE`. -/
def createClaim (command : WorkflowTransition D) (claims : Claims) : Result Claims := do
  valid (claims.get? command.claimId = none ∧ command.expectedRevision = 0)
    "create requires a new claim and revision zero"
  -- The constructor of a transition guarantees the statement.
  let statement ← orError command.statement (.validation "claim.statement must be a string")
  let claim ← ClaimWorkflow.make
    { claimId := command.claimId, scope := command.scope, statement, status := .draft,
      revision := 1, authors := [command.actorId], evidenceIds := [], artifactIds := [],
      approvals := [] }
  .ok (claims.set command.claimId claim)

/-- Any other action, on a present claim at the expected revision. -/
def updateClaim (b : BundleFields D) (authority : AuthorityPolicy) (command : WorkflowTransition D)
    (claims : Claims) : Result Claims := do
  let claim ← orError (claims.get? command.claimId)
    (.validation "transition claim is missing or belongs to another scope")
  valid (claim.scope = command.scope) "transition claim is missing or belongs to another scope"
  valid (command.expectedRevision = claim.revision)
    "transition expected_revision is stale or out of order"
  let changed ← claim.perform b authority command
  let revised ← ClaimWorkflow.make { changed with revision := changed.revision + 1 }
  .ok (claims.set changed.claimId revised)

/-- One round of the loop of `replay_workflow`. -/
def replayTransition (b : BundleFields D) (authority : AuthorityPolicy) (claims : Claims)
    (command : WorkflowTransition D) : Result Claims := do
  let lacking := PyError.validation "transition actor lacks the exact scoped role"
  let actor ← orError (authority.actor? command.actorId) lacking
  require (actor.permits command.scope command.action.role) lacking
  valid (command.action.role = .author ∨ actor.kind = .human)
    "review and revocation require a declared human actor"
  if command.action = .create then createClaim command claims
  else updateClaim b authority command claims

/-- The loop of `replay_workflow`. -/
def replayTransitions (b : BundleFields D) (authority : AuthorityPolicy) :
    Claims → List (WorkflowTransition D) → Result Claims
  | claims, [] => .ok claims
  | claims, command :: commands => do
    let next ← replayTransition b authority claims command
    replayTransitions b authority next commands

/-- `WorkflowState`. -/
structure WorkflowState (D : Type) where
  workflowId : Identifier
  headDigest : D
  recordCount : ℕ
  claims : Claims

/-- The constructor of `WorkflowState`. -/
def WorkflowState.make (state : WorkflowState D) : Result (WorkflowState D) := do
  valid (state.recordCount ≤ maxWorkflowRecords)
    "state.record_count must be an integer between 0 and 10000"
  valid (state.claims.items.length ≤ maxWorkflowRecords ∧
    ∀ kv ∈ state.claims.items, kv.1 = kv.2.claimId)
    "state.claims must map matching IDs to ClaimWorkflow instances"
  valid ((state.claims.values.map (·.revision)).sum = state.recordCount)
    "state claim revisions must account for every workflow record"
  .ok state

namespace BundleFields

def transitions (b : BundleFields D) : List (WorkflowTransition D) := b.records.map (·.transition)

end BundleFields

/-- `replay_workflow`. -/
def replayWorkflow (bundle : WorkflowBundle D) (authority : AuthorityPolicy)
    (expectedHead : Option D) : Result (WorkflowState D) := do
  valid (authority.digest = bundle.authorityDigest)
    "workflow authority does not match the trusted policy"
  valid (∀ head ∈ expectedHead, bundle.headDigest = head)
    "workflow does not match the expected head"
  let claims ← replayTransitions bundle.toBundleFields authority Dict.empty bundle.transitions
  WorkflowState.make ⟨bundle.workflowId, bundle.headDigest, bundle.records.length, claims⟩

/-! ## Appending -/

/-- The loop of `append`. -/
def sealTransitions (context : D) (sequence : ℕ) (previous : D) :
    List (WorkflowTransition D) → Result (List (WorkflowReceipt D))
  | [] => .ok []
  | transition :: transitions =>
    if h : sequence < maxWorkflowRecords then do
      let digest := WorkflowReceipt.contentDigest sequence context previous transition
      let receipts ← sealTransitions context (sequence + 1) digest transitions
      .ok (⟨sequence, context, previous, transition, digest, h⟩ :: receipts)
    else .error (.validation "append requires bounded WorkflowTransition instances")

namespace WorkflowBundle

/-- `append`. -/
def append (bundle : WorkflowBundle D) (transitions : List (WorkflowTransition D))
    (authority : AuthorityPolicy) : Result (WorkflowBundle D) := do
  let _ ← replayWorkflow bundle authority none
  let receipts ← sealTransitions bundle.contextDigest bundle.records.length bundle.headDigest
    transitions
  let result ← make { bundle.toBundleFields with records := bundle.records ++ receipts }
  let _ ← replayWorkflow result authority none
  .ok result

/-- `from_dict`. -/
def fromDict (value : Json) (authority : AuthorityPolicy)
    (expectedHead expectedEvidenceHead : Option D) : Result (WorkflowBundle D) := do
  let data ← exactly value BundleFields.fields "workflow"
  valid (Json.get? data "kind" = some (.str "evidence-braid-workflow-bundle") ∧
    Json.get? data "schema_version" = some (.str "1.0")) "unsupported workflow bundle format"
  let records ← arrayField (Json.get? data "records") "workflow.records" maxWorkflowRecords
  valid (Json.get? data "record_count" = some (.int records.length))
    "workflow record_count does not match records"
  let evidence ← EvidenceLedger.fromDict ((Json.get? data "evidence").getD .null)
    expectedEvidenceHead
  let documents ← arrayField (Json.get? data "artifacts") "artifacts" maxWorkflowArtifacts
  let artifacts ← decodeItems ArtifactReference.fromDict documents
  let receipts ← decodeItems WorkflowReceipt.fromDict records
  let workflowId ← identifierField (Json.get? data "workflow_id") "workflow.workflow_id"
  let authorityDigest ← hashField (Json.get? data "authority_digest") "workflow.authority_digest"
  let result ← make ⟨workflowId, authorityDigest, evidence, artifacts, receipts⟩
  valid (canonicalJson (.obj data) false = canonicalJson result.toDict false)
    "workflow bundle must use its exact canonical representation"
  let _ ← replayWorkflow result authority expectedHead
  .ok result

end WorkflowBundle

end EvidenceBraid
