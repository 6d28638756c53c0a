import EvidenceBraid.Archive
import EvidenceBraid.CaseWire
import EvidenceBraid.Workflow

/-!
# Artifact bundles

`artifacts.py`: a closed archive holds a workflow, its replayed state, one object for each digest
that the workflow's artifacts commit to, and a manifest that binds them. The archive is a byte
string that does not change while it is verified.
-/

namespace EvidenceBraid

open Hashing

variable {D : Type} [Hashing D]

/-! ## Documents -/

/-- The texts of the statuses. -/
def ClaimStatus.value : ClaimStatus → String
  | draft => "draft"
  | submitted => "submitted"
  | approved => "approved"
  | rejected => "rejected"
  | revoked => "revoked"

/-- An array of identifiers. -/
def identifiersJson (ids : List Identifier) : Json := .arr (ids.map fun i => .str i.value)

/-- `to_dict`. -/
def ClaimWorkflow.toDict (c : ClaimWorkflow) : Json :=
  Json.dict [("claim_id", .str c.claimId.value), ("scope", .str c.scope.value),
    ("statement", .str c.statement.value), ("status", .str c.status.value),
    ("revision", .int c.revision), ("authors", identifiersJson c.authors),
    ("evidence_ids", identifiersJson c.evidenceIds),
    ("artifact_ids", identifiersJson c.artifactIds), ("approvals", identifiersJson c.approvals)]

/-- `to_dict`. -/
def WorkflowState.toDict (s : WorkflowState D) : Json :=
  Json.dict [("workflow_id", .str s.workflowId.value), ("head_digest", .str (hex s.headDigest)),
    ("record_count", .int s.recordCount),
    ("claims", Json.dict (s.claims.items.map fun kv => (kv.1.value, kv.2.toDict)))]

/-- `_json_bytes`. -/
def jsonBytes (value : Json) (maximum : ℕ) (name : String) : Result Bytes := do
  valid ((canonicalBytes value).length ≤ maximum) (name ++ " exceeds its metadata byte limit")
  .ok (canonicalBytes value)

/-- `_parse`. -/
def parseDocument (raw : Bytes) (name : String) : Result Json := do
  let invalid := PyError.inputFormat ("invalid canonical " ++ name)
  let value ← orError ((Utf8.decode raw).bind (Json.loads Json.plain)) invalid
  require (canonicalBytes value = raw) invalid
  .ok value

/-! ## Objects -/

/-- `matches`. -/
def ArtifactReference.Matches (a : ArtifactReference D) (content : Bytes) : Prop :=
  content.length = a.sizeBytes ∧ (Hashing.sha256 content : D) = a.sha256

/-- The name of an object. -/
def objectPath (digest : D) : String := "objects/" ++ hex digest

variable [DecidableEq D]

instance (a : ArtifactReference D) (content : Bytes) : Decidable (a.Matches content) :=
  inferInstanceAs (Decidable (_ ∧ _))

/-- One round of the loop of `_objects`. -/
def addObject (limits : ArtifactBundleLimits) (objects : Dict D ℕ) (artifact : ArtifactReference D) :
    Result (Dict D ℕ) := do
  valid (artifact.sizeBytes ≤ limits.maxArtifactBytes) "artifact exceeds file byte limit"
  match objects.get? artifact.sha256 with
  | some size => do
    valid (size = artifact.sizeBytes) "one object digest has conflicting declared sizes"
    .ok objects
  | none => .ok (objects.set artifact.sha256 artifact.sizeBytes)

/-- `dict(sorted(objects.items()))`: the digests are distinct. -/
def sortObjects (objects : List (D × ℕ)) : List (D × ℕ) :=
  objects.insertionSort fun a b => hex a.1 ≤ hex b.1

/-- `_objects`. -/
def objectsOf (bundle : WorkflowBundle D) (limits : ArtifactBundleLimits) : Result (List (D × ℕ)) := do
  valid (bundle.artifacts.length ≤ limits.maxArtifacts) "artifact reference count exceeds limit"
  valid ((bundle.artifacts.map (·.sizeBytes)).sum ≤ limits.maxTotalSourceBytes)
    "artifact source bytes including duplicate mappings exceed total limit"
  let objects ← bundle.artifacts.foldlM (addObject limits) Dict.empty
  valid (objects.values.sum ≤ limits.maxTotalObjectBytes) "object bytes exceed total limit"
  .ok (sortObjects objects.items)

/-! ## The manifest -/

/-- An item of `files`. -/
def manifestFile (path : String) (size : ℕ) (digest : D) : Json :=
  Json.dict [("path", .str path), ("size_bytes", .int size), ("sha256", .str (hex digest))]

/-- `files`. -/
def manifestFiles (workflowRaw stateRaw : Bytes) (objects : List (D × ℕ)) : List Json :=
  [manifestFile "workflow.json" workflowRaw.length (sha256 workflowRaw : D),
    manifestFile "state.json" stateRaw.length (sha256 stateRaw : D)] ++
  objects.map fun o => manifestFile (objectPath o.1) o.2 o.1

/-- The manifest without its digest. -/
def manifestItems (bundle : WorkflowBundle D) (workflowRaw stateRaw : Bytes)
    (objects : List (D × ℕ)) : List (String × Json) :=
  [("kind", .str "evidence-braid-artifact-bundle"), ("schema_version", .str "1.0"),
    ("workflow_head", .str (hex bundle.headDigest)),
    ("evidence_head", .str (hex bundle.evidence.headDigest)),
    ("authority_digest", .str (hex bundle.authorityDigest)),
    ("files", .arr (manifestFiles workflowRaw stateRaw objects)),
    ("artifacts", .arr (bundle.artifacts.map fun a =>
      Json.dict (a.items ++ [("object_path", Json.str (objectPath a.sha256))])))]

/-- `manifest["bundle_digest"]`. -/
def bundleDigest (bundle : WorkflowBundle D) (workflowRaw stateRaw : Bytes)
    (objects : List (D × ℕ)) : D :=
  sha256 (canonicalBytes (Json.dict (manifestItems bundle workflowRaw stateRaw objects)))

/-- `_manifest`. -/
def manifestOf (bundle : WorkflowBundle D) (workflowRaw stateRaw : Bytes)
    (objects : List (D × ℕ)) : Json :=
  Json.dict (manifestItems bundle workflowRaw stateRaw objects ++
    [("bundle_digest", Json.str (hex (bundleDigest bundle workflowRaw stateRaw objects)))])

/-! ## Verified bundles -/

/-- `VerifiedArtifactBundle`. -/
structure VerifiedArtifactBundle (D : Type) [Hashing D] [DecidableEq D] where
  bundleDigest : D
  workflow : WorkflowBundle D
  state : WorkflowState D
  objectCount : ℕ
  objectBytes : ℕ
  archiveBytes : ℕ

/-- The sizes of the members of a bundle's archive. -/
def memberSizes (manifestRaw workflowRaw stateRaw : Bytes) (objects : List (D × ℕ)) :
    List (String × ℕ) :=
  [("manifest.json", manifestRaw.length), ("workflow.json", workflowRaw.length),
    ("state.json", stateRaw.length)] ++ objects.map fun o => (objectPath o.1, o.2)

/-- The constructor. -/
def VerifiedArtifactBundle.make (v : VerifiedArtifactBundle D) : Result (VerifiedArtifactBundle D) := do
  valid (v.state.headDigest = v.workflow.headDigest ∧ v.state.workflowId = v.workflow.workflowId ∧
    v.state.recordCount = v.workflow.records.length) "verified state and workflow bindings differ"
  valid (v.objectCount ≤ 1024) "object_count must be an integer between 0 and 1024"
  valid (v.objectBytes ≤ 512 * 1024 * 1024)
    "object_bytes must be an integer between 0 and 536870912"
  valid (v.archiveBytes ≤ 1024 * 1024 * 1024)
    "archive_bytes must be an integer between 0 and 1073741824"
  let objects ← objectsOf v.workflow ArtifactBundleLimits.default
  valid (v.objectCount = objects.length ∧ v.objectBytes = (objects.map Prod.snd).sum)
    "verified object counts must match unique workflow commitments"
  let workflowRaw := canonicalBytes v.workflow.toDict
  let stateRaw := canonicalBytes v.state.toDict
  let manifestRaw := canonicalBytes (manifestOf v.workflow workflowRaw stateRaw objects)
  valid (v.bundleDigest = EvidenceBraid.bundleDigest v.workflow workflowRaw stateRaw objects ∧
    v.archiveBytes = archiveSize (memberSizes manifestRaw workflowRaw stateRaw objects))
    "verified digest/size must match the canonical archive metadata"
  .ok v

/-! ## Case capture -/

/-- What the archive of a case yields before its objects are read. -/
structure CaseCapture (D : Type) [Hashing D] where
  journal : Option (CaseJournal D)
  captured : Dict Identifier Bytes
  references : Dict Identifier (ArtifactReference D)

/-- The byte bounds of the journal, the assertion, the input and the output. -/
def captureMaxima : List ℕ := [2 * 1024 * 1024, 64 * 1024, 256 * 1024, 4096]

/-- The loop over the required identifiers and their bounds. -/
def captureReferences (workflow : WorkflowBundle D) (references : Dict Identifier (ArtifactReference D)) :
    List (Identifier × ℕ) → Result (Dict Identifier (ArtifactReference D))
  | [] => .ok references
  | (identifier, maximum) :: rest => do
    let missing := PyError.validation "case archive artifact is missing or oversized"
    let reference ← orError (workflow.artifact? identifier) missing
    require (reference.sizeBytes ≤ maximum) missing
    captureReferences workflow (references.set identifier reference) rest

/-- The block that runs when a journal's artifact is named. -/
def captureCase (view : ArchiveView) (infos : List ZipInfo) (entries : List (String × ℕ))
    (workflow : WorkflowBundle D) (journalId : Option Identifier)
    (caseAuthority : Option CaseAuthority) (expectedCaseHead : Option D) : Result (CaseCapture D) :=
  match journalId with
  | none => .ok ⟨none, Dict.empty, Dict.empty⟩
  | some journalId => do
    let anchors := PyError.validation "case archive anchors are required"
    let authority ← orError caseAuthority anchors
    let head ← orError expectedCaseHead anchors
    let missing := PyError.validation "case journal artifact is missing or oversized"
    let reference ← orError (workflow.artifact? journalId) missing
    require (reference.sizeBytes ≤ 2 * 1024 * 1024 ∧
      objectPath reference.sha256 ∈ entries.map Prod.fst) missing
    let member ← openMember view infos (objectPath reference.sha256)
    let journalRaw ← readMember member (reference.sizeBytes + 1)
    valid (reference.Matches journalRaw) "case journal artifact bytes differ"
    let journal ← CaseJournal.fromBytes journalRaw authority (some head)
    match journal.records with
    | [.plan plan, .observation observation, _] => do
      valid (observation.status = .observed) "case archive requires an observed three-record case"
      let overlap := PyError.validation "case archive artifact identities overlap"
      let outputId ← orError observation.artifactId overlap
      let required := [journalId, plan.assertionArtifactId, plan.inputArtifactId, outputId]
      require required.Nodup overlap
      let references ← captureReferences workflow Dict.empty (required.zip captureMaxima)
      .ok ⟨some journal, Dict.empty.set journalId journalRaw, references⟩
    | _ => .error (.validation "case archive requires an observed three-record case")

/-- One round of the loop over the objects. -/
def checkObject (view : ArchiveView) (infos : List ZipInfo) (entries : List (String × ℕ))
    (references : Dict Identifier (ArtifactReference D)) (captured : Dict Identifier Bytes)
    (object : D × ℕ) : Result (Dict Identifier Bytes) := do
  let name := objectPath object.1
  valid (entries.lookup name = some object.2) "object size differs from artifact commitment"
  let member ← openMember view infos name
  let payload ← readAll member
  valid (sha256 payload = object.1) "object bytes differ from artifact commitment"
  .ok (references.items.foldl (fun captured r =>
    if r.2.sha256 = object.1 then captured.set r.1 payload else captured) captured)

/-! ## Verification -/

/-- A document of the archive, up to its limit. -/
def readDocument (view : ArchiveView) (infos : List ZipInfo) (limits : ArtifactBundleLimits)
    (name : String) : Result Bytes := do
  let member ← openMember view infos name
  readMember member (limits.entryLimit name + 1)

/-- `_verify_artifact_bundle_internal`. -/
def verifyArtifactBundleInternal (archive : Bytes) (authority : AuthorityPolicy)
    (expectedHead expectedEvidenceHead : D) (expectedBundleDigest : Option D)
    (limits : ArtifactBundleLimits) (journalId : Option Identifier)
    (caseAuthority : Option CaseAuthority) (expectedCaseHead : Option D) :
    Result (VerifiedArtifactBundle D × Option (CaseJournal D) × Dict Identifier Bytes) := do
  let (view, entries) ← Archive.preflight archive limits
  let infos ← infolist view
  let manifestRaw ← readDocument view infos limits "manifest.json"
  let workflowRaw ← readDocument view infos limits "workflow.json"
  let stateRaw ← readDocument view infos limits "state.json"
  let manifest ← parseDocument manifestRaw "manifest.json"
  let document ← parseDocument workflowRaw "workflow.json"
  let workflow ← WorkflowBundle.fromDict document authority (some expectedHead)
    (some expectedEvidenceHead)
  let state ← replayWorkflow workflow authority (some expectedHead)
  let _ ← parseDocument stateRaw "state.json"
  let stateBytes ← jsonBytes state.toDict limits.maxStateBytes "state"
  valid (stateRaw = stateBytes) "stored state differs from independent workflow replay"
  let objects ← objectsOf workflow limits
  let capture ← captureCase view infos entries workflow journalId caseAuthority expectedCaseHead
  let expectedManifest := manifestOf workflow workflowRaw stateRaw objects
  valid (manifest = expectedManifest) "manifest does not exactly bind workflow and object inventory"
  let manifestBytes ← jsonBytes expectedManifest limits.maxManifestBytes "manifest"
  valid (manifestRaw = manifestBytes) "manifest is not the exact canonical representation"
  valid (entries.map Prod.fst = documentNames ++ objects.map fun o => objectPath o.1)
    "archive must contain exactly the committed object inventory"
  let captured ← objects.foldlM (checkObject view infos entries capture.references) capture.captured
  let digest := bundleDigest workflow workflowRaw stateRaw objects
  valid (∀ expected ∈ expectedBundleDigest, digest = expected)
    "bundle does not match the independently retained digest"
  let verified ← VerifiedArtifactBundle.make
    ⟨digest, workflow, state, objects.length, (objects.map Prod.snd).sum, archive.length⟩
  .ok (verified, capture.journal, captured)

/-- `verify_artifact_bundle`. -/
def verifyArtifactBundle (archive : Bytes) (authority : AuthorityPolicy)
    (expectedHead expectedEvidenceHead : D) (expectedBundleDigest : Option D)
    (limits : ArtifactBundleLimits) : Result (VerifiedArtifactBundle D) := do
  let (verified, _, _) ← verifyArtifactBundleInternal archive authority expectedHead
    expectedEvidenceHead expectedBundleDigest limits none none none
  .ok verified

end EvidenceBraid
