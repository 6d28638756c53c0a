import EvidenceBraid.CaseStorage

/-!
# The operations of the case store

`create_case_store`, `claim_observation`, `finish_observation` and `append_checked_verdict`, as the
transactions that they run one after the other. Here nothing else happens between them, and no step
fails by itself.
-/

namespace EvidenceBraid

open Hashing Transaction Sqlite

variable {D : Type} [Hashing D]

/-! ## Observation adapters -/

/-- `ObservationLimits`. -/
structure ObservationLimits where
  assertionBytes : ℕ
  inputBytes : ℕ
  totalBytes : ℕ
  outputBytes : ℕ
  bounds : assertionBytes ≤ maxAssertion ∧ inputBytes ≤ maxInput ∧ totalBytes ≤ maxTotalPayload ∧
    outputBytes ≤ maxOutput
  deriving DecidableEq

/-- `_OBSERVATION_LIMITS`. -/
def ObservationLimits.fixed : ObservationLimits :=
  ⟨maxAssertion, maxInput, maxTotalPayload, maxOutput, by simp⟩

/-- The identity of an adapter without its observer. -/
def AdapterKey.test (k : AdapterKey) : Identifier × Identifier × Identifier :=
  (k.testId, k.adapterId, k.adapterVersion)

/-- `ObservationRegistry`, by the keys of its adapters. -/
structure ObservationRegistry where
  entries : List AdapterKey
  limits : ObservationLimits
  entries_length : 1 ≤ entries.length ∧ entries.length ≤ 64
  entries_nodup : (entries.map AdapterKey.test).Nodup

/-- `select`. -/
def ObservationRegistry.select (registry : ObservationRegistry) (plan : CasePlan D)
    (authority : CaseAuthority) : Result AdapterKey :=
  match registry.entries.filter fun k =>
      k.test = (plan.testId, plan.adapterId, plan.adapterVersion) with
  | [key] => do
    valid (authority.admits key.observerId (· = .tool) plan.scope .observe ∧
      key.observerId ≠ plan.proposerId) "registered observer lacks exact scoped authority"
    .ok key
  | _ => .error (.validation "registered observation adapter is unavailable")

/-- The plan that a journal begins with. -/
def planOf (journal : CaseJournal D) : Result (CasePlan D) :=
  match journal.records with
  | .plan plan :: _ => .ok plan
  | _ => .error (.validation "observation requires a case plan")

variable [DecidableEq D]

/-- `prepare_observation`, up to the adapter that it selects. -/
def prepareObservation (journal : CaseJournal D) (authority : CaseAuthority)
    (registry : ObservationRegistry) (assertion input : Bytes) (planHead : D) :
    Result AdapterKey := do
  let state ← replayCase journal authority (some planHead)
  valid (state.phase = .planned ∧ journal.receipts.length = 1)
    "observation requires an exactly one-record planned journal"
  let plan ← planOf journal
  valid (assertion.length ≤ registry.limits.assertionBytes)
    "assertion must be bounded built-in bytes"
  valid (input.length ≤ registry.limits.inputBytes) "test input must be bounded built-in bytes"
  valid (assertion.length + input.length ≤ registry.limits.totalBytes)
    "retained observation exceeds the total byte bound"
  valid (sha256 assertion = plan.assertionSha256 ∧ sha256 input = plan.inputSha256)
    "observation input artifact commitment differs from plan"
  registry.select plan authority

/-! ## Single transactions -/

abbrev CaseAction := Action CaseTables (Failure PyError)

/-- A transaction that nothing disturbs. -/
def alone {α : Type} (writable : Bool) (action : CaseProgram α) : CaseAction α := fun t =>
  let (result, s) := caseRun PyError.isValidationError writable action ⟨⟨t, t⟩, .none, [], false⟩
  (result, s.copies.durable)

/-- A check outside of the transactions. -/
def checked {α : Type} (x : Result α) : CaseAction α := Action.lift (x.mapError .validation)

/-! ## Creation -/

/-- The database whose file has just been reserved. -/
def reservedCase : CaseTables :=
  ⟨none, Table.empty, [], Table.empty, none, List.Pairwise.nil, List.nodup_nil⟩

namespace CaseTables

/-- `INSERT INTO case_context VALUES (1, ?)`. -/
def insertContext (document : Bytes) (t : CaseTables) : Result CaseTables := do
  require (t.context = none) integrityError
  .ok { t with context := some (.blob document) }

/-- `INSERT INTO case_meta VALUES (1, ?)`. -/
def insertMeta (document : Bytes) (t : CaseTables) : Result CaseTables := do
  require (t.metadata = none) integrityError
  .ok { t with metadata := some (.blob document) }

end CaseTables

/-- A payload row of this content. -/
def payloadRow (role : String) (artifactId : Identifier) (digest : D) (content : Bytes) :
    PayloadRow :=
  ⟨some (.text (Utf8.encode role.toList)), .text (Utf8.encode artifactId.value.toList),
    .text (Utf8.encode (hex digest).toList), .blob content⟩

/-- The statements of `create_case_store`. -/
def createAction (context : Json) (receipt : CaseReceipt D) (plan : CasePlan D)
    (assertion input : Bytes) (checkpoint : CaseStoreCheckpoint D) : CaseProgram Unit := do
  execute (CaseTables.insertContext (canonicalBytes context))
  execute (CaseTables.insertReceipt 0 (canonicalBytes receipt.toDict))
  execute (CaseTables.insertPayload
    (payloadRow "assertion" plan.assertionArtifactId plan.assertionSha256 assertion))
  execute (CaseTables.insertPayload
    (payloadRow "input" plan.inputArtifactId plan.inputSha256 input))
  execute (CaseTables.insertMeta (canonicalBytes checkpoint.toDict))

/-- `create_case_store`. -/
def createCaseStore (authority : CaseAuthority) (planHead : D) (journal : CaseJournal D)
    (assertion input : Bytes) : CaseAction Unit := do
  let _ ← checked (replayCase journal authority (some planHead))
  match journal.receipts with
  | [receipt] =>
    match receipt.record with
    | .plan plan => do
      checked (valid (assertion.length ≤ maxAssertion) "case assertion requires bounded built-in bytes")
      checked (valid (input.length ≤ maxInput) "case input requires bounded built-in bytes")
      checked (valid (assertion.length + input.length ≤ maxTotalPayload ∧
        sha256 assertion = plan.assertionSha256 ∧ sha256 input = plan.inputSha256)
        "case creation input commitment differs")
      let context := caseContext journal.authorityDigest plan receipt.digest
      let checkpoint := caseStoreGenesis context receipt.digest
      alone true (createAction context receipt plan assertion input checkpoint)
      let _ ← alone false (snapshotAction authority planHead (some checkpoint))
      pure ()
    | _ => checked (.error (.validation "case store creation requires exactly one plan"))
  | _ => checked (.error (.validation "case store creation requires exactly one plan"))

/-! ## Claims -/

/-- `_claim_key`. -/
def claimKey (authority : CaseAuthority) (planHead : D) (registry : ObservationRegistry)
    (expected : CaseStoreCheckpoint D) : CaseAction AdapterKey := do
  checked (valid (registry.limits = .fixed)
    "case-store/1 requires the fixed observation byte limits")
  let snapshot ← alone false (snapshotAction authority planHead (some expected))
  let _ ← checked (prepareObservation snapshot.journal authority registry snapshot.assertionBytes
    snapshot.inputBytes planHead)
  let plan ← checked (planOf snapshot.journal)
  checked (registry.select plan authority)

/-- The write of a claim. -/
def claimWrite (requestId : Identifier) (expected : CaseStoreCheckpoint D) (key : AdapterKey) :
    CaseWrite D :=
  ⟨.claim, requestId, requestId, expected, some key, none, none, none, none, none, none⟩

/-- `claim_observation`. -/
def claimObservation (authority : CaseAuthority) (planHead : D) (registry : ObservationRegistry)
    (requestId : Identifier) (expected : CaseStoreCheckpoint D) : CaseAction (CaseStoreCommit D) := do
  let key ← claimKey authority planHead registry expected
  alone true (writeAction authority planHead (claimWrite requestId expected key))

/-! ## Finishes -/

/-- The text of the artifact that an output becomes. -/
def observedArtifact (plan : CasePlan D) (requestId : Identifier) (output : Bytes) : String :=
  "observed-" ++ hex (sha256 (Utf8.encode (hex (plan.digest : D)).toList ++
    Utf8.encode requestId.value.toList ++ output) : D)

/-- The observation that `_prepare_finish` makes of an output or of an error code. -/
def makeObservation (plan : CasePlan D) (requestId observerId : Identifier)
    (status : CaseObservationStatus) (output : Option Bytes) (errorCode : Option Identifier) :
    Result (CaseObservation D) :=
  if h : status = .observed then
    match output with
    | some output => do
      let artifactId ← identifier (observedArtifact plan requestId output)
        "case observation artifact ID"
      .ok ⟨plan.digest, requestId, observerId, status, plan.inputSha256, some (sha256 output),
        some artifactId, none, by simp [h], by simp [h]⟩
    | none => .error (.validation "adapter output must be bounded built-in bytes")
  else
    match errorCode with
    | some code =>
      .ok ⟨plan.digest, requestId, observerId, status, plan.inputSha256, none, none, some code,
        by simp [h], by simp [h]⟩
    | none => .error (.validation
        "case observation error code must be a 1..128 character ASCII identifier")

/-- The output that `_prepare_finish` admits. -/
def admitOutput (status : CaseObservationStatus) (output : Option Bytes)
    (errorCode : Option Identifier) (inputTotal : ℕ) : Result (Option Bytes) :=
  if status = .observed then do
    valid (errorCode = none) "observed output cannot have error code"
    let raw ← orError output (.validation "adapter output must be bounded built-in bytes")
    some <$> checkedOutput raw inputTotal
  else do
    valid (output = none) "non-observed case cannot retain output"
    valid errorCode.isSome "case observation error code must be a 1..128 character ASCII identifier"
    .ok none

/-- `_prepare_finish`. -/
def prepareFinish (authority : CaseAuthority) (planHead : D) (requestId : Identifier)
    (expected : CaseStoreCheckpoint D) (output : Option Bytes) (status : CaseObservationStatus)
    (errorCode : Option Identifier) : CaseAction (CaseObservation D × Option Bytes) := do
  let snapshot ← alone false (snapshotAction authority planHead (some expected))
  checked (require (snapshot.pendingRequestId = some requestId)
    (.conflict "case observation claim differs"))
  let plan ← checked (planOf snapshot.journal)
  let admitted ← checked (admitOutput status output errorCode
    (snapshot.assertionBytes.length + snapshot.inputBytes.length))
  let claimed ← alone false (claimedKeyAction authority planHead)
  let key ← checked (orError claimed (.runtime "'NoneType' object is not subscriptable"))
  let observation ← checked (makeObservation plan requestId key.observerId status admitted errorCode)
  pure (observation, admitted)

/-- The write of a finish. -/
def finishWrite (operationId requestId : Identifier) (expected : CaseStoreCheckpoint D)
    (observation : CaseObservation D) (output : Option Bytes) : CaseWrite D :=
  ⟨.finish, operationId, requestId, expected, none, observation.observedSha256,
    some observation.status, some observation.digest, none, some (.observation observation), output⟩

/-- `finish_observation`. -/
def finishObservation (authority : CaseAuthority) (planHead : D) (requestId operationId : Identifier)
    (expected : CaseStoreCheckpoint D) (output : Option Bytes) (status : CaseObservationStatus)
    (errorCode : Option Identifier) : CaseAction (CaseStoreCommit D) := do
  let (observation, admitted) ← prepareFinish authority planHead requestId expected output status
    errorCode
  alone true (writeAction authority planHead
    (finishWrite operationId requestId expected observation admitted))

/-! ## Verdicts -/

/-- The outcome of a checked verdict. -/
def checkedOutcome (plan : CasePlan D) (observed : Option Bytes) : CaseVerdictOutcome :=
  match observed with
  | none => .inconclusive
  | some output => if sha256 output = plan.predictionSha256 then .supported else .refuted

/-- The write of a verdict. -/
def verdictWrite (operationId requestId : Identifier) (expected : CaseStoreCheckpoint D)
    (verdict : CaseVerdict D) : CaseWrite D :=
  ⟨.verdict, operationId, requestId, expected, none, none, none, some verdict.digest,
    some verdict.evaluatorId, some (.verdict verdict), none⟩

/-- `append_checked_verdict`. -/
def appendCheckedVerdict (authority : CaseAuthority) (planHead : D)
    (operationId evaluatorId : Identifier) (expected : CaseStoreCheckpoint D) :
    CaseAction (CaseStoreCommit D) := do
  let snapshot ← alone false (snapshotAction authority planHead (some expected))
  match snapshot.journal.records with
  | [.plan plan, .observation observation] =>
    let verdict : CaseVerdict D := ⟨plan.digest, observation.digest, evaluatorId,
      checkedOutcome plan snapshot.observedBytes⟩
    alone true (writeAction authority planHead
      (verdictWrite operationId observation.requestId expected verdict))
  | _ => checked (.error (.validation "case verdict requires durable observation"))

end EvidenceBraid
