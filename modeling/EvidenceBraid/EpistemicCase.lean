import EvidenceBraid.Authority

/-!
# Epistemic cases

`epistemic_case.py`: a trusted registry of actors, the four records of a case, and the journal
that chains them. `replay_case` accepts a journal only if its records are a plan, an observation, a
verdict and a decision in that order, each bound to the ones before it and made by an actor of its
own.
-/

namespace EvidenceBraid

open Hashing

def maxCaseRecords : ℕ := 512

def maxCaseWireBytes : ℕ := 2 * 1024 * 1024

def maxCaseRecordBytes : ℕ := 16 * 1024

def maxCaseAuthorityBytes : ℕ := 64 * 1024

variable {D : Type} [Hashing D]

/-- The digest of `_DOMAIN`, a tag and a content. -/
def caseHash (tag : Char) (content : Bytes) : D :=
  sha256 (Utf8.encode "evidence-braid:epistemic-case:v1".toList ++ 0 :: Utf8.encode [tag] ++ content)

/-! ## Actors -/

/-- `CaseRole`. -/
inductive CaseRole where
  | propose | observe | evaluate | decide
  deriving DecidableEq, Repr

namespace CaseRole

def value : CaseRole → String
  | propose => "propose"
  | observe => "observe"
  | evaluate => "evaluate"
  | decide => "decide"

end CaseRole

/-- `CaseActorKind`. -/
inductive CaseActorKind where
  | model | tool | human | policy
  deriving DecidableEq, Repr

namespace CaseActorKind

def value : CaseActorKind → String
  | model => "model"
  | tool => "tool"
  | human => "human"
  | policy => "policy"

/-- The roles that actors of a kind may hold. -/
def allowed : CaseActorKind → List CaseRole
  | model => [.propose]
  | tool => [.observe, .evaluate]
  | human => [.propose, .evaluate, .decide]
  | policy => [.evaluate, .decide]

end CaseActorKind

/-- `CaseGrant`. -/
structure CaseGrant where
  scope : Identifier
  role : CaseRole
  deriving DecidableEq

namespace CaseGrant

def toDict (g : CaseGrant) : Json :=
  Json.dict [("scope", .str g.scope.value), ("role", .str g.role.value)]

end CaseGrant

/-- `CaseActor`: distinct grants of roles that its kind may hold. -/
structure CaseActor where
  actorId : Identifier
  kind : CaseActorKind
  grants : List CaseGrant
  grants_length : 1 ≤ grants.length ∧ grants.length ≤ 64
  grants_nodup : grants.Nodup
  grants_allowed : ∀ g ∈ grants, g.role ∈ kind.allowed

namespace CaseActor

/-- `permits`. -/
def permits (a : CaseActor) (scope : Identifier) (role : CaseRole) : Bool :=
  ⟨scope, role⟩ ∈ a.grants

def toDict (a : CaseActor) : Json :=
  Json.dict [("actor_id", .str a.actorId.value), ("kind", .str a.kind.value),
    ("grants", .arr (a.grants.map CaseGrant.toDict))]

/-- A permitted role is one of the actor's kind. -/
theorem mem_allowed_of_permits {a : CaseActor} {scope : Identifier} {role : CaseRole}
    (h : a.permits scope role = true) : role ∈ a.kind.allowed :=
  a.grants_allowed ⟨scope, role⟩ (of_decide_eq_true h)

end CaseActor

/-- The document of an authority. -/
def caseAuthorityDict (policyId : Identifier) (actors : List CaseActor) : Json :=
  Json.dict [("kind", .str "evidence-braid-case-authority"), ("schema_version", .str "1.0"),
    ("policy_id", .str policyId.value), ("actors", .arr (actors.map CaseActor.toDict))]

/-- `CaseAuthority`: actors with distinct identifiers. -/
structure CaseAuthority where
  policyId : Identifier
  actors : List CaseActor
  actors_length : 1 ≤ actors.length ∧ actors.length ≤ 64
  actors_nodup : (actors.map (·.actorId)).Nodup
  size_le : (canonicalBytes (caseAuthorityDict policyId actors)).length ≤ maxCaseAuthorityBytes

namespace CaseAuthority

/-- `to_bytes`. -/
def toBytes (p : CaseAuthority) : Bytes := canonicalBytes (caseAuthorityDict p.policyId p.actors)

/-- `digest`. -/
def digest (p : CaseAuthority) : D := caseHash 'A' p.toBytes

/-- `actors.get`. -/
def actor? (p : CaseAuthority) (actorId : Identifier) : Option CaseActor :=
  p.actors.find? fun a => a.actorId = actorId

theorem actor?_eq_some {p : CaseAuthority} {actorId : Identifier} {a : CaseActor}
    (h : p.actor? actorId = some a) : a ∈ p.actors ∧ a.actorId = actorId :=
  ⟨List.mem_of_find?_eq_some h, by simpa using List.find?_some h⟩

/-- The actor exists, its kind is one of these, and it holds the role at the scope. -/
def admits (p : CaseAuthority) (actorId : Identifier) (kinds : CaseActorKind → Bool)
    (scope : Identifier) (role : CaseRole) : Bool :=
  (p.actor? actorId).any fun a => kinds a.kind && a.permits scope role

theorem admits_iff {p : CaseAuthority} {actorId : Identifier} {kinds : CaseActorKind → Bool}
    {scope : Identifier} {role : CaseRole} : p.admits actorId kinds scope role = true ↔
      ∃ a, p.actor? actorId = some a ∧ kinds a.kind = true ∧ a.permits scope role = true := by
  simp [admits, Option.any_eq_true]

end CaseAuthority

/-! ## Records -/

/-- `CaseObservationStatus`. -/
inductive CaseObservationStatus where
  | observed | unavailable | error
  deriving DecidableEq, Repr

namespace CaseObservationStatus

def value : CaseObservationStatus → String
  | observed => "observed"
  | unavailable => "unavailable"
  | error => "error"

end CaseObservationStatus

/-- `CaseVerdictOutcome`. -/
inductive CaseVerdictOutcome where
  | supported | refuted | inconclusive
  deriving DecidableEq, Repr

namespace CaseVerdictOutcome

def value : CaseVerdictOutcome → String
  | supported => "supported"
  | refuted => "refuted"
  | inconclusive => "inconclusive"

end CaseVerdictOutcome

/-- `CaseDisposition`. -/
inductive CaseDisposition where
  | approve | reject | defer
  deriving DecidableEq, Repr

namespace CaseDisposition

def value : CaseDisposition → String
  | approve => "approve"
  | reject => "reject"
  | defer => "defer"

end CaseDisposition

/-- The fields of a plan, without the comparator profile, which has one value. -/
structure PlanFields (D : Type) where
  caseId : Identifier
  workflowId : Identifier
  claimId : Identifier
  scope : Identifier
  proposerId : Identifier
  assertionArtifactId : Identifier
  assertionSha256 : D
  hypothesis : Description 2048
  prediction : Description 2048
  expectedObservationText : String
  inputArtifactId : Identifier
  inputSha256 : D
  predictionSha256 : D
  testId : Identifier
  adapterId : Identifier
  adapterVersion : Identifier
  authorityDigest : D
  deriving DecidableEq

namespace PlanFields

def items (p : PlanFields D) : List (String × Json) :=
  [("kind", .str "evidence-braid-case-plan"), ("schema_version", .str "1.0"),
    ("case_id", .str p.caseId.value), ("workflow_id", .str p.workflowId.value),
    ("claim_id", .str p.claimId.value), ("scope", .str p.scope.value),
    ("proposer_id", .str p.proposerId.value),
    ("assertion_artifact_id", .str p.assertionArtifactId.value),
    ("assertion_sha256", .str (hex p.assertionSha256)), ("hypothesis", .str p.hypothesis.value),
    ("prediction", .str p.prediction.value),
    ("expected_observation_text", .str p.expectedObservationText),
    ("input_artifact_id", .str p.inputArtifactId.value), ("input_sha256", .str (hex p.inputSha256)),
    ("prediction_sha256", .str (hex p.predictionSha256)), ("test_id", .str p.testId.value),
    ("adapter_id", .str p.adapterId.value), ("adapter_version", .str p.adapterVersion.value),
    ("comparator_profile", .str "sha256-equality-v1"),
    ("authority_digest", .str (hex p.authorityDigest))]

/-- `to_dict`. -/
def toDict (p : PlanFields D) : Json := Json.dict p.items

/-- `to_bytes`. -/
def toBytes (p : PlanFields D) : Bytes := canonicalBytes p.toDict

/-- `digest`. -/
def digest (p : PlanFields D) : D := caseHash 'P' p.toBytes

def expectedBytes (p : PlanFields D) : Bytes := Utf8.encode p.expectedObservationText.toList

/-- What the constructor checks beyond the single fields. -/
structure Valid (p : PlanFields D) : Prop where
  text : isXmlCharacter p.expectedObservationText = true
  text_length : p.expectedBytes.length ≤ 4096
  text_digest : sha256 p.expectedBytes = p.predictionSha256
  artifacts_ne : p.assertionArtifactId ≠ p.inputArtifactId
  size_le : p.toBytes.length ≤ maxCaseRecordBytes

end PlanFields

/-- `CasePlan`. -/
structure CasePlan (D : Type) [Hashing D] extends PlanFields D where
  ok : toPlanFields.Valid

theorem CasePlan.ext_fields {p q : CasePlan D} (h : p.toPlanFields = q.toPlanFields) : p = q := by
  cases p; cases q; cases h; rfl

/-- `CaseObservation`: an output and its artifact, or an error code. -/
structure CaseObservation (D : Type) where
  planDigest : D
  requestId : Identifier
  observerId : Identifier
  status : CaseObservationStatus
  inputSha256 : D
  observedSha256 : Option D
  artifactId : Option Identifier
  errorCode : Option Identifier
  output_taken : observedSha256.isSome = decide (status = .observed) ∧
    artifactId.isSome = decide (status = .observed)
  error_taken : errorCode.isSome = decide (status ≠ .observed)
  deriving DecidableEq

namespace CaseObservation

def items (o : CaseObservation D) : List (String × Json) :=
  [("kind", .str "evidence-braid-case-observation"), ("schema_version", .str "1.0"),
    ("plan_digest", .str (hex o.planDigest)), ("request_id", .str o.requestId.value),
    ("observer_id", .str o.observerId.value), ("status", .str o.status.value),
    ("input_sha256", .str (hex o.inputSha256)),
    ("observed_sha256", takenJson hex o.observedSha256),
    ("artifact_id", takenJson Identifier.value o.artifactId),
    ("error_code", takenJson Identifier.value o.errorCode)]

/-- `to_dict`. -/
def toDict (o : CaseObservation D) : Json := Json.dict o.items

/-- `to_bytes`, which is always within the bound. -/
def toBytes (o : CaseObservation D) : Bytes := canonicalBytes o.toDict

/-- `digest`. -/
def digest (o : CaseObservation D) : D := caseHash 'O' o.toBytes

end CaseObservation

/-- `CaseVerdict`. -/
structure CaseVerdict (D : Type) where
  planDigest : D
  observationDigest : D
  evaluatorId : Identifier
  outcome : CaseVerdictOutcome
  deriving DecidableEq

namespace CaseVerdict

def items (v : CaseVerdict D) : List (String × Json) :=
  [("kind", .str "evidence-braid-case-verdict"), ("schema_version", .str "1.0"),
    ("plan_digest", .str (hex v.planDigest)),
    ("observation_digest", .str (hex v.observationDigest)),
    ("evaluator_id", .str v.evaluatorId.value), ("outcome", .str v.outcome.value)]

/-- `to_dict`. -/
def toDict (v : CaseVerdict D) : Json := Json.dict v.items

/-- `to_bytes`, which is always within the bound. -/
def toBytes (v : CaseVerdict D) : Bytes := canonicalBytes v.toDict

/-- `digest`. -/
def digest (v : CaseVerdict D) : D := caseHash 'V' v.toBytes

end CaseVerdict

/-- `CaseDecision`. -/
structure CaseDecision (D : Type) where
  verdictDigest : D
  deciderId : Identifier
  disposition : CaseDisposition
  reason : Description 512
  deriving DecidableEq

namespace CaseDecision

def items (d : CaseDecision D) : List (String × Json) :=
  [("kind", .str "evidence-braid-case-decision"), ("schema_version", .str "1.0"),
    ("verdict_digest", .str (hex d.verdictDigest)), ("decider_id", .str d.deciderId.value),
    ("disposition", .str d.disposition.value), ("reason", .str d.reason.value)]

/-- `to_dict`. -/
def toDict (d : CaseDecision D) : Json := Json.dict d.items

/-- `to_bytes`, which is always within the bound. -/
def toBytes (d : CaseDecision D) : Bytes := canonicalBytes d.toDict

end CaseDecision

/-- `CaseRecord`. -/
inductive CaseRecord (D : Type) [Hashing D] where
  | plan (p : CasePlan D)
  | observation (o : CaseObservation D)
  | verdict (v : CaseVerdict D)
  | decision (d : CaseDecision D)

namespace CaseRecord

/-- `to_dict`. -/
def toDict : CaseRecord D → Json
  | plan p => p.toDict
  | observation o => o.toDict
  | verdict v => v.toDict
  | decision d => d.toDict

/-- `to_bytes`. -/
def toBytes (r : CaseRecord D) : Bytes := canonicalBytes r.toDict

end CaseRecord

/-! ## Receipts and journals -/

/-- `_genesis`. -/
def caseGenesis (authorityDigest : D) : D := caseHash 'G' (fromhex authorityDigest)

/-- `n.to_bytes(4, "big")`. -/
def fourBytes (n : ℕ) : Bytes :=
  [n / 256 ^ 3, n / 256 ^ 2, n / 256, n].map fun k => UInt8.ofNat (k % 256)

/-- `_receipt_digest`. -/
def caseReceiptDigest (sequence : ℕ) (previous : D) (record : CaseRecord D) : D :=
  caseHash 'R' (fourBytes sequence ++ fromhex previous ++ record.toBytes)

/-- `CaseReceipt`. -/
structure CaseReceipt (D : Type) [Hashing D] where
  sequence : ℕ
  previousDigest : D
  record : CaseRecord D
  digest : D
  sequence_lt : sequence < maxCaseRecords
  digest_eq : digest = caseReceiptDigest sequence previousDigest record

namespace CaseReceipt

def items (r : CaseReceipt D) : List (String × Json) :=
  [("sequence", .int r.sequence), ("previous_digest", .str (hex r.previousDigest)),
    ("record", r.record.toDict), ("digest", .str (hex r.digest))]

/-- `to_dict`. -/
def toDict (r : CaseReceipt D) : Json := Json.dict r.items

end CaseReceipt

/-- `CaseCheckpoint`. -/
structure CaseCheckpoint (D : Type) where
  recordCount : ℕ
  headDigest : D
  count_le : recordCount ≤ maxCaseRecords
  deriving DecidableEq

/-- Receipts that follow each other from a position and a digest on. -/
def LinkedCase (sequence : ℕ) (previous : D) : List (CaseReceipt D) → Prop
  | [] => True
  | r :: rs => (r.sequence = sequence ∧ r.previousDigest = previous) ∧
      LinkedCase (sequence + 1) r.digest rs

/-- The document of a journal. -/
def caseJournalItems (authorityDigest : D) (receipts : List (CaseReceipt D)) :
    List (String × Json) :=
  [("kind", .str "evidence-braid-case-journal"), ("schema_version", .str "1.0"),
    ("authority_digest", .str (hex authorityDigest)),
    ("receipts", .arr (receipts.map CaseReceipt.toDict))]

/-- `CaseJournal`. -/
structure CaseJournal (D : Type) [Hashing D] where
  authorityDigest : D
  receipts : List (CaseReceipt D)
  length_le : receipts.length ≤ maxCaseRecords
  linked : LinkedCase 0 (caseGenesis authorityDigest) receipts
  size_le : (canonicalBytes (Json.dict (caseJournalItems authorityDigest receipts))).length ≤
    maxCaseWireBytes

namespace CaseJournal

theorem ext_fields {j k : CaseJournal D} (ha : j.authorityDigest = k.authorityDigest)
    (hr : j.receipts = k.receipts) : j = k := by
  cases j; cases k; cases ha; cases hr; rfl

/-- `head_digest`. -/
def headDigest (j : CaseJournal D) : D :=
  (j.receipts.getLast?.map (·.digest)).getD (caseGenesis j.authorityDigest)

/-- `checkpoint`. -/
def checkpoint (j : CaseJournal D) : CaseCheckpoint D :=
  ⟨j.receipts.length, j.headDigest, j.length_le⟩

def records (j : CaseJournal D) : List (CaseRecord D) := j.receipts.map (·.record)

end CaseJournal

variable [DecidableEq D]

instance decidableLinkedCase (sequence : ℕ) (previous : D) :
    ∀ rs : List (CaseReceipt D), Decidable (LinkedCase sequence previous rs)
  | [] => inferInstanceAs (Decidable True)
  | r :: rs =>
    have := decidableLinkedCase (sequence + 1) r.digest rs
    inferInstanceAs (Decidable (_ ∧ _))

/-- The constructor of a journal. -/
def CaseJournal.make (authorityDigest : D) (receipts : List (CaseReceipt D)) :
    Result (CaseJournal D) :=
  if hlength : receipts.length ≤ maxCaseRecords then
    if hlinked : LinkedCase 0 (caseGenesis authorityDigest) receipts then
      if hsize : (canonicalBytes (Json.dict (caseJournalItems authorityDigest receipts))).length ≤
          maxCaseWireBytes then
        .ok ⟨authorityDigest, receipts, hlength, hlinked, hsize⟩
      else .error (.validation "case journal exceeds its byte bound")
    else .error (.validation "case receipt chain is not contiguous")
  else .error (.validation "case journal needs bounded immutable receipts")

/-! ## Replay -/

/-- `CasePhase`. -/
inductive CasePhase where
  | empty | planned | observed | verdicted | decided
  deriving DecidableEq, Repr

/-- What the loop of `replay_case` carries. -/
structure CaseProgress (D : Type) [Hashing D] where
  phase : CasePhase
  plan : Option (CasePlan D)
  observation : Option (CaseObservation D)
  verdict : Option (CaseVerdict D)
  decision : Option (CaseDecision D)

/-- The outcome that a verdict on the observation has to state. -/
def expectedOutcome (p : CasePlan D) (o : CaseObservation D) : CaseVerdictOutcome :=
  if o.status ≠ .observed then .inconclusive
  else if o.observedSha256 = some p.predictionSha256 then .supported
  else .refuted

/-- One record of the loop. -/
def replayRecord (authority : CaseAuthority) (s : CaseProgress D) :
    CaseRecord D → Result (CaseProgress D)
  | .plan p => do
    valid (s.phase = .empty ∧ p.authorityDigest = authority.digest)
      "case plan must be first and use trusted authority"
    valid (authority.admits p.proposerId (fun _ => true) p.scope .propose)
      "case proposer lacks exact scoped authority"
    .ok { s with plan := some p, phase := .planned }
  | .observation o => do
    valid (s.phase = .planned) "case observation needs one preceding plan"
    let p ← orError s.plan (.validation "case observation needs one preceding plan")
    valid (o.planDigest = p.digest ∧ o.inputSha256 = p.inputSha256 ∧ o.observerId ≠ p.proposerId ∧
        o.artifactId ≠ some p.assertionArtifactId ∧ o.artifactId ≠ some p.inputArtifactId ∧
        authority.admits o.observerId (· = .tool) p.scope .observe)
      "case observation lacks plan binding or independent authority"
    .ok { s with observation := some o, phase := .observed }
  | .verdict v => do
    valid (s.phase = .observed) "case verdict needs one preceding observation"
    let p ← orError s.plan (.validation "case verdict needs one preceding observation")
    let o ← orError s.observation (.validation "case verdict needs one preceding observation")
    valid (v.planDigest = p.digest ∧ v.observationDigest = o.digest ∧ v.evaluatorId ≠ p.proposerId ∧
        v.evaluatorId ≠ o.observerId ∧
        authority.admits v.evaluatorId (· ≠ .model) p.scope .evaluate)
      "case verdict lacks bindings or independent authority"
    valid (v.outcome = expectedOutcome p o) "case verdict conflicts with the committed observation"
    .ok { s with verdict := some v, phase := .verdicted }
  | .decision d => do
    valid (s.phase = .verdicted) "case decision needs one preceding verdict"
    let p ← orError s.plan (.validation "case decision needs one preceding verdict")
    let v ← orError s.verdict (.validation "case decision needs one preceding verdict")
    valid (d.verdictDigest = v.digest ∧ d.deciderId ≠ p.proposerId ∧
        s.observation.map (·.observerId) ≠ some d.deciderId ∧ d.deciderId ≠ v.evaluatorId ∧
        authority.admits d.deciderId (fun k => k = .human || k = .policy) p.scope .decide)
      "case decision lacks verdict binding or independent authority"
    valid (d.disposition = .approve → v.outcome = .supported) "unsupported case cannot be approved"
    .ok { s with decision := some d, phase := .decided }

/-- The loop over the receipts. -/
def replayRecords (authority : CaseAuthority) (s : CaseProgress D) :
    List (CaseRecord D) → Result (CaseProgress D)
  | [] => .ok s
  | r :: rs => do
    let t ← replayRecord authority s r
    replayRecords authority t rs

/-- `CaseState`. -/
structure CaseState (D : Type) where
  phase : CasePhase
  caseId : Option Identifier
  outcome : Option CaseVerdictOutcome
  decision : Option (CaseDecision D)
  checkpoint : CaseCheckpoint D

/-- `replay_case`. -/
def replayCase (journal : CaseJournal D) (authority : CaseAuthority) (expectedHead : Option D) :
    Result (CaseState D) := do
  valid (journal.authorityDigest = authority.digest)
    "case journal authority differs from the trusted policy"
  valid (∀ head ∈ expectedHead, journal.headDigest = head)
    "case journal differs from the expected head"
  let s ← replayRecords authority ⟨.empty, none, none, none, none⟩ journal.records
  .ok ⟨s.phase, s.plan.map (·.caseId), s.verdict.map (·.outcome), s.decision, journal.checkpoint⟩

/-! ## Appending -/

/-- The receipt of a record after this head. -/
abbrev CaseReceipt.seal (sequence : ℕ) (previous : D) (record : CaseRecord D)
    (h : sequence < maxCaseRecords) : CaseReceipt D :=
  ⟨sequence, previous, record, caseReceiptDigest sequence previous record, h, rfl⟩

/-- The receipts that `append` adds. -/
def sealRecords (sequence : ℕ) (previous : D) : List (CaseRecord D) → Result (List (CaseReceipt D))
  | [] => .ok []
  | r :: rs =>
    if h : sequence < maxCaseRecords then do
      let receipt : CaseReceipt D := .seal sequence previous r h
      let rest ← sealRecords (sequence + 1) receipt.digest rs
      .ok (receipt :: rest)
    else .error (.validation "case receipt sequence must be an integer between 0 and 511")

/-- `append`. -/
def CaseJournal.append (journal : CaseJournal D) (records : List (CaseRecord D))
    (authority : CaseAuthority) (expected : Option (CaseCheckpoint D)) :
    Result (CaseJournal D) := do
  let _ ← replayCase journal authority none
  valid (records ≠ [] ∧ journal.receipts.length + records.length ≤ maxCaseRecords)
    "case append needs a bounded nonempty immutable record tuple"
  valid (∀ checkpoint ∈ expected, checkpoint = journal.checkpoint)
    "case append checkpoint is stale"
  let added ← sealRecords journal.receipts.length journal.headDigest records
  let candidate ← CaseJournal.make journal.authorityDigest (journal.receipts ++ added)
  let _ ← replayCase candidate authority none
  .ok candidate

end EvidenceBraid
