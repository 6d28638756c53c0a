import EvidenceBraid.EpistemicCase

/-!
# Cases as documents

The readers of `epistemic_case.py` for records, receipts and journals. Each reads exactly the
documents that it writes (`…fromDict_eq_ok`), and the documents of all records but plans are within
the byte bounds that their constructors check.
-/

namespace EvidenceBraid

open Hashing
open Json (WellKeyed)

variable {D : Type} [Hashing D]

/-! ## Readers -/

/-- `_fields`. -/
def caseFields (value : Json) (names : List String) (label : String) :
    Result (List (String × Json)) :=
  wrapping PyError.isValidationError (label ++ " requires exactly its versioned fields")
    (exactly value names label)

theorem caseFields_eq_ok {value : Json} {names : List String} {label : String}
    {kvs : List (String × Json)} : caseFields value names label = .ok kvs ↔
      value = .obj kvs ∧ ∀ k, k ∈ Json.keys kvs ↔ k ∈ names := by
  rw [caseFields, wrapping_eq_ok, exactly_eq_ok]

/-- `_profile`. -/
def caseProfile (data : List (String × Json)) (kind : String) : Result Unit :=
  valid (Json.get? data "kind" = some (.str kind) ∧
    Json.get? data "schema_version" = some (.str "1.0")) "unsupported epistemic case wire profile"

/-- The enumerations' members. -/
def CaseObservationStatus.members : List (String × CaseObservationStatus) :=
  [.observed, .unavailable, .error].map fun a => (CaseObservationStatus.value a, a)

theorem CaseObservationStatus.enumTexts :
    EnumTexts CaseObservationStatus.members CaseObservationStatus.value :=
  enumTexts_of_forall (by intro a; cases a <;> rfl) (by decide)

def CaseVerdictOutcome.members : List (String × CaseVerdictOutcome) :=
  [.supported, .refuted, .inconclusive].map fun a => (CaseVerdictOutcome.value a, a)

theorem CaseVerdictOutcome.enumTexts :
    EnumTexts CaseVerdictOutcome.members CaseVerdictOutcome.value :=
  enumTexts_of_forall (by intro a; cases a <;> rfl) (by decide)

def CaseDisposition.members : List (String × CaseDisposition) :=
  [.approve, .reject, .defer].map fun a => (CaseDisposition.value a, a)

theorem CaseDisposition.enumTexts : EnumTexts CaseDisposition.members CaseDisposition.value :=
  enumTexts_of_forall (by intro a; cases a <;> rfl) (by decide)

/-! ## Plans -/

namespace PlanFields

def fields : List String :=
  ["adapter_id", "adapter_version", "assertion_artifact_id", "assertion_sha256",
    "authority_digest", "case_id", "claim_id", "comparator_profile", "expected_observation_text",
    "hypothesis", "input_artifact_id", "input_sha256", "kind", "prediction", "prediction_sha256",
    "proposer_id", "schema_version", "scope", "test_id", "workflow_id"]

theorem nodup_keys_items (p : PlanFields D) : (Json.keys p.items).Nodup := by
  simp only [items, Json.keys, List.map_cons, List.map_nil]
  decide

theorem mem_keys_items (p : PlanFields D) (k : String) : k ∈ Json.keys p.items ↔ k ∈ fields := by
  refine List.Perm.mem_iff ?_
  simp only [items, Json.keys, List.map_cons, List.map_nil]
  decide

theorem readable_toDict {hooks : Json.Hooks} (p : PlanFields D) : Json.Readable hooks p.toDict := by
  refine Json.readable_dict ?_
  intro kv hkv
  simp only [items, List.mem_cons, List.not_mem_nil, or_false] at hkv
  rcases hkv with rfl | rfl | rfl | rfl | rfl | rfl | rfl | rfl | rfl | rfl | rfl | rfl | rfl |
    rfl | rfl | rfl | rfl | rfl | rfl | rfl <;> simp

/-- `expected_observation_text`, before its characters are checked. -/
def textField (value : Option Json) : Result String :=
  match value with
  | some (.str s) => .ok s
  | _ => .error (.validation "expected observation must be exact UTF-8 text")

theorem textField_eq_ok {value : Option Json} {s : String} :
    textField value = .ok s ↔ value = some (.str s) := by
  unfold textField
  split
  · simp
  · next h =>
    simp only [reduceCtorEq, false_iff]
    exact fun heq => h s heq

end PlanFields

namespace CasePlan

variable [DecidableEq D]

/-- The checks of the constructor that are not on single fields. -/
def make (p : PlanFields D) (comparatorProfile : Option Json) : Result (CasePlan D) :=
  if htext : isXmlCharacter p.expectedObservationText = true then
    if hlength : p.expectedBytes.length ≤ 4096 then
      if hdigest : sha256 p.expectedBytes = p.predictionSha256 then
        if hartifacts : p.assertionArtifactId ≠ p.inputArtifactId then
          if comparatorProfile = some (.str "sha256-equality-v1") then
            if hsize : p.toBytes.length ≤ maxCaseRecordBytes then
              .ok ⟨p, htext, hlength, hdigest, hartifacts, hsize⟩
            else .error (.validation "case plan exceeds its byte bound")
          else .error (.validation "case plan comparator profile is unsupported")
        else .error (.validation "case assertion and input artifact IDs must differ")
      else .error (.validation "expected observation text and prediction digest differ")
    else .error (.validation "expected observation exceeds the byte bound")
  else .error (.validation "expected observation contains unsupported text")

theorem make_eq_ok {f : PlanFields D} {profile : Option Json} {p : CasePlan D} :
    make f profile = .ok p ↔
      p.toPlanFields = f ∧ profile = some (.str "sha256-equality-v1") := by
  constructor
  · intro h
    simp only [make, dite_error_eq_ok, ite_error_eq_ok] at h
    obtain ⟨_, _, _, _, hprofile, _, h⟩ := h
    rw [← Except.ok.inj h]
    exact ⟨rfl, hprofile⟩
  · rintro ⟨rfl, hprofile⟩
    rw [make, dif_pos p.ok.text, dif_pos p.ok.text_length, dif_pos p.ok.text_digest,
      dif_pos p.ok.artifacts_ne, if_pos hprofile, dif_pos p.ok.size_le]

/-- `from_dict` and the constructor. -/
def fromDict (value : Json) : Result (CasePlan D) := do
  let data ← caseFields value PlanFields.fields "case plan"
  caseProfile data "evidence-braid-case-plan"
  let caseId ← identifierField (Json.get? data "case_id") "case plan case_id"
  let workflowId ← identifierField (Json.get? data "workflow_id") "case plan workflow_id"
  let claimId ← identifierField (Json.get? data "claim_id") "case plan claim_id"
  let scope ← identifierField (Json.get? data "scope") "case plan scope"
  let proposerId ← identifierField (Json.get? data "proposer_id") "case plan proposer_id"
  let assertionArtifactId ← identifierField (Json.get? data "assertion_artifact_id")
    "case plan assertion_artifact_id"
  let inputArtifactId ← identifierField (Json.get? data "input_artifact_id")
    "case plan input_artifact_id"
  let testId ← identifierField (Json.get? data "test_id") "case plan test_id"
  let adapterId ← identifierField (Json.get? data "adapter_id") "case plan adapter_id"
  let adapterVersion ← identifierField (Json.get? data "adapter_version")
    "case plan adapter_version"
  let assertionSha256 ← hashField (Json.get? data "assertion_sha256") "case plan assertion_sha256"
  let inputSha256 ← hashField (Json.get? data "input_sha256") "case plan input_sha256"
  let predictionSha256 ← hashField (Json.get? data "prediction_sha256")
    "case plan prediction_sha256"
  let authorityDigest ← hashField (Json.get? data "authority_digest") "case plan authority_digest"
  let hypothesis ← descriptionField (Json.get? data "hypothesis") "case plan hypothesis" 2048
  let prediction ← descriptionField (Json.get? data "prediction") "case plan prediction" 2048
  let text ← PlanFields.textField (Json.get? data "expected_observation_text")
  make ⟨caseId, workflowId, claimId, scope, proposerId, assertionArtifactId, assertionSha256,
    hypothesis, prediction, text, inputArtifactId, inputSha256, predictionSha256, testId, adapterId,
    adapterVersion, authorityDigest⟩ (Json.get? data "comparator_profile")

/-- **A plan survives its document.** -/
@[simp] theorem fromDict_toDict (p : CasePlan D) : fromDict p.toDict = .ok p := by
  have hget := Json.get?_foldr_insertKey p.nodup_keys_items
  simp only [fromDict, bind_eq_ok]
  refine ⟨_, caseFields_eq_ok.mpr ⟨rfl, fun k => ?_⟩, (), ?_, p.caseId, ?_, p.workflowId, ?_,
    p.claimId, ?_, p.scope, ?_, p.proposerId, ?_, p.assertionArtifactId, ?_, p.inputArtifactId, ?_,
    p.testId, ?_, p.adapterId, ?_, p.adapterVersion, ?_, p.assertionSha256, ?_, p.inputSha256, ?_,
    p.predictionSha256, ?_, p.authorityDigest, ?_, p.hypothesis, ?_, p.prediction, ?_,
    p.expectedObservationText, ?_, make_eq_ok.mpr ⟨rfl, ?_⟩⟩
  · exact (Json.mem_keys_foldr_insertKey_iff p.nodup_keys_items).trans (p.mem_keys_items k)
  all_goals try rw [caseProfile]
  all_goals repeat rw [hget]
  · exact valid_of ⟨rfl, rfl⟩
  · exact identifierField_value _ _
  · exact identifierField_value _ _
  · exact identifierField_value _ _
  · exact identifierField_value _ _
  · exact identifierField_value _ _
  · exact identifierField_value _ _
  · exact identifierField_value _ _
  · exact identifierField_value _ _
  · exact identifierField_value _ _
  · exact identifierField_value _ _
  · exact hashField_eq_ok.mpr rfl
  · exact hashField_eq_ok.mpr rfl
  · exact hashField_eq_ok.mpr rfl
  · exact hashField_eq_ok.mpr rfl
  · exact descriptionField_eq_ok.mpr rfl
  · exact descriptionField_eq_ok.mpr rfl
  · exact PlanFields.textField_eq_ok.mpr rfl
  · rfl

/-- A document that is read as a plan is the plan's own. -/
theorem eq_toDict_of_fromDict {value : Json} {p : CasePlan D} (hvalue : WellKeyed value)
    (h : fromDict value = .ok p) : value = p.toDict := by
  simp only [fromDict, bind_eq_ok, caseFields_eq_ok, caseProfile, valid_eq_ok, exists_unit,
    identifierField_eq_ok, hashField_eq_ok, descriptionField_eq_ok, PlanFields.textField_eq_ok,
    make_eq_ok] at h
  obtain ⟨data, ⟨rfl, hkeys⟩, ⟨hkind, hversion⟩, caseId, h₁, workflowId, h₂, claimId, h⟩ := h
  obtain ⟨h₃, scope, h₄, proposerId, h₅, assertionId, h₆, inputId, h⟩ := h
  obtain ⟨h₇, testId, h₈, adapterId, h₉, adapterVersion, h₁₀, assertion, h⟩ := h
  obtain ⟨h₁₁, input, h₁₂, predictionSha, h₁₃, authority, h₁₄, hypothesis, h⟩ := h
  obtain ⟨h₁₅, prediction, h₁₆, text, h₁₇, hp, hprofile⟩ := h
  refine Json.obj_eq_dict (Json.wellKeyed_obj.mp hvalue).1 p.nodup_keys_items
    (fun k hk => (p.mem_keys_items k).mpr ((hkeys k).mp hk)) ?_
  simp [PlanFields.items, hp, hkind, hversion, hprofile, h₁, h₂, h₃, h₄, h₅, h₆, h₇, h₈, h₉, h₁₀,
    h₁₁, h₁₂, h₁₃, h₁₄, h₁₅, h₁₆, h₁₇]

end CasePlan

/-! ## Observations -/

namespace CaseObservation

def fields : List String :=
  ["artifact_id", "error_code", "input_sha256", "kind", "observed_sha256", "observer_id",
    "plan_digest", "request_id", "schema_version", "status"]

theorem nodup_keys_items (o : CaseObservation D) : (Json.keys o.items).Nodup := by
  simp only [items, Json.keys, List.map_cons, List.map_nil]
  decide

theorem mem_keys_items (o : CaseObservation D) (k : String) :
    k ∈ Json.keys o.items ↔ k ∈ fields := by
  refine List.Perm.mem_iff ?_
  simp only [items, Json.keys, List.map_cons, List.map_nil]
  decide

theorem readable_toDict {hooks : Json.Hooks} (o : CaseObservation D) :
    Json.Readable hooks o.toDict := by
  refine Json.readable_dict ?_
  intro kv hkv
  simp only [items, List.mem_cons, List.not_mem_nil, or_false] at hkv
  rcases hkv with rfl | rfl | rfl | rfl | rfl | rfl | rfl | rfl | rfl | rfl <;>
    simp [readable_takenJson]

/-- The error code of a failed observation. -/
def errorCodeField (value : Option Json) : Result Identifier :=
  if value = some .null then
    .error (.validation "failed observation needs only a bounded error code")
  else identifierField value "case observation error code"

theorem errorCodeField_eq_ok (value : Option Json) (i : Identifier) :
    errorCodeField value = .ok i ↔ value = some (.str i.value) := by
  unfold errorCodeField
  split_ifs with hnull
  · simp [hnull]
  · exact identifierField_eq_ok

/-- `from_dict` and the constructor. -/
def fromDict (value : Json) : Result (CaseObservation D) := do
  let data ← caseFields value fields "case observation"
  caseProfile data "evidence-braid-case-observation"
  let status ← enumString CaseObservationStatus.members (Json.get? data "status")
    "case observation status"
  let planDigest ← hashField (Json.get? data "plan_digest") "case observation plan digest"
  let inputSha256 ← hashField (Json.get? data "input_sha256") "case observation input digest"
  let requestId ← identifierField (Json.get? data "request_id") "case observation request ID"
  let observerId ← identifierField (Json.get? data "observer_id") "case observation actor ID"
  let observedSha256 ← takenField (decide (status = .observed)) (Json.get? data "observed_sha256")
    (hashField · "case observation output digest")
    "failed observation needs only a bounded error code"
  let artifactId ← takenField (decide (status = .observed)) (Json.get? data "artifact_id")
    (identifierField · "case observation artifact ID")
    "failed observation needs only a bounded error code"
  let errorCode ← takenField (decide (status ≠ .observed)) (Json.get? data "error_code")
    errorCodeField "observed case cannot also report an error"
  .ok ⟨planDigest, requestId, observerId, status, inputSha256, observedSha256.1, artifactId.1,
    errorCode.1, ⟨observedSha256.2, artifactId.2⟩, errorCode.2⟩

/-- **An observation survives its document.** -/
@[simp] theorem fromDict_toDict (o : CaseObservation D) : fromDict o.toDict = .ok o := by
  have hget := Json.get?_foldr_insertKey o.nodup_keys_items
  simp only [fromDict, bind_eq_ok]
  refine ⟨_, caseFields_eq_ok.mpr ⟨rfl, fun k => ?_⟩, (), ?_, o.status, ?_, o.planDigest, ?_,
    o.inputSha256, ?_, o.requestId, ?_, o.observerId, ?_, ⟨o.observedSha256, o.output_taken.1⟩, ?_,
    ⟨o.artifactId, o.output_taken.2⟩, ?_, ⟨o.errorCode, o.error_taken⟩, ?_, rfl⟩
  · exact (Json.mem_keys_foldr_insertKey_iff o.nodup_keys_items).trans (o.mem_keys_items k)
  all_goals try rw [caseProfile]
  all_goals repeat rw [hget]
  · exact valid_of ⟨rfl, rfl⟩
  · exact CaseObservationStatus.enumTexts.eq_ok.mpr rfl
  · exact hashField_eq_ok.mpr rfl
  · exact hashField_eq_ok.mpr rfl
  · exact identifierField_value _ _
  · exact identifierField_value _ _
  · exact (takenField_eq_ok WorkflowTransition.digest_read).mpr rfl
  · exact (takenField_eq_ok WorkflowTransition.reference_read).mpr rfl
  · exact (takenField_eq_ok errorCodeField_eq_ok).mpr rfl

/-- A document that is read as an observation is the observation's own. -/
theorem eq_toDict_of_fromDict {value : Json} {o : CaseObservation D} (hvalue : WellKeyed value)
    (h : fromDict value = .ok o) : value = o.toDict := by
  simp only [fromDict, bind_eq_ok, caseFields_eq_ok, caseProfile, valid_eq_ok, exists_unit,
    identifierField_eq_ok, hashField_eq_ok, CaseObservationStatus.enumTexts.eq_ok,
    Except.ok.injEq] at h
  obtain ⟨data, ⟨rfl, hkeys⟩, ⟨hkind, hversion⟩, status, hstatus, planDigest, h₁, h⟩ := h
  obtain ⟨input, h₂, requestId, h₃, observerId, h₄, observed, h⟩ := h
  obtain ⟨hobserved, artifactId, hartifact, errorCode, herror, rfl⟩ := h
  have hpresent : ∀ k ∈ fields, ∃ v, Json.get? data k = some v := fun k hk =>
    Option.isSome_iff_exists.mp (Json.mem_keys_iff.mp ((hkeys k).mpr hk))
  obtain ⟨u, hu⟩ := hpresent "observed_sha256" (by decide)
  obtain ⟨v, hv⟩ := hpresent "artifact_id" (by decide)
  obtain ⟨w, hw⟩ := hpresent "error_code" (by decide)
  rw [hu, takenField_eq_ok WorkflowTransition.digest_read] at hobserved
  rw [hv, takenField_eq_ok WorkflowTransition.reference_read] at hartifact
  rw [hw, takenField_eq_ok errorCodeField_eq_ok] at herror
  refine Json.obj_eq_dict (Json.wellKeyed_obj.mp hvalue).1 (nodup_keys_items _)
    (fun k hk => (mem_keys_items _ k).mpr ((hkeys k).mp hk)) ?_
  simp [items, hkind, hversion, hstatus, h₁, h₂, h₃, h₄, hu, hv, hw, hobserved, hartifact, herror]

end CaseObservation

/-! ## Verdicts -/

namespace CaseVerdict

def fields : List String :=
  ["evaluator_id", "kind", "observation_digest", "outcome", "plan_digest", "schema_version"]

theorem nodup_keys_items (v : CaseVerdict D) : (Json.keys v.items).Nodup := by
  simp only [items, Json.keys, List.map_cons, List.map_nil]
  decide

theorem mem_keys_items (v : CaseVerdict D) (k : String) : k ∈ Json.keys v.items ↔ k ∈ fields := by
  refine List.Perm.mem_iff ?_
  simp only [items, Json.keys, List.map_cons, List.map_nil]
  decide

theorem readable_toDict {hooks : Json.Hooks} (v : CaseVerdict D) :
    Json.Readable hooks v.toDict := by
  refine Json.readable_dict ?_
  intro kv hkv
  simp only [items, List.mem_cons, List.not_mem_nil, or_false] at hkv
  rcases hkv with rfl | rfl | rfl | rfl | rfl | rfl <;> simp

/-- `from_dict` and the constructor. -/
def fromDict (value : Json) : Result (CaseVerdict D) := do
  let data ← caseFields value fields "case verdict"
  caseProfile data "evidence-braid-case-verdict"
  let outcome ← enumString CaseVerdictOutcome.members (Json.get? data "outcome")
    "case verdict outcome"
  let planDigest ← hashField (Json.get? data "plan_digest") "case verdict plan digest"
  let observationDigest ← hashField (Json.get? data "observation_digest")
    "case verdict observation digest"
  let evaluatorId ← identifierField (Json.get? data "evaluator_id") "case evaluator ID"
  .ok ⟨planDigest, observationDigest, evaluatorId, outcome⟩

/-- **A verdict survives its document.** -/
@[simp] theorem fromDict_toDict (v : CaseVerdict D) : fromDict v.toDict = .ok v := by
  have hget := Json.get?_foldr_insertKey v.nodup_keys_items
  simp only [fromDict, bind_eq_ok]
  refine ⟨_, caseFields_eq_ok.mpr ⟨rfl, fun k => ?_⟩, (), ?_, v.outcome, ?_, v.planDigest, ?_,
    v.observationDigest, ?_, v.evaluatorId, ?_, rfl⟩
  · exact (Json.mem_keys_foldr_insertKey_iff v.nodup_keys_items).trans (v.mem_keys_items k)
  all_goals try rw [caseProfile]
  all_goals repeat rw [hget]
  · exact valid_of ⟨rfl, rfl⟩
  · exact CaseVerdictOutcome.enumTexts.eq_ok.mpr rfl
  · exact hashField_eq_ok.mpr rfl
  · exact hashField_eq_ok.mpr rfl
  · exact identifierField_value _ _

/-- A document that is read as a verdict is the verdict's own. -/
theorem eq_toDict_of_fromDict {value : Json} {v : CaseVerdict D} (hvalue : WellKeyed value)
    (h : fromDict value = .ok v) : value = v.toDict := by
  simp only [fromDict, bind_eq_ok, caseFields_eq_ok, caseProfile, valid_eq_ok, exists_unit,
    identifierField_eq_ok, hashField_eq_ok, CaseVerdictOutcome.enumTexts.eq_ok,
    Except.ok.injEq] at h
  obtain ⟨data, ⟨rfl, hkeys⟩, ⟨hkind, hversion⟩, outcome, houtcome, planDigest, h⟩ := h
  obtain ⟨h₁, observation, h₂, evaluatorId, h₃, rfl⟩ := h
  refine Json.obj_eq_dict (Json.wellKeyed_obj.mp hvalue).1 (nodup_keys_items _)
    (fun k hk => (mem_keys_items _ k).mpr ((hkeys k).mp hk)) ?_
  simp [items, hkind, hversion, houtcome, h₁, h₂, h₃]

end CaseVerdict

/-! ## Decisions -/

namespace CaseDecision

def fields : List String :=
  ["decider_id", "disposition", "kind", "reason", "schema_version", "verdict_digest"]

theorem nodup_keys_items (d : CaseDecision D) : (Json.keys d.items).Nodup := by
  simp only [items, Json.keys, List.map_cons, List.map_nil]
  decide

theorem mem_keys_items (d : CaseDecision D) (k : String) : k ∈ Json.keys d.items ↔ k ∈ fields := by
  refine List.Perm.mem_iff ?_
  simp only [items, Json.keys, List.map_cons, List.map_nil]
  decide

theorem readable_toDict {hooks : Json.Hooks} (d : CaseDecision D) :
    Json.Readable hooks d.toDict := by
  refine Json.readable_dict ?_
  intro kv hkv
  simp only [items, List.mem_cons, List.not_mem_nil, or_false] at hkv
  rcases hkv with rfl | rfl | rfl | rfl | rfl | rfl <;> simp

/-- `from_dict` and the constructor. -/
def fromDict (value : Json) : Result (CaseDecision D) := do
  let data ← caseFields value fields "case decision"
  caseProfile data "evidence-braid-case-decision"
  let disposition ← enumString CaseDisposition.members (Json.get? data "disposition")
    "case decision disposition"
  let verdictDigest ← hashField (Json.get? data "verdict_digest") "case decision verdict digest"
  let deciderId ← identifierField (Json.get? data "decider_id") "case decider ID"
  let reason ← descriptionField (Json.get? data "reason") "case decision reason" 512
  .ok ⟨verdictDigest, deciderId, disposition, reason⟩

/-- **A decision survives its document.** -/
@[simp] theorem fromDict_toDict (d : CaseDecision D) : fromDict d.toDict = .ok d := by
  have hget := Json.get?_foldr_insertKey d.nodup_keys_items
  simp only [fromDict, bind_eq_ok]
  refine ⟨_, caseFields_eq_ok.mpr ⟨rfl, fun k => ?_⟩, (), ?_, d.disposition, ?_, d.verdictDigest, ?_,
    d.deciderId, ?_, d.reason, ?_, rfl⟩
  · exact (Json.mem_keys_foldr_insertKey_iff d.nodup_keys_items).trans (d.mem_keys_items k)
  all_goals try rw [caseProfile]
  all_goals repeat rw [hget]
  · exact valid_of ⟨rfl, rfl⟩
  · exact CaseDisposition.enumTexts.eq_ok.mpr rfl
  · exact hashField_eq_ok.mpr rfl
  · exact identifierField_value _ _
  · exact descriptionField_eq_ok.mpr rfl

/-- A document that is read as a decision is the decision's own. -/
theorem eq_toDict_of_fromDict {value : Json} {d : CaseDecision D} (hvalue : WellKeyed value)
    (h : fromDict value = .ok d) : value = d.toDict := by
  simp only [fromDict, bind_eq_ok, caseFields_eq_ok, caseProfile, valid_eq_ok, exists_unit,
    identifierField_eq_ok, hashField_eq_ok, descriptionField_eq_ok, CaseDisposition.enumTexts.eq_ok,
    Except.ok.injEq] at h
  obtain ⟨data, ⟨rfl, hkeys⟩, ⟨hkind, hversion⟩, disposition, hdisposition, verdict, h⟩ := h
  obtain ⟨h₁, decider, h₂, reason, h₃, rfl⟩ := h
  refine Json.obj_eq_dict (Json.wellKeyed_obj.mp hvalue).1 (nodup_keys_items _)
    (fun k hk => (mem_keys_items _ k).mpr ((hkeys k).mp hk)) ?_
  simp [items, hkind, hversion, hdisposition, h₁, h₂, h₃]

end CaseDecision

/-! ## Records -/

namespace CaseRecord

variable [DecidableEq D]

/-- `value["kind"]`, if there is such a text. -/
def kindOf (value : Json) : Option String :=
  match value with
  | .obj kvs =>
    match Json.get? kvs "kind" with
    | some (.str kind) => some kind
    | _ => none
  | _ => none

/-- `_record`. -/
def fromDict (value : Json) : Result (CaseRecord D) :=
  match kindOf value with
  | none => .error (.validation "case record needs a known kind")
  | some kind =>
    if kind = "evidence-braid-case-plan" then plan <$> CasePlan.fromDict value
    else if kind = "evidence-braid-case-observation" then
      observation <$> CaseObservation.fromDict value
    else if kind = "evidence-braid-case-verdict" then verdict <$> CaseVerdict.fromDict value
    else if kind = "evidence-braid-case-decision" then decision <$> CaseDecision.fromDict value
    else .error (.validation "case record kind is unsupported")

omit [DecidableEq D] in
theorem readable_toDict {hooks : Json.Hooks} (r : CaseRecord D) :
    Json.Readable hooks r.toDict := by
  cases r with
  | plan p => exact p.readable_toDict
  | observation o => exact o.readable_toDict
  | verdict v => exact v.readable_toDict
  | decision d => exact d.readable_toDict

theorem kindOf_dict {items : List (String × Json)} {kind : String} (h : (Json.keys items).Nodup)
    (hkind : Json.get? items "kind" = some (.str kind)) :
    kindOf (Json.dict items) = some kind := by
  have hget := Json.get?_foldr_insertKey h "kind"
  simp only [kindOf, Json.dict]
  rw [hget, hkind]

theorem fromDict_of_kind {value : Json} {kind : String} (h : kindOf value = some kind) :
    (fromDict value : Result (CaseRecord D)) =
      if kind = "evidence-braid-case-plan" then plan <$> CasePlan.fromDict value
      else if kind = "evidence-braid-case-observation" then
        observation <$> CaseObservation.fromDict value
      else if kind = "evidence-braid-case-verdict" then verdict <$> CaseVerdict.fromDict value
      else if kind = "evidence-braid-case-decision" then decision <$> CaseDecision.fromDict value
      else .error (.validation "case record kind is unsupported") := by
  rw [fromDict, h]

/-- **A record survives its document.** -/
@[simp] theorem fromDict_toDict (r : CaseRecord D) : fromDict r.toDict = .ok r := by
  cases r with
  | plan p =>
    have hkind : kindOf p.toDict = some "evidence-braid-case-plan" :=
      kindOf_dict p.nodup_keys_items (by simp [PlanFields.items, Json.get?_cons])
    rw [toDict, fromDict_of_kind hkind]
    simp
  | observation o =>
    have hkind : kindOf o.toDict = some "evidence-braid-case-observation" :=
      kindOf_dict o.nodup_keys_items (by simp [CaseObservation.items, Json.get?_cons])
    rw [toDict, fromDict_of_kind hkind]
    simp
  | verdict v =>
    have hkind : kindOf v.toDict = some "evidence-braid-case-verdict" :=
      kindOf_dict v.nodup_keys_items (by simp [CaseVerdict.items, Json.get?_cons])
    rw [toDict, fromDict_of_kind hkind]
    simp
  | decision d =>
    have hkind : kindOf d.toDict = some "evidence-braid-case-decision" :=
      kindOf_dict d.nodup_keys_items (by simp [CaseDecision.items, Json.get?_cons])
    rw [toDict, fromDict_of_kind hkind]
    simp

/-- A document that is read as a record is the record's own. -/
theorem eq_toDict_of_fromDict {value : Json} {r : CaseRecord D} (hvalue : WellKeyed value)
    (h : fromDict value = .ok r) : value = r.toDict := by
  unfold fromDict at h
  split at h
  · cases h
  · split_ifs at h <;> obtain ⟨x, hx, rfl⟩ := map_eq_ok.mp h
    · exact CasePlan.eq_toDict_of_fromDict hvalue hx
    · exact CaseObservation.eq_toDict_of_fromDict hvalue hx
    · exact CaseVerdict.eq_toDict_of_fromDict hvalue hx
    · exact CaseDecision.eq_toDict_of_fromDict hvalue hx

end CaseRecord

/-! ## Receipts -/

namespace CaseReceipt

def fields : List String := ["digest", "previous_digest", "record", "sequence"]

theorem ext_fields {r s : CaseReceipt D} (hsequence : r.sequence = s.sequence)
    (hprevious : r.previousDigest = s.previousDigest) (hrecord : r.record = s.record) : r = s := by
  obtain ⟨n, previous, record, digest, hlt, hdigest⟩ := r
  obtain ⟨n', previous', record', digest', hlt', hdigest'⟩ := s
  cases hsequence
  cases hprevious
  cases hrecord
  cases hdigest
  cases hdigest'
  rfl

theorem nodup_keys_items (r : CaseReceipt D) : (Json.keys r.items).Nodup := by
  simp only [items, Json.keys, List.map_cons, List.map_nil]
  decide

theorem mem_keys_items (r : CaseReceipt D) (k : String) : k ∈ Json.keys r.items ↔ k ∈ fields := by
  refine List.Perm.mem_iff ?_
  simp only [items, Json.keys, List.map_cons, List.map_nil]
  decide

theorem readable_toDict {hooks : Json.Hooks} (r : CaseReceipt D)
    (hint : Json.Readable hooks (.int r.sequence)) : Json.Readable hooks r.toDict := by
  refine Json.readable_dict ?_
  intro kv hkv
  simp only [items, List.mem_cons, List.not_mem_nil, or_false] at hkv
  rcases hkv with rfl | rfl | rfl | rfl <;> simp [CaseRecord.readable_toDict, hint]

variable [DecidableEq D]

/-- `from_dict` and the constructor. -/
def fromDict (value : Json) : Result (CaseReceipt D) := do
  let data ← caseFields value fields "case receipt"
  let record ← CaseRecord.fromDict ((Json.get? data "record").getD .null)
  let sequence ← integerField (Json.get? data "sequence") "case receipt sequence"
    (maxCaseRecords - 1) 0
  let previousDigest ← hashField (Json.get? data "previous_digest") "case receipt previous digest"
  let digest ← hashField (Json.get? data "digest") "case receipt digest"
  if hlt : sequence < maxCaseRecords then
    if hdigest : digest = caseReceiptDigest sequence previousDigest record then
      .ok ⟨sequence, previousDigest, record, digest, hlt, hdigest⟩
    else .error (.validation "case receipt content digest is invalid")
  else .error (.validation "case receipt sequence must be an integer between 0 and 511")

/-- **A receipt survives its document.** -/
@[simp] theorem fromDict_toDict (r : CaseReceipt D) : fromDict r.toDict = .ok r := by
  have hget := Json.get?_foldr_insertKey r.nodup_keys_items
  have hlt := r.sequence_lt
  simp only [fromDict, bind_eq_ok]
  refine ⟨_, caseFields_eq_ok.mpr ⟨rfl, fun k => ?_⟩, r.record, ?_, r.sequence, ?_,
    r.previousDigest, ?_, r.digest, ?_, ?_⟩
  · exact (Json.mem_keys_foldr_insertKey_iff r.nodup_keys_items).trans (r.mem_keys_items k)
  · rw [hget]
    exact r.record.fromDict_toDict
  · rw [hget]
    exact integerField_eq_ok.mpr ⟨rfl, Nat.zero_le _, by omega⟩
  · rw [hget]
    exact hashField_eq_ok.mpr rfl
  · rw [hget]
    exact hashField_eq_ok.mpr rfl
  · rw [dif_pos hlt, dif_pos r.digest_eq]

/-- A document that is read as a receipt is the receipt's own. -/
theorem eq_toDict_of_fromDict {value : Json} {r : CaseReceipt D} (hvalue : WellKeyed value)
    (h : fromDict value = .ok r) : value = r.toDict := by
  simp only [fromDict, bind_eq_ok, caseFields_eq_ok, integerField_eq_ok, hashField_eq_ok] at h
  obtain ⟨data, ⟨rfl, hkeys⟩, record, hrecord, sequence, ⟨hsequence, -, -⟩, h⟩ := h
  obtain ⟨previous, hprevious, digest, hdigest, h⟩ := h
  split_ifs at h
  obtain rfl := Except.ok.inj h
  obtain ⟨hsorted, hmembers⟩ := Json.wellKeyed_obj.mp hvalue
  obtain ⟨v, hv⟩ : ∃ v, Json.get? data "record" = some v :=
    Option.isSome_iff_exists.mp (Json.mem_keys_iff.mp ((hkeys "record").mpr (by decide)))
  have hkeyed : WellKeyed v := hmembers ("record", v)
    ((Json.mem_iff_get? (Json.nodup_of_sorted hsorted)).mpr hv)
  rw [hv, Option.getD_some] at hrecord
  have hdocument := CaseRecord.eq_toDict_of_fromDict hkeyed hrecord
  refine Json.obj_eq_dict hsorted (nodup_keys_items _)
    (fun k hk => (mem_keys_items _ k).mpr ((hkeys k).mp hk)) ?_
  simp [items, hsequence, hprevious, hdigest, hv, hdocument]

end CaseReceipt

/-! ## Chains -/

/-- The one chain of receipts of these records. -/
def chainRecords : (sequence : ℕ) → (previous : D) → (rs : List (CaseRecord D)) →
    sequence + rs.length ≤ maxCaseRecords → List (CaseReceipt D)
  | _, _, [], _ => []
  | n, previous, r :: rs, h =>
    .seal n previous r (by rw [List.length_cons] at h; omega) ::
      chainRecords (n + 1) (caseReceiptDigest n previous r) rs (by rw [List.length_cons] at h; omega)

@[simp] theorem records_chainRecords {rs : List (CaseRecord D)} : ∀ {n : ℕ} {previous : D}
    {h : n + rs.length ≤ maxCaseRecords}, (chainRecords n previous rs h).map (·.record) = rs := by
  induction rs with
  | nil => intros; rfl
  | cons r rs ih =>
    intro n previous h
    rw [chainRecords, List.map_cons, ih]

@[simp] theorem length_chainRecords {rs : List (CaseRecord D)} {n : ℕ} {previous : D}
    {h : n + rs.length ≤ maxCaseRecords} : (chainRecords n previous rs h).length = rs.length := by
  conv_rhs => rw [← @records_chainRecords D _ rs n previous h]
  rw [List.length_map]

theorem linkedCase_chainRecords {rs : List (CaseRecord D)} : ∀ {n : ℕ} {previous : D}
    {h : n + rs.length ≤ maxCaseRecords}, LinkedCase n previous (chainRecords n previous rs h) := by
  induction rs with
  | nil => intros; trivial
  | cons r rs ih => exact fun {n previous h} => ⟨⟨rfl, rfl⟩, ih⟩

/-- **Linked receipts are the chain of their records.** -/
theorem eq_chainRecords {receipts : List (CaseReceipt D)} : ∀ {n : ℕ} {previous : D}
    (_ : LinkedCase n previous receipts)
    (h : n + (receipts.map (·.record)).length ≤ maxCaseRecords),
      receipts = chainRecords n previous (receipts.map (·.record)) h := by
  induction receipts with
  | nil => intros; rfl
  | cons r receipts ih =>
    intro n previous hlinked h
    obtain ⟨⟨hsequence, hprevious⟩, hrest⟩ := hlinked
    have hdigest : r.digest = caseReceiptDigest n previous r.record := by
      rw [r.digest_eq, hsequence, hprevious]
    rw [hdigest] at hrest
    simp only [List.map_cons, chainRecords]
    rw [List.cons.injEq]
    exact ⟨CaseReceipt.ext_fields hsequence hprevious rfl, ih hrest _⟩

/-- What `append` seals is the chain of the records. -/
theorem sealRecords_eq {rs : List (CaseRecord D)} : ∀ {n : ℕ} {previous : D}
    (h : n + rs.length ≤ maxCaseRecords),
      sealRecords n previous rs = .ok (chainRecords n previous rs h) := by
  induction rs with
  | nil => intros; rfl
  | cons r rs ih =>
    intro n previous h
    have hlt : n < maxCaseRecords := by
      rw [List.length_cons] at h
      omega
    rw [sealRecords, dif_pos hlt, chainRecords]
    simp only [bind_eq_ok, Except.ok.injEq]
    exact ⟨_, ih _, rfl⟩

/-! ## Sizes -/

section Sizes

variable [WideHex D]

/-- What a plan takes beside its identifiers and its three texts. -/
theorem PlanFields.size_toDict_ids_le (p : PlanFields D) : Json.size p.toDict ≤ 800 +
    (Json.quotedSize p.caseId.value + Json.quotedSize p.workflowId.value +
      Json.quotedSize p.claimId.value + Json.quotedSize p.scope.value +
      Json.quotedSize p.proposerId.value + Json.quotedSize p.assertionArtifactId.value +
      Json.quotedSize p.inputArtifactId.value + Json.quotedSize p.testId.value +
      Json.quotedSize p.adapterId.value + Json.quotedSize p.adapterVersion.value) +
    (Json.quotedSize p.hypothesis.value + Json.quotedSize p.prediction.value +
      Json.quotedSize p.expectedObservationText) := by
  rw [toDict, Json.size_dict p.nodup_keys_items (by simp [items])]
  have hkeys : Json.quotedSize "kind" = 6 ∧ Json.quotedSize "schema_version" = 16 ∧
      Json.quotedSize "case_id" = 9 ∧ Json.quotedSize "workflow_id" = 13 ∧
      Json.quotedSize "claim_id" = 10 ∧ Json.quotedSize "scope" = 7 ∧
      Json.quotedSize "proposer_id" = 13 ∧ Json.quotedSize "assertion_artifact_id" = 23 ∧
      Json.quotedSize "assertion_sha256" = 18 ∧ Json.quotedSize "hypothesis" = 12 ∧
      Json.quotedSize "prediction" = 12 ∧ Json.quotedSize "expected_observation_text" = 27 ∧
      Json.quotedSize "input_artifact_id" = 19 ∧ Json.quotedSize "input_sha256" = 14 ∧
      Json.quotedSize "prediction_sha256" = 19 ∧ Json.quotedSize "test_id" = 9 ∧
      Json.quotedSize "adapter_id" = 12 ∧ Json.quotedSize "adapter_version" = 17 ∧
      Json.quotedSize "comparator_profile" = 20 ∧ Json.quotedSize "authority_digest" = 18 ∧
      Json.quotedSize "evidence-braid-case-plan" = 26 ∧ Json.quotedSize "1.0" = 5 ∧
      Json.quotedSize "sha256-equality-v1" = 20 := by
    and_intros <;> exact Json.quotedSize_literal rfl
  simp only [items, List.map_cons, List.map_nil, List.sum_cons, List.sum_nil, Json.size_str,
    quotedSize_hex, hkeys]
  clear hkeys
  omega

/-- What a plan takes beside its three texts. -/
theorem PlanFields.size_toDict_le (p : PlanFields D) : Json.size p.toDict ≤
    2500 + Json.quotedSize p.hypothesis.value + Json.quotedSize p.prediction.value +
      Json.quotedSize p.expectedObservationText := by
  have hsize := p.size_toDict_ids_le
  have h₁ := p.caseId.quotedSize_le
  have h₂ := p.workflowId.quotedSize_le
  have h₃ := p.claimId.quotedSize_le
  have h₄ := p.scope.quotedSize_le
  have h₅ := p.proposerId.quotedSize_le
  have h₆ := p.assertionArtifactId.quotedSize_le
  have h₇ := p.inputArtifactId.quotedSize_le
  have h₈ := p.testId.quotedSize_le
  have h₉ := p.adapterId.quotedSize_le
  have h₁₀ := p.adapterVersion.quotedSize_le
  omega

/-- The byte bound of an observation never fails. -/
theorem CaseObservation.size_toDict_le (o : CaseObservation D) : Json.size o.toDict ≤ 1200 := by
  rw [toDict, Json.size_dict o.nodup_keys_items (by simp [items])]
  have hkeys : Json.quotedSize "kind" = 6 ∧ Json.quotedSize "schema_version" = 16 ∧
      Json.quotedSize "plan_digest" = 13 ∧ Json.quotedSize "request_id" = 12 ∧
      Json.quotedSize "observer_id" = 13 ∧ Json.quotedSize "status" = 8 ∧
      Json.quotedSize "input_sha256" = 14 ∧ Json.quotedSize "observed_sha256" = 17 ∧
      Json.quotedSize "artifact_id" = 13 ∧ Json.quotedSize "error_code" = 12 ∧
      Json.quotedSize "evidence-braid-case-observation" = 33 ∧ Json.quotedSize "1.0" = 5 := by
    and_intros <;> exact Json.quotedSize_literal rfl
  have hrequest := o.requestId.quotedSize_le
  have hobserver := o.observerId.quotedSize_le
  have hstatus : Json.quotedSize o.status.value ≤ 13 := by cases o.status <;> decide
  have hobserved := size_takenJson_le (fun d : D => (quotedSize_hex d).le) (by decide)
    o.observedSha256
  have hartifact := size_takenJson_le Identifier.quotedSize_le (by decide) o.artifactId
  have herror := size_takenJson_le Identifier.quotedSize_le (by decide) o.errorCode
  simp only [items, List.map_cons, List.map_nil, List.sum_cons, List.sum_nil, Json.size_str,
    quotedSize_hex, hkeys]
  clear hkeys
  omega

/-- The byte bound of a verdict never fails. -/
theorem CaseVerdict.size_toDict_le (v : CaseVerdict D) : Json.size v.toDict ≤ 600 := by
  rw [toDict, Json.size_dict v.nodup_keys_items (by simp [items])]
  have hkeys : Json.quotedSize "kind" = 6 ∧ Json.quotedSize "schema_version" = 16 ∧
      Json.quotedSize "plan_digest" = 13 ∧ Json.quotedSize "observation_digest" = 20 ∧
      Json.quotedSize "evaluator_id" = 14 ∧ Json.quotedSize "outcome" = 9 ∧
      Json.quotedSize "evidence-braid-case-verdict" = 29 ∧ Json.quotedSize "1.0" = 5 := by
    and_intros <;> exact Json.quotedSize_literal rfl
  have hevaluator := v.evaluatorId.quotedSize_le
  have houtcome : Json.quotedSize v.outcome.value ≤ 14 := by cases v.outcome <;> decide
  simp only [items, List.map_cons, List.map_nil, List.sum_cons, List.sum_nil, Json.size_str,
    quotedSize_hex, hkeys]
  clear hkeys
  omega

/-- The byte bound of a decision never fails. -/
theorem CaseDecision.size_toDict_le (d : CaseDecision D) : Json.size d.toDict ≤ 4000 := by
  rw [toDict, Json.size_dict d.nodup_keys_items (by simp [items])]
  have hkeys : Json.quotedSize "kind" = 6 ∧ Json.quotedSize "schema_version" = 16 ∧
      Json.quotedSize "verdict_digest" = 16 ∧ Json.quotedSize "decider_id" = 12 ∧
      Json.quotedSize "disposition" = 13 ∧ Json.quotedSize "reason" = 8 ∧
      Json.quotedSize "evidence-braid-case-decision" = 30 ∧ Json.quotedSize "1.0" = 5 := by
    and_intros <;> exact Json.quotedSize_literal rfl
  have hdecider := d.deciderId.quotedSize_le
  have hdisposition : Json.quotedSize d.disposition.value ≤ 9 := by cases d.disposition <;> decide
  have hreason : Json.quotedSize d.reason.value ≤ 3074 :=
    (Json.quotedSize_le _).trans (by have := d.reason.length_le; omega)
  simp only [items, List.map_cons, List.map_nil, List.sum_cons, List.sum_nil, Json.size_str,
    quotedSize_hex, hkeys]
  clear hkeys
  omega

theorem CaseRecord.size_toDict_le (r : CaseRecord D) : Json.size r.toDict ≤ maxCaseRecordBytes := by
  cases r with
  | plan p => exact p.ok.size_le
  | observation o => exact o.size_toDict_le.trans (by decide)
  | verdict v => exact v.size_toDict_le.trans (by decide)
  | decision d => exact d.size_toDict_le.trans (by decide)

/-- What a receipt takes beside its record. -/
theorem CaseReceipt.size_toDict_record_le (r : CaseReceipt D) :
    Json.size r.toDict ≤ Json.size r.record.toDict + 200 := by
  rw [toDict, Json.size_dict r.nodup_keys_items (by simp [items])]
  have hkeys : Json.quotedSize "sequence" = 10 ∧ Json.quotedSize "previous_digest" = 17 ∧
      Json.quotedSize "record" = 8 ∧ Json.quotedSize "digest" = 8 := by
    and_intros <;> exact Json.quotedSize_literal rfl
  have hsequence : Json.size (.int r.sequence) ≤ 3 :=
    Json.size_nat_le (by decide) (lt_of_lt_of_le r.sequence_lt (by decide))
  simp only [items, List.map_cons, List.map_nil, List.sum_cons, List.sum_nil, Json.size_str,
    quotedSize_hex, hkeys]
  clear hkeys
  omega

theorem CaseReceipt.size_toDict_le (r : CaseReceipt D) : Json.size r.toDict ≤ 17000 := by
  have hsize := r.size_toDict_record_le
  have hrecord : Json.size r.record.toDict ≤ 16384 := r.record.size_toDict_le
  omega

/-- What a journal takes beside its receipts. -/
theorem size_caseJournal_le (authorityDigest : D) (receipts : List (CaseReceipt D)) :
    Json.size (Json.dict (caseJournalItems authorityDigest receipts)) ≤
      Json.size (.arr (receipts.map CaseReceipt.toDict)) + 200 := by
  have hnodup : (Json.keys (caseJournalItems authorityDigest receipts)).Nodup := by
    simp only [caseJournalItems, Json.keys, List.map_cons, List.map_nil]
    decide
  have hkeys : Json.quotedSize "kind" = 6 ∧ Json.quotedSize "schema_version" = 16 ∧
      Json.quotedSize "authority_digest" = 18 ∧ Json.quotedSize "receipts" = 10 ∧
      Json.quotedSize "evidence-braid-case-journal" = 29 ∧ Json.quotedSize "1.0" = 5 := by
    and_intros <;> exact Json.quotedSize_literal rfl
  rw [Json.size_dict hnodup (by simp [caseJournalItems])]
  simp only [caseJournalItems, List.map_cons, List.map_nil, List.sum_cons, List.sum_nil,
    Json.size_str, quotedSize_hex, hkeys]
  clear hkeys
  omega

/-- The byte bound of a journal does not fail on a hundred receipts. -/
theorem size_caseJournalItems_le (authorityDigest : D) {receipts : List (CaseReceipt D)}
    (h : receipts.length ≤ 100) :
    (canonicalBytes (Json.dict (caseJournalItems authorityDigest receipts))).length ≤
      maxCaseWireBytes := by
  have hreceipts : Json.size (.arr (receipts.map CaseReceipt.toDict)) ≤
      receipts.length * 17001 + 2 := Json.size_map_le CaseReceipt.size_toDict_le receipts
  have htotal : receipts.length * 17001 ≤ 100 * 17001 := Nat.mul_le_mul_right _ h
  change Json.size (Json.dict (caseJournalItems authorityDigest receipts)) ≤ 2 * 1024 * 1024
  refine (size_caseJournal_le _ _).trans ?_
  omega

/-- The journal of a few records. -/
def CaseJournal.ofRecords (authorityDigest : D) (records : List (CaseRecord D))
    (h : records.length ≤ 4) : CaseJournal D where
  authorityDigest := authorityDigest
  receipts := chainRecords 0 (caseGenesis authorityDigest) records
    (by rw [Nat.zero_add]; exact h.trans (by decide))
  length_le := by
    rw [length_chainRecords]
    exact h.trans (by decide)
  linked := linkedCase_chainRecords
  size_le := size_caseJournalItems_le authorityDigest (by
    rw [length_chainRecords]
    exact h.trans (by decide))

@[simp] theorem CaseJournal.authorityDigest_ofRecords {authorityDigest : D}
    {records : List (CaseRecord D)} {h : records.length ≤ 4} :
    (CaseJournal.ofRecords authorityDigest records h).authorityDigest = authorityDigest := rfl

@[simp] theorem CaseJournal.records_ofRecords {authorityDigest : D} {records : List (CaseRecord D)}
    {h : records.length ≤ 4} :
    (CaseJournal.ofRecords authorityDigest records h).records = records := records_chainRecords

end Sizes

end EvidenceBraid
