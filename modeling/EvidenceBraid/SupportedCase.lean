import EvidenceBraid.ArtifactBundleSound
import EvidenceBraid.CaseStorage

/-!
# The supported-case gate

`case_artifacts.py`: an archive is verified, the journal of a case is read from one of its objects,
and the case has to support an approved claim with the bytes of three more. The capture keeps, for
each of the four artifacts, the bytes that the archive stores for its digest
(`get?_capturedFrom`).
-/

namespace EvidenceBraid

open Hashing
open Zip (Member)

variable {D : Type} [Hashing D] [DecidableEq D]

/-- `_JOURNAL_MEDIA_TYPE`. -/
def journalMediaType : String := "application/vnd.evidence-braid.case-journal+json"

/-- `VerifiedSupportedCaseBundle`. -/
structure VerifiedSupportedCaseBundle (D : Type) [Hashing D] [DecidableEq D] where
  archive : VerifiedArtifactBundle D
  journal : CaseJournal D
  caseState : CaseState D
  caseId : Identifier
  claimId : Identifier
  artifactIds : List Identifier

/-- `verify_supported_case_bundle`. -/
def verifySupportedCaseBundle (archive : Bytes) (workflowAuthority : AuthorityPolicy)
    (caseAuthority : CaseAuthority) (journalId : Identifier)
    (expectedWorkflowHead expectedEvidenceHead expectedCaseHead : D)
    (expectedBundleDigest : Option D) (limits : ArtifactBundleLimits) :
    Result (VerifiedSupportedCaseBundle D) := do
  let (verified, journal, captured) ← verifyArtifactBundleInternal archive workflowAuthority
    expectedWorkflowHead expectedEvidenceHead expectedBundleDigest limits (some journalId)
    (some caseAuthority) (some expectedCaseHead)
  let journal ← orError journal (.runtime "a journal has been captured")
  let state ← replayCase journal caseAuthority (some expectedCaseHead)
  valid (state.phase = .verdicted ∧ state.outcome = some .supported) "archived case is not supported"
  match journal.records with
  | .plan plan :: .observation observation :: _ => do
    let workflow := verified.workflow
    let differ := PyError.validation "case and currently approved workflow claim differ"
    require (plan.workflowId = workflow.workflowId) differ
    let claim ← orError (verified.state.claims.get? plan.claimId) differ
    require (claim.scope = plan.scope ∧ claim.status = .approved) differ
    let outputId ← orError observation.artifactId (.runtime "a captured case has an output")
    let ids := [journalId, plan.assertionArtifactId, plan.inputArtifactId, outputId]
    valid (ids.Nodup ∧ ∀ id ∈ ids, id ∈ claim.artifactIds)
      "case artifacts are not all bound to the approved claim"
    let reference ← orError (workflow.artifact? journalId) (.runtime "KeyError")
    valid (reference.mediaType.value = journalMediaType) "case journal media type differs"
    let assertion ← orError (captured.get? plan.assertionArtifactId) (.runtime "KeyError")
    let testInput ← orError (captured.get? plan.inputArtifactId) (.runtime "KeyError")
    let output ← orError (captured.get? outputId) (.runtime "KeyError")
    valid (sha256 assertion = plan.assertionSha256 ∧ sha256 testInput = plan.inputSha256 ∧
      sha256 testInput = observation.inputSha256) "case input bytes differ from the plan"
    let _ ← checkedOutput output (assertion.length + testInput.length)
    valid (some (sha256 output) = observation.observedSha256 ∧
      sha256 output = plan.predictionSha256) "case output bytes do not support the prediction"
    .ok ⟨verified, journal, state, plan.caseId, plan.claimId, ids⟩
  | _ => .error (.runtime "a captured case starts with a plan and an observation")

/-! ## What is captured -/

/-- References as the workflow has them. -/
def OwnReferences (workflow : WorkflowBundle D)
    (references : Dict Identifier (ArtifactReference D)) : Prop :=
  ∀ id r, references.get? id = some r → workflow.artifact? id = some r

/-- **The loop over the required identifiers** finds a reference of bounded size for each. -/
theorem captureReferences_eq_ok {workflow : WorkflowBundle D} {required : List (Identifier × ℕ)} :
    ∀ {references result : Dict Identifier (ArtifactReference D)}, OwnReferences workflow references →
      captureReferences workflow references required = .ok result →
      OwnReferences workflow result ∧
        (∀ id, (references.get? id).isSome → (result.get? id).isSome) ∧
        ∀ item ∈ required, ∃ r, result.get? item.1 = some r ∧ workflow.artifact? item.1 = some r ∧
          r.sizeBytes ≤ item.2 := by
  induction required with
  | nil =>
    intro references result hown h
    obtain rfl := Except.ok.inj h
    exact ⟨hown, fun _ h => h, by simp⟩
  | cons item required ih =>
    intro references result hown h
    obtain ⟨id, maximum⟩ := item
    simp only [captureReferences, bind_eq_ok, orError_eq_ok, require_eq_ok, exists_unit] at h
    obtain ⟨reference, hreference, hsize, hrest⟩ := h
    have hset : OwnReferences workflow (references.set id reference) := by
      intro id' r hr
      rw [Dict.get?_set] at hr
      split_ifs at hr with hid
      · rw [hid, hreference, hr]
      · exact hown id' r hr
    obtain ⟨hown', hkept, hfound⟩ := ih hset hrest
    have hsome : ∀ id', (references.get? id').isSome → (result.get? id').isSome := by
      intro id' hid'
      refine hkept id' ?_
      rw [Dict.get?_set]
      split_ifs
      · rfl
      · exact hid'
    refine ⟨hown', hsome, List.forall_mem_cons.mpr ⟨?_, hfound⟩⟩
    obtain ⟨r, hr⟩ := Option.isSome_iff_exists.mp
      (hkept id (by rw [Dict.get?_set_self]; rfl))
    have hsame := hown' id r hr
    rw [hreference] at hsame
    obtain rfl := Option.some.inj hsame
    exact ⟨reference, hr, hreference, hsize⟩

omit [Hashing D] in
/-- One object is captured under the identifiers whose references name its digest. -/
theorem get?_captureObject (references : Dict Identifier (ArtifactReference D)) (digest : D)
    (payload : Bytes) (captured : Dict Identifier Bytes) (id : Identifier) :
    (captureObject references digest payload captured).get? id =
      if (references.get? id).map (·.sha256) = some digest then some payload
      else captured.get? id := by
  obtain ⟨items, hnodup⟩ := references
  have hitems : ∀ (items : List (Identifier × ArtifactReference D)) (captured : Dict Identifier Bytes),
      (items.map Prod.fst).Nodup → (items.foldl (fun captured r =>
        if r.2.sha256 = digest then captured.set r.1 payload else captured) captured).get? id =
          if (items.lookup id).map (·.sha256) = some digest then some payload
          else captured.get? id := by
    intro items
    induction items with
    | nil => simp
    | cons item items ih =>
      intro captured hnodup
      obtain ⟨id', r⟩ := item
      obtain ⟨hnot, hrest⟩ := List.nodup_cons.mp hnodup
      rw [List.foldl_cons, ih _ hrest, List.lookup_cons]
      by_cases hid : id = id'
      · subst hid
        have hnone : items.lookup id = none := by
          rcases hlookup : items.lookup id with _ | r'
          · rfl
          · exact absurd (List.mem_map_of_mem ((Dict.mk items hrest).mem_items_iff.mpr hlookup)) hnot
        rw [hnone]
        by_cases hdigest : r.sha256 = digest
        · simp [hdigest]
        · simp [hdigest]
      · have hne : (id == id') = false := beq_eq_false_iff_ne.mpr hid
        rw [hne]
        by_cases hdigest : r.sha256 = digest
        · simp only [hdigest, if_true, Dict.get?_set_ne _ hid]
        · simp only [hdigest, if_false]
  exact hitems items captured hnodup

/-- **What is captured under an identifier** is the content of its reference's digest. -/
theorem get?_capturedFrom {b : ClosedBundle D} {capture : CaseCapture D} {id : Identifier}
    {r : ArtifactReference D} (hr : capture.references.get? id = some r)
    (hmem : r.sha256 ∈ committedDigests b.workflow) :
    (b.capturedFrom capture).get? id = some (b.content r.sha256) := by
  have hfold : ∀ (ds : List D) (captured : Dict Identifier Bytes),
      (ds.foldl (fun captured d => captureObject capture.references d (b.content d) captured)
        captured).get? id =
          if r.sha256 ∈ ds then some (b.content r.sha256) else captured.get? id := by
    intro ds
    induction ds with
    | nil => simp
    | cons d ds ih =>
      intro captured
      rw [List.foldl_cons, ih, get?_captureObject, hr, Option.map_some]
      by_cases hd : r.sha256 = d
      · subst hd
        simp
      · simp [hd]
  rw [ClosedBundle.capturedFrom, hfold, if_pos hmem]

omit [Hashing D] [DecidableEq D] in
theorem mem_of_artifact? {b : BundleFields D} {id : Identifier} {r : ArtifactReference D}
    (h : b.artifact? id = some r) : r ∈ b.artifacts := List.mem_of_find?_eq_some h

/-- An object that an artifact commits to is opened as its content. -/
theorem openMember_content {b : ClosedBundle D} {limits : ArtifactBundleLimits}
    (h : Admissible limits b.members) {r : ArtifactReference D} (hr : r ∈ b.workflow.artifacts)
    {m : Member} : openMember (viewOf b.members) (infosOf 0 b.members) (objectPath r.sha256) = .ok m ↔
      m = fileMember (objectPath r.sha256, b.content r.sha256) := by
  have hfile : (objectPath r.sha256, b.content r.sha256) ∈ b.files :=
    List.mem_append_right _ (List.mem_map_of_mem (mem_committedDigests.mpr ⟨r, hr, rfl⟩))
  have hmem := b.fileMember_mem hfile
  rw [openMember_viewOf h]
  constructor
  · rintro ⟨hm, hname⟩
    exact h.eq_of_name hm hmem hname
  · rintro rfl
    exact ⟨hmem, rfl⟩

/-- The four identifiers of a case that has been observed. -/
def caseArtifactIds (journalId : Identifier) (p : CasePlan D) (outputId : Identifier) :
    List Identifier :=
  [journalId, p.assertionArtifactId, p.inputArtifactId, outputId]

/-- **The capture of a case** reads its journal, and a reference for each of four artifacts. -/
theorem captureCase_eq_ok {b : ClosedBundle D} {limits : ArtifactBundleLimits}
    (hms : Admissible limits b.members) {journalId : Identifier} {caseAuthority : CaseAuthority}
    {expectedCaseHead : D} {capture : CaseCapture D}
    (h : captureCase (viewOf b.members) (infosOf 0 b.members) (entriesOf b.members) b.workflow
      (some journalId) (some caseAuthority) (some expectedCaseHead) = .ok capture) :
    ∃ (journal : CaseJournal D) (reference : ArtifactReference D) (p : CasePlan D)
      (o : CaseObservation D) (last : CaseRecord D) (outputId : Identifier),
      capture.journal = some journal ∧ b.workflow.artifact? journalId = some reference ∧
      CaseJournal.fromBytes (b.content reference.sha256) caseAuthority (some expectedCaseHead) =
        .ok journal ∧
      journal.records = [.plan p, .observation o, last] ∧ o.status = .observed ∧
      o.artifactId = some outputId ∧ (caseArtifactIds journalId p outputId).Nodup ∧
      ∀ id ∈ caseArtifactIds journalId p outputId, ∃ r, capture.references.get? id = some r ∧
        b.workflow.artifact? id = some r := by
  simp only [captureCase, bind_eq_ok, orError_eq_ok, Option.some.injEq, require_eq_ok, exists_unit,
    valid_eq_ok] at h
  obtain ⟨_, rfl, _, rfl, reference, hreference, -, member, h⟩ := h
  obtain ⟨hopen, journalRaw, hread, hmatches, journal, hjournal, h⟩ := h
  have hmem := mem_of_artifact? hreference
  obtain rfl := (openMember_content hms hmem).mp hopen
  have hsize : (b.content reference.sha256).length ≤ reference.sizeBytes + 1 := by
    rw [b.size_content hmem]
    exact Nat.le_succ _
  obtain ⟨-, rfl⟩ := (readMember_eq_ok hsize).mp hread
  split at h
  case h_2 => cases h
  case h_1 p o last hrecords =>
    simp only [bind_eq_ok, orError_eq_ok, require_eq_ok, exists_unit, valid_eq_ok, Except.ok.injEq]
      at h
    obtain ⟨hstatus, outputId, houtput, hnodup, references, hreferences, rfl⟩ := h
    obtain ⟨-, -, hfound⟩ := captureReferences_eq_ok (fun _ _ h => by cases h) hreferences
    refine ⟨journal, reference, p, o, last, outputId, rfl, hreference, hjournal, hrecords, hstatus,
      houtput, hnodup, ?_⟩
    simp only [captureMaxima, List.zip_cons_cons, List.zip_nil_right, List.forall_mem_cons] at hfound
    simp only [caseArtifactIds, List.forall_mem_cons]
    obtain ⟨⟨r₁, h₁, h₁', -⟩, ⟨r₂, h₂, h₂', -⟩, ⟨r₃, h₃, h₃', -⟩, ⟨r₄, h₄, h₄', -⟩, -⟩ := hfound
    exact ⟨⟨r₁, h₁, h₁'⟩, ⟨r₂, h₂, h₂'⟩, ⟨r₃, h₃, h₃'⟩, ⟨r₄, h₄, h₄'⟩, by simp⟩

/-! ## Soundness -/

/-- An artifact's bytes in an archive: the data of the member that stores its digest, which has the
size and the digest that the artifact commits to. -/
def Archived (archive : Bytes) (limits : ArtifactBundleLimits) (workflow : WorkflowBundle D)
    (id : Identifier) (bytes : Bytes) : Prop :=
  ∃ r, workflow.artifact? id = some r ∧ r.Matches bytes ∧
    ∃ view entries members, Archive.preflight archive limits = .ok (view, entries) ∧
      inventory view = .ok members ∧ ∃ m ∈ members, m.name = objectPath r.sha256 ∧ m.data = bytes

theorem archived_content {b : ClosedBundle D} {limits : ArtifactBundleLimits}
    (h : Admissible limits b.members) {id : Identifier} {r : ArtifactReference D}
    (hr : b.workflow.artifact? id = some r) :
    Archived b.archive limits b.workflow id (b.content r.sha256) := by
  have hmem := mem_of_artifact? hr
  obtain ⟨view, entries, hpreflight, hinventory⟩ := inventory_members h
  have hfile : (objectPath r.sha256, b.content r.sha256) ∈ b.files :=
    List.mem_append_right _ (List.mem_map_of_mem (mem_committedDigests.mpr ⟨r, hmem, rfl⟩))
  exact ⟨r, hr, b.matches_content r hmem, view, entries, b.members, hpreflight, hinventory, _,
    b.fileMember_mem hfile, rfl, rfl⟩

/-! ## Completeness -/

/-- The loop over the required identifiers finds what the workflow has. -/
theorem exists_captureReferences {workflow : WorkflowBundle D} {required : List (Identifier × ℕ)}
    (h : ∀ item ∈ required, ∃ r, workflow.artifact? item.1 = some r ∧ r.sizeBytes ≤ item.2) :
    ∀ references, ∃ result, captureReferences workflow references required = .ok result := by
  induction required with
  | nil => exact fun references => ⟨references, rfl⟩
  | cons item required ih =>
    intro references
    obtain ⟨id, maximum⟩ := item
    rw [List.forall_mem_cons] at h
    obtain ⟨⟨r, hr, hsize⟩, hrest⟩ := h
    obtain ⟨result, hresult⟩ := ih hrest (references.set id r)
    refine ⟨result, ?_⟩
    simp only [captureReferences, bind_eq_ok]
    exact ⟨r, orError_eq_ok.mpr hr, (), require_of hsize, hresult⟩

/-- A case that supports a claim with artifacts of a bundle. -/
structure Supports (b : ClosedBundle D) (caseAuthority : CaseAuthority) (journalId : Identifier)
    (journal : CaseJournal D) (p : CasePlan D) (o : CaseObservation D) (w : CaseVerdict D)
    (c : ClaimWorkflow) (outputId : Identifier) : Prop where
  authority : journal.authorityDigest = caseAuthority.digest
  records : journal.records = [.plan p, .observation o, .verdict w]
  plan : SoundPlan caseAuthority p
  observation : SoundObservation caseAuthority p o
  verdict : SoundVerdict caseAuthority p o w
  observed : o.status = .observed
  supported : w.outcome = .supported
  workflow_id : p.workflowId = b.workflow.workflowId
  claim : b.state.claims.get? p.claimId = some c
  approved : c.status = .approved
  scope : c.scope = p.scope
  output : o.artifactId = some outputId
  distinct : (caseArtifactIds journalId p outputId).Nodup
  bound : ∀ id ∈ caseArtifactIds journalId p outputId, id ∈ c.artifactIds
  journal_artifact : ∃ r, b.workflow.artifact? journalId = some r ∧
    r.mediaType.value = journalMediaType ∧ b.content r.sha256 = journal.toBytes
  assertion_artifact : ∃ r, b.workflow.artifact? p.assertionArtifactId = some r ∧
    r.sha256 = p.assertionSha256 ∧ r.sizeBytes ≤ maxAssertion
  input_artifact : ∃ r, b.workflow.artifact? p.inputArtifactId = some r ∧
    r.sha256 = p.inputSha256 ∧ r.sizeBytes ≤ maxInput
  output_artifact : ∃ r, b.workflow.artifact? outputId = some r ∧ r.sha256 = p.predictionSha256 ∧
    r.sizeBytes ≤ maxOutput ∧ ∃ cs, Utf8.decode (b.content r.sha256) = some cs ∧
      isXmlCharacter (String.ofList cs) = true

namespace Supports

variable {b : ClosedBundle D} {caseAuthority : CaseAuthority} {journalId : Identifier}
  {journal : CaseJournal D} {p : CasePlan D} {o : CaseObservation D} {w : CaseVerdict D}
  {c : ClaimWorkflow} {outputId : Identifier}
  (h : Supports b caseAuthority journalId journal p o w c outputId)
include h

theorem replayed : replayCase journal caseAuthority (some journal.headDigest) =
    .ok ⟨.verdicted, some p.caseId, some .supported, none, journal.checkpoint⟩ := by
  have hsound := SoundCase.verdicted h.plan h.observation h.verdict
  rw [← h.records] at hsound
  refine replayCase_eq_ok.mpr ⟨h.authority, ?_, _, hsound, ?_⟩
  · rintro _ ⟨⟩
    rfl
  · rw [Option.map_some, Option.map_some, h.supported]

/-- The case is captured. -/
theorem captured [WideHex D] {limits : ArtifactBundleLimits} (hms : Admissible limits b.members) :
    ∃ capture, captureCase (viewOf b.members) (infosOf 0 b.members) (entriesOf b.members) b.workflow
      (some journalId) (some caseAuthority) (some journal.headDigest) = .ok capture ∧
      capture.journal = some journal ∧ ∀ id ∈ caseArtifactIds journalId p outputId,
        ∃ r, capture.references.get? id = some r ∧ b.workflow.artifact? id = some r := by
  obtain ⟨r, hr, -, hcontent⟩ := h.journal_artifact
  obtain ⟨r₂, hr₂, -, hsize₂⟩ := h.assertion_artifact
  obtain ⟨r₃, hr₃, -, hsize₃⟩ := h.input_artifact
  obtain ⟨r₄, hr₄, -, hsize₄, -⟩ := h.output_artifact
  have hmem := mem_of_artifact? hr
  have hsize : r.sizeBytes ≤ 2 * 1024 * 1024 := by
    rw [← b.size_content hmem, hcontent]
    exact journal.size_le
  have hentry : objectPath r.sha256 ∈ (entriesOf b.members).map Prod.fst := by
    rw [map_fst_entriesOf, b.map_name_members]
    exact List.mem_append_right _ (List.mem_map_of_mem (mem_committedDigests.mpr ⟨r, hmem, rfl⟩))
  have hread : readMember (fileMember (objectPath r.sha256, b.content r.sha256)) (r.sizeBytes + 1) =
      .ok (b.content r.sha256) := by
    refine (readMember_eq_ok ?_).mpr ⟨rfl, rfl⟩
    exact (b.size_content hmem).trans_le (Nat.le_succ _)
  have hfrom : CaseJournal.fromBytes (b.content r.sha256) caseAuthority (some journal.headDigest) =
      .ok journal := by
    rw [hcontent]
    exact CaseJournal.fromBytes_toBytes h.replayed
  have hrequired : ∀ item ∈ (caseArtifactIds journalId p outputId).zip captureMaxima,
      ∃ r, b.workflow.artifact? item.1 = some r ∧ r.sizeBytes ≤ item.2 := by
    simp only [caseArtifactIds, captureMaxima, List.zip_cons_cons, List.zip_nil_right,
      List.forall_mem_cons]
    exact ⟨⟨r, hr, hsize⟩, ⟨r₂, hr₂, hsize₂⟩, ⟨r₃, hr₃, hsize₃⟩, ⟨r₄, hr₄, hsize₄⟩, by simp⟩
  obtain ⟨references, hreferences⟩ := exists_captureReferences hrequired Dict.empty
  obtain ⟨-, -, hfound⟩ := captureReferences_eq_ok (fun _ _ h => by cases h) hreferences
  refine ⟨⟨some journal, Dict.empty.set journalId (b.content r.sha256), references⟩, ?_, rfl, ?_⟩
  swap
  · simp only [caseArtifactIds, captureMaxima, List.zip_cons_cons, List.zip_nil_right,
      List.forall_mem_cons] at hfound ⊢
    obtain ⟨⟨s₁, h₁, h₁', -⟩, ⟨s₂, h₂, h₂', -⟩, ⟨s₃, h₃, h₃', -⟩, ⟨s₄, h₄, h₄', -⟩, -⟩ := hfound
    exact ⟨⟨s₁, h₁, h₁'⟩, ⟨s₂, h₂, h₂'⟩, ⟨s₃, h₃, h₃'⟩, ⟨s₄, h₄, h₄'⟩, by simp⟩
  simp only [captureCase, bind_eq_ok, orError_eq_ok, Option.some.injEq, require_eq_ok, exists_unit,
    valid_eq_ok]
  refine ⟨_, rfl, _, rfl, r, hr, ⟨hsize, hentry⟩, _, (openMember_content hms hmem).mpr rfl, _, hread,
    b.matches_content r hmem, journal, hfrom, ?_⟩
  rw [h.records]
  simp only [bind_eq_ok, orError_eq_ok, require_eq_ok, exists_unit, valid_eq_ok]
  exact ⟨h.observed, outputId, h.output, h.distinct, references, hreferences, rfl⟩

/-- **The gate lets a supporting case pass.** -/
theorem verify [WideHex D] {workflowAuthority : AuthorityPolicy}
    {expectedWorkflowHead expectedEvidenceHead : D} {expectedBundleDigest : Option D}
    {limits : ArtifactBundleLimits} (haccepted : b.Accepted workflowAuthority expectedWorkflowHead
      expectedEvidenceHead expectedBundleDigest limits) :
    verifySupportedCaseBundle b.archive workflowAuthority caseAuthority journalId
      expectedWorkflowHead expectedEvidenceHead journal.headDigest expectedBundleDigest limits =
        .ok ⟨b.verified, journal, ⟨.verdicted, some p.caseId, some .supported, none,
          journal.checkpoint⟩, p.caseId, p.claimId, caseArtifactIds journalId p outputId⟩ := by
  obtain ⟨capture, hcapture, hjournal, hreferences⟩ := h.captured haccepted.admissible
  obtain ⟨r, hr, hmedia, -⟩ := h.journal_artifact
  obtain ⟨r₂, hr₂, hdigest₂, hsize₂⟩ := h.assertion_artifact
  obtain ⟨r₃, hr₃, hdigest₃, hsize₃⟩ := h.input_artifact
  obtain ⟨r₄, hr₄, hdigest₄, hsize₄, cs, hdecode, htext⟩ := h.output_artifact
  have hget : ∀ id ∈ caseArtifactIds journalId p outputId, ∀ r, b.workflow.artifact? id = some r →
      (b.capturedFrom capture).get? id = some (b.content r.sha256) := by
    intro id hid r hr
    obtain ⟨r', hr', hsame⟩ := hreferences id hid
    obtain rfl := Option.some.inj (hr.symm.trans hsame)
    exact get?_capturedFrom hr' (mem_committedDigests.mpr ⟨r, mem_of_artifact? hr, rfl⟩)
  have hlength {r : ArtifactReference D} {id : Identifier} (hr : b.workflow.artifact? id = some r) :
      (b.content r.sha256).length = r.sizeBytes := b.size_content (mem_of_artifact? hr)
  have hsha {r : ArtifactReference D} {id : Identifier} (hr : b.workflow.artifact? id = some r) :
      sha256 (b.content r.sha256) = r.sha256 := (b.matches_content r (mem_of_artifact? hr)).2
  have hbounds : maxAssertion + maxInput + maxOutput ≤ maxTotalPayload := by decide
  have hchecked : checkedOutput (b.content r₄.sha256)
      ((b.content r₂.sha256).length + (b.content r₃.sha256).length) = .ok (b.content r₄.sha256) := by
    rw [hlength hr₂, hlength hr₃]
    simp only [checkedOutput, hlength hr₄, hdecode, Option.map_some, bind_eq_ok, valid_eq_ok,
      exists_unit, orError_eq_ok, Option.some.injEq]
    exact ⟨hsize₄, by omega, _, rfl, htext, trivial⟩
  have hobserved : some (sha256 (b.content r₄.sha256)) = o.observedSha256 := by
    rw [hsha hr₄, hdigest₄, (h.verdict.supported_iff h.observed).mp h.supported]
  simp only [verifySupportedCaseBundle, bind_eq_ok, Prod.exists, orError_eq_ok, valid_eq_ok,
    exists_unit]
  refine ⟨_, _, _, haccepted.internal hcapture, journal, hjournal, _, h.replayed, ⟨rfl, rfl⟩, ?_⟩
  rw [h.records]
  simp only [bind_eq_ok, orError_eq_ok, valid_eq_ok, require_eq_ok, exists_unit, Except.ok.injEq]
  refine ⟨h.workflow_id, c, h.claim, ⟨h.scope, h.approved⟩, outputId, h.output,
    ⟨h.distinct, h.bound⟩, r, hr, hmedia, _, hget _ (by simp [caseArtifactIds]) _ hr₂, _,
    hget _ (by simp [caseArtifactIds]) _ hr₃, _, hget _ (by simp [caseArtifactIds]) _ hr₄,
    ⟨(hsha hr₂).trans hdigest₂, (hsha hr₃).trans hdigest₃, ?_⟩, _, hchecked,
    ⟨hobserved, (hsha hr₄).trans hdigest₄⟩, rfl⟩
  rw [hsha hr₃, hdigest₃, h.observation.input_digest]

end Supports

end EvidenceBraid
