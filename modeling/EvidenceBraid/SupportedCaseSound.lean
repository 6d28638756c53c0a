import EvidenceBraid.Library.JsonText
import EvidenceBraid.SupportedCase

/-!
# The supported-case gate is sound

What the gate returns is a case that the archive's approved claim is bound to
(`verifySupportedCaseBundle_sound`), and some archive passes it.
-/

namespace EvidenceBraid

open Hashing

variable {D : Type} [Hashing D] [DecidableEq D]

/-- **The supported-case gate is sound.** -/
theorem verifySupportedCaseBundle_sound {archive : Bytes} {workflowAuthority : AuthorityPolicy}
    {caseAuthority : CaseAuthority} {journalId : Identifier}
    {expectedWorkflowHead expectedEvidenceHead expectedCaseHead : D} {expectedBundleDigest : Option D}
    {limits : ArtifactBundleLimits} {v : VerifiedSupportedCaseBundle D}
    (h : verifySupportedCaseBundle archive workflowAuthority caseAuthority journalId
      expectedWorkflowHead expectedEvidenceHead expectedCaseHead expectedBundleDigest limits = .ok v) :
    verifyArtifactBundle archive workflowAuthority expectedWorkflowHead expectedEvidenceHead
      expectedBundleDigest limits = .ok v.archive ∧
    replayWorkflow v.archive.workflow workflowAuthority (some expectedWorkflowHead) =
      .ok v.archive.state ∧
    Archived archive limits v.archive.workflow journalId v.journal.toBytes ∧
    replayCase v.journal caseAuthority (some expectedCaseHead) = .ok v.caseState ∧
    ∃ (p : CasePlan D) (o : CaseObservation D) (w : CaseVerdict D) (c : ClaimWorkflow)
      (outputId : Identifier) (assertion input output : Bytes),
      v.journal.records = [.plan p, .observation o, .verdict w] ∧
      SoundPlan caseAuthority p ∧ SoundObservation caseAuthority p o ∧
      SoundVerdict caseAuthority p o w ∧ v.journal.headDigest = expectedCaseHead ∧
      o.status = .observed ∧ w.outcome = .supported ∧
      p.workflowId = v.archive.workflow.workflowId ∧
      v.archive.state.claims.get? p.claimId = some c ∧ c.status = .approved ∧ c.scope = p.scope ∧
      o.artifactId = some outputId ∧ v.artifactIds = caseArtifactIds journalId p outputId ∧
      v.artifactIds.Nodup ∧ (∀ id ∈ v.artifactIds, id ∈ c.artifactIds) ∧
      Archived archive limits v.archive.workflow p.assertionArtifactId assertion ∧
      sha256 assertion = p.assertionSha256 ∧
      Archived archive limits v.archive.workflow p.inputArtifactId input ∧
      sha256 input = p.inputSha256 ∧ sha256 input = o.inputSha256 ∧
      Archived archive limits v.archive.workflow outputId output ∧
      some (sha256 output) = o.observedSha256 ∧ sha256 output = p.predictionSha256 := by
  simp only [verifySupportedCaseBundle, bind_eq_ok, Prod.exists, orError_eq_ok, valid_eq_ok,
    exists_unit] at h
  obtain ⟨verified, journal?, captured, hinternal, journal, rfl, state, hcase, ⟨hphase, houtcome⟩, h⟩ :=
    h
  obtain ⟨b, capture, haccepted, rfl, rfl, hcapture, hjournal?, rfl⟩ := of_internal hinternal
  obtain ⟨journal', reference, p, o, last, outputId, hjournal', hrest⟩ :=
    captureCase_eq_ok haccepted.admissible hcapture
  obtain ⟨hreference, hfrom, hrecords, hstatus, houtput, -, hreferences⟩ := hrest
  obtain rfl : journal = journal' := Option.some.inj (hjournal?.trans hjournal')
  have hraw := (CaseJournal.of_fromBytes hfrom).1
  rw [hrecords] at h
  simp only [bind_eq_ok, orError_eq_ok, valid_eq_ok, require_eq_ok, exists_unit,
    Except.ok.injEq] at h
  obtain ⟨hworkflow, c, hclaim, ⟨hscope, happroved⟩, _, houtput', ⟨hnodup, hbound⟩, h⟩ := h
  obtain ⟨_, -, -, assertion, hassertion, input, hinput, h⟩ := h
  obtain ⟨output, hcaptured, ⟨hassertionDigest, hinputDigest, hobserved⟩, -, -, ⟨houtputDigest,
    hprediction⟩, rfl⟩ := h
  obtain rfl := Option.some.inj (houtput.symm.trans houtput')
  obtain ⟨-, hhead, progress, hsound, rfl⟩ := replayCase_eq_ok.mp hcase
  -- what has been captured for an artifact of the case is what the archive stores
  have harchived : ∀ id ∈ caseArtifactIds journalId p outputId, ∀ bytes,
      (b.capturedFrom capture).get? id = some bytes →
        Archived b.archive limits b.workflow id bytes := by
    intro id hid bytes hbytes
    obtain ⟨r, hr, hr'⟩ := hreferences id hid
    rw [get?_capturedFrom hr (mem_committedDigests.mpr ⟨r, mem_of_artifact? hr', rfl⟩)] at hbytes
    obtain rfl := Option.some.inj hbytes
    exact archived_content haccepted.admissible hr'
  have hjournal : Archived b.archive limits b.workflow journalId journal.toBytes :=
    hraw ▸ archived_content haccepted.admissible hreference
  rw [hrecords] at hsound
  cases hsound with
  | verdicted hp ho hv =>
    refine ⟨?_, haccepted.replayed, hjournal, hcase, p, o, _, c, outputId, assertion, input, output,
      hrecords, hp, ho, hv, hhead _ rfl, hstatus, ?_, hworkflow, hclaim, happroved, hscope, houtput,
      rfl, hnodup, hbound, harchived _ (by simp [caseArtifactIds]) _ hassertion, hassertionDigest,
      harchived _ (by simp [caseArtifactIds]) _ hinput, hinputDigest, hobserved,
      harchived _ (by simp [caseArtifactIds]) _ hcaptured, houtputDigest, hprediction⟩
    · exact haccepted.verify
    · simpa using houtcome

/-! ## A supporting case -/

section Sample

variable (D)

/-- An actor with one role in scope `s`. -/
def scopedActor (actorId : Identifier) (kind : CaseActorKind) (role : CaseRole)
    (hrole : decide (role ∈ kind.allowed) = true := by exact Eq.refl true) : CaseActor where
  actorId := actorId
  kind := kind
  grants := [⟨⟨"s", Eq.refl true⟩, role⟩]
  grants_length := by simp
  grants_nodup := by simp
  grants_allowed := by simpa using of_decide_eq_true hrole

def scopedCaseAuthority : CaseAuthority where
  policyId := ⟨"p", Eq.refl true⟩
  actors := [scopedActor ⟨"planner", Eq.refl true⟩ .model .propose,
    scopedActor ⟨"probe", Eq.refl true⟩ .tool .observe,
    scopedActor ⟨"judge", Eq.refl true⟩ .human .evaluate]
  actors_length := by decide
  actors_nodup := by decide
  size_le := by decide +kernel

variable [WideHex D]

omit [DecidableEq D] [WideHex D] in
/-- The sample plan, for claim `c` of workflow `w`. -/
def scopedPlanFields : PlanFields D :=
  { samplePlanFields D with
    workflowId := ⟨"w", Eq.refl true⟩
    claimId := ⟨"c", Eq.refl true⟩
    scope := ⟨"s", Eq.refl true⟩
    authorityDigest := scopedCaseAuthority.digest }

omit [DecidableEq D] in
theorem size_scopedPlanFields_le : Json.size (scopedPlanFields D).toDict ≤ 1000 := by
  have hsize := (scopedPlanFields D).size_toDict_ids_le
  have htexts : Json.quotedSize "case-1" = 8 ∧ Json.quotedSize "w" = 3 ∧ Json.quotedSize "c" = 3 ∧
      Json.quotedSize "s" = 3 ∧ Json.quotedSize "planner" = 9 ∧ Json.quotedSize "assertion" = 11 ∧
      Json.quotedSize "input" = 7 ∧ Json.quotedSize "test" = 6 ∧ Json.quotedSize "adapter" = 9 ∧
      Json.quotedSize "1" = 3 ∧ Json.quotedSize "h" = 3 ∧ Json.quotedSize "p" = 3 ∧
      Json.quotedSize "" = 2 := by
    and_intros <;> exact Json.quotedSize_literal rfl
  simp only [scopedPlanFields, samplePlanFields] at hsize ⊢
  omega

omit [DecidableEq D] in
def scopedPlan : CasePlan D where
  toPlanFields := scopedPlanFields D
  ok := ⟨rfl, Nat.zero_le _, rfl, by simp [scopedPlanFields, samplePlanFields],
    (size_scopedPlanFields_le D).trans (by decide)⟩

omit [DecidableEq D] in
def scopedObservation : CaseObservation D :=
  { sampleObservation D ⟨"probe", Eq.refl true⟩ ⟨"output", Eq.refl true⟩ with
    planDigest := (scopedPlan D).digest }

omit [DecidableEq D] in
def scopedVerdict : CaseVerdict D where
  planDigest := (scopedPlan D).digest
  observationDigest := (scopedObservation D).digest
  evaluatorId := ⟨"judge", Eq.refl true⟩
  outcome := .supported

omit [DecidableEq D] in
def scopedCase : CaseJournal D :=
  CaseJournal.ofRecords scopedCaseAuthority.digest
    [.plan (scopedPlan D), .observation (scopedObservation D), .verdict (scopedVerdict D)] (by simp)

omit [DecidableEq D] in
theorem length_scopedCase_le : (scopedCase D).toBytes.length ≤ maxOutput := by
  have hreceipts : ∀ r ∈ (scopedCase D).receipts, Json.size r.toDict ≤
      Json.size r.record.toDict + 200 := fun r _ => r.size_toDict_record_le
  have hrecords : (scopedCase D).receipts.map (·.record) = [.plan (scopedPlan D),
      .observation (scopedObservation D), .verdict (scopedVerdict D)] :=
    CaseJournal.records_ofRecords
  have hsize := size_caseJournal_le (scopedCase D).authorityDigest (scopedCase D).receipts
  have hitems := Json.size_arr_le ((scopedCase D).receipts.map CaseReceipt.toDict)
  have hplan : Json.size (CaseRecord.plan (scopedPlan D)).toDict ≤ 1000 := size_scopedPlanFields_le D
  have hobservation : Json.size (CaseRecord.observation (scopedObservation D)).toDict ≤ 1200 :=
    (scopedObservation D).size_toDict_le
  have hverdict : Json.size (CaseRecord.verdict (scopedVerdict D)).toDict ≤ 600 :=
    (scopedVerdict D).size_toDict_le
  have hsum : ((scopedCase D).receipts.map fun r => Json.size r.toDict + 1).sum ≤
      ((scopedCase D).receipts.map fun r => Json.size r.record.toDict + 201).sum :=
    List.sum_le_sum fun r hr => Nat.add_le_add_right (hreceipts r hr) 1
  have hsame : ((scopedCase D).receipts.map fun r => Json.size r.record.toDict + 201).sum =
      (((scopedCase D).receipts.map (·.record)).map fun r => Json.size r.toDict + 201).sum := by
    rw [List.map_map]
    rfl
  rw [hsame, hrecords] at hsum
  simp only [List.map_cons, List.map_nil, List.sum_cons, List.sum_nil] at hsum
  rw [List.map_map] at hitems
  have hitems' : Json.size (.arr ((scopedCase D).receipts.map CaseReceipt.toDict)) ≤
    ((scopedCase D).receipts.map fun r => Json.size r.toDict + 1).sum + 2 := hitems
  have hbound : maxOutput = 4096 := rfl
  change Json.size (Json.dict (caseJournalItems _ _)) ≤ maxOutput
  omega

end Sample

omit [DecidableEq D] in
/-- The bytes of a journal are text. -/
theorem CaseJournal.text_toBytes [WideHex D] (journal : CaseJournal D)
    (hlength : journal.receipts.length ≤ 4) :
    ∃ cs, Utf8.decode journal.toBytes = some cs ∧ isXmlCharacter (String.ofList cs) = true := by
  refine ⟨_, Utf8.decode_encode _, ?_⟩
  rw [isXmlCharacter, String.toList_ofList, List.all_eq_true]
  have hascii : ∀ d : Char, 32 ≤ d.toNat → d.toNat < 127 → isXmlChar d = true := by
    intro d hlow hhigh
    have hrange : 0x20 ≤ d.toNat ∧ d.toNat ≤ 0xD7FF := ⟨hlow, by omega⟩
    simp [isXmlChar, hrange]
  apply Json.mem_dumps hascii
  intro item hitem
  have hnode := (journal.modest hlength).admitted item hitem
  cases item with
  | str s =>
    simp only [CaseNode, caseTextOk, Bool.and_eq_true] at hnode
    exact List.all_eq_true.mp hnode.2
  | obj kvs =>
    intro k hk
    have hkey := hnode k hk
    simp only [caseTextOk, Bool.and_eq_true] at hkey
    exact List.all_eq_true.mp hkey.2
  | _ => trivial

/-! ### The archive -/

section Sample

variable (D) [WideHex D]

/-- The bytes behind the digests: no file but the journal has any. -/
def scopedContent (digest : D) : Bytes :=
  if digest = sha256 (scopedCase D).toBytes then (scopedCase D).toBytes else []

theorem length_scopedContent_le (digest : D) : (scopedContent D digest).length ≤ maxOutput := by
  unfold scopedContent
  split_ifs
  · exact length_scopedCase_le D
  · exact Nat.zero_le _

theorem text_scopedContent (digest : D) : ∃ cs, Utf8.decode (scopedContent D digest) = some cs ∧
    isXmlCharacter (String.ofList cs) = true := by
  unfold scopedContent
  split_ifs
  · apply (scopedCase D).text_toBytes
    rw [scopedCase, CaseJournal.ofRecords, length_chainRecords]
    exact Nat.le_succ 3
  · exact ⟨[], rfl, rfl⟩

theorem sha256_scopedContent {digest : D}
    (h : digest = sha256 [] ∨ digest = sha256 (scopedCase D).toBytes) :
    sha256 (scopedContent D digest) = digest := by
  unfold scopedContent
  split_ifs with hjournal
  · exact hjournal.symm
  · exact (h.resolve_right hjournal).symm

/-- An artifact of claim `c`. -/
def scopedReference (artifactId : Identifier) (digest : D) (mediaType : Description 128) :
    ArtifactReference D where
  artifactId := artifactId
  scope := ⟨"s", Eq.refl true⟩
  claimId := ⟨"c", Eq.refl true⟩
  sha256 := digest
  sizeBytes := (scopedContent D digest).length
  mediaType := mediaType
  size_le := (length_scopedContent_le D digest).trans (by decide)

def scopedReferences : List (ArtifactReference D) :=
  [scopedReference D ⟨"assertion", Eq.refl true⟩ (sha256 []) ⟨"text/plain", Eq.refl true⟩,
    scopedReference D ⟨"input", Eq.refl true⟩ (sha256 []) ⟨"text/plain", Eq.refl true⟩,
    scopedReference D ⟨"journal", Eq.refl true⟩ (sha256 (scopedCase D).toBytes)
      ⟨journalMediaType, Eq.refl true⟩,
    scopedReference D ⟨"output", Eq.refl true⟩ (sha256 []) ⟨"text/plain", Eq.refl true⟩]

def scopedContext (records : List (WorkflowReceipt D)) : BundleFields D :=
  { sampleContext D records with artifacts := scopedReferences D }

/-- The artifacts are bound one after another, and the claim is approved. -/
def scopedTransitions : List (WorkflowTransition D) :=
  [sampleTransition D ⟨"1", Eq.refl true⟩ ⟨"a", Eq.refl true⟩ .create 0 none,
    sampleTransition D ⟨"2", Eq.refl true⟩ ⟨"a", Eq.refl true⟩ .bindEvidence 1
      (some (⟨"e", Eq.refl true⟩, (scopedEntry D).digest)),
    sampleTransition D ⟨"3", Eq.refl true⟩ ⟨"a", Eq.refl true⟩ .bindArtifact 2
      (some (⟨"journal", Eq.refl true⟩, sha256 (scopedCase D).toBytes)),
    sampleTransition D ⟨"4", Eq.refl true⟩ ⟨"a", Eq.refl true⟩ .bindArtifact 3
      (some (⟨"assertion", Eq.refl true⟩, sha256 [])),
    sampleTransition D ⟨"5", Eq.refl true⟩ ⟨"a", Eq.refl true⟩ .bindArtifact 4
      (some (⟨"input", Eq.refl true⟩, sha256 [])),
    sampleTransition D ⟨"6", Eq.refl true⟩ ⟨"a", Eq.refl true⟩ .bindArtifact 5
      (some (⟨"output", Eq.refl true⟩, sha256 [])),
    sampleTransition D ⟨"7", Eq.refl true⟩ ⟨"a", Eq.refl true⟩ .submit 6 none,
    sampleTransition D ⟨"8", Eq.refl true⟩ ⟨"r", Eq.refl true⟩ .approve 7 none]

/-- The claim with these artifacts. -/
def scopedClaim (status : ClaimStatus) (revision : ℕ) (artifactIds approvals : List Identifier) :
    ClaimWorkflow :=
  sampleClaim status revision [⟨"e", Eq.refl true⟩] artifactIds approvals

def scopedClaims (claim : ClaimWorkflow) : Claims :=
  ⟨[(⟨"c", Eq.refl true⟩, claim)], List.nodup_singleton _⟩

def approvedClaim : ClaimWorkflow :=
  scopedClaim .approved 8 [⟨"journal", Eq.refl true⟩, ⟨"assertion", Eq.refl true⟩, ⟨"input", Eq.refl true⟩,
    ⟨"output", Eq.refl true⟩] [⟨"r", Eq.refl true⟩]

variable {D}

omit [Hashing D] [WideHex D] in
/-- One more artifact is bound to the claim. -/
theorem replayTransition_bindScoped {b : BundleFields D} {a : ArtifactReference D} {revision : ℕ}
    {ids : List Identifier} (id : Identifier) (hrevision : revision ≤ maxWorkflowRecords)
    (hfind : b.artifact? a.artifactId = some a) (hclaim : a.claimId = ⟨"c", by decide⟩)
    (hscope : a.scope = ⟨"s", by decide⟩) (hnot : a.artifactId ∉ ids)
    (hbound : ClaimWorkflow.make (scopedClaim .draft revision (ids ++ [a.artifactId]) []) =
      .ok (scopedClaim .draft revision (ids ++ [a.artifactId]) []))
    (hrevised : ClaimWorkflow.make (scopedClaim .draft (revision + 1) (ids ++ [a.artifactId]) []) =
      .ok (scopedClaim .draft (revision + 1) (ids ++ [a.artifactId]) [])) :
    replayTransition b sampleAuthority (scopedClaims (scopedClaim .draft revision ids []))
        (sampleTransition D id ⟨"a", by decide⟩ .bindArtifact revision
          (some (a.artifactId, a.sha256)) (decide_eq_true hrevision)) =
      .ok (scopedClaims (scopedClaim .draft (revision + 1) (ids ++ [a.artifactId]) [])) := by
  refine replayTransition_author (c := scopedClaim .draft revision ids [])
    (d := scopedClaim .draft revision (ids ++ [a.artifactId]) [])
    (f := scopedClaim .draft (revision + 1) (ids ++ [a.artifactId]) []) rfl
    (List.mem_singleton_self _) rfl (by simp [sampleTransition]) rfl rfl rfl rfl ?_ hbound hrevised rfl
  simp only [ClaimWorkflow.authored, sampleTransition, ClaimWorkflow.bindArtifact, bind_eq_ok]
  exact ⟨_, rfl, a, orError_eq_ok.mpr hfind, (), require_of ⟨rfl, hclaim, hscope, hnot⟩, hbound⟩

variable (D)

theorem replay_scopedTransitions (records : List (WorkflowReceipt D)) :
    replayTransitions (scopedContext D records) sampleAuthority Dict.empty (scopedTransitions D) =
      .ok (scopedClaims approvedClaim) := by
  have hevidence := bindEvidence_scopedEntry D (b := scopedContext D records) rfl
  simp only [scopedTransitions, replayTransitions, bind_eq_ok]
  refine ⟨_, rfl, scopedClaims (scopedClaim .draft 2 [] []), ?_, _,
    replayTransition_bindScoped
      (a := scopedReference D ⟨"journal", by decide⟩ (sha256 (scopedCase D).toBytes)
        ⟨journalMediaType, by decide⟩) _ (by decide) rfl rfl rfl List.not_mem_nil rfl rfl, _,
    replayTransition_bindScoped
      (a := scopedReference D ⟨"assertion", by decide⟩ (sha256 []) ⟨"text/plain", by decide⟩)
      _ (by decide) rfl rfl rfl (by simp [scopedReference]) rfl rfl, _,
    replayTransition_bindScoped
      (a := scopedReference D ⟨"input", by decide⟩ (sha256 []) ⟨"text/plain", by decide⟩)
      _ (by decide) rfl rfl rfl (by simp [scopedReference]) rfl rfl, _,
    replayTransition_bindScoped
      (a := scopedReference D ⟨"output", by decide⟩ (sha256 []) ⟨"text/plain", by decide⟩)
      _ (by decide) rfl rfl rfl (by simp [scopedReference]) rfl rfl, _, rfl, _, rfl, rfl⟩
  refine replayTransition_author (c := sampleClaim .draft 1 [] [] []) rfl ?_ rfl (by simp [sampleTransition]) rfl rfl rfl
    rfl hevidence rfl rfl rfl
  exact List.mem_singleton_self _

theorem valid_scopedContext {records : List (WorkflowReceipt D)} (hlength : records.length ≤ 100)
    (hlinked : LinkedReceipts (scopedContext D []).contextDigest 0
      (scopedContext D []).contextDigest records)
    (hdistinct : (records.map (·.transition.transitionId)).Nodup) :
    (scopedContext D records).Valid where
  verified := verify_sampleContext D records
  artifacts_length := (by decide : 4 ≤ maxWorkflowArtifacts)
  artifacts_sorted := by
    change ([⟨"assertion", by decide⟩, ⟨"input", by decide⟩, ⟨"journal", by decide⟩,
      ⟨"output", by decide⟩] : List Identifier).Pairwise (· < ·)
    decide
  records_length := hlength.trans (by decide)
  linked := hlinked
  distinct := hdistinct
  size_le := by
    change Json.size (scopedContext D records).toDict ≤ _
    rw [BundleFields.size_toDict]
    have hevidence : Json.size (scopedContext D records).evidence.toDict ≤ 12000 :=
      size_evidence_le D records
    have hartifacts := Json.size_map_le ArtifactReference.size_toDict_le
      (scopedContext D records).artifacts
    have hrecords := Json.size_map_le WorkflowReceipt.size_toDict_le records
    have hfour : (scopedContext D records).artifacts.length = 4 := rfl
    have hcount : Json.size (.int records.length) ≤ 3 :=
      Json.size_nat_le (by decide) (by omega)
    have hid : Json.quotedSize (scopedContext D records).workflowId.value = 3 :=
      (Json.quotedSize_literal rfl : Json.quotedSize "w" = 3)
    have hmax : maxWorkflowBytes = 67108864 := rfl
    have hrecords' : (scopedContext D records).records = records := rfl
    rw [hfour] at hartifacts
    rw [hrecords']
    omega

/-- The case's history is replayed, with an approved claim. -/
theorem replay_scopedContext : ∃ bundle : WorkflowBundle D,
    bundle.toBundleFields = scopedContext D bundle.records ∧
      replayWorkflow bundle sampleAuthority (some bundle.headDigest) = .ok ⟨bundle.workflowId,
        bundle.headDigest, bundle.records.length, scopedClaims approvedClaim⟩ := by
  obtain ⟨records, hseal⟩ : ∃ records, sealTransitions (scopedContext D []).contextDigest 0
      (scopedContext D []).contextDigest (scopedTransitions D) = .ok records := ⟨_, rfl⟩
  obtain ⟨htransitions, hlinked⟩ := sealTransitions_eq_ok.mp hseal
  have hlength : records.length = 8 := by
    rw [← List.length_map (·.transition), htransitions]
    rfl
  have hdistinct : (records.map (·.transition.transitionId)).Nodup := by
    have hids : records.map (·.transition.transitionId) =
        (scopedTransitions D).map (·.transitionId) := by
      rw [← htransitions, List.map_map]
      rfl
    rw [hids]
    simp only [scopedTransitions, sampleTransition, List.map_cons, List.map_nil]
    decide
  let bundle : WorkflowBundle D :=
    ⟨scopedContext D records, valid_scopedContext D (by omega) hlinked hdistinct⟩
  have hreplay : replayTransitions bundle.toBundleFields sampleAuthority Dict.empty
      bundle.transitions = .ok (scopedClaims approvedClaim) := by
    rw [show bundle.transitions = scopedTransitions D from htransitions]
    exact replay_scopedTransitions D records
  have hcount : bundle.records.length = 8 := hlength
  refine ⟨bundle, rfl, ?_⟩
  simp only [replayWorkflow, bind_eq_ok]
  refine ⟨(), valid_of rfl, (), valid_of (by simp), _, hreplay, ?_⟩
  simp only [WorkflowState.make, hcount, bind_eq_ok]
  exact ⟨(), rfl, (), rfl, (), rfl, trivial⟩

theorem matches_scopedReferences : ∀ a ∈ scopedReferences D, a.Matches (scopedContent D a.sha256) := by
  intro a ha
  simp only [scopedReferences, List.mem_cons, List.not_mem_nil, or_false] at ha
  rcases ha with rfl | rfl | rfl | rfl
  · exact ⟨rfl, sha256_scopedContent D (.inl rfl)⟩
  · exact ⟨rfl, sha256_scopedContent D (.inl rfl)⟩
  · exact ⟨rfl, sha256_scopedContent D (.inr rfl)⟩
  · exact ⟨rfl, sha256_scopedContent D (.inl rfl)⟩

theorem size_scopedReferences_le : ∀ a ∈ scopedReferences D, a.sizeBytes ≤ maxOutput := by
  intro a ha
  rw [← (matches_scopedReferences D a ha).1]
  exact length_scopedContent_le D a.sha256

/-- **An archive of the case is accepted.** -/
theorem accepted_scoped {b : ClosedBundle D} (hcontext : b.workflow.toBundleFields =
      scopedContext D b.workflow.records) (hcontent : b.content = scopedContent D)
    (hstate : b.state = ⟨b.workflow.workflowId, b.workflow.headDigest, b.workflow.records.length,
      scopedClaims approvedClaim⟩)
    (hreplay : replayWorkflow b.workflow sampleAuthority (some b.workflow.headDigest) =
      .ok b.state) :
    b.Accepted sampleAuthority b.workflow.headDigest b.workflow.evidence.headDigest none
      ArtifactBundleLimits.default := by
  have hartifacts : b.workflow.artifacts = scopedReferences D :=
    congrArg BundleFields.artifacts hcontext
  have hbounded : BoundedArtifacts ArtifactBundleLimits.default b.workflow := by
    constructor
    all_goals rw [hartifacts]
    · exact (by decide : 4 ≤ ArtifactBundleLimits.default.maxArtifacts)
    · have hsum : ((scopedReferences D).map (·.sizeBytes)).sum ≤
          ((scopedReferences D).map (·.sizeBytes)).length * maxOutput := by
        apply List.sum_le_card_nsmul
        intro size hsize
        obtain ⟨a, ha, rfl⟩ := List.mem_map.mp hsize
        exact size_scopedReferences_le D a ha
      exact hsum.trans (by decide : 4 * maxOutput ≤ ArtifactBundleLimits.default.maxTotalSourceBytes)
    · exact fun a ha => (size_scopedReferences_le D a ha).trans (by decide)
  have htotal : (b.objects.map Prod.snd).sum ≤ ArtifactBundleLimits.default.maxTotalObjectBytes := by
    have hlength : (b.objects.map Prod.snd).length ≤ 4 := by
      have hfew := b.length_committedDigests_le
      rw [hartifacts] at hfew
      rw [List.length_map, ClosedBundle.objects, committedObjects, List.length_map]
      exact hfew
    have hsum : (b.objects.map Prod.snd).sum ≤ (b.objects.map Prod.snd).length * maxOutput := by
      apply List.sum_le_card_nsmul
      intro size hsize
      simp only [ClosedBundle.objects, committedObjects, List.map_map, List.mem_map] at hsize
      obtain ⟨d, -, rfl⟩ := hsize
      rw [hcontent]
      exact length_scopedContent_le D d
    exact (hsum.trans (Nat.mul_le_mul_right _ hlength)).trans (by decide)
  have hraw : b.stateRaw.length ≤ ArtifactBundleLimits.default.maxStateBytes := by
    have hcount : b.state.recordCount ≤ maxWorkflowRecords := hstate ▸ b.workflow.ok.records_length
    have hsize := WorkflowState.size_toDict_le hcount
    have hdict : Json.size (Json.dict ((scopedClaims approvedClaim).items.map
        fun kv => (kv.1.value, kv.2.toDict))) ≤ 1000 := by decide +kernel
    rw [show b.state.claims = scopedClaims approvedClaim by rw [hstate]] at hsize
    exact (hsize.trans (Nat.add_le_add_right hdict 400)).trans (by decide)
  exact ⟨b.admissible_members hbounded htotal hraw, hreplay, rfl, hbounded, by simp⟩

omit [DecidableEq D] in
theorem soundPlan_scoped : SoundPlan scopedCaseAuthority (scopedPlan D) :=
  ⟨rfl, _, List.mem_cons_self, rfl, by decide, List.mem_cons_self⟩

omit [DecidableEq D] in
theorem soundObservation_scoped :
    SoundObservation scopedCaseAuthority (scopedPlan D) (scopedObservation D) where
  plan_digest := rfl
  input_digest := rfl
  observer := ⟨_, List.mem_cons_of_mem _ List.mem_cons_self, rfl, by decide, List.mem_cons_self⟩
  observer_ne := by
    simp [scopedObservation, sampleObservation, scopedPlan, scopedPlanFields, samplePlanFields,
      Identifier.ext_iff']
  artifact_ne := by
    simp [scopedObservation, sampleObservation, scopedPlan, scopedPlanFields, samplePlanFields,
      Identifier.ext_iff']

omit [DecidableEq D] in
theorem soundVerdict_scoped : SoundVerdict scopedCaseAuthority (scopedPlan D) (scopedObservation D)
    (scopedVerdict D) where
  plan_digest := rfl
  observation_digest := rfl
  evaluator := ⟨_, List.mem_cons_of_mem _ (List.mem_cons_of_mem _ List.mem_cons_self), rfl,
    by decide, List.mem_cons_self⟩
  evaluator_ne := by
    simp [scopedVerdict, scopedObservation, sampleObservation, scopedPlan, scopedPlanFields,
      samplePlanFields, Identifier.ext_iff']
  inconclusive_iff := by simp [scopedVerdict, scopedObservation, sampleObservation]
  supported_iff := by
    simp [scopedVerdict, scopedObservation, sampleObservation, scopedPlan, scopedPlanFields,
      samplePlanFields]

/-- The case supports the claim. -/
theorem supports_scoped {b : ClosedBundle D} (hcontext : b.workflow.toBundleFields =
      scopedContext D b.workflow.records) (hcontent : b.content = scopedContent D)
    (hstate : b.state.claims = scopedClaims approvedClaim) :
    Supports b scopedCaseAuthority ⟨"journal", by decide⟩ (scopedCase D) (scopedPlan D)
      (scopedObservation D) (scopedVerdict D) approvedClaim ⟨"output", by decide⟩ := by
  have hfind (id : Identifier) : b.workflow.artifact? id = (scopedContext D []).artifact? id := by
    rw [hcontext]
    rfl
  have hsize {maximum : ℕ} (h : maxOutput ≤ maximum) :
      (scopedContent D (sha256 [])).length ≤ maximum := (length_scopedContent_le D _).trans h
  exact {
    authority := rfl
    records := CaseJournal.records_ofRecords
    plan := soundPlan_scoped D
    observation := soundObservation_scoped D
    verdict := soundVerdict_scoped D
    observed := rfl
    supported := rfl
    workflow_id := by
      rw [hcontext]
      rfl
    claim := by
      rw [hstate]
      rfl
    approved := rfl
    scope := rfl
    output := rfl
    distinct := by
      simp [caseArtifactIds, scopedPlan, scopedPlanFields, samplePlanFields]
    bound := by
      simp [caseArtifactIds, scopedPlan, scopedPlanFields, samplePlanFields, approvedClaim,
        scopedClaim, sampleClaim]
    journal_artifact := by
      refine ⟨_, (hfind _).trans rfl, rfl, ?_⟩
      rw [hcontent]
      exact if_pos rfl
    assertion_artifact := ⟨_, (hfind _).trans rfl, rfl, hsize (by decide)⟩
    input_artifact := ⟨_, (hfind _).trans rfl, rfl, hsize (by decide)⟩
    output_artifact := by
      refine ⟨_, (hfind _).trans rfl, rfl, hsize le_rfl, ?_⟩
      rw [hcontent]
      exact text_scopedContent D (sha256 []) }

/-- **Some archive passes the gate.** -/
theorem exists_supported : ∃ (archive : Bytes) (workflowHead evidenceHead : D)
    (v : VerifiedSupportedCaseBundle D), verifySupportedCaseBundle archive sampleAuthority
      scopedCaseAuthority ⟨"journal", by decide⟩ workflowHead evidenceHead (scopedCase D).headDigest
      none ArtifactBundleLimits.default = .ok v := by
  obtain ⟨workflow, hcontext, hreplay⟩ := replay_scopedContext D
  have hartifacts : workflow.artifacts = scopedReferences D :=
    congrArg BundleFields.artifacts hcontext
  let b : ClosedBundle D := ⟨workflow, ⟨workflow.workflowId, workflow.headDigest,
    workflow.records.length, scopedClaims approvedClaim⟩, scopedContent D,
    hartifacts ▸ matches_scopedReferences D⟩
  exact ⟨b.archive, _, _, _, (supports_scoped D (b := b) hcontext rfl rfl).verify
    (accepted_scoped D (b := b) hcontext rfl rfl hreplay)⟩

end Sample

/-- The gate lets the archive of the sample case pass. -/
theorem verifySupportedCaseBundle_sound_scoped :
    ∃ (archive : Bytes) (v : VerifiedSupportedCaseBundle HexDigest) (head evidenceHead : HexDigest)
      (c : ClaimWorkflow), verifySupportedCaseBundle archive sampleAuthority scopedCaseAuthority
        ⟨"journal", by decide⟩ head evidenceHead (scopedCase HexDigest).headDigest none
        ArtifactBundleLimits.default = .ok v ∧ c.status = .approved ∧
      ∀ id ∈ v.artifactIds, id ∈ c.artifactIds := by
  obtain ⟨archive, head, evidenceHead, v, h⟩ := exists_supported HexDigest
  obtain ⟨_, _, _, _, p, o, w, c, outputId, hrest⟩ := verifySupportedCaseBundle_sound h
  obtain ⟨-, -, -, -, -, -, -, -, -, -, -, -, happroved, -, -, -, -, hbound, -⟩ := hrest
  exact ⟨archive, v, head, evidenceHead, c, h, happroved, hbound⟩

end EvidenceBraid
