import EvidenceBraid.CaseLookup

/-!
# Three ways to a verdict

`verify_observed_bytes` computes a verdict from the bytes that the runner retained,
`append_checked_verdict` from those of the store, and `replay_case` checks a recorded one against the
observation. All three arrive at `outcomeOf` the plan, the observation and its bytes
(`verdict_paths_agree`).
-/

namespace EvidenceBraid

open Hashing Transaction Sqlite

variable {D : Type} [Hashing D] [DecidableEq D]

/-! ## `verify_observed_bytes` -/

instance : DecidableEq (CasePlan D) := fun p q =>
  decidable_of_iff (p.toPlanFields = q.toPlanFields)
    ⟨CasePlan.ext_fields, congrArg CasePlan.toPlanFields⟩

deriving instance DecidableEq for CaseRecord

deriving instance DecidableEq for CaseReceipt

deriving instance DecidableEq for CaseJournal

/-- `ObservationArtifact`. -/
structure ObservationArtifact (D : Type) where
  artifactId : Identifier
  sha256 : D
  deriving DecidableEq

/-- `RetainedObservation`. -/
structure RetainedObservation (D : Type) [Hashing D] where
  journal : CaseJournal D
  planCheckpoint : CaseCheckpoint D
  observationCheckpoint : CaseCheckpoint D
  observation : CaseObservation D
  adapterKey : AdapterKey
  requestId : Identifier
  assertionBytes : Bytes
  inputBytes : Bytes
  observedBytes : Option Bytes
  artifactInventory : List (ObservationArtifact D)
  limits : ObservationLimits

/-- `CheckedObservation`. -/
structure CheckedObservation (D : Type) [Hashing D] where
  journal : CaseJournal D
  verdict : CaseVerdict D
  planCheckpoint : CaseCheckpoint D
  observationCheckpoint : CaseCheckpoint D
  verdictCheckpoint : CaseCheckpoint D
  assertionBytes : Bytes
  inputBytes : Bytes
  observedBytes : Option Bytes

/-- `_output`, where `none` is no bytes object. -/
def boundedOutput (limits : ObservationLimits) (raw : Option Bytes) (inputTotal : ℕ) :
    Result Bytes := do
  let raw ← orError raw (.validation "adapter output must be bounded built-in bytes")
  valid (raw.length ≤ limits.outputBytes) "adapter output must be bounded built-in bytes"
  valid (inputTotal + raw.length ≤ limits.totalBytes)
    "retained observation exceeds the total byte bound"
  let text ← orError ((Utf8.decode raw).map String.ofList)
    (.validation "adapter output is not strict UTF-8")
  valid (isXmlCharacter text = true) "adapter output has unsupported text"
  .ok raw

/-- The output, the inventory and the outcome of an observation and its retained bytes. -/
def verifiedOutcome (plan : CasePlan D) (retained : RetainedObservation D) :
    Result (Option Bytes × List (ObservationArtifact D) × CaseVerdictOutcome) :=
  let observation := retained.observation
  let artifacts : List (ObservationArtifact D) :=
    [⟨plan.assertionArtifactId, sha256 retained.assertionBytes⟩,
      ⟨plan.inputArtifactId, sha256 retained.inputBytes⟩]
  if observation.status = .observed then do
    let output ← boundedOutput retained.limits retained.observedBytes
      (retained.assertionBytes.length + retained.inputBytes.length)
    valid (some (sha256 output) = observation.observedSha256)
      "retained output differs from observation commitment"
    let artifactId ← orError observation.artifactId
      (.validation "observed output lacks its artifact ID")
    .ok (some output, artifacts ++ [⟨artifactId, sha256 output⟩],
      if (sha256 output : D) = sha256 plan.expectedBytes then .supported else .refuted)
  else do
    valid (retained.observedBytes = none) "failed observation cannot retain a successful output"
    .ok (none, artifacts, .inconclusive)

/-- The verdict that `verify_observed_bytes` computes, before it is appended, and the output. `issued`
says whether the runner has issued the retained observation. -/
def verifiedVerdict (authority : CaseAuthority) (issued : Bool) (journal : CaseJournal D)
    (retained : RetainedObservation D) (expectedPlanHead expectedObservationHead : D)
    (evaluatorId : Identifier) : Result (CaseVerdict D × Option Bytes) := do
  valid (issued = true) "retained observation was not issued by the runner"
  let state ← replayCase journal authority (some expectedObservationHead)
  match journal.receipts with
  | [first, second] => do
    valid (state.phase = .observed) "verification requires exactly one recorded observation"
    valid (journal = retained.journal ∧ retained.observationCheckpoint = journal.checkpoint ∧
        first.digest = expectedPlanHead ∧
        retained.planCheckpoint = ⟨1, expectedPlanHead, by decide⟩ ∧
        .observation retained.observation = second.record ∧
        retained.requestId = retained.observation.requestId)
      "retained observation differs from pinned journal anchors"
    match first.record with
    | .plan plan => do
      valid (retained.adapterKey =
          ⟨plan.testId, plan.adapterId, plan.adapterVersion, retained.observation.observerId⟩)
        "retained adapter identity differs from plan"
      valid (retained.assertionBytes.length ≤ retained.limits.assertionBytes)
        "retained assertion must be bounded built-in bytes"
      valid (retained.inputBytes.length ≤ retained.limits.inputBytes)
        "retained test input must be bounded built-in bytes"
      valid (sha256 retained.assertionBytes = plan.assertionSha256 ∧
        sha256 retained.inputBytes = plan.inputSha256)
        "retained input bytes differ from plan commitments"
      valid (retained.assertionBytes.length + retained.inputBytes.length ≤
        retained.limits.totalBytes) "retained input exceeds total byte bound"
      let (output, artifacts, outcome) ← verifiedOutcome plan retained
      valid (retained.artifactInventory = artifacts)
        "retained artifact inventory is missing or mismatched"
      .ok (⟨plan.digest, retained.observation.digest, evaluatorId, outcome⟩, output)
    | _ => .error (.validation "retained case record types differ")
  | _ => .error (.validation "verification requires exactly one recorded observation")

/-- `verify_observed_bytes`. -/
def verifyObservedBytes (authority : CaseAuthority) (issued : Bool) (journal : CaseJournal D)
    (retained : RetainedObservation D) (expectedPlanHead expectedObservationHead : D)
    (evaluatorId : Identifier) : Result (CheckedObservation D) := do
  let (verdict, output) ← verifiedVerdict authority issued journal retained expectedPlanHead
    expectedObservationHead evaluatorId
  let evaluated ← journal.append [.verdict verdict] authority (some journal.checkpoint)
  .ok ⟨evaluated, verdict, retained.planCheckpoint, retained.observationCheckpoint,
    evaluated.checkpoint, retained.assertionBytes, retained.inputBytes, output⟩

/-! ## The outcome of an observation -/

/-- The outcome of an observation and its bytes. -/
def outcomeOf (plan : CasePlan D) (o : CaseObservation D) (output : Option Bytes) :
    CaseVerdictOutcome :=
  if o.status ≠ .observed then .inconclusive
  else if ∃ bytes ∈ output, (sha256 bytes : D) = sha256 plan.expectedBytes then .supported
  else .refuted

/-- The verdict of an evaluator with this outcome. -/
def verdictWith (plan : CasePlan D) (o : CaseObservation D) (evaluatorId : Identifier)
    (output : Option Bytes) : CaseVerdict D :=
  ⟨plan.digest, o.digest, evaluatorId, outcomeOf plan o output⟩

/-- The rules of a verdict but for its outcome. -/
structure BoundVerdict (authority : CaseAuthority) (p : CasePlan D) (o : CaseObservation D)
    (v : CaseVerdict D) : Prop where
  plan_digest : v.planDigest = p.digest
  observation_digest : v.observationDigest = o.digest
  evaluator : HasCaseRole authority v.evaluatorId [.tool, .human, .policy] p.scope .evaluate
  evaluator_ne : v.evaluatorId ≠ p.proposerId ∧ v.evaluatorId ≠ o.observerId

variable {plan : CasePlan D} {o : CaseObservation D} {output : Option Bytes}

theorem soundVerdict_iff {authority : CaseAuthority} {v : CaseVerdict D} :
    SoundVerdict authority plan o v ↔
      BoundVerdict authority plan o v ∧ v.outcome = expectedOutcome plan o := by
  rw [eq_expectedOutcome_iff]
  constructor
  · intro h
    exact ⟨⟨h.plan_digest, h.observation_digest, h.evaluator, h.evaluator_ne⟩, h.inconclusive_iff,
      h.supported_iff⟩
  · rintro ⟨h, hinconclusive, hsupported⟩
    exact ⟨h.plan_digest, h.observation_digest, h.evaluator, h.evaluator_ne, hinconclusive, hsupported⟩

/-- What replay expects is the outcome of the bytes that the observation commits to. -/
theorem expectedOutcome_eq_outcomeOf (hfits : OutputFits o output) :
    expectedOutcome plan o = outcomeOf plan o output := by
  unfold expectedOutcome outcomeOf
  by_cases hstatus : o.status = .observed
  · obtain ⟨bytes, rfl⟩ := Option.isSome_iff_exists.mp (hfits.observed_iff.mp hstatus)
    have hdigest := hfits.digest bytes rfl
    have hexpected : (sha256 plan.expectedBytes : D) = plan.predictionSha256 := plan.ok.text_digest
    simp [hstatus, hdigest, hexpected]
  · simp [hstatus]

/-- **What the retained bytes have passed.** They belong to the observation, and the outcome is
theirs. -/
theorem of_verifiedOutcome {retained : RetainedObservation D}
    {artifacts : List (ObservationArtifact D)} {outcome : CaseVerdictOutcome}
    (h : verifiedOutcome plan retained = .ok (output, artifacts, outcome)) :
    output = retained.observedBytes ∧ OutputFits retained.observation retained.observedBytes ∧
      outcome = outcomeOf plan retained.observation retained.observedBytes := by
  unfold verifiedOutcome at h
  unfold outcomeOf
  by_cases hstatus : retained.observation.status = .observed
  · simp only [if_pos hstatus, boundedOutput, bind_eq_ok, valid_eq_ok, orError_eq_ok, exists_unit,
      Except.ok.injEq, Prod.mk.injEq] at h
    obtain ⟨bytes, ⟨raw, hraw, hlength, -, text, htext, hcharacters, rfl⟩, hdigest, a, -, rfl, -, rfl⟩ := h
    obtain ⟨chars, hchars, rfl⟩ := Option.map_eq_some_iff.mp htext
    refine ⟨hraw.symm, ⟨?_, ?_, ?_⟩, ?_⟩
    · exact iff_of_true hstatus (by rw [hraw]; rfl)
    · intro bytes hbytes
      rw [hraw] at hbytes
      rw [← hdigest, Option.some.inj hbytes]
    · intro bytes hbytes
      rw [hraw] at hbytes
      rw [← Option.some.inj hbytes]
      exact ⟨hlength.trans retained.limits.bounds.2.2.2, chars, hchars, hcharacters⟩
    · rw [if_neg (not_not.mpr hstatus), hraw]
      simp only [Option.mem_def, Option.some.injEq, exists_eq_left']
  · simp only [if_neg hstatus, bind_eq_ok, valid_eq_ok, exists_unit, Except.ok.injEq,
      Prod.mk.injEq] at h
    obtain ⟨hnone, rfl, -, rfl⟩ := h
    refine ⟨hnone.symm, ⟨?_, ?_, ?_⟩, (if_pos hstatus).symm⟩
    · exact iff_of_false hstatus (by rw [hnone]; simp)
    · intro bytes hbytes
      rw [hnone] at hbytes
      cases hbytes
    · intro bytes hbytes
      rw [hnone] at hbytes
      cases hbytes

/-! ## The three paths -/

/-- An appended journal holds the records that were appended. -/
theorem CaseJournal.records_append {journal candidate : CaseJournal D} {records : List (CaseRecord D)}
    {authority : CaseAuthority} {expected : Option (CaseCheckpoint D)}
    (h : journal.append records authority expected = .ok candidate) :
    candidate.records = journal.records ++ records := by
  simp only [CaseJournal.append, bind_eq_ok, valid_eq_ok, exists_unit] at h
  obtain ⟨_, -, ⟨-, hlength⟩, -, added, hadded, h⟩ := h
  obtain ⟨made, hmade, _, -, hsame⟩ := h
  obtain rfl := Except.ok.inj hsame
  rw [sealRecords_eq hlength] at hadded
  rw [CaseJournal.records, (CaseJournal.make_eq_ok.mp hmade).2, List.map_append,
    ← Except.ok.inj hadded, records_chainRecords]
  rfl

/-- **Replay** accepts a verdict on an observation for one outcome only. -/
theorem replayCase_verdict_iff {authority : CaseAuthority} {journal : CaseJournal D}
    {v : CaseVerdict D} (hrecords : journal.records = [.plan plan, .observation o, .verdict v]) :
    (∃ state, replayCase journal authority none = .ok state) ↔
      journal.authorityDigest = authority.digest ∧ SoundPlan authority plan ∧
        SoundObservation authority plan o ∧ BoundVerdict authority plan o v ∧
        v.outcome = expectedOutcome plan o := by
  rw [CaseHistory.replayable_iff, hrecords, ← soundVerdict_iff]
  refine and_congr_right fun _ => ⟨?_, ?_⟩
  · rintro ⟨progress, hsound⟩
    cases hsound with
    | verdicted hp ho hv => exact ⟨hp, ho, hv⟩
  · rintro ⟨hp, ho, hv⟩
    exact ⟨_, .verdicted hp ho hv⟩

/-- **The verifier** computes the outcome of the bytes that it has checked. -/
theorem of_verifiedVerdict {authority : CaseAuthority} {issued : Bool} {journal : CaseJournal D}
    {retained : RetainedObservation D} {planHead observationHead : D} {evaluatorId : Identifier}
    {v : CaseVerdict D} (h : verifiedVerdict authority issued journal retained planHead
      observationHead evaluatorId = .ok (v, output)) :
    ∃ plan, journal.records = [.plan plan, .observation retained.observation] ∧
      output = retained.observedBytes ∧ OutputFits retained.observation retained.observedBytes ∧
      v = verdictWith plan retained.observation evaluatorId retained.observedBytes := by
  simp only [verifiedVerdict, bind_eq_ok, valid_eq_ok, exists_unit] at h
  obtain ⟨-, state, -, h⟩ := h
  rcases hreceipts : journal.receipts with _ | ⟨first, _ | ⟨second, _ | ⟨third, rest⟩⟩⟩
  · rw [hreceipts] at h
    cases h
  · rw [hreceipts] at h
    cases h
  · rw [hreceipts] at h
    simp only [bind_eq_ok, valid_eq_ok, exists_unit] at h
    obtain ⟨-, ⟨-, -, -, -, hrecord, -⟩, h⟩ := h
    cases hplan : first.record with
    | plan plan =>
      simp only [hplan, bind_eq_ok, valid_eq_ok, exists_unit, Except.ok.injEq, Prod.mk.injEq] at h
      obtain ⟨-, -, -, -, -, ⟨bytes, artifacts, outcome⟩, houtcome, -, rfl, rfl⟩ := h
      obtain ⟨hbytes, hfits, rfl⟩ := of_verifiedOutcome houtcome
      refine ⟨plan, ?_, hbytes, hfits, rfl⟩
      rw [CaseJournal.records, hreceipts, List.map_cons, List.map_cons, hplan, ← hrecord]
      rfl
    | observation o =>
      rw [hplan] at h
      cases h
    | verdict v =>
      rw [hplan] at h
      cases h
    | decision d =>
      rw [hplan] at h
      cases h
  · rw [hreceipts] at h
    cases h

variable [WideHex D]

/-- **The store** computes the outcome of the bytes that it holds. -/
theorem verdictOf_read {authority : CaseAuthority} {planHead : D} {t : CaseTables} {r : CaseRead D}
    (hread : readCase authority planHead t = .ok r)
    (hrecords : r.snapshot.journal.records = [.plan plan, .observation o])
    (operationId evaluatorId : Identifier) :
    OutputFits o r.snapshot.observedBytes ∧
      verdictOf r.snapshot operationId evaluatorId = .ok (verdictWrite operationId o.requestId
        r.snapshot.checkpoint (verdictWith plan o evaluatorId r.snapshot.observedBytes)) := by
  obtain ⟨h, hfits, -, rfl⟩ := readCase_eq_ok.mp hread
  have hjournal : h.records = [.plan plan, .observation o] := by
    rw [← hrecords]
    exact CaseHistory.records_journal.symm
  have houtput : OutputFits o (h.read authority planHead).snapshot.observedBytes := by
    have hfitsOutput := hfits.retained.output
    rw [hjournal] at hfitsOutput
    exact hfitsOutput
  refine ⟨houtput, ?_⟩
  rw [verdictOf, hrecords]
  simp only [Except.ok.injEq]
  rw [verdictWith, ← expectedOutcome_eq_outcomeOf houtput, ← checkedOutcome_eq houtput]

omit [WideHex D] in
/-- A verdict that is written goes to the end of the journal. -/
theorem verdict_journal {authority : CaseAuthority} {planHead : D} {t u : CaseTables}
    {operationId requestId : Identifier} {expected : CaseStoreCheckpoint D} {v : CaseVerdict D}
    {commit : CaseStoreCommit D} (h : alone true (writeAction authority planHead
      (verdictWrite operationId requestId expected v)) t = (.ok commit, u)) :
    ∃ r, readCase authority planHead t = .ok r ∧
      commit.result.journal.records = r.snapshot.journal.records ++ [CaseRecord.verdict v] := by
  obtain ⟨r, planned, hread, hplanned, -, rfl⟩ := write_eq_ok.mp h
  simp only [prepareWrite, bind_eq_ok, Except.ok.injEq] at hplanned
  obtain ⟨_, -, _, -, _, -, ⟨journal, pending⟩, hplanned⟩ := hplanned
  obtain ⟨houtcome, _, -, _, -, rfl⟩ := hplanned
  simp only [CaseWrite.outcome, verdictWrite, bind_eq_ok, Except.ok.injEq, Prod.mk.injEq] at houtcome
  obtain ⟨-, -, _, happend, rfl, -⟩ := houtcome
  exact ⟨r, hread, CaseJournal.records_append happend⟩

/-- **Three paths to the same verdict.** On a readable store, `append_checked_verdict` writes the
verdict of its bytes; `verify_observed_bytes` computes the verdict of the bytes that it was given; and
in both cases its outcome is the only one that `replay_case` accepts. -/
theorem verdict_paths_agree (authority : CaseAuthority) (plan : CasePlan D) (o : CaseObservation D)
    (output : Option Bytes) (operationId evaluatorId : Identifier) :
    (∀ planHead t r, readCase authority planHead t = .ok r →
      r.snapshot.journal.records = [.plan plan, .observation o] → r.snapshot.observedBytes = output →
        outcomeOf plan o output = expectedOutcome plan o ∧
        verdictOf r.snapshot operationId evaluatorId = .ok (verdictWrite operationId o.requestId
          r.snapshot.checkpoint (verdictWith plan o evaluatorId output)) ∧
        ∀ expected commit u, appendCheckedVerdict authority planHead operationId evaluatorId expected
          t = (.ok commit, u) → commit.result.journal.records =
            [.plan plan, .observation o, .verdict (verdictWith plan o evaluatorId output)]) ∧
    (∀ issued journal retained planHead observationHead v bytes,
      verifiedVerdict authority issued journal retained planHead observationHead evaluatorId =
        .ok (v, bytes) →
      journal.records = [.plan plan, .observation o] → retained.observedBytes = output →
        outcomeOf plan o output = expectedOutcome plan o ∧ v = verdictWith plan o evaluatorId output ∧
        ∀ checked, verifyObservedBytes authority issued journal retained planHead observationHead
          evaluatorId = .ok checked → checked.verdict = v ∧ checked.journal.records =
            [.plan plan, .observation o, .verdict (verdictWith plan o evaluatorId output)]) ∧
    ∀ (journal : CaseJournal D) (v : CaseVerdict D),
      journal.records = [.plan plan, .observation o, .verdict v] →
        ((∃ state, replayCase journal authority none = .ok state) ↔
          journal.authorityDigest = authority.digest ∧ SoundPlan authority plan ∧
            SoundObservation authority plan o ∧ BoundVerdict authority plan o v ∧
            v.outcome = expectedOutcome plan o) := by
  refine ⟨?_, ?_, fun journal v => replayCase_verdict_iff⟩
  · rintro planHead t r hread hrecords rfl
    obtain ⟨houtput, hverdict⟩ := verdictOf_read hread hrecords operationId evaluatorId
    refine ⟨(expectedOutcome_eq_outcomeOf houtput).symm, hverdict, ?_⟩
    intro expected commit u hcommit
    obtain ⟨x, w, hsnapshot, hw, hwrite⟩ := CaseSystem.appendCheckedVerdict_split hcommit
    obtain ⟨-, r', hread', -, rfl⟩ := snapshot_eq_ok.mp hsnapshot
    obtain rfl := Except.ok.inj (hread.symm.trans hread')
    obtain rfl := Except.ok.inj (hverdict.symm.trans hw)
    obtain ⟨r', hread', hjournal⟩ := verdict_journal hwrite
    obtain rfl := Except.ok.inj (hread.symm.trans hread')
    rw [hjournal, hrecords]
    rfl
  · rintro issued journal retained planHead observationHead v bytes hverdict hrecords rfl
    obtain ⟨plan', hrecords', rfl, houtput, rfl⟩ := of_verifiedVerdict hverdict
    rw [hrecords] at hrecords'
    simp only [List.cons.injEq, CaseRecord.plan.injEq, CaseRecord.observation.injEq, and_true]
      at hrecords'
    obtain ⟨rfl, rfl⟩ := hrecords'
    refine ⟨(expectedOutcome_eq_outcomeOf houtput).symm, rfl, ?_⟩
    intro checked hchecked
    simp only [verifyObservedBytes, hverdict, ok_bind, bind_eq_ok, Except.ok.injEq] at hchecked
    obtain ⟨evaluated, happend, rfl⟩ := hchecked
    refine ⟨rfl, ?_⟩
    rw [CaseJournal.records_append happend, hrecords]
    rfl

/-- The store computes the verdict of the stray case. -/
theorem verdict_paths_agree_sample : ∃ (t : CaseTables) (r : CaseRead HexDigest),
    readCase sampleCaseAuthority (sampleHead HexDigest) t = .ok r ∧
      outcomeOf (samplePlan HexDigest) (strayObservation HexDigest) r.snapshot.observedBytes =
        expectedOutcome (samplePlan HexDigest) (strayObservation HexDigest) := by
  obtain ⟨t, hstored⟩ := (strayCase_fits (D := HexDigest)).exists_finished
  have hread := readCase_eq_ok.mpr ⟨strayCase HexDigest, strayCase_fits, hstored, rfl⟩
  have hstore := (verdict_paths_agree sampleCaseAuthority (samplePlan HexDigest)
    (strayObservation HexDigest)
    ((strayCase HexDigest).read sampleCaseAuthority (sampleHead HexDigest)).snapshot.observedBytes
    ⟨"verdict-1", by decide⟩ ⟨"judge", by decide⟩).1
  exact ⟨t, _, hread, (hstore _ t _ hread CaseHistory.records_journal rfl).1⟩

end EvidenceBraid
