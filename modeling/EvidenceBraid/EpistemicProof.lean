import EvidenceBraid.EpistemicCodec

/-!
# An accepted case is sound

Whatever receipts a journal holds, `replay_case` accepts it only if its records are the first ones
of a plan, an observation, a verdict and a decision (`SoundCase`), by four different actors with
the roles at the plan's scope, each naming the digests of the records it depends on.

The loop is followed record by record: `SoundCase` relates the records read so far to what the loop
knows of them, and each accepted record extends it (`SoundCase.step`).
-/

namespace EvidenceBraid

open Hashing

variable {D : Type} [Hashing D]

theorem CaseJournal.make_eq_ok [DecidableEq D] {authorityDigest : D} {receipts : List (CaseReceipt D)}
    {journal : CaseJournal D} : CaseJournal.make authorityDigest receipts = .ok journal ↔
      journal.authorityDigest = authorityDigest ∧ journal.receipts = receipts := by
  constructor
  · intro h
    unfold CaseJournal.make at h
    split_ifs at h
    rw [← Except.ok.inj h]
    exact ⟨rfl, rfl⟩
  · rintro ⟨rfl, rfl⟩
    rw [CaseJournal.make, dif_pos journal.length_le, dif_pos journal.linked, dif_pos journal.size_le]

/-- An actor of the registry, of one of these kinds, with the role at exactly this scope. -/
def HasCaseRole (authority : CaseAuthority) (actorId : Identifier) (kinds : List CaseActorKind)
    (scope : Identifier) (role : CaseRole) : Prop :=
  ∃ a ∈ authority.actors, a.actorId = actorId ∧ a.kind ∈ kinds ∧ (⟨scope, role⟩ : CaseGrant) ∈ a.grants

theorem CaseAuthority.actor?_of_mem {authority : CaseAuthority} {a : CaseActor}
    (h : a ∈ authority.actors) : authority.actor? a.actorId = some a := by
  obtain ⟨b, hb⟩ : ∃ b, authority.actor? a.actorId = some b := by
    rw [← Option.isSome_iff_exists, CaseAuthority.actor?, List.find?_isSome]
    exact ⟨a, h, by simp⟩
  obtain ⟨hmem, hid⟩ := CaseAuthority.actor?_eq_some hb
  rw [hb, List.inj_on_of_nodup_map authority.actors_nodup hmem h hid]

/-- An actor is admitted exactly where it has the role, and a kind that is admitted and may hold
the role. -/
theorem admits_iff_hasCaseRole {authority : CaseAuthority} {actorId : Identifier}
    {kinds : CaseActorKind → Bool} {scope : Identifier} {role : CaseRole}
    (permitted : List CaseActorKind)
    (hkinds : ∀ k, k ∈ permitted ↔ kinds k = true ∧ role ∈ k.allowed) :
    authority.admits actorId kinds scope role = true ↔
      HasCaseRole authority actorId permitted scope role := by
  rw [CaseAuthority.admits_iff]
  constructor
  · rintro ⟨a, hactor, hkind, hpermits⟩
    obtain ⟨hmem, hid⟩ := CaseAuthority.actor?_eq_some hactor
    exact ⟨a, hmem, hid, (hkinds _).mpr ⟨hkind, CaseActor.mem_allowed_of_permits hpermits⟩,
      of_decide_eq_true hpermits⟩
  · rintro ⟨a, hmem, rfl, hkind, hgrant⟩
    exact ⟨a, CaseAuthority.actor?_of_mem hmem, ((hkinds _).mp hkind).1, decide_eq_true hgrant⟩

/-! ## Sound records -/

structure SoundPlan (authority : CaseAuthority) (p : CasePlan D) : Prop where
  authority_digest : p.authorityDigest = authority.digest
  proposer : HasCaseRole authority p.proposerId [.model, .human] p.scope .propose

structure SoundObservation (authority : CaseAuthority) (p : CasePlan D) (o : CaseObservation D) :
    Prop where
  plan_digest : o.planDigest = p.digest
  input_digest : o.inputSha256 = p.inputSha256
  observer : HasCaseRole authority o.observerId [.tool] p.scope .observe
  observer_ne : o.observerId ≠ p.proposerId
  artifact_ne : o.artifactId ≠ some p.assertionArtifactId ∧ o.artifactId ≠ some p.inputArtifactId

structure SoundVerdict (authority : CaseAuthority) (p : CasePlan D) (o : CaseObservation D)
    (v : CaseVerdict D) : Prop where
  plan_digest : v.planDigest = p.digest
  observation_digest : v.observationDigest = o.digest
  evaluator : HasCaseRole authority v.evaluatorId [.tool, .human, .policy] p.scope .evaluate
  evaluator_ne : v.evaluatorId ≠ p.proposerId ∧ v.evaluatorId ≠ o.observerId
  inconclusive_iff : v.outcome = .inconclusive ↔ o.status ≠ .observed
  supported_iff : o.status = .observed →
    (v.outcome = .supported ↔ o.observedSha256 = some p.predictionSha256)

structure SoundDecision (authority : CaseAuthority) (p : CasePlan D) (o : CaseObservation D)
    (v : CaseVerdict D) (d : CaseDecision D) : Prop where
  verdict_digest : d.verdictDigest = v.digest
  decider : HasCaseRole authority d.deciderId [.human, .policy] p.scope .decide
  decider_ne : d.deciderId ≠ p.proposerId ∧ d.deciderId ≠ o.observerId ∧ d.deciderId ≠ v.evaluatorId
  approve : d.disposition = .approve → v.outcome = .supported

/-- The records of a sound case, as far as it has come, and what the replay knows of them. -/
inductive SoundCase (authority : CaseAuthority) : List (CaseRecord D) → CaseProgress D → Prop
  | empty : SoundCase authority [] ⟨.empty, none, none, none, none⟩
  | planned {p : CasePlan D} (hp : SoundPlan authority p) :
    SoundCase authority [.plan p] ⟨.planned, some p, none, none, none⟩
  | observed {p : CasePlan D} {o : CaseObservation D} (hp : SoundPlan authority p)
    (ho : SoundObservation authority p o) :
    SoundCase authority [.plan p, .observation o] ⟨.observed, some p, some o, none, none⟩
  | verdicted {p : CasePlan D} {o : CaseObservation D} {v : CaseVerdict D}
    (hp : SoundPlan authority p) (ho : SoundObservation authority p o)
    (hv : SoundVerdict authority p o v) :
    SoundCase authority [.plan p, .observation o, .verdict v]
      ⟨.verdicted, some p, some o, some v, none⟩
  | decided {p : CasePlan D} {o : CaseObservation D} {v : CaseVerdict D} {d : CaseDecision D}
    (hp : SoundPlan authority p) (ho : SoundObservation authority p o)
    (hv : SoundVerdict authority p o v) (hd : SoundDecision authority p o v d) :
    SoundCase authority [.plan p, .observation o, .verdict v, .decision d]
      ⟨.decided, some p, some o, some v, some d⟩

variable [DecidableEq D]

/-! ## One record -/

theorem replayRecord_plan {authority : CaseAuthority} {s t : CaseProgress D} {p : CasePlan D} :
    replayRecord authority s (.plan p) = .ok t ↔ s.phase = .empty ∧ SoundPlan authority p ∧
      { s with plan := some p, phase := .planned } = t := by
  simp only [replayRecord, bind_eq_ok, valid_eq_ok, exists_unit, Except.ok.injEq]
  rw [admits_iff_hasCaseRole [.model, .human] fun k => by cases k <;> decide]
  constructor
  · rintro ⟨⟨hphase, hdigest⟩, hproposer, ht⟩
    exact ⟨hphase, ⟨hdigest, hproposer⟩, ht⟩
  · rintro ⟨hphase, ⟨hdigest, hproposer⟩, ht⟩
    exact ⟨⟨hphase, hdigest⟩, hproposer, ht⟩

theorem replayRecord_observation {authority : CaseAuthority} {s t : CaseProgress D}
    {o : CaseObservation D} : replayRecord authority s (.observation o) = .ok t ↔
      s.phase = .planned ∧ ∃ p, s.plan = some p ∧ SoundObservation authority p o ∧
        { s with observation := some o, phase := .observed } = t := by
  simp only [replayRecord, bind_eq_ok, valid_eq_ok, exists_unit, orError_eq_ok, Except.ok.injEq]
  refine and_congr_right fun _ => exists_congr fun p => and_congr_right fun _ => ?_
  rw [admits_iff_hasCaseRole [.tool] fun k => by cases k <;> decide]
  constructor
  · rintro ⟨⟨hdigest, hinput, hne, hassertion, hartifact, hobserver⟩, ht⟩
    exact ⟨⟨hdigest, hinput, hobserver, hne, hassertion, hartifact⟩, ht⟩
  · rintro ⟨⟨hdigest, hinput, hobserver, hne, hassertion, hartifact⟩, ht⟩
    exact ⟨⟨hdigest, hinput, hne, hassertion, hartifact, hobserver⟩, ht⟩

/-- The expected outcome, as the two equivalences that determine it. -/
theorem eq_expectedOutcome_iff {p : CasePlan D} {o : CaseObservation D}
    {outcome : CaseVerdictOutcome} : outcome = expectedOutcome p o ↔
      (outcome = .inconclusive ↔ o.status ≠ .observed) ∧
        (o.status = .observed →
          (outcome = .supported ↔ o.observedSha256 = some p.predictionSha256)) := by
  unfold expectedOutcome
  by_cases hstatus : o.status = .observed
  · rw [if_neg (not_not.mpr hstatus)]
    by_cases houtput : o.observedSha256 = some p.predictionSha256
    · rw [if_pos houtput]
      cases outcome <;> simp [hstatus, houtput]
    · rw [if_neg houtput]
      cases outcome <;> simp [hstatus, houtput]
  · rw [if_pos hstatus]
    cases outcome <;> simp [hstatus]

theorem replayRecord_verdict {authority : CaseAuthority} {s t : CaseProgress D}
    {v : CaseVerdict D} : replayRecord authority s (.verdict v) = .ok t ↔
      s.phase = .observed ∧ ∃ p, s.plan = some p ∧ ∃ o, s.observation = some o ∧
        SoundVerdict authority p o v ∧ { s with verdict := some v, phase := .verdicted } = t := by
  simp only [replayRecord, bind_eq_ok, valid_eq_ok, exists_unit, orError_eq_ok, Except.ok.injEq]
  refine and_congr_right fun _ => exists_congr fun p => and_congr_right fun _ =>
    exists_congr fun o => and_congr_right fun _ => ?_
  rw [admits_iff_hasCaseRole [.tool, .human, .policy] fun k => by cases k <;> decide, eq_expectedOutcome_iff]
  constructor
  · rintro ⟨⟨hdigest, hobserved, hproposer, hobserver, hevaluator⟩, ⟨hconclusive, hsupported⟩, ht⟩
    exact ⟨⟨hdigest, hobserved, hevaluator, ⟨hproposer, hobserver⟩, hconclusive, hsupported⟩, ht⟩
  · rintro ⟨⟨hdigest, hobserved, hevaluator, ⟨hproposer, hobserver⟩, hconclusive, hsupported⟩, ht⟩
    exact ⟨⟨hdigest, hobserved, hproposer, hobserver, hevaluator⟩, ⟨hconclusive, hsupported⟩, ht⟩

theorem replayRecord_decision {authority : CaseAuthority} {s t : CaseProgress D}
    {o : CaseObservation D} (ho : s.observation = some o) {d : CaseDecision D} :
    replayRecord authority s (.decision d) = .ok t ↔
      s.phase = .verdicted ∧ ∃ p, s.plan = some p ∧ ∃ v, s.verdict = some v ∧
        SoundDecision authority p o v d ∧ { s with decision := some d, phase := .decided } = t := by
  simp only [replayRecord, bind_eq_ok, valid_eq_ok, exists_unit, orError_eq_ok, Except.ok.injEq,
    ho, Option.map_some, ne_eq, Option.some.injEq]
  refine and_congr_right fun _ => exists_congr fun p => and_congr_right fun _ =>
    exists_congr fun v => and_congr_right fun _ => ?_
  rw [admits_iff_hasCaseRole [.human, .policy] fun k => by cases k <;> decide]
  constructor
  · rintro ⟨⟨hdigest, hproposer, hobserver, hevaluator, hdecider⟩, happrove, ht⟩
    exact ⟨⟨hdigest, hdecider, ⟨hproposer, fun h => hobserver h.symm, hevaluator⟩, happrove⟩, ht⟩
  · rintro ⟨⟨hdigest, hdecider, ⟨hproposer, hobserver, hevaluator⟩, happrove⟩, ht⟩
    exact ⟨⟨hdigest, hproposer, fun h => hobserver h.symm, hevaluator, hdecider⟩, happrove, ht⟩

/-- Before the verdict is there, no decision is accepted. -/
theorem phase_of_replayRecord_decision {authority : CaseAuthority} {s t : CaseProgress D}
    {d : CaseDecision D} (h : replayRecord authority s (.decision d) = .ok t) :
    s.phase = .verdicted := by
  simp only [replayRecord, bind_eq_ok, valid_eq_ok, exists_unit] at h
  exact h.1

/-- **A record that is accepted after a sound case extends it.** -/
theorem SoundCase.step {authority : CaseAuthority} {rs : List (CaseRecord D)} {s t : CaseProgress D}
    {r : CaseRecord D} (hs : SoundCase authority rs s) (h : replayRecord authority s r = .ok t) :
    SoundCase authority (rs ++ [r]) t := by
  cases r with
  | plan p =>
    obtain ⟨hphase, hp, rfl⟩ := replayRecord_plan.mp h
    cases hs <;> cases hphase
    exact .planned hp
  | observation o =>
    obtain ⟨hphase, p, hplan, ho, rfl⟩ := replayRecord_observation.mp h
    cases hs <;> cases hphase
    cases hplan
    exact .observed ‹_› ho
  | verdict v =>
    obtain ⟨hphase, p, hplan, o, hobservation, hv, rfl⟩ := replayRecord_verdict.mp h
    cases hs <;> cases hphase
    cases hplan
    cases hobservation
    exact .verdicted ‹_› ‹_› hv
  | decision d =>
    have hphase := phase_of_replayRecord_decision h
    cases hs <;> cases hphase
    obtain ⟨-, p, hplan, v, hverdict, hd, rfl⟩ := (replayRecord_decision rfl).mp h
    cases hplan
    cases hverdict
    exact .decided ‹_› ‹_› ‹_› hd

/-! ## All records -/

theorem SoundCase.run {authority : CaseAuthority} {rs : List (CaseRecord D)} {s t : CaseProgress D}
    (hs : SoundCase authority rs s) {ns : List (CaseRecord D)}
    (h : replayRecords authority s ns = .ok t) : SoundCase authority (rs ++ ns) t := by
  induction ns generalizing rs s with
  | nil =>
    cases h
    simpa using hs
  | cons n ns ih =>
    simp only [replayRecords, bind_eq_ok] at h
    obtain ⟨u, hu, hrest⟩ := h
    have hextended := ih (hs.step hu) hrest
    simpa using hextended

/-! ## A sound case is accepted -/

/-- What the loop makes of a sound case. -/
theorem SoundCase.replayed {authority : CaseAuthority} {rs : List (CaseRecord D)}
    {s : CaseProgress D} (h : SoundCase authority rs s) :
    replayRecords authority ⟨.empty, none, none, none, none⟩ rs = .ok s := by
  cases h with
  | empty => rfl
  | planned hp =>
    simp only [replayRecords, bind_eq_ok]
    exact ⟨_, replayRecord_plan.mpr ⟨rfl, hp, rfl⟩, rfl⟩
  | observed hp ho =>
    simp only [replayRecords, bind_eq_ok]
    exact ⟨_, replayRecord_plan.mpr ⟨rfl, hp, rfl⟩,
      _, replayRecord_observation.mpr ⟨rfl, _, rfl, ho, rfl⟩, rfl⟩
  | verdicted hp ho hv =>
    simp only [replayRecords, bind_eq_ok]
    exact ⟨_, replayRecord_plan.mpr ⟨rfl, hp, rfl⟩,
      _, replayRecord_observation.mpr ⟨rfl, _, rfl, ho, rfl⟩,
      _, replayRecord_verdict.mpr ⟨rfl, _, rfl, _, rfl, hv, rfl⟩, rfl⟩
  | decided hp ho hv hd =>
    simp only [replayRecords, bind_eq_ok]
    exact ⟨_, replayRecord_plan.mpr ⟨rfl, hp, rfl⟩,
      _, replayRecord_observation.mpr ⟨rfl, _, rfl, ho, rfl⟩,
      _, replayRecord_verdict.mpr ⟨rfl, _, rfl, _, rfl, hv, rfl⟩,
      _, (replayRecord_decision rfl).mpr ⟨rfl, _, rfl, _, rfl, hd, rfl⟩, rfl⟩

/-- **`replay_case` accepts exactly the sound cases.** -/
theorem replayCase_eq_ok {journal : CaseJournal D} {authority : CaseAuthority}
    {expectedHead : Option D} {state : CaseState D} :
    replayCase journal authority expectedHead = .ok state ↔
      journal.authorityDigest = authority.digest ∧
        (∀ head ∈ expectedHead, journal.headDigest = head) ∧
        ∃ progress, SoundCase authority journal.records progress ∧
          state = ⟨progress.phase, progress.plan.map (·.caseId),
            progress.verdict.map (·.outcome), progress.decision, journal.checkpoint⟩ := by
  simp only [replayCase, bind_eq_ok, valid_eq_ok, exists_unit, Except.ok.injEq]
  refine and_congr_right fun _ => and_congr_right fun _ => exists_congr fun progress => ?_
  constructor
  · rintro ⟨hrun, rfl⟩
    exact ⟨SoundCase.empty.run hrun, rfl⟩
  · rintro ⟨hsound, rfl⟩
    exact ⟨hsound.replayed, rfl⟩

/-! ## A decided case -/

/-- An actor with one role in the laboratory. -/
def sampleActor (actorId : Identifier) (kind : CaseActorKind) (role : CaseRole)
    (hrole : role ∈ kind.allowed) : CaseActor where
  actorId := actorId
  kind := kind
  grants := [⟨⟨"lab", by decide⟩, role⟩]
  grants_length := by simp
  grants_nodup := by simp
  grants_allowed := by simpa using hrole

/-- An actor for each role, and two that may observe. -/
def sampleActors : List CaseActor :=
  [sampleActor ⟨"planner", by decide⟩ .model .propose (by decide),
    sampleActor ⟨"probe", by decide⟩ .tool .observe (by decide),
    sampleActor ⟨"spare", by decide⟩ .tool .observe (by decide),
    sampleActor ⟨"judge", by decide⟩ .human .evaluate (by decide),
    sampleActor ⟨"board", by decide⟩ .policy .decide (by decide)]

def sampleCaseAuthority : CaseAuthority where
  policyId := ⟨"lab-policy", by decide⟩
  actors := sampleActors
  actors_length := by decide
  actors_nodup := by decide
  size_le := by decide +kernel

section Sample

variable (D) [WideHex D]

omit [DecidableEq D] [WideHex D] in
/-- The plan of a test with empty files that should print nothing. -/
def samplePlanFields : PlanFields D where
  caseId := ⟨"case-1", by decide⟩
  workflowId := ⟨"workflow-1", by decide⟩
  claimId := ⟨"claim-1", by decide⟩
  scope := ⟨"lab", by decide⟩
  proposerId := ⟨"planner", by decide⟩
  assertionArtifactId := ⟨"assertion", by decide⟩
  assertionSha256 := sha256 []
  hypothesis := ⟨"h", by decide⟩
  prediction := ⟨"p", by decide⟩
  expectedObservationText := ""
  inputArtifactId := ⟨"input", by decide⟩
  inputSha256 := sha256 []
  predictionSha256 := sha256 []
  testId := ⟨"test", by decide⟩
  adapterId := ⟨"adapter", by decide⟩
  adapterVersion := ⟨"1", by decide⟩
  authorityDigest := sampleCaseAuthority.digest

omit [DecidableEq D] in
def samplePlan : CasePlan D where
  toPlanFields := samplePlanFields D
  ok := by
    have hsize := (samplePlanFields D).size_toDict_le
    have htexts : Json.quotedSize "h" = 3 ∧ Json.quotedSize "p" = 3 ∧ Json.quotedSize "" = 2 := by
      and_intros <;> exact Json.quotedSize_literal rfl
    refine ⟨rfl, Nat.zero_le _, rfl, by simp [samplePlanFields], ?_⟩
    change Json.size (samplePlanFields D).toDict ≤ 16 * 1024
    simp only [samplePlanFields] at hsize ⊢
    omega

omit [DecidableEq D] in
/-- The observation of this output by one of the two observers. -/
def sampleObservation (observerId artifactId : Identifier) : CaseObservation D where
  planDigest := (samplePlan D).digest
  requestId := ⟨"request-1", by decide⟩
  observerId := observerId
  status := .observed
  inputSha256 := sha256 []
  observedSha256 := some (sha256 [])
  artifactId := some artifactId
  errorCode := none
  output_taken := by simp
  error_taken := by simp

omit [DecidableEq D] in
def sampleVerdict (observerId artifactId : Identifier) : CaseVerdict D where
  planDigest := (samplePlan D).digest
  observationDigest := (sampleObservation D observerId artifactId).digest
  evaluatorId := ⟨"judge", by decide⟩
  outcome := .supported

omit [DecidableEq D] in
def sampleDecision (observerId artifactId : Identifier) : CaseDecision D where
  verdictDigest := (sampleVerdict D observerId artifactId).digest
  deciderId := ⟨"board", by decide⟩
  disposition := .approve
  reason := ⟨"r", by decide⟩

omit [DecidableEq D] in
/-- The case that ends in an approval. -/
def sampleCase (observerId artifactId : Identifier) : CaseJournal D :=
  CaseJournal.ofRecords sampleCaseAuthority.digest
    [.plan (samplePlan D), .observation (sampleObservation D observerId artifactId),
      .verdict (sampleVerdict D observerId artifactId),
      .decision (sampleDecision D observerId artifactId)] (by simp)

end Sample

section Sample

variable [WideHex D]

omit [DecidableEq D] in
theorem soundPlan_sample : SoundPlan sampleCaseAuthority (samplePlan D) :=
  ⟨rfl, _, List.mem_cons_self, rfl, by decide, List.mem_cons_self⟩

omit [DecidableEq D] in
/-- Either observer has the role. -/
theorem soundObservation_sample {observerId artifactId : Identifier}
    (hobserver : observerId = ⟨"probe", by decide⟩ ∨ observerId = ⟨"spare", by decide⟩)
    (hartifact : artifactId.value ≠ "assertion" ∧ artifactId.value ≠ "input") :
    SoundObservation sampleCaseAuthority (samplePlan D)
      (sampleObservation D observerId artifactId) where
  plan_digest := rfl
  input_digest := rfl
  observer := by
    rcases hobserver with rfl | rfl
    · exact ⟨_, List.mem_cons_of_mem _ List.mem_cons_self, rfl, by decide, List.mem_cons_self⟩
    · exact ⟨_, List.mem_cons_of_mem _ (List.mem_cons_of_mem _ List.mem_cons_self), rfl, by decide,
        List.mem_cons_self⟩
  observer_ne := by
    rcases hobserver with rfl | rfl <;> simp [sampleObservation, samplePlan, samplePlanFields]
  artifact_ne := by
    refine ⟨fun h => hartifact.1 ?_, fun h => hartifact.2 ?_⟩
    · exact congrArg Identifier.value (Option.some.inj h)
    · exact congrArg Identifier.value (Option.some.inj h)

omit [DecidableEq D] in
theorem soundVerdict_sample {artifactId : Identifier} :
    SoundVerdict sampleCaseAuthority (samplePlan D)
      (sampleObservation D ⟨"probe", by decide⟩ artifactId)
      (sampleVerdict D ⟨"probe", by decide⟩ artifactId) where
  plan_digest := rfl
  observation_digest := rfl
  evaluator := ⟨_, List.mem_cons_of_mem _ (List.mem_cons_of_mem _ (List.mem_cons_of_mem _
    List.mem_cons_self)), rfl, by decide, List.mem_cons_self⟩
  evaluator_ne := by simp [sampleVerdict, sampleObservation, samplePlan, samplePlanFields]
  inconclusive_iff := by simp [sampleVerdict, sampleObservation]
  supported_iff := by simp [sampleVerdict, sampleObservation, samplePlan, samplePlanFields]

omit [DecidableEq D] in
theorem soundDecision_sample {artifactId : Identifier} :
    SoundDecision sampleCaseAuthority (samplePlan D)
      (sampleObservation D ⟨"probe", by decide⟩ artifactId)
      (sampleVerdict D ⟨"probe", by decide⟩ artifactId)
      (sampleDecision D ⟨"probe", by decide⟩ artifactId) where
  verdict_digest := rfl
  decider := ⟨_, List.mem_cons_of_mem _ (List.mem_cons_of_mem _ (List.mem_cons_of_mem _
    (List.mem_cons_of_mem _ List.mem_cons_self))), rfl, by decide, List.mem_cons_self⟩
  decider_ne := by
    simp [sampleDecision, sampleVerdict, sampleObservation, samplePlan, samplePlanFields]
  approve := by simp [sampleVerdict]

end Sample

/-! ## The result -/

/-- **What `replay_case` accepts is a sound case**, and the state that it returns is its own. -/
theorem replayCase_sound {journal : CaseJournal D} {authority : CaseAuthority}
    {expectedHead : Option D} {state : CaseState D}
    (h : replayCase journal authority expectedHead = .ok state) :
    ∃ progress, SoundCase authority journal.records progress ∧ state.phase = progress.phase ∧
      state.caseId = progress.plan.map (·.caseId) ∧
      state.outcome = progress.verdict.map (·.outcome) ∧ state.decision = progress.decision ∧
      state.checkpoint = journal.checkpoint := by
  simp only [replayCase, bind_eq_ok, valid_eq_ok, exists_unit, Except.ok.injEq] at h
  obtain ⟨-, -, progress, hrun, rfl⟩ := h
  have hsound := SoundCase.empty.run hrun
  exact ⟨progress, hsound, rfl, rfl, rfl, rfl, rfl⟩

/-- The sample is accepted, and is a sound case. -/
theorem replayCase_sound_sample : ∃ progress, SoundCase sampleCaseAuthority
    (sampleCase HexDigest ⟨"probe", by decide⟩ ⟨"output", by decide⟩).records progress ∧
      CasePhase.decided = progress.phase := by
  have hsound : SoundCase sampleCaseAuthority
      (sampleCase HexDigest ⟨"probe", by decide⟩ ⟨"output", by decide⟩).records _ :=
    .decided soundPlan_sample (soundObservation_sample (.inl rfl) (by decide)) soundVerdict_sample
      soundDecision_sample
  obtain ⟨progress, hprogress, hphase, -⟩ :=
    replayCase_sound (replayCase_eq_ok.mpr ⟨rfl, by simp, _, hsound, rfl⟩ :
      replayCase (sampleCase HexDigest ⟨"probe", by decide⟩ ⟨"output", by decide⟩)
        sampleCaseAuthority none = .ok _)
  exact ⟨progress, hprogress, hphase⟩

end EvidenceBraid
