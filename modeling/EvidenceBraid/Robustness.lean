import EvidenceBraid.Engine

/-!
# Robustness

`robustness.py`: leave one visible event out at a time, evaluate again at the same instant, and record
the claims whose outcome changes. The adjudication of an event is left out with it.

`impacts` of the source is a list for each claim. Here every evaluation returns its impacts, in the
order of the claims, and a claim's list is what the evaluations say about it.
-/

namespace EvidenceBraid

open Arithmetic

variable {N : Type} [Arithmetic N]

/-- `_MAX_PERTURBATIONS`. -/
def maxPerturbations : ℕ := 10000

/-- `_RESULT_DIGEST`. -/
def isResultDigest (value : String) : Bool :=
  value.toList.take 7 = ['s', 'h', 'a', '2', '5', '6', ':'] && isHash (String.ofList (value.toList.drop 7))

/-! ## Records -/

/-- `RobustnessImpact`: the effect of removing one visible event for one claim. -/
structure RobustnessImpact (N : Type) where
  eventId : Text
  claim : Text
  baselineOutcome : Outcome
  withoutEventOutcome : Outcome
  baselineReason : String
  withoutEventReason : String
  baselineMargin : N
  withoutEventMargin : N

/-- The constructor of `RobustnessImpact`. -/
def RobustnessImpact.make (i : RobustnessImpact N) : Result (RobustnessImpact N) := do
  valid (i.baselineOutcome ≠ i.withoutEventOutcome) "a robustness impact must change the outcome"
  let baselineReason ← text i.baselineReason "impact.baseline_reason"
  let withoutEventReason ← text i.withoutEventReason "impact.without_event_reason"
  checkSigned i.baselineMargin "impact.baseline_margin"
  checkSigned i.withoutEventMargin "impact.without_event_margin"
  .ok { i with
    baselineReason := baselineReason.value
    withoutEventReason := withoutEventReason.value }

/-- `ClaimRobustness`. -/
structure ClaimRobustness (N : Type) where
  claim : Text
  baselineOutcome : Outcome
  baselineMargin : N
  testedEventCount : ℕ
  changedEventCount : ℕ
  impacts : List (RobustnessImpact N)

/-- The constructor of `ClaimRobustness`. -/
def ClaimRobustness.make (c : ClaimRobustness N) : Result (ClaimRobustness N) := do
  checkSigned c.baselineMargin "claim_robustness.baseline_margin"
  valid (c.changedEventCount ≤ c.testedEventCount)
    "claim_robustness.changed_event_count cannot exceed tested events"
  valid (c.impacts.length ≤ maxPerturbations) "claim_robustness.impacts exceeds the compiled limit"
  valid (∀ i ∈ c.impacts, i.claim = c.claim) "claim_robustness.impacts contains another claim"
  valid (c.impacts.map (·.eventId)).Nodup "claim_robustness.impacts contains duplicate event IDs"
  valid (c.impacts.length = c.changedEventCount)
    "claim_robustness.changed_event_count does not match impacts"
  .ok { c with impacts := c.impacts.sortOn (·.eventId) }

/-- `RobustnessReport`: its `schema_version` is always 1. -/
structure RobustnessReport (N : Type) where
  policyId : Text
  evaluatedAt : Datetime
  inputEventCount : ℕ
  consideredEventCount : ℕ
  baselineDigest : String
  claims : List (ClaimRobustness N)

/-- The constructor of `RobustnessReport`. -/
def RobustnessReport.make (r : RobustnessReport N) : Result (RobustnessReport N) := do
  valid (r.consideredEventCount ≤ r.inputEventCount)
    "robustness.considered_event_count cannot exceed input events"
  valid (isResultDigest r.baselineDigest = true)
    "robustness.baseline_digest must be a lowercase SHA-256 digest"
  valid (r.claims.length ≤ maxPerturbations) "robustness.claims exceeds the compiled limit"
  valid (∀ c ∈ r.claims, c.testedEventCount = r.consideredEventCount)
    "every claim must test the report's considered event count"
  valid (r.claims.map (·.claim)).Nodup "robustness.claims contains duplicate claims"
  .ok { r with claims := r.claims.sortOn (·.claim) }

/-! ## Leaving one out -/

/-- `reduced_events`. -/
def withoutEvent (events : List EvidenceEvent) (eventId : Text) : List EvidenceEvent :=
  events.filter fun e => e.eventId ≠ eventId

/-- `reduced_adjudications`. -/
def withoutAdjudication (adjudications : List Adjudication) (eventId : Text) : List Adjudication :=
  adjudications.filter fun a => a.eventId ≠ eventId

/-- The impact of an event on the claim of these two decisions. -/
def impact (event : EvidenceEvent) (original replacement : ClaimDecision N) : RobustnessImpact N where
  eventId := event.eventId
  claim := original.claim
  baselineOutcome := original.outcome
  withoutEventOutcome := replacement.outcome
  baselineReason := original.reason
  withoutEventReason := replacement.reason
  baselineMargin := original.margin
  withoutEventMargin := replacement.margin

/-- One round of the inner loop: the impact on the claim of a baseline decision, if there is one. -/
def impactOf (event : EvidenceEvent) (without : EvaluationResult N) (original : ClaimDecision N) :
    Result (Option (RobustnessImpact N)) := do
  let replacement ← orError (without.decisions.find? fun d => d.claim = original.claim)
    (.runtime "KeyError")
  if replacement.outcome ≠ original.outcome then do
    let changed ← (impact event original replacement).make
    .ok (some changed)
  else .ok none

/-- One round of the outer loop. -/
def leaveOneOut (exp2 : N → N) (policy : Policy) (events : List EvidenceEvent) (asOf : Datetime)
    (adjudications : List Adjudication) (baseline : EvaluationResult N) (event : EvidenceEvent) :
    Result (List (RobustnessImpact N)) := do
  let without ← evaluate exp2 policy (withoutEvent events event.eventId) asOf
    (withoutAdjudication adjudications event.eventId)
  let impacts ← baseline.decisions.mapM (impactOf event without)
  .ok impacts.reduceOption

/-- The stability of one claim, from the impacts on all claims. -/
def claimRobustness (tested : ℕ) (impacts : List (RobustnessImpact N)) (decision : ClaimDecision N) :
    Result (ClaimRobustness N) :=
  let own := impacts.filter fun i => i.claim = decision.claim
  ClaimRobustness.make
    { claim := decision.claim, baselineOutcome := decision.outcome, baselineMargin := decision.margin
      testedEventCount := tested, changedEventCount := own.length, impacts := own }

/-- The visible events, by identifier. -/
def visibleEvents (events : List EvidenceEvent) (asOf : Datetime) : List EvidenceEvent :=
  (events.filter fun e => e.ingestedAt ≤ asOf).sortOn (·.eventId)

/-- `robustness`. -/
def robustness (D : Type) [Hashing D] (exp2 : N → N) (policy : Policy) (events : List EvidenceEvent)
    (asOf : Datetime) (adjudications : List Adjudication) (maxEvents : ℤ) :
    Result (RobustnessReport N) := do
  valid (1 ≤ maxEvents ∧ maxEvents ≤ maxPerturbations)
    ("max_events must be an integer in [1, " ++ toString maxPerturbations ++ "]")
  let events ← validateEventSet N policy events
  let adjudications ← validateAdjudicationSet policy events adjudications
  let baseline ← evaluate exp2 policy events asOf adjudications
  let visible := visibleEvents events asOf
  valid (visible.length ≤ maxEvents)
    ("robustness would require " ++ toString visible.length ++ " leave-one-out evaluations; " ++
      "max_events is " ++ toString maxEvents)
  let impacts ← visible.mapM (leaveOneOut exp2 policy events asOf adjudications baseline)
  let claims ← (baseline.decisions.sortOn ClaimDecision.claim).mapM
    (claimRobustness visible.length impacts.flatten)
  RobustnessReport.make
    { policyId := baseline.policyId, evaluatedAt := baseline.evaluatedAt
      inputEventCount := baseline.inputEventCount
      consideredEventCount := baseline.consideredEventCount
      baselineDigest := baseline.digest D, claims }

end EvidenceBraid
