import EvidenceBraid.Arithmetic
import EvidenceBraid.Hashing
import EvidenceBraid.Policy
import EvidenceBraid.TimestampProof

/-!
# Evaluation

`decay.py`, `grouping.py`, `reliability.py` and `engine.py`: events are weighted, correlated ones are
collapsed, each signal is summarized, and an outcome is chosen for every configured claim. A
constructor that checks what was computed is a `make` that may raise.

Everything is over an arithmetic. `exp2` stands for `2.0 ** x`.
-/

namespace EvidenceBraid

open Arithmetic

variable {N : Type} [Arithmetic N]

/-- `_canonical_text_tuple` of texts. -/
def canonicalTexts (items : List Text) (path : String) : Result (List Text) := do
  valid items.Nodup (path ++ " must not contain duplicates")
  .ok (items.sortOn id)

/-- The texts of an error message. -/
def commaTexts (items : List Text) : String := ", ".intercalate (items.map Text.value)

/-! ## Weighted events -/

/-- `WeightedEvent`. -/
structure WeightedEvent (N : Type) where
  event : EvidenceEvent
  ageSeconds : N
  sourceReliability : N
  decayFactor : N
  effectiveConfidence : N

namespace WeightedEvent

/-- The constructor of `WeightedEvent`. -/
def make (w : WeightedEvent N) : Result (WeightedEvent N) := do
  checkNonnegative w.ageSeconds "weighted.age_seconds"
  checkUnit w.sourceReliability "weighted.source_reliability"
  checkUnit w.decayFactor "weighted.decay_factor"
  checkUnit w.effectiveConfidence "weighted.effective_confidence"
  .ok w

def eventId (w : WeightedEvent N) : Text := w.event.eventId

end WeightedEvent

/-- The microseconds from one time to another. -/
def Datetime.since (a b : Datetime) : ℤ := a.micros - b.micros

/-- `weight_event`. -/
def weightEvent (exp2 : N → N) (event : EvidenceEvent) (policy : Policy) (asOf : Datetime)
    (reliability : Option N) : Result (WeightedEvent N) := do
  let ageSeconds : N := seconds (asOf.since event.observedAt)
  valid (¬ ageSeconds < -ofNumber policy.decay.maxFutureSkewSeconds)
    ("event " ++ event.eventId.value ++ " is " ++ fixed3 (-ageSeconds) ++
      "s in the future, beyond allowed skew")
  let ageSeconds := max ageSeconds 0
  let halfLife : N := ofNumber (policy.decay.halfLifeFor event.modality)
  let decayFactor := exp2 (-ageSeconds / halfLife)
  let applied := reliability.getD (ofNumber (policy.reliabilityFor event.source))
  let effective := ofNumber event.confidence * applied * decayFactor
  WeightedEvent.make ⟨event, ageSeconds, applied, decayFactor, effective⟩

/-! ## Grouping -/

theorem Text.exists_concat (t : Text) :
    ∃ cs d, t.value.toList = cs ++ [d] ∧ isWhitespace d = false := by
  have hne : t.value.toList ≠ [] := by
    intro h
    exact t.ne_empty (String.toList_eq_nil_iff.mp h)
  have htrimmed : (t.value.toList.dropWhile isWhitespace).rdropWhile isWhitespace =
      t.value.toList := by
    have h := congrArg String.toList t.trimmed
    rwa [strip, String.toList_ofList] at h
  refine ⟨t.value.toList.dropLast, t.value.toList.getLast hne,
    (List.dropLast_append_getLast hne).symm, ?_⟩
  have hlast := List.rdropWhile_last_not isWhitespace (t.value.toList.dropWhile isWhitespace)
    (htrimmed.symm ▸ hne)
  simpa only [htrimmed, Bool.not_eq_true] using hlast

/-- Text after a tag, such as `group:`. -/
def Text.tagged (c : Char) (tag : List Char) (t : Text)
    (h : isWhitespace c = false ∧ (c :: tag).all isXmlChar = true) : Text where
  value := String.ofList (c :: (tag ++ t.value.toList))
  ne_empty := by
    rw [ne_eq, ← String.toList_eq_nil_iff, String.toList_ofList]
    exact List.cons_ne_nil _ _
  trimmed := by
    obtain ⟨cs, d, hcs, hd⟩ := t.exists_concat
    rw [hcs, ← List.append_assoc]
    exact strip_of_ends h.1 hd
  xml := by
    have hxml := t.xml
    simp only [isXmlCharacter, List.all_eq_true] at hxml
    simp only [isXmlCharacter, String.toList_ofList, ← List.cons_append, List.all_append, h.2,
      Bool.true_and, List.all_eq_true]
    exact hxml

/-- `correlation_key`. -/
def correlationKey (w : WeightedEvent N) : Text :=
  match w.event.correlationGroup with
  | some explicit => explicit.tagged 'g' ['r', 'o', 'u', 'p', ':'] (by decide)
  | none => w.event.eventId.tagged 'e' ['v', 'e', 'n', 't', ':'] (by decide)

/-- `CorrelationSelection`. -/
structure CorrelationSelection (N : Type) where
  groupId : Text
  signal : Signal
  representative : WeightedEvent N
  suppressed : List (WeightedEvent N)

namespace CorrelationSelection

def events (s : CorrelationSelection N) : List (WeightedEvent N) := s.representative :: s.suppressed

/-- The constructor of `CorrelationSelection`. -/
def make (s : CorrelationSelection N) : Result (CorrelationSelection N) := do
  let s := { s with suppressed := s.suppressed.sortOn WeightedEvent.eventId }
  valid (∀ w ∈ s.events, w.event.signal = s.signal) "selection events must have the selection signal"
  valid (∀ w ∈ s.events, correlationKey w = s.groupId)
    "selection events must have the selection correlation group"
  valid (s.events.map WeightedEvent.eventId).Nodup "selection contains duplicate event IDs"
  .ok s

end CorrelationSelection

/-- The key of a bucket. -/
def bucketKey (w : WeightedEvent N) : Text × Signal := (correlationKey w, w.event.signal)

/-- `buckets`: the events of each key, in their order. -/
def buckets (events : List (WeightedEvent N)) : List ((Text × Signal) × List (WeightedEvent N)) :=
  (events.map bucketKey).dedup.map fun key => (key, events.filter fun w => bucketKey w = key)

/-- The sort key of `ranked`. -/
def rankKey (w : WeightedEvent N) : N ×ₗ Text :=
  toLex (-stable w.effectiveConfidence, w.eventId)

/-- What one bucket becomes. -/
def selectStrongest (bucket : (Text × Signal) × List (WeightedEvent N)) :
    Result (CorrelationSelection N) :=
  match bucket.2.sortOn rankKey with
  | representative :: rest => CorrelationSelection.make
      ⟨bucket.1.1, bucket.1.2, representative, rest.sortOn WeightedEvent.eventId⟩
  | [] => .error (.runtime "IndexError")

/-- The sort key of selections. -/
def selectionKey (s : CorrelationSelection N) : Text ×ₗ String := toLex (s.groupId, s.signal.value)

/-- `collapse_correlated`. -/
def collapseCorrelated (events : List (WeightedEvent N)) :
    Result (List (CorrelationSelection N)) := do
  let selections ← (buckets events).mapM selectStrongest
  .ok (selections.sortOn selectionKey)

/-! ## Reliability -/

/-- `ReliabilityAdjustment`. -/
structure ReliabilityAdjustment (N : Type) where
  source : Text
  declaredReliability : N
  posteriorReliability : N
  appliedReliability : N
  correctEventIds : List Text
  incorrectEventIds : List Text

/-- The constructor of `ReliabilityAdjustment`. -/
def ReliabilityAdjustment.make (a : ReliabilityAdjustment N) : Result (ReliabilityAdjustment N) := do
  checkUnit a.declaredReliability "adjustment.declared_reliability"
  checkUnit a.posteriorReliability "adjustment.posterior_reliability"
  checkUnit a.appliedReliability "adjustment.applied_reliability"
  let correct ← canonicalTexts a.correctEventIds "adjustment.correct_event_ids"
  let incorrect ← canonicalTexts a.incorrectEventIds "adjustment.incorrect_event_ids"
  valid (∀ id ∈ correct, id ∉ incorrect) "adjustment event IDs must not be both correct and incorrect"
  valid (correct ≠ [] ∨ incorrect ≠ []) "adjustment must record at least one adjudication"
  .ok { a with correctEventIds := correct, incorrectEventIds := incorrect }

/-- The items that occur more than once, sorted. -/
def duplicates (items : List Text) : List Text :=
  List.sortedSet (items.filter fun item => 1 < items.count item)

/-- `validate_adjudication_set`. -/
def validateAdjudicationSet (policy : Policy) (events : List EvidenceEvent)
    (adjudications : List Adjudication) : Result (List Adjudication) := do
  valid (adjudications = [] ∨ policy.reliabilityUpdates.isSome)
    "adjudications were supplied but the policy does not configure reliability_updates"
  let repeated := duplicates (adjudications.map (·.eventId))
  valid (repeated = []) ("duplicate adjudicated event_id(s): " ++ commaTexts repeated)
  let unknown := List.sortedSet ((adjudications.map (·.source)).filter (· ∉ policy.sources.keys))
  valid (unknown = []) ("adjudicated source(s) missing from policy.sources: " ++ commaTexts unknown)
  -- The events' identifiers are distinct here, so a lookup by identifier is a search.
  let event? (item : Adjudication) := events.find? fun e => e.eventId = item.eventId
  let mismatched := adjudications.filter fun item => (event? item).any (·.source ≠ item.source)
  let premature := adjudications.filter fun item => (event? item).any fun e =>
    e.source = item.source && item.adjudicatedAt < e.ingestedAt
  valid (mismatched = []) ("adjudication(s) naming a source the event did not come from: " ++
    commaTexts ((mismatched.map (·.eventId)).sortOn id))
  valid (premature = []) ("adjudication(s) dated before the observation they judge was ingested: " ++
    commaTexts ((premature.map (·.eventId)).sortOn id))
  .ok adjudications

/-- `verdicts[source][verdict]`. -/
def verdictIds (adjudications : List Adjudication) (source : Text) (verdict : Verdict) : List Text :=
  (adjudications.filter fun item => item.source = source && item.verdict = verdict).map (·.eventId)

/-- `posterior`, for a declared reliability and two counts. -/
def posteriorReliability (rule : ReliabilityUpdatePolicy) (declared : N) (correct incorrect : ℕ) : N :=
  stable ((ofNumber rule.priorWeight * declared + ofCount correct) /
    (ofNumber rule.priorWeight + ofCount (correct + incorrect)))

/-- `applied`, for a declared reliability and its posterior. -/
def appliedReliability (rule : ReliabilityUpdatePolicy) (declared posterior : N) : N :=
  let bound : N := ofNumber rule.maxAdjustment
  stable (declared + min (max (posterior - declared) (-bound)) bound)

/-- One round of the loop of `adjust_reliabilities`. -/
def adjustSource (policy : Policy) (rule : ReliabilityUpdatePolicy) (adjudications : List Adjudication)
    (source : Text) : Result (ReliabilityAdjustment N) :=
  let correct := (verdictIds adjudications source .correct).sortOn id
  let incorrect := (verdictIds adjudications source .incorrect).sortOn id
  let declared : N := stable (ofNumber (policy.reliabilityFor source))
  let posterior := posteriorReliability rule declared correct.length incorrect.length
  ReliabilityAdjustment.make
    ⟨source, declared, posterior, appliedReliability rule declared posterior, correct, incorrect⟩

/-- `adjust_reliabilities`. -/
def adjustReliabilities (policy : Policy) (adjudications : List Adjudication) :
    Result (List (ReliabilityAdjustment N)) :=
  match policy.reliabilityUpdates with
  | none => .ok []
  | some rule => (List.sortedSet (adjudications.map (·.source))).mapM
      (adjustSource policy rule adjudications)

/-! ## Summaries -/

/-- `_combined_confidence`, multiplied from left to right. -/
def combinedConfidence (values : List N) : N :=
  1 - (values.map fun value => 1 - stable value).foldl (· * ·) 1

/-- `SignalSummary`. -/
structure SignalSummary (N : Type) where
  signal : Signal
  score : N
  qualifyingGroups : ℕ
  qualifyingSources : List Text
  qualifyingModalities : List Modality
  gatePassed : Bool
  groupIds : List Text

/-- The constructor of `SignalSummary`, for sources and modalities in order. -/
def SignalSummary.make (s : SignalSummary N) : Result (SignalSummary N) := do
  checkUnit s.score "summary.score"
  let groupIds ← canonicalTexts s.groupIds "summary.group_ids"
  valid (s.qualifyingGroups ≤ groupIds.length) "summary.qualifying_groups cannot exceed its group count"
  .ok { s with groupIds }

/-- The selections of a signal. -/
def matching (signal : Signal) (selections : List (CorrelationSelection N)) :
    List (CorrelationSelection N) :=
  selections.filter fun s => s.signal = signal

/-- The selections that qualify for the gate. -/
def qualifying (rule : ClaimRule) (selections : List (CorrelationSelection N)) :
    List (CorrelationSelection N) :=
  selections.filter fun s =>
    stable (ofNumber rule.minEvidenceConfidence) ≤ stable s.representative.effectiveConfidence

/-- `score`. -/
def signalScore (selections : List (CorrelationSelection N)) : N :=
  stable (combinedConfidence (selections.map (·.representative.effectiveConfidence)))

/-- Modalities in the order of their texts. -/
def sortedModalities (modalities : List Modality) : List Modality :=
  modalities.dedup.sortOn Modality.value

/-- `gate_passed`. -/
def gatePassed (rule : ClaimRule) (groups : ℕ) (sources : List Text) (modalities : List Modality) :
    Bool :=
  rule.quorum.value ≤ groups && rule.minSources.value ≤ sources.length &&
    rule.minModalities.value ≤ modalities.length &&
    rule.requiredModalities.all fun m => m ∈ modalities

/-- `_summarize_signal`. -/
def summarizeSignal (signal : Signal) (selections : List (CorrelationSelection N))
    (rule : ClaimRule) : Result (SignalSummary N) :=
  let matched := matching signal selections
  let qualified := qualifying rule matched
  let sources := List.sortedSet (qualified.map (·.representative.event.source))
  let modalities := sortedModalities (qualified.map (·.representative.event.modality))
  SignalSummary.make
    { signal
      score := signalScore matched
      qualifyingGroups := qualified.length
      qualifyingSources := sources
      qualifyingModalities := modalities
      gatePassed := gatePassed rule qualified.length sources modalities
      groupIds := matched.map (·.groupId) }

/-! ## Outcomes -/

/-- `_choose_outcome`. -/
def chooseOutcome (support contradict : SignalSummary N) (rule : ClaimRule) : Outcome × String :=
  let supportScore := stable support.score
  let contradictScore := stable contradict.score
  let supportThreshold : N := stable (ofNumber rule.supportThreshold)
  let contradictionThreshold : N := stable (ofNumber rule.contradictionThreshold)
  let minimumMargin : N := stable (ofNumber rule.minMargin)
  let margin := stable (supportScore - contradictScore)
  let supportsEscalation := support.gatePassed = true ∧ supportThreshold ≤ supportScore ∧
    minimumMargin ≤ margin
  let supportsRejection := contradict.gatePassed = true ∧ contradictionThreshold ≤ contradictScore ∧
    minimumMargin ≤ -margin
  if supportsEscalation ∧ supportsRejection then (.review, "conflicting_thresholds")
  else if supportsEscalation then (.escalate, "support_threshold_and_independence_gates_met")
  else if supportsRejection then (.reject, "contradiction_threshold_and_independence_gates_met")
  else if supportThreshold ≤ supportScore ∧ support.gatePassed = false then
    (.review, "support_score_met_but_independence_gate_failed")
  else if contradictionThreshold ≤ contradictScore ∧ contradict.gatePassed = false then
    (.review, "contradiction_score_met_but_independence_gate_failed")
  else if max margin (-margin) < minimumMargin then (.review, "evidence_margin_too_small")
  else (.review, "decision_threshold_not_met")

/-! ## Traces -/

/-- `EventTrace`. -/
structure EventTrace (N : Type) where
  eventId : Text
  claim : Text
  signal : Signal
  modality : Modality
  source : Text
  correlationGroup : Option Text
  rawConfidence : Number .unit
  sourceReliability : N
  ageSeconds : N
  decayFactor : N
  effectiveConfidence : N

/-- `EventTrace.from_weighted`. -/
def EventTrace.fromWeighted (w : WeightedEvent N) : Result (EventTrace N) := do
  let trace : EventTrace N :=
    { eventId := w.event.eventId, claim := w.event.claim, signal := w.event.signal
      modality := w.event.modality, source := w.event.source
      correlationGroup := w.event.correlationGroup, rawConfidence := w.event.confidence
      sourceReliability := stable w.sourceReliability, ageSeconds := stable w.ageSeconds
      decayFactor := stable w.decayFactor, effectiveConfidence := stable w.effectiveConfidence }
  checkUnit trace.sourceReliability "trace.source_reliability"
  checkUnit trace.decayFactor "trace.decay_factor"
  checkUnit trace.effectiveConfidence "trace.effective_confidence"
  checkNonnegative trace.ageSeconds "trace.age_seconds"
  .ok trace

/-- `CorrelationTrace`. -/
structure CorrelationTrace (N : Type) where
  groupId : Text
  signal : Signal
  representativeEventId : Text
  effectiveConfidence : N
  suppressedEventIds : List Text

/-- `CorrelationTrace.from_selection`. -/
def CorrelationTrace.fromSelection (s : CorrelationSelection N) : Result (CorrelationTrace N) := do
  let effectiveConfidence := stable s.representative.effectiveConfidence
  checkUnit effectiveConfidence "correlation.effective_confidence"
  let suppressed ← canonicalTexts (s.suppressed.map WeightedEvent.eventId)
    "correlation.suppressed_event_ids"
  valid (s.representative.eventId ∉ suppressed) "a correlation representative cannot suppress itself"
  .ok ⟨s.groupId, s.signal, s.representative.eventId, effectiveConfidence, suppressed⟩

/-- `ReliabilityUpdateTrace`. -/
structure ReliabilityUpdateTrace (N : Type) where
  source : Text
  declaredReliability : N
  posteriorReliability : N
  appliedReliability : N
  adjustment : N
  correctCount : ℕ
  incorrectCount : ℕ
  correctEventIds : List Text
  incorrectEventIds : List Text

/-- `ReliabilityUpdateTrace.from_adjustment`. -/
def ReliabilityUpdateTrace.fromAdjustment (a : ReliabilityAdjustment N) :
    Result (ReliabilityUpdateTrace N) := do
  let adjustment := stable (a.appliedReliability - a.declaredReliability)
  checkUnit a.declaredReliability "reliability_update.declared_reliability"
  checkUnit a.posteriorReliability "reliability_update.posterior_reliability"
  checkUnit a.appliedReliability "reliability_update.applied_reliability"
  checkSigned adjustment "reliability_update.adjustment"
  let correct ← canonicalTexts a.correctEventIds "reliability_update.correct_event_ids"
  let incorrect ← canonicalTexts a.incorrectEventIds "reliability_update.incorrect_event_ids"
  valid (∀ id ∈ correct, id ∉ incorrect)
    "reliability_update event IDs must not be both correct and incorrect"
  valid (a.correctEventIds.length = correct.length ∧ a.incorrectEventIds.length = incorrect.length)
    "reliability_update counts do not match their event IDs"
  valid (a.correctEventIds.length ≠ 0 ∨ a.incorrectEventIds.length ≠ 0)
    "reliability_update must record at least one adjudication"
  valid (stable (a.appliedReliability - a.declaredReliability) = stable adjustment)
    "reliability_update.adjustment must equal applied minus declared reliability"
  .ok ⟨a.source, a.declaredReliability, a.posteriorReliability, a.appliedReliability, adjustment,
    a.correctEventIds.length, a.incorrectEventIds.length, correct, incorrect⟩

/-! ## Decisions -/

/-- `ClaimDecision`. -/
structure ClaimDecision (N : Type) where
  claim : Text
  outcome : Outcome
  reason : String
  support : SignalSummary N
  contradict : SignalSummary N
  margin : N
  trace : List (EventTrace N)
  correlations : List (CorrelationTrace N)

/-- The sort key of correlations. -/
def correlationTraceKey (c : CorrelationTrace N) : Text ×ₗ String :=
  toLex (c.groupId, c.signal.value)

/-- The constructor of `ClaimDecision`. -/
def ClaimDecision.make (d : ClaimDecision N) : Result (ClaimDecision N) := do
  valid (d.support.signal = .support) "decision.support must be a support SignalSummary"
  valid (d.contradict.signal = .contradict) "decision.contradict must be a contradict SignalSummary"
  checkSigned d.margin "decision.margin"
  let trace := d.trace.sortOn EventTrace.eventId
  valid (trace.map EventTrace.eventId).Nodup "decision.trace contains duplicate event IDs"
  valid (∀ t ∈ trace, t.claim = d.claim) "decision.trace contains an event for another claim"
  let correlations := d.correlations.sortOn correlationTraceKey
  valid (correlations.map correlationTraceKey).Nodup
    "decision.correlations contains duplicate group/signal entries"
  .ok { d with trace, correlations }

/-- The weighted events of a claim, sorted. -/
def weightEvents (exp2 : N → N) (events : List EvidenceEvent) (policy : Policy) (asOf : Datetime)
    (reliabilities : Text → Option N) : Result (List (WeightedEvent N)) := do
  let weighted ← events.mapM fun event =>
    weightEvent exp2 event policy asOf (reliabilities event.source)
  .ok (weighted.sortOn WeightedEvent.eventId)

/-- The two summaries of selections. -/
def summarize (selections : List (CorrelationSelection N)) (rule : ClaimRule) :
    Result (SignalSummary N × SignalSummary N) := do
  let support ← summarizeSignal .support selections rule
  let contradict ← summarizeSignal .contradict selections rule
  .ok (support, contradict)

/-- `_evaluate_claim`. -/
def evaluateClaim (exp2 : N → N) (claim : Text) (rule : ClaimRule) (events : List EvidenceEvent)
    (policy : Policy) (asOf : Datetime) (reliabilities : Text → Option N) :
    Result (ClaimDecision N) := do
  let weighted ← weightEvents exp2 events policy asOf reliabilities
  let selections ← collapseCorrelated weighted
  let (support, contradict) ← summarize selections rule
  let (outcome, reason) := chooseOutcome support contradict rule
  let trace ← weighted.mapM EventTrace.fromWeighted
  let correlations ← selections.mapM CorrelationTrace.fromSelection
  ClaimDecision.make
    { claim, outcome, reason, support, contradict
      margin := stable (support.score - contradict.score), trace, correlations }

/-! ## Evaluation -/

/-- `EvaluationResult`: its `schema_version` is always 1. -/
structure EvaluationResult (N : Type) where
  policyId : Text
  evaluatedAt : Datetime
  inputEventCount : ℕ
  consideredEventCount : ℕ
  pendingEventIds : List Text
  decisions : List (ClaimDecision N)
  reliabilityUpdates : Option (List (ReliabilityUpdateTrace N))

/-- The constructor of `EvaluationResult`. -/
def EvaluationResult.make (r : EvaluationResult N) : Result (EvaluationResult N) := do
  valid (r.consideredEventCount ≤ r.inputEventCount)
    "result.considered_event_count cannot exceed input_event_count"
  let pending ← canonicalTexts r.pendingEventIds "result.pending_event_ids"
  valid (r.consideredEventCount + pending.length = r.inputEventCount)
    "result counts do not match pending_event_ids"
  let decisions := r.decisions.sortOn ClaimDecision.claim
  valid (decisions.map ClaimDecision.claim).Nodup "result.decisions contains duplicate claims"
  valid ((decisions.map fun d => d.trace.length).sum = r.consideredEventCount)
    "result considered count does not match decision traces"
  let updates := r.reliabilityUpdates.map fun items => items.sortOn ReliabilityUpdateTrace.source
  valid ((updates.getD []).map ReliabilityUpdateTrace.source).Nodup
    "result.reliability_updates contains duplicate sources"
  .ok { r with pendingEventIds := pending, decisions, reliabilityUpdates := updates }

/-- `total_seconds()` of how far an event lies in the future of its ingestion. -/
def futureSkew (event : EvidenceEvent) : N := seconds (event.observedAt.since event.ingestedAt)

/-- `validate_event_set`. -/
def validateEventSet (N : Type) [Arithmetic N] (policy : Policy) (events : List EvidenceEvent) :
    Result (List EvidenceEvent) := do
  let repeated := duplicates (events.map (·.eventId))
  valid (repeated = []) ("duplicate event_id(s): " ++ commaTexts repeated)
  let unknown := List.sortedSet ((events.map (·.claim)).filter (· ∉ policy.claims.keys))
  valid (unknown = []) ("event claim(s) missing from policy: " ++ commaTexts unknown)
  let _ ← events.mapM fun event =>
    let skew : N := futureSkew event
    valid (¬ ofNumber policy.decay.maxFutureSkewSeconds < skew)
      ("event " ++ event.eventId.value ++ " was observed " ++ fixed3 skew ++
        "s in the future of ingestion, beyond allowed source-clock skew")
  .ok events

/-- `reliabilities.get`. -/
def reliabilityOf (adjustments : List (ReliabilityAdjustment N)) (source : Text) : Option N :=
  (adjustments.find? fun a => a.source = source).map (·.appliedReliability)

/-- The `reliability_updates` of a result. -/
def updateTraces (policy : Policy) (adjustments : List (ReliabilityAdjustment N)) :
    Result (Option (List (ReliabilityUpdateTrace N))) :=
  match policy.reliabilityUpdates with
  | none => .ok none
  | some _ => do
    let traces ← adjustments.mapM ReliabilityUpdateTrace.fromAdjustment
    .ok (some traces)

/-- `evaluate`. -/
def evaluate (exp2 : N → N) (policy : Policy) (events : List EvidenceEvent) (asOf : Datetime)
    (adjudications : List Adjudication) : Result (EvaluationResult N) := do
  let events ← validateEventSet N policy events
  let adjudications ← validateAdjudicationSet policy events adjudications
  let adjustments ← adjustReliabilities policy
    (adjudications.filter fun item => item.adjudicatedAt ≤ asOf)
  let considered := events.filter fun event => event.ingestedAt ≤ asOf
  let pending := ((events.filter fun event => asOf < event.ingestedAt).map (·.eventId)).sortOn id
  let decisions ← (policy.claims.items.sortOn Prod.fst).mapM fun (claim, rule) =>
    evaluateClaim exp2 claim rule (considered.filter fun event => event.claim = claim) policy asOf
      (reliabilityOf adjustments)
  let reliabilityUpdates ← updateTraces policy adjustments
  EvaluationResult.make
    { policyId := policy.policyId, evaluatedAt := asOf, inputEventCount := events.length
      consideredEventCount := considered.length, pendingEventIds := pending, decisions
      reliabilityUpdates }

/-! ## Digests -/

/-- A computed number in a document. -/
def floatJson (x : N) : Json := .float (toFloat x)

/-- A list of texts in a document. -/
def textsJson (items : List Text) : Json := .arr (items.map fun t => .str t.value)

/-- `SignalSummary.to_dict`. -/
def SignalSummary.toDict (s : SignalSummary N) : Json :=
  Json.dict [("score", floatJson (stable s.score)),
    ("qualifying_groups", .int s.qualifyingGroups),
    ("qualifying_sources", textsJson s.qualifyingSources),
    ("qualifying_modalities", .arr (s.qualifyingModalities.map fun m => .str m.value)),
    ("gate_passed", .bool s.gatePassed), ("group_ids", textsJson s.groupIds)]

/-- `EventTrace.to_dict`. -/
def EventTrace.toDict (t : EventTrace N) : Json :=
  Json.dict [("event_id", .str t.eventId.value), ("claim", .str t.claim.value),
    ("signal", .str t.signal.value), ("modality", .str t.modality.value),
    ("source", .str t.source.value),
    ("correlation_group", (t.correlationGroup.map fun g => Json.str g.value).getD .null),
    ("raw_confidence", .float t.rawConfidence.value),
    ("source_reliability", floatJson t.sourceReliability), ("age_seconds", floatJson t.ageSeconds),
    ("decay_factor", floatJson t.decayFactor),
    ("effective_confidence", floatJson t.effectiveConfidence)]

/-- `CorrelationTrace.to_dict`. -/
def CorrelationTrace.toDict (c : CorrelationTrace N) : Json :=
  Json.dict [("group_id", .str c.groupId.value), ("signal", .str c.signal.value),
    ("representative_event_id", .str c.representativeEventId.value),
    ("effective_confidence", floatJson c.effectiveConfidence),
    ("suppressed_event_ids", textsJson c.suppressedEventIds)]

/-- `ReliabilityUpdateTrace.to_dict`. -/
def ReliabilityUpdateTrace.toDict (u : ReliabilityUpdateTrace N) : Json :=
  Json.dict [("source", .str u.source.value),
    ("declared_reliability", floatJson u.declaredReliability),
    ("posterior_reliability", floatJson u.posteriorReliability),
    ("applied_reliability", floatJson u.appliedReliability),
    ("adjustment", floatJson u.adjustment), ("correct_count", .int u.correctCount),
    ("incorrect_count", .int u.incorrectCount),
    ("correct_event_ids", textsJson u.correctEventIds),
    ("incorrect_event_ids", textsJson u.incorrectEventIds)]

/-- `ClaimDecision.to_dict`. -/
def ClaimDecision.toDict (d : ClaimDecision N) : Json :=
  Json.dict [("claim", .str d.claim.value), ("outcome", .str d.outcome.value),
    ("reason", .str d.reason), ("support", d.support.toDict), ("contradict", d.contradict.toDict),
    ("margin", floatJson (stable d.margin)), ("trace", .arr (d.trace.map EventTrace.toDict)),
    ("correlations", .arr (d.correlations.map CorrelationTrace.toDict))]

namespace EvaluationResult

/-- `_payload`. -/
def payload (r : EvaluationResult N) : Json :=
  Json.dict ([("schema_version", Json.int 1), ("policy_id", Json.str r.policyId.value),
    ("evaluated_at", Json.str (formatTimestamp r.evaluatedAt)),
    ("input_event_count", Json.int r.inputEventCount),
    ("considered_event_count", Json.int r.consideredEventCount),
    ("pending_event_ids", textsJson r.pendingEventIds),
    ("decisions", Json.arr (r.decisions.map ClaimDecision.toDict))] ++
    (r.reliabilityUpdates.map fun items =>
      ("reliability_updates", Json.arr (items.map ReliabilityUpdateTrace.toDict))).toList)

/-- `digest`. -/
def digest (D : Type) [Hashing D] (r : EvaluationResult N) : String :=
  "sha256:" ++ Hashing.hex (Hashing.sha256 (canonicalBytes r.payload) : D)

end EvaluationResult

end EvidenceBraid
