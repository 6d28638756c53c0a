import EvidenceBraid.Engine
import EvidenceBraid.Library.Traverse

/-!
# What evaluation computes

The event sets and adjudication sets that evaluation admits (`ValidEvents`, `ValidAdjudications`),
and what a result consists of (`evaluate_eq_ok`): one adjustment for each adjudicated source, one
decision for each configured claim, and nothing of what is not visible yet.
-/

namespace EvidenceBraid

open Arithmetic

variable {N : Type} [Arithmetic N]

theorem canonicalTexts_eq_ok {items texts : List Text} {path : String} :
    canonicalTexts items path = .ok texts ↔ items.Nodup ∧ texts = items.sortOn id := by
  simp only [canonicalTexts, bind_eq_ok, valid_eq_ok, exists_unit, Except.ok.injEq,
    eq_comm (a := texts)]

theorem duplicates_eq_nil {items : List Text} : duplicates items = [] ↔ items.Nodup := by
  rw [List.nodup_iff_count_le_one]
  constructor
  · intro h item
    by_contra hmany
    have hcount : 1 < items.count item := not_le.mp hmany
    have hmem : item ∈ duplicates items := List.mem_sortedSet.mpr
      (List.mem_filter.mpr ⟨List.count_pos_iff.mp (by omega), by simpa using hcount⟩)
    rw [h] at hmem
    exact absurd hmem List.not_mem_nil
  · intro h
    rw [List.eq_nil_iff_forall_not_mem]
    intro item hmem
    rw [duplicates, List.mem_sortedSet, List.mem_filter] at hmem
    have hcount : 1 < items.count item := by simpa using hmem.2
    exact absurd (h item) (by omega)

theorem sortedSet_filter_eq_nil {items keys : List Text} :
    List.sortedSet (items.filter (· ∉ keys)) = [] ↔ ∀ item ∈ items, item ∈ keys := by
  rw [List.eq_nil_iff_forall_not_mem]
  simp only [List.mem_sortedSet, List.mem_filter, decide_eq_true_eq, not_and, not_not]

/-! ## Admitted inputs -/

/-- What `validate_event_set` admits. -/
structure ValidEvents (N : Type) [Arithmetic N] (policy : Policy) (events : List EvidenceEvent) :
    Prop where
  distinct : (events.map (·.eventId)).Nodup
  configured : ∀ e ∈ events, e.claim ∈ policy.claims.keys
  skew : ∀ e ∈ events, ¬ (ofNumber policy.decay.maxFutureSkewSeconds : N) < futureSkew e

theorem validateEventSet_eq_ok {policy : Policy} {events result : List EvidenceEvent} :
    validateEventSet N policy events = .ok result ↔ ValidEvents N policy events ∧ result = events := by
  simp only [validateEventSet, bind_eq_ok, valid_eq_ok, exists_unit, Except.ok.injEq,
    duplicates_eq_nil, sortedSet_filter_eq_nil, List.mem_map, forall_exists_index, and_imp,
    forall_apply_eq_imp_iff₂]
  constructor
  · rintro ⟨hdistinct, hclaims, _, hloop, rfl⟩
    refine ⟨⟨hdistinct, hclaims, fun e he => ?_⟩, rfl⟩
    obtain ⟨_, -, hskew⟩ := List.exists_of_mem_of_mapM hloop he
    exact valid_eq_ok.mp hskew
  · rintro ⟨h, rfl⟩
    obtain ⟨units, hloop⟩ := List.exists_mapM (f := fun event : EvidenceEvent =>
      valid (¬ (ofNumber policy.decay.maxFutureSkewSeconds : N) < futureSkew event)
        ("event " ++ event.eventId.value ++ " was observed " ++ fixed3 (futureSkew event : N) ++
          "s in the future of ingestion, beyond allowed source-clock skew"))
      fun e he => ⟨(), valid_of (h.skew e he)⟩
    exact ⟨h.distinct, h.configured, units, hloop, rfl⟩

theorem ValidEvents.perm {policy : Policy} {events events' : List EvidenceEvent}
    (h : ValidEvents N policy events) (hperm : events'.Perm events) : ValidEvents N policy events' where
  distinct := ((hperm.map _).nodup_iff).mpr h.distinct
  configured e he := h.configured e (hperm.mem_iff.mp he)
  skew e he := h.skew e (hperm.mem_iff.mp he)

theorem ValidEvents.sublist {policy : Policy} {events events' : List EvidenceEvent}
    (h : ValidEvents N policy events) (hsub : events'.Sublist events) :
    ValidEvents N policy events' where
  distinct := h.distinct.sublist (hsub.map _)
  configured e he := h.configured e (hsub.subset he)
  skew e he := h.skew e (hsub.subset he)

/-- What `validate_adjudication_set` admits. -/
structure ValidAdjudications (policy : Policy) (events : List EvidenceEvent)
    (adjudications : List Adjudication) : Prop where
  maintained : adjudications = [] ∨ policy.reliabilityUpdates.isSome
  distinct : (adjudications.map (·.eventId)).Nodup
  declared : ∀ a ∈ adjudications, a.source ∈ policy.sources.keys
  matched : ∀ a ∈ adjudications, ∀ e ∈ events, e.eventId = a.eventId →
    e.source = a.source ∧ e.ingestedAt ≤ a.adjudicatedAt

/-- With distinct identifiers, the event of an adjudication is found. -/
theorem find?_eventId {events : List EvidenceEvent} (hdistinct : (events.map (·.eventId)).Nodup)
    {id : Text} {e : EvidenceEvent} :
    (events.find? fun e => e.eventId = id) = some e ↔ e ∈ events ∧ e.eventId = id := by
  constructor
  · intro h
    exact ⟨List.mem_of_find?_eq_some h, by simpa using List.find?_some h⟩
  · rintro ⟨he, hid⟩
    rcases hfind : events.find? fun e => e.eventId = id with _ | found
    · exact absurd (List.find?_eq_none.mp hfind e he) (by simpa using hid)
    · have hfound : found.eventId = id := by simpa using List.find?_some hfind
      have hsame := List.inj_on_of_nodup_map hdistinct (List.mem_of_find?_eq_some hfind) he
        (hfound.trans hid.symm)
      exact hsame ▸ hfind

theorem validateAdjudicationSet_eq_ok {policy : Policy} {events : List EvidenceEvent}
    (hdistinct : (events.map (·.eventId)).Nodup) {adjudications result : List Adjudication} :
    validateAdjudicationSet policy events adjudications = .ok result ↔
      ValidAdjudications policy events adjudications ∧ result = adjudications := by
  simp only [validateAdjudicationSet, bind_eq_ok, valid_eq_ok, exists_unit, Except.ok.injEq,
    duplicates_eq_nil, sortedSet_filter_eq_nil, List.mem_map, forall_exists_index, and_imp,
    forall_apply_eq_imp_iff₂, List.filter_eq_nil_iff, Option.any_eq_true, find?_eventId hdistinct,
    Bool.and_eq_true, decide_eq_true_eq, not_exists, not_and, not_lt, ne_eq, not_not]
  constructor
  · rintro ⟨hmaintained, hdistinct', hdeclared, hmismatched, hpremature, rfl⟩
    refine ⟨⟨hmaintained, hdistinct', hdeclared, fun a ha e he hid => ?_⟩, rfl⟩
    have hsource := hmismatched a ha e he hid
    exact ⟨hsource, hpremature a ha e he hid hsource⟩
  · rintro ⟨h, rfl⟩
    exact ⟨h.maintained, h.distinct, h.declared, fun a ha e he hid => (h.matched a ha e he hid).1,
      fun a ha e he hid _ => (h.matched a ha e he hid).2, rfl⟩

theorem ValidAdjudications.perm {policy : Policy} {events events' : List EvidenceEvent}
    {adjudications adjudications' : List Adjudication}
    (h : ValidAdjudications policy events adjudications) (hevents : events'.Perm events)
    (hperm : adjudications'.Perm adjudications) :
    ValidAdjudications policy events' adjudications' where
  maintained := h.maintained.imp_left fun hnil => by
    rw [hnil] at hperm
    exact hperm.eq_nil
  distinct := ((hperm.map _).nodup_iff).mpr h.distinct
  declared a ha := h.declared a (hperm.mem_iff.mp ha)
  matched a ha e he := h.matched a (hperm.mem_iff.mp ha) e (hevents.mem_iff.mp he)

theorem ValidAdjudications.sublist {policy : Policy} {events events' : List EvidenceEvent}
    {adjudications adjudications' : List Adjudication}
    (h : ValidAdjudications policy events adjudications) (hevents : events'.Sublist events)
    (hsub : adjudications'.Sublist adjudications) :
    ValidAdjudications policy events' adjudications' where
  maintained := h.maintained.imp_left fun hnil => by
    rw [hnil] at hsub
    exact List.sublist_nil.mp hsub
  distinct := h.distinct.sublist (hsub.map _)
  declared a ha := h.declared a (hsub.subset ha)
  matched a ha e he := h.matched a (hsub.subset ha) e (hevents.subset he)

/-! ## Results -/

/-- What is visible of the events of a claim. -/
def visibleOf (events : List EvidenceEvent) (asOf : Datetime) (claim : Text) : List EvidenceEvent :=
  (events.filter fun e => e.ingestedAt ≤ asOf).filter fun e => e.claim = claim

/-- The adjudications that are knowable. -/
def knowable (adjudications : List Adjudication) (asOf : Datetime) : List Adjudication :=
  adjudications.filter fun a => a.adjudicatedAt ≤ asOf

/-- **What evaluation returns.** -/
theorem evaluate_eq_ok {exp2 : N → N} {policy : Policy} {events : List EvidenceEvent}
    {asOf : Datetime} {adjudications : List Adjudication} {r : EvaluationResult N} :
    evaluate exp2 policy events asOf adjudications = .ok r ↔
      ValidEvents N policy events ∧ ValidAdjudications policy events adjudications ∧
      ∃ (adjustments : List (ReliabilityAdjustment N)) (decisions : List (ClaimDecision N))
        (updates : Option (List (ReliabilityUpdateTrace N))),
        adjustReliabilities policy (knowable adjudications asOf) = .ok adjustments ∧
        ((policy.claims.items.sortOn Prod.fst).mapM fun kv => evaluateClaim exp2 kv.1 kv.2
          (visibleOf events asOf kv.1) policy asOf (reliabilityOf adjustments)) = .ok decisions ∧
        updateTraces policy adjustments = .ok updates ∧
        EvaluationResult.make
          { policyId := policy.policyId, evaluatedAt := asOf, inputEventCount := events.length
            consideredEventCount := (events.filter fun e => e.ingestedAt ≤ asOf).length
            pendingEventIds := ((events.filter fun e => asOf < e.ingestedAt).map (·.eventId)).sortOn id
            decisions, reliabilityUpdates := updates } = .ok r := by
  simp only [evaluate, bind_eq_ok, validateEventSet_eq_ok]
  constructor
  · rintro ⟨_, ⟨hevents, rfl⟩, adjudications', hadjudications, adjustments, hadjust, decisions,
      hdecisions, updates, hupdates, hmake⟩
    obtain ⟨hvalid, rfl⟩ := (validateAdjudicationSet_eq_ok hevents.distinct).mp hadjudications
    exact ⟨hevents, hvalid, adjustments, decisions, updates, hadjust, hdecisions, hupdates, hmake⟩
  · rintro ⟨hevents, hvalid, adjustments, decisions, updates, hadjust, hdecisions, hupdates, hmake⟩
    exact ⟨_, ⟨hevents, rfl⟩, _, (validateAdjudicationSet_eq_ok hevents.distinct).mpr ⟨hvalid, rfl⟩,
      adjustments, hadjust, decisions, hdecisions, updates, hupdates, hmake⟩

omit [Arithmetic N] in
theorem EvaluationResult.of_make {s r : EvaluationResult N} (h : s.make = .ok r) :
    r.policyId = s.policyId ∧ r.evaluatedAt = s.evaluatedAt ∧
      r.decisions = s.decisions.sortOn ClaimDecision.claim := by
  simp only [EvaluationResult.make, bind_eq_ok, valid_eq_ok, exists_unit, Except.ok.injEq] at h
  obtain ⟨-, pending, -, -, -, -, -, rfl⟩ := h
  exact ⟨rfl, rfl, rfl⟩

theorem ClaimDecision.of_make {s d : ClaimDecision N} (h : s.make = .ok d) :
    d.claim = s.claim ∧ d.outcome = s.outcome ∧ d.support = s.support ∧
      d.contradict = s.contradict ∧ d.margin = s.margin := by
  simp only [ClaimDecision.make, bind_eq_ok, valid_eq_ok, exists_unit, Except.ok.injEq] at h
  obtain ⟨-, -, _, -, -, -, -, rfl⟩ := h
  exact ⟨rfl, rfl, rfl, rfl, rfl⟩

theorem claim_of_evaluateClaim {exp2 : N → N} {claim : Text} {rule : ClaimRule}
    {events : List EvidenceEvent} {policy : Policy} {asOf : Datetime} {reliabilities : Text → Option N}
    {d : ClaimDecision N} (h : evaluateClaim exp2 claim rule events policy asOf reliabilities = .ok d) :
    d.claim = claim := by
  simp only [evaluateClaim, bind_eq_ok] at h
  obtain ⟨_, -, _, -, _, -, h⟩ := h
  obtain ⟨_, -, _, -, hmake⟩ := h
  exact (ClaimDecision.of_make hmake).1

/-- **A decision is its claim's**, with the rule that the policy states for it. -/
theorem exists_evaluateClaim {exp2 : N → N} {policy : Policy} {events : List EvidenceEvent}
    {asOf : Datetime} {adjudications : List Adjudication} {r : EvaluationResult N}
    (h : evaluate exp2 policy events asOf adjudications = .ok r) {d : ClaimDecision N}
    (hd : d ∈ r.decisions) : ∃ (rule : ClaimRule) (adjustments : List (ReliabilityAdjustment N)),
      policy.claims.get? d.claim = some rule ∧
      adjustReliabilities policy (knowable adjudications asOf) = .ok adjustments ∧
      evaluateClaim exp2 d.claim rule (visibleOf events asOf d.claim) policy asOf
        (reliabilityOf adjustments) = .ok d := by
  obtain ⟨-, -, adjustments, decisions, updates, hadjust, hdecisions, -, hmake⟩ :=
    evaluate_eq_ok.mp h
  obtain ⟨-, -, hsorted⟩ := EvaluationResult.of_make hmake
  rw [hsorted, List.mem_sortOn] at hd
  obtain ⟨⟨claim, rule⟩, hmem, hclaim⟩ := List.exists_of_mem_mapM hdecisions hd
  have hget := policy.claims.mem_items_iff.mp (List.mem_sortOn.mp hmem)
  obtain rfl : d.claim = claim := claim_of_evaluateClaim hclaim
  exact ⟨rule, adjustments, hget, hadjust, hclaim⟩

/-! ## A small policy -/

theorem exists_ok_of_isSome {α : Type} {x : Result α} (h : x.toOption.isSome) : ∃ a, x = .ok a := by
  cases x with
  | ok a => exact ⟨a, rfl⟩
  | error e => cases h

/-- The float `0.5`. -/
def halfUnit : Number .unit := ⟨⟨false, 1022 * 2 ^ 52, by decide⟩, by decide, by decide +kernel⟩

/-- The float `0.75`. -/
def threeQuarters : Number .unit :=
  ⟨⟨false, 1022 * 2 ^ 52 + 2 ^ 51, by decide⟩, by decide, by decide +kernel⟩

def oneSecond : Number .positive := ⟨Bounds.one, oneUnit.canonical, by decide +kernel⟩

def noSeconds : Number .nonnegative := ⟨Bounds.zero, zeroUnit.canonical, by decide +kernel⟩

def onePositive : PositiveInt := ⟨1, le_rfl, by decide +kernel⟩

/-- A rule with this quorum that needs half of the confidence, and no margin. -/
def sampleRule (quorum : PositiveInt) : ClaimRule where
  supportThreshold := halfUnit
  contradictionThreshold := halfUnit
  minMargin := zeroUnit
  quorum := quorum
  minSources := onePositive
  minModalities := onePositive
  minEvidenceConfidence := zeroUnit
  requiredModalities := []
  modalities_sorted := List.Pairwise.nil

/-- A policy for one claim, with full trust in every source. -/
def samplePolicy (rule : ClaimRule) : Policy where
  policyId := .literal "p"
  defaultSourceReliability := oneUnit
  sources := Dict.empty
  decay := ⟨oneSecond, Dict.empty, noSeconds⟩
  claims := ⟨[(.literal "c", rule)], List.nodup_singleton _⟩
  reliabilityUpdates := none
  sourceSchemaVersion := 2
  claims_ne := List.cons_ne_nil _ _
  version_range := currentVersion_range

/-- An observation of the claim by the one source. -/
def observation (eventId : Text) (signal : Signal) (confidence : Number .unit) : EvidenceEvent where
  eventId := eventId
  claim := .literal "c"
  modality := .text
  source := .literal "s"
  signal := signal
  confidence := confidence
  observedAt := .earliest
  ingestedAt := .earliest
  correlationGroup := none
  attributes := .empty

/-- `2.0 ** x` of an integer. -/
def integerPower (x : ℚ) : ℚ := 2 ^ ⌊x⌋

end EvidenceBraid
