import EvidenceBraid.Collapse
import EvidenceBraid.OrderIndependence
import EvidenceBraid.Scores

/-!
# Validated inputs always evaluate

**Theorem (`evaluates_iff`).** In exact arithmetic, `evaluate` returns a result for an event set and an
adjudication set exactly when `validate_event_set` and `validate_adjudication_set` accept them,
whatever confidence in `[0, 1]` decay leaves.

**Idea.** Every check after the two validations follows from how the checked value was built. An event
that is visible was ingested by then, so it lies no further in the future than it did at ingestion.
Confidences are products of confidences, scores are noisy-ors of confidences, applied reliabilities lie
between reliabilities. Identifiers stay distinct through filters and sorts, and every visible event
is traced by exactly one claim.
-/

/-- Every item has one of the keys, so the items of all keys are as many as the items. -/
theorem List.sum_length_filter {α κ : Type} [DecidableEq κ] {f : α → κ} {keys : List κ}
    (hkeys : keys.Nodup) {xs : List α} (hmem : ∀ x ∈ xs, f x ∈ keys) :
    (keys.map fun k => (xs.filter fun x => f x = k).length).sum = xs.length := by
  induction xs with
  | nil => simp
  | cons x xs ih =>
    obtain ⟨hx, hxs⟩ := List.forall_mem_cons.mp hmem
    have hcons : ∀ k, ((x :: xs).filter fun y => f y = k).length =
        (if f x = k then 1 else 0) + (xs.filter fun y => f y = k).length := fun k => by
      by_cases h : f x = k
      · simp [h, Nat.add_comm]
      · simp [h]
    have hone : (keys.map fun k => if f x = k then 1 else 0).sum = 1 := by
      rw [List.sum_map_eq_nsmul_single (f x) _ fun k hk _ => if_neg (Ne.symm hk), if_pos rfl,
        List.count_eq_one_of_mem hkeys hx, one_nsmul]
    simp only [hcons, List.sum_map_add, hone, ih hxs, List.length_cons, Nat.add_comm]

namespace EvidenceBraid

open Arithmetic

/-- Decay leaves a confidence. -/
def Decays (exp2 : ℚ → ℚ) : Prop := ∀ x ≤ 0, 0 ≤ exp2 x ∧ exp2 x ≤ 1

/-- A computed number is a confidence. -/
def InUnit (x : ℚ) : Prop := 0 ≤ x ∧ x ≤ 1

/-! ## Weighting -/

theorem seconds_mono {m n : ℤ} (h : m ≤ n) : (seconds m : ℚ) ≤ seconds n := by
  show (m : ℚ) / 1000000 ≤ n / 1000000
  have hcast : (m : ℚ) ≤ n := Int.cast_le.mpr h
  linarith

theorem seconds_neg (m : ℤ) : (seconds (-m) : ℚ) = -seconds m := by
  show ((-m : ℤ) : ℚ) / 1000000 = -(m / 1000000)
  push_cast
  ring

/-- **The skew of a visible event** is at most what it was at ingestion. -/
theorem skew_of_visible {policy : Policy} {events : List EvidenceEvent} (hvalid : ValidEvents ℚ policy events)
    {event : EvidenceEvent} (hevent : event ∈ events) {asOf : Datetime} (hvisible : event.ingestedAt ≤ asOf) :
    ¬ (seconds (asOf.since event.observedAt) : ℚ) < -ofNumber policy.decay.maxFutureSkewSeconds := by
  have hingested : (event.ingestedAt.micros : ℤ) ≤ asOf.micros := Int.ofNat_le.mpr hvisible
  have hfuture : -asOf.since event.observedAt ≤ event.observedAt.since event.ingestedAt := by
    unfold Datetime.since
    omega
  have hskew : (seconds (event.observedAt.since event.ingestedAt) : ℚ) ≤
      ofNumber policy.decay.maxFutureSkewSeconds := not_lt.mp (hvalid.skew event hevent)
  have hle := (seconds_mono hfuture).trans hskew
  rw [seconds_neg] at hle
  linarith

theorem exists_weightEvent {exp2 : ℚ → ℚ} (hexp : Decays exp2) {event : EvidenceEvent} {policy : Policy}
    {asOf : Datetime} {reliability : Option ℚ} (hreliability : ∀ x ∈ reliability, InUnit x)
    (hskew : ¬ (seconds (asOf.since event.observedAt) : ℚ) <
      -ofNumber policy.decay.maxFutureSkewSeconds) :
    ∃ w, weightEvent exp2 event policy asOf reliability = .ok w ∧ w.make = .ok w := by
  have hage : 0 ≤ max (seconds (asOf.since event.observedAt) : ℚ) 0 := le_max_right _ _
  have hhalf : (0 : ℚ) < ofNumber (policy.decay.halfLifeFor event.modality) := positive_pos _
  have hdecay : InUnit (exp2 (-max (seconds (asOf.since event.observedAt)) 0 /
      ofNumber (policy.decay.halfLifeFor event.modality))) :=
    hexp _ (div_nonpos_of_nonpos_of_nonneg (neg_nonpos.mpr hage) hhalf.le)
  have happlied : InUnit (reliability.getD (ofNumber (policy.reliabilityFor event.source))) := by
    cases reliability with
    | none => exact ⟨unit_nonneg _, unit_le_one _⟩
    | some x => exact hreliability x rfl
  have hconfidence : InUnit (ofNumber event.confidence) := ⟨unit_nonneg _, unit_le_one _⟩
  have hmul : ∀ {x y : ℚ}, InUnit x → InUnit y → InUnit (x * y) := fun hx hy =>
    ⟨mul_nonneg hx.1 hy.1, mul_le_one₀ hx.2 hy.1 hy.2⟩
  have hmake : ∀ w : WeightedEvent ℚ, 0 ≤ w.ageSeconds → InUnit w.sourceReliability → InUnit w.decayFactor →
      InUnit w.effectiveConfidence → w.make = .ok w := fun w hage hsource hdecay heffective => by
    simp only [WeightedEvent.make, checkNonnegative, checkUnit, bind_eq_ok, valid_eq_ok, exists_unit]
    exact ⟨hage, hsource, hdecay, heffective, trivial⟩
  have hmade := hmake ⟨event, _, _, _, _⟩ hage happlied hdecay (hmul (hmul hconfidence happlied) hdecay)
  refine ⟨_, ?_, hmade⟩
  simp only [weightEvent, bind_eq_ok, valid_eq_ok, exists_unit]
  exact ⟨hskew, hmade⟩

theorem exists_weightEvents {exp2 : ℚ → ℚ} (hexp : Decays exp2) {policy : Policy} {asOf : Datetime}
    {reliabilities : Text → Option ℚ} (hreliabilities : ∀ source, ∀ x ∈ reliabilities source, InUnit x)
    {events : List EvidenceEvent}
    (hskew : ∀ e ∈ events, ¬ (seconds (asOf.since e.observedAt) : ℚ) <
      -ofNumber policy.decay.maxFutureSkewSeconds) :
    ∃ weighted, weightEvents exp2 events policy asOf reliabilities = .ok weighted ∧ Made weighted ∧
      (weighted.map WeightedEvent.event).Perm events := by
  obtain ⟨unsorted, hunsorted⟩ := @List.exists_mapM _ _ _
    (fun event => weightEvent exp2 event policy asOf (reliabilities event.source)) events fun e he => by
      obtain ⟨w, hw, -⟩ := exists_weightEvent hexp (hreliabilities e.source) (hskew e he)
      exact ⟨w, hw⟩
  refine ⟨unsorted.sortOn WeightedEvent.eventId, ?_, fun w hw => ?_, ?_⟩
  · simp only [weightEvents, bind_eq_ok]
    exact ⟨unsorted, hunsorted, rfl⟩
  · obtain ⟨e, he, hweight⟩ := List.exists_of_mem_mapM hunsorted (List.mem_sortOn.mp hw)
    obtain ⟨w', hw', hmade⟩ := exists_weightEvent hexp (hreliabilities e.source) (hskew e he)
    obtain rfl : w = w' := Except.ok.inj (hweight.symm.trans hw')
    exact hmade
  · have hevents : unsorted.map WeightedEvent.event = events.map id :=
      List.mapM_map_eq hunsorted fun _ _ hw => weightEvent_event hw
    rw [List.map_id] at hevents
    exact hevents ▸ (List.sortOn_perm _ unsorted).map _

/-! ## One claim -/

theorem exists_eventTrace {w : WeightedEvent ℚ} (h : w.make = .ok w) :
    ∃ t, EventTrace.fromWeighted w = .ok t := by
  simp only [WeightedEvent.make, checkNonnegative, checkUnit, bind_eq_ok, valid_eq_ok, exists_unit] at h
  obtain ⟨hage, hsource, hdecay, heffective, -⟩ := h
  simp only [EventTrace.fromWeighted, checkNonnegative, checkUnit, bind_eq_ok, valid_eq_ok, exists_unit]
  exact ⟨_, ⟨stable_nonneg hsource.1, stable_le_one hsource.2⟩,
    ⟨stable_nonneg hdecay.1, stable_le_one hdecay.2⟩,
    ⟨stable_nonneg heffective.1, stable_le_one heffective.2⟩, stable_nonneg hage, rfl⟩

section Arithmetic

variable {N : Type} [Arithmetic N]

theorem eventTrace_of {w : WeightedEvent N} {t : EventTrace N} (h : EventTrace.fromWeighted w = .ok t) :
    t.eventId = w.eventId ∧ t.claim = w.event.claim := by
  simp only [EventTrace.fromWeighted, bind_eq_ok, Except.ok.injEq] at h
  obtain ⟨_, -, _, -, _, -, _, -, rfl⟩ := h
  exact ⟨rfl, rfl⟩

theorem correlationTrace_of {s : CorrelationSelection N} {c : CorrelationTrace N}
    (h : CorrelationTrace.fromSelection s = .ok c) : correlationTraceKey c = selectionKey s := by
  simp only [CorrelationTrace.fromSelection, bind_eq_ok, Except.ok.injEq] at h
  obtain ⟨_, -, _, -, _, -, rfl⟩ := h
  rfl

theorem summarizeSignal_signal {signal : Signal} {selections : List (CorrelationSelection N)}
    {rule : ClaimRule} {s : SignalSummary N} (h : summarizeSignal signal selections rule = .ok s) :
    s.signal = signal := by
  simp only [summarizeSignal, SignalSummary.make, bind_eq_ok, Except.ok.injEq] at h
  obtain ⟨_, -, _, -, _, -, rfl⟩ := h
  rfl

end Arithmetic

section Weighted

variable {weighted : List (WeightedEvent ℚ)} (hmade : Made weighted)
  (hdistinct : (weighted.map WeightedEvent.eventId).Nodup)
include hmade hdistinct

theorem exists_correlationTrace {key : Text × Signal} {s : CorrelationSelection ℚ}
    (h : selectStrongest (key, members weighted key) = .ok s) :
    ∃ c, CorrelationTrace.fromSelection s = .ok c := by
  have hevents := events_of_select hdistinct h
  have hids : (s.events.map WeightedEvent.eventId).Nodup :=
    (hevents.map _).nodup_iff.mpr (members_nodup hdistinct key)
  obtain ⟨hself, hsuppressed⟩ := List.nodup_cons.mp hids
  have hmem : s.representative ∈ weighted :=
    (mem_members.mp (hevents.mem_iff.mp List.mem_cons_self)).1
  simp only [CorrelationTrace.fromSelection, checkUnit, bind_eq_ok, valid_eq_ok, exists_unit,
    canonicalTexts_eq_ok]
  refine ⟨_, confidence_of_make (hmade _ hmem), _, ⟨hsuppressed, rfl⟩, ?_, rfl⟩
  rw [List.mem_sortOn]
  exact hself

/-- **Both summaries** of what is collapsed. -/
theorem exists_summarize (rule : ClaimRule) {selections : List (CorrelationSelection ℚ)}
    (hcollapse : collapseCorrelated weighted = .ok selections) :
    ∃ support contradict, summarize selections rule = .ok (support, contradict) ∧
      support.signal = .support ∧ contradict.signal = .contradict ∧
      InUnit support.score ∧ InUnit contradict.score := by
  have hone : ∀ signal, ∃ s, summarizeSignal signal selections rule = .ok s ∧ InUnit s.score := by
    intro signal
    obtain ⟨s, hs, hscore⟩ := exists_summaryOf hmade hdistinct signal rule
    obtain ⟨hzero, hone⟩ := noisyOr_groups_mem_unit hmade signal
    rw [summaryOf, bind_eq_ok] at hs
    obtain ⟨selections', hcollapse', hs⟩ := hs
    obtain rfl : selections' = selections := Except.ok.inj (hcollapse'.symm.trans hcollapse)
    refine ⟨s, hs, ?_⟩
    rw [hscore]
    exact ⟨stable_nonneg hzero, stable_le_one hone⟩
  obtain ⟨support, hsupport, hscore⟩ := hone .support
  obtain ⟨contradict, hcontradict, hscore'⟩ := hone .contradict
  refine ⟨support, contradict, ?_, summarizeSignal_signal hsupport, summarizeSignal_signal hcontradict,
    hscore, hscore'⟩
  simp only [summarize, bind_eq_ok]
  exact ⟨support, hsupport, contradict, hcontradict, rfl⟩

end Weighted

theorem margin_mem {x y : ℚ} (hx : InUnit x) (hy : InUnit y) : -1 ≤ stable (x - y) ∧ stable (x - y) ≤ 1 := by
  have hlow : stable (y - x) ≤ 1 := stable_le_one (by linarith [hx.1, hy.2])
  have hneg : stable (x - y) = -stable (y - x) := by
    rw [← SymmetricArithmetic.stable_neg, neg_sub]
  constructor
  · rw [hneg]
    linarith
  · exact stable_le_one (by linarith [hx.2, hy.1])

/-- **Every claim has a decision**, which traces its visible events. -/
theorem exists_decision {exp2 : ℚ → ℚ} (hexp : Decays exp2) {policy : Policy} {asOf : Datetime}
    {reliabilities : Text → Option ℚ} (hreliabilities : ∀ source, ∀ x ∈ reliabilities source, InUnit x)
    {events : List EvidenceEvent} (hdistinct : (events.map (·.eventId)).Nodup)
    (hskew : ∀ e ∈ events, ¬ (seconds (asOf.since e.observedAt) : ℚ) <
      -ofNumber policy.decay.maxFutureSkewSeconds)
    {claim : Text} (hclaim : ∀ e ∈ events, e.claim = claim) (rule : ClaimRule) :
    ∃ d, evaluateClaim exp2 claim rule events policy asOf reliabilities = .ok d ∧ d.claim = claim ∧
      d.trace.length = events.length := by
  obtain ⟨weighted, hweighted, hmade, hevents⟩ := exists_weightEvents hexp hreliabilities hskew
  have hids : (weighted.map WeightedEvent.eventId).Nodup := by
    have hperm := (hevents.map (·.eventId)).nodup_iff.mpr hdistinct
    rwa [List.map_map] at hperm
  obtain ⟨selections, hcollapse, -, hkeys, hmem⟩ := exists_collapseCorrelated hids
  obtain ⟨support, contradict, hsummarize, hsupport, hcontradict, hscore, hscore'⟩ :=
    exists_summarize hmade hids rule hcollapse
  obtain ⟨trace, htrace⟩ := List.exists_mapM (f := EventTrace.fromWeighted) fun w hw =>
    exists_eventTrace (hmade w hw)
  obtain ⟨correlations, hcorrelations⟩ := List.exists_mapM (f := CorrelationTrace.fromSelection)
    fun s hs => by
      obtain ⟨key, -, hselect⟩ := (hmem s).mp hs
      exact exists_correlationTrace hmade hids hselect
  have htraceIds : trace.map EventTrace.eventId = weighted.map WeightedEvent.eventId :=
    List.mapM_map_eq htrace fun _ _ ht => (eventTrace_of ht).1
  have hcorrelationKeys : correlations.map correlationTraceKey = selections.map selectionKey :=
    List.mapM_map_eq hcorrelations fun _ _ hc => correlationTrace_of hc
  have htraceClaims : ∀ t ∈ trace, t.claim = claim := fun t ht => by
    obtain ⟨w, hw, hwt⟩ := List.exists_of_mem_mapM htrace ht
    exact (eventTrace_of hwt).2.trans (hclaim _ (hevents.mem_iff.mp (List.mem_map_of_mem hw)))
  have hlength : trace.length = events.length := by
    have hlengths := congrArg List.length htraceIds
    rw [List.length_map, List.length_map] at hlengths
    rw [hlengths, ← hevents.length_eq, List.length_map]
  let d : ClaimDecision ℚ :=
    { claim, outcome := (chooseOutcome support contradict rule).1
      reason := (chooseOutcome support contradict rule).2, support, contradict
      margin := stable (support.score - contradict.score), trace := trace.sortOn EventTrace.eventId
      correlations := correlations.sortOn correlationTraceKey }
  refine ⟨d, ?_, rfl, (List.length_sortOn).trans hlength⟩
  simp only [evaluateClaim, ClaimDecision.make, checkSigned, bind_eq_ok, valid_eq_ok, exists_unit]
  refine ⟨weighted, hweighted, selections, hcollapse, (support, contradict), hsummarize, trace, htrace,
    correlations, hcorrelations, hsupport, hcontradict, margin_mem hscore hscore', ?_, ?_, ?_, rfl⟩
  · rw [((List.sortOn_perm _ trace).map _).nodup_iff, htraceIds]
    exact hids
  · intro t ht
    exact htraceClaims t (List.mem_sortOn.mp ht)
  · rw [((List.sortOn_perm _ correlations).map _).nodup_iff, hcorrelationKeys]
    exact hkeys

/-! ## Reliability updates -/

/-- A record of sorted identifiers can be traced. -/
theorem exists_fromAdjustment {a : ReliabilityAdjustment ℚ} (hdeclared : InUnit a.declaredReliability)
    (hposterior : InUnit a.posteriorReliability) (happlied : InUnit a.appliedReliability)
    (hcorrect : a.correctEventIds.Nodup) (hincorrect : a.incorrectEventIds.Nodup)
    (hdisjoint : ∀ id ∈ a.correctEventIds, id ∉ a.incorrectEventIds)
    (hne : a.correctEventIds ≠ [] ∨ a.incorrectEventIds ≠ []) :
    ∃ u, ReliabilityUpdateTrace.fromAdjustment a = .ok u := by
  simp only [ReliabilityUpdateTrace.fromAdjustment, checkUnit, checkSigned, bind_eq_ok, valid_eq_ok,
    exists_unit, canonicalTexts_eq_ok]
  refine ⟨_, hdeclared, hposterior, happlied, margin_mem happlied hdeclared, _, ⟨hcorrect, rfl⟩, _,
    ⟨hincorrect, rfl⟩, ?_, ⟨?_, ?_⟩, ?_, ?_, rfl⟩
  · simpa only [List.mem_sortOn] using hdisjoint
  · rw [List.length_sortOn]
  · rw [List.length_sortOn]
  · simpa only [ne_eq, List.length_eq_zero_iff] using hne
  · exact (LawfulArithmetic.stable_stable _).symm

/-- Every record has a trace. -/
theorem exists_updateTrace (policy : Policy) (rule : ReliabilityUpdatePolicy)
    {adjudications : List Adjudication} (hdistinct : (adjudications.map (·.eventId)).Nodup) {source : Text}
    (hsource : source ∈ adjudications.map (·.source)) :
    ∃ u, ReliabilityUpdateTrace.fromAdjustment (sourceAdjustment policy rule adjudications source) = .ok u := by
  obtain ⟨hzero, hone⟩ := declared_mem_unit policy source
  have hnodup : ∀ verdict, ((verdictIds adjudications source verdict).sortOn id).Nodup := fun verdict =>
    List.nodup_sortOn.mpr (hdistinct.sublist (List.filter_sublist.map _))
  apply exists_fromAdjustment (a := sourceAdjustment policy rule adjudications source) ⟨hzero, hone⟩
    (posterior_mem_unit rule hzero hone _ _) (moved_mem_unit rule policy source _ _) (hnodup .correct)
    (hnodup .incorrect)
  · simpa only [sourceAdjustment, List.mem_sortOn] using verdictIds_disjoint hdistinct source
  · simpa only [sourceAdjustment, ne_eq, ← List.length_eq_zero_iff, List.length_sortOn] using
      verdictIds_ne_nil hsource

/-- **Distinct adjudications** move every reliability within `[0, 1]`. -/
theorem exists_adjustments (policy : Policy) {adjudications : List Adjudication}
    (hdistinct : (adjudications.map (·.eventId)).Nodup) :
    ∃ (adjustments : List (ReliabilityAdjustment ℚ)) (updates : Option (List (ReliabilityUpdateTrace ℚ))),
      adjustReliabilities policy adjudications = .ok adjustments ∧
      updateTraces policy adjustments = .ok updates ∧
      (∀ source, ∀ x ∈ reliabilityOf adjustments source, InUnit x) ∧
      ((updates.getD []).map ReliabilityUpdateTrace.source).Nodup := by
  rcases hrule : policy.reliabilityUpdates with _ | rule
  · refine ⟨[], none, ?_, ?_, fun source x hx => ?_, List.nodup_nil⟩
    · simp only [adjustReliabilities, hrule]
    · simp only [updateTraces, hrule]
    · cases hx
  · have hadjust := adjustReliabilities_eq hrule hdistinct
    obtain ⟨traces, htraces⟩ := @List.exists_mapM _ _ _ ReliabilityUpdateTrace.fromAdjustment
      ((List.sortedSet (adjudications.map (·.source))).map (sourceAdjustment policy rule adjudications))
      fun a ha => by
        obtain ⟨source, hsource, rfl⟩ := List.mem_map.mp ha
        exact exists_updateTrace policy rule hdistinct (List.mem_sortedSet.mp hsource)
    refine ⟨_, some traces, hadjust, ?_, fun source x hx => ?_, ?_⟩
    · simp only [updateTraces, hrule, bind_eq_ok]
      exact ⟨traces, htraces, rfl⟩
    · obtain ⟨a, ha, rfl⟩ := Option.map_eq_some_iff.mp hx
      obtain ⟨adjudicated, -, rfl⟩ := List.mem_map.mp (List.mem_of_find?_eq_some ha)
      exact moved_mem_unit rule policy adjudicated _ _
    · have hsources : traces.map ReliabilityUpdateTrace.source =
          ((List.sortedSet (adjudications.map (·.source))).map
            (sourceAdjustment policy rule adjudications)).map ReliabilityAdjustment.source :=
        List.mapM_map_eq htraces fun a u hu => by
          simp only [ReliabilityUpdateTrace.fromAdjustment, bind_eq_ok, Except.ok.injEq] at hu
          obtain ⟨_, -, _, -, _, -, _, hu⟩ := hu
          obtain ⟨-, _, -, _, -, _, -, hu⟩ := hu
          obtain ⟨_, -, _, -, _, -, rfl⟩ := hu
          rfl
      rw [Option.getD_some, hsources, List.map_map]
      exact (List.map_id _).symm ▸ List.nodup_sortedSet _

/-! ## Results -/

section Results

variable {exp2 : ℚ → ℚ} (hexp : Decays exp2)
include hexp

/-- **Validated inputs evaluate.** -/
theorem exists_evaluate {policy : Policy} {events : List EvidenceEvent}
    (hvalid : ValidEvents ℚ policy events) {adjudications : List Adjudication}
    (hjudged : ValidAdjudications policy events adjudications) (asOf : Datetime) :
    ∃ r, evaluate exp2 policy events asOf adjudications = .ok r := by
  obtain ⟨adjustments, updates, hadjust, hupdates, hreliabilities, hsources⟩ :=
    exists_adjustments policy
      (hjudged.distinct.sublist (List.filter_sublist.map _) :
        ((knowable adjudications asOf).map (·.eventId)).Nodup)
  have hdecision : ∀ kv : Text × ClaimRule, ∃ d, evaluateClaim exp2 kv.1 kv.2 (visibleOf events asOf kv.1)
      policy asOf (reliabilityOf adjustments) = .ok d ∧ d.claim = kv.1 ∧
        d.trace.length = (visibleOf events asOf kv.1).length := fun kv => by
    apply exists_decision hexp hreliabilities
    · exact (hvalid.sublist (visibleOf_sublist events asOf kv.1)).distinct
    · intro e he
      have hvisible : e.ingestedAt ≤ asOf := by
        simpa using (List.mem_filter.mp (List.mem_filter.mp he).1).2
      exact skew_of_visible hvalid ((visibleOf_sublist events asOf kv.1).subset he) hvisible
    · intro e he
      simpa using (List.mem_filter.mp he).2
  obtain ⟨decisions, hdecisions⟩ : ∃ decisions, (policy.claims.items.sortOn Prod.fst).mapM (fun kv =>
      evaluateClaim exp2 kv.1 kv.2 (visibleOf events asOf kv.1) policy asOf
        (reliabilityOf adjustments)) = .ok decisions :=
    List.exists_mapM fun kv _ => (hdecision kv).imp fun _ hd => hd.1
  have hkey : ∀ (kv : Text × ClaimRule) d, evaluateClaim exp2 kv.1 kv.2 (visibleOf events asOf kv.1) policy asOf
      (reliabilityOf adjustments) = .ok d → d.claim = kv.1 ∧
        d.trace.length = (visibleOf events asOf kv.1).length := fun kv d hd => by
    obtain ⟨d', hd', hread⟩ := hdecision kv
    obtain rfl : d = d' := Except.ok.inj (hd.symm.trans hd')
    exact hread
  have hkeys : ((policy.claims.items.sortOn Prod.fst).map Prod.fst).Nodup :=
    ((List.sortOn_perm _ _).map _).nodup_iff.mpr policy.claims.nodup
  have hclaims : decisions.map ClaimDecision.claim = (policy.claims.items.sortOn Prod.fst).map Prod.fst :=
    List.mapM_map_eq hdecisions fun kv d hd => (hkey kv d hd).1
  have hlengths : (decisions.map fun d => d.trace.length) =
      ((policy.claims.items.sortOn Prod.fst).map Prod.fst).map fun claim =>
        (visibleOf events asOf claim).length := by
    rw [List.map_map]
    exact List.mapM_map_eq hdecisions fun kv d hd => (hkey kv d hd).2
  -- every visible event is of one configured claim
  have hsum : (decisions.map fun d => d.trace.length).sum =
      (events.filter fun e => e.ingestedAt ≤ asOf).length := by
    rw [hlengths]
    apply List.sum_length_filter hkeys
    intro e he
    rw [((List.sortOn_perm _ _).map _).mem_iff]
    exact hvalid.configured e (List.mem_of_mem_filter he)
  have hcount : (events.filter fun e => e.ingestedAt ≤ asOf).length +
      (events.filter fun e => asOf < e.ingestedAt).length = events.length := by
    have hsplit := List.length_eq_length_filter_add (l := events) fun e => decide (e.ingestedAt ≤ asOf)
    rw [hsplit]
    apply congrArg
    apply congrArg
    apply List.filter_congr
    intro e _
    simp only [← not_le, decide_not]
  have hpending : (((events.filter fun e => asOf < e.ingestedAt).map (·.eventId)).sortOn id).Nodup :=
    List.nodup_sortOn.mpr (hvalid.distinct.sublist (List.filter_sublist.map _))
  have hsorted : ∀ items : List (ReliabilityUpdateTrace ℚ),
      ((items.sortOn ReliabilityUpdateTrace.source).map ReliabilityUpdateTrace.source).Nodup ↔
        (items.map ReliabilityUpdateTrace.source).Nodup := fun items =>
    ((List.sortOn_perm _ items).map _).nodup_iff
  have hmake : ∃ r, EvaluationResult.make
      { policyId := policy.policyId, evaluatedAt := asOf, inputEventCount := events.length
        consideredEventCount := (events.filter fun e => e.ingestedAt ≤ asOf).length
        pendingEventIds := ((events.filter fun e => asOf < e.ingestedAt).map (·.eventId)).sortOn id
        decisions, reliabilityUpdates := updates } = .ok r := by
    simp only [EvaluationResult.make, bind_eq_ok, valid_eq_ok, exists_unit, canonicalTexts_eq_ok]
    refine ⟨_, List.length_filter_le _ _, _, ⟨hpending, rfl⟩, ?_, ?_, ?_, ?_, rfl⟩
    · simpa only [List.length_sortOn, List.length_map] using hcount
    · rw [((List.sortOn_perm _ decisions).map _).nodup_iff, hclaims]
      exact hkeys
    · rw [((List.sortOn_perm _ decisions).map _).sum_eq]
      exact hsum
    · cases updates with
      | none => exact List.nodup_nil
      | some items => exact (hsorted items).mpr hsources
  obtain ⟨r, hmake⟩ := hmake
  exact ⟨r, evaluate_eq_ok.mpr
    ⟨hvalid, hjudged, adjustments, decisions, updates, hadjust, hdecisions, hupdates, hmake⟩⟩

/-- **Validated inputs always evaluate**, and only they do. -/
theorem evaluates_iff (policy : Policy) (events : List EvidenceEvent) (adjudications : List Adjudication)
    (asOf : Datetime) :
    (∃ r, evaluate exp2 policy events asOf adjudications = .ok r) ↔
      (∃ accepted, validateEventSet ℚ policy events = .ok accepted) ∧
      ∃ accepted, validateAdjudicationSet policy events adjudications = .ok accepted := by
  constructor
  · rintro ⟨r, hr⟩
    obtain ⟨hvalid, hjudged, -⟩ := evaluate_eq_ok.mp hr
    exact ⟨⟨events, validateEventSet_eq_ok.mpr ⟨hvalid, rfl⟩⟩, adjudications,
      (validateAdjudicationSet_eq_ok hvalid.distinct).mpr ⟨hjudged, rfl⟩⟩
  · rintro ⟨⟨accepted, haccepted⟩, judged, hjudgedOk⟩
    obtain ⟨hvalid, -⟩ := validateEventSet_eq_ok.mp haccepted
    obtain ⟨hjudged, -⟩ := (validateAdjudicationSet_eq_ok hvalid.distinct).mp hjudgedOk
    exact exists_evaluate hexp hvalid hjudged asOf

end Results

theorem decays_integerPower : Decays integerPower := by
  intro x hx
  have hfloor : ⌊x⌋ ≤ 0 := by
    have hle := Int.floor_le_floor hx
    rwa [Int.floor_zero] at hle
  exact ⟨zpow_nonneg zero_le_two _, zpow_le_one_of_nonpos₀ one_le_two hfloor⟩

/-- The balanced events are accepted, and evaluate. -/
theorem evaluates_balanced : (∃ r, evaluate integerPower balancedPolicy balancedEvents ⟨0, by decide⟩ [] = .ok r) ↔
      (∃ accepted, validateEventSet ℚ balancedPolicy balancedEvents = .ok accepted) ∧
      ∃ accepted, validateAdjudicationSet balancedPolicy balancedEvents [] = .ok accepted :=
  evaluates_iff decays_integerPower balancedPolicy balancedEvents [] ⟨0, by decide⟩

end EvidenceBraid
