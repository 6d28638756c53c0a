import EvidenceBraid.OrderIndependence
import EvidenceBraid.Grouping

/-!
# Support and contradiction are dual

**Theorem (`signal_duality`).** Flip the signal of every event, and swap the thresholds of every claim
rule. Then every decision becomes its mirror image: its summaries change places, its margin is
negated, and it is escalated where it was rejected. A review stays a review.

**Idea.** Every stage commutes with flipping. Nothing that an event is weighted, grouped or ranked by
is its signal. Selections are sorted by group before signal, so those of one signal keep their order.
Of the two outcomes at most one is backed alone, and flipping exchanges the two.

The reason for a review is not mirrored: where both scores are met and both gates fail it names
support either way.
-/

namespace EvidenceBraid

open Arithmetic

variable {N : Type} [Arithmetic N]

/-! ## Mirror images -/

def Signal.flip : Signal → Signal
  | support => contradict
  | contradict => support

@[simp] theorem Signal.flip_flip (s : Signal) : s.flip.flip = s := by
  cases s <;> rfl

theorem Signal.flip_eq_iff {s t : Signal} : s.flip = t ↔ s = t.flip := by
  cases s <;> cases t <;> decide

def Outcome.flip : Outcome → Outcome
  | escalate => reject
  | reject => escalate
  | review => review

def EvidenceEvent.flip (e : EvidenceEvent) : EvidenceEvent := { e with signal := e.signal.flip }

/-- A rule that asks of support what was asked of contradiction. -/
def ClaimRule.swapped (r : ClaimRule) : ClaimRule :=
  { r with supportThreshold := r.contradictionThreshold, contradictionThreshold := r.supportThreshold }

/-- The policy with every claim rule swapped. -/
def Policy.swapped (p : Policy) : Policy :=
  { p with
    claims := ⟨p.claims.items.map fun kv => (kv.1, kv.2.swapped), by
      rw [List.map_map]
      exact p.claims.nodup⟩
    claims_ne := by simpa using p.claims_ne }

def WeightedEvent.flip (w : WeightedEvent N) : WeightedEvent N := { w with event := w.event.flip }

def CorrelationSelection.flip (s : CorrelationSelection N) : CorrelationSelection N :=
  ⟨s.groupId, s.signal.flip, s.representative.flip, s.suppressed.map WeightedEvent.flip⟩

def SignalSummary.flip (s : SignalSummary N) : SignalSummary N := { s with signal := s.signal.flip }

def EventTrace.flip (t : EventTrace N) : EventTrace N := { t with signal := t.signal.flip }

def CorrelationTrace.flip (c : CorrelationTrace N) : CorrelationTrace N :=
  { c with signal := c.signal.flip }

/-- **A decision and its mirror image.** -/
structure ClaimDecision.Mirrors (d d' : ClaimDecision N) : Prop where
  claim : d'.claim = d.claim
  outcome : d'.outcome = d.outcome.flip
  support : d'.support = d.contradict.flip
  contradict : d'.contradict = d.support.flip
  margin : d'.margin = -d.margin
  trace : d'.trace = d.trace.map EventTrace.flip
  correlations : d'.correlations.Perm (d.correlations.map CorrelationTrace.flip)

/-- Results that differ in their decisions only, which mirror each other. -/
structure EvaluationResult.Mirrors (r r' : EvaluationResult N) : Prop where
  same : { r' with decisions := r.decisions } = r
  decisions : List.Forall₂ ClaimDecision.Mirrors r.decisions r'.decisions

theorem EvidenceEvent.flip_flip (e : EvidenceEvent) : e.flip.flip = e := by
  simp only [EvidenceEvent.flip, Signal.flip_flip]

theorem Policy.swapped_swapped (p : Policy) : p.swapped.swapped = p := by
  have hitems : (p.claims.items.map fun kv => (kv.1, kv.2.swapped)).map (fun kv => (kv.1, kv.2.swapped)) =
      p.claims.items := by
    rw [List.map_map]
    exact List.map_id _
  simp only [Policy.swapped, hitems]

omit [Arithmetic N] in
theorem WeightedEvent.flip_flip (w : WeightedEvent N) : w.flip.flip = w := by
  simp only [WeightedEvent.flip, EvidenceEvent.flip, Signal.flip_flip]

omit [Arithmetic N] in
theorem CorrelationSelection.flip_injective :
    Function.Injective (CorrelationSelection.flip : CorrelationSelection N → CorrelationSelection N) := by
  apply Function.Involutive.injective
  intro s
  have hsuppressed : (s.suppressed.map WeightedEvent.flip).map WeightedEvent.flip = s.suppressed := by
    rw [List.map_map]
    exact (List.map_congr_left fun w _ => w.flip_flip).trans (List.map_id _)
  simp only [CorrelationSelection.flip, Signal.flip_flip, WeightedEvent.flip_flip, hsuppressed]

/-! ## Weighting and grouping -/

theorem weightEvent_flip {exp2 : N → N} {event : EvidenceEvent} {policy : Policy} {asOf : Datetime}
    {reliability : Option N} {w : WeightedEvent N}
    (h : weightEvent exp2 event policy asOf reliability = .ok w) :
    weightEvent exp2 event.flip policy.swapped asOf reliability = .ok w.flip := by
  simp only [weightEvent, WeightedEvent.make, checkNonnegative, checkUnit, bind_eq_ok, valid_eq_ok,
    exists_unit, Except.ok.injEq] at h ⊢
  obtain ⟨hskew, hage, hsource, hdecay, heffective, rfl⟩ := h
  exact ⟨hskew, hage, hsource, hdecay, heffective, rfl⟩

theorem weightEvents_flip {exp2 : N → N} {events : List EvidenceEvent} {policy : Policy}
    {asOf : Datetime} {reliabilities : Text → Option N} {weighted : List (WeightedEvent N)}
    (h : weightEvents exp2 events policy asOf reliabilities = .ok weighted) :
    weightEvents exp2 (events.map EvidenceEvent.flip) policy.swapped asOf reliabilities =
      .ok (weighted.map WeightedEvent.flip) := by
  simp only [weightEvents, bind_eq_ok, Except.ok.injEq] at h ⊢
  obtain ⟨unsorted, hunsorted, rfl⟩ := h
  refine ⟨unsorted.map WeightedEvent.flip, ?_, List.sortOn_map _ _ _⟩
  rw [List.mapM_eq_ok] at hunsorted ⊢
  rw [List.forall₂_map_left_iff, List.forall₂_map_right_iff]
  exact hunsorted.imp fun _ _ hw => weightEvent_flip hw

omit [Arithmetic N] in
theorem members_flip (events : List (WeightedEvent N)) (group : Text) (signal : Signal) :
    members (events.map WeightedEvent.flip) (group, signal.flip) =
      (members events (group, signal)).map WeightedEvent.flip := by
  rw [members, List.filter_map, members]
  apply congrArg
  apply List.filter_congr
  intro w _
  have hsignal : w.event.signal.flip = signal.flip ↔ w.event.signal = signal := by
    rw [Signal.flip_eq_iff, Signal.flip_flip]
  have hkey : bucketKey w.flip = (group, signal.flip) ↔ bucketKey w = (group, signal) := by
    simp only [bucketKey, Prod.mk.injEq]
    exact and_congr_right fun _ => hsignal
  simp only [Function.comp_apply, hkey]

omit [Arithmetic N] in
theorem selectionKey_le {s t : CorrelationSelection N} (h : s.signal = t.signal) :
    selectionKey s ≤ selectionKey t ↔ s.groupId ≤ t.groupId := by
  rw [Prod.Lex.le_iff]
  show s.groupId < t.groupId ∨ s.groupId = t.groupId ∧ s.signal.value ≤ t.signal.value ↔ _
  rw [h, le_iff_lt_or_eq (a := s.groupId)]
  exact or_congr_right (and_iff_left le_rfl)

section Distinct

variable {events : List (WeightedEvent N)} (hdistinct : (events.map WeightedEvent.eventId).Nodup)
include hdistinct

omit [Arithmetic N] in
theorem nodup_flip : ((events.map WeightedEvent.flip).map WeightedEvent.eventId).Nodup := by
  rw [List.map_map]
  exact hdistinct

theorem select_flip {group : Text} {signal : Signal} {s : CorrelationSelection N}
    (h : selectStrongest ((group, signal), members events (group, signal)) = .ok s) :
    selectStrongest ((group, signal.flip), members (events.map WeightedEvent.flip) (group, signal.flip)) =
      .ok s.flip := by
  obtain ⟨representative, rest, hsort, rfl⟩ := (select_members_eq_ok hdistinct).mp h
  refine (select_members_eq_ok (nodup_flip hdistinct)).mpr
    ⟨representative.flip, rest.map WeightedEvent.flip, ?_, ?_⟩
  · rw [members_flip, List.sortOn_map]
    exact (congrArg (List.map WeightedEvent.flip) hsort).trans rfl
  · rw [List.sortOn_map]
    rfl

/-- **Flipped events have flipped selections.** -/
theorem collapse_flip {selections selections' : List (CorrelationSelection N)}
    (h : collapseCorrelated events = .ok selections)
    (h' : collapseCorrelated (events.map WeightedEvent.flip) = .ok selections') :
    selections'.Perm (selections.map CorrelationSelection.flip) := by
  obtain ⟨s₁, hs₁, -, hnodup, hmem⟩ := exists_collapseCorrelated hdistinct
  obtain ⟨s₂, hs₂, -, hnodup', hmem'⟩ := exists_collapseCorrelated (nodup_flip hdistinct)
  obtain rfl : selections = s₁ := Except.ok.inj (h.symm.trans hs₁)
  obtain rfl : selections' = s₂ := Except.ok.inj (h'.symm.trans hs₂)
  rw [List.perm_ext_iff_of_nodup hnodup'.of_map (hnodup.of_map.map CorrelationSelection.flip_injective)]
  intro s'
  rw [hmem', List.mem_map]
  constructor
  · rintro ⟨⟨group, signal⟩, hkey, hselect'⟩
    obtain ⟨w', hw', hbucket⟩ := List.mem_map.mp hkey
    obtain ⟨w, hw, rfl⟩ := List.mem_map.mp hw'
    have hold : bucketKey w = (group, signal.flip) := by
      obtain ⟨hgroup, hsignal⟩ := Prod.mk.inj hbucket
      exact Prod.ext hgroup (Signal.flip_eq_iff.mp hsignal)
    have hmember : (group, signal.flip) ∈ events.map bucketKey := hold ▸ List.mem_map_of_mem hw
    obtain ⟨s, hselect⟩ := exists_select_members hdistinct hmember
    have hflipped := select_flip hdistinct hselect
    rw [Signal.flip_flip] at hflipped
    exact ⟨s, (hmem s).mpr ⟨_, hmember, hselect⟩, Except.ok.inj (hflipped.symm.trans hselect')⟩
  · rintro ⟨s, hs, rfl⟩
    obtain ⟨⟨group, signal⟩, hkey, hselect⟩ := (hmem s).mp hs
    obtain ⟨w, hw, hbucket⟩ := List.mem_map.mp hkey
    obtain ⟨hgroup, hsignal⟩ := Prod.mk.inj hbucket
    refine ⟨(group, signal.flip), ?_, select_flip hdistinct hselect⟩
    exact List.mem_map.mpr ⟨w.flip, List.mem_map_of_mem hw,
      Prod.ext hgroup (congrArg Signal.flip hsignal)⟩

/-- **One signal's selections** keep their order. -/
theorem matching_flip {selections selections' : List (CorrelationSelection N)}
    (h : collapseCorrelated events = .ok selections)
    (h' : collapseCorrelated (events.map WeightedEvent.flip) = .ok selections') (signal : Signal) :
    matching signal.flip selections' = (matching signal selections).map CorrelationSelection.flip := by
  obtain ⟨s₁, hs₁, hsorted, -⟩ := exists_collapseCorrelated hdistinct
  obtain ⟨s₂, hs₂, hsorted', hnodup', -⟩ := exists_collapseCorrelated (nodup_flip hdistinct)
  obtain rfl : selections = s₁ := Except.ok.inj (h.symm.trans hs₁)
  obtain rfl : selections' = s₂ := Except.ok.inj (h'.symm.trans hs₂)
  have hfilter : matching signal.flip (selections.map CorrelationSelection.flip) =
      (matching signal selections).map CorrelationSelection.flip := by
    rw [matching, List.filter_map, matching]
    apply congrArg
    apply List.filter_congr
    intro s _
    have hsignal : s.flip.signal = signal.flip ↔ s.signal = signal := by
      rw [← Signal.flip_eq_iff, CorrelationSelection.flip, Signal.flip_flip]
    simp only [Function.comp_apply, hsignal]
  have hperm : (matching signal.flip selections').Perm
      ((matching signal selections).map CorrelationSelection.flip) :=
    hfilter ▸ (collapse_flip hdistinct h h').filter _
  have hkeys : ((matching signal.flip selections').map selectionKey).Nodup :=
    hnodup'.sublist (List.filter_sublist.map _)
  apply List.eq_of_perm_of_sortedOn hperm hkeys (hsorted'.filter _)
  rw [List.pairwise_map]
  apply (hsorted.filter _).imp_of_mem
  intro s t hs ht hle
  have hsame : s.signal = t.signal := by
    simp only [List.mem_filter, decide_eq_true_eq] at hs ht
    exact hs.2.trans ht.2.symm
  rw [selectionKey_le (congrArg Signal.flip hsame)]
  exact (selectionKey_le hsame).mp hle

end Distinct

/-! ## Summaries and outcomes -/

theorem summarizeSignal_flip {signal : Signal} {selections selections' : List (CorrelationSelection N)}
    {rule : ClaimRule} {s : SignalSummary N}
    (hmatching : matching signal.flip selections' =
      (matching signal selections).map CorrelationSelection.flip)
    (h : summarizeSignal signal selections rule = .ok s) :
    summarizeSignal signal.flip selections' rule.swapped = .ok s.flip := by
  have hqualifying : qualifying rule.swapped ((matching signal selections).map CorrelationSelection.flip) =
      (qualifying rule (matching signal selections)).map CorrelationSelection.flip := by
    rw [qualifying, List.filter_map]
    rfl
  simp only [summarizeSignal, SignalSummary.make, checkUnit, bind_eq_ok, valid_eq_ok, exists_unit,
    Except.ok.injEq, canonicalTexts_eq_ok] at h ⊢
  simp only [hmatching, hqualifying, signalScore, List.map_map, List.length_map]
  obtain ⟨hscore, groups, hgroups, hlength, rfl⟩ := h
  exact ⟨hscore, groups, hgroups, hlength, rfl⟩

theorem summarize_flip {selections selections' : List (CorrelationSelection N)} {rule : ClaimRule}
    {summaries : SignalSummary N × SignalSummary N}
    (hmatching : ∀ signal : Signal, matching signal.flip selections' =
      (matching signal selections).map CorrelationSelection.flip)
    (h : summarize selections rule = .ok summaries) :
    summarize selections' rule.swapped = .ok (summaries.2.flip, summaries.1.flip) := by
  simp only [summarize, bind_eq_ok, Except.ok.injEq] at h ⊢
  obtain ⟨support, hsupport, contradict, hcontradict, rfl⟩ := h
  have hfirst := summarizeSignal_flip (hmatching .contradict) hcontradict
  have hsecond := summarizeSignal_flip (hmatching .support) hsupport
  exact ⟨_, hfirst, _, hsecond, rfl⟩

/-- The margin that an outcome is chosen by. -/
def outcomeMargin (support contradict : SignalSummary N) : N :=
  stable (stable support.score - stable contradict.score)

/-- A signal calls for its outcome. -/
def Calls (rule : ClaimRule) (s : SignalSummary N) (threshold : Number .unit) (margin : N) : Prop :=
  s.gatePassed = true ∧ stable (ofNumber threshold) ≤ stable s.score ∧
    stable (ofNumber rule.minMargin) ≤ margin

/-- A confident outcome is called for by its signal alone. -/
theorem chooseOutcome_iff (support contradict : SignalSummary N) (rule : ClaimRule) :
    let escalates := Calls rule support rule.supportThreshold (outcomeMargin support contradict)
    let rejects := Calls rule contradict rule.contradictionThreshold (-outcomeMargin support contradict)
    ((chooseOutcome support contradict rule).1 = .escalate ↔ escalates ∧ ¬ rejects) ∧
      ((chooseOutcome support contradict rule).1 = .reject ↔ rejects ∧ ¬ escalates) := by
  simp only [Calls, outcomeMargin]
  rw [chooseOutcome]
  exact confident_iff (review_ite rfl (review_ite rfl (review_ite rfl rfl)))

theorem Outcome.eq_flip {o o' : Outcome} (hescalate : o' = .escalate ↔ o = .reject)
    (hreject : o' = .reject ↔ o = .escalate) : o' = o.flip := by
  cases o <;> cases o' <;> simp_all [Outcome.flip]

section Symmetric

variable [SymmetricArithmetic N]

/-- **Outcomes are exchanged.** -/
theorem chooseOutcome_flip (support contradict : SignalSummary N) (rule : ClaimRule) :
    (chooseOutcome contradict.flip support.flip rule.swapped).1 =
      (chooseOutcome support contradict rule).1.flip := by
  have hmargin : outcomeMargin contradict.flip support.flip = -outcomeMargin support contradict := by
    rw [outcomeMargin, outcomeMargin, ← SymmetricArithmetic.stable_neg, SymmetricArithmetic.neg_sub]
    rfl
  obtain ⟨hescalate, hreject⟩ := chooseOutcome_iff support contradict rule
  obtain ⟨hescalate', hreject'⟩ := chooseOutcome_iff contradict.flip support.flip rule.swapped
  rw [hmargin, SymmetricArithmetic.neg_neg] at hescalate' hreject'
  exact Outcome.eq_flip (hescalate'.trans hreject.symm) (hreject'.trans hescalate.symm)

end Symmetric

/-! ## Traces -/

theorem eventTrace_flip {w : WeightedEvent N} {t : EventTrace N} (h : EventTrace.fromWeighted w = .ok t) :
    EventTrace.fromWeighted w.flip = .ok t.flip := by
  simp only [EventTrace.fromWeighted, checkNonnegative, checkUnit, bind_eq_ok, valid_eq_ok, exists_unit,
    Except.ok.injEq] at h ⊢
  obtain ⟨hsource, hdecay, heffective, hage, rfl⟩ := h
  exact ⟨hsource, hdecay, heffective, hage, rfl⟩

theorem correlationTrace_flip {s : CorrelationSelection N} {c : CorrelationTrace N}
    (h : CorrelationTrace.fromSelection s = .ok c) :
    CorrelationTrace.fromSelection s.flip = .ok c.flip := by
  have hids : s.flip.suppressed.map WeightedEvent.eventId = s.suppressed.map WeightedEvent.eventId := by
    rw [CorrelationSelection.flip, List.map_map]
    rfl
  simp only [CorrelationTrace.fromSelection, checkUnit, bind_eq_ok, valid_eq_ok, exists_unit,
    Except.ok.injEq, hids] at h ⊢
  obtain ⟨hconfidence, suppressed, hsuppressed, hself, rfl⟩ := h
  exact ⟨hconfidence, suppressed, hsuppressed, hself, rfl⟩

omit [Arithmetic N] in
theorem correlationKeys_flip {correlations : List (CorrelationTrace N)}
    (h : (correlations.map correlationTraceKey).Nodup) :
    ((correlations.map CorrelationTrace.flip).map correlationTraceKey).Nodup := by
  rw [List.map_map]
  apply h.of_map.map_on
  intro c hc c' hc' hkey
  obtain ⟨hgroup, hsignal⟩ := Prod.mk.inj (toLex.injective hkey)
  have hsame : c.signal = c'.signal := by
    rw [← Signal.flip_flip c.signal, ← Signal.flip_flip c'.signal]
    exact congrArg Signal.flip (Signal.value_injective hsignal)
  apply List.inj_on_of_nodup_map h hc hc'
  rw [correlationTraceKey, correlationTraceKey, hsame]
  exact congrArg (fun g => (toLex (g, c'.signal.value) : Text ×ₗ String)) hgroup

/-! ## Decisions -/

theorem eventIds_of_weightEvents {exp2 : N → N} {events : List EvidenceEvent} {policy : Policy}
    {asOf : Datetime} {reliabilities : Text → Option N} {weighted : List (WeightedEvent N)}
    (h : weightEvents exp2 events policy asOf reliabilities = .ok weighted) :
    (weighted.map WeightedEvent.eventId).Perm (events.map (·.eventId)) := by
  simp only [weightEvents, bind_eq_ok, Except.ok.injEq] at h
  obtain ⟨unsorted, hunsorted, rfl⟩ := h
  have hids : unsorted.map WeightedEvent.eventId = events.map (·.eventId) :=
    List.mapM_map_eq hunsorted fun _ _ hw => congrArg EvidenceEvent.eventId (weightEvent_event hw)
  exact hids ▸ (List.sortOn_perm _ unsorted).map _

section Symmetric

variable [SymmetricArithmetic N]

theorem signed_neg {x : N} (h : -1 ≤ x ∧ x ≤ 1) : -1 ≤ -x ∧ -x ≤ 1 := by
  have hupper : -x ≤ -(-1) := (SymmetricArithmetic.neg_le_neg _ _).mpr h.1
  rw [SymmetricArithmetic.neg_neg] at hupper
  exact ⟨(SymmetricArithmetic.neg_le_neg _ _).mpr h.2, hupper⟩

/-- What mirrors an admitted decision is admitted. -/
theorem make_mirrors {s s' d : ClaimDecision N} (h : s.make = .ok d) (hmirrors : s.Mirrors s') :
    ∃ d', s'.make = .ok d' ∧ d.Mirrors d' := by
  simp only [ClaimDecision.make, checkSigned, bind_eq_ok, valid_eq_ok, exists_unit,
    Except.ok.injEq] at h ⊢
  obtain ⟨hsupport, hcontradict, hsigned, htrace, hclaims, hkeys, rfl⟩ := h
  have hsort : s'.trace.sortOn EventTrace.eventId =
      (s.trace.sortOn EventTrace.eventId).map EventTrace.flip := by
    rw [hmirrors.trace, List.sortOn_map]
    rfl
  have hperm : (s'.correlations.sortOn correlationTraceKey).Perm
      ((s.correlations.sortOn correlationTraceKey).map CorrelationTrace.flip) :=
    ((List.sortOn_perm _ _).trans hmirrors.correlations).trans ((List.sortOn_perm _ _).symm.map _)
  refine ⟨{ s' with
    trace := s'.trace.sortOn EventTrace.eventId
    correlations := s'.correlations.sortOn correlationTraceKey },
    ⟨?_, ?_, ?_, ?_, fun t ht => ?_, ?_, rfl⟩, ?_⟩
  · rw [hmirrors.support]
    exact congrArg Signal.flip hcontradict
  · rw [hmirrors.contradict]
    exact congrArg Signal.flip hsupport
  · rw [hmirrors.margin]
    exact signed_neg hsigned
  · rw [hsort, List.map_map]
    exact htrace
  · rw [hsort, List.mem_map] at ht
    obtain ⟨u, hu, rfl⟩ := ht
    exact (hclaims u hu).trans hmirrors.claim.symm
  · exact (hperm.map _).nodup_iff.mpr (correlationKeys_flip hkeys)
  · exact ⟨hmirrors.claim, hmirrors.outcome, hmirrors.support, hmirrors.contradict, hmirrors.margin,
      hsort, hperm⟩

/-- **A claim's decision is mirrored.** -/
theorem evaluateClaim_flip {exp2 : N → N} {claim : Text} {rule : ClaimRule} {events : List EvidenceEvent}
    {policy : Policy} {asOf : Datetime} {reliabilities : Text → Option N} {d : ClaimDecision N}
    (hdistinct : (events.map (·.eventId)).Nodup)
    (h : evaluateClaim exp2 claim rule events policy asOf reliabilities = .ok d) :
    ∃ d', evaluateClaim exp2 claim rule.swapped (events.map EvidenceEvent.flip) policy.swapped asOf
      reliabilities = .ok d' ∧ d.Mirrors d' := by
  rw [evaluateClaim, bind_eq_ok] at h
  obtain ⟨weighted, hweighted, h⟩ := h
  simp only [bind_eq_ok] at h
  obtain ⟨selections, hcollapse, ⟨support, contradict⟩, hsummarize, trace, htrace, correlations,
    hcorrelations, hmake⟩ := h
  have hids : (weighted.map WeightedEvent.eventId).Nodup :=
    (eventIds_of_weightEvents hweighted).nodup_iff.mpr hdistinct
  obtain ⟨selections', hcollapse', -⟩ := exists_collapseCorrelated (nodup_flip hids)
  have hsummarize' := summarize_flip (matching_flip hids hcollapse hcollapse') hsummarize
  have htrace' : (weighted.map WeightedEvent.flip).mapM EventTrace.fromWeighted =
      .ok (trace.map EventTrace.flip) := by
    rw [List.mapM_eq_ok] at htrace ⊢
    rw [List.forall₂_map_left_iff, List.forall₂_map_right_iff]
    exact htrace.imp fun _ _ ht => eventTrace_flip ht
  have hflipped : (selections.map CorrelationSelection.flip).mapM CorrelationTrace.fromSelection =
      .ok (correlations.map CorrelationTrace.flip) := by
    rw [List.mapM_eq_ok] at hcorrelations ⊢
    rw [List.forall₂_map_left_iff, List.forall₂_map_right_iff]
    exact hcorrelations.imp fun _ _ hc => correlationTrace_flip hc
  obtain ⟨correlations', hcorrelations', hperm⟩ :=
    List.mapM_perm (collapse_flip hids hcollapse hcollapse') hflipped
  have hmargin : stable (contradict.score - support.score) = -stable (support.score - contradict.score) := by
    rw [← SymmetricArithmetic.stable_neg, SymmetricArithmetic.neg_sub]
  let mirrored : ClaimDecision N :=
    { claim, outcome := (chooseOutcome contradict.flip support.flip rule.swapped).1
      reason := (chooseOutcome contradict.flip support.flip rule.swapped).2
      support := contradict.flip, contradict := support.flip
      margin := stable (contradict.score - support.score)
      trace := trace.map EventTrace.flip, correlations := correlations' }
  obtain ⟨d', hmake', hmirrors⟩ := @make_mirrors N _ _ _ mirrored _ hmake
    ⟨rfl, chooseOutcome_flip support contradict rule, rfl, rfl, hmargin, rfl, hperm⟩
  refine ⟨d', ?_, hmirrors⟩
  simp only [evaluateClaim, bind_eq_ok]
  exact ⟨_, weightEvents_flip hweighted, selections', hcollapse', _, hsummarize', _, htrace',
    correlations', hcorrelations', hmake'⟩

/-! ## Results -/

theorem visibleOf_flip (events : List EvidenceEvent) (asOf : Datetime) (claim : Text) :
    visibleOf (events.map EvidenceEvent.flip) asOf claim =
      (visibleOf events asOf claim).map EvidenceEvent.flip := by
  rw [visibleOf, List.filter_map, List.filter_map]
  rfl

omit [SymmetricArithmetic N] in
theorem ValidEvents.flip {policy : Policy} {events : List EvidenceEvent}
    (h : ValidEvents N policy events) :
    ValidEvents N policy.swapped (events.map EvidenceEvent.flip) where
  distinct := by
    rw [List.map_map]
    exact h.distinct
  configured e he := by
    obtain ⟨e₀, he₀, rfl⟩ := List.mem_map.mp he
    have hkeys : policy.swapped.claims.keys = policy.claims.keys := by
      rw [Dict.keys, Policy.swapped, List.map_map]
      rfl
    rw [hkeys]
    exact h.configured e₀ he₀
  skew e he := by
    obtain ⟨e₀, he₀, rfl⟩ := List.mem_map.mp he
    exact h.skew e₀ he₀

theorem ValidAdjudications.flip {policy : Policy} {events : List EvidenceEvent}
    {adjudications : List Adjudication} (h : ValidAdjudications policy events adjudications) :
    ValidAdjudications policy.swapped (events.map EvidenceEvent.flip) adjudications where
  maintained := h.maintained
  distinct := h.distinct
  declared := h.declared
  matched a ha e he hid := by
    obtain ⟨e₀, he₀, rfl⟩ := List.mem_map.mp he
    exact h.matched a ha e₀ he₀ hid

omit [SymmetricArithmetic N] in
theorem map_of_mirrors {β : Type} {g : ClaimDecision N → β} {decisions decisions' : List (ClaimDecision N)}
    (h : List.Forall₂ ClaimDecision.Mirrors decisions decisions')
    (hsame : ∀ d d', ClaimDecision.Mirrors d d' → g d' = g d) : decisions'.map g = decisions.map g := by
  induction h with
  | nil => rfl
  | cons hd _ ih => rw [List.map_cons, List.map_cons, hsame _ _ hd, ih]

omit [SymmetricArithmetic N] in
/-- Sorted decisions that mirror admitted ones are admitted. -/
theorem result_mirrors {s r : EvaluationResult N} {decisions' : List (ClaimDecision N)}
    (h : s.make = .ok r) (hsorted : s.decisions.Pairwise fun a b => a.claim ≤ b.claim)
    (hmirrors : List.Forall₂ ClaimDecision.Mirrors s.decisions decisions') :
    ∃ r', EvaluationResult.make { s with decisions := decisions' } = .ok r' ∧ r.Mirrors r' := by
  have hclaims : decisions'.map ClaimDecision.claim = s.decisions.map ClaimDecision.claim :=
    map_of_mirrors hmirrors fun _ _ hd => hd.claim
  have hlengths : (decisions'.map fun d => d.trace.length) = s.decisions.map fun d => d.trace.length :=
    map_of_mirrors hmirrors fun _ _ hd => by rw [hd.trace, List.length_map]
  have hsorted' : decisions'.Pairwise fun a b => a.claim ≤ b.claim := by
    rw [← List.pairwise_map] at hsorted ⊢
    rwa [hclaims]
  have hkept : s.decisions.sortOn ClaimDecision.claim = s.decisions := List.sortOn_of_pairwise hsorted
  have hkept' : decisions'.sortOn ClaimDecision.claim = decisions' := List.sortOn_of_pairwise hsorted'
  simp only [EvaluationResult.make, bind_eq_ok, valid_eq_ok, exists_unit, Except.ok.injEq, hkept] at h
  obtain ⟨hcount, pending, hpending, hconsidered, hnodup, hsum, hupdates, rfl⟩ := h
  simp only [EvaluationResult.make, bind_eq_ok, valid_eq_ok, exists_unit, Except.ok.injEq, hkept']
  refine ⟨_, ⟨hcount, pending, hpending, hconsidered, ?_, ?_, hupdates, rfl⟩, rfl, hmirrors⟩
  · rw [hclaims]
    exact hnodup
  · rw [hlengths]
    exact hsum

/-- What evaluation returns, it returns mirrored for flipped events. -/
theorem evaluate_flip {exp2 : N → N} {policy : Policy} {events : List EvidenceEvent} {asOf : Datetime}
    {adjudications : List Adjudication} {r : EvaluationResult N}
    (h : evaluate exp2 policy events asOf adjudications = .ok r) :
    ∃ r', evaluate exp2 policy.swapped (events.map EvidenceEvent.flip) asOf adjudications = .ok r' ∧
      r.Mirrors r' := by
  obtain ⟨hvalid, hjudged, adjustments, decisions, updates, hadjust, hdecisions, hupdates, hmake⟩ :=
    evaluate_eq_ok.mp h
  have hitems : policy.swapped.claims.items.sortOn Prod.fst =
      (policy.claims.items.sortOn Prod.fst).map fun kv => (kv.1, kv.2.swapped) := List.sortOn_map _ _ _
  obtain ⟨decisions', hdecisions', hmirrors⟩ := List.exists_mapM_related
    (k := fun kv : Text × ClaimRule => (kv.1, kv.2.swapped))
    (g := fun kv => evaluateClaim exp2 kv.1 kv.2 (visibleOf (events.map EvidenceEvent.flip) asOf kv.1)
      policy.swapped asOf (reliabilityOf adjustments))
    (R := ClaimDecision.Mirrors) hdecisions fun kv _ d hd => by
      obtain ⟨d', hd', hmirrors⟩ := evaluateClaim_flip
        (hvalid.sublist (visibleOf_sublist events asOf kv.1)).distinct hd
      exact ⟨d', by rwa [visibleOf_flip], hmirrors⟩
  have hclaims : decisions.map ClaimDecision.claim = (policy.claims.items.sortOn Prod.fst).map Prod.fst :=
    List.mapM_map_eq hdecisions fun kv d hd => claim_of_evaluateClaim hd
  have hsorted : decisions.Pairwise fun a b => a.claim ≤ b.claim := by
    rw [← List.pairwise_map, hclaims, List.pairwise_map]
    exact List.pairwise_sortOn _ _
  have hconsidered : ((events.map EvidenceEvent.flip).filter fun e => e.ingestedAt ≤ asOf).length =
      (events.filter fun e => e.ingestedAt ≤ asOf).length := by
    rw [List.filter_map, List.length_map]
    rfl
  have hpending : ((events.map EvidenceEvent.flip).filter fun e => asOf < e.ingestedAt).map (·.eventId) =
      (events.filter fun e => asOf < e.ingestedAt).map (·.eventId) := by
    rw [List.filter_map, List.map_map]
    rfl
  obtain ⟨r', hmake', hr'⟩ := result_mirrors hmake hsorted hmirrors
  refine ⟨r', evaluate_eq_ok.mpr ⟨hvalid.flip, hjudged.flip, adjustments, decisions', updates, hadjust, ?_,
    hupdates, ?_⟩, hr'⟩
  · rw [hitems]
    exact hdecisions'
  · rw [hconsidered, hpending, List.length_map]
    exact hmake'

/-- **Signal duality.** Flipping every signal and swapping the thresholds of every rule mirrors what
evaluation returns. Where one evaluation raises, so does the other. -/
theorem signal_duality (exp2 : N → N) (policy : Policy) (events : List EvidenceEvent) (asOf : Datetime)
    (adjudications : List Adjudication) :
    (∀ r, evaluate exp2 policy events asOf adjudications = .ok r →
      ∃ r', evaluate exp2 policy.swapped (events.map EvidenceEvent.flip) asOf adjudications = .ok r' ∧
        r.Mirrors r') ∧
    ∀ r', evaluate exp2 policy.swapped (events.map EvidenceEvent.flip) asOf adjudications = .ok r' →
      ∃ r, evaluate exp2 policy events asOf adjudications = .ok r ∧ r.Mirrors r' := by
  refine ⟨fun r => evaluate_flip, fun r' h' => ?_⟩
  have hevents : (events.map EvidenceEvent.flip).map EvidenceEvent.flip = events := by
    rw [List.map_map]
    exact (List.map_congr_left fun e _ => e.flip_flip).trans (List.map_id _)
  -- flipping twice gives the first evaluation back
  obtain ⟨r, hr, -⟩ := evaluate_flip h'
  rw [hevents, policy.swapped_swapped] at hr
  obtain ⟨r'', hr'', hmirrors⟩ := evaluate_flip hr
  obtain rfl : r'' = r' := Except.ok.inj (hr''.symm.trans h')
  exact ⟨r, hr, hmirrors⟩

end Symmetric

/-- The balanced claim, with its evidence flipped, is rejected where it was escalated. -/
theorem signal_duality_balanced : ∃ r r' : EvaluationResult ℚ,
    evaluate integerPower balancedPolicy balancedEvents ⟨0, by decide⟩ [] = .ok r ∧
    evaluate integerPower balancedPolicy.swapped (balancedEvents.map EvidenceEvent.flip)
      ⟨0, by decide⟩ [] = .ok r' ∧ r.Mirrors r' := by
  obtain ⟨r, -, hr, -⟩ := exists_balanced
  obtain ⟨r', hr', hmirrors⟩ :=
    (signal_duality integerPower balancedPolicy balancedEvents ⟨0, by decide⟩ []).1 r hr
  exact ⟨r, r', hr, hr', hmirrors⟩

end EvidenceBraid
