import EvidenceBraid.Grouping

/-!
# Echoes do not add up

`collapse_correlated` lets a group speak once for each signal.

**Theorem (`collapse_laws`).** Every event ends up in exactly one selection, that of its group and
signal, represented by the strongest event of the group. An event without a group is alone. Weaker
events that join a group on its side change neither summary and no outcome.

**Idea.** The events of a selection are the members of its group, so the selections partition the
events. A summary reads of a selection only its face: its group, its signal and its representative.
Echoes rank behind a representative that is already there, so they leave the faces as they are.
-/

namespace EvidenceBraid

open Arithmetic

variable {N : Type} [Arithmetic N]

/-! ## Keys -/

omit [Arithmetic N] in
/-- A group and an event never share a key. -/
theorem correlationKey_of_none {w v : WeightedEvent N} (hnone : w.event.correlationGroup = none)
    (hkey : correlationKey v = correlationKey w) : v.eventId = w.eventId := by
  have hchars : (correlationKey v).value.toList = (correlationKey w).value.toList := by rw [hkey]
  rcases hgroup : v.event.correlationGroup with _ | group
  · simp only [correlationKey, hnone, hgroup, Text.tagged, String.toList_ofList, List.cons.injEq,
      true_and, List.append_cancel_left_eq] at hchars
    exact Text.ext_iff.mpr (String.toList_inj.mp hchars)
  · simp only [correlationKey, hnone, hgroup, Text.tagged, String.toList_ofList, List.cons.injEq] at hchars
    exact absurd hchars.1 (by decide)

/-! ## What a selection promises -/

/-- A selection of one group and signal, by its strongest event. -/
structure CorrelationSelection.Sound (s : CorrelationSelection N) : Prop where
  key : ∀ w ∈ s.events, bucketKey w = (s.groupId, s.signal)
  strongest : ∀ w ∈ s.events, stable w.effectiveConfidence ≤ stable s.representative.effectiveConfidence
  /-- Among the strongest the representative has the least identifier. -/
  least : ∀ w ∈ s.events, stable w.effectiveConfidence = stable s.representative.effectiveConfidence →
    s.representative.eventId ≤ w.eventId
  alone : ∀ w ∈ s.events, w.event.correlationGroup = none → s.events = [w]

theorem stable_of_rankKey [SymmetricArithmetic N] {v w : WeightedEvent N} (h : rankKey v ≤ rankKey w) :
    stable w.effectiveConfidence ≤ stable v.effectiveConfidence ∧
      (stable w.effectiveConfidence = stable v.effectiveConfidence → v.eventId ≤ w.eventId) := by
  have hneg := SymmetricArithmetic.neg_le_neg (stable v.effectiveConfidence) (stable w.effectiveConfidence)
  rcases Prod.Lex.le_iff.mp h with hlt | ⟨heq, hid⟩
  · refine ⟨hneg.mp hlt.le, fun hsame => absurd hlt ?_⟩
    show ¬ -stable v.effectiveConfidence < -stable w.effectiveConfidence
    rw [hsame]
    exact lt_irrefl _
  · exact ⟨hneg.mp heq.le, fun _ => hid⟩

section Distinct

variable {events : List (WeightedEvent N)}
  (hdistinct : (events.map WeightedEvent.eventId).Nodup)
include hdistinct

/-- **The events of a selection** are the members of its group. -/
theorem events_of_select {key : Text × Signal} {s : CorrelationSelection N}
    (h : selectStrongest (key, members events key) = .ok s) : s.events.Perm (members events key) := by
  obtain ⟨representative, rest, hsort, rfl⟩ := (select_members_eq_ok hdistinct).mp h
  have hperm : (representative :: rest).Perm (members events key) := hsort ▸ List.sortOn_perm _ _
  exact ((List.sortOn_perm _ rest).cons _).trans hperm

theorem sound_of_select [SymmetricArithmetic N] {key : Text × Signal} {s : CorrelationSelection N}
    (h : selectStrongest (key, members events key) = .ok s) : s.Sound := by
  have hperm := events_of_select hdistinct h
  obtain ⟨hgroup, hsignal, -, hfirst⟩ := representative_of_select hdistinct h
  have hmember : ∀ w ∈ s.events, w ∈ events ∧ bucketKey w = key := fun w hw =>
    mem_members.mp (hperm.mem_iff.mp hw)
  refine ⟨fun w hw => ?_, fun w hw => ?_, fun w hw => ?_, fun w hw hnone => ?_⟩
  · rw [hgroup, hsignal]
    exact (hmember w hw).2
  · exact (stable_of_rankKey (hfirst w (hperm.mem_iff.mp hw))).1
  · exact (stable_of_rankKey (hfirst w (hperm.mem_iff.mp hw))).2
  · have honly : ∀ v ∈ s.events, v = w := fun v hv => by
      have hkey : correlationKey v = correlationKey w :=
        congrArg Prod.fst ((hmember v hv).2.trans (hmember w hw).2.symm)
      exact List.inj_on_of_nodup_map hdistinct (hmember v hv).1 (hmember w hw).1
        (correlationKey_of_none hnone hkey)
    have hnodup : s.events.Nodup := hperm.nodup_iff.mpr (members_nodup hdistinct key).of_map
    apply List.perm_singleton.mp
    rw [List.perm_ext_iff_of_nodup hnodup (List.nodup_singleton w)]
    intro v
    rw [List.mem_singleton]
    exact ⟨honly v, fun h => h ▸ hw⟩

/-- **The partition.** There is one selection for each key, and every event is in one selection. -/
theorem partition_of_collapse {selections : List (CorrelationSelection N)}
    (h : collapseCorrelated events = .ok selections) :
    (selections.map fun s => (s.groupId, s.signal)).Perm (events.map bucketKey).dedup ∧
      (selections.flatMap CorrelationSelection.events).Perm events := by
  obtain ⟨selections', hcollapse, -, hnodup, hmem⟩ := exists_collapseCorrelated hdistinct
  obtain rfl : selections = selections' := Except.ok.inj (h.symm.trans hcollapse)
  have hkeys : (selections.map fun s => (s.groupId, s.signal)).Nodup := by
    apply List.Nodup.of_map fun key : Text × Signal => (toLex (key.1, key.2.value) : Text ×ₗ String)
    rw [List.map_map]
    exact hnodup
  have hselected : ∀ s ∈ selections, s.events.Perm (members events (s.groupId, s.signal)) := by
    intro s hs
    obtain ⟨key, -, hselect⟩ := (hmem s).mp hs
    obtain ⟨hgroup, hsignal, -⟩ := representative_of_select hdistinct hselect
    rw [hgroup, hsignal]
    exact events_of_select hdistinct hselect
  have hevent : ∀ s ∈ selections, ∀ w, w ∈ s.events ↔
      w ∈ events ∧ bucketKey w = (s.groupId, s.signal) := fun s hs w => by
    rw [(hselected s hs).mem_iff, mem_members]
  constructor
  · rw [List.perm_ext_iff_of_nodup hkeys (List.nodup_dedup _)]
    intro key
    rw [List.mem_dedup, List.mem_map]
    constructor
    · rintro ⟨s, hs, rfl⟩
      obtain ⟨key, hkey, hselect⟩ := (hmem s).mp hs
      obtain ⟨hgroup, hsignal, -⟩ := representative_of_select hdistinct hselect
      rwa [hgroup, hsignal]
    · intro hkey
      obtain ⟨s, hselect⟩ := exists_select_members hdistinct hkey
      obtain ⟨hgroup, hsignal, -⟩ := representative_of_select hdistinct hselect
      exact ⟨s, (hmem s).mpr ⟨key, hkey, hselect⟩, Prod.ext hgroup hsignal⟩
  · have hflat : (selections.flatMap CorrelationSelection.events).Nodup := by
      rw [List.nodup_flatMap]
      constructor
      · intro s hs
        exact (hselected s hs).nodup_iff.mpr (members_nodup hdistinct _).of_map
      · -- different keys, different events
        apply (List.pairwise_map.mp hkeys).imp_of_mem
        intro s t hs ht hne w hw hw'
        exact hne (((hevent s hs w).mp hw).2.symm.trans ((hevent t ht w).mp hw').2)
    rw [List.perm_ext_iff_of_nodup hflat hdistinct.of_map]
    intro w
    rw [List.mem_flatMap]
    constructor
    · rintro ⟨s, hs, hw⟩
      exact ((hevent s hs w).mp hw).1
    · intro hw
      have hkey : bucketKey w ∈ events.map bucketKey := List.mem_map_of_mem hw
      obtain ⟨s, hselect⟩ := exists_select_members hdistinct hkey
      exact ⟨s, (hmem s).mpr ⟨_, hkey, hselect⟩,
        (events_of_select hdistinct hselect).mem_iff.mpr (mem_members.mpr ⟨hw, rfl⟩)⟩

end Distinct

/-! ## Faces -/

/-- What a summary reads of a selection. -/
def CorrelationSelection.face (s : CorrelationSelection N) : Text × Signal × WeightedEvent N :=
  (s.groupId, s.signal, s.representative)

omit [Arithmetic N] in
theorem matching_face {signal : Signal} {selections selections' : List (CorrelationSelection N)}
    (h : selections'.map CorrelationSelection.face = selections.map CorrelationSelection.face) :
    (matching signal selections').map CorrelationSelection.face =
      (matching signal selections).map CorrelationSelection.face := by
  have hfilter : ∀ items : List (CorrelationSelection N),
      (matching signal items).map CorrelationSelection.face =
        (items.map CorrelationSelection.face).filter fun f => f.2.1 = signal := fun items => by
    rw [List.filter_map]
    rfl
  rw [hfilter, hfilter, h]

theorem qualifying_face {rule : ClaimRule} {selections selections' : List (CorrelationSelection N)}
    (h : selections'.map CorrelationSelection.face = selections.map CorrelationSelection.face) :
    (qualifying rule selections').map CorrelationSelection.face =
      (qualifying rule selections).map CorrelationSelection.face := by
  have hfilter : ∀ items : List (CorrelationSelection N),
      (qualifying rule items).map CorrelationSelection.face =
        (items.map CorrelationSelection.face).filter fun f =>
          stable (ofNumber rule.minEvidenceConfidence) ≤ stable f.2.2.effectiveConfidence := fun items => by
    rw [List.filter_map]
    rfl
  rw [hfilter, hfilter, h]

/-- **A summary reads faces.** -/
theorem summarizeSignal_face (signal : Signal) (rule : ClaimRule)
    {selections selections' : List (CorrelationSelection N)}
    (h : selections'.map CorrelationSelection.face = selections.map CorrelationSelection.face) :
    summarizeSignal signal selections' rule = summarizeSignal signal selections rule := by
  have hmatching : (matching signal selections').map CorrelationSelection.face =
      (matching signal selections).map CorrelationSelection.face := matching_face h
  have hqualifying : (qualifying rule (matching signal selections')).map CorrelationSelection.face =
      (qualifying rule (matching signal selections)).map CorrelationSelection.face :=
    qualifying_face hmatching
  have hread : ∀ {γ : Type} (g : Text × Signal × WeightedEvent N → γ)
      {items items' : List (CorrelationSelection N)},
      items'.map CorrelationSelection.face = items.map CorrelationSelection.face →
      items'.map (fun s => g s.face) = items.map fun s => g s.face := fun g items items' hface => by
    have hmap := congrArg (List.map g) hface
    rwa [List.map_map, List.map_map] at hmap
  have hlength : (qualifying rule (matching signal selections')).length =
      (qualifying rule (matching signal selections)).length := by
    have hlengths := congrArg List.length hqualifying
    rwa [List.length_map, List.length_map] at hlengths
  have hscore : signalScore (matching signal selections') = signalScore (matching signal selections) :=
    congrArg (fun values => stable (combinedConfidence values))
      (hread (fun f => f.2.2.effectiveConfidence) hmatching)
  have hgroups : (matching signal selections').map (·.groupId) =
      (matching signal selections).map (·.groupId) := hread (fun f => f.1) hmatching
  have hsources : (qualifying rule (matching signal selections')).map
      (·.representative.event.source) = (qualifying rule (matching signal selections)).map
      (·.representative.event.source) := hread (fun f => f.2.2.event.source) hqualifying
  have hmodalities : (qualifying rule (matching signal selections')).map
      (·.representative.event.modality) = (qualifying rule (matching signal selections)).map
      (·.representative.event.modality) := hread (fun f => f.2.2.event.modality) hqualifying
  simp only [summarizeSignal, hlength, hscore, hgroups, hsources, hmodalities]

/-! ## Echoes -/

/-- An event that joins a group of these events, on its side, and is weaker than one of its events. -/
def Echoes (events : List (WeightedEvent N)) (e : WeightedEvent N) : Prop :=
  ∃ w ∈ events, bucketKey e = bucketKey w ∧ stable e.effectiveConfidence < stable w.effectiveConfidence

section Echoes

variable [SymmetricArithmetic N] {events echoes events' : List (WeightedEvent N)}
  (hechoes : ∀ e ∈ echoes, Echoes events e)
  (hdistinct : ((echoes ++ events).map WeightedEvent.eventId).Nodup)
  (hperm : events'.Perm (echoes ++ events))
include hechoes hperm

omit [SymmetricArithmetic N] in
theorem mem_keys_echo {key : Text × Signal} :
    key ∈ events'.map bucketKey ↔ key ∈ events.map bucketKey := by
  rw [(hperm.map bucketKey).mem_iff, List.map_append, List.mem_append]
  apply or_iff_right_of_imp
  intro hkey
  obtain ⟨e, he, rfl⟩ := List.mem_map.mp hkey
  obtain ⟨w, hw, hsame, -⟩ := hechoes e he
  exact hsame ▸ List.mem_map_of_mem hw

include hdistinct

/-- **The representative stays.** -/
theorem representative_echo {key : Text × Signal} {s s' : CorrelationSelection N}
    (h : selectStrongest (key, members events key) = .ok s)
    (h' : selectStrongest (key, members events' key) = .ok s') : s'.face = s.face := by
  have hold : (events.map WeightedEvent.eventId).Nodup :=
    hdistinct.sublist ((List.sublist_append_right _ _).map _)
  have hnew : (events'.map WeightedEvent.eventId).Nodup := (hperm.map _).nodup_iff.mpr hdistinct
  obtain ⟨hgroup, hsignal, hmem, hfirst⟩ := representative_of_select hold h
  obtain ⟨hgroup', hsignal', hmem', hfirst'⟩ := representative_of_select hnew h'
  have hsub : ∀ w ∈ members events key, w ∈ members events' key := fun w hw => by
    rw [mem_members] at hw ⊢
    exact ⟨hperm.mem_iff.mpr (List.mem_append_right _ hw.1), hw.2⟩
  -- no echo comes first
  have hkept : s'.representative ∈ members events key := by
    rw [mem_members] at hmem' ⊢
    refine ⟨?_, hmem'.2⟩
    rcases List.mem_append.mp (hperm.mem_iff.mp hmem'.1) with hecho | hevent
    · obtain ⟨w, hw, hsame, hweaker⟩ := hechoes _ hecho
      have hmember : w ∈ members events' key :=
        hsub w (mem_members.mpr ⟨hw, hsame.symm.trans hmem'.2⟩)
      exact absurd hweaker (not_lt.mpr (stable_of_rankKey (hfirst' w hmember)).1)
    · exact hevent
  have hrank : rankKey s'.representative = rankKey s.representative :=
    le_antisymm (hfirst' _ (hsub _ hmem)) (hfirst _ hkept)
  have hsame : s'.representative = s.representative :=
    List.inj_on_of_nodup_map (rankKey_nodup (members_nodup hold key)) hkept hmem hrank
  rw [CorrelationSelection.face, CorrelationSelection.face, hgroup, hgroup', hsignal, hsignal', hsame]

theorem collapse_echo {selections selections' : List (CorrelationSelection N)}
    (h : collapseCorrelated events = .ok selections)
    (h' : collapseCorrelated events' = .ok selections') :
    selections'.map CorrelationSelection.face = selections.map CorrelationSelection.face := by
  have hold : (events.map WeightedEvent.eventId).Nodup :=
    hdistinct.sublist ((List.sublist_append_right _ _).map _)
  have hnew : (events'.map WeightedEvent.eventId).Nodup := (hperm.map _).nodup_iff.mpr hdistinct
  obtain ⟨s₁, hs₁, hsorted, hnodup, hmem⟩ := exists_collapseCorrelated hold
  obtain ⟨s₂, hs₂, hsorted', hnodup', hmem'⟩ := exists_collapseCorrelated hnew
  obtain rfl : selections = s₁ := Except.ok.inj (h.symm.trans hs₁)
  obtain rfl : selections' = s₂ := Except.ok.inj (h'.symm.trans hs₂)
  let faceKey (f : Text × Signal × WeightedEvent N) : Text ×ₗ String := toLex (f.1, f.2.1.value)
  have hkeys : ∀ {items : List (CorrelationSelection N)}, (items.map selectionKey).Nodup →
      ((items.map CorrelationSelection.face).map faceKey).Nodup := fun hitems => by
    rw [List.map_map]
    exact hitems
  have hmap : (selections'.map CorrelationSelection.face).Perm
      (selections.map CorrelationSelection.face) := by
    rw [List.perm_ext_iff_of_nodup (hkeys hnodup').of_map (hkeys hnodup).of_map]
    intro f
    simp only [List.mem_map, hmem, hmem', mem_keys_echo hechoes hperm]
    constructor
    · rintro ⟨s', ⟨key, hkey, hselect'⟩, rfl⟩
      obtain ⟨s, hselect⟩ := exists_select_members hold (List.mem_map.mpr hkey)
      exact ⟨s, ⟨key, hkey, hselect⟩,
        (representative_echo hechoes hdistinct hperm hselect hselect').symm⟩
    · rintro ⟨s, ⟨key, hkey, hselect⟩, rfl⟩
      have hkey' : key ∈ events'.map bucketKey :=
        (mem_keys_echo hechoes hperm).mpr (List.mem_map.mpr hkey)
      obtain ⟨s', hselect'⟩ := exists_select_members hnew hkey'
      exact ⟨s', ⟨key, hkey, hselect'⟩, representative_echo hechoes hdistinct hperm hselect hselect'⟩
  apply List.eq_of_perm_of_sortedOn hmap (hkeys hnodup')
  · exact List.pairwise_map.mpr hsorted'
  · exact List.pairwise_map.mpr hsorted

end Echoes

/-! ## Judgement -/

/-- What `_evaluate_claim` makes of weighted events: both summaries, the outcome and its reason. -/
def judge (rule : ClaimRule) (weighted : List (WeightedEvent N)) :
    Result ((SignalSummary N × SignalSummary N) × Outcome × String) := do
  let selections ← collapseCorrelated weighted
  let summaries ← summarize selections rule
  .ok (summaries, chooseOutcome summaries.1 summaries.2 rule)

/-- **A decision is a judgement** of its claim's weighted events. -/
theorem judge_of_evaluateClaim {exp2 : N → N} {claim : Text} {rule : ClaimRule}
    {events : List EvidenceEvent} {policy : Policy} {asOf : Datetime} {reliabilities : Text → Option N}
    {d : ClaimDecision N} (h : evaluateClaim exp2 claim rule events policy asOf reliabilities = .ok d) :
    ∃ weighted, weightEvents exp2 events policy asOf reliabilities = .ok weighted ∧
      judge rule weighted = .ok ((d.support, d.contradict), d.outcome, d.reason) := by
  simp only [evaluateClaim, ClaimDecision.make, bind_eq_ok, valid_eq_ok, exists_unit,
    Except.ok.injEq] at h
  obtain ⟨weighted, hweighted, selections, hcollapse, summaries, hsummarize, trace, -,
    correlations, h⟩ := h
  obtain ⟨-, -, -, _, -, -, -, -, rfl⟩ := h
  refine ⟨weighted, hweighted, ?_⟩
  simp only [judge, bind_eq_ok]
  exact ⟨selections, hcollapse, summaries, hsummarize, rfl⟩

/-- **Echo resistance.** -/
theorem judge_echo [SymmetricArithmetic N] {events echoes events' : List (WeightedEvent N)}
    (hechoes : ∀ e ∈ echoes, Echoes events e)
    (hdistinct : ((echoes ++ events).map WeightedEvent.eventId).Nodup)
    (hperm : events'.Perm (echoes ++ events)) (rule : ClaimRule) : judge rule events' = judge rule events := by
  have hold : (events.map WeightedEvent.eventId).Nodup :=
    hdistinct.sublist ((List.sublist_append_right _ _).map _)
  have hnew : (events'.map WeightedEvent.eventId).Nodup := (hperm.map _).nodup_iff.mpr hdistinct
  obtain ⟨selections, h, -⟩ := exists_collapseCorrelated hold
  obtain ⟨selections', h', -⟩ := exists_collapseCorrelated hnew
  have hfaces := collapse_echo hechoes hdistinct hperm h h'
  have hsummarize : summarize selections' rule = summarize selections rule := by
    rw [summarize, summarize, summarizeSignal_face .support rule hfaces,
      summarizeSignal_face .contradict rule hfaces]
  rw [judge, judge, h, h']
  show (summarize selections' rule >>= _) = (summarize selections rule >>= _)
  rw [hsummarize]

/-- **Correlation collapse.** Events with distinct identifiers are partitioned into one selection for
each key, whose representative is a strongest event. Echoes of a group, however many and from
wherever, leave both summaries and the outcome as they are. -/
theorem collapse_laws [SymmetricArithmetic N] {events : List (WeightedEvent N)}
    (hdistinct : (events.map WeightedEvent.eventId).Nodup) :
    ∃ selections, collapseCorrelated events = .ok selections ∧
      (selections.map fun s => (s.groupId, s.signal)).Perm (events.map bucketKey).dedup ∧
      (selections.flatMap CorrelationSelection.events).Perm events ∧
      (∀ s ∈ selections, s.Sound) ∧
      ∀ echoes events', (∀ e ∈ echoes, Echoes events e) →
        ((echoes ++ events).map WeightedEvent.eventId).Nodup → events'.Perm (echoes ++ events) →
        ∀ rule, judge rule events' = judge rule events := by
  obtain ⟨selections, hcollapse, -, -, hmem⟩ := exists_collapseCorrelated hdistinct
  obtain ⟨hkeys, hevents⟩ := partition_of_collapse hdistinct hcollapse
  refine ⟨selections, hcollapse, hkeys, hevents, fun s hs => ?_, fun echoes events' => ?_⟩
  · obtain ⟨key, -, hselect⟩ := (hmem s).mp hs
    exact sound_of_select hdistinct hselect
  · exact judge_echo

/-- A grouped supporting observation with this confidence left. -/
def grouped (eventId : Text) (left : ℚ) : WeightedEvent ℚ :=
  ⟨{ observation eventId .support oneUnit with
      correlationGroup := some (.literal "g") }, 0, 1, left, left⟩

def strongReport : WeightedEvent ℚ := grouped (.literal "a") (1 / 2)

def weakReport : WeightedEvent ℚ := grouped (.literal "b") (1 / 4)

/-- A weak report of the same group is suppressed, and does not add to the strong one. -/
theorem collapse_laws_report :
    (∃ selections, collapseCorrelated [weakReport, strongReport] = .ok selections ∧
      (selections.flatMap CorrelationSelection.events).Perm [weakReport, strongReport]) ∧
    judge (sampleRule onePositive) [weakReport, strongReport] =
      judge (sampleRule onePositive) [strongReport] := by
  have hpair : ([weakReport, strongReport].map WeightedEvent.eventId).Nodup := by decide
  obtain ⟨selections, hcollapse, -, hevents, -⟩ := collapse_laws hpair
  obtain ⟨-, -, -, -, -, hecho⟩ := @collapse_laws ℚ _ _ [strongReport] (List.nodup_singleton _)
  refine ⟨⟨selections, hcollapse, hevents⟩,
    hecho [weakReport] _ (fun e he => ?_) hpair (List.Perm.refl _) _⟩
  rw [List.mem_singleton] at he
  subst he
  refine ⟨strongReport, List.mem_singleton_self _, rfl, ?_⟩
  show stable (1 / 4 : ℚ) < stable (1 / 2)
  decide +kernel

end EvidenceBraid
