import EvidenceBraid.Grouping
import EvidenceBraid.Library.NoisyOr
import EvidenceBraid.Reliability

/-!
# Laws of scores

In exact arithmetic the score of a signal is the rounded noisy-or of its groups' strengths
(`signalScore_eq`), a group being as strong as its strongest event. So a score is a confidence, at
least that of each of its signal's events, and a further event raises it or leaves it
(`score_laws`), whatever group it joins.
-/

namespace EvidenceBraid

open Arithmetic

/-- `_summarize_signal` of `collapse_correlated`. -/
def summaryOf (signal : Signal) (rule : ClaimRule) (events : List (WeightedEvent ℚ)) :
    Result (SignalSummary ℚ) := do
  let selections ← collapseCorrelated events
  summarizeSignal signal selections rule

/-- The groups of a signal's events. -/
def groups (signal : Signal) (events : List (WeightedEvent ℚ)) : Finset Text :=
  ((events.filter fun w => w.event.signal = signal).map correlationKey).toFinset

/-- The rounded confidence of a group's strongest event. -/
def strength (signal : Signal) (events : List (WeightedEvent ℚ)) (group : Text) : ℚ :=
  ((members events (group, signal)).map fun w => stable w.effectiveConfidence).peak

theorem mem_groups {signal : Signal} {events : List (WeightedEvent ℚ)} {group : Text} :
    group ∈ groups signal events ↔ (group, signal) ∈ events.map bucketKey := by
  simp only [groups, List.mem_toFinset, List.mem_map, List.mem_filter, decide_eq_true_eq, bucketKey,
    Prod.mk.injEq]
  constructor
  · rintro ⟨w, ⟨hw, hsignal⟩, hgroup⟩
    exact ⟨w, hw, hgroup, hsignal⟩
  · rintro ⟨w, hw, hgroup, hsignal⟩
    exact ⟨w, ⟨hw, hsignal⟩, hgroup⟩

/-! ## Strength -/

/-- Weighted events as their constructor admits them: confidences in `[0, 1]`. -/
def Made (events : List (WeightedEvent ℚ)) : Prop := ∀ w ∈ events, w.make = .ok w

theorem confidence_of_make {w : WeightedEvent ℚ} (h : w.make = .ok w) :
    0 ≤ stable w.effectiveConfidence ∧ stable w.effectiveConfidence ≤ 1 := by
  simp only [WeightedEvent.make, checkNonnegative, checkUnit, bind_eq_ok, valid_eq_ok, exists_unit] at h
  obtain ⟨-, -, -, hunit, -⟩ := h
  exact ⟨stable_nonneg hunit.1, stable_le_one hunit.2⟩

section Strength

variable {signal : Signal} {events events' : List (WeightedEvent ℚ)}

theorem strength_nonneg (group : Text) : 0 ≤ strength signal events group := List.peak_nonneg _

theorem strength_le_one (hmade : Made events) (group : Text) : strength signal events group ≤ 1 := by
  apply List.peak_le zero_le_one
  intro x hx
  obtain ⟨w, hw, rfl⟩ := List.mem_map.mp hx
  exact (confidence_of_make (hmade w (mem_members.mp hw).1)).2

theorem le_strength {w : WeightedEvent ℚ} (hw : w ∈ events) (hsignal : w.event.signal = signal) :
    stable w.effectiveConfidence ≤ strength signal events (correlationKey w) :=
  List.le_peak (List.mem_map_of_mem (mem_members.mpr ⟨hw, by rw [bucketKey, hsignal]⟩))

/-- More events, more strength. -/
theorem strength_mono (hsub : ∀ w ∈ events, w ∈ events') (group : Text) :
    strength signal events group ≤ strength signal events' group := by
  apply List.peak_le (strength_nonneg group)
  intro x hx
  obtain ⟨w, hw, rfl⟩ := List.mem_map.mp hx
  obtain ⟨hmem, hkey⟩ := mem_members.mp hw
  exact List.le_peak (List.mem_map_of_mem (mem_members.mpr ⟨hsub w hmem, hkey⟩))

theorem groups_mono (hsub : ∀ w ∈ events, w ∈ events') : groups signal events ⊆ groups signal events' := by
  intro group hgroup
  rw [mem_groups, List.mem_map] at hgroup ⊢
  obtain ⟨w, hw, hkey⟩ := hgroup
  exact ⟨w, hsub w hw, hkey⟩

end Strength

/-- **The representative** is as strong as its group. -/
theorem stable_representative {events : List (WeightedEvent ℚ)} (hmade : Made events)
    (hdistinct : (events.map WeightedEvent.eventId).Nodup) {key : Text × Signal}
    {s : CorrelationSelection ℚ} (h : selectStrongest (key, members events key) = .ok s) :
    stable s.representative.effectiveConfidence = strength key.2 events key.1 := by
  obtain ⟨-, -, hmem, hfirst⟩ := representative_of_select hdistinct h
  apply le_antisymm
  · exact List.le_peak (List.mem_map_of_mem hmem)
  · apply List.peak_le (confidence_of_make (hmade _ (mem_members.mp hmem).1)).1
    intro x hx
    obtain ⟨w, hw, rfl⟩ := List.mem_map.mp hx
    rcases Prod.Lex.le_iff.mp (hfirst w hw) with hlt | ⟨heq, -⟩
    · exact (neg_lt_neg_iff.mp hlt).le
    · exact (neg_injective heq).ge

/-! ## Scores -/

theorem combinedConfidence_eq (values : List ℚ) :
    combinedConfidence values = 1 - (values.map fun value => 1 - stable value).prod := by
  rw [combinedConfidence, List.prod_eq_foldl]

theorem mem_matching {signal : Signal} {selections : List (CorrelationSelection ℚ)}
    {s : CorrelationSelection ℚ} : s ∈ matching signal selections ↔ s ∈ selections ∧ s.signal = signal := by
  simp [matching]

section Distinct

variable {events : List (WeightedEvent ℚ)} (hdistinct : (events.map WeightedEvent.eventId).Nodup)
include hdistinct

/-- **The selections of a signal**: one for each of its groups. -/
theorem exists_matching (signal : Signal) : ∃ selections, collapseCorrelated events = .ok selections ∧
    ((matching signal selections).Pairwise fun a b => selectionKey a ≤ selectionKey b) ∧
    ((matching signal selections).map (·.groupId)).Nodup ∧
    ∀ s, s ∈ matching signal selections ↔ ∃ group ∈ groups signal events,
      selectStrongest ((group, signal), members events (group, signal)) = .ok s := by
  obtain ⟨selections, hcollapse, hsorted, hnodup, hmem⟩ := exists_collapseCorrelated hdistinct
  refine ⟨selections, hcollapse, hsorted.filter _, ?_, fun s => ?_⟩
  · have hkeys : ((matching signal selections).map (·.groupId)).map
        (fun group => (toLex (group, signal.value) : Text ×ₗ String)) =
        (matching signal selections).map selectionKey := by
      rw [List.map_map]
      apply List.map_congr_left
      intro s hs
      rw [selectionKey, (mem_matching.mp hs).2]
      rfl
    apply List.Nodup.of_map (fun group => (toLex (group, signal.value) : Text ×ₗ String))
    rw [hkeys]
    exact hnodup.sublist (List.filter_sublist.map _)
  · rw [mem_matching, hmem]
    constructor
    · rintro ⟨⟨key, hkey, hselect⟩, hsignal⟩
      obtain rfl : key.2 = signal := (representative_of_select hdistinct hselect).2.1.symm.trans hsignal
      exact ⟨key.1, mem_groups.mpr hkey, hselect⟩
    · rintro ⟨group, hgroup, hselect⟩
      exact ⟨⟨_, mem_groups.mp hgroup, hselect⟩, (representative_of_select hdistinct hselect).2.1⟩

/-- **The score** is the rounded noisy-or of the groups. -/
theorem signalScore_eq (hmade : Made events) {signal : Signal}
    {selections : List (CorrelationSelection ℚ)} (h : collapseCorrelated events = .ok selections) :
    signalScore (matching signal selections) =
      stable (noisyOr (groups signal events) (strength signal events)) := by
  obtain ⟨selections', hcollapse, -, hnodup, hmem⟩ := exists_matching hdistinct signal
  obtain rfl : selections = selections' := Except.ok.inj (h.symm.trans hcollapse)
  have hgroups : ((matching signal selections).map (·.groupId)).toFinset = groups signal events := by
    ext group
    simp only [List.mem_toFinset, List.mem_map, hmem]
    constructor
    · rintro ⟨s, ⟨group, hgroup, hselect⟩, rfl⟩
      rwa [(representative_of_select hdistinct hselect).1]
    · intro hgroup
      obtain ⟨s, hselect⟩ := exists_select_members hdistinct (mem_groups.mp hgroup)
      exact ⟨s, ⟨group, hgroup, hselect⟩, (representative_of_select hdistinct hselect).1⟩
  have hfactors : ((matching signal selections).map (·.representative.effectiveConfidence)).map
      (fun value => 1 - stable value) =
      ((matching signal selections).map (·.groupId)).map fun group => 1 - strength signal events group := by
    rw [List.map_map, List.map_map]
    apply List.map_congr_left
    intro s hs
    obtain ⟨group, -, hselect⟩ := (hmem s).mp hs
    have hgroup := (representative_of_select hdistinct hselect).1
    simp only [Function.comp_apply, stable_representative hmade hdistinct hselect, hgroup]
  rw [signalScore, combinedConfidence_eq, hfactors, ← List.prod_toFinset _ hnodup, hgroups, noisyOr]

end Distinct

section Made

variable {events : List (WeightedEvent ℚ)} (hmade : Made events)
  (hdistinct : (events.map WeightedEvent.eventId).Nodup)
include hmade

/-- The confidence that some group of the signal is right. -/
theorem noisyOr_groups_mem_unit (signal : Signal) :
    0 ≤ noisyOr (groups signal events) (strength signal events) ∧
      noisyOr (groups signal events) (strength signal events) ≤ 1 :=
  ⟨noisyOr_nonneg (fun group _ => strength_nonneg group) fun group _ => strength_le_one hmade group,
    noisyOr_le_one fun group _ => strength_le_one hmade group⟩

include hdistinct

/-- Weighted events can always be summarized. -/
theorem exists_summaryOf (signal : Signal) (rule : ClaimRule) : ∃ s,
    summaryOf signal rule events = .ok s ∧
      s.score = stable (noisyOr (groups signal events) (strength signal events)) := by
  obtain ⟨selections, hcollapse, -, hnodup, -⟩ := exists_matching hdistinct signal
  obtain ⟨hzero, hone⟩ := noisyOr_groups_mem_unit hmade signal
  have hscore : signalScore (matching signal selections) =
      stable (noisyOr (groups signal events) (strength signal events)) :=
    signalScore_eq hdistinct hmade hcollapse
  have hunit : 0 ≤ signalScore (matching signal selections) ∧
      signalScore (matching signal selections) ≤ 1 := by
    rw [hscore]
    exact ⟨stable_nonneg hzero, stable_le_one hone⟩
  have hlength : (qualifying rule (matching signal selections)).length ≤
      (((matching signal selections).map (·.groupId)).sortOn id).length := by
    rw [List.length_sortOn, List.length_map]
    exact List.length_filter_le _ _
  simp only [summaryOf, summarizeSignal, SignalSummary.make, checkUnit, bind_eq_ok, valid_eq_ok,
    exists_unit, canonicalTexts_eq_ok]
  exact ⟨_, ⟨selections, hcollapse, hunit, _, ⟨hnodup, rfl⟩, hlength, rfl⟩, hscore⟩

end Made

/-! ## A further event -/

section Extended

variable {events events' : List (WeightedEvent ℚ)} {w : WeightedEvent ℚ}
  (hperm : events'.Perm (w :: events))
include hperm

theorem members_extended {signal : Signal} (hsignal : signal ≠ w.event.signal) (group : Text) :
    (members events' (group, signal)).Perm (members events (group, signal)) := by
  have hkey : bucketKey w ≠ (group, signal) := fun h => hsignal (congrArg Prod.snd h).symm
  have hfilter := hperm.filter fun x => bucketKey x = (group, signal)
  rwa [List.filter_cons_of_neg (by simpa using hkey)] at hfilter

theorem groups_extended {signal : Signal} (hsignal : signal ≠ w.event.signal) :
    groups signal events' = groups signal events := by
  ext group
  rw [mem_groups, mem_groups, (hperm.map _).mem_iff, List.map_cons, List.mem_cons]
  exact or_iff_right fun h => hsignal (congrArg Prod.snd h)

/-- **The other signal** keeps its selections. -/
theorem matching_extended (hdistinct : ((w :: events).map WeightedEvent.eventId).Nodup)
    {signal : Signal} (hsignal : signal ≠ w.event.signal)
    {selections selections' : List (CorrelationSelection ℚ)}
    (h : collapseCorrelated events = .ok selections)
    (h' : collapseCorrelated events' = .ok selections') :
    matching signal selections' = matching signal selections := by
  have hold : (events.map WeightedEvent.eventId).Nodup := (List.nodup_cons.mp hdistinct).2
  have hnew : (events'.map WeightedEvent.eventId).Nodup := (hperm.map _).nodup_iff.mpr hdistinct
  obtain ⟨s₁, hs₁, hsorted, hnodup, hmem⟩ := exists_matching hold signal
  obtain ⟨s₂, hs₂, hsorted', hnodup', hmem'⟩ := exists_matching hnew signal
  obtain rfl : selections = s₁ := Except.ok.inj (h.symm.trans hs₁)
  obtain rfl : selections' = s₂ := Except.ok.inj (h'.symm.trans hs₂)
  have hsame : (matching signal selections').Perm (matching signal selections) := by
    rw [List.perm_ext_iff_of_nodup hnodup'.of_map hnodup.of_map]
    intro s
    rw [hmem', hmem, groups_extended hperm hsignal]
    simp only [selectStrongest_perm (members_extended hperm hsignal _) (members_nodup hold _)]
  have hkeys : ((matching signal selections').map selectionKey).Nodup := by
    apply List.Nodup.of_map (fun key => (ofLex key).1)
    rw [List.map_map]
    exact hnodup'
  exact List.eq_of_perm_of_sortedOn hsame hkeys hsorted' hsorted

end Extended

/-- **Laws of scores.** A score is a confidence, at least the rounded confidence of each event of its
signal. A further event does not lower its own signal's score, and leaves the other signal's summary
as it is. -/
theorem score_laws (rule : ClaimRule) {events : List (WeightedEvent ℚ)} (hmade : Made events)
    (hdistinct : (events.map WeightedEvent.eventId).Nodup) (signal : Signal) :
    ∃ s, summaryOf signal rule events = .ok s ∧ 0 ≤ s.score ∧ s.score ≤ 1 ∧
      (∀ x ∈ events, x.event.signal = signal → stable x.effectiveConfidence ≤ s.score) ∧
      ∀ w events', w.make = .ok w → w.eventId ∉ events.map WeightedEvent.eventId →
        events'.Perm (w :: events) → ∃ s', summaryOf signal rule events' = .ok s' ∧
          (signal = w.event.signal → s.score ≤ s'.score) ∧ (signal ≠ w.event.signal → s' = s) := by
  obtain ⟨s, hs, hscore⟩ := exists_summaryOf hmade hdistinct signal rule
  obtain ⟨hzero, hone⟩ := noisyOr_groups_mem_unit hmade signal
  refine ⟨s, hs, ?_, ?_, fun x hx hsignal => ?_, fun w events' hw hid hperm => ?_⟩
  · rw [hscore]
    exact stable_nonneg hzero
  · rw [hscore]
    exact stable_le_one hone
  · have hgroup : correlationKey x ∈ groups signal events :=
      mem_groups.mpr (List.mem_map.mpr ⟨x, hx, by rw [bucketKey, hsignal]⟩)
    have hle : stable x.effectiveConfidence ≤ noisyOr (groups signal events) (strength signal events) :=
      (le_strength hx hsignal).trans (le_noisyOr (fun group _ => strength_nonneg group)
        (fun group _ => strength_le_one hmade group) hgroup)
    rw [hscore, ← stable_of_grid (onGrid_stable x.effectiveConfidence)]
    exact stable_mono hle
  · have hall : ((w :: events).map WeightedEvent.eventId).Nodup := List.nodup_cons.mpr ⟨hid, hdistinct⟩
    have hmade' : Made events' := fun x hx => by
      rcases List.mem_cons.mp (hperm.mem_iff.mp hx) with rfl | hx
      · exact hw
      · exact hmade x hx
    have hsub : ∀ x ∈ events, x ∈ events' := fun x hx =>
      hperm.mem_iff.mpr (List.mem_cons_of_mem w hx)
    obtain ⟨s', hs', hscore'⟩ :=
      exists_summaryOf hmade' ((hperm.map _).nodup_iff.mpr hall) signal rule
    refine ⟨s', hs', fun _ => ?_, fun hsignal => ?_⟩
    · rw [hscore, hscore']
      exact stable_mono (noisyOr_mono (groups_mono hsub) (fun group _ => strength_mono hsub group)
        (fun group _ => strength_nonneg group) fun group _ => strength_le_one hmade' group)
    · rw [summaryOf, bind_eq_ok] at hs hs'
      obtain ⟨selections, hcollapse, hsummary⟩ := hs
      obtain ⟨selections', hcollapse', hsummary'⟩ := hs'
      have hsame := matching_extended hperm hall hsignal hcollapse hcollapse'
      rw [summarizeSignal] at hsummary hsummary'
      rw [hsame, hsummary] at hsummary'
      exact (Except.ok.inj hsummary').symm

/-- A supporting observation that has half of its confidence left. -/
def halfSupport : WeightedEvent ℚ :=
  ⟨observation (.literal "a") .support oneUnit, 1, 1, 1 / 2, 1 / 2⟩

/-- Half of a confidence is a score of its own. -/
theorem score_laws_half : ∃ s, summaryOf .support (sampleRule onePositive) [halfSupport] = .ok s ∧
    0 ≤ s.score ∧ s.score ≤ 1 ∧
    ∀ x ∈ [halfSupport], x.event.signal = .support → stable x.effectiveConfidence ≤ s.score := by
  have hmade : Made [halfSupport] := by
    intro w hw
    rw [List.mem_singleton] at hw
    subst hw
    simp only [WeightedEvent.make, checkNonnegative, checkUnit, bind_eq_ok, valid_eq_ok, exists_unit]
    norm_num [halfSupport]
  obtain ⟨s, hs, hzero, hone, hle, -⟩ :=
    score_laws (sampleRule onePositive) hmade (List.nodup_singleton _) .support
  exact ⟨s, hs, hzero, hone, hle⟩

end EvidenceBraid
