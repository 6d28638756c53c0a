import EvidenceBraid.EngineProof
import EvidenceBraid.Library.Shrinkage

/-!
# Source reliability

In exact arithmetic the posterior of a source is its declared reliability shrunk towards the observed
rate (`posterior_eq`), and the applied reliability is the declared one after a clamped movement
(`applied_eq`).

`max_adjustment` is meant to bound that movement. It does for the number before rounding. The applied
reliability is rounded to twelve digits, and `adjustment_bounded_iff` says when that keeps the bound.

Every verdict moves its source in its direction and no other (`applied_monotone`). The first one also
replaces the declared reliability by its rounding, so movements are compared from there.
-/

namespace EvidenceBraid

open Arithmetic

/-! ## Exact numbers -/

theorem unit_nonneg (x : Number .unit) : 0 ≤ (ofNumber x : ℚ) := by
  have hzero : Bounds.unit.minimum.toRat = 0 := by decide +kernel
  exact hzero ▸ x.holds.1

theorem unit_le_one (x : Number .unit) : (ofNumber x : ℚ) ≤ 1 := by
  have hone : Bounds.one.toRat = 1 := by decide +kernel
  exact hone ▸ x.holds.2 Bounds.one rfl

theorem positive_pos (x : Number .positive) : 0 < (ofNumber x : ℚ) := by
  have hmicro : 0 < Bounds.positive.minimum.toRat := by decide +kernel
  exact hmicro.trans_le x.holds.1

theorem stable_nonneg {x : ℚ} (hx : 0 ≤ x) : 0 ≤ stable x :=
  le_gridRound_of_le stableScale_pos OnGrid.zero hx

theorem stable_le_one {x : ℚ} (hx : x ≤ 1) : stable x ≤ 1 :=
  gridRound_le_of_le stableScale_pos onGrid_one hx

theorem stable_mono {x y : ℚ} (h : x ≤ y) : stable x ≤ stable y := gridRound_mono stableScale_pos h

theorem posterior_eq (rule : ReliabilityUpdatePolicy) (declared : ℚ) (correct incorrect : ℕ) :
    posteriorReliability rule declared correct incorrect =
      stable (shrink (ofNumber rule.priorWeight) declared correct incorrect) := rfl

theorem applied_eq (rule : ReliabilityUpdatePolicy) (declared posterior : ℚ) :
    appliedReliability rule declared posterior =
      stable (declared + clamp (ofNumber rule.maxAdjustment) (posterior - declared)) := rfl

/-! ## Records -/

/-- How many of a source's adjudications have a verdict. -/
def verdictCount (adjudications : List Adjudication) (source : Text) (verdict : Verdict) : ℕ :=
  (verdictIds adjudications source verdict).length

/-- The declared reliability of a source as its record states it. -/
def declaredReliability (policy : Policy) (source : Text) : ℚ :=
  stable (ofNumber (policy.reliabilityFor source))

/-- The applied reliability for two counts. -/
def movedReliability (rule : ReliabilityUpdatePolicy) (declared : ℚ) (correct incorrect : ℕ) : ℚ :=
  appliedReliability rule declared (posteriorReliability rule declared correct incorrect)

/-- The record of a source. -/
def sourceAdjustment (policy : Policy) (rule : ReliabilityUpdatePolicy)
    (adjudications : List Adjudication) (source : Text) : ReliabilityAdjustment ℚ where
  source := source
  declaredReliability := declaredReliability policy source
  posteriorReliability := posteriorReliability rule (declaredReliability policy source)
    (verdictCount adjudications source .correct) (verdictCount adjudications source .incorrect)
  appliedReliability := movedReliability rule (declaredReliability policy source)
    (verdictCount adjudications source .correct) (verdictCount adjudications source .incorrect)
  correctEventIds := (verdictIds adjudications source .correct).sortOn id
  incorrectEventIds := (verdictIds adjudications source .incorrect).sortOn id

section Unit

variable (rule : ReliabilityUpdatePolicy) {declared : ℚ} (hzero : 0 ≤ declared) (hone : declared ≤ 1)
include hzero hone

theorem posterior_mem_unit (correct incorrect : ℕ) :
    0 ≤ posteriorReliability rule declared correct incorrect ∧
      posteriorReliability rule declared correct incorrect ≤ 1 := by
  have hw := positive_pos rule.priorWeight
  rw [posterior_eq]
  exact ⟨stable_nonneg (shrink_nonneg hw hzero correct incorrect),
    stable_le_one (shrink_le_one hw hone correct incorrect)⟩

end Unit

/-- **The applied reliability** lies between the declared and the posterior one. -/
theorem applied_between {rule : ReliabilityUpdatePolicy} {declared posterior : ℚ}
    (hdeclared : OnGrid stableScale declared) (hposterior : OnGrid stableScale posterior) :
    min declared posterior ≤ appliedReliability rule declared posterior ∧
      appliedReliability rule declared posterior ≤ max declared posterior := by
  obtain ⟨hlow, hhigh⟩ :=
    clamp_between (unit_nonneg rule.maxAdjustment) (posterior - declared)
  have hmin : min declared posterior = declared + min 0 (posterior - declared) := by
    rw [← min_add_add_left, add_zero, add_sub_cancel]
  have hmax : max declared posterior = declared + max 0 (posterior - declared) := by
    rw [← max_add_add_left, add_zero, add_sub_cancel]
  have hgridMin : OnGrid stableScale (min declared posterior) := by
    rcases min_choice declared posterior with h | h <;> rw [h] <;> assumption
  have hgridMax : OnGrid stableScale (max declared posterior) := by
    rcases max_choice declared posterior with h | h <;> rw [h] <;> assumption
  rw [applied_eq]
  constructor
  · apply le_gridRound_of_le stableScale_pos hgridMin
    rw [hmin]
    exact add_le_add_right hlow declared
  · apply gridRound_le_of_le stableScale_pos hgridMax
    rw [hmax]
    exact add_le_add_right hhigh declared

theorem declared_mem_unit (policy : Policy) (source : Text) :
    0 ≤ declaredReliability policy source ∧ declaredReliability policy source ≤ 1 :=
  ⟨stable_nonneg (unit_nonneg _), stable_le_one (unit_le_one _)⟩

theorem moved_between (rule : ReliabilityUpdatePolicy) (policy : Policy) (source : Text)
    (correct incorrect : ℕ) :
    let declared := declaredReliability policy source
    let posterior := posteriorReliability rule declared correct incorrect
    min declared posterior ≤ movedReliability rule declared correct incorrect ∧
      movedReliability rule declared correct incorrect ≤ max declared posterior :=
  applied_between (onGrid_stable _) (onGrid_stable _)

theorem moved_mem_unit (rule : ReliabilityUpdatePolicy) (policy : Policy) (source : Text)
    (correct incorrect : ℕ) :
    0 ≤ movedReliability rule (declaredReliability policy source) correct incorrect ∧
      movedReliability rule (declaredReliability policy source) correct incorrect ≤ 1 := by
  obtain ⟨hzero, hone⟩ := declared_mem_unit policy source
  obtain ⟨hpzero, hpone⟩ := posterior_mem_unit rule hzero hone correct incorrect
  obtain ⟨hlow, hhigh⟩ := moved_between rule policy source correct incorrect
  exact ⟨(le_min hzero hpzero).trans hlow, hhigh.trans (max_le hone hpone)⟩

/-- An adjudicated source has an adjudication of some verdict. -/
theorem verdictIds_ne_nil {adjudications : List Adjudication} {source : Text}
    (hsource : source ∈ adjudications.map (·.source)) :
    verdictIds adjudications source .correct ≠ [] ∨ verdictIds adjudications source .incorrect ≠ [] := by
  obtain ⟨a, ha, rfl⟩ := List.mem_map.mp hsource
  have hmem : a.eventId ∈ verdictIds adjudications a.source a.verdict :=
    List.mem_map_of_mem (List.mem_filter.mpr ⟨ha, by simp⟩)
  rcases hverdict : a.verdict with _ | _
  · exact .inl (List.ne_nil_of_mem (hverdict ▸ hmem))
  · exact .inr (List.ne_nil_of_mem (hverdict ▸ hmem))

/-- With distinct identifiers no event is judged both ways. -/
theorem verdictIds_disjoint {adjudications : List Adjudication}
    (hdistinct : (adjudications.map (·.eventId)).Nodup) (source : Text) :
    ∀ id ∈ verdictIds adjudications source .correct,
      id ∉ verdictIds adjudications source .incorrect := by
  intro id hcorrect hincorrect
  obtain ⟨a, ha, rfl⟩ := List.mem_map.mp hcorrect
  obtain ⟨b, hb, hid⟩ := List.mem_map.mp hincorrect
  simp only [List.mem_filter, Bool.and_eq_true, decide_eq_true_eq] at ha hb
  obtain rfl := List.inj_on_of_nodup_map hdistinct ha.1 hb.1 hid.symm
  have := ha.2.2.symm.trans hb.2.2
  cases this

/-- **Every adjudicated source has a record.** -/
theorem adjustSource_eq {policy : Policy} {rule : ReliabilityUpdatePolicy}
    {adjudications : List Adjudication} (hdistinct : (adjudications.map (·.eventId)).Nodup)
    {source : Text} (hsource : source ∈ adjudications.map (·.source)) :
    adjustSource policy rule adjudications source =
      .ok (sourceAdjustment policy rule adjudications source) := by
  obtain ⟨hzero, hone⟩ := declared_mem_unit policy source
  have hposterior := posterior_mem_unit rule hzero hone
    (verdictCount adjudications source .correct) (verdictCount adjudications source .incorrect)
  have hmoved := moved_mem_unit rule policy source
    (verdictCount adjudications source .correct) (verdictCount adjudications source .incorrect)
  have hnodup : ∀ verdict, (verdictIds adjudications source verdict).Nodup := fun verdict =>
    hdistinct.sublist (List.filter_sublist.map _)
  have hsort : ∀ verdict, ((verdictIds adjudications source verdict).sortOn id).sortOn id =
      (verdictIds adjudications source verdict).sortOn id := fun verdict =>
    List.sortOn_of_pairwise (List.pairwise_sortOn id _)
  simp only [adjustSource, ReliabilityAdjustment.make, checkUnit, List.length_sortOn, bind_eq_ok,
    valid_eq_ok, exists_unit, canonicalTexts_eq_ok, hsort]
  refine ⟨⟨hzero, hone⟩, hposterior, hmoved, _, ⟨List.nodup_sortOn.mpr (hnodup .correct), rfl⟩, _,
    ⟨List.nodup_sortOn.mpr (hnodup .incorrect), rfl⟩, ?_, ?_, rfl⟩
  · simpa only [List.mem_sortOn] using verdictIds_disjoint hdistinct source
  · simpa only [ne_eq, ← List.length_eq_zero_iff, List.length_sortOn] using
      verdictIds_ne_nil hsource

theorem adjustReliabilities_eq {policy : Policy} {rule : ReliabilityUpdatePolicy}
    (hrule : policy.reliabilityUpdates = some rule) {adjudications : List Adjudication}
    (hdistinct : (adjudications.map (·.eventId)).Nodup) :
    adjustReliabilities policy adjudications =
      .ok ((List.sortedSet (adjudications.map (·.source))).map
        (sourceAdjustment policy rule adjudications)) := by
  simp only [adjustReliabilities, hrule]
  rw [List.mapM_eq_ok, List.forall₂_map_right_iff]
  apply List.forall₂_same.mpr
  intro source hsource
  exact adjustSource_eq hdistinct (List.mem_sortedSet.mp hsource)

/-! ## The bound -/

/-- The applied reliability lies between the two others, in `[0, 1]`. -/
structure ReliabilityAdjustment.Between (a : ReliabilityAdjustment ℚ) : Prop where
  between : min a.declaredReliability a.posteriorReliability ≤ a.appliedReliability ∧
    a.appliedReliability ≤ max a.declaredReliability a.posteriorReliability
  unit : 0 ≤ a.appliedReliability ∧ a.appliedReliability ≤ 1

/-- What a record promises: also, the applied reliability is within `max_adjustment` of the declared
one. -/
structure ReliabilityAdjustment.Bounded (rule : ReliabilityUpdatePolicy)
    (a : ReliabilityAdjustment ℚ) : Prop extends a.Between where
  bounded : |a.appliedReliability - a.declaredReliability| ≤ ofNumber rule.maxAdjustment

/-- The bound or the exact movement, in units of the twelfth digit, is not rounded up beyond the
whole units of the bound. -/
def KeepsBound (rule : ReliabilityUpdatePolicy) (declared : ℚ) (correct incorrect : ℕ) : Prop :=
  let bound : ℚ := ofNumber rule.maxAdjustment * stableScale
  let movement := |shrink (ofNumber rule.priorWeight) declared correct incorrect - declared| * stableScale
  RoundsWithin (halfEven (declared * stableScale)) ⌊bound⌋ (min movement bound)

/-- The applied reliability, counted in units of the twelfth digit. -/
theorem moved_mul_scale {rule : ReliabilityUpdatePolicy} {declared : ℚ}
    (hgrid : OnGrid stableScale declared) (correct incorrect : ℕ) :
    (clampedRound (halfEven (declared * stableScale)) (ofNumber rule.maxAdjustment * stableScale)
      (shrink (ofNumber rule.priorWeight) declared correct incorrect * stableScale) : ℚ) =
      movedReliability rule declared correct incorrect * stableScale := by
  have hscale : stableScale ≠ 0 := stableScale_pos.ne'
  have hunit : ∀ x : ℚ, stable x * stableScale = halfEven (x * stableScale) := fun x =>
    div_mul_cancel₀ _ hscale
  have hdeclared : (halfEven (declared * stableScale) : ℚ) = declared * stableScale := by
    rw [← hunit, stable_of_grid hgrid]
  rw [clampedRound, movedReliability, applied_eq, hunit, hdeclared, posterior_eq, ← hunit, ← sub_mul,
    ← clamp_mul stableScale_pos.le, ← add_mul]

/-- **When rounding keeps the bound.** -/
theorem abs_moved_sub_le_iff (rule : ReliabilityUpdatePolicy) {declared : ℚ}
    (hgrid : OnGrid stableScale declared) (correct incorrect : ℕ) :
    |movedReliability rule declared correct incorrect - declared| ≤ ofNumber rule.maxAdjustment ↔
      KeepsBound rule declared correct incorrect := by
  have hscale := stableScale_pos
  have hbound : (0 : ℚ) ≤ ofNumber rule.maxAdjustment * stableScale :=
    mul_nonneg (unit_nonneg _) hscale.le
  have hdeclared : (halfEven (declared * stableScale) : ℚ) = declared * stableScale := by
    have h := stable_of_grid hgrid
    rwa [stable_eq, gridRound, div_eq_iff hscale.ne'] at h
  have h := abs_clampedRound_sub_le_iff (D := halfEven (declared * stableScale)) hbound
    (shrink (ofNumber rule.priorWeight) declared correct incorrect * stableScale)
  rw [moved_mul_scale hgrid, hdeclared, ← sub_mul, ← sub_mul, abs_mul, abs_mul, abs_of_pos hscale,
    mul_le_mul_iff_of_pos_right hscale] at h
  exact h

/-- **Records keep their promise** exactly when rounding keeps the bound. The rest of the promise
always holds. -/
theorem adjustment_bounded_iff {policy : Policy} {rule : ReliabilityUpdatePolicy}
    (hrule : policy.reliabilityUpdates = some rule) {adjudications : List Adjudication}
    (hdistinct : (adjudications.map (·.eventId)).Nodup) :
    ∃ adjustments : List (ReliabilityAdjustment ℚ),
      adjustReliabilities policy adjudications = .ok adjustments ∧
      adjustments.map (·.source) = List.sortedSet (adjudications.map (·.source)) ∧
      ∀ a ∈ adjustments, a.Between ∧
        (a.Bounded rule ↔ KeepsBound rule (stable (ofNumber (policy.reliabilityFor a.source)))
          (verdictCount adjudications a.source .correct)
          (verdictCount adjudications a.source .incorrect)) := by
  refine ⟨_, adjustReliabilities_eq hrule hdistinct, ?_, ?_⟩
  · rw [List.map_map]
    exact List.map_id _
  · intro a ha
    obtain ⟨source, -, rfl⟩ := List.mem_map.mp ha
    have hiff := abs_moved_sub_le_iff rule
      (onGrid_stable (ofNumber (policy.reliabilityFor source)))
      (verdictCount adjudications source .correct) (verdictCount adjudications source .incorrect)
    have hbetween : (sourceAdjustment policy rule adjudications source).Between :=
      ⟨moved_between rule policy source _ _, moved_mem_unit rule policy source _ _⟩
    refine ⟨hbetween, fun h => hiff.mp h.bounded, fun h => ⟨hbetween, hiff.mpr h⟩⟩

/-- The float `2.0 ** -40`, nearly one unit of the twelfth digit. -/
def nearlyOneUnit : Number .unit := ⟨⟨false, 983 * 2 ^ 52, by decide⟩, by decide, by decide +kernel⟩

/-- The float `2.0 ** -41`, less than half a unit of the twelfth digit. -/
def belowHalfUnit : Number .unit := ⟨⟨false, 982 * 2 ^ 52, by decide⟩, by decide, by decide +kernel⟩

def sampleSource : Text := .literal "s"

/-- A policy that declares this reliability for its source and moves it by this much at most. -/
def updatingPolicy (reliability maxAdjustment : Number .unit) : Policy :=
  { samplePolicy (sampleRule onePositive) with
    sources := ⟨[(sampleSource, ⟨reliability⟩)], List.nodup_singleton _⟩
    reliabilityUpdates := some ⟨oneSecond, maxAdjustment⟩ }

/-- A judgement about an observation of the source. -/
def judgement (eventId : Text) (verdict : Verdict) : Adjudication :=
  ⟨eventId, sampleSource, verdict, .earliest⟩

def correctJudgement : Adjudication := judgement (.literal "a") .correct

/-- **Half trust moves by a whole unit** under a bound of less than one. -/
theorem adjustment_exceeds_bound :
    (adjustReliabilities (updatingPolicy halfUnit nearlyOneUnit) [correctJudgement]).toOption.map
      (fun adjustments => adjustments.map fun a : ReliabilityAdjustment ℚ =>
        (a.declaredReliability, a.appliedReliability,
          decide (|a.appliedReliability - a.declaredReliability| ≤ ofNumber nearlyOneUnit))) =
      some [(1 / 2, 1 / 2 + 1 / 10 ^ 12, false)] := by
  decide +kernel

/-- The record of half trust under the larger bound of one half. -/
theorem adjustment_bounded_iff_half : ∃ adjustments : List (ReliabilityAdjustment ℚ),
    adjustReliabilities (updatingPolicy halfUnit halfUnit) [correctJudgement] = .ok adjustments ∧
    adjustments.map (·.source) = [sampleSource] ∧
    ∀ a ∈ adjustments, a.Between := by
  obtain ⟨adjustments, hadjust, hsources, hbounded⟩ :=
    @adjustment_bounded_iff (updatingPolicy halfUnit halfUnit) _ rfl [correctJudgement]
      (List.nodup_singleton _)
  exact ⟨adjustments, hadjust, hsources, fun a ha => (hbounded a ha).1⟩

/-! ## Directions -/

theorem moved_zero (rule : ReliabilityUpdatePolicy) (policy : Policy) (source : Text) :
    movedReliability rule (declaredReliability policy source) 0 0 =
      declaredReliability policy source := by
  have hgrid : stable (declaredReliability policy source) = declaredReliability policy source :=
    stable_of_grid (onGrid_stable _)
  rw [movedReliability, applied_eq, posterior_eq, shrink_zero (positive_pos _), hgrid, sub_self,
    clamp_zero (unit_nonneg _), add_zero, hgrid]

/-- What raises the exact posterior does not lower the applied reliability. -/
theorem moved_mono (rule : ReliabilityUpdatePolicy) {declared : ℚ} {c i c' i' : ℕ}
    (h : shrink (ofNumber rule.priorWeight) declared c i ≤
      shrink (ofNumber rule.priorWeight) declared c' i') :
    movedReliability rule declared c i ≤ movedReliability rule declared c' i' := by
  apply stable_mono
  apply add_le_add_right
  apply clamp_mono
  apply sub_le_sub_right
  exact stable_mono h

/-- The reliability that weighs a source's events. -/
def weighingReliability (policy : Policy) (adjustments : List (ReliabilityAdjustment ℚ))
    (source : Text) : ℚ :=
  (reliabilityOf adjustments source).getD (ofNumber (policy.reliabilityFor source))

theorem find?_map_source {policy : Policy} {rule : ReliabilityUpdatePolicy}
    {adjudications : List Adjudication} {source : Text} : ∀ {sources : List Text}, source ∈ sources →
      (sources.map (sourceAdjustment policy rule adjudications)).find? (fun a => a.source = source) =
        some (sourceAdjustment policy rule adjudications source)
  | first :: rest, hsource => by
    rw [List.map_cons, List.find?_cons]
    by_cases hfirst : first = source
    · subst hfirst
      simp [sourceAdjustment]
    · have hrest := (List.mem_cons.mp hsource).resolve_left (Ne.symm hfirst)
      have hne : decide ((sourceAdjustment policy rule adjudications first).source = source) = false :=
        decide_eq_false hfirst
      rw [hne]
      exact find?_map_source hrest

/-- The applied reliability of a source is what its counts make it. -/
theorem reliabilityOf_adjustments {policy : Policy} {rule : ReliabilityUpdatePolicy}
    (adjudications : List Adjudication) (source : Text) :
    reliabilityOf ((List.sortedSet (adjudications.map (·.source))).map
      (sourceAdjustment policy rule adjudications)) source =
      if source ∈ adjudications.map (·.source) then
        some (movedReliability rule (declaredReliability policy source)
          (verdictCount adjudications source .correct) (verdictCount adjudications source .incorrect))
      else none := by
  unfold reliabilityOf
  split_ifs with hsource
  · rw [find?_map_source (List.mem_sortedSet.mpr hsource)]
    rfl
  · rw [Option.map_eq_none_iff, List.find?_eq_none]
    intro a ha
    obtain ⟨other, hother, rfl⟩ := List.mem_map.mp ha
    simp only [decide_eq_true_eq]
    rintro rfl
    exact hsource (List.mem_sortedSet.mp hother)

theorem verdictCount_of_not_mem {adjudications : List Adjudication} {source : Text}
    (hsource : source ∉ adjudications.map (·.source)) (verdict : Verdict) :
    verdictCount adjudications source verdict = 0 := by
  rw [verdictCount, List.length_eq_zero_iff, verdictIds, List.map_eq_nil_iff, List.filter_eq_nil_iff]
  intro a ha
  simp only [Bool.and_eq_true, decide_eq_true_eq, not_and]
  intro hsame
  exact absurd (List.mem_map.mpr ⟨a, ha, hsame⟩) hsource

/-- At the shared precision, every source weighs what its counts make it. -/
theorem stable_weighing {policy : Policy} {rule : ReliabilityUpdatePolicy}
    (adjudications : List Adjudication) (source : Text) :
    stable (weighingReliability policy ((List.sortedSet (adjudications.map (·.source))).map
      (sourceAdjustment policy rule adjudications)) source) =
      movedReliability rule (declaredReliability policy source)
        (verdictCount adjudications source .correct)
        (verdictCount adjudications source .incorrect) := by
  rw [weighingReliability, reliabilityOf_adjustments]
  split_ifs with hsource
  · exact stable_of_grid (onGrid_stable _)
  · rw [verdictCount_of_not_mem hsource, verdictCount_of_not_mem hsource, moved_zero]
    rfl

theorem weighing_of_mem {policy : Policy} {rule : ReliabilityUpdatePolicy}
    {adjudications : List Adjudication} {source : Text}
    (hsource : source ∈ adjudications.map (·.source)) :
    weighingReliability policy ((List.sortedSet (adjudications.map (·.source))).map
      (sourceAdjustment policy rule adjudications)) source =
      movedReliability rule (declaredReliability policy source)
        (verdictCount adjudications source .correct)
        (verdictCount adjudications source .incorrect) := by
  rw [weighingReliability, reliabilityOf_adjustments, if_pos hsource]
  rfl

/-- One more adjudication counts for its own source and verdict. -/
theorem verdictCount_extended {adjudications adjudications' : List Adjudication} {a : Adjudication}
    (hperm : adjudications'.Perm (a :: adjudications)) (source : Text) (verdict : Verdict) :
    verdictCount adjudications' source verdict = verdictCount adjudications source verdict +
      if a.source = source ∧ a.verdict = verdict then 1 else 0 := by
  have hfilter := hperm.filter fun item => item.source = source && item.verdict = verdict
  rw [verdictCount, verdictIds, (hfilter.map _).length_eq, verdictCount, verdictIds, List.length_map,
    List.length_map, List.filter_cons]
  split_ifs with h₁ h₂ h₂
  · rfl
  · exact absurd (by simpa using h₁) h₂
  · exact absurd (by simpa using h₂) h₁
  · rfl

/-- Other sources weigh what they did. -/
theorem weighing_extended {policy : Policy} {rule : ReliabilityUpdatePolicy}
    {adjudications adjudications' : List Adjudication} {a : Adjudication}
    (hperm : adjudications'.Perm (a :: adjudications)) {source : Text} (hne : source ≠ a.source) :
    weighingReliability policy ((List.sortedSet (adjudications'.map (·.source))).map
      (sourceAdjustment policy rule adjudications')) source =
    weighingReliability policy ((List.sortedSet (adjudications.map (·.source))).map
      (sourceAdjustment policy rule adjudications)) source := by
  have hmem : source ∈ adjudications'.map (·.source) ↔ source ∈ adjudications.map (·.source) := by
    rw [(hperm.map _).mem_iff, List.map_cons, List.mem_cons]
    exact or_iff_right hne
  have hcount : ∀ verdict, verdictCount adjudications' source verdict =
      verdictCount adjudications source verdict := fun verdict => by
    rw [verdictCount_extended hperm, if_neg fun h => hne h.1.symm, add_zero]
  rw [weighingReliability, weighingReliability, reliabilityOf_adjustments, reliabilityOf_adjustments,
    hcount, hcount]
  simp only [hmem]

/-- **Verdicts move their own source**, and in their direction. Without `a`, with `a` found correct and
with `a` found incorrect, a source that `a` judges weighs more in that order, from its reliability at
the shared precision; every other source weighs the same. -/
theorem applied_monotone {policy : Policy} {rule : ReliabilityUpdatePolicy}
    (hrule : policy.reliabilityUpdates = some rule) {adjudications : List Adjudication}
    {a : Adjudication} (hdistinct : ((a :: adjudications).map (·.eventId)).Nodup)
    {correct incorrect : List Adjudication}
    (hcorrect : correct.Perm ({ a with verdict := .correct } :: adjudications))
    (hincorrect : incorrect.Perm ({ a with verdict := .incorrect } :: adjudications)) :
    ∃ before right wrong : List (ReliabilityAdjustment ℚ),
      adjustReliabilities policy adjudications = .ok before ∧
      adjustReliabilities policy correct = .ok right ∧
      adjustReliabilities policy incorrect = .ok wrong ∧
      stable (weighingReliability policy before a.source) ≤
        weighingReliability policy right a.source ∧
      weighingReliability policy wrong a.source ≤
        stable (weighingReliability policy before a.source) ∧
      weighingReliability policy wrong a.source ≤ weighingReliability policy right a.source ∧
      (a.source ∈ adjudications.map (·.source) →
        stable (weighingReliability policy before a.source) =
          weighingReliability policy before a.source) ∧
      ∀ other, other ≠ a.source →
        weighingReliability policy right other = weighingReliability policy before other ∧
        weighingReliability policy wrong other = weighingReliability policy before other := by
  obtain ⟨hzero, hone⟩ := declared_mem_unit policy a.source
  have hw := positive_pos rule.priorWeight
  have hright : a.source ∈ correct.map (·.source) :=
    (hcorrect.map _).mem_iff.mpr List.mem_cons_self
  have hwrong : a.source ∈ incorrect.map (·.source) :=
    (hincorrect.map _).mem_iff.mpr List.mem_cons_self
  have hc := verdictCount_extended hcorrect a.source
  have hi := verdictCount_extended hincorrect a.source
  simp only [true_and] at hc hi
  refine ⟨_, _, _, adjustReliabilities_eq hrule (List.nodup_cons.mp hdistinct).2,
    adjustReliabilities_eq hrule ((hcorrect.map _).nodup_iff.mpr hdistinct),
    adjustReliabilities_eq hrule ((hincorrect.map _).nodup_iff.mpr hdistinct), ?_, ?_, ?_, ?_, ?_⟩
  · rw [stable_weighing, weighing_of_mem hright, hc, hc]
    exact moved_mono rule (shrink_le_shrink_succ hw hone _ _)
  · rw [stable_weighing, weighing_of_mem hwrong, hi, hi]
    exact moved_mono rule (shrink_succ_le_shrink hw hzero _ _)
  · rw [weighing_of_mem hright, weighing_of_mem hwrong, hc, hc, hi, hi]
    exact moved_mono rule (shrink_exchange hw _ _)
  · intro hsource
    rw [stable_weighing, weighing_of_mem hsource]
  · intro other hother
    exact ⟨weighing_extended hcorrect hother, weighing_extended hincorrect hother⟩

/-- **A first confirmation lowers a reliability** that is rounded down. -/
theorem first_confirmation_lowers :
    ((adjustReliabilities (updatingPolicy belowHalfUnit zeroUnit) [correctJudgement]).toOption.map
      fun adjustments => (weighingReliability (updatingPolicy belowHalfUnit zeroUnit) [] sampleSource,
        weighingReliability (updatingPolicy belowHalfUnit zeroUnit) adjustments sampleSource)) =
      some (1 / 2 ^ 41, 0) := by
  decide +kernel

/-- One observation of half trust, judged either way. -/
theorem applied_monotone_half : ∃ before right wrong : List (ReliabilityAdjustment ℚ),
    adjustReliabilities (updatingPolicy halfUnit halfUnit) [] = .ok before ∧
    adjustReliabilities (updatingPolicy halfUnit halfUnit) [correctJudgement] = .ok right ∧
    adjustReliabilities (updatingPolicy halfUnit halfUnit)
      [{ correctJudgement with verdict := .incorrect }] = .ok wrong ∧
    stable (weighingReliability (updatingPolicy halfUnit halfUnit) before sampleSource) ≤
      weighingReliability (updatingPolicy halfUnit halfUnit) right sampleSource := by
  obtain ⟨before, right, wrong, hbefore, hright, hwrong, hle, -⟩ :=
    @applied_monotone (updatingPolicy halfUnit halfUnit) _ rfl [] correctJudgement
      (List.nodup_singleton _) _ _ (List.Perm.refl _) (List.Perm.refl _)
  exact ⟨before, right, wrong, hbefore, hright, hwrong, hle⟩

end EvidenceBraid
