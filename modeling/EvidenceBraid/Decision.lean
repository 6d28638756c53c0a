import EvidenceBraid.EngineProof

/-!
# Decisions

An outcome is meant to be backed by its gate, its threshold and a margin in its favour
(`ClaimDecision.Sound`). `_choose_outcome` compares the margin with `min_margin`, which may be zero.
So a decision is sound unless its scores are equal, `min_margin` rounds to zero, and only one of the
signals passes its gate and reaches its threshold (`decision_sound_iff`): then the balanced claim is
escalated or rejected.
-/

namespace EvidenceBraid

open Arithmetic

variable {N : Type} [Arithmetic N]

/-- A signal passes its gate and reaches its threshold, at the shared precision. -/
def SignalSummary.Passes (s : SignalSummary N) (threshold : Number .unit) : Prop :=
  s.gatePassed = true ∧ stable (ofNumber threshold) ≤ s.score

/-- A confident outcome is backed by its signal and by a margin; a balanced claim is reviewed. -/
structure ClaimDecision.Sound (rule : ClaimRule) (d : ClaimDecision N) : Prop where
  escalate : d.outcome = .escalate → d.support.Passes rule.supportThreshold ∧ 0 < d.margin ∧
    stable (ofNumber rule.minMargin) ≤ d.margin
  reject : d.outcome = .reject → d.contradict.Passes rule.contradictionThreshold ∧ d.margin < 0 ∧
    d.margin ≤ -stable (ofNumber rule.minMargin)
  balanced : d.support.score = d.contradict.score → d.outcome = .review

/-- The scores are equal, no margin is required, and only one signal passes. -/
def OneSidedTie (rule : ClaimRule) (support contradict : SignalSummary N) : Prop :=
  stable (ofNumber rule.minMargin : N) = 0 ∧ support.score = contradict.score ∧
    ¬ (support.Passes rule.supportThreshold ↔ contradict.Passes rule.contradictionThreshold)

/-- What is left of a claim's visible events after weighting and grouping. -/
def claimSelections (exp2 : N → N) (policy : Policy) (events : List EvidenceEvent) (asOf : Datetime)
    (adjudications : List Adjudication) (claim : Text) : Result (List (CorrelationSelection N)) := do
  let adjustments ← adjustReliabilities policy (knowable adjudications asOf)
  let weighted ← weightEvents exp2 (visibleOf events asOf claim) policy asOf (reliabilityOf adjustments)
  collapseCorrelated weighted

/-! ## The branches -/

variable [LawfulArithmetic N]

open LawfulArithmetic

theorem score_stable {signal : Signal} {selections : List (CorrelationSelection N)} {rule : ClaimRule}
    {s : SignalSummary N} (h : summarizeSignal signal selections rule = .ok s) :
    stable s.score = s.score := by
  simp only [summarizeSignal, SignalSummary.make, bind_eq_ok, valid_eq_ok, exists_unit,
    Except.ok.injEq] at h
  obtain ⟨_, -, -, -, -, rfl⟩ := h
  exact stable_stable _

theorem minMargin_nonneg (rule : ClaimRule) : 0 ≤ stable (ofNumber rule.minMargin : N) := by
  have hnumber : 0 ≤ rule.minMargin.value.toRat := by
    have hzero : Bounds.unit.minimum.toRat = 0 := by decide +kernel
    exact hzero ▸ rule.minMargin.holds.1
  exact (stable_zero (N := N)).symm.trans_le (stable_mono (ofFloat_nonneg _ hnumber))

/-- A signal backs an outcome: it passes, and the margin in its favour is large enough. -/
def Backed (rule : ClaimRule) (s : SignalSummary N) (threshold : Number .unit) (margin : N) : Prop :=
  s.Passes threshold ∧ stable (ofNumber rule.minMargin) ≤ margin

theorem review_ite {c : Prop} [Decidable c] {a b : Outcome × String} (ha : a.1 = .review)
    (hb : b.1 = .review) : (if c then a else b).1 = .review := by
  split <;> assumption

/-- Of two conditions, the one that holds alone is decided for. -/
theorem confident_iff {escalates rejects : Prop} [Decidable escalates] [Decidable rejects]
    {both supported contradicted : String} {rest : Outcome × String} (hrest : rest.1 = .review) :
    ((if escalates ∧ rejects then (.review, both) else if escalates then (.escalate, supported)
      else if rejects then (.reject, contradicted) else rest).1 = Outcome.escalate ↔
        escalates ∧ ¬ rejects) ∧
    ((if escalates ∧ rejects then (.review, both) else if escalates then (.escalate, supported)
      else if rejects then (.reject, contradicted) else rest).1 = Outcome.reject ↔
        rejects ∧ ¬ escalates) := by
  by_cases hescalates : escalates <;> by_cases hrejects : rejects <;>
    simp [hescalates, hrejects, hrest]

omit [LawfulArithmetic N] in
/-- The confident branches. -/
theorem chooseOutcome_cases (rule : ClaimRule) {support contradict : SignalSummary N}
    (hs : stable support.score = support.score) (hc : stable contradict.score = contradict.score)
    {margin : N} (hmargin : margin = stable (support.score - contradict.score)) :
    ((chooseOutcome support contradict rule).1 = .escalate ↔
      Backed rule support rule.supportThreshold margin ∧
        ¬ Backed rule contradict rule.contradictionThreshold (-margin)) ∧
    ((chooseOutcome support contradict rule).1 = .reject ↔
      Backed rule contradict rule.contradictionThreshold (-margin) ∧
        ¬ Backed rule support rule.supportThreshold margin) := by
  have hE : Backed rule support rule.supportThreshold margin ↔ support.gatePassed = true ∧
      stable (ofNumber rule.supportThreshold) ≤ support.score ∧
      stable (ofNumber rule.minMargin) ≤ margin := and_assoc
  have hR : Backed rule contradict rule.contradictionThreshold (-margin) ↔
      contradict.gatePassed = true ∧
      stable (ofNumber rule.contradictionThreshold) ≤ contradict.score ∧
      stable (ofNumber rule.minMargin) ≤ -margin := and_assoc
  rw [hE, hR, chooseOutcome, hs, hc, ← hmargin]
  exact confident_iff (review_ite rfl (review_ite rfl (review_ite rfl rfl)))

/-- **A decision is sound** unless it resolves a tie by one signal's gate. -/
theorem sound_iff {rule : ClaimRule} {d : ClaimDecision N}
    (hs : stable d.support.score = d.support.score)
    (hc : stable d.contradict.score = d.contradict.score)
    (hmargin : d.margin = stable (d.support.score - d.contradict.score))
    (houtcome : d.outcome = (chooseOutcome d.support d.contradict rule).1) :
    d.Sound rule ↔ ¬ OneSidedTie rule d.support d.contradict := by
  obtain ⟨hescalate, hreject⟩ := chooseOutcome_cases rule hs hc hmargin
  rw [← houtcome] at hescalate hreject
  have hzero : d.margin = 0 ↔ d.support.score = d.contradict.score := by
    constructor
    · intro h
      rw [hmargin, ← hs, ← hc] at h
      exact (hs.symm.trans (eq_of_stable_sub _ _ h)).trans hc
    · intro h
      rw [hmargin, h, LawfulArithmetic.sub_self, stable_zero]
  have hnonneg := minMargin_nonneg (N := N) rule
  constructor
  · rintro hsound ⟨hmin, htie, hone⟩
    have hm := hzero.mpr htie
    have hreview := hsound.balanced htie
    -- without a margin, whichever signal passes is backed
    have hbacked : ∀ s : SignalSummary N, ∀ t, Backed rule s t 0 ↔ s.Passes t := fun s t =>
      and_iff_left hmin.le
    rw [hreview, hm] at hescalate hreject
    rw [LawfulArithmetic.neg_zero, hbacked, hbacked] at hescalate hreject
    simp only [reduceCtorEq, false_iff, not_and, not_not] at hescalate hreject
    exact hone ⟨hescalate, hreject⟩
  · intro hno
    -- a balanced claim is not backed on one side only
    have hbalanced : d.support.score = d.contradict.score →
        (Backed rule d.support rule.supportThreshold d.margin ↔
          Backed rule d.contradict rule.contradictionThreshold (-d.margin)) := by
      intro htie
      have hm := hzero.mpr htie
      rw [hm, LawfulArithmetic.neg_zero]
      by_cases hmin : stable (ofNumber rule.minMargin : N) = 0
      · by_contra hne
        refine hno ⟨hmin, htie, fun hiff => hne ?_⟩
        exact and_congr_left fun _ => hiff
      · have hpos : ¬ stable (ofNumber rule.minMargin : N) ≤ 0 := fun h =>
          hmin (le_antisymm h hnonneg)
        exact iff_of_false (fun h => hpos h.2) (fun h => hpos h.2)
    refine ⟨fun h => ?_, fun h => ?_, fun htie => ?_⟩
    · obtain ⟨⟨hpasses, hle⟩, hnot⟩ := hescalate.mp h
      refine ⟨hpasses, lt_of_le_of_ne (hnonneg.trans hle) fun hm => hnot ?_, hle⟩
      exact (hbalanced (hzero.mp hm.symm)).mp ⟨hpasses, hle⟩
    · obtain ⟨⟨hpasses, hle⟩, hnot⟩ := hreject.mp h
      have hle' := (le_neg _ _).mp hle
      have hneg : d.margin ≤ 0 := by
        have hup := (le_neg _ _).mp (hnonneg.trans hle)
        rwa [LawfulArithmetic.neg_zero] at hup
      refine ⟨hpasses, lt_of_le_of_ne hneg fun hm => hnot ?_, hle'⟩
      exact (hbalanced (hzero.mp hm)).mpr ⟨hpasses, hle⟩
    · have hiff := hbalanced htie
      rcases houtcome' : d.outcome with _ | _ | _
      · exact absurd (hiff.mp (hescalate.mp houtcome').1) (hescalate.mp houtcome').2
      · exact absurd (hiff.mpr (hreject.mp houtcome').1) (hreject.mp houtcome').2
      · rfl

/-- **When a decision is sound.** -/
theorem decision_sound_iff {exp2 : N → N} {policy : Policy} {events : List EvidenceEvent}
    {asOf : Datetime} {adjudications : List Adjudication} {r : EvaluationResult N}
    (h : evaluate exp2 policy events asOf adjudications = .ok r) {d : ClaimDecision N}
    (hd : d ∈ r.decisions) :
    ∃ (rule : ClaimRule) (selections : List (CorrelationSelection N))
      (support contradict : SignalSummary N), policy.claims.get? d.claim = some rule ∧
      claimSelections exp2 policy events asOf adjudications d.claim = .ok selections ∧
      summarize selections rule = .ok (support, contradict) ∧
      (d.Sound rule ↔ ¬ OneSidedTie rule support contradict) := by
  obtain ⟨rule, adjustments, hrule, hadjust, hclaim⟩ := exists_evaluateClaim h hd
  simp only [evaluateClaim, bind_eq_ok] at hclaim
  obtain ⟨weighted, hweighted, selections, hselections, ⟨support, contradict⟩, hsummaries,
    hclaim⟩ := hclaim
  obtain ⟨trace, -, correlations, -, hmake⟩ := hclaim
  obtain ⟨-, houtcome, hsupport, hcontradict, hmargin⟩ := ClaimDecision.of_make hmake
  dsimp only at houtcome hsupport hcontradict hmargin
  refine ⟨rule, selections, support, contradict, hrule, ?_, hsummaries, ?_⟩
  · simp only [claimSelections, bind_eq_ok]
    exact ⟨adjustments, hadjust, weighted, hweighted, hselections⟩
  · simp only [summarize, bind_eq_ok, Except.ok.injEq, Prod.mk.injEq] at hsummaries
    obtain ⟨_, hs, _, hc, rfl, rfl⟩ := hsummaries
    rw [← hsupport, ← hcontradict]
    exact sound_iff (hsupport ▸ score_stable hs) (hcontradict ▸ score_stable hc)
      (by rw [hmargin, hsupport, hcontradict]) (by rw [houtcome, hsupport, hcontradict])

/-! ## A balanced claim -/

/-- Two supporting observations that together weigh as much as one contradiction. -/
def balancedEvents : List EvidenceEvent :=
  [observation (.literal "a") .support halfUnit,
    observation (.literal "b") .support halfUnit,
    observation (.literal "d") .contradict threeQuarters]

/-- Of the two signals, only support has a quorum of two. -/
def balancedPolicy : Policy := samplePolicy (sampleRule ⟨2, by decide, by decide +kernel⟩)

theorem evaluate_balanced : ((evaluate integerPower balancedPolicy balancedEvents ⟨0, by decide⟩
    []).toOption.map fun r => r.decisions.map fun d =>
      (d.outcome, d.support.score, d.contradict.score, d.margin)) =
        some [(.escalate, 3 / 4, 3 / 4, 0)] := by
  decide +kernel

/-- The one decision about the balanced claim. -/
theorem exists_balanced : ∃ (r : EvaluationResult ℚ) (d : ClaimDecision ℚ),
    evaluate integerPower balancedPolicy balancedEvents ⟨0, by decide⟩ [] = .ok r ∧
      d ∈ r.decisions ∧ d.outcome = .escalate ∧ d.support.score = 3 / 4 ∧
      d.contradict.score = 3 / 4 ∧ d.margin = 0 := by
  have h := evaluate_balanced
  rcases hr : evaluate integerPower balancedPolicy balancedEvents ⟨0, by decide⟩ [] with e | r
  · rw [hr] at h
    cases h
  · rw [hr] at h
    obtain ⟨d, hd, hfields⟩ := List.map_eq_singleton_iff.mp (Option.some.inj h)
    simp only [Prod.mk.injEq] at hfields
    exact ⟨r, d, rfl, hd ▸ List.mem_singleton_self d, hfields⟩

/-- **A balanced claim is escalated.** -/
theorem balanced_escalated : ∃ (r : EvaluationResult ℚ) (d : ClaimDecision ℚ),
    evaluate integerPower balancedPolicy balancedEvents ⟨0, by decide⟩ [] = .ok r ∧
      d ∈ r.decisions ∧ d.support.score = d.contradict.score ∧ d.outcome ≠ .review ∧
      d.outcome = .escalate ∧ ¬ 0 < d.margin := by
  obtain ⟨r, d, hr, hd, houtcome, hs, hc, hmargin⟩ := exists_balanced
  refine ⟨r, d, hr, hd, hs.trans hc.symm, ?_, houtcome, hmargin.symm ▸ lt_irrefl _⟩
  rw [houtcome]
  decide

/-- The decision about the balanced claim is a tie that one gate resolves. -/
theorem decision_sound_iff_balanced : ∃ (r : EvaluationResult ℚ) (d : ClaimDecision ℚ)
    (rule : ClaimRule) (support contradict : SignalSummary ℚ),
    evaluate integerPower balancedPolicy balancedEvents ⟨0, by decide⟩ [] = .ok r ∧
      d ∈ r.decisions ∧ (d.Sound rule ↔ ¬ OneSidedTie rule support contradict) := by
  obtain ⟨r, d, hr, hd, -⟩ := exists_balanced
  obtain ⟨rule, -, support, contradict, -, -, -, hsound⟩ := decision_sound_iff hr hd
  exact ⟨r, d, rule, support, contradict, hr, hd, hsound⟩

end EvidenceBraid
