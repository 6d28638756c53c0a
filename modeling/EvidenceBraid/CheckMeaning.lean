import EvidenceBraid.CheckMonotone

/-!
# What check results say

**Theorem (`evaluateChecks_means`).** What `evaluate_checks` returns has for every rule the outcome
that the rule means of the retained bytes, in documents and paths alone, and fails, is undecided or
passes as a whole as its rules do.

**Idea.** A rule's meaning is stated with `Json.Resolves`, as a predicate that may be undecided
(`CheckOutcome.Judges`). `_rule` follows a path as `Json.at?` does
(`checkAt_eq_ok`), so the spec of each operator is a case distinction on what the paths lead to.
The host identifies booleans with integers, but `_equal` compares the types first, so it is equality
of documents (`typed_scalarEq`).
-/

namespace EvidenceBraid

open Hashing
open Json (PathPart Resolves)
open Metered (allow_eq_ok lift_eq_ok tally_eq_ok)

/-! ## The meaning of rules -/

/-- The outcome of a predicate that may be undecided. -/
structure CheckOutcome.Judges (o : CheckOutcome) (undecided holds : Prop) : Prop where
  unknown_iff : o = .unknown ↔ undecided
  pass_iff : o = .pass ↔ ¬undecided ∧ holds

theorem CheckOutcome.Judges.fail_iff {o : CheckOutcome} {undecided holds : Prop}
    (h : o.Judges undecided holds) : o = .fail ↔ ¬undecided ∧ ¬holds := by
  obtain ⟨hunknown, hpass⟩ := h
  cases o with
  | pass =>
    have hholds := hpass.mp rfl
    simp [hholds]
  | fail =>
    have hdecided : ¬undecided := fun hu => absurd (hunknown.mpr hu) (by decide)
    have hfalse : ¬holds := fun hh => absurd (hpass.mpr ⟨hdecided, hh⟩) (by decide)
    simp [hdecided, hfalse]
  | unknown => simp [hunknown.mp rfl]

/-- A path without a scalar at its end: it leads nowhere, or to a container. -/
def NoScalar (document : Json) (path : CheckPath) : Prop :=
  (¬∃ v, Resolves document path.parts v) ∨ ∃ v, Resolves document path.parts v ∧ v.IsContainer

/-- **What a rule means** of the documents and the bytes of its artifacts. -/
def CheckRule.Means (document : Identifier → Json) (content : Identifier → Bytes) (rule : CheckRule)
    (o : CheckOutcome) : Prop :=
  match rule.operator with
  | .exists => o.Judges False (∃ v, Resolves (document rule.artifactId) rule.path.parts v)
  | .equals =>
    o.Judges (NoScalar (document rule.artifactId) rule.path)
      (∃ v ∈ rule.expected, Resolves (document rule.artifactId) rule.path.parts v)
  | .integerRange => ∃ a ∈ rule.minimum, ∃ b ∈ rule.maximum,
    o.Judges (¬∃ n, Resolves (document rule.artifactId) rule.path.parts (.int n))
      (∃ n, Resolves (document rule.artifactId) rule.path.parts (.int n) ∧ a ≤ n ∧ n ≤ b)
  | .sameValue => ∃ other ∈ rule.otherArtifactId, ∃ otherPath ∈ rule.otherPath,
    o.Judges (NoScalar (document rule.artifactId) rule.path ∨ NoScalar (document other) otherPath)
      (∃ v, Resolves (document rule.artifactId) rule.path.parts v ∧
        Resolves (document other) otherPath.parts v)
  | .bytesEqual => ∃ other ∈ rule.otherArtifactId,
    o.Judges False (content rule.artifactId = content other)

/-! ## Scalars -/

/-- **Typed equality is equality**: `True` is not `1`. -/
theorem typed_scalarEq (v w : Json) :
    (typeOf v = typeOf w && scalarEq v w) = true ↔ v = w := by
  rw [Bool.and_eq_true, decide_eq_true_eq]
  cases v <;> cases w <;> simp [typeOf, scalarEq]

/-- A node that the loop admits is a scalar of the profile or a container. -/
theorem isCheckScalar_eq_false {v : Json} (h : CheckNode v) :
    isCheckScalar v = false ↔ v.IsContainer := by
  cases v with
  | arr xs => simp [isCheckScalar, Json.IsContainer]
  | obj kvs => simp [isCheckScalar, Json.IsContainer]
  | _ =>
    have hscalar := require_eq_ok.mp h
    simp [hscalar, Json.IsContainer]

/-! ## Paths -/

/-- The work of following a path. -/
def pathCost (value : Json) : List PathPart → ℕ
  | [] => 0
  | part :: path =>
    1 + textLength (CheckPath.partJson part) +
      ((Json.step? value part).map fun next => pathCost next path).getD 0

/-- **`_at` follows the path**, at its cost. -/
theorem checkAt_eq_ok {limits : CheckLimits} {path : List PathPart} : ∀ {value : Json}
    {budget : Budget} {r : Option Json × Budget}, budget.used ≤ limits.maxWorkUnits →
      (checkAt value path limits budget = .ok r ↔
        budget.used + pathCost value path ≤ limits.maxWorkUnits ∧
          r = (Json.at? value path, { budget with used := budget.used + pathCost value path })) := by
  induction path with
  | nil =>
    intro value budget r hused
    simp [checkAt, pathCost, Json.at?, hused]
  | cons part path ih =>
    intro value budget r hused
    simp only [checkAt, Metered.bind_eq_ok, charge_eq_ok, pathCost, Json.at?]
    cases hstep : Json.step? value part with
    | none =>
      simp only [Metered.pure_eq_ok, Option.map_none, Option.getD_none, Option.bind_none]
      constructor
      · intro h
        obtain ⟨-, b, ⟨hle, rfl⟩, hr⟩ := h
        exact ⟨hle, hr⟩
      · intro h
        exact ⟨(), _, ⟨h.1, rfl⟩, h.2⟩
    | some next =>
      simp only [Option.map_some, Option.getD_some, Option.bind_some, ← Nat.add_assoc]
      constructor
      · intro h
        obtain ⟨-, b, ⟨hle, rfl⟩, hr⟩ := h
        exact (ih hle).mp hr
      · intro h
        have hle : budget.used + 1 + textLength (CheckPath.partJson part) ≤ limits.maxWorkUnits := by
          omega
        exact ⟨(), ⟨budget.used + 1 + textLength (CheckPath.partJson part), budget.nodes⟩,
          ⟨hle, rfl⟩, (ih hle).mpr h⟩

/-- Whether a path has a scalar at its end. -/
theorem noScalar_iff {document : Json} {path : CheckPath}
    (hnodes : ∀ item ∈ Json.popped document, CheckNode item) :
    NoScalar document path ↔ Json.at? document path.parts = none ∨
      ∃ v, Json.at? document path.parts = some v ∧ isCheckScalar v = false := by
  have hscalar : ∀ v, Resolves document path.parts v → (isCheckScalar v = false ↔ v.IsContainer) :=
    fun v hv => isCheckScalar_eq_false (hv.mem_popped hnodes v (Json.mem_popped_self v))
  rw [NoScalar, Json.at?_eq_none]
  simp only [Json.at?_eq_some]
  constructor
  · intro h
    rcases h with h | ⟨v, hv, hcontainer⟩
    · exact .inl h
    · exact .inr ⟨v, hv, (hscalar v hv).mpr hcontainer⟩
  · intro h
    rcases h with h | ⟨v, hv, hfalse⟩
    · exact .inl h
    · exact .inr ⟨v, hv, (hscalar v hv).mp hfalse⟩

/-! ## Values -/

/-- The verdict on two values that must be equal scalars. -/
def equalReason : Option Json → Option Json → CheckReason
  | some v, some w =>
    if isCheckScalar v = false ∨ isCheckScalar w = false then .typeUnsupported
    else if v = w then .passed
    else .predicateFalse
  | _, _ => .pathMissing

/-- Its work. -/
def equalCost : Option Json → Option Json → ℕ
  | some v, some w =>
    if isCheckScalar v = false ∨ isCheckScalar w = false then 0 else 1 + textLength v + textLength w
  | _, _ => 0

theorem equalReason_comm (v w : Option Json) : equalReason v w = equalReason w v := by
  cases v with
  | none => cases w <;> rfl
  | some v =>
    cases w with
    | none => rfl
    | some w => simp only [equalReason, or_comm, eq_comm]

theorem equalCost_comm (v w : Option Json) : equalCost v w = equalCost w v := by
  cases v with
  | none => cases w <;> rfl
  | some v =>
    cases w with
    | none => rfl
    | some w => simp only [equalCost, or_comm, Nat.add_right_comm]

theorem checkEqual_eq_ok {v w : Json} {limits : CheckLimits} {budget : Budget} {r : Bool × Budget} :
    checkEqual v w limits budget = .ok r ↔
      budget.used + (1 + textLength v + textLength w) ≤ limits.maxWorkUnits ∧
        r = (decide (v = w),
          { budget with used := budget.used + (1 + textLength v + textLength w) }) := by
  have hequal : (typeOf v = typeOf w && scalarEq v w) = decide (v = w) := by
    rw [Bool.eq_iff_iff, typed_scalarEq, decide_eq_true_eq]
  simp only [checkEqual, Metered.bind_eq_ok, charge_eq_ok, Metered.pure_eq_ok, hequal]
  constructor
  · intro h
    obtain ⟨-, b, ⟨hle, rfl⟩, hr⟩ := h
    exact ⟨hle, hr⟩
  · intro h
    exact ⟨(), _, ⟨h.1, rfl⟩, h.2⟩

/-- **Two values that must be equal**, the second of which is a scalar unless it is read as the
first one is. -/
theorem checkValues_equal {rule : CheckRule} (hrange : rule.operator ≠ .integerRange)
    {value other : Option Json} (hother : rule.operator = .sameValue ∨
      ∃ w, other = some w ∧ isCheckScalar w = true)
    {limits : CheckLimits} {budget : Budget} (hused : budget.used ≤ limits.maxWorkUnits)
    {r : CheckResult × Budget} : checkValues rule value other limits budget = .ok r ↔
      budget.used + equalCost value other ≤ limits.maxWorkUnits ∧
        r = (.of rule (equalReason value other),
          { budget with used := budget.used + equalCost value other }) := by
  have hpure : ∀ {reason : CheckReason}, (pure (.of rule reason) : Check CheckResult) limits budget =
      .ok r ↔ budget.used + 0 ≤ limits.maxWorkUnits ∧
        r = (.of rule reason, { budget with used := budget.used + 0 }) := by
    intro reason
    rw [Metered.pure_eq_ok, Nat.add_zero]
    exact ⟨fun h => ⟨hused, h⟩, fun h => h.2⟩
  cases value with
  | none =>
    have hreason : equalReason none other = .pathMissing ∧ equalCost none other = 0 := by
      cases other <;> exact ⟨rfl, rfl⟩
    rw [hreason.1, hreason.2]
    exact hpure
  | some v =>
    show (if _ then _ else if _ then _ else if _ then _ else _ : Check CheckResult) limits budget = _
      ↔ _
    cases other with
    | none =>
      have hsame : rule.operator = .sameValue := by
        rcases hother with h | ⟨w, h, -⟩
        · exact h
        · cases h
      rw [if_pos ⟨hsame, rfl⟩]
      exact hpure
    | some w =>
      have hcondition : isCheckScalar v = false ∨
          rule.operator = .sameValue ∧ (some w).any isCheckScalar = false ↔
            isCheckScalar v = false ∨ isCheckScalar w = false := by
        rcases hother with h | ⟨u, hu, hscalar⟩
        · simp [h]
        · rw [Option.some.inj hu, hscalar]
          simp [hscalar]
      rw [if_neg (fun h => by cases h.2)]
      by_cases hcontainer : isCheckScalar v = false ∨ isCheckScalar w = false
      · rw [if_pos (hcondition.mpr hcontainer), equalReason, equalCost, if_pos hcontainer,
          if_pos hcontainer]
        exact hpure
      · rw [if_neg (fun h => hcontainer (hcondition.mp h)), if_neg hrange, equalReason, equalCost,
          if_neg hcontainer, if_neg hcontainer]
        simp only [Metered.bind_eq_ok, entryOf, lift_eq_ok, orError_eq_ok, Option.some.injEq,
          checkEqual_eq_ok, Metered.pure_eq_ok]
        have hjudged : CheckResult.judged rule (decide (v = w)) =
            .of rule (if v = w then .passed else .predicateFalse) := by
          by_cases h : v = w <;> simp [CheckResult.judged, h]
        constructor
        · intro h
          obtain ⟨u, b, ⟨rfl, rfl⟩, passed, b', ⟨hle, hp⟩, hr⟩ := h
          obtain ⟨rfl, rfl⟩ := Prod.mk.inj hp
          rw [hjudged] at hr
          exact ⟨hle, hr⟩
        · intro h
          refine ⟨w, budget, ⟨rfl, rfl⟩, _, _, ⟨h.1, rfl⟩, ?_⟩
          rw [hjudged]
          exact h.2

/-- What an equality of two scalars means. -/
theorem equalReason_judges {left right : Option Json} {undecided holds : Prop}
    (hundecided : undecided ↔ (left = none ∨ ∃ v, left = some v ∧ isCheckScalar v = false) ∨
      right = none ∨ ∃ w, right = some w ∧ isCheckScalar w = false)
    (hholds : holds ↔ ∃ v, left = some v ∧ right = some v) :
    (equalReason left right).outcome.Judges undecided holds := by
  cases left with
  | none =>
    have hu : undecided := hundecided.mpr (.inl (.inl rfl))
    refine ⟨by simp [equalReason, CheckReason.outcome, hu], by
      simp [equalReason, CheckReason.outcome, hu]⟩
  | some v =>
    cases right with
    | none =>
      have hu : undecided := hundecided.mpr (.inr (.inl rfl))
      refine ⟨by simp [equalReason, CheckReason.outcome, hu], by
        simp [equalReason, CheckReason.outcome, hu]⟩
    | some w =>
      simp only [Option.some.injEq, reduceCtorEq, false_or, exists_eq_left'] at hundecided hholds
      by_cases hcontainer : isCheckScalar v = false ∨ isCheckScalar w = false
      · have hu := hundecided.mpr hcontainer
        refine ⟨by simp [equalReason, hcontainer, CheckReason.outcome, hu], by
          simp [equalReason, hcontainer, CheckReason.outcome, hu]⟩
      · have hu : ¬undecided := fun h => hcontainer (hundecided.mp h)
        rw [equalReason, if_neg hcontainer]
        by_cases hvw : v = w
        · have hh : holds := hholds.mpr hvw.symm
          refine ⟨by simp [hvw, CheckReason.outcome, hu], by simp [hvw, CheckReason.outcome, hu, hh]⟩
        · have hh : ¬holds := fun h => hvw (hholds.mp h).symm
          refine ⟨by simp [hvw, CheckReason.outcome, hu], by simp [hvw, CheckReason.outcome, hu, hh]⟩

/-! ## Rules -/

/-- What `same_value` says of two documents. -/
def sameReason (rule : CheckRule) (left right : Json) : CheckReason :=
  equalReason (Json.at? left rule.path.parts)
    (Json.at? right (rule.otherPath.getD .root).parts)

/-- Its work. -/
def sameWork (rule : CheckRule) (left right : Json) : ℕ :=
  pathCost left rule.path.parts + pathCost right (rule.otherPath.getD .root).parts +
    equalCost (Json.at? left rule.path.parts) (Json.at? right (rule.otherPath.getD .root).parts)

theorem entryOf_eq_ok {α : Type} {entry : Option α} {limits : CheckLimits} {budget : Budget}
    {r : α × Budget} : entryOf entry limits budget = .ok r ↔ entry = some r.1 ∧ r.2 = budget := by
  rw [entryOf, lift_eq_ok, orError_eq_ok]

section Rules

variable {parsed : List (Identifier × Json)} {raw : Dict Identifier Bytes} {rule : CheckRule}
  {limits : CheckLimits} {budget : Budget} {r : CheckResult × Budget}

/-- **`same_value`** compares what the two paths lead to, at the cost of both sides. -/
theorem checkRule_sameValue (hrule : rule.operator = .sameValue) :
    checkRule parsed raw rule limits budget = .ok r ↔
      ∃ left right, parsed.lookup rule.artifactId = some left ∧
        (rule.otherArtifactId.bind fun i => parsed.lookup i) = some right ∧
        budget.used + 1 + sameWork rule left right ≤ limits.maxWorkUnits ∧
        r = (.of rule (sameReason rule left right),
          { budget with used := budget.used + 1 + sameWork rule left right }) := by
  have hrange : rule.operator ≠ .integerRange := by rw [hrule]; decide
  simp only [checkRule, hrule, Metered.bind_eq_ok, charge_eq_ok, entryOf_eq_ok, sameWork,
    ← Nat.add_assoc]
  constructor
  · intro h
    obtain ⟨-, b, ⟨h₁, rfl⟩, left, b, ⟨hleft, rfl⟩, value, b, h⟩ := h
    obtain ⟨hvalue, right, b', ⟨hright, rfl⟩, other, b'', hother, h⟩ := h
    obtain ⟨h₂, hvalue⟩ := (checkAt_eq_ok h₁).mp hvalue
    obtain ⟨rfl, rfl⟩ := Prod.mk.inj hvalue
    obtain ⟨h₃, hother⟩ := (checkAt_eq_ok h₂).mp hother
    obtain ⟨rfl, rfl⟩ := Prod.mk.inj hother
    obtain ⟨h₄, h⟩ := (checkValues_equal hrange (.inl hrule) h₃).mp h
    exact ⟨left, right, hleft, hright, h₄, h⟩
  · intro h
    obtain ⟨left, right, hleft, hright, hle, hr⟩ := h
    have h₃ := le_trans (Nat.le_add_right _ _) hle
    have h₂ := le_trans (Nat.le_add_right _ _) h₃
    have h₁ := le_trans (Nat.le_add_right _ _) h₂
    exact ⟨(), _, ⟨h₁, rfl⟩, left, _, ⟨hleft, rfl⟩, _, _, (checkAt_eq_ok h₁).mpr ⟨h₂, rfl⟩, right, _,
      ⟨hright, rfl⟩, _, _, (checkAt_eq_ok h₂).mpr ⟨h₃, rfl⟩,
      (checkValues_equal hrange (.inl hrule) h₃).mpr ⟨hle, hr⟩⟩

/-- The value that a rule is about, and what it has cost so far. -/
theorem value_of_checkRule (hrule : rule.operator = .equals ∨ rule.operator = .integerRange)
    (h : checkRule parsed raw rule limits budget = .ok r) :
    ∃ document b, parsed.lookup rule.artifactId = some document ∧ b.used ≤ limits.maxWorkUnits ∧
      checkValues rule (Json.at? document rule.path.parts) rule.expected limits b = .ok r := by
  have hshape : checkRule parsed raw rule = (do
      charge 1
      let document ← entryOf (parsed.lookup rule.artifactId)
      let value ← checkAt document rule.path.parts
      checkValues rule value rule.expected) := by
    rcases hrule with hrule | hrule <;> simp only [checkRule, hrule]
  simp only [hshape, Metered.bind_eq_ok, charge_eq_ok, entryOf_eq_ok] at h
  obtain ⟨-, b, ⟨h₁, rfl⟩, document, b, ⟨hdocument, rfl⟩, value, b, hvalue, h⟩ := h
  obtain ⟨h₂, hvalue⟩ := (checkAt_eq_ok h₁).mp hvalue
  obtain ⟨rfl, rfl⟩ := Prod.mk.inj hvalue
  exact ⟨document, _, hdocument, h₂, h⟩

/-- What `integer_range` says of a value. -/
def rangeReason (rule : CheckRule) : Option Json → CheckReason
  | none => .pathMissing
  | some (.int n) =>
    if isCheckScalar (.int n) = false then .typeUnsupported
    else if betweenEndpoints rule n = true then .passed
    else .predicateFalse
  | some _ => .typeUnsupported

theorem checkValues_range (hrule : rule.operator = .integerRange) {value : Option Json}
    (h : checkValues rule value rule.expected limits budget = .ok r) :
    r.1 = .of rule (rangeReason rule value) := by
  have hpure : ∀ {reason : CheckReason}, (pure (.of rule reason) : Check CheckResult) limits budget =
      .ok r → r.1 = .of rule reason := by
    intro reason hr
    rw [Metered.pure_eq_ok.mp hr]
  cases value with
  | none => exact hpure h
  | some v =>
    have hsame : ¬rule.operator = .sameValue := by rw [hrule]; decide
    change (if _ then _ else if _ then _ else if _ then _ else _ : Check CheckResult) limits budget =
      _ at h
    rw [if_neg (fun hs => hsame hs.1)] at h
    by_cases hscalar : isCheckScalar v = false
    · rw [if_pos (.inl hscalar)] at h
      rw [hpure h]
      cases v with
      | int n => rw [rangeReason, if_pos hscalar]
      | _ => rfl
    · rw [if_neg (fun hs => hs.elim hscalar fun hs => hsame hs.1), if_pos hrule] at h
      cases v with
      | int n =>
        simp only [Metered.bind_eq_ok, charge_eq_ok, Metered.pure_eq_ok] at h
        obtain ⟨-, b, -, rfl⟩ := h
        rw [rangeReason, if_neg hscalar]
        by_cases hin : betweenEndpoints rule n = true <;> simp [CheckResult.judged, hin]
      | _ => exact hpure h

/-- What a predicate that is never undecided means. -/
theorem judged_judges {passed : Bool} {holds : Prop} (h : passed = true ↔ holds) :
    (CheckResult.judged rule passed).outcome.Judges False holds := by
  have hpass : (CheckResult.judged rule passed).outcome = .pass ↔ passed = true := by
    cases passed <;> simp [CheckResult.judged, CheckResult.of, CheckReason.outcome]
  have hunknown : (CheckResult.judged rule passed).outcome ≠ .unknown := by
    cases passed <;> simp [CheckResult.judged, CheckResult.of, CheckReason.outcome]
  exact ⟨⟨hunknown, False.elim⟩, by rw [hpass, h, not_false_iff, true_and]⟩

/-- What a range means. -/
theorem rangeReason_judges {a b : ℤ} (ha : rule.minimum = some a) (hb : rule.maximum = some b)
    {value : Option Json} (hvalue : ∀ n, value = some (.int n) → isCheckScalar (.int n) = true) :
    (rangeReason rule value).outcome.Judges (¬∃ n, value = some (.int n))
      (∃ n, value = some (.int n) ∧ a ≤ n ∧ n ≤ b) := by
  by_cases hint : ∃ n, value = some (.int n)
  · obtain ⟨n, rfl⟩ := hint
    have hbetween : betweenEndpoints rule n = true ↔ a ≤ n ∧ n ≤ b := by
      simp [betweenEndpoints, ha, hb]
    rw [rangeReason, hvalue n rfl, if_neg (by decide)]
    by_cases hin : betweenEndpoints rule n = true
    · have hn := hbetween.mp hin
      rw [if_pos hin]
      exact ⟨by simp [CheckReason.outcome], by simp [CheckReason.outcome, hn]⟩
    · have hn := fun h => hin (hbetween.mpr h)
      rw [if_neg hin]
      exact ⟨by simp [CheckReason.outcome], by simpa [CheckReason.outcome] using hn⟩
  · have hreason : (rangeReason rule value).outcome = .unknown := by
      unfold rangeReason
      split
      · rfl
      · rename_i n
        exact absurd ⟨n, rfl⟩ hint
      · rfl
    rw [hreason]
    exact ⟨by simp [hint], by simp [hint]⟩

/-- **Each rule's outcome is what the rule means.** -/
theorem checkRule_means
    (hnodes : ∀ i d, parsed.lookup i = some d → ∀ item ∈ Json.popped d, CheckNode item)
    (h : checkRule parsed raw rule limits budget = .ok r) :
    r.1.ruleId = rule.ruleId ∧
      rule.Means (fun i => (parsed.lookup i).getD .null) (fun i => (raw.get? i).getD []) r.1.outcome := by
  obtain ⟨-, hendpoints, hmaximum, hother, hotherPath, -⟩ := rule.shape
  cases hrule : rule.operator with
  | «exists» =>
    simp only [checkRule, hrule, Metered.bind_eq_ok, charge_eq_ok, entryOf_eq_ok,
      Metered.pure_eq_ok] at h
    obtain ⟨-, b, ⟨h₁, rfl⟩, document, b, ⟨hdocument, rfl⟩, value, b, hvalue, rfl⟩ := h
    obtain ⟨-, hvalue⟩ := (checkAt_eq_ok h₁).mp hvalue
    obtain ⟨rfl, -⟩ := Prod.mk.inj hvalue
    refine ⟨rfl, ?_⟩
    simp only [CheckRule.Means, hrule, hdocument, Option.getD_some]
    refine judged_judges ?_
    rw [Option.isSome_iff_exists]
    simp only [Json.at?_eq_some]
  | equals =>
    obtain ⟨document, b, hdocument, hused, h⟩ := value_of_checkRule (.inl hrule) h
    have hexpected : ∃ w, rule.expected = some w ∧ isCheckScalar w = true := by
      obtain ⟨w, hw⟩ := Option.isSome_iff_exists.mp (rule.shape.1.mp hrule)
      exact ⟨w, hw, rule.scalar_expected w hw⟩
    obtain ⟨-, rfl⟩ := (checkValues_equal (by rw [hrule]; decide) (.inr hexpected) hused).mp h
    obtain ⟨w, hw, hscalar⟩ := hexpected
    refine ⟨rfl, ?_⟩
    simp only [CheckRule.Means, hrule, hdocument, Option.getD_some]
    refine equalReason_judges ?_ ?_
    · rw [noScalar_iff (hnodes _ _ hdocument), hw]
      simp [hscalar]
    · rw [hw]
      simp only [Option.mem_def, Option.some.injEq, exists_eq_left', ← Json.at?_eq_some]
      refine ⟨fun hv => ⟨w, hv, rfl⟩, fun h => ?_⟩
      obtain ⟨v, hv, hvw⟩ := h
      exact hvw ▸ hv
  | integerRange =>
    obtain ⟨document, b, hdocument, -, h⟩ := value_of_checkRule (.inr hrule) h
    have hminimum := hendpoints.mp hrule
    obtain ⟨m, hm⟩ := Option.isSome_iff_exists.mp hminimum
    obtain ⟨n, hn⟩ := Option.isSome_iff_exists.mp (hmaximum ▸ hminimum)
    have hr := checkValues_range hrule h
    refine ⟨by rw [hr]; rfl, ?_⟩
    simp only [CheckRule.Means, hrule, hdocument, Option.getD_some, hr]
    refine ⟨m, hm, n, hn, ?_⟩
    have hinteger : ∀ k, Json.at? document rule.path.parts = some (.int k) →
        isCheckScalar (.int k) = true := fun k hk =>
      require_eq_ok.mp ((Json.at?_eq_some.mp hk).mem_popped (hnodes _ _ hdocument) _
        (Json.mem_popped_self _))
    simp only [← Json.at?_eq_some]
    exact rangeReason_judges hm hn hinteger
  | sameValue =>
    obtain ⟨left, right, hleft, hright, -, rfl⟩ := (checkRule_sameValue hrule).mp h
    obtain ⟨other, hi⟩ := Option.isSome_iff_exists.mp (hother.mpr (.inl hrule))
    obtain ⟨path, hpath⟩ := Option.isSome_iff_exists.mp (hotherPath.mpr hrule)
    rw [hi, Option.bind_some] at hright
    refine ⟨rfl, ?_⟩
    simp only [CheckRule.Means, hrule, hleft, Option.getD_some]
    refine ⟨other, hi, path, hpath, ?_⟩
    rw [hright, Option.getD_some]
    show (equalReason _ _).outcome.Judges _ _
    rw [hpath, Option.getD_some]
    refine equalReason_judges ?_ ?_
    · rw [noScalar_iff (hnodes _ _ hleft), noScalar_iff (hnodes _ _ hright)]
    · simp only [Json.at?_eq_some]
  | bytesEqual =>
    obtain ⟨other, hi⟩ := Option.isSome_iff_exists.mp (hother.mpr (.inr hrule))
    simp only [checkRule, hrule, Metered.bind_eq_ok, charge_eq_ok, entryOf_eq_ok,
      Metered.pure_eq_ok, hi, Option.bind_some] at h
    obtain ⟨-, b, -, left, b, ⟨hleft, rfl⟩, right, h⟩ := h
    obtain ⟨b, ⟨hright, rfl⟩, -, b, -, rfl⟩ := h
    refine ⟨rfl, ?_⟩
    simp only [CheckRule.Means, hrule, hleft, Option.getD_some]
    refine ⟨other, hi, ?_⟩
    rw [hright, Option.getD_some]
    exact judged_judges decide_eq_true_iff

end Rules

/-! ## The other side of `same_value` -/

/-- The rule with its sides exchanged. -/
def CheckRule.swapped (rule : CheckRule) (h : rule.operator = .sameValue) : CheckRule where
  toRuleFields :=
    { rule.toRuleFields with
      artifactId := rule.otherArtifactId.getD rule.artifactId
      path := rule.otherPath.getD .root
      otherArtifactId := some rule.artifactId
      otherPath := some rule.path }
  ok := by
    obtain ⟨hexpected, hrange, -⟩ := rule.ok
    refine ⟨hexpected, hrange, ?_⟩
    show RuleFields.OtherOk _
    unfold RuleFields.OtherOk
    simp [h]

/-- **`same_value` is symmetric in its two sides**: the same answer, the same work, and an error
where the other order raises one. -/
theorem checkRule_swapped {rule : CheckRule} (h : rule.operator = .sameValue)
    (parsed : List (Identifier × Json)) (raw : Dict Identifier Bytes) (limits : CheckLimits)
    (budget : Budget) (r : CheckResult × Budget) :
    checkRule parsed raw (rule.swapped h) limits budget = .ok r ↔
      checkRule parsed raw rule limits budget = .ok r := by
  obtain ⟨other, hother⟩ := Option.isSome_iff_exists.mp (rule.shape.2.2.2.1.mpr (.inl h))
  have hreason : ∀ left right, sameReason (rule.swapped h) left right = sameReason rule right left :=
    fun left right => equalReason_comm _ _
  have hwork : ∀ left right, sameWork (rule.swapped h) left right = sameWork rule right left := by
    intro left right
    show _ + _ + equalCost _ _ = _ + _ + equalCost _ _
    rw [equalCost_comm, Nat.add_comm (pathCost left _)]
    rfl
  have hids : (rule.swapped h).artifactId = other := by
    show rule.otherArtifactId.getD _ = other
    rw [hother, Option.getD_some]
  have hof : ∀ reason, CheckResult.of (rule.swapped h) reason = CheckResult.of rule reason :=
    fun _ => rfl
  have hswapped : (rule.swapped h).operator = .sameValue := h
  rw [checkRule_sameValue h, checkRule_sameValue hswapped]
  simp only [hreason, hwork, hids, hother, hof, Option.bind_some]
  constructor
  · intro h
    obtain ⟨left, right, hleft, hright, hr⟩ := h
    exact ⟨right, left, hright, hleft, hr⟩
  · intro h
    obtain ⟨left, right, hleft, hright, hr⟩ := h
    exact ⟨right, left, hright, hleft, hr⟩

/-! ## Snapshots -/

/-- A snapshot holds what the contents hold. -/
theorem get?_snapshotItems {extra : ℕ} {limits : CheckLimits} {items : List (String × Bytes)} :
    ∀ {result : Dict Identifier Bytes} {total : ℕ} {budget : Budget}
      {r : Dict Identifier Bytes × Budget}, (items.map Prod.fst).Nodup →
        snapshotItems extra result total items limits budget = .ok r →
          ∀ i, r.1.get? i = (items.lookup i.value).or (result.get? i) := by
  induction items with
  | nil =>
    intro result total budget r _ h i
    rw [snapshotItems, Metered.pure_eq_ok] at h
    rw [h, List.lookup_nil, Option.none_or]
  | cons item items ih =>
    obtain ⟨name, raw⟩ := item
    intro result total budget r hnodup h i
    rw [List.map_cons, List.nodup_cons] at hnodup
    simp only [snapshotItems, Metered.bind_eq_ok, allow_eq_ok, lift_eq_ok] at h
    obtain ⟨-, b, -, artifactId, b', ⟨hid, -⟩, -, b'', -, h⟩ := h
    have hname : artifactId.value = name := by
      unfold identifier at hid
      split_ifs at hid
      rw [← Except.ok.inj hid]
    rw [ih hnodup.2 h i, Dict.get?_set, List.lookup_cons]
    by_cases hi : i = artifactId
    · have hnone : items.lookup name = none := by
        rw [List.lookup_eq_none_iff]
        intro p hp
        refine bne_iff_ne.mpr fun heq => hnodup.1 ?_
        exact List.mem_map.mpr ⟨p, hp, heq.symm⟩
      rw [hi, hname, if_pos rfl, hnone]
      simp
    · have hne : (i.value == name) = false := by
        rw [beq_eq_false_iff_ne, ← hname]
        exact fun heq => hi (Identifier.ext_iff'.mpr heq)
      rw [if_neg hi, hne]

theorem get?_snapshotContents {contents : Dict String Bytes} {extra : ℕ} {limits : CheckLimits}
    {budget : Budget} {r : Dict Identifier Bytes × Budget}
    (h : snapshotContents contents extra limits budget = .ok r) (i : Identifier) :
    r.1.get? i = contents.get? i.value := by
  simp only [snapshotContents, Metered.bind_eq_ok, allow_eq_ok] at h
  obtain ⟨-, b, -, h⟩ := h
  rw [get?_snapshotItems contents.nodup h i, Dict.get?_empty, Option.or_none]
  rfl

/-! ## Parsed documents -/

/-- What a parsed document is. -/
structure ParsedFrom (retained : Dict Identifier Bytes) (name : Identifier)
    (entry : Identifier × Json) : Prop where
  name_eq : entry.1 = name
  decodes : ∃ raw, retained.get? name = some raw ∧ decodeCheck raw = some entry.2
  admitted : ∀ item ∈ Json.popped entry.2, CheckNode item

theorem parsedFrom_of_parseInput {retained : Dict Identifier Bytes} {name : Identifier}
    {limits : CheckLimits} {budget budget' : Budget} {entry : Identifier × Json}
    (h : parseInput retained name limits budget = .ok (entry, budget')) :
    ParsedFrom retained name entry := by
  simp only [parseInput, Metered.bind_eq_ok, entryOf_eq_ok, Metered.pure_eq_ok, Prod.mk.injEq] at h
  obtain ⟨raw, b, ⟨hraw, rfl⟩, value, b', hvalue, rfl, -⟩ := h
  obtain ⟨hdecode, hnodes⟩ := of_checkDocument hvalue
  exact ⟨rfl, ⟨raw, hraw, hdecode⟩, hnodes⟩

section Parsed

variable {retained : Dict Identifier Bytes} {names : List Identifier}
  {parsed : List (Identifier × Json)}

theorem parsedFrom_of_lookup (h : List.Forall₂ (ParsedFrom retained) names parsed) {i : Identifier}
    {d : Json} (hlookup : parsed.lookup i = some d) : ParsedFrom retained i (i, d) := by
  obtain ⟨before, after, hparsed, -⟩ := List.lookup_eq_some_iff.mp hlookup
  have hmem : (i, d) ∈ parsed := by
    rw [hparsed]
    exact List.mem_append_right _ (List.mem_cons_self ..)
  obtain ⟨name, -, hname⟩ := List.exists_of_mem_forall₂ h hmem
  have heq : i = name := hname.name_eq
  exact heq ▸ hname

theorem exists_lookup (h : List.Forall₂ (ParsedFrom retained) names parsed) {i : Identifier}
    (hi : i ∈ names) : ∃ d, parsed.lookup i = some d := by
  obtain ⟨entry, hentry, hname⟩ := List.exists_of_forall₂_mem h hi
  have hsome : (parsed.lookup i).isSome = true := by
    rw [List.lookup_isSome_iff]
    exact ⟨entry, hentry, beq_iff_eq.mpr hname.name_eq.symm⟩
  exact Option.isSome_iff_exists.mp hsome

end Parsed

/-! ## Whole evaluations -/

theorem CheckEvaluation.outcome_iff {D : Type} (e : CheckEvaluation D) :
    (e.outcome = .fail ↔ ∃ r ∈ e.results, r.outcome = .fail) ∧
    (e.outcome = .unknown ↔
      (¬∃ r ∈ e.results, r.outcome = .fail) ∧ ∃ r ∈ e.results, r.outcome = .unknown) ∧
    (e.outcome = .pass ↔ ∀ r ∈ e.results, r.outcome = .pass) := by
  have hany : ∀ o : CheckOutcome, e.results.any (fun r => r.outcome = o) = true ↔
      ∃ r ∈ e.results, r.outcome = o := by
    intro o
    simp only [List.any_eq_true, decide_eq_true_eq]
  have hpass : (∀ r ∈ e.results, r.outcome = .pass) ↔
      (¬∃ r ∈ e.results, r.outcome = .fail) ∧ ¬∃ r ∈ e.results, r.outcome = .unknown := by
    constructor
    · intro h
      refine ⟨fun ⟨r, hr, hfail⟩ => ?_, fun ⟨r, hr, hunknown⟩ => ?_⟩
      · rw [h r hr] at hfail
        cases hfail
      · rw [h r hr] at hunknown
        cases hunknown
    · intro h r hr
      cases houtcome : r.outcome with
      | pass => rfl
      | fail => exact absurd ⟨r, hr, houtcome⟩ h.1
      | unknown => exact absurd ⟨r, hr, houtcome⟩ h.2
  rw [hpass, ← hany .fail, ← hany .unknown, outcome]
  by_cases hfail : e.results.any (fun r => r.outcome = .fail) = true
  · simp [hfail]
  · by_cases hunknown : e.results.any (fun r => r.outcome = .unknown) = true
    · simp [hfail, hunknown]
    · simp [hfail, hunknown]

variable {D : Type} [Hashing D] [DecidableEq D]

/-- **Evaluation is its declarative semantics.** -/
theorem evaluateChecks_means {plan : CheckPlan D} {contents : Dict String Bytes}
    {limits : Option CheckLimits} {e : CheckEvaluation D}
    (h : evaluateChecks plan contents limits = .ok e) :
    ∃ (document : Identifier → Json) (content : Identifier → Bytes),
      (∀ input ∈ plan.inputs, contents.get? input.artifactId.value =
        some (content input.artifactId) ∧ input.Matches (content input.artifactId)) ∧
      (∀ rule ∈ plan.rules, rule.operator ≠ .bytesEqual → ∀ i ∈ rule.artifactIds,
        decodeCheck (content i) = some (document i)) ∧
      e.planDigest = plan.digest ∧
      List.Forall₂ (fun rule result => result.ruleId = rule.ruleId ∧
        rule.Means document content result.outcome) plan.rules e.results ∧
      (∀ rule ∈ plan.rules, ∀ hsame : rule.operator = .sameValue, ∀ parsed raw limits budget r,
        checkRule parsed raw (rule.swapped hsame) limits budget = .ok r ↔
          checkRule parsed raw rule limits budget = .ok r) ∧
      (e.outcome = .fail ↔ ∃ r ∈ e.results, r.outcome = .fail) ∧
      (e.outcome = .unknown ↔
        (¬∃ r ∈ e.results, r.outcome = .fail) ∧ ∃ r ∈ e.results, r.outcome = .unknown) ∧
      (e.outcome = .pass ↔ ∀ r ∈ e.results, r.outcome = .pass) := by
  obtain ⟨budget, h⟩ := runCheck_eq_ok.mp h
  simp only [evaluateRetained, Metered.bind_eq_ok, lift_eq_ok, valid_eq_ok, Metered.pure_eq_ok,
    CheckEvaluation.make_eq_ok, Prod.mk.injEq] at h
  obtain ⟨retained, b₁, hretained, _, b₂, _, _, b₃, h⟩ := h
  obtain ⟨_, _, b₄, ⟨-, -⟩, units, b₅, hinputs, parsed, h⟩ := h
  obtain ⟨b₆, hparsed, results, b₇, hresults, result, b₈, ⟨⟨hdigest, rfl⟩, -⟩, h⟩ := h
  obtain ⟨-, b₉, -, -, b₁₀, -, rfl, -⟩ := h
  have hparsed := Metered.forall₂_of_mapEach (R := ParsedFrom retained)
    (fun name _ s entry s' hentry => parsedFrom_of_parseInput hentry) hparsed
  have hnodes : ∀ i d, parsed.lookup i = some d → ∀ item ∈ Json.popped d, CheckNode item :=
    fun i d hd => (parsedFrom_of_lookup hparsed hd).admitted
  refine ⟨fun i => (parsed.lookup i).getD .null, fun i => (retained.get? i).getD [], ?_, ?_, hdigest,
    ?_, fun rule _ hsame => checkRule_swapped hsame, e.outcome_iff⟩
  · have hall := Metered.forall₂_of_mapEach (R := fun (input : ArtifactReference D) _ =>
      ∃ raw, retained.get? input.artifactId = some raw ∧ input.Matches raw) (fun input _ s u s' hu => by
        simp only [checkInput, Metered.bind_eq_ok, entryOf_eq_ok, lift_eq_ok, valid_eq_ok] at hu
        obtain ⟨raw, b, ⟨hraw, -⟩, -, b', -, hmatches, -⟩ := hu
        exact ⟨raw, hraw, hmatches⟩) hinputs
    intro input hinput
    obtain ⟨-, -, raw, hraw, hmatches⟩ := List.exists_of_forall₂_mem hall hinput
    rw [← get?_snapshotContents hretained]
    simp only [hraw, Option.getD_some]
    exact ⟨trivial, hmatches⟩
  · intro rule hrule hjson i hi
    have hmem : i ∈ jsonInputs plan.rules := by
      rw [jsonInputs, List.mem_sortedSet, List.mem_flatMap]
      exact ⟨rule, List.mem_filter.mpr ⟨hrule, by simpa using hjson⟩, hi⟩
    obtain ⟨d, hd⟩ := exists_lookup hparsed hmem
    obtain ⟨raw, hraw, hdecode⟩ := (parsedFrom_of_lookup hparsed hd).decodes
    simp only [hd, hraw, Option.getD_some]
    exact hdecode
  · refine Metered.forall₂_of_mapEach (fun rule _ s result s' hresult => ?_) hresults
    exact checkRule_means hnodes hresult

/-! ## A sample -/

def sampleContents : Dict String Bytes := ⟨[("f", sampleContent)], List.nodup_singleton _⟩

def sampleRetained : Dict Identifier Bytes := ⟨[(sampleArtifact, sampleContent)], List.nodup_singleton _⟩

section Evaluation

variable (D : Type) [Hashing D] [WideHex D]

/-- The document `1` is not `true`. -/
def sampleEvaluation : CheckEvaluation D where
  planDigest := (sampleCheckPlan D).digest
  results := [.of sampleCheckRule .predicateFalse]
  results_length := ⟨le_rfl, show 1 ≤ maxCheckRules by decide⟩
  results_nodup := List.nodup_singleton _

theorem length_sampleEvaluation : (sampleEvaluation D).toBytes.length ≤ 1000 := by
  have hresult : Json.size (CheckResult.of sampleCheckRule .predicateFalse).toDict ≤ 200 := by
    decide +kernel
  have hcounts : Json.size (Json.dict [("pass", .int 0), ("fail", .int 1), ("unknown", .int 0)]) ≤
      100 := by decide +kernel
  have hkeys : Json.quotedSize "kind" = 6 ∧ Json.quotedSize "schema_version" = 16 ∧
      Json.quotedSize "engine_version" = 16 ∧ Json.quotedSize "plan_digest" = 13 ∧
      Json.quotedSize "outcome" = 9 ∧ Json.quotedSize "counts" = 8 ∧
      Json.quotedSize "results" = 9 ∧ Json.quotedSize "evidence-braid-check-evaluation" = 33 ∧
      Json.quotedSize "1.0" = 5 ∧ Json.quotedSize checkEngineVersion = 29 ∧
      Json.quotedSize "fail" = 6 := by
    and_intros <;> exact Json.quotedSize_literal rfl
  show Json.size (Json.dict [("kind", .str "evidence-braid-check-evaluation"),
    ("schema_version", .str "1.0"), ("engine_version", .str checkEngineVersion),
    ("plan_digest", .str (hex (sampleCheckPlan D).digest)), ("outcome", .str "fail"),
    ("counts", Json.dict [("pass", .int 0), ("fail", .int 1), ("unknown", .int 0)]),
    ("results", .arr [(CheckResult.of sampleCheckRule .predicateFalse).toDict])]) ≤ 1000
  rw [Json.size_dict (by simp only [Json.keys, List.map_cons, List.map_nil]; decide) (by simp)]
  generalize (CheckResult.of sampleCheckRule .predicateFalse).toDict = result at hresult
  generalize Json.dict [("pass", .int 0), ("fail", .int 1), ("unknown", .int 0)] = counts at hcounts
  simp only [List.map_cons, List.map_nil, List.sum_cons, List.sum_nil, Json.size_str,
    quotedSize_hex, Json.size_arr_cons, hkeys]
  clear hkeys
  omega

end Evaluation

theorem canonicalBytes_one : canonicalBytes (.int 1) = sampleContent := by decide +kernel

theorem sampleCheckRule_fails {budget : Budget} (h : budget.used + 1 + 1 ≤ 32 * 1024 * 1024) :
    checkRule [(sampleArtifact, .int 1)] sampleRetained sampleCheckRule .default budget =
      .ok (.of sampleCheckRule .predicateFalse, { budget with used := budget.used + 1 + 1 }) := by
  have hcharged : budget.used + 1 ≤ 32 * 1024 * 1024 := Nat.le_of_succ_le h
  have hscalar : isCheckScalar (.int 1) = true ∧ isCheckScalar (.bool true) = true := by decide
  have hcontainer : ¬(isCheckScalar (.int 1) = false ∨ isCheckScalar (.bool true) = false) := by
    rw [hscalar.1, hscalar.2]
    decide
  have hreason : equalReason (some (.int 1)) (some (.bool true)) = .predicateFalse := by
    rw [equalReason, if_neg hcontainer, if_neg (by simp)]
  have hcost : equalCost (some (.int 1)) (some (.bool true)) = 1 := by
    rw [equalCost, if_neg hcontainer]
    rfl
  have hvalues : checkValues sampleCheckRule (some (.int 1)) (some (.bool true)) .default
      { budget with used := budget.used + 1 } =
        .ok (.of sampleCheckRule .predicateFalse, { budget with used := budget.used + 1 + 1 }) := by
    refine (checkValues_equal (by decide) (.inr ⟨.bool true, rfl, hscalar.2⟩) hcharged).mpr ⟨?_, ?_⟩
    · rw [hcost]
      exact h
    · rw [hcost, hreason]
  show (charge 1 >>= fun _ => entryOf (some (.int 1)) >>= fun document =>
    checkAt document [] >>= fun value => checkValues sampleCheckRule value (some (.bool true)))
      .default budget = _
  simp only [Metered.bind_eq_ok, charge_eq_ok, entryOf_eq_ok, checkAt, Metered.pure_eq_ok]
  exact ⟨(), { budget with used := budget.used + 1 }, ⟨hcharged, rfl⟩, .int 1, _, ⟨rfl, rfl⟩, _, _,
    rfl, hvalues⟩

/-- Whoever reads the one input reads `1`. -/
theorem parseInput_sample {budget : Budget} (hused : budget.used + 2 ≤ 32 * 1024 * 1024)
    (hnodes : budget.nodes + 1 ≤ 100000) : ∃ used, used ≤ budget.used + 2 ∧
      parseInput sampleRetained sampleArtifact .default budget =
        .ok ((sampleArtifact, .int 1), ⟨used, budget.nodes + 1⟩) := by
  have hsize : Json.size (.int 1) = 1 := congrArg List.length canonicalBytes_one
  obtain ⟨used, hle, hdocument⟩ := @checkDocument_canonical (·.maxInputBytes) (.int 1) .default
    budget 0 (CheckShape.int (by decide)) (Nat.zero_le _) (hsize.le.trans (by decide))
    (by rw [hsize]; exact hnodes) (by rw [hsize]; exact hused)
  rw [hsize] at hle
  rw [canonicalBytes_one] at hdocument
  refine ⟨used, hle, ?_⟩
  simp only [parseInput, Metered.bind_eq_ok, entryOf_eq_ok, Metered.pure_eq_ok]
  exact ⟨sampleContent, budget, ⟨rfl, rfl⟩, .int 1, _, hdocument, rfl⟩

/-- The work of the sample is within the default limit. -/
theorem sample_work {n m used : ℕ} (hn : n ≤ 8000) (hm : m ≤ 1000) (hused : used ≤ 0 + n + 1 + 2) :
    (0 + n ≤ 32 * 1024 * 1024 ∧ 0 + n + 1 ≤ 32 * 1024 * 1024 ∧
      0 + n + 1 + 2 ≤ 32 * 1024 * 1024) ∧
    used + 1 + 1 ≤ 32 * 1024 * 1024 ∧ used + 1 + 1 + m ≤ 32 * 1024 * 1024 := by
  omega

/-- A loop over one item is its round. -/
theorem mapEach_one {α β : Type} {f : α → Check β} {as : List α} {a : α} {b : β}
    {limits : CheckLimits} {budget budget' : Budget} (has : as = [a])
    (h : f a limits budget = .ok (b, budget')) :
    Metered.mapEach f as limits budget = .ok ([b], budget') := by
  rw [has]
  simp only [Metered.mapEach, Metered.bind_eq_ok, Metered.pure_eq_ok]
  exact ⟨b, budget', h, [], budget', rfl, rfl⟩

theorem checkInput_sample (D : Type) [Hashing D] [DecidableEq D] {budget : Budget}
    (h : budget.used + 1 ≤ 32 * 1024 * 1024) :
    checkInput sampleRetained (sampleInput D) .default budget =
      .ok ((), { budget with used := budget.used + 1 }) := by
  have hlength : sampleContent.length = 1 := rfl
  have hwork : CheckLimits.default.maxWorkUnits = 32 * 1024 * 1024 := rfl
  simp only [checkInput, Metered.bind_eq_ok, entryOf_eq_ok, charge_eq_ok, lift_eq_ok, valid_eq_ok]
  refine ⟨sampleContent, budget, ⟨rfl, rfl⟩, (), { budget with used := budget.used + 1 }, ⟨?_, ?_⟩,
    ⟨rfl, rfl⟩, rfl⟩
  · rw [hlength, hwork]
    exact h
  · rw [hlength]

theorem jsonInputs_sample : jsonInputs [sampleCheckRule] = [sampleArtifact] := by
  have hids : ([sampleCheckRule].filter fun r => r.operator ≠ .bytesEqual).flatMap
      CheckRule.artifactIds = [sampleArtifact] := rfl
  rw [jsonInputs, hids, List.sortedSet, List.dedup_eq_self.mpr (List.nodup_singleton _)]
  rfl

theorem evaluate_sampleCheck (D : Type) [Hashing D] [WideHex D] [DecidableEq D] :
    evaluateChecks (sampleCheckPlan D) sampleContents none = .ok (sampleEvaluation D) := by
  have hplan : (sampleCheckPlan D).toBytes.length ≤ 8000 := length_sampleCheck_le D
  have houtput := length_sampleEvaluation D
  have hsnapshot : snapshotContents sampleContents 0 .default .fresh =
      .ok (sampleRetained, .fresh) := by rfl
  have hwork : (CheckLimits.resolve none).maxWorkUnits = 32 * 1024 * 1024 := rfl
  generalize hencoded : (sampleCheckPlan D).toBytes.length = n at hplan
  generalize hlength : (sampleEvaluation D).toBytes.length = m at houtput
  obtain ⟨hcharged, hread, hroom⟩ := (sample_work hplan houtput (Nat.zero_le _)).1
  obtain ⟨used, hused, hparse⟩ := @parseInput_sample ⟨0 + n + 1, 0⟩ hroom
    (show 0 + 1 ≤ 100000 by decide)
  obtain ⟨hjudged, htotal⟩ := (sample_work hplan houtput hused).2
  refine runCheck_eq_ok.mpr ⟨⟨used + 1 + 1 + m, 1⟩, ?_⟩
  simp only [evaluateRetained, Metered.bind_eq_ok, lift_eq_ok, valid_eq_ok, Metered.pure_eq_ok,
    allow_eq_ok, charge_eq_ok, hencoded, hwork]
  refine ⟨sampleRetained, .fresh, hsnapshot, (), .fresh, ⟨⟨?_, ?_, ?_⟩, rfl⟩, (), ⟨0 + n, 0⟩,
    ⟨hcharged, rfl⟩, (), ⟨0 + n, 0⟩, ⟨⟨?_, ?_⟩, rfl⟩, [()], ⟨0 + n + 1, 0⟩,
    mapEach_one rfl (checkInput_sample D hread), [(sampleArtifact, .int 1)], ⟨used, 1⟩,
    mapEach_one jsonInputs_sample hparse, [.of sampleCheckRule .predicateFalse], ⟨used + 1 + 1, 1⟩,
    mapEach_one rfl (sampleCheckRule_fails hjudged), sampleEvaluation D, ⟨used + 1 + 1, 1⟩,
    ⟨CheckEvaluation.make_eq_ok.mpr ⟨rfl, rfl⟩, rfl⟩, (), ⟨used + 1 + 1, 1⟩, ⟨?_, rfl⟩, (),
    ⟨used + 1 + 1 + m, 1⟩, ⟨?_, ?_⟩, rfl⟩
  · exact hplan.trans (by decide)
  · show 1 ≤ 64
    decide
  · show 1 ≤ 16
    decide
  · exact List.forall_mem_singleton.mpr (List.mem_singleton_self _)
  · exact List.forall_mem_singleton.mpr (List.mem_singleton_self _)
  · rw [hlength]
    exact houtput.trans (by decide)
  · rw [hlength]
    exact htotal
  · rw [hlength]

/-- The sample's rule fails, and so does the evaluation. -/
theorem evaluateChecks_means_sample : ∃ e : CheckEvaluation HexDigest,
    e.planDigest = (sampleCheckPlan HexDigest).digest ∧
      (e.outcome = .fail ↔ ∃ r ∈ e.results, r.outcome = .fail) := by
  obtain ⟨-, -, -, -, hdigest, -, -, houtcome, -⟩ :=
    evaluateChecks_means (evaluate_sampleCheck HexDigest)
  exact ⟨_, hdigest, houtcome⟩

end EvidenceBraid
