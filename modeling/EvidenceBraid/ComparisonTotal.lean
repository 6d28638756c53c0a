import EvidenceBraid.ComparisonIdentical

/-!
# What a comparison reports of numbers

Every number of a change is a float. A control that is a float is reported exactly. A count is converted
first: the conversion rounds counts beyond `2 ** 53`, and raises beyond the largest float. So a
comparison returns, with the policies' own values, exactly when the counts that differ are floats and
the changes are not too many (`comparison_exact_iff`).
-/

namespace EvidenceBraid

open Binary64

/-! ## Conversions -/

/-- A control whose value is that of a float. -/
def Control.Exact (c : Control) : Prop := ∃ x : Finite, x.toRat = c.value

theorem Control.exact_float (x : Finite) : (Control.float x).Exact := ⟨x, rfl⟩

/-- The nearest pattern of a pattern's value. -/
theorem nearest_value {b : ℕ} (hb : b < 2 ^ 63) : nearest (value b) = b := by
  have hmiddle : ∀ a, value a < middle a := fun a => by
    rw [middle_eq]
    have hgap : 0 < halfGap a := by
      unfold halfGap
      have := gap_pos a
      have := unit_pos
      positivity
    linarith
  apply nearest_eq hb
  · simp [roundsBy, hmiddle b]
  · rintro a rfl
    have hbelow : middle a < value (a + 1) := by
      rw [middle_eq']
      have hgap : 0 < halfGap a := by
        unfold halfGap
        have := gap_pos a
        have := unit_pos
        positivity
      linarith
    simp [roundsBy, hbelow.not_gt, hbelow.ne']

theorem floatOfInt_of_exact {n : ℕ} (h : (Control.int n).Exact) :
    ∃ x, floatOfInt n = some x ∧ x.toRat = n := by
  obtain ⟨x, hx⟩ := h
  have hvalue : value x.bits = n := by
    have hnonneg : 0 ≤ value x.bits := div_nonneg (Nat.cast_nonneg _) unit_pos.le
    have hn : (0 : ℚ) ≤ n := Nat.cast_nonneg n
    rw [Control.value, Finite.toRat] at hx
    split_ifs at hx with hneg
    · have hzero : value x.bits = 0 := by linarith
      linarith
    · exact hx
  have hlt : x.bits < 2 ^ 63 := x.lt.trans (by norm_num)
  have hnearest : nearest ((n : ℤ).natAbs : ℚ) = x.bits := by
    rw [Int.natAbs_natCast, ← hvalue, nearest_value hlt]
  have hsign : ¬ ((n : ℤ) < 0) := by omega
  refine ⟨⟨false, x.bits, x.lt⟩, ?_, hvalue⟩
  rw [floatOfInt, dif_pos (hnearest ▸ x.lt), Option.some.injEq, Finite.mk.injEq]
  exact ⟨decide_eq_false hsign, hnearest⟩

/-- A setting that is converted exactly. -/
def Setting.Exact : Setting → Prop
  | control c => c.Exact
  | _ => True

/-- A change shows a setting. -/
def Setting.Shown : Setting → Json → Prop
  | absent, json => json = .null
  | control c, json => ∃ x : Finite, json = .float x ∧ x.toRat = c.value
  | updates rule, json => json = Json.dict [("prior_weight", .float rule.priorWeight.value),
      ("max_adjustment", .float rule.maxAdjustment.value)]
  | _, _ => False

theorem Setting.toJson_of_exact {s : Setting} (h : s.Exact) : ∃ json, s.toJson = .ok json := by
  cases s with
  | control c =>
    cases c with
    | float x => exact ⟨_, rfl⟩
    | int n =>
      obtain ⟨x, hx, -⟩ := floatOfInt_of_exact h
      exact ⟨.float x, by rw [toJson, Control.number, hx]; rfl⟩
  | _ => exact ⟨_, rfl⟩

/-- A setting with a number. -/
def Setting.Numeric : Setting → Prop
  | absent | control _ | updates _ => True
  | _ => False

/-- An exact setting is shown as it is. -/
theorem Setting.shown_of_exact {s : Setting} (h : s.Exact) (hnumeric : s.Numeric) {json : Json}
    (hjson : s.toJson = .ok json) : s.Shown json := by
  cases s with
  | absent => exact (Except.ok.inj hjson).symm
  | control c =>
    cases c with
    | float x => exact ⟨x, (Except.ok.inj hjson).symm, rfl⟩
    | int n =>
      obtain ⟨x, hx, hvalue⟩ := floatOfInt_of_exact h
      rw [toJson, Control.number, hx] at hjson
      exact ⟨x, (Except.ok.inj hjson).symm, hvalue⟩
  | updates rule => exact (Except.ok.inj hjson).symm
  | version => exact hnumeric.elim
  | name => exact hnumeric.elim
  | modalities => exact hnumeric.elim

/-! ## Numeric controls -/

/-- A place where policies have numbers: the path of its change, and the two settings. -/
inductive NumericControl (P Q : Policy) : String → Setting → Setting → Prop
  | defaultReliability : NumericControl P Q "default_source_reliability"
      (.control P.defaultSourceReliability.control) (.control Q.defaultSourceReliability.control)
  | declared {name new} (hP : P.sources.get? name = none) (hQ : Q.sources.get? name = some new) :
      NumericControl P Q ("sources." ++ name.value) .absent (.control new.reliability.control)
  | removed {name old} (hP : P.sources.get? name = some old) (hQ : Q.sources.get? name = none) :
      NumericControl P Q ("sources." ++ name.value) (.control old.reliability.control) .absent
  | reliability {name old new} (hP : P.sources.get? name = some old)
      (hQ : Q.sources.get? name = some new) :
      NumericControl P Q ("sources." ++ name.value ++ ".reliability")
        (.control old.reliability.control) (.control new.reliability.control)
  | defaultHalfLife : NumericControl P Q "decay.default_half_life_seconds"
      (.control P.decay.defaultHalfLifeSeconds.control)
      (.control Q.decay.defaultHalfLifeSeconds.control)
  | skew : NumericControl P Q "decay.max_future_skew_seconds"
      (.control P.decay.maxFutureSkewSeconds.control) (.control Q.decay.maxFutureSkewSeconds.control)
  | halfLife (modality : Modality) :
      NumericControl P Q ("decay.modality_half_life_seconds." ++ modality.value)
        (((P.decay.modalityHalfLifeSeconds.get? modality).map fun x => .control x.control).getD .absent)
        (((Q.decay.modalityHalfLifeSeconds.get? modality).map fun x => .control x.control).getD .absent)
  | claim {claim old new control} (hP : P.claims.get? claim = some old)
      (hQ : Q.claims.get? claim = some new) (hcontrol : control ∈ claimControls) :
      NumericControl P Q ("claims." ++ claim.value ++ "." ++ control.field)
        (.control (control.get old)) (.control (control.get new))
  | started {new} (hP : P.reliabilityUpdates = none) (hQ : Q.reliabilityUpdates = some new) :
      NumericControl P Q "reliability_updates" .absent (.updates new)
  | stopped {old} (hP : P.reliabilityUpdates = some old) (hQ : Q.reliabilityUpdates = none) :
      NumericControl P Q "reliability_updates" (.updates old) .absent
  | priorWeight {old new} (hP : P.reliabilityUpdates = some old)
      (hQ : Q.reliabilityUpdates = some new) :
      NumericControl P Q "reliability_updates.prior_weight" (.control old.priorWeight.control)
        (.control new.priorWeight.control)
  | maxAdjustment {old new} (hP : P.reliabilityUpdates = some old)
      (hQ : Q.reliabilityUpdates = some new) :
      NumericControl P Q "reliability_updates.max_adjustment" (.control old.maxAdjustment.control)
        (.control new.maxAdjustment.control)

/-- Settings that say the same. -/
def Setting.Same : Setting → Setting → Prop
  | absent, absent => True
  | control c, control d => c.value = d.value
  | updates rule, updates rule' => rule = rule'
  | _, _ => False

/-- Every numeric control that differs is reported with the policies' own values, which differ. -/
def ReportsNumbers (P Q : Policy) (c : PolicyComparison) : Prop :=
  ∀ {path before after}, NumericControl P Q path before after → ¬ before.Same after →
    ∃ x ∈ c.changes, x.path.value = path ∧ before.Shown x.before ∧ after.Shown x.after ∧
      x.before ≠ x.after

/-- The counts of common claims that differ are floats in both policies. -/
def ExactCounts (P Q : Policy) : Prop :=
  ∀ claim old new, P.claims.get? claim = some old → Q.claims.get? claim = some new →
    ∀ control ∈ claimControls, (control.get old).value ≠ (control.get new).value →
      (control.get old).Exact ∧ (control.get new).Exact

/-! ## Constructor calls -/

theorem mem_changeArgs {isPrintable : Char → Bool} {P Q : Policy} {a : ChangeArgs} :
    a ∈ changeArgs isPrintable P Q ↔ a ∈ policyIdChange isPrintable P Q ∨
      a ∈ schemaVersionChange P Q ∨ a ∈ compareSources isPrintable P Q ∨ a ∈ compareDecay P Q ∨
      a ∈ compareClaims isPrintable P Q ∨ a ∈ compareReliabilityUpdates P Q := by
  simp only [changeArgs, List.mem_append, or_assoc]

theorem sourceChange_mem {isPrintable : Char → Bool} {P Q : Policy} {name : Text} {a : ChangeArgs}
    (ha : a ∈ sourceChange isPrintable P Q name) : a ∈ changeArgs isPrintable P Q := by
  have hkey : name ∈ List.sortedSet (P.sources.keys ++ Q.sources.keys) := by
    rw [List.mem_sortedSet]
    by_contra hnot
    obtain ⟨hP, hQ⟩ := get?_eq_of_not_mem hnot
    rw [sourceChange_eq_none.mpr (hP.trans hQ.symm)] at ha
    cases ha
  apply mem_changeArgs.mpr
  exact .inr (.inr (.inl (List.mem_append_right _
    (List.mem_flatMap.mpr ⟨name, hkey, Option.mem_toList.mpr ha⟩))))

theorem halfLifeChange_mem (isPrintable : Char → Bool) {P Q : Policy} {modality : Modality}
    {a : ChangeArgs} (ha : a ∈ halfLifeChange P Q modality) : a ∈ changeArgs isPrintable P Q := by
  have hkey : modality ∈ sortedModalities (P.decay.modalityHalfLifeSeconds.keys ++
      Q.decay.modalityHalfLifeSeconds.keys) := by
    rw [sortedModalities, List.mem_sortOn, List.mem_dedup]
    by_contra hnot
    obtain ⟨hP, hQ⟩ := get?_eq_of_not_mem hnot
    have hnone : halfLifeChange P Q modality = none := halfLifeChange_eq_none.mpr (hP.trans hQ.symm)
    rw [hnone] at ha
    cases ha
  have hdecay : a ∈ compareDecay P Q :=
    List.mem_append_right _ (List.mem_flatMap.mpr ⟨modality, hkey, Option.mem_toList.mpr ha⟩)
  exact List.mem_append_left _ (List.mem_append_left _ (List.mem_append_right _ hdecay))

theorem claimChanges_mem {isPrintable : Char → Bool} {P Q : Policy} {claim : Text} {a : ChangeArgs}
    (ha : a ∈ claimChanges isPrintable P Q claim) : a ∈ changeArgs isPrintable P Q := by
  have hkey : claim ∈ List.sortedSet (P.claims.keys ++ Q.claims.keys) := by
    rw [List.mem_sortedSet]
    by_contra hnot
    obtain ⟨hP, hQ⟩ := get?_eq_of_not_mem hnot
    rw [claimChanges_eq_nil.mpr (hP.trans hQ.symm)] at ha
    cases ha
  apply mem_changeArgs.mpr
  exact .inr (.inr (.inr (.inr (.inl (List.mem_flatMap.mpr ⟨claim, hkey, ha⟩)))))

/-- A constructor call about a place. -/
def ChangeArgs.At (a : ChangeArgs) (path : String) (before after : Setting) : Prop :=
  a.path = path ∧ a.before = before ∧ a.after = after

theorem thresholdChange_of_ne {path effectNoun : String} {before after : Control}
    {higherTightens : Bool} (h : before.value ≠ after.value) :
    ∃ a ∈ thresholdChange path before after higherTightens effectNoun,
      a.At path (.control before) (.control after) := by
  unfold thresholdChange
  rw [if_neg h]
  exact ⟨_, rfl, rfl, rfl, rfl⟩

/-- An override that differs has its constructor call. -/
theorem halfLifeChange_of_ne {P Q : Policy} {modality : Modality}
    (h : ¬ (((P.decay.modalityHalfLifeSeconds.get? modality).map
        fun x => Setting.control x.control).getD .absent).Same
      (((Q.decay.modalityHalfLifeSeconds.get? modality).map
        fun x => Setting.control x.control).getD .absent)) :
    ∃ a ∈ halfLifeChange P Q modality, a.At ("decay.modality_half_life_seconds." ++ modality.value)
      (((P.decay.modalityHalfLifeSeconds.get? modality).map fun x => .control x.control).getD .absent)
      (((Q.decay.modalityHalfLifeSeconds.get? modality).map
        fun x => .control x.control).getD .absent) := by
  unfold halfLifeChange
  dsimp only
  split <;> rename_i hP hQ <;> rw [hP, hQ] at h ⊢
  · exact absurd trivial h
  · exact ⟨_, rfl, rfl, rfl, rfl⟩
  · exact ⟨_, rfl, rfl, rfl, rfl⟩
  · exact thresholdChange_of_ne h

/-- **A numeric control that differs** has its constructor call. -/
theorem NumericControl.mem (isPrintable : Char → Bool) {P Q : Policy} {path : String}
    {before after : Setting} (h : NumericControl P Q path before after) (hdiffer : ¬ before.Same after) :
    ∃ a ∈ changeArgs isPrintable P Q, a.At path before after := by
  have hdecay : ∀ {a}, a ∈ compareDecay P Q → a ∈ changeArgs isPrintable P Q := fun ha =>
    mem_changeArgs.mpr (.inr (.inr (.inr (.inl ha))))
  have hupdates : ∀ {a}, a ∈ compareReliabilityUpdates P Q → a ∈ changeArgs isPrintable P Q :=
    fun ha => mem_changeArgs.mpr (.inr (.inr (.inr (.inr (.inr ha)))))
  cases h with
  | defaultReliability =>
    obtain ⟨a, ha, hat⟩ := thresholdChange_of_ne hdiffer
    refine ⟨a, mem_changeArgs.mpr (.inr (.inr (.inl ?_))), hat⟩
    exact List.mem_append_left _ (Option.mem_toList.mpr ha)
  | @declared name new hP hQ =>
    obtain ⟨a, ha, hat⟩ : ∃ a ∈ sourceChange isPrintable P Q name, a.At ("sources." ++ name.value)
        .absent (.control new.reliability.control) := by
      simp only [sourceChange, hP, hQ]
      exact ⟨_, rfl, rfl, rfl, rfl⟩
    exact ⟨a, sourceChange_mem ha, hat⟩
  | @removed name old hP hQ =>
    obtain ⟨a, ha, hat⟩ : ∃ a ∈ sourceChange isPrintable P Q name, a.At ("sources." ++ name.value)
        (.control old.reliability.control) .absent := by
      simp only [sourceChange, hP, hQ]
      exact ⟨_, rfl, rfl, rfl, rfl⟩
    exact ⟨a, sourceChange_mem ha, hat⟩
  | @reliability name old new hP hQ =>
    obtain ⟨a, ha, hat⟩ := thresholdChange_of_ne hdiffer
    refine ⟨a, @sourceChange_mem isPrintable P Q name a ?_, hat⟩
    simpa only [sourceChange, hP, hQ] using ha
  | defaultHalfLife =>
    obtain ⟨a, ha, hat⟩ := thresholdChange_of_ne hdiffer
    refine ⟨a, hdecay ?_, hat⟩
    exact List.mem_append_left _ (List.mem_append_left _ (Option.mem_toList.mpr ha))
  | skew =>
    obtain ⟨a, ha, hat⟩ := thresholdChange_of_ne hdiffer
    refine ⟨a, hdecay ?_, hat⟩
    exact List.mem_append_left _ (List.mem_append_right _ (Option.mem_toList.mpr ha))
  | halfLife modality =>
    obtain ⟨a, ha, hat⟩ := halfLifeChange_of_ne hdiffer
    exact ⟨a, halfLifeChange_mem isPrintable ha, hat⟩
  | @claim claim old new control hP hQ hcontrol =>
    obtain ⟨a, ha, hat⟩ := thresholdChange_of_ne hdiffer
    refine ⟨a, @claimChanges_mem isPrintable P Q claim a ?_, hat⟩
    simp only [claimChanges, hP, hQ, ruleChanges, List.append_assoc]
    apply List.mem_append_left
    exact List.mem_flatMap.mpr ⟨control, hcontrol, Option.mem_toList.mpr ha⟩
  | @started new hP hQ =>
    obtain ⟨a, ha, hat⟩ : ∃ a ∈ compareReliabilityUpdates P Q, a.At "reliability_updates"
        .absent (.updates new) := by
      simp only [compareReliabilityUpdates, hP, hQ]
      exact ⟨_, List.mem_singleton_self _, rfl, rfl, rfl⟩
    exact ⟨a, hupdates ha, hat⟩
  | @stopped old hP hQ =>
    obtain ⟨a, ha, hat⟩ : ∃ a ∈ compareReliabilityUpdates P Q, a.At "reliability_updates"
        (.updates old) .absent := by
      simp only [compareReliabilityUpdates, hP, hQ]
      exact ⟨_, List.mem_singleton_self _, rfl, rfl, rfl⟩
    exact ⟨a, hupdates ha, hat⟩
  | @priorWeight old new hP hQ =>
    obtain ⟨a, ha, hat⟩ : ∃ a ∈ compareReliabilityUpdates P Q, a.At "reliability_updates.prior_weight"
        (.control old.priorWeight.control) (.control new.priorWeight.control) := by
      simp only [compareReliabilityUpdates, hP, hQ]
      rw [if_neg (show ¬ old.priorWeight.toRat = new.priorWeight.toRat from hdiffer)]
      exact ⟨_, List.mem_append_left _ (List.mem_singleton_self _), rfl, rfl, rfl⟩
    exact ⟨a, hupdates ha, hat⟩
  | @maxAdjustment old new hP hQ =>
    obtain ⟨a, ha, hat⟩ : ∃ a ∈ compareReliabilityUpdates P Q,
        a.At "reliability_updates.max_adjustment" (.control old.maxAdjustment.control)
          (.control new.maxAdjustment.control) := by
      simp only [compareReliabilityUpdates, hP, hQ]
      rw [if_neg (show ¬ old.maxAdjustment.toRat = new.maxAdjustment.toRat from hdiffer)]
      exact ⟨_, List.mem_append_right _ (List.mem_singleton_self _), rfl, rfl, rfl⟩
    exact ⟨a, hupdates ha, hat⟩

/-! ## Exact calls -/

/-- A constructor call whose settings are converted exactly. -/
def ChangeArgs.Exact (a : ChangeArgs) : Prop := a.before.Exact ∧ a.after.Exact

theorem thresholdChange_exact {path effectNoun : String} {before after : Control}
    {higherTightens : Bool} (h : before.value ≠ after.value → before.Exact ∧ after.Exact) :
    ∀ a ∈ thresholdChange path before after higherTightens effectNoun, a.Exact := by
  intro a ha
  unfold thresholdChange at ha
  split_ifs at ha with heq
  · cases ha
  · obtain rfl := Option.some.inj ha
    exact h heq

/-- A change between floats. -/
theorem thresholdChange_exact_float {path effectNoun : String} {higherTightens : Bool}
    (x y : Finite) :
    ∀ a ∈ thresholdChange path (.float x) (.float y) higherTightens effectNoun, a.Exact :=
  thresholdChange_exact fun _ => ⟨Control.exact_float x, Control.exact_float y⟩

theorem sourceChange_exact {isPrintable : Char → Bool} {P Q : Policy} {name : Text} :
    ∀ a ∈ sourceChange isPrintable P Q name, a.Exact := by
  intro a ha
  unfold sourceChange at ha
  split at ha
  · cases ha
  · obtain rfl := Option.some.inj ha
    exact ⟨trivial, Control.exact_float _⟩
  · obtain rfl := Option.some.inj ha
    exact ⟨Control.exact_float _, trivial⟩
  · exact thresholdChange_exact_float _ _ a ha

theorem halfLifeChange_exact {P Q : Policy} {modality : Modality} :
    ∀ a ∈ halfLifeChange P Q modality, a.Exact := by
  intro a ha
  unfold halfLifeChange at ha
  dsimp only at ha
  split at ha
  · cases ha
  · obtain rfl := Option.some.inj ha
    exact ⟨trivial, Control.exact_float _⟩
  · obtain rfl := Option.some.inj ha
    exact ⟨Control.exact_float _, trivial⟩
  · exact thresholdChange_exact_float _ _ a ha

theorem compareReliabilityUpdates_exact {P Q : Policy} :
    ∀ a ∈ compareReliabilityUpdates P Q, a.Exact := by
  intro a ha
  unfold compareReliabilityUpdates at ha
  split at ha
  · cases ha
  · obtain rfl := List.mem_singleton.mp ha
    exact ⟨trivial, trivial⟩
  · obtain rfl := List.mem_singleton.mp ha
    exact ⟨trivial, trivial⟩
  · rcases List.mem_append.mp ha with ha | ha <;> split_ifs at ha
    · cases ha
    · obtain rfl := List.mem_singleton.mp ha
      exact ⟨Control.exact_float _, Control.exact_float _⟩
    · cases ha
    · obtain rfl := List.mem_singleton.mp ha
      exact ⟨Control.exact_float _, Control.exact_float _⟩

theorem claimChanges_exact {isPrintable : Char → Bool} {P Q : Policy} (h : ExactCounts P Q)
    {claim : Text} : ∀ a ∈ claimChanges isPrintable P Q claim, a.Exact := by
  intro a ha
  unfold claimChanges at ha
  split at ha
  · cases ha
  · obtain rfl := List.mem_singleton.mp ha
    exact ⟨trivial, trivial⟩
  · obtain rfl := List.mem_singleton.mp ha
    exact ⟨trivial, trivial⟩
  · rename_i old new hP hQ
    simp only [ruleChanges, List.mem_append] at ha
    rcases ha with (ha | ha) | ha
    · obtain ⟨control, hcontrol, ha⟩ := List.mem_flatMap.mp ha
      exact thresholdChange_exact (h claim old new hP hQ control hcontrol) a (Option.mem_toList.mp ha)
    · obtain ⟨modality, -, rfl⟩ := List.mem_map.mp ha
      exact ⟨trivial, trivial⟩
    · obtain ⟨modality, -, rfl⟩ := List.mem_map.mp ha
      exact ⟨trivial, trivial⟩

/-- **Every setting of a comparison is converted exactly** when the counts that differ are. -/
theorem changeArgs_exact {isPrintable : Char → Bool} {P Q : Policy} (h : ExactCounts P Q) :
    ∀ a ∈ changeArgs isPrintable P Q, a.Exact := by
  intro a ha
  rcases mem_changeArgs.mp ha with ha | ha | ha | ha | ha | ha
  · unfold policyIdChange at ha
    split_ifs at ha
    · cases ha
    · obtain rfl := List.mem_singleton.mp ha
      exact ⟨trivial, trivial⟩
  · unfold schemaVersionChange at ha
    split_ifs at ha
    · cases ha
    · obtain rfl := List.mem_singleton.mp ha
      exact ⟨trivial, trivial⟩
  · rcases List.mem_append.mp ha with ha | ha
    · exact thresholdChange_exact_float _ _ a (Option.mem_toList.mp ha)
    · obtain ⟨name, -, ha⟩ := List.mem_flatMap.mp ha
      exact sourceChange_exact a (Option.mem_toList.mp ha)
  · rcases List.mem_append.mp ha with ha | ha
    · rcases List.mem_append.mp ha with ha | ha <;>
        exact thresholdChange_exact_float _ _ a (Option.mem_toList.mp ha)
    · obtain ⟨modality, -, ha⟩ := List.mem_flatMap.mp ha
      exact halfLifeChange_exact a (Option.mem_toList.mp ha)
  · obtain ⟨claim, -, ha⟩ := List.mem_flatMap.mp ha
    exact claimChanges_exact h a ha
  · exact compareReliabilityUpdates_exact a ha

/-- A call with exact settings returns. -/
theorem exists_renders {a : ChangeArgs} (hsound : a.Sound) (h : a.Exact) : ∃ c, Renders a c := by
  obtain ⟨path, hpath⟩ := hsound.path
  obtain ⟨effect, heffect⟩ := hsound.effect
  obtain ⟨before, hbefore⟩ := Setting.toJson_of_exact h.1
  obtain ⟨after, hafter⟩ := Setting.toJson_of_exact h.2
  exact ⟨⟨path, before, after, a.direction, effect⟩, hpath, heffect, rfl, hbefore, hafter⟩

/-- A comparison with exact settings and not too many changes returns. -/
theorem comparePolicies_of_exact {isPrintable : Char → Bool} {P Q : Policy} (h : ExactCounts P Q)
    (hlength : (changeArgs isPrintable P Q).length ≤ maxAttributeNodes) :
    ∃ c, comparePolicies isPrintable P Q = .ok c := by
  have hsound := changeArgs_sound isPrintable P Q
  have hmake : ∀ a ∈ changeArgs isPrintable P Q, ∃ c, PolicyChange.make a = .ok c := fun a ha => by
    obtain ⟨c, hc⟩ := exists_renders (hsound a ha) (changeArgs_exact h a ha)
    exact ⟨c, (make_eq_ok (hsound a ha)).mpr hc⟩
  obtain ⟨changes, hchanges⟩ := List.exists_mapM hmake
  refine ⟨_, comparePolicies_eq_ok.mpr ⟨hlength, changes, ?_, rfl⟩⟩
  rw [List.mapM_eq_ok] at hchanges
  exact (List.forall₂_congr_mem fun a ha c => make_eq_ok (hsound a ha)).mp hchanges

/-! ## Reported numbers -/

theorem NumericControl.numeric {P Q : Policy} {path : String} {before after : Setting}
    (h : NumericControl P Q path before after) : before.Numeric ∧ after.Numeric := by
  cases h with
  | halfLife modality =>
    constructor
    · cases P.decay.modalityHalfLifeSeconds.get? modality <;> exact trivial
    · cases Q.decay.modalityHalfLifeSeconds.get? modality <;> exact trivial
  | _ => exact ⟨trivial, trivial⟩

/-- Settings that are shown alike say the same. -/
theorem Setting.same_of_shown {s t : Setting} {json : Json} (hs : s.Shown json) (ht : t.Shown json) :
    s.Same t := by
  cases s with
  | absent =>
    obtain rfl : json = .null := hs
    cases t with
    | absent => trivial
    | control d =>
      obtain ⟨y, hy, -⟩ := ht
      cases hy
    | updates rule => cases ht
    | _ => exact ht.elim
  | control c =>
    obtain ⟨x, rfl, hx⟩ := hs
    cases t with
    | absent => cases ht
    | control d =>
      obtain ⟨y, hy, hvalue⟩ := ht
      obtain rfl := Json.float.inj hy
      exact hx.symm.trans hvalue
    | updates rule => cases ht
    | _ => exact ht.elim
  | updates rule =>
    obtain rfl : json = _ := hs
    cases t with
    | absent => cases ht
    | control d =>
      obtain ⟨y, hy, -⟩ := ht
      cases hy
    | updates rule' =>
      have hlt : "max_adjustment" < "prior_weight" := by decide
      simp only [Shown, Json.dict, List.foldr_cons, List.foldr_nil, Json.insertKey, if_neg hlt.asymm,
        if_pos hlt, Json.obj.injEq, List.cons.injEq, Prod.mk.injEq, Json.float.injEq, true_and,
        and_true] at ht
      obtain ⟨hmax, hprior⟩ := ht
      have hrules : rule.priorWeight = rule'.priorWeight ∧ rule.maxAdjustment = rule'.maxAdjustment :=
        ⟨Number.ext_iff.mpr hprior, Number.ext_iff.mpr hmax⟩
      cases rule; cases rule'
      exact congrArg₂ ReliabilityUpdatePolicy.mk hrules.1 hrules.2
    | _ => exact ht.elim
  | _ => exact hs.elim

theorem reportsNumbers_of_exact {isPrintable : Char → Bool} {P Q : Policy} {c : PolicyComparison}
    (hexact : ExactCounts P Q) (h : comparePolicies isPrintable P Q = .ok c) :
    ReportsNumbers P Q c := by
  obtain ⟨-, changes, hchanges, rfl⟩ := comparePolicies_eq_ok.mp h
  intro path before after hcontrol hdiffer
  obtain ⟨a, ha, hpath, rfl, rfl⟩ := hcontrol.mem isPrintable hdiffer
  obtain ⟨x, hx, hrenders⟩ := List.exists_of_forall₂_mem hchanges ha
  have hsettings := changeArgs_exact hexact a ha
  have hbefore := Setting.shown_of_exact hsettings.1 hcontrol.numeric.1 hrenders.before
  have hafter := Setting.shown_of_exact hsettings.2 hcontrol.numeric.2 hrenders.after
  refine ⟨x, List.mem_sortOn.mpr hx, hrenders.path.trans hpath, hbefore, hafter, fun heq => ?_⟩
  rw [← heq] at hafter
  exact hdiffer (Setting.same_of_shown hbefore hafter)

/-- Counts that are reported with their values are floats. -/
theorem exactCounts_of_reportsNumbers {P Q : Policy} {c : PolicyComparison}
    (h : ReportsNumbers P Q c) : ExactCounts P Q := by
  intro claim old new hP hQ control hcontrol hne
  obtain ⟨x, -, -, ⟨before, -, hbefore⟩, ⟨after, -, hafter⟩, -⟩ := h (.claim hP hQ hcontrol) hne
  exact ⟨⟨before, hbefore⟩, ⟨after, hafter⟩⟩

/-! ## How many changes -/

/-- The differences of a claim's rules. -/
def ruleDifferences (old new : ClaimRule) : ℕ :=
  claimControls.countP (fun control => (control.get old).value ≠ (control.get new).value) +
    new.requiredModalities.countP (· ∉ old.requiredModalities) +
    old.requiredModalities.countP (· ∉ new.requiredModalities)

/-- The differences of a claim. -/
def claimDifferences (P Q : Policy) (claim : Text) : ℕ :=
  match P.claims.get? claim, Q.claims.get? claim with
  | none, none => 0
  | some old, some new => ruleDifferences old new
  | _, _ => 1

/-- The differences of the update rules. -/
def updateDifferences (P Q : Policy) : ℕ :=
  match P.reliabilityUpdates, Q.reliabilityUpdates with
  | none, none => 0
  | some old, some new => (if old.priorWeight = new.priorWeight then 0 else 1) +
      (if old.maxAdjustment = new.maxAdjustment then 0 else 1)
  | _, _ => 1

/-- In how many places two policies differ. -/
def differenceCount (P Q : Policy) : ℕ :=
  (if P.policyId = Q.policyId then 0 else 1) +
  (if P.sourceSchemaVersion = Q.sourceSchemaVersion then 0 else 1) +
  ((if P.defaultSourceReliability = Q.defaultSourceReliability then 0 else 1) +
    (List.sortedSet (P.sources.keys ++ Q.sources.keys)).countP fun name =>
      P.sources.get? name ≠ Q.sources.get? name) +
  ((if P.decay.defaultHalfLifeSeconds = Q.decay.defaultHalfLifeSeconds then 0 else 1) +
    (if P.decay.maxFutureSkewSeconds = Q.decay.maxFutureSkewSeconds then 0 else 1) +
    (sortedModalities (P.decay.modalityHalfLifeSeconds.keys ++
      Q.decay.modalityHalfLifeSeconds.keys)).countP fun modality =>
        P.decay.modalityHalfLifeSeconds.get? modality ≠ Q.decay.modalityHalfLifeSeconds.get? modality) +
  ((List.sortedSet (P.claims.keys ++ Q.claims.keys)).map (claimDifferences P Q)).sum +
  updateDifferences P Q

theorem length_toList {α : Type} {o : Option α} {p : Prop} [Decidable p] (h : o = none ↔ p) :
    o.toList.length = if p then 0 else 1 := by
  cases o with
  | none => rw [if_pos (h.mp rfl), Option.toList_none, List.length_nil]
  | some a =>
    rw [if_neg fun hp => Option.some_ne_none a (h.mpr hp), Option.toList_some, List.length_singleton]

theorem length_flatMap_toList {κ α : Type} {f : κ → Option α} {p : κ → Prop} [DecidablePred p]
    (h : ∀ k, f k = none ↔ p k) (xs : List κ) :
    (xs.flatMap fun k => (f k).toList).length = xs.countP fun k => ¬ p k := by
  induction xs with
  | nil => rfl
  | cons k xs ih =>
    rw [List.flatMap_cons, List.length_append, ih, length_toList (h k), List.countP_cons, add_comm]
    by_cases hk : p k <;> simp [hk]

theorem length_requiredWithout (rule other : ClaimRule) :
    (requiredWithout rule other).length =
      rule.requiredModalities.countP (· ∉ other.requiredModalities) := by
  have hnodup : rule.requiredModalities.Nodup :=
    rule.modalities_sorted.imp fun hlt h => absurd (congrArg Modality.value h) hlt.ne
  rw [requiredWithout, sortedModalities, List.length_sortOn, (hnodup.filter _).dedup,
    List.countP_eq_length_filter]

theorem controlChange_eq_none {claim : Text} {old new : ClaimRule} {control : ClaimControl} :
    controlChange claim old new control = none ↔
      (control.get old).value = (control.get new).value := thresholdChange_eq_none

theorem length_ruleChanges (claim : Text) (old new : ClaimRule) :
    (ruleChanges claim old new).length = ruleDifferences old new := by
  rw [ruleChanges, List.length_append, List.length_append, List.length_map, List.length_map,
    length_requiredWithout, length_requiredWithout,
    length_flatMap_toList fun control => @controlChange_eq_none claim old new control]
  rfl

theorem length_claimChanges (isPrintable : Char → Bool) (P Q : Policy) (claim : Text) :
    (claimChanges isPrintable P Q claim).length = claimDifferences P Q claim := by
  unfold claimChanges claimDifferences
  rcases P.claims.get? claim with _ | old <;> rcases Q.claims.get? claim with _ | new
  · rfl
  · rfl
  · rfl
  · exact length_ruleChanges claim old new

theorem length_compareReliabilityUpdates (P Q : Policy) :
    (compareReliabilityUpdates P Q).length = updateDifferences P Q := by
  unfold compareReliabilityUpdates updateDifferences
  rcases P.reliabilityUpdates with _ | old <;> rcases Q.reliabilityUpdates with _ | new
  · rfl
  · rfl
  · rfl
  · simp only [toRat_inj, List.length_append]
    congr 1 <;> split_ifs <;> rfl

/-- **A comparison makes one constructor call for each difference.** -/
theorem length_changeArgs (isPrintable : Char → Bool) (P Q : Policy) :
    (changeArgs isPrintable P Q).length = differenceCount P Q := by
  have hid : (policyIdChange isPrintable P Q).length = if P.policyId = Q.policyId then 0 else 1 := by
    unfold policyIdChange
    split_ifs <;> rfl
  have hversion : (schemaVersionChange P Q).length =
      if P.sourceSchemaVersion = Q.sourceSchemaVersion then 0 else 1 := by
    unfold schemaVersionChange
    split_ifs <;> rfl
  have hclaims : (compareClaims isPrintable P Q).length =
      ((List.sortedSet (P.claims.keys ++ Q.claims.keys)).map (claimDifferences P Q)).sum := by
    simp only [compareClaims, List.length_flatMap, length_claimChanges]
  have hthreshold : ∀ {b : Bounds} (path noun : String) (x y : Number b),
      (thresholdChange path x.control y.control false noun).toList.length = if x = y then 0 else 1 :=
    fun path noun x y => length_toList (thresholdChange_eq_none.trans control_value_inj)
  simp only [changeArgs, compareSources, compareDecay, List.length_append, hid, hversion, hclaims,
    hthreshold, length_flatMap_toList fun name => @sourceChange_eq_none isPrintable P Q name,
    length_flatMap_toList fun modality => @halfLifeChange_eq_none P Q modality,
    length_compareReliabilityUpdates, differenceCount]

/-! ## Comparisons -/

/-- **When a comparison returns with the policies' own numbers**: exactly when the counts that differ
are floats and there are at most `MAX_ATTRIBUTE_NODES` differences. -/
theorem comparison_exact_iff (isPrintable : Char → Bool) (P Q : Policy) :
    (∃ c, comparePolicies isPrintable P Q = .ok c ∧ ReportsNumbers P Q c) ↔
      ExactCounts P Q ∧ differenceCount P Q ≤ maxAttributeNodes := by
  rw [← length_changeArgs isPrintable]
  constructor
  · rintro ⟨c, hc, hreports⟩
    exact ⟨exactCounts_of_reportsNumbers hreports, (comparePolicies_eq_ok.mp hc).1⟩
  · rintro ⟨hexact, hlength⟩
    obtain ⟨c, hc⟩ := comparePolicies_of_exact hexact hlength
    exact ⟨c, hc, reportsNumbers_of_exact hexact hc⟩

/-- The largest quorum below which every count is a float, and the next one. -/
def exactQuorum : PositiveInt := ⟨2 ^ 53, Nat.one_le_two_pow, by decide +kernel⟩

def roundedQuorum : PositiveInt := ⟨2 ^ 53 + 1, Nat.le_add_left 1 _, by decide +kernel⟩

/-- A quorum beyond the largest float. -/
def hugeQuorum : PositiveInt := ⟨10 ^ 400, Nat.one_le_pow _ _ (by decide), by decide +kernel⟩

/-- The pattern of a reported float. -/
def pattern : Json → Option ℕ
  | .float x => some x.bits
  | _ => none

/-- **Counts are merged, and the conversion raises.** -/
theorem comparison_merges_counts :
    ((comparePolicies (fun _ => true) (samplePolicy (sampleRule exactQuorum))
      (samplePolicy (sampleRule roundedQuorum))).toOption.map fun c =>
        c.changes.map fun x => (x.path.value, pattern x.before, pattern x.after)) =
          some [("claims.c.quorum", some 4845873199050653696, some 4845873199050653696)] ∧
    (comparePolicies (fun _ => true) (samplePolicy (sampleRule onePositive))
      (samplePolicy (sampleRule hugeQuorum))).toOption.isNone = true := by
  constructor <;> decide +kernel

end EvidenceBraid
