import EvidenceBraid.ComparisonProof
import EvidenceBraid.Decision

/-!
# Identical comparisons

A comparison reports no change exactly when the policies agree in every setting and declare the same
schema version (`changeArgs_eq_nil`). Evaluation reads policies through their settings only
(`evaluate_congr`), so policies without a change decide alike (`identical_decides_alike`).
-/

namespace EvidenceBraid

open Arithmetic Binary64

/-- Policies that agree in every setting. -/
structure SameSettings (P Q : Policy) : Prop where
  policyId : P.policyId = Q.policyId
  defaultReliability : P.defaultSourceReliability = Q.defaultSourceReliability
  sources : ∀ name, P.sources.get? name = Q.sources.get? name
  defaultHalfLife : P.decay.defaultHalfLifeSeconds = Q.decay.defaultHalfLifeSeconds
  skew : P.decay.maxFutureSkewSeconds = Q.decay.maxFutureSkewSeconds
  halfLives : ∀ modality, P.decay.modalityHalfLifeSeconds.get? modality =
    Q.decay.modalityHalfLifeSeconds.get? modality
  claims : ∀ claim, P.claims.get? claim = Q.claims.get? claim
  updates : P.reliabilityUpdates = Q.reliabilityUpdates

/-! ## Values -/

/-- The canonical sign of a float that is not zero below. -/
theorem neg_eq_of_canonical {x : Finite} (h : canonicalZero x = x) : x.neg = decide (x.toRat < 0) := by
  have hzero : x.bits = 0 → x.neg = false := fun hbits => by
    rw [canonicalZero, if_pos hbits] at h
    exact (congrArg Finite.neg h).symm
  cases hneg : x.neg with
  | false =>
    have hnonneg : 0 ≤ x.toRat := by
      rw [Finite.toRat, hneg]
      exact div_nonneg (Nat.cast_nonneg _) unit_pos.le
    exact (decide_eq_false hnonneg.not_gt).symm
  | true =>
    have hbits : 0 < x.bits := Nat.pos_of_ne_zero fun hbits => by
      rw [hzero hbits] at hneg
      cases hneg
    have hlt : x.toRat < 0 := by
      rw [Finite.toRat, hneg]
      exact neg_lt_zero.mpr (value_pos hbits)
    exact (decide_eq_true hlt).symm

/-- **A checked number** is determined by its value. -/
theorem toRat_inj {b : Bounds} {x y : Number b} : x.toRat = y.toRat ↔ x = y := by
  refine ⟨fun h => ?_, fun h => h ▸ rfl⟩
  obtain ⟨⟨xneg, xbits, hx⟩, hxc, _⟩ := x
  obtain ⟨⟨yneg, ybits, hy⟩, hyc, _⟩ := y
  have hneg := (neg_eq_of_canonical hxc).trans
    ((congrArg (fun q : ℚ => decide (q < 0)) h).trans (neg_eq_of_canonical hyc).symm)
  dsimp only at hneg
  subst hneg
  have hvalue : value xbits = value ybits := by
    simp only [Number.toRat, Finite.toRat] at h
    split_ifs at h
    · exact neg_injective h
    · exact h
  obtain rfl := value_strictMono.injective hvalue
  rfl

theorem thresholdChange_eq_none {path : String} {before after : Control} {higherTightens : Bool}
    {effectNoun : String} :
    thresholdChange path before after higherTightens effectNoun = none ↔ before.value = after.value := by
  unfold thresholdChange
  split_ifs with h
  · exact iff_of_true rfl h
  · exact ⟨False.elim, h⟩

theorem control_value_inj {b : Bounds} {x y : Number b} :
    x.control.value = y.control.value ↔ x = y := toRat_inj

theorem count_value_inj {m n : PositiveInt} :
    (Control.int m.value).value = (Control.int n.value).value ↔ m = n := by
  rw [Control.value, Control.value, Nat.cast_inj, PositiveInt.ext_iff]

/-! ## Sections -/

theorem sourceChange_eq_none {isPrintable : Char → Bool} {P Q : Policy} {name : Text} :
    sourceChange isPrintable P Q name = none ↔ P.sources.get? name = Q.sources.get? name := by
  unfold sourceChange
  split <;> rename_i hP hQ <;> rw [hP, hQ]
  · exact iff_of_true rfl rfl
  · exact iff_of_false (Option.some_ne_none _) (Option.some_ne_none _).symm
  · exact iff_of_false (Option.some_ne_none _) (Option.some_ne_none _)
  · rw [thresholdChange_eq_none, control_value_inj, Option.some.injEq]
    rename_i old new
    cases old; cases new
    simp

theorem halfLifeChange_eq_none {P Q : Policy} {modality : Modality} :
    halfLifeChange P Q modality = none ↔ P.decay.modalityHalfLifeSeconds.get? modality =
      Q.decay.modalityHalfLifeSeconds.get? modality := by
  unfold halfLifeChange
  dsimp only
  split <;> rename_i hP hQ <;> rw [hP, hQ]
  · exact iff_of_true rfl rfl
  · exact iff_of_false (Option.some_ne_none _) (Option.some_ne_none _).symm
  · exact iff_of_false (Option.some_ne_none _) (Option.some_ne_none _)
  · rw [thresholdChange_eq_none, control_value_inj, Option.some.injEq]

theorem requiredWithout_eq_nil {rule other : ClaimRule} :
    requiredWithout rule other = [] ↔ ∀ m ∈ rule.requiredModalities, m ∈ other.requiredModalities := by
  have hmem : ∀ m, m ∈ requiredWithout rule other ↔
      m ∈ rule.requiredModalities ∧ m ∉ other.requiredModalities := fun m => by
    rw [requiredWithout, sortedModalities, List.mem_sortOn, List.mem_dedup, List.mem_filter,
      decide_eq_true_eq]
  simp only [List.eq_nil_iff_forall_not_mem, hmem, not_and, not_not]

/-- Required modalities are sorted, so they are determined by which they are. -/
theorem requiredModalities_eq_iff {rule other : ClaimRule} :
    rule.requiredModalities = other.requiredModalities ↔
      requiredWithout other rule = [] ∧ requiredWithout rule other = [] := by
  rw [requiredWithout_eq_nil, requiredWithout_eq_nil]
  refine ⟨fun h => ⟨fun m hm => h ▸ hm, fun m hm => h ▸ hm⟩, fun ⟨hother, hrule⟩ => ?_⟩
  have hnodup : ∀ r : ClaimRule, r.requiredModalities.Nodup := fun r =>
    r.modalities_sorted.imp fun hlt h => absurd (congrArg Modality.value h) hlt.ne
  have hperm : rule.requiredModalities.Perm other.requiredModalities :=
    (List.perm_ext_iff_of_nodup (hnodup rule) (hnodup other)).mpr fun m => ⟨hrule m, hother m⟩
  exact hperm.eq_of_pairwise (fun a b _ _ hab hba => absurd (hab.trans hba) (lt_irrefl _))
    rule.modalities_sorted other.modalities_sorted

theorem controlChange_eq_nil {claim : Text} {old new : ClaimRule} :
    (claimControls.flatMap fun control => (controlChange claim old new control).toList) = [] ↔
      ∀ control ∈ claimControls, (control.get old).value = (control.get new).value := by
  rw [List.flatMap_eq_nil_iff]
  simp only [Option.toList_eq_nil_iff, controlChange, thresholdChange_eq_none]

theorem ruleChanges_eq_nil {claim : Text} {old new : ClaimRule} :
    ruleChanges claim old new = [] ↔ old = new := by
  rw [ruleChanges, List.append_eq_nil_iff, List.append_eq_nil_iff, controlChange_eq_nil,
    List.map_eq_nil_iff, List.map_eq_nil_iff, and_assoc, ← requiredModalities_eq_iff]
  simp only [claimControls, List.forall_mem_cons, List.not_mem_nil, false_implies, implies_true,
    and_true, control_value_inj, count_value_inj]
  cases old; cases new
  simp only [ClaimRule.mk.injEq]
  tauto

theorem claimChanges_eq_nil {isPrintable : Char → Bool} {P Q : Policy} {claim : Text} :
    claimChanges isPrintable P Q claim = [] ↔ P.claims.get? claim = Q.claims.get? claim := by
  unfold claimChanges
  split <;> rename_i hP hQ <;> rw [hP, hQ]
  · exact iff_of_true rfl rfl
  · exact iff_of_false (List.cons_ne_nil _ _) (Option.some_ne_none _).symm
  · exact iff_of_false (List.cons_ne_nil _ _) (Option.some_ne_none _)
  · rw [ruleChanges_eq_nil, Option.some.injEq]

/-! ## All settings -/

/-- A key of neither dict has no value in either. -/
theorem get?_eq_of_not_mem {κ α : Type} [DecidableEq κ] {d e : Dict κ α} {k : κ}
    (h : k ∉ d.keys ++ e.keys) : d.get? k = none ∧ e.get? k = none := by
  rw [List.mem_append, not_or, Dict.mem_keys_iff, Dict.mem_keys_iff, Option.not_isSome_iff_eq_none,
    Option.not_isSome_iff_eq_none] at h
  exact h

theorem forall_get?_eq_iff {κ α : Type} [DecidableEq κ] {d e : Dict κ α} :
    (∀ k ∈ d.keys ++ e.keys, d.get? k = e.get? k) ↔ ∀ k, d.get? k = e.get? k := by
  refine ⟨fun h k => ?_, fun h k _ => h k⟩
  by_cases hk : k ∈ d.keys ++ e.keys
  · exact h k hk
  · rw [(get?_eq_of_not_mem hk).1, (get?_eq_of_not_mem hk).2]

theorem compareSources_eq_nil {isPrintable : Char → Bool} {P Q : Policy} :
    compareSources isPrintable P Q = [] ↔ P.defaultSourceReliability = Q.defaultSourceReliability ∧
      ∀ name, P.sources.get? name = Q.sources.get? name := by
  rw [compareSources, List.append_eq_nil_iff, Option.toList_eq_nil_iff, thresholdChange_eq_none,
    control_value_inj, List.flatMap_eq_nil_iff, ← forall_get?_eq_iff]
  simp only [List.mem_sortedSet, Option.toList_eq_nil_iff, sourceChange_eq_none]

theorem compareDecay_eq_nil {P Q : Policy} :
    compareDecay P Q = [] ↔ (P.decay.defaultHalfLifeSeconds = Q.decay.defaultHalfLifeSeconds ∧
      P.decay.maxFutureSkewSeconds = Q.decay.maxFutureSkewSeconds) ∧
      ∀ modality, P.decay.modalityHalfLifeSeconds.get? modality =
        Q.decay.modalityHalfLifeSeconds.get? modality := by
  rw [compareDecay, List.append_eq_nil_iff, List.append_eq_nil_iff, Option.toList_eq_nil_iff,
    Option.toList_eq_nil_iff, thresholdChange_eq_none, thresholdChange_eq_none, control_value_inj,
    control_value_inj, List.flatMap_eq_nil_iff, ← forall_get?_eq_iff]
  simp only [sortedModalities, List.mem_sortOn, List.mem_dedup, Option.toList_eq_nil_iff,
    halfLifeChange_eq_none]

theorem compareClaims_eq_nil {isPrintable : Char → Bool} {P Q : Policy} :
    compareClaims isPrintable P Q = [] ↔ ∀ claim, P.claims.get? claim = Q.claims.get? claim := by
  rw [compareClaims, List.flatMap_eq_nil_iff, ← forall_get?_eq_iff]
  simp only [List.mem_sortedSet, claimChanges_eq_nil]

theorem compareReliabilityUpdates_eq_nil {P Q : Policy} :
    compareReliabilityUpdates P Q = [] ↔ P.reliabilityUpdates = Q.reliabilityUpdates := by
  unfold compareReliabilityUpdates
  split <;> rename_i hP hQ <;> rw [hP, hQ]
  · exact iff_of_true rfl rfl
  · exact iff_of_false (List.cons_ne_nil _ _) (Option.some_ne_none _).symm
  · exact iff_of_false (List.cons_ne_nil _ _) (Option.some_ne_none _)
  · rename_i old new
    rw [List.append_eq_nil_iff, Option.some.injEq]
    simp only [ite_eq_left_iff, List.cons_ne_nil, imp_false, not_not, toRat_inj]
    cases old; cases new
    rw [ReliabilityUpdatePolicy.mk.injEq]

theorem policyIdChange_eq_nil {isPrintable : Char → Bool} {P Q : Policy} :
    policyIdChange isPrintable P Q = [] ↔ P.policyId = Q.policyId := by
  simp only [policyIdChange, ite_eq_left_iff, List.cons_ne_nil, imp_false, not_not]

theorem schemaVersionChange_eq_nil {P Q : Policy} :
    schemaVersionChange P Q = [] ↔ P.sourceSchemaVersion = Q.sourceSchemaVersion := by
  simp only [schemaVersionChange, ite_eq_left_iff, List.cons_ne_nil, imp_false, not_not]

/-- **No change** means the same settings and the same declared schema version. -/
theorem changeArgs_eq_nil {isPrintable : Char → Bool} {P Q : Policy} :
    changeArgs isPrintable P Q = [] ↔
      SameSettings P Q ∧ P.sourceSchemaVersion = Q.sourceSchemaVersion := by
  rw [changeArgs]
  simp only [List.append_eq_nil_iff, policyIdChange_eq_nil, schemaVersionChange_eq_nil,
    compareSources_eq_nil, compareDecay_eq_nil, compareClaims_eq_nil,
    compareReliabilityUpdates_eq_nil]
  constructor
  · rintro ⟨⟨⟨⟨⟨hid, hversion⟩, hdefault, hsources⟩, ⟨hhalf, hskew⟩, hmodalities⟩, hclaims⟩, hupdates⟩
    exact ⟨⟨hid, hdefault, hsources, hhalf, hskew, hmodalities, hclaims, hupdates⟩, hversion⟩
  · rintro ⟨h, hversion⟩
    exact ⟨⟨⟨⟨⟨h.policyId, hversion⟩, h.defaultReliability, h.sources⟩,
      ⟨h.defaultHalfLife, h.skew⟩, h.halfLives⟩, h.claims⟩, h.updates⟩

/-! ## Evaluation -/

variable {N : Type} [Arithmetic N]

section SameSettings

variable {P Q : Policy} (h : SameSettings P Q)
include h

theorem reliabilityFor_congr (source : Text) : P.reliabilityFor source = Q.reliabilityFor source := by
  rw [Policy.reliabilityFor, Policy.reliabilityFor, h.sources, h.defaultReliability]

theorem halfLifeFor_congr (modality : Modality) :
    P.decay.halfLifeFor modality = Q.decay.halfLifeFor modality := by
  rw [DecayPolicy.halfLifeFor, DecayPolicy.halfLifeFor, h.halfLives, h.defaultHalfLife]

theorem mem_sources_congr (source : Text) : source ∈ P.sources.keys ↔ source ∈ Q.sources.keys := by
  rw [Dict.mem_keys_iff, Dict.mem_keys_iff, h.sources]

theorem mem_claims_congr (claim : Text) : claim ∈ P.claims.keys ↔ claim ∈ Q.claims.keys := by
  rw [Dict.mem_keys_iff, Dict.mem_keys_iff, h.claims]

theorem claims_sortOn_congr : P.claims.items.sortOn Prod.fst = Q.claims.items.sortOn Prod.fst := by
  apply List.sortOn_eq_of_perm _ P.claims.nodup
  rw [List.perm_ext_iff_of_nodup P.claims.nodup.of_map Q.claims.nodup.of_map]
  rintro ⟨claim, rule⟩
  rw [Dict.mem_items_iff, Dict.mem_items_iff, h.claims]

theorem weightEvent_congr (exp2 : N → N) (event : EvidenceEvent) (asOf : Datetime)
    (reliability : Option N) :
    weightEvent exp2 event P asOf reliability = weightEvent exp2 event Q asOf reliability := by
  unfold weightEvent
  rw [h.skew, halfLifeFor_congr h, reliabilityFor_congr h]

theorem evaluateClaim_congr (exp2 : N → N) (claim : Text) (rule : ClaimRule)
    (events : List EvidenceEvent) (asOf : Datetime) (reliabilities : Text → Option N) :
    evaluateClaim exp2 claim rule events P asOf reliabilities =
      evaluateClaim exp2 claim rule events Q asOf reliabilities := by
  simp only [evaluateClaim, weightEvents, weightEvent_congr h]

theorem adjustSource_congr (rule : ReliabilityUpdatePolicy) (adjudications : List Adjudication)
    (source : Text) : (adjustSource P rule adjudications source : Result (ReliabilityAdjustment N)) =
      adjustSource Q rule adjudications source := by
  simp only [adjustSource, reliabilityFor_congr h]

theorem adjustReliabilities_congr (adjudications : List Adjudication) :
    (adjustReliabilities P adjudications : Result (List (ReliabilityAdjustment N))) =
      adjustReliabilities Q adjudications := by
  rw [adjustReliabilities, adjustReliabilities, h.updates]
  split
  · rfl
  · exact List.mapM_congr_mem fun source _ => adjustSource_congr h _ adjudications source

/-- **Evaluation reads the settings.** -/
theorem evaluate_congr (exp2 : N → N) (events : List EvidenceEvent) (asOf : Datetime)
    (adjudications : List Adjudication) :
    evaluate exp2 P events asOf adjudications = evaluate exp2 Q events asOf adjudications := by
  have hevents : validateEventSet N P events = validateEventSet N Q events := by
    simp only [validateEventSet, mem_claims_congr h, h.skew]
  have hadjudications : ∀ events, validateAdjudicationSet P events adjudications =
      validateAdjudicationSet Q events adjudications := fun events => by
    simp only [validateAdjudicationSet, mem_sources_congr h, h.updates]
  have hupdates : ∀ adjustments : List (ReliabilityAdjustment N),
      updateTraces P adjustments = updateTraces Q adjustments := fun adjustments => by
    rw [updateTraces, updateTraces, h.updates]
  simp only [evaluate, hevents, hadjudications, adjustReliabilities_congr h, claims_sortOn_congr h,
    evaluateClaim_congr h, hupdates, h.policyId]

end SameSettings

/-! ## Identical comparisons -/

theorem identical_iff {isPrintable : Char → Bool} {P Q : Policy} {c : PolicyComparison}
    (h : comparePolicies isPrintable P Q = .ok c) :
    c.identical = true ↔ changeArgs isPrintable P Q = [] := by
  obtain ⟨-, changes, hchanges, rfl⟩ := comparePolicies_eq_ok.mp h
  rw [PolicyComparison.identical, List.isEmpty_iff_length_eq_zero, List.length_sortOn,
    ← hchanges.length_eq, List.length_eq_zero_iff]

/-- **An identical comparison means identical decisions.** Without a change both policies accept the
same inputs, with equal results and digests; and policies that differ in a setting are never
identical. -/
theorem identical_decides_alike (D : Type) [Hashing D] {isPrintable : Char → Bool} {P Q : Policy}
    {c : PolicyComparison} (h : comparePolicies isPrintable P Q = .ok c) :
    (c.identical = true → ∀ (exp2 : N → N) events asOf adjudications,
      (∀ r, evaluate exp2 P events asOf adjudications = .ok r ↔
        evaluate exp2 Q events asOf adjudications = .ok r) ∧
      ∀ r r', evaluate exp2 P events asOf adjudications = .ok r →
        evaluate exp2 Q events asOf adjudications = .ok r' → r = r' ∧ r.digest D = r'.digest D) ∧
    (¬ SameSettings P Q → c.identical = false) := by
  constructor
  · intro hidentical exp2 events asOf adjudications
    have hsame := (changeArgs_eq_nil.mp ((identical_iff h).mp hidentical)).1
    rw [evaluate_congr hsame]
    refine ⟨fun r => Iff.rfl, fun r r' hr hr' => ?_⟩
    obtain rfl : r = r' := Except.ok.inj (hr.symm.trans hr')
    exact ⟨rfl, rfl⟩
  · intro hdiffer
    rw [← Bool.not_eq_true]
    intro hidentical
    exact hdiffer (changeArgs_eq_nil.mp ((identical_iff h).mp hidentical)).1

/-- A policy compared with itself. -/
theorem comparePolicies_self (isPrintable : Char → Bool) (P : Policy) :
    comparePolicies isPrintable P P = .ok ⟨[]⟩ := by
  have hnone : changeArgs isPrintable P P = [] := changeArgs_eq_nil.mpr
    ⟨⟨rfl, rfl, fun _ => rfl, rfl, rfl, fun _ => rfl, fun _ => rfl, rfl⟩, rfl⟩
  rw [comparePolicies_eq_ok, hnone]
  exact ⟨Nat.zero_le _, [], .nil, rfl⟩

/-- The balanced claim is decided alike by a policy without a change. -/
theorem identical_decides_alike_balanced : ∃ r : EvaluationResult ℚ,
    evaluate integerPower balancedPolicy balancedEvents ⟨0, by decide⟩ [] = .ok r ∧
      r.digest HexDigest = r.digest HexDigest := by
  obtain ⟨r, -, hr, -⟩ := exists_balanced
  have halike := (identical_decides_alike HexDigest
    (comparePolicies_self (fun _ => true) balancedPolicy)).1 rfl integerPower balancedEvents
    ⟨0, by decide⟩ []
  exact ⟨r, (halike.1 r).mp hr, (halike.2 r r hr hr).2⟩

end EvidenceBraid
