import EvidenceBraid.ComparisonTotal

/-!
# The two directions of a comparison

Comparing the other way round reports the same paths, with `TIGHTENS` and `LOOSENS` exchanged
(`changeArgs_mirror`) — unless one policy overrides a modality with the other's default half-life. Such
an override changes no effective half-life, and both directions label it `LOOSENS`
(`comparison_mirrored_iff`).
-/

namespace EvidenceBraid

/-- The label of the other direction. -/
def Direction.flip : Direction → Direction
  | tightens => loosens
  | loosens => tightens
  | structural => structural
  | unordered => unordered

/-- What a constructor call reports: where, and in which direction. -/
def ChangeArgs.label (a : ChangeArgs) : String × Direction := (a.path, a.direction)

/-- The label that the other direction should report. -/
def ChangeArgs.flipped (a : ChangeArgs) : String × Direction := (a.path, a.direction.flip)

/-- Lists of calls that mirror each other. -/
def Mirror (xs ys : List ChangeArgs) : Prop := (ys.map ChangeArgs.flipped).Perm (xs.map ChangeArgs.label)

theorem Mirror.append {xs xs' ys ys' : List ChangeArgs} (h : Mirror xs ys) (h' : Mirror xs' ys') :
    Mirror (xs ++ xs') (ys ++ ys') := by
  rw [Mirror, List.map_append, List.map_append]
  exact List.Perm.append h h'

theorem Mirror.flatMap {α : Type} {f g : α → List ChangeArgs} (items : List α)
    (h : ∀ x ∈ items, Mirror (f x) (g x)) : Mirror (items.flatMap f) (items.flatMap g) := by
  rw [Mirror, List.map_flatMap, List.map_flatMap]
  exact List.Perm.flatMap_left items h

theorem Mirror.toList {x y : Option ChangeArgs}
    (h : y.map ChangeArgs.flipped = x.map ChangeArgs.label) : Mirror x.toList y.toList := by
  rw [Mirror, ← Option.toList_map, ← Option.toList_map, h]

/-! ## Sections -/

theorem thresholdChange_mirror (path : String) (before after : Control) (higherTightens : Bool)
    (effectNoun : String) :
    (thresholdChange path after before higherTightens effectNoun).map ChangeArgs.flipped =
      (thresholdChange path before after higherTightens effectNoun).map ChangeArgs.label := by
  unfold thresholdChange
  rcases lt_trichotomy before.value after.value with h | h | h
  · rw [if_neg h.ne', if_neg h.ne, decide_eq_true h, decide_eq_false h.asymm]
    cases higherTightens <;> rfl
  · rw [if_pos h.symm, if_pos h]
    rfl
  · rw [if_neg h.ne, if_neg h.ne', decide_eq_true h, decide_eq_false h.asymm]
    cases higherTightens <;> rfl

theorem sourceChange_mirror (isPrintable : Char → Bool) (P Q : Policy) (name : Text) :
    (sourceChange isPrintable Q P name).map ChangeArgs.flipped =
      (sourceChange isPrintable P Q name).map ChangeArgs.label := by
  unfold sourceChange
  rcases P.sources.get? name with _ | old <;> rcases Q.sources.get? name with _ | new
  · rfl
  · rfl
  · rfl
  · exact thresholdChange_mirror _ _ _ _ _

/-- One policy overrides the modality with the other's default. -/
def OverriddenByDefault (P Q : Policy) (modality : Modality) : Prop :=
  (P.decay.modalityHalfLifeSeconds.get? modality = none ∧
    Q.decay.modalityHalfLifeSeconds.get? modality = some P.decay.defaultHalfLifeSeconds) ∨
  (Q.decay.modalityHalfLifeSeconds.get? modality = none ∧
    P.decay.modalityHalfLifeSeconds.get? modality = some Q.decay.defaultHalfLifeSeconds)

theorem halfLifeChange_mirror {P Q : Policy} {modality : Modality}
    (h : ¬ OverriddenByDefault P Q modality) :
    (halfLifeChange Q P modality).map ChangeArgs.flipped =
      (halfLifeChange P Q modality).map ChangeArgs.label := by
  unfold OverriddenByDefault at h
  unfold halfLifeChange
  rcases hP : P.decay.modalityHalfLifeSeconds.get? modality with _ | old <;>
    rcases hQ : Q.decay.modalityHalfLifeSeconds.get? modality with _ | new
  · rfl
  · have hne : new.toRat ≠ P.decay.defaultHalfLifeSeconds.toRat := fun heq =>
      h (.inl ⟨hP, hQ.trans (congrArg some (toRat_inj.mp heq))⟩)
    rcases lt_or_gt_of_ne hne with hlt | hgt
    · simp only [Option.map_some, ChangeArgs.flipped, ChangeArgs.label, if_pos hlt, if_neg hlt.asymm]
      rfl
    · simp only [Option.map_some, ChangeArgs.flipped, ChangeArgs.label, if_pos hgt, if_neg hgt.asymm]
      rfl
  · have hne : old.toRat ≠ Q.decay.defaultHalfLifeSeconds.toRat := fun heq =>
      h (.inr ⟨hQ, hP.trans (congrArg some (toRat_inj.mp heq))⟩)
    rcases lt_or_gt_of_ne hne with hlt | hgt
    · simp only [Option.map_some, ChangeArgs.flipped, ChangeArgs.label, if_pos hlt, if_neg hlt.asymm]
      rfl
    · simp only [Option.map_some, ChangeArgs.flipped, ChangeArgs.label, if_pos hgt, if_neg hgt.asymm]
      rfl
  · exact thresholdChange_mirror _ _ _ _ _

theorem ruleChanges_mirror (claim : Text) (old new : ClaimRule) :
    Mirror (ruleChanges claim old new) (ruleChanges claim new old) := by
  have hrequired : ∀ (ms : List Modality) (old new : ClaimRule) (d : Direction) (f g : Modality → String),
      (ms.map fun m => requiredChange claim new old d.flip (f m)).map ChangeArgs.flipped =
        (ms.map fun m => requiredChange claim old new d (g m)).map ChangeArgs.label :=
    fun ms old new d f g => by
      rw [List.map_map, List.map_map]
      apply List.map_congr_left
      intro m _
      cases d <;> rfl
  have hcontrols : Mirror (claimControls.flatMap fun c => (controlChange claim old new c).toList)
      (claimControls.flatMap fun c => (controlChange claim new old c).toList) :=
    Mirror.flatMap _ fun c _ => .toList (thresholdChange_mirror _ _ _ _ _)
  unfold ruleChanges
  rw [List.append_assoc, List.append_assoc]
  apply hcontrols.append
  -- what one direction requires, the other no longer requires
  rw [Mirror, List.map_append, List.map_append]
  apply List.perm_append_comm.trans
  apply List.Perm.append
  · exact .of_eq (hrequired _ old new .tightens _ _)
  · exact .of_eq (hrequired _ old new .loosens _ _)

theorem claimChanges_mirror (isPrintable : Char → Bool) (P Q : Policy) (claim : Text) :
    Mirror (claimChanges isPrintable P Q claim) (claimChanges isPrintable Q P claim) := by
  unfold claimChanges
  rcases P.claims.get? claim with _ | old <;> rcases Q.claims.get? claim with _ | new
  · exact .refl _
  · exact .refl _
  · exact .refl _
  · exact ruleChanges_mirror claim old new

theorem sortedSet_append_comm (xs ys : List Text) :
    List.sortedSet (ys ++ xs) = List.sortedSet (xs ++ ys) :=
  List.sortedSet_congr fun _ => by rw [List.mem_append, List.mem_append, or_comm]

theorem sortedModalities_append_comm (xs ys : List Modality) :
    sortedModalities (ys ++ xs) = sortedModalities (xs ++ ys) := by
  apply List.sortOn_eq_of_perm
  · rw [List.perm_ext_iff_of_nodup (List.nodup_dedup _) (List.nodup_dedup _)]
    intro m
    rw [List.mem_dedup, List.mem_dedup, List.mem_append, List.mem_append, or_comm]
  · exact (List.nodup_dedup _).map Modality.value_injective

theorem compareSources_mirror (isPrintable : Char → Bool) (P Q : Policy) :
    Mirror (compareSources isPrintable P Q) (compareSources isPrintable Q P) := by
  unfold compareSources
  rw [sortedSet_append_comm P.sources.keys]
  apply Mirror.append (.toList (thresholdChange_mirror _ _ _ _ _))
  exact Mirror.flatMap _ fun name _ => .toList (sourceChange_mirror isPrintable P Q name)

theorem compareDecay_mirror {P Q : Policy} (h : ∀ modality, ¬ OverriddenByDefault P Q modality) :
    Mirror (compareDecay P Q) (compareDecay Q P) := by
  unfold compareDecay
  rw [sortedModalities_append_comm P.decay.modalityHalfLifeSeconds.keys]
  apply Mirror.append
  · exact .append (.toList (thresholdChange_mirror _ _ _ _ _))
      (.toList (thresholdChange_mirror _ _ _ _ _))
  · exact Mirror.flatMap _ fun modality _ => .toList (halfLifeChange_mirror (h modality))

theorem compareClaims_mirror (isPrintable : Char → Bool) (P Q : Policy) :
    Mirror (compareClaims isPrintable P Q) (compareClaims isPrintable Q P) := by
  unfold compareClaims
  rw [sortedSet_append_comm P.claims.keys]
  exact Mirror.flatMap _ fun claim _ => claimChanges_mirror isPrintable P Q claim

theorem compareReliabilityUpdates_mirror (P Q : Policy) :
    Mirror (compareReliabilityUpdates P Q) (compareReliabilityUpdates Q P) := by
  unfold compareReliabilityUpdates
  rcases P.reliabilityUpdates with _ | old <;> rcases Q.reliabilityUpdates with _ | new
  · exact .refl _
  · exact .refl _
  · exact .refl _
  · dsimp only
    apply Mirror.append
    · by_cases h : old.priorWeight.toRat = new.priorWeight.toRat
      · rw [if_pos h, if_pos h.symm]
        exact .refl _
      · rw [if_neg h, if_neg (Ne.symm h)]
        exact .refl _
    · by_cases h : old.maxAdjustment.toRat = new.maxAdjustment.toRat
      · rw [if_pos h, if_pos h.symm]
        exact .refl _
      · rw [if_neg h, if_neg (Ne.symm h)]
        exact .refl _

theorem policyIdChange_mirror (isPrintable : Char → Bool) (P Q : Policy) :
    Mirror (policyIdChange isPrintable P Q) (policyIdChange isPrintable Q P) := by
  unfold policyIdChange
  by_cases h : P.policyId = Q.policyId
  · rw [if_pos h, if_pos h.symm]
    exact .refl _
  · rw [if_neg h, if_neg (Ne.symm h)]
    exact .refl _

theorem schemaVersionChange_mirror (P Q : Policy) :
    Mirror (schemaVersionChange P Q) (schemaVersionChange Q P) := by
  unfold schemaVersionChange
  by_cases h : P.sourceSchemaVersion = Q.sourceSchemaVersion
  · rw [if_pos h, if_pos h.symm]
    exact .refl _
  · rw [if_neg h, if_neg (Ne.symm h)]
    exact .refl _

/-- **The other direction** mirrors every change, unless a default is overridden by its equal. -/
theorem changeArgs_mirror {isPrintable : Char → Bool} {P Q : Policy}
    (h : ∀ modality, ¬ OverriddenByDefault P Q modality) :
    Mirror (changeArgs isPrintable P Q) (changeArgs isPrintable Q P) :=
  (((((policyIdChange_mirror isPrintable P Q).append (schemaVersionChange_mirror P Q)).append
    (compareSources_mirror isPrintable P Q)).append (compareDecay_mirror h)).append
    (compareClaims_mirror isPrintable P Q)).append (compareReliabilityUpdates_mirror P Q)

/-! ## Comparisons -/

/-- What a change reports: where, and in which direction. -/
def PolicyChange.label (c : PolicyChange) : String × Direction := (c.path.value, c.direction)

def PolicyChange.flipped (c : PolicyChange) : String × Direction := (c.path.value, c.direction.flip)

theorem renders_labels {args : List ChangeArgs} {changes : List PolicyChange}
    (h : List.Forall₂ Renders args changes) :
    changes.map PolicyChange.label = args.map ChangeArgs.label ∧
      changes.map PolicyChange.flipped = args.map ChangeArgs.flipped := by
  induction h with
  | nil => exact ⟨rfl, rfl⟩
  | cons hc _ ih =>
    simp only [List.map_cons, ih.1, ih.2, PolicyChange.label, PolicyChange.flipped, ChangeArgs.label,
      ChangeArgs.flipped, hc.path, hc.direction, and_self]

/-- A modality's change is labelled by what becomes of its effective half-life. -/
def HalfLivesLabelled (P Q : Policy) (c : PolicyComparison) : Prop :=
  ∀ x ∈ c.changes, ∀ modality : Modality,
    x.path.value = "decay.modality_half_life_seconds." ++ modality.value →
      (x.direction = .tightens →
        (Q.decay.halfLifeFor modality).toRat < (P.decay.halfLifeFor modality).toRat) ∧
      (x.direction = .loosens →
        (P.decay.halfLifeFor modality).toRat < (Q.decay.halfLifeFor modality).toRat)

/-- A threshold where lower is stricter. -/
theorem thresholdChange_labelled {path effectNoun : String} {before after : Control} {a : ChangeArgs}
    (ha : a ∈ thresholdChange path before after false effectNoun) :
    (a.direction = .tightens → after.value < before.value) ∧
      (a.direction = .loosens → before.value < after.value) := by
  unfold thresholdChange at ha
  split_ifs at ha with heq
  · cases ha
  · obtain rfl := Option.some.inj ha
    rcases lt_or_gt_of_ne heq with hlt | hgt
    · simp [hlt]
    · simp [hgt, hgt.asymm]

/-- The change of an override states what becomes of the effective half-life. -/
theorem halfLifeChange_labelled {P Q : Policy} {modality : Modality}
    (h : ¬ OverriddenByDefault P Q modality) {a : ChangeArgs} (ha : a ∈ halfLifeChange P Q modality) :
    (a.direction = .tightens →
      (Q.decay.halfLifeFor modality).toRat < (P.decay.halfLifeFor modality).toRat) ∧
    (a.direction = .loosens →
      (P.decay.halfLifeFor modality).toRat < (Q.decay.halfLifeFor modality).toRat) := by
  rw [DecayPolicy.halfLifeFor, DecayPolicy.halfLifeFor]
  unfold OverriddenByDefault at h
  unfold halfLifeChange at ha
  dsimp only at ha
  split at ha <;> rename_i hP hQ <;> rw [hP, hQ]
  · cases ha
  · rename_i new
    obtain rfl := Option.some.inj ha
    have hne : new.toRat ≠ P.decay.defaultHalfLifeSeconds.toRat := fun heq =>
      h (.inl ⟨hP, hQ.trans (congrArg some (toRat_inj.mp heq))⟩)
    rcases lt_or_gt_of_ne hne with hlt | hgt
    · simp [hlt]
    · simp [hgt, hgt.asymm]
  · rename_i old
    obtain rfl := Option.some.inj ha
    have hne : old.toRat ≠ Q.decay.defaultHalfLifeSeconds.toRat := fun heq =>
      h (.inr ⟨hQ, hP.trans (congrArg some (toRat_inj.mp heq))⟩)
    rcases lt_or_gt_of_ne hne with hlt | hgt
    · simp [hlt, hlt.asymm]
    · simp [hgt]
  · have hlabelled := thresholdChange_labelled ha
    exact hlabelled

/-- A change at the path of an override is the change of that override. -/
theorem mem_halfLifeChange {isPrintable : Char → Bool} {P Q : Policy} {modality : Modality}
    {a : ChangeArgs} (ha : a ∈ changeArgs isPrintable P Q)
    (hpath : a.path = "decay.modality_half_life_seconds." ++ modality.value) :
    a ∈ halfLifeChange P Q modality := by
  have hsection : section3 a = ['d', 'e', 'c'] := by
    rw [section3, hpath, heading_written (by decide)]
    rfl
  simp only [changeArgs, List.mem_append] at ha
  rcases ha with ((((ha | ha) | ha) | ha) | ha) | ha
  · exact absurd (hsection.symm.trans (mem_policyIdChange ha)) (by decide)
  · exact absurd (hsection.symm.trans (mem_schemaVersionChange ha)) (by decide)
  · exact absurd (hsection ▸ mem_compareSources ha) (by decide)
  · rcases List.mem_append.mp ha with ha | ha
    · have hheading := congrArg (heading 8) hpath
      rw [heading_written (by decide)] at hheading
      rcases List.mem_append.mp ha with ha | ha <;>
        rw [(thresholdChange_heading (Option.mem_toList.mp ha)).1, heading_ofList] at hheading <;>
        exact absurd hheading (by decide)
    · obtain ⟨modality', -, ha⟩ := List.mem_flatMap.mp ha
      have hpath' := halfLifeChange_path (Option.mem_toList.mp ha)
      obtain rfl : modality' = modality :=
        Modality.value_injective (String.append_right_inj _ |>.mp (hpath'.symm.trans hpath))
      exact Option.mem_toList.mp ha
  · obtain ⟨claim, -, ha⟩ := List.mem_flatMap.mp ha
    exact absurd (hsection.symm.trans (claimChanges_spelling ha).section) (by decide)
  · exact absurd (hsection.symm.trans (mem_compareReliabilityUpdates ha)) (by decide)

/-- An override with the other's default loosens nothing. -/
theorem halfLifeChange_of_overridden {P Q : Policy} {modality : Modality}
    (h : OverriddenByDefault P Q modality) :
    P.decay.halfLifeFor modality = Q.decay.halfLifeFor modality ∧
      ∃ a ∈ halfLifeChange P Q modality, a.direction = .loosens := by
  unfold DecayPolicy.halfLifeFor halfLifeChange
  rcases h with ⟨hP, hQ⟩ | ⟨hQ, hP⟩ <;> rw [hP, hQ]
  · exact ⟨rfl, _, rfl, if_neg (lt_irrefl _)⟩
  · exact ⟨rfl, _, rfl, if_neg (lt_irrefl _)⟩

/-- **When a comparison is mirrored** and its half-lives are labelled as what they become: exactly when
no modality is overridden by the other policy's default. -/
theorem comparison_mirrored_iff {isPrintable : Char → Bool} {P Q : Policy} {c c' : PolicyComparison}
    (h : comparePolicies isPrintable P Q = .ok c) (h' : comparePolicies isPrintable Q P = .ok c') :
    ((c'.changes.map PolicyChange.flipped).Perm (c.changes.map PolicyChange.label) ∧
      HalfLivesLabelled P Q c) ↔ ∀ modality, ¬ OverriddenByDefault P Q modality := by
  obtain ⟨-, changes, hchanges, rfl⟩ := comparePolicies_eq_ok.mp h
  obtain ⟨-, changes', hchanges', rfl⟩ := comparePolicies_eq_ok.mp h'
  constructor
  · rintro ⟨-, hlabelled⟩ modality hoverridden
    obtain ⟨hsame, a, ha, hloosens⟩ := halfLifeChange_of_overridden hoverridden
    obtain ⟨x, hx, hrenders⟩ := List.exists_of_forall₂_mem hchanges (halfLifeChange_mem isPrintable ha)
    have hlt := (hlabelled x (List.mem_sortOn.mpr hx) modality
      (hrenders.path.trans (halfLifeChange_path ha))).2 (hrenders.direction.trans hloosens)
    rw [hsame] at hlt
    exact lt_irrefl _ hlt
  · intro hnone
    constructor
    · have hsorted := (List.sortOn_perm PolicyChange.key changes).map PolicyChange.label
      have hsorted' := (List.sortOn_perm PolicyChange.key changes').map PolicyChange.flipped
      rw [(renders_labels hchanges).1] at hsorted
      rw [(renders_labels hchanges').2] at hsorted'
      exact hsorted'.trans ((changeArgs_mirror hnone).trans hsorted.symm)
    · intro x hx modality hpath
      obtain ⟨a, ha, hrenders⟩ := List.exists_of_mem_forall₂ hchanges (List.mem_sortOn.mp hx)
      rw [hrenders.direction]
      exact halfLifeChange_labelled (hnone modality)
        (mem_halfLifeChange ha (hrenders.path.symm.trans hpath))

/-- A policy that overrides the default half-life of vision with the same value. -/
def overridingPolicy : Policy :=
  { samplePolicy (sampleRule onePositive) with
    decay := ⟨oneSecond, ⟨[(.vision, oneSecond)], List.nodup_singleton _⟩, noSeconds⟩ }

/-- **Both directions loosen** a half-life that stays the same. -/
theorem override_loosens_both_ways :
    ((comparePolicies (fun _ => true) (samplePolicy (sampleRule onePositive))
      overridingPolicy).toOption.map fun c => c.changes.map PolicyChange.label) =
        some [("decay.modality_half_life_seconds.vision", .loosens)] ∧
    ((comparePolicies (fun _ => true) overridingPolicy
      (samplePolicy (sampleRule onePositive))).toOption.map fun c =>
        c.changes.map PolicyChange.label) =
        some [("decay.modality_half_life_seconds.vision", .loosens)] ∧
    overridingPolicy.decay.halfLifeFor .vision =
      (samplePolicy (sampleRule onePositive)).decay.halfLifeFor .vision := by
  refine ⟨?_, ?_, ?_⟩ <;> decide +kernel

/-- A policy mirrors its comparison with itself. -/
theorem comparison_mirrored_iff_balanced :
    ((([] : List PolicyChange).map PolicyChange.flipped).Perm
        (([] : List PolicyChange).map PolicyChange.label) ∧
      HalfLivesLabelled balancedPolicy balancedPolicy ⟨[]⟩) ↔
      ∀ modality, ¬ OverriddenByDefault balancedPolicy balancedPolicy modality :=
  comparison_mirrored_iff (comparePolicies_self (fun _ => true) balancedPolicy)
    (comparePolicies_self (fun _ => true) balancedPolicy)

end EvidenceBraid
