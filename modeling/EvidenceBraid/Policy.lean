import EvidenceBraid.Event
import EvidenceBraid.Library.Dict
import EvidenceBraid.Library.SortOn

/-!
# Policies

The records of `models.py` that say how evidence is judged, with what their constructors establish
in the types of their fields: the weights of sources, the decay of evidence, the rules of claims,
and the adjudications that may move a weight.
-/

namespace EvidenceBraid

instance : LinearOrder Text := LinearOrder.lift' Text.value fun _ _ => Text.ext_iff.mpr

theorem Text.le_def {a b : Text} : a ≤ b ↔ a.value ≤ b.value := Iff.rfl

/-- `EARLIEST_POLICY_SCHEMA_VERSION`. -/
def earliestPolicySchemaVersion : ℕ := 1

/-- `CURRENT_POLICY_SCHEMA_VERSION`. -/
def currentPolicySchemaVersion : ℕ := 2

/-! ## Outcomes and verdicts -/

inductive Outcome where
  | escalate | reject | review
  deriving DecidableEq, Repr

namespace Outcome

def value : Outcome → String
  | escalate => "escalate"
  | reject => "reject"
  | review => "review"

end Outcome

/-- Ground truth about one observation, decided outside the package. -/
inductive Verdict where
  | correct | incorrect
  deriving DecidableEq, Repr

namespace Verdict

def members : List (String × Verdict) := [("correct", correct), ("incorrect", incorrect)]

def value : Verdict → String
  | correct => "correct"
  | incorrect => "incorrect"

end Verdict

/-- `Adjudication`: a judgement about whether an observation was right. -/
structure Adjudication where
  eventId : Text
  source : Text
  verdict : Verdict
  adjudicatedAt : Datetime
  deriving DecidableEq

/-! ## Rules -/

/-- An integer that `_positive_int` returns. -/
structure PositiveInt where
  value : ℕ
  one_le : 1 ≤ value
  le_max : value ≤ maxAttributeInteger

namespace PositiveInt

theorem ext_iff {m n : PositiveInt} : m = n ↔ m.value = n.value := by
  cases m; cases n; simp

instance : DecidableEq PositiveInt := fun _ _ => decidable_of_iff _ ext_iff.symm

end PositiveInt

/-- `SourcePolicy`. -/
structure SourcePolicy where
  reliability : Number .unit
  deriving DecidableEq

/-- `DecayPolicy`. -/
structure DecayPolicy where
  defaultHalfLifeSeconds : Number .positive
  modalityHalfLifeSeconds : Dict Modality (Number .positive)
  maxFutureSkewSeconds : Number .nonnegative

/-- `half_life_for`. -/
def DecayPolicy.halfLifeFor (d : DecayPolicy) (modality : Modality) : Number .positive :=
  (d.modalityHalfLifeSeconds.get? modality).getD d.defaultHalfLifeSeconds

/-- `ReliabilityUpdatePolicy`: how adjudications move a declared reliability. -/
structure ReliabilityUpdatePolicy where
  priorWeight : Number .positive
  maxAdjustment : Number .unit
  deriving DecidableEq

/-- Modalities in the order of their texts, each at most once. -/
def SortedModalities (modalities : List Modality) : Prop :=
  modalities.Pairwise fun a b => a.value < b.value

instance (modalities : List Modality) : Decidable (SortedModalities modalities) :=
  inferInstanceAs (Decidable (List.Pairwise _ _))

/-- `ClaimRule`. -/
structure ClaimRule where
  supportThreshold : Number .unit
  contradictionThreshold : Number .unit
  minMargin : Number .unit
  quorum : PositiveInt
  minSources : PositiveInt
  minModalities : PositiveInt
  minEvidenceConfidence : Number .unit
  requiredModalities : List Modality
  modalities_sorted : SortedModalities requiredModalities
  deriving DecidableEq

/-- `Policy`: its `schema_version` is always the current one. -/
structure Policy where
  policyId : Text
  defaultSourceReliability : Number .unit
  sources : Dict Text SourcePolicy
  decay : DecayPolicy
  claims : Dict Text ClaimRule
  reliabilityUpdates : Option ReliabilityUpdatePolicy
  sourceSchemaVersion : ℕ
  claims_ne : claims.items ≠ []
  version_range : earliestPolicySchemaVersion ≤ sourceSchemaVersion ∧
    sourceSchemaVersion ≤ currentPolicySchemaVersion

theorem currentVersion_range : earliestPolicySchemaVersion ≤ 2 ∧ 2 ≤ currentPolicySchemaVersion := by
  decide

/-- `reliability_for`. -/
def Policy.reliabilityFor (p : Policy) (source : Text) : Number .unit :=
  ((p.sources.get? source).map (·.reliability)).getD p.defaultSourceReliability

end EvidenceBraid
