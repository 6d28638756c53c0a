import EvidenceBraid.Engine
import EvidenceBraid.Freezing
import EvidenceBraid.Library.JsonMembers

/-!
# Policy documents and their migration

`migrations.py` and the `from_dict` constructors of policies in `models.py`. A document is frozen,
upgraded one schema version at a time, and then read as a policy of the current schema. An object's
members are in the order of their keys, so a loop over `sorted(…)` is a loop over the members.
-/

namespace EvidenceBraid

open Binary64

def maxMigrationNotes : ℕ := 100000

/-! ## Reports -/

/-- `MigrationNote`: one field an upgrade added. -/
structure MigrationNote where
  path : Text
  change : Text

namespace MigrationNote

/-- The constructor. -/
def make (path change : String) : Result MigrationNote := do
  let path ← text path "migration_note.path"
  let change ← text change "migration_note.change"
  .ok ⟨path, change⟩

end MigrationNote

/-- `MigrationReport`. -/
structure MigrationReport where
  fromVersion : ℕ
  toVersion : ℕ
  notes : List MigrationNote

namespace MigrationReport

/-- The constructor. -/
def make (fromVersion toVersion : ℕ) (notes : List MigrationNote) : Result MigrationReport := do
  valid (earliestPolicySchemaVersion ≤ fromVersion ∧ fromVersion ≤ currentPolicySchemaVersion)
    "migration_report.from_version must be a supported policy schema version"
  valid (earliestPolicySchemaVersion ≤ toVersion ∧ toVersion ≤ currentPolicySchemaVersion)
    "migration_report.to_version must be a supported policy schema version"
  valid (fromVersion ≤ toVersion) "migration_report.to_version must not precede from_version"
  valid (notes.length ≤ maxMigrationNotes)
    ("migration_report.notes may contain at most " ++ toString maxMigrationNotes ++ " entries")
  valid (fromVersion = toVersion → notes = [])
    "an unmigrated report must not contain migration notes"
  .ok ⟨fromVersion, toVersion, notes⟩

end MigrationReport

/-! ## Upgrades -/

/-- A schema version that this build reads. -/
def SchemaVersion : Type :=
  { v : ℕ // earliestPolicySchemaVersion ≤ v ∧ v ≤ currentPolicySchemaVersion }

theorem SchemaVersion.toNat_range {version : ℤ} (hmin : (earliestPolicySchemaVersion : ℤ) ≤ version)
    (hmax : version ≤ currentPolicySchemaVersion) :
    earliestPolicySchemaVersion ≤ version.toNat ∧ version.toNat ≤ currentPolicySchemaVersion :=
  ⟨Int.le_toNat (by omega) |>.mpr hmin, Int.toNat_le.mpr hmax⟩

/-- `policy_schema_version`. -/
def policySchemaVersion (raw : Json) : Result SchemaVersion :=
  match raw with
  | .obj document =>
    match Json.get? document "schema_version" with
    | some (.int version) =>
      if hmin : (earliestPolicySchemaVersion : ℤ) ≤ version then
        if hmax : version ≤ currentPolicySchemaVersion then
          .ok ⟨version.toNat, SchemaVersion.toNat_range hmin hmax⟩
        else .error (.validation ("policy.schema_version " ++ toString version ++
          " is newer than this build understands (schema " ++ toString currentPolicySchemaVersion ++
          "); upgrade evidence-braid rather than downgrading the policy"))
      else .error (.validation ("policy.schema_version " ++ toString version ++
        " is older than the earliest supported version " ++ toString earliestPolicySchemaVersion))
    | _ => .error (.validation "policy.schema_version must be an integer")
  | _ => .error (.validation "policy must be a JSON object")

/-- `_claims`. -/
def claimsOf (document : List (String × Json)) : Result (List (String × Json)) :=
  match Json.get? document "claims" with
  | some (.obj claims) => .ok claims
  | _ => .error (.validation "policy.claims must be a JSON object")

/-- The upgrade of one claim, with its note. -/
def upgradeClaim (claim : String × Json) : Result ((String × Json) × MigrationNote) :=
  match claim.2 with
  | .obj rule => do
    let path := "policy.claims." ++ claim.1 ++ ".required_modalities"
    valid ("required_modalities" ∉ Json.keys rule)
      (path ++ " is not part of schema 1; declare schema_version 2 to use it")
    let note ← MigrationNote.make path "added [] because schema 1 could not require a modality"
    .ok ((claim.1, .obj (Json.assign "required_modalities" (.arr []) rule)), note)
  | _ => .error (.validation ("policy.claims." ++ claim.1 ++ " must be a JSON object"))

/-- `_upgrade_1_to_2`. -/
def upgrade1To2 (document : List (String × Json)) :
    Result (List (String × Json) × List MigrationNote) := do
  let claims ← claimsOf document
  let upgraded ← claims.mapM upgradeClaim
  let document := Json.assign "claims" (.obj (upgraded.map Prod.fst)) document
  .ok (Json.assign "schema_version" (.int 2) document, upgraded.map Prod.snd)

/-- `_UPGRADES`. -/
def upgrades (version : ℕ) :
    Option (List (String × Json) → Result (List (String × Json) × List MigrationNote)) :=
  if version = 1 then some upgrade1To2 else none

/-- The loop of `migrate_policy_document`: this many versions are still to come. -/
def upgradeLoop : ℕ → ℕ → List (String × Json) → List MigrationNote →
    Result (List (String × Json) × ℕ × List MigrationNote)
  | 0, version, document, notes => .ok (document, version, notes)
  | steps + 1, version, document, notes => do
    let upgrade ← orError (upgrades version)
      (.validation ("no upgrade is registered from policy schema " ++ toString version))
    let (document, stepNotes) ← upgrade document
    upgradeLoop steps (version + 1) document (notes ++ stepNotes)

/-- `migrate_policy_document`. -/
def migratePolicyDocument (raw : Json) : Result (Json × MigrationReport) :=
  match raw with
  | .obj _ => do
    let (snapshot, _) ← freezeUnchecked raw "policy" 0 maxAttributeNodes
    let fromVersion ← policySchemaVersion snapshot
    let document ← mapping (some snapshot) "policy"
    let (document, version, notes) ← upgradeLoop (currentPolicySchemaVersion - fromVersion.val)
      fromVersion.val document []
    let report ← MigrationReport.make fromVersion.val version notes
    .ok (.obj document, report)
  | _ => .error (.validation "policy must be a JSON object")

/-! ## Field checks -/

/-- `_text(value, path, trim=False)`, and the check that there is nothing to trim. -/
def exactText (value path blank : String) : Result Text :=
  if hxml : isXmlCharacter value = true then
    if hne : value ≠ "" then
      if htrimmed : strip value = value then .ok ⟨value, hne, htrimmed, hxml⟩
      else .error (.validation blank)
    else .error (.validation (path ++ " must be a non-empty string"))
  else .error (.validation (path ++ " contains a character not allowed by XML 1.0"))

/-- One item of `_named_mapping`. -/
def namedItem (path : String) (item : String × Json) : Result (Text × Json) := do
  let name ← exactText item.1 (path ++ " key")
    (path ++ " keys must not have leading or trailing whitespace")
  .ok (name, item.2)

/-- `_named_mapping`. -/
def namedMapping (value : Option Json) (path : String) : Result (List (Text × Json)) := do
  let data ← mapping value path
  data.mapM (namedItem path)

theorem one_le_toNat {n : ℤ} (h : 1 ≤ n) : 1 ≤ n.toNat := by omega

/-- `_positive_int`. -/
def positiveInt (value : Json) (path : String) : Result PositiveInt :=
  match value with
  | .int n =>
    if hmin : 1 ≤ n then
      if hmax : n.toNat ≤ maxAttributeInteger then .ok ⟨n.toNat, one_le_toNat hmin, hmax⟩
      else .error (.validation (path ++ " integer must contain at most " ++
        toString maxAttributeIntegerDigits ++ " digits"))
    else .error (.validation (path ++ " must be an integer >= 1"))
  | _ => .error (.validation (path ++ " must be an integer >= 1"))

/-- `_immutable_text_tuple`. -/
def immutableTextTuple (value : Json) (path : String) : Result (List Text) :=
  match value with
  | .arr items => items.zipIdx.mapM fun item =>
    let path := path ++ "[" ++ toString item.2 ++ "]"
    match item.1 with
    | .str s => exactText s path (path ++ " must not have surrounding whitespace")
    | _ => .error (.validation (path ++ " must be a non-empty string"))
  | _ => .error (.validation (path ++ " must be a sequence of strings"))

/-- `_canonical_text_tuple`. -/
def canonicalTextTuple (value : Json) (path : String) : Result (List Text) := do
  let items ← immutableTextTuple value path
  valid items.Nodup (path ++ " must not contain duplicates")
  .ok (items.sortOn Text.value)

/-- `_modality_tuple`. -/
def modalityTuple (value : Json) (path : String) : Result (List Modality) := do
  let names ← canonicalTextTuple value path
  names.zipIdx.mapM fun name => orError (Modality.members.lookup name.1.value)
    (.validation (path ++ "[" ++ toString name.2 ++
      "] is not a supported modality; expected one of audio, sensor, text, vision"))

theorem sorted_sortedModalities (ms : List Modality) : SortedModalities (sortedModalities ms) := by
  have hnodup : (sortedModalities ms).Nodup := List.nodup_sortOn.mpr (List.nodup_dedup ms)
  have hle := List.pairwise_sortOn Modality.value ms.dedup
  refine (hle.and hnodup).imp fun ⟨hle, hne⟩ => lt_of_le_of_ne hle fun h => hne ?_
  exact Modality.value_injective h

/-! ## Records -/

/-- `SourcePolicy.from_dict`. -/
def SourcePolicy.fromDict (raw : Json) (path : String) : Result SourcePolicy := do
  let data ← mapping (some raw) path
  only data ["reliability"] path
  let reliability ← number (Json.get? data "reliability") (path ++ ".reliability") .unit
  .ok ⟨reliability⟩

/-- One override of `DecayPolicy.from_dict`. -/
def modalityHalfLife (path : String) (item : Text × Json) :
    Result (Modality × Number .positive) := do
  let name := item.1.value
  let modality ← orError (Modality.members.lookup name)
    (.validation (path ++ ".modality_half_life_seconds has unknown modality: " ++ name))
  let value ← number (some item.2) (path ++ ".modality_half_life_seconds." ++ name) .positive
  .ok (modality, value)

/-- `DecayPolicy.from_dict`. -/
def DecayPolicy.fromDict (raw : Option Json) (path : String) : Result DecayPolicy := do
  let data ← mapping raw path
  only data ["default_half_life_seconds", "modality_half_life_seconds", "max_future_skew_seconds"]
    path
  let default ← number (Json.get? data "default_half_life_seconds")
    (path ++ ".default_half_life_seconds") .positive
  let modalitiesRaw ← namedMapping
    (some ((Json.get? data "modality_half_life_seconds").getD (.obj [])))
    (path ++ ".modality_half_life_seconds")
  let modalities ← modalitiesRaw.mapM (modalityHalfLife path)
  let skew ← number (some ((Json.get? data "max_future_skew_seconds").getD (.int 0)))
    (path ++ ".max_future_skew_seconds") .nonnegative
  .ok ⟨default, Dict.ofItems modalities, skew⟩

/-- `ReliabilityUpdatePolicy.from_dict`. -/
def ReliabilityUpdatePolicy.fromDict (raw : Json) (path : String) :
    Result ReliabilityUpdatePolicy := do
  let data ← mapping (some raw) path
  only data ["prior_weight", "max_adjustment"] path
  let priorWeight ← number (Json.get? data "prior_weight") (path ++ ".prior_weight") .positive
  let maxAdjustment ← number (some ((Json.get? data "max_adjustment").getD (.float Bounds.one)))
    (path ++ ".max_adjustment") .unit
  .ok ⟨priorWeight, maxAdjustment⟩

/-- `ClaimRule.from_dict`. -/
def ClaimRule.fromDict (raw : Json) (path : String) : Result ClaimRule := do
  let data ← mapping (some raw) path
  only data ["support_threshold", "contradiction_threshold", "min_margin", "quorum", "min_sources",
    "min_modalities", "min_evidence_confidence", "required_modalities"] path
  let supportThreshold ← number (Json.get? data "support_threshold") (path ++ ".support_threshold")
    .unit
  let contradictionThreshold ← number (Json.get? data "contradiction_threshold")
    (path ++ ".contradiction_threshold") .unit
  let minMargin ← number (some ((Json.get? data "min_margin").getD (.float Bounds.zero)))
    (path ++ ".min_margin") .unit
  let quorum ← positiveInt ((Json.get? data "quorum").getD (.int 1)) (path ++ ".quorum")
  let minSources ← positiveInt ((Json.get? data "min_sources").getD (.int 1)) (path ++ ".min_sources")
  let minModalities ← positiveInt ((Json.get? data "min_modalities").getD (.int 1))
    (path ++ ".min_modalities")
  let minEvidenceConfidence ← number
    (some ((Json.get? data "min_evidence_confidence").getD (.float Bounds.zero)))
    (path ++ ".min_evidence_confidence") .unit
  let required ← modalityTuple ((Json.get? data "required_modalities").getD (.arr []))
    (path ++ ".required_modalities")
  .ok { supportThreshold, contradictionThreshold, minMargin, quorum, minSources, minModalities,
        minEvidenceConfidence, requiredModalities := sortedModalities required,
        modalities_sorted := sorted_sortedModalities required }

namespace Policy

def fields : List String :=
  ["schema_version", "policy_id", "default_source_reliability", "sources", "decay", "claims",
    "reliability_updates"]

/-- One item of a named mapping, read. -/
def readItem {α : Type} (read : Json → String → Result α) (path : String) (item : Text × Json) :
    Result (Text × α) := do
  let value ← read item.2 (path ++ "." ++ item.1.value)
  .ok (item.1, value)

/-- The dict of a named mapping's items, read one by one. -/
def readNamed {α : Type} (read : Json → String → Result α) (path : String)
    (items : List (Text × Json)) : Result (Dict Text α) := do
  let items ← items.mapM (readItem read path)
  .ok (Dict.ofItems items)

/-- Absent or null updates, or their rule. -/
def updatesField (value : Option Json) : Result (Option ReliabilityUpdatePolicy) :=
  match value with
  | none | some .null => .ok none
  | some raw => do
    let rule ← ReliabilityUpdatePolicy.fromDict raw "policy.reliability_updates"
    .ok (some rule)

/-- `Policy.from_dict` after the migration. -/
def ofMigrated (declared : SchemaVersion) (migrated : Json) : Result Policy := do
  let data ← mapping (some migrated) "policy"
  only data fields "policy"
  let policyId ← textField (Json.get? data "policy_id") "policy.policy_id"
  let defaultSourceReliability ← number
    (some ((Json.get? data "default_source_reliability").getD (.float Bounds.one)))
    "policy.default_source_reliability" .unit
  let sourcesRaw ← namedMapping (some ((Json.get? data "sources").getD (.obj []))) "policy.sources"
  let sources ← readNamed SourcePolicy.fromDict "policy.sources" sourcesRaw
  let claimsRaw ← namedMapping (Json.get? data "claims") "policy.claims"
  valid (claimsRaw ≠ []) "policy.claims must contain at least one claim"
  let claims ← readNamed ClaimRule.fromDict "policy.claims" claimsRaw
  let decay ← DecayPolicy.fromDict (Json.get? data "decay") "policy.decay"
  let reliabilityUpdates ← updatesField (Json.get? data "reliability_updates")
  -- the constructor asks once more for a claim
  if hclaims : claims.items ≠ [] then
    .ok { policyId, defaultSourceReliability, sources, decay, claims, reliabilityUpdates,
          sourceSchemaVersion := declared.val, claims_ne := hclaims,
          version_range := declared.property }
  else .error (.validation "policy.claims must contain at least one claim")

/-- `Policy.from_dict`. -/
def fromDict (raw : Json) : Result Policy := do
  let _ ← mapping (some raw) "policy"
  let declared ← policySchemaVersion raw
  let (migrated, _) ← migratePolicyDocument raw
  ofMigrated declared migrated

end Policy

end EvidenceBraid
