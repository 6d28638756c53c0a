import EvidenceBraid.Engine

/-!
# Comparing policies

`compare_policies` of `comparison.py`. Each section lists the constructor calls it makes, in its order,
as `ChangeArgs`; `PolicyChange.make` runs one, and `comparePolicies` all of them.

`isPrintable` stands for what the interpreter's Unicode tables call printable: `repr` of a text depends
on it.
-/

namespace EvidenceBraid

open Binary64

/-! ## Changes -/

/-- What a change does to the gate it belongs to. -/
inductive Direction where
  | tightens | loosens | structural | unordered
  deriving DecidableEq, Repr

namespace Direction

def value : Direction → String
  | tightens => "tightens"
  | loosens => "loosens"
  | structural => "structural"
  | unordered => "unordered"

end Direction

/-- `PolicyChange`. -/
structure PolicyChange where
  path : Text
  before : Json
  after : Json
  direction : Direction
  effect : Text

/-- A numeric control: a float, or a count. -/
inductive Control where
  | float (x : Finite)
  | int (n : ℕ)

namespace Control

def value : Control → ℚ
  | float x => x.toRat
  | int n => n

/-- The control in an f-string. -/
def text : Control → String
  | float x => String.ofList (Numeral.repr x).text
  | int n => toString n

/-- `_number`; a count beyond the floats is an `OverflowError`. -/
def number : Control → Result Json
  | float x => .ok (.float x)
  | int n => do
    let x ← orError (floatOfInt n) (.runtime "int too large to convert to float")
    .ok (.float x)

end Control

/-- What a policy says at a place, before it is converted for a change. -/
inductive Setting where
  | absent
  | control (c : Control)
  | version (n : ℕ)
  | name (t : Text)
  | modalities (ms : List Modality)
  | updates (rule : ReliabilityUpdatePolicy)

/-- The `before` or `after` that a constructor call evaluates. -/
def Setting.toJson : Setting → Result Json
  | absent => .ok .null
  | control c => c.number
  | version n => .ok (.int n)
  | name t => .ok (.str t.value)
  | modalities ms => .ok (.arr (ms.map fun m => .str m.value))
  | updates rule => .ok (Json.dict [("prior_weight", .float rule.priorWeight.value),
      ("max_adjustment", .float rule.maxAdjustment.value)])

/-- The arguments of a `PolicyChange(…)`. -/
structure ChangeArgs where
  path : String
  before : Setting
  after : Setting
  direction : Direction
  effect : String

namespace PolicyChange

/-- The constructor. -/
def init (path : String) (before after : Json) (direction : Direction) (effect : String) :
    Result PolicyChange := do
  let path ← text path "change.path"
  let effect ← text effect "change.effect"
  let (before, _) ← freezeJson before "change.before" 0 maxAttributeNodes
  let (after, _) ← freezeJson after "change.after" 0 maxAttributeNodes
  .ok ⟨path, before, after, direction, effect⟩

/-- A constructor call: its arguments are evaluated first. -/
def make (args : ChangeArgs) : Result PolicyChange := do
  let before ← args.before.toJson
  let after ← args.after.toJson
  init args.path before after args.direction args.effect

/-- `_validated_snapshot`. -/
def validatedSnapshot (c : PolicyChange) : Result PolicyChange :=
  init c.path.value c.before c.after c.direction c.effect.value

/-- The sort key. -/
def key (c : PolicyChange) : String ×ₗ String := toLex (c.path.value, c.effect.value)

end PolicyChange

/-- `PolicyComparison`. -/
structure PolicyComparison where
  changes : List PolicyChange

namespace PolicyComparison

/-- The constructor. -/
def make (changes : List PolicyChange) : Result PolicyComparison := do
  let snapshots ← (changes.take maxAttributeNodes).mapM PolicyChange.validatedSnapshot
  valid (changes.length ≤ maxAttributeNodes)
    ("comparison.changes may contain at most " ++ toString maxAttributeNodes ++ " entries")
  let changes := snapshots.sortOn PolicyChange.key
  valid (changes.map PolicyChange.key).Nodup "comparison.changes contains duplicate entries"
  .ok ⟨changes⟩

/-- `identical`. -/
def identical (c : PolicyComparison) : Bool := c.changes.isEmpty

end PolicyComparison

/-! ## Texts -/

/-- One character of `repr` between the quotes. -/
def reprChar (isPrintable : Char → Bool) (quote c : Char) : List Char :=
  if 128 ≤ c.toNat ∧ isPrintable c = true then [c] else asciiChar quote c

/-- `repr` of a text. -/
def reprText (isPrintable : Char → Bool) (t : Text) : String :=
  let quote := if '\'' ∈ t.value.toList ∧ '"' ∉ t.value.toList then '"' else '\''
  String.ofList (quote :: t.value.toList.flatMap (reprChar isPrintable quote) ++ [quote])

/-- A number as a control. -/
def Number.control {b : Bounds} (x : Number b) : Control := .float x.value

/-! ## Sections -/

/-- `_threshold_change`. -/
def thresholdChange (path : String) (before after : Control) (higherTightens : Bool)
    (effectNoun : String) : Option ChangeArgs :=
  if before.value = after.value then none
  else
    let higher := decide (before.value < after.value)
    let tightens := higher == higherTightens
    let movement := if higher then "raises" else "lowers"
    let consequence := if tightens then "harder" else "easier"
    some
      { path, before := .control before, after := .control after
        direction := if tightens then .tightens else .loosens
        effect := movement ++ " " ++ effectNoun ++ " from " ++ before.text ++ " to " ++ after.text ++
          ", making it " ++ consequence ++ " to pass" }

/-- The change of one half-life override. -/
def halfLifeChange (before after : Policy) (modality : Modality) : Option ChangeArgs :=
  let path := "decay.modality_half_life_seconds." ++ modality.value
  match before.decay.modalityHalfLifeSeconds.get? modality,
      after.decay.modalityHalfLifeSeconds.get? modality with
  | none, none => none
  | none, some new => some
      { path, before := .absent, after := .control new.control
        direction := if new.toRat < before.decay.defaultHalfLifeSeconds.toRat then .tightens
          else .loosens
        effect := "overrides the default half-life for " ++ modality.value ++ " evidence with " ++
          new.control.text }
  | some old, none => some
      { path, before := .control old.control, after := .absent
        direction := if after.decay.defaultHalfLifeSeconds.toRat < old.toRat then .tightens
          else .loosens
        effect := "drops the " ++ modality.value ++
          " half-life override, returning it to the default " ++
          after.decay.defaultHalfLifeSeconds.control.text }
  | some old, some new => thresholdChange path old.control new.control false
      ("the " ++ modality.value ++ " half-life")

/-- `_compare_decay`. -/
def compareDecay (before after : Policy) : List ChangeArgs :=
  (thresholdChange "decay.default_half_life_seconds" before.decay.defaultHalfLifeSeconds.control
    after.decay.defaultHalfLifeSeconds.control false "the default half-life").toList ++
  (thresholdChange "decay.max_future_skew_seconds" before.decay.maxFutureSkewSeconds.control
    after.decay.maxFutureSkewSeconds.control false "the tolerated clock skew").toList ++
  (sortedModalities (before.decay.modalityHalfLifeSeconds.keys ++
    after.decay.modalityHalfLifeSeconds.keys)).flatMap fun modality =>
      (halfLifeChange before after modality).toList

section Names

variable (isPrintable : Char → Bool)

/-- The change of one source. -/
def sourceChange (before after : Policy) (name : Text) : Option ChangeArgs :=
  match before.sources.get? name, after.sources.get? name with
  | none, none => none
  | none, some new => some
      { path := "sources." ++ name.value, before := .absent, after := .control new.reliability.control
        direction := .structural
        effect := "declares source " ++ reprText isPrintable name ++ " with reliability " ++
          new.reliability.control.text ++ ", replacing the default " ++
          before.defaultSourceReliability.control.text ++ " it was scored with" }
  | some old, none => some
      { path := "sources." ++ name.value, before := .control old.reliability.control, after := .absent
        direction := .structural
        effect := "removes source " ++ reprText isPrintable name ++
          ", so its evidence now scores at the default reliability " ++
          after.defaultSourceReliability.control.text }
  | some old, some new => thresholdChange ("sources." ++ name.value ++ ".reliability")
      old.reliability.control new.reliability.control false
      ("the reliability of " ++ reprText isPrintable name)

/-- `_compare_sources`. -/
def compareSources (before after : Policy) : List ChangeArgs :=
  (thresholdChange "default_source_reliability" before.defaultSourceReliability.control
    after.defaultSourceReliability.control false "the reliability of undeclared sources").toList ++
  (List.sortedSet (before.sources.keys ++ after.sources.keys)).flatMap fun name =>
    (sourceChange isPrintable before after name).toList

/-- A row of `_CLAIM_CONTROLS`. -/
structure ClaimControl where
  field : String
  get : ClaimRule → Control
  higherTightens : Bool
  noun : String

/-- `_CLAIM_CONTROLS`. -/
def claimControls : List ClaimControl :=
  [⟨"support_threshold", fun rule => rule.supportThreshold.control, true, "the support threshold"⟩,
    ⟨"contradiction_threshold", fun rule => rule.contradictionThreshold.control, true,
      "the contradiction threshold"⟩,
    ⟨"min_margin", fun rule => rule.minMargin.control, true, "the required margin"⟩,
    ⟨"quorum", fun rule => .int rule.quorum.value, true,
      "the required number of independent groups"⟩,
    ⟨"min_sources", fun rule => .int rule.minSources.value, true,
      "the required number of distinct sources"⟩,
    ⟨"min_modalities", fun rule => .int rule.minModalities.value, true,
      "the required number of distinct modalities"⟩,
    ⟨"min_evidence_confidence", fun rule => rule.minEvidenceConfidence.control, true,
      "the confidence an event needs to qualify"⟩]

/-- The changes of one control of a claim. -/
def controlChange (claim : Text) (old new : ClaimRule) (control : ClaimControl) : Option ChangeArgs :=
  thresholdChange ("claims." ++ claim.value ++ "." ++ control.field) (control.get old)
    (control.get new) control.higherTightens control.noun

/-- The modalities that the first rule requires and the second does not, sorted. -/
def requiredWithout (rule other : ClaimRule) : List Modality :=
  sortedModalities (rule.requiredModalities.filter (· ∉ other.requiredModalities))

/-- A change of a claim's required modalities. -/
def requiredChange (claim : Text) (old new : ClaimRule) (direction : Direction) (effect : String) :
    ChangeArgs where
  path := "claims." ++ claim.value ++ ".required_modalities"
  before := .modalities (sortedModalities old.requiredModalities)
  after := .modalities (sortedModalities new.requiredModalities)
  direction := direction
  effect := effect

/-- The changes of a claim that both policies evaluate. -/
def ruleChanges (claim : Text) (old new : ClaimRule) : List ChangeArgs :=
  claimControls.flatMap (fun control => (controlChange claim old new control).toList) ++
  (requiredWithout new old).map (fun modality => requiredChange claim old new .tightens
    ("requires " ++ modality.value ++ " evidence, so a signal without it no longer passes " ++
      "its independence gate however many other modalities corroborate it")) ++
  (requiredWithout old new).map fun modality => requiredChange claim old new .loosens
    ("no longer requires " ++ modality.value ++ " evidence")

/-- The changes of one claim. -/
def claimChanges (before after : Policy) (claim : Text) : List ChangeArgs :=
  match before.claims.get? claim, after.claims.get? claim with
  | none, none => []
  | none, some _ =>
    [{ path := "claims." ++ claim.value, before := .absent, after := .name claim
       direction := .structural
       effect := "adds claim " ++ reprText isPrintable claim ++
        ", which was not evaluated before" }]
  | some _, none =>
    [{ path := "claims." ++ claim.value, before := .name claim, after := .absent
       direction := .structural
       effect := "removes claim " ++ reprText isPrintable claim ++
        ", which is no longer evaluated" }]
  | some old, some new => ruleChanges claim old new

/-- `_compare_claims`. -/
def compareClaims (before after : Policy) : List ChangeArgs :=
  (List.sortedSet (before.claims.keys ++ after.claims.keys)).flatMap
    (claimChanges isPrintable before after)

/-- `_compare_reliability_updates`. -/
def compareReliabilityUpdates (before after : Policy) : List ChangeArgs :=
  match before.reliabilityUpdates, after.reliabilityUpdates with
  | none, none => []
  | none, some new =>
    [{ path := "reliability_updates", before := .absent, after := .updates new
       direction := .unordered
       effect := "starts maintaining source reliability from adjudications; the direction " ++
        "depends entirely on the ground truth the caller supplies" }]
  | some old, none =>
    [{ path := "reliability_updates", before := .updates old, after := .absent
       direction := .unordered
       effect := "stops maintaining source reliability, so every source keeps the reliability " ++
        "the policy declares and supplying adjudications becomes an error" }]
  | some old, some new =>
    (if old.priorWeight.toRat = new.priorWeight.toRat then [] else
      [{ path := "reliability_updates.prior_weight", before := .control old.priorWeight.control
         after := .control new.priorWeight.control, direction := .unordered
         effect := "changes how strongly declared reliability resists adjudications; applied " ++
          "reliability can rise or fall depending on whether those adjudications are " ++
          "correct or incorrect" }]) ++
    (if old.maxAdjustment.toRat = new.maxAdjustment.toRat then [] else
      [{ path := "reliability_updates.max_adjustment", before := .control old.maxAdjustment.control
         after := .control new.maxAdjustment.control, direction := .unordered
         effect := "changes the largest permitted movement from declared reliability; that " ++
          "movement can be upward or downward depending on adjudication outcomes" }])

/-- The change of the policy's name. -/
def policyIdChange (before after : Policy) : List ChangeArgs :=
  if before.policyId = after.policyId then [] else
    [{ path := "policy_id", before := .name before.policyId, after := .name after.policyId
       direction := .structural
       effect := "renames the policy from " ++ reprText isPrintable before.policyId ++ " to " ++
        reprText isPrintable after.policyId ++
        "; results record this identifier, so stored decisions will not match by name" }]

/-- The change of the declared schema version. -/
def schemaVersionChange (before after : Policy) : List ChangeArgs :=
  if before.sourceSchemaVersion = after.sourceSchemaVersion then [] else
    [{ path := "schema_version", before := .version before.sourceSchemaVersion
       after := .version after.sourceSchemaVersion, direction := .structural
       effect := "the documents declare different schema versions; both were read as schema " ++
        toString currentPolicySchemaVersion ++ ", so this alone moves no decision" }]

/-- The constructor calls of `compare_policies`. -/
def changeArgs (before after : Policy) : List ChangeArgs :=
  policyIdChange isPrintable before after ++ schemaVersionChange before after ++
    compareSources isPrintable before after ++ compareDecay before after ++
    compareClaims isPrintable before after ++ compareReliabilityUpdates before after

/-- `compare_policies`. -/
def comparePolicies (before after : Policy) : Result PolicyComparison := do
  let changes ← (changeArgs isPrintable before after).mapM PolicyChange.make
  PolicyComparison.make (changes.sortOn PolicyChange.key)

end Names

end EvidenceBraid
