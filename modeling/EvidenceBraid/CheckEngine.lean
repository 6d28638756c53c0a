import EvidenceBraid.Checks
import EvidenceBraid.Library.Metered
import EvidenceBraid.Library.SortOn

/-!
# Evaluating check plans

* Admission: limits, the budget that all documents share, documents and snapshots.
* Evaluation: one result for each rule, and the evaluation of a plan.
* `parse_check_plan`.

All of it runs within `CheckLimits` over a `Budget`, so an answer is given or an error raised.
-/

namespace EvidenceBraid

open Hashing
open Json (PathPart)

/-! ## Limits -/

/-- `CheckLimits`. -/
structure CheckLimits where
  maxInputs : ℕ
  maxRules : ℕ
  maxInputBytes : ℕ
  maxTotalInputBytes : ℕ
  maxJsonDepth : ℕ
  maxJsonNodes : ℕ
  maxWorkUnits : ℕ
  maxPlanBytes : ℕ
  maxOutputBytes : ℕ
  inputs_ok : 1 ≤ maxInputs ∧ maxInputs ≤ 64
  rules_ok : 1 ≤ maxRules ∧ maxRules ≤ 256
  inputBytes_ok : 1 ≤ maxInputBytes ∧ maxInputBytes ≤ 4 * 1024 * 1024
  totalInputBytes_ok : 1 ≤ maxTotalInputBytes ∧ maxTotalInputBytes ≤ 16 * 1024 * 1024
  jsonDepth_ok : 1 ≤ maxJsonDepth ∧ maxJsonDepth ≤ 32
  jsonNodes_ok : 1 ≤ maxJsonNodes ∧ maxJsonNodes ≤ 500000
  workUnits_ok : 1 ≤ maxWorkUnits ∧ maxWorkUnits ≤ 256 * 1024 * 1024
  planBytes_ok : 1 ≤ maxPlanBytes ∧ maxPlanBytes ≤ 256 * 1024
  outputBytes_ok : 1 ≤ maxOutputBytes ∧ maxOutputBytes ≤ 256 * 1024

namespace CheckLimits

/-- Every limit is at most the other's. -/
structure Within (l m : CheckLimits) : Prop where
  inputs : l.maxInputs ≤ m.maxInputs
  rules : l.maxRules ≤ m.maxRules
  inputBytes : l.maxInputBytes ≤ m.maxInputBytes
  totalInputBytes : l.maxTotalInputBytes ≤ m.maxTotalInputBytes
  jsonDepth : l.maxJsonDepth ≤ m.maxJsonDepth
  jsonNodes : l.maxJsonNodes ≤ m.maxJsonNodes
  workUnits : l.maxWorkUnits ≤ m.maxWorkUnits
  planBytes : l.maxPlanBytes ≤ m.maxPlanBytes
  outputBytes : l.maxOutputBytes ≤ m.maxOutputBytes

instance : LE CheckLimits := ⟨Within⟩

/-- `CheckLimits()`. -/
def default : CheckLimits where
  maxInputs := 16
  maxRules := 64
  maxInputBytes := 1024 * 1024
  maxTotalInputBytes := 4 * 1024 * 1024
  maxJsonDepth := 16
  maxJsonNodes := 100000
  maxWorkUnits := 32 * 1024 * 1024
  maxPlanBytes := 64 * 1024
  maxOutputBytes := 64 * 1024
  inputs_ok := by decide
  rules_ok := by decide
  inputBytes_ok := by decide
  totalInputBytes_ok := by decide
  jsonDepth_ok := by decide
  jsonNodes_ok := by decide
  workUnits_ok := by decide
  planBytes_ok := by decide
  outputBytes_ok := by decide

theorem largestInput_ok : 1 ≤ 4 * 1024 * 1024 ∧ 4 * 1024 * 1024 ≤ 4 * 1024 * 1024 := by decide

theorem largestPlan_ok : 1 ≤ 256 * 1024 ∧ 256 * 1024 ≤ 256 * 1024 := by decide

/-- The ceilings. -/
def ceilings : CheckLimits where
  maxInputs := 64
  maxRules := 256
  maxInputBytes := 4 * 1024 * 1024
  maxTotalInputBytes := 16 * 1024 * 1024
  maxJsonDepth := 32
  maxJsonNodes := 500000
  maxWorkUnits := 256 * 1024 * 1024
  maxPlanBytes := 256 * 1024
  maxOutputBytes := 256 * 1024
  inputs_ok := by decide
  rules_ok := by decide
  inputBytes_ok := largestInput_ok
  totalInputBytes_ok := by decide
  jsonDepth_ok := by decide
  jsonNodes_ok := by decide
  workUnits_ok := by decide
  planBytes_ok := largestPlan_ok
  outputBytes_ok := largestPlan_ok

/-- `_limits`. -/
def resolve (limits : Option CheckLimits) : CheckLimits := limits.getD default

end CheckLimits

/-! ## The budget -/

/-- `_Budget`, less its limits. -/
structure Budget where
  used : ℕ
  nodes : ℕ
  deriving DecidableEq

def Budget.fresh : Budget := ⟨0, 0⟩

/-- What runs within the limits and counts in the budget. -/
abbrev Check := Metered CheckLimits Budget PyError

open Metered (lift allow tally mapEach)

/-- `charge`. -/
def charge (units : ℕ) : Check Unit := do
  allow (fun limits budget => (units : ℤ) ≤ limits.maxWorkUnits - budget.used)
    (.validation "check work budget exhausted")
  tally fun budget => { budget with used := budget.used + units }

/-! ## Documents -/

/-- `_safe_integer` and `_no_float`. -/
def checkHooks : Json.Hooks where
  parseInt t :=
    if 17 < t.text.length then none
    else if safeInteger < t.toInt.natAbs then none
    else some t.toInt
  parseFloat _ := none

/-- What a node of a document must be. -/
def checkNode (item : Json) : Result Unit :=
  match item with
  | .obj kvs =>
    require (∀ k ∈ Json.keys kvs, checkTextOk k = true)
      (.inputFormat "JSON key is outside the check text profile")
  | .arr _ => .ok ()
  | _ => require (isCheckScalar item = true) (.inputFormat "JSON scalar is outside the check profile")

/-- One round of the loop over the nodes. -/
def inspectNode (item : Json) : Check Unit := do
  charge 1
  tally fun budget => { budget with nodes := budget.nodes + 1 }
  allow (fun limits budget => budget.nodes ≤ limits.maxJsonNodes)
    (.validation "shared check JSON node budget exhausted")
  lift (checkNode item)

/-- The document that these bytes are. -/
def decodeCheck (raw : Bytes) : Option Json := (Utf8.decode raw).bind (Json.loads checkHooks)

/-- `_document`, where `maximum` is one of the limits. -/
def checkDocument (maximum : CheckLimits → ℕ) (raw : Bytes) : Check Json := do
  allow (fun limits _ => raw.length ≤ maximum limits)
    (.validation "check document exceeds its byte bound or is not immutable bytes")
  charge raw.length
  allow (fun limits _ => Json.scanDepth limits.maxJsonDepth raw = true)
    (.validation "check JSON nesting exceeds its bound")
  let value ← lift (orError (decodeCheck raw)
    (.inputFormat "invalid JSON for the retained integer/scalar check profile"))
  let _ ← mapEach inspectNode (Json.popped value)
  pure value

/-! ## Snapshots -/

/-- The loop of `_snapshot`. -/
def snapshotItems (extra : ℕ) : (result : Dict Identifier Bytes) → (total : ℕ) →
    List (String × Bytes) → Check (Dict Identifier Bytes)
  | result, _, [] => pure result
  | result, total, (name, raw) :: rest => do
    allow (fun limits _ => result.items.length < limits.maxInputs + extra)
      (.validation "retained input count exceeds its bound")
    let artifactId ← lift (identifier name "retained artifact ID")
    allow (fun limits _ => raw.length ≤ limits.maxInputBytes ∧
      total + raw.length ≤ limits.maxTotalInputBytes)
      (.validation "retained input byte budget exceeded")
    snapshotItems extra (result.set artifactId raw) (total + raw.length) rest

/-- `_snapshot`. -/
def snapshotContents (contents : Dict String Bytes) (extra : ℕ) : Check (Dict Identifier Bytes) := do
  allow (fun limits _ => contents.items.length ≤ limits.maxInputs + extra)
    (.validation "retained contents require a bounded plain dict")
  snapshotItems extra .empty 0 contents.items

/-! ## Rules -/

/-- `len(value)` of a string. -/
def textLength : Json → ℕ
  | .str s => s.toList.length
  | _ => 0

/-- `_at`; `none` is `_ABSENT`. -/
def checkAt (value : Json) : List PathPart → Check (Option Json)
  | [] => pure (some value)
  | part :: path => do
    charge (1 + textLength (CheckPath.partJson part))
    match Json.step? value part with
    | some next => checkAt next path
    | none => pure none

/-- `type(value)`. -/
inductive JsonType where
  | none
  | bool
  | int
  | float
  | str
  | list
  | dict
  deriving DecidableEq, Repr

def typeOf : Json → JsonType
  | .null => .none
  | .bool _ => .bool
  | .int _ => .int
  | .float _ => .float
  | .str _ => .str
  | .arr _ => .list
  | .obj _ => .dict

/-- `==` of two scalars: a boolean equals the integer that it is. -/
def scalarEq : Json → Json → Bool
  | .bool b, .int n => b.toInt = n
  | .int n, .bool b => n = b.toInt
  | v, w => v = w

/-- `_equal`. -/
def checkEqual (left right : Json) : Check Bool := do
  charge (1 + textLength left + textLength right)
  pure (typeOf left = typeOf right && scalarEq left right)

/-- `CheckResult`. -/
structure CheckResult where
  ruleId : Identifier
  outcome : CheckOutcome
  reason : CheckReason
  ok : outcome = reason.outcome
  deriving DecidableEq

namespace CheckResult

/-- The result that a reason gives. -/
def of (rule : CheckRule) (reason : CheckReason) : CheckResult :=
  ⟨rule.ruleId, reason.outcome, reason, rfl⟩

/-- The result of a predicate. -/
def judged (rule : CheckRule) (passed : Bool) : CheckResult :=
  of rule (if passed then .passed else .predicateFalse)

/-- `to_dict`. -/
def toDict (r : CheckResult) : Json :=
  Json.dict [("rule_id", .str r.ruleId.value), ("outcome", .str r.outcome.value),
    ("reason", .str r.reason.value)]

end CheckResult

/-- A dict's value, or a `KeyError`. -/
def entryOf {α : Type} (entry : Option α) : Check α := lift (orError entry (.runtime "KeyError"))

/-- `minimum <= value <= maximum`, of the endpoints that a range has. -/
def betweenEndpoints (r : CheckRule) (n : ℤ) : Bool :=
  r.minimum.any (fun a => a ≤ n) && r.maximum.any fun b => n ≤ b

/-- The part of `_rule` after both values are found; `other` is the expectation of `equals`. -/
def checkValues (rule : CheckRule) (value other : Option Json) : Check CheckResult :=
  match value with
  | none => pure (.of rule .pathMissing)
  | some value =>
    if rule.operator = .sameValue ∧ other = none then pure (.of rule .pathMissing)
    else if isCheckScalar value = false ∨
        rule.operator = .sameValue ∧ other.any isCheckScalar = false then
      pure (.of rule .typeUnsupported)
    else if rule.operator = .integerRange then
      match value with
      | .int n => do
        charge 2
        pure (.judged rule (betweenEndpoints rule n))
      | _ => pure (.of rule .typeUnsupported)
    else do
      let other ← entryOf other
      let passed ← checkEqual value other
      pure (.judged rule passed)

/-- `_rule`. -/
def checkRule (parsed : List (Identifier × Json)) (raw : Dict Identifier Bytes) (rule : CheckRule) :
    Check CheckResult := do
  charge 1
  match rule.operator with
  | .bytesEqual => do
    let left ← entryOf (raw.get? rule.artifactId)
    let right ← entryOf (rule.otherArtifactId.bind raw.get?)
    charge (left.length + right.length)
    pure (.judged rule (left = right))
  | .exists => do
    let document ← entryOf (parsed.lookup rule.artifactId)
    let value ← checkAt document rule.path.parts
    pure (.judged rule value.isSome)
  | .sameValue => do
    let document ← entryOf (parsed.lookup rule.artifactId)
    let value ← checkAt document rule.path.parts
    let otherDocument ← entryOf (rule.otherArtifactId.bind fun i => parsed.lookup i)
    let other ← checkAt otherDocument (rule.otherPath.getD .root).parts
    checkValues rule value other
  | .equals | .integerRange => do
    let document ← entryOf (parsed.lookup rule.artifactId)
    let value ← checkAt document rule.path.parts
    checkValues rule value rule.expected

/-! ## Evaluations -/

variable {D : Type} [Hashing D]

/-- `CheckEvaluation`. -/
structure CheckEvaluation (D : Type) where
  planDigest : D
  results : List CheckResult
  results_length : 1 ≤ results.length ∧ results.length ≤ maxCheckRules
  results_nodup : (results.map (·.ruleId)).Nodup

namespace CheckEvaluation

/-- The constructor. -/
def make (planDigest : D) (results : List CheckResult) : Result (CheckEvaluation D) :=
  if hlength : 1 ≤ results.length ∧ results.length ≤ maxCheckRules then
    if hnodup : (results.map (·.ruleId)).Nodup then .ok ⟨planDigest, results, hlength, hnodup⟩
    else .error (.validation "evaluation requires nonempty immutable unique rule results")
  else .error (.validation "evaluation requires nonempty immutable unique rule results")

omit [Hashing D] in
theorem make_eq_ok {planDigest : D} {results : List CheckResult} {e : CheckEvaluation D} :
    make planDigest results = .ok e ↔ e.planDigest = planDigest ∧ e.results = results := by
  unfold make
  constructor
  · intro h
    split_ifs at h
    rw [← Except.ok.inj h]
    exact ⟨rfl, rfl⟩
  · intro h
    obtain ⟨rfl, rfl⟩ := h
    rw [dif_pos e.results_length, dif_pos e.results_nodup]

/-- `outcome`. -/
def outcome (e : CheckEvaluation D) : CheckOutcome :=
  if e.results.any (fun r => r.outcome = .fail) then .fail
  else if e.results.any (fun r => r.outcome = .unknown) then .unknown
  else .pass

/-- `to_dict`. -/
def toDict (e : CheckEvaluation D) : Json :=
  let counted (state : CheckOutcome) : String × Json :=
    (state.value, .int (e.results.countP fun r => r.outcome = state))
  Json.dict [("kind", .str "evidence-braid-check-evaluation"), ("schema_version", .str "1.0"),
    ("engine_version", .str checkEngineVersion), ("plan_digest", .str (hex e.planDigest)),
    ("outcome", .str e.outcome.value),
    ("counts", Json.dict [counted .pass, counted .fail, counted .unknown]),
    ("results", .arr (e.results.map CheckResult.toDict))]

/-- `to_bytes`. -/
def toBytes (e : CheckEvaluation D) : Bytes := canonicalBytes e.toDict

/-- `digest`. -/
def digest (e : CheckEvaluation D) : D := sha256 e.toBytes

end CheckEvaluation

/-- The artifacts that the JSON rules read, as a sorted set. -/
def jsonInputs (rules : List CheckRule) : List Identifier :=
  List.sortedSet ((rules.filter fun r => r.operator ≠ .bytesEqual).flatMap CheckRule.artifactIds)

/-- The round for one input in the loop over the plan's commitments. -/
def checkInput [DecidableEq D] (retained : Dict Identifier Bytes) (input : ArtifactReference D) :
    Check Unit := do
  let raw ← entryOf (retained.get? input.artifactId)
  charge raw.length
  lift (valid (input.Matches raw) "retained artifact content differs from its plan commitment")

/-- The parsed document of one input. -/
def parseInput (retained : Dict Identifier Bytes) (name : Identifier) : Check (Identifier × Json) := do
  let raw ← entryOf (retained.get? name)
  let value ← checkDocument (·.maxInputBytes) raw
  pure (name, value)

/-- `_evaluate`. -/
def evaluateRetained [DecidableEq D] (plan : CheckPlan D) (retained : Dict Identifier Bytes) :
    Check (CheckEvaluation D) := do
  let encoded := plan.toBytes
  allow (fun limits _ => encoded.length ≤ limits.maxPlanBytes ∧
      plan.rules.length ≤ limits.maxRules ∧ plan.inputs.length ≤ limits.maxInputs)
    (.validation "plan exceeds the configured admission bound")
  charge encoded.length
  lift (valid ((∀ k ∈ retained.keys, k ∈ plan.inputs.map ArtifactReference.artifactId) ∧
      ∀ i ∈ plan.inputs.map ArtifactReference.artifactId, i ∈ retained.keys)
    "retained input inventory must exactly match the plan")
  let _ ← mapEach (checkInput retained) plan.inputs
  let parsed ← mapEach (parseInput retained) (jsonInputs plan.rules)
  let results ← mapEach (checkRule parsed retained) plan.rules
  let result ← lift (CheckEvaluation.make (sha256 encoded) results)
  let output := result.toBytes
  allow (fun limits _ => output.length ≤ limits.maxOutputBytes)
    (.validation "check result exceeds the configured output bound")
  charge output.length
  pure result

/-- What has been computed from a fresh budget. -/
def runCheck {α : Type} (x : Check α) (limits : Option CheckLimits) : Result α :=
  match x (CheckLimits.resolve limits) .fresh with
  | .ok (a, _) => .ok a
  | .error e => .error e

theorem runCheck_eq_ok {α : Type} {x : Check α} {limits : Option CheckLimits} {a : α} :
    runCheck x limits = .ok a ↔
      ∃ budget, x (CheckLimits.resolve limits) .fresh = .ok (a, budget) := by
  unfold runCheck
  cases x (CheckLimits.resolve limits) .fresh with
  | error e => simp
  | ok p =>
    obtain ⟨b, budget⟩ := p
    simp

/-- `evaluate_checks`. -/
def evaluateChecks [DecidableEq D] (plan : CheckPlan D) (contents : Dict String Bytes)
    (limits : Option CheckLimits) : Result (CheckEvaluation D) :=
  runCheck (do
    let retained ← snapshotContents contents 0
    evaluateRetained plan retained) limits

/-- `parse_check_plan`, within its budget. -/
def readCheckPlan (raw : Bytes) : Check (CheckPlan D) := do
  let value ← checkDocument (·.maxPlanBytes) raw
  let plan ← lift (CheckPlan.fromDict value)
  allow (fun limits _ => plan.inputs.length ≤ limits.maxInputs ∧ plan.rules.length ≤ limits.maxRules)
    (.validation "parsed plan exceeds the configured count bounds")
  let encoded := plan.toBytes
  charge (encoded.length + raw.length)
  lift (require (encoded = raw) (.inputFormat "check plans require their exact canonical bytes"))
  pure plan

/-- `parse_check_plan`. -/
def parseCheckPlan (raw : Bytes) (limits : Option CheckLimits) : Result (CheckPlan D) :=
  runCheck (readCheckPlan raw) limits

end EvidenceBraid
