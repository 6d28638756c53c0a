import EvidenceBraid.ArtifactBundle
import EvidenceBraid.CaseWire
import EvidenceBraid.WorkflowCodec
import EvidenceBraid.Library.JsonPath

/-!
# Check plans

Rules over retained artifacts and the plans that commit to them: the constructors with their checks,
`to_dict` and `from_dict`. A rule is one record whose later fields depend on its operator, as
`Valid` says.
-/

namespace EvidenceBraid

open Hashing
open Json (WellKeyed PathPart)

/-- A loop whose rounds may raise. -/
def forEach {α : Type} (f : α → Result Unit) : List α → Result Unit
  | [] => .ok ()
  | a :: as => do
    f a
    forEach f as

theorem forEach_eq_ok {α : Type} {f : α → Result Unit} {as : List α} {u : Unit} :
    forEach f as = .ok u ↔ ∀ a ∈ as, f a = .ok () := by
  induction as with
  | nil => simp [forEach]
  | cons a as ih =>
    rw [forEach, bind_eq_ok, List.forall_mem_cons, ih, exists_and_right]
    have hunit : (∃ v, f a = .ok v) ↔ f a = .ok () := ⟨fun ⟨_, h⟩ => h, fun h => ⟨_, h⟩⟩
    rw [hunit]

def checkEngineVersion : String := "retained-integer-scalars-v1"

def safeInteger : ℕ := 2 ^ 53 - 1

def maxPlanBytes : ℕ := 256 * 1024

def maxCheckRules : ℕ := 256

def maxCheckInputs : ℕ := 64

def maxCheckDepth : ℕ := 32

/-! ## Enumerations -/

/-- `CheckOperator`. -/
inductive CheckOperator where
  | exists
  | equals
  | integerRange
  | sameValue
  | bytesEqual
  deriving DecidableEq, Repr

namespace CheckOperator

def value : CheckOperator → String
  | .exists => "exists"
  | .equals => "equals"
  | .integerRange => "integer_range"
  | .sameValue => "same_value"
  | .bytesEqual => "bytes_equal"

def members : List (String × CheckOperator) :=
  [.exists, .equals, .integerRange, .sameValue, .bytesEqual].map fun o => (value o, o)

theorem enumTexts : EnumTexts members value :=
  enumTexts_of_forall (by intro a; cases a <;> rfl) (by decide)

end CheckOperator

/-- `CheckOutcome`. -/
inductive CheckOutcome where
  | pass
  | fail
  | unknown
  deriving DecidableEq, Repr

def CheckOutcome.value : CheckOutcome → String
  | .pass => "pass"
  | .fail => "fail"
  | .unknown => "unknown"

/-- `CheckReason`. -/
inductive CheckReason where
  | passed
  | predicateFalse
  | pathMissing
  | typeUnsupported
  deriving DecidableEq, Repr

namespace CheckReason

def value : CheckReason → String
  | .passed => "passed"
  | .predicateFalse => "predicate_false"
  | .pathMissing => "path_missing"
  | .typeUnsupported => "type_unsupported"

/-- The outcome that a reason belongs to. -/
def outcome : CheckReason → CheckOutcome
  | .passed => .pass
  | .predicateFalse => .fail
  | .pathMissing => .unknown
  | .typeUnsupported => .unknown

end CheckReason

/-! ## Scalars and paths -/

/-- A text of the profile. -/
def checkTextOk (s : String) : Bool := s.toList.length ≤ 65536 && isXmlCharacter s

/-- `_scalar`. -/
def isCheckScalar : Json → Bool
  | .null => true
  | .bool _ => true
  | .int n => -(safeInteger : ℤ) ≤ n && n ≤ safeInteger
  | .str s => checkTextOk s
  | _ => false

/-- A part of a path that `_path` admits. -/
def isPathPart : PathPart → Bool
  | .index i => i ≤ safeInteger
  | .key k => k.toList.length ≤ 256 && isXmlCharacter k

/-- A path that `_path` admits. -/
structure CheckPath where
  parts : List PathPart
  length_le : parts.length ≤ maxCheckDepth
  ok : ∀ part ∈ parts, isPathPart part = true
  deriving DecidableEq

namespace CheckPath

def root : CheckPath := ⟨[], Nat.zero_le _, by simp⟩

theorem ext {p q : CheckPath} (h : p.parts = q.parts) : p = q := by
  cases p; cases q; cases h; rfl

/-- A part as a list holds it. -/
def partJson : PathPart → Json
  | .index i => .int i
  | .key k => .str k

/-- The part that an item is. -/
def part? : Json → Option PathPart
  | .int n => if 0 ≤ n then some (.index n.toNat) else none
  | .str s => some (.key s)
  | _ => none

theorem part?_eq_some {v : Json} {part : PathPart} : part? v = some part ↔ v = partJson part := by
  constructor
  · intro h
    unfold part? at h
    split at h
    · split_ifs at h with hn
      rw [← Option.some.inj h, partJson, Int.toNat_of_nonneg hn]
    · rw [← Option.some.inj h, partJson]
    · cases h
  · rintro rfl
    cases part with
    | key k => rfl
    | index i => simp [partJson, part?]

/-- `list(path)`. -/
def toJson (p : CheckPath) : Json := .arr (p.parts.map partJson)

/-- `_path` of a tuple's items. -/
def ofItems (xs : List Json) : Result CheckPath := do
  let parts ← orError (xs.mapM part?)
    (.validation "check path requires bounded string keys or nonnegative integer indices")
  if hlength : parts.length ≤ maxCheckDepth then
    if hok : ∀ part ∈ parts, isPathPart part = true then
      .ok ⟨parts, hlength, hok⟩
    else
      .error (.validation "check path requires bounded string keys or nonnegative integer indices")
  else .error (.validation "check path must be an immutable bounded tuple")

theorem mapM_part? {xs : List Json} : ∀ {parts : List PathPart},
    xs.mapM part? = some parts ↔ xs = parts.map partJson := by
  induction xs with
  | nil =>
    intro parts
    rw [List.mapM_nil]
    cases parts <;> simp
  | cons x xs ih =>
    intro parts
    rw [List.mapM_cons]
    simp only [bind, Option.bind_eq_some_iff, part?_eq_some, ih, pure, Option.some.injEq]
    constructor
    · intro h
      obtain ⟨part, hx, rest, hxs, rfl⟩ := h
      rw [hx, hxs, List.map_cons]
    · intro h
      cases parts with
      | nil => cases h
      | cons part rest =>
        obtain ⟨hx, hxs⟩ := List.cons.inj h
        exact ⟨part, hx, rest, hxs, rfl⟩

theorem ofItems_eq_ok {xs : List Json} {p : CheckPath} :
    ofItems xs = .ok p ↔ xs = p.parts.map partJson := by
  simp only [ofItems, bind_eq_ok, orError_eq_ok, mapM_part?]
  constructor
  · intro h
    obtain ⟨parts, rfl, h⟩ := h
    split_ifs at h
    rw [← Except.ok.inj h]
  · intro h
    exact ⟨p.parts, h, by rw [dif_pos p.length_le, dif_pos p.ok]⟩

end CheckPath

/-! ## Rules -/

/-- The arguments of `CheckRule`; `expected` is `none` for `_ABSENT`. -/
structure RuleFields where
  ruleId : Identifier
  operator : CheckOperator
  artifactId : Identifier
  path : CheckPath
  expected : Option Json
  minimum : Option ℤ
  maximum : Option ℤ
  otherArtifactId : Option Identifier
  otherPath : Option CheckPath
  deriving DecidableEq

namespace RuleFields

/-- An expectation of `equals`. -/
def isExpected : Json → Bool
  | .str s => isCheckScalar (.str s) && s.toList.length ≤ 4096
  | v => isCheckScalar v

/-- `expected` is given for `equals` alone. -/
def ExpectedOk (r : RuleFields) : Prop :=
  if r.operator = .equals then r.expected.any isExpected = true else r.expected = none

instance (r : RuleFields) : Decidable r.ExpectedOk := by unfold ExpectedOk; infer_instance

/-- Ordered endpoints that fit the profile. -/
def isRange : Option ℤ → Option ℤ → Bool
  | some a, some b => -(safeInteger : ℤ) ≤ a && a ≤ b && b ≤ safeInteger
  | _, _ => false

/-- The endpoints are given for `integer_range` alone. -/
def RangeOk (r : RuleFields) : Prop :=
  if r.operator = .integerRange then isRange r.minimum r.maximum = true
  else r.minimum = none ∧ r.maximum = none

instance (r : RuleFields) : Decidable r.RangeOk := by unfold RangeOk; infer_instance

/-- The other side is given for the two equalities of artifacts, without paths when it is of
bytes. -/
def OtherOk (r : RuleFields) : Prop :=
  match r.operator with
  | .sameValue => r.otherArtifactId.isSome = true ∧ r.otherPath.isSome = true
  | .bytesEqual => r.otherArtifactId.isSome = true ∧ r.otherPath = none ∧ r.path.parts = []
  | _ => r.otherArtifactId = none ∧ r.otherPath = none

instance (r : RuleFields) : Decidable r.OtherOk := by unfold OtherOk; split <;> infer_instance

/-- What `__post_init__` checks beyond the types of the fields. -/
structure Valid (r : RuleFields) : Prop where
  expected : r.ExpectedOk
  range : r.RangeOk
  other : r.OtherOk

instance (r : RuleFields) : Decidable r.Valid :=
  decidable_of_iff (r.ExpectedOk ∧ r.RangeOk ∧ r.OtherOk)
    ⟨fun ⟨h₁, h₂, h₃⟩ => ⟨h₁, h₂, h₃⟩, fun ⟨h₁, h₂, h₃⟩ => ⟨h₁, h₂, h₃⟩⟩

end RuleFields

/-- `CheckRule`. -/
structure CheckRule extends RuleFields where
  ok : toRuleFields.Valid
  deriving DecidableEq

namespace CheckRule

theorem ext_fields {r s : CheckRule} (h : r.toRuleFields = s.toRuleFields) : r = s := by
  cases r; cases s; cases h; rfl

/-- `__post_init__`, of fields that have their types. -/
def make (r : RuleFields) : Result CheckRule := do
  valid r.ExpectedOk (if r.operator = .equals then
    "expected must be an explicit bounded integer-profile scalar"
    else "expected is only valid for equals")
  valid r.RangeOk (if r.operator = .integerRange then
    "integer range requires ordered safe integer endpoints"
    else "range endpoints are only valid for integer_range")
  if h : r.Valid then .ok ⟨r, h⟩
  else .error (.validation (match r.operator with
    | .sameValue | .bytesEqual => "byte equality cannot carry JSON paths"
    | _ => "other input is only valid for cross-artifact equality"))

theorem make_eq_ok {r : RuleFields} {rule : CheckRule} :
    make r = .ok rule ↔ rule.toRuleFields = r := by
  simp only [make, bind_eq_ok, valid_eq_ok, exists_unit]
  constructor
  · intro h
    obtain ⟨-, -, h⟩ := h
    split_ifs at h
    rw [← Except.ok.inj h]
  · rintro rfl
    exact ⟨rule.ok.expected, rule.ok.range, dif_pos rule.ok⟩

/-! ### Rules as documents -/

/-- The fields that `from_dict` requires of an operator, in order. -/
def fields : CheckOperator → List String
  | .exists => ["artifact_id", "operator", "path", "rule_id"]
  | .equals => ["artifact_id", "expected", "operator", "path", "rule_id"]
  | .integerRange => ["artifact_id", "maximum", "minimum", "operator", "path", "rule_id"]
  | .sameValue =>
    ["artifact_id", "operator", "other_artifact_id", "other_path", "path", "rule_id"]
  | .bytesEqual => ["artifact_id", "operator", "other_artifact_id", "rule_id"]

/-- `None` or an integer. -/
def endpointJson : Option ℤ → Json
  | some n => .int n
  | none => .null

/-- The items of `to_dict`. -/
def items (r : CheckRule) : List (String × Json) :=
  [("rule_id", Json.str r.ruleId.value), ("operator", Json.str r.operator.value),
      ("artifact_id", Json.str r.artifactId.value)] ++
    (if r.operator = .bytesEqual then [] else [("path", r.path.toJson)]) ++
    (if r.operator = .equals then [("expected", r.expected.getD .null)] else []) ++
    (if r.operator = .integerRange then
      [("minimum", endpointJson r.minimum), ("maximum", endpointJson r.maximum)] else []) ++
    (match r.otherArtifactId with
      | some other => [("other_artifact_id", Json.str other.value)]
      | none => []) ++
    match r.otherPath with
      | some path => [("other_path", path.toJson)]
      | none => []

/-- `to_dict`. -/
def toDict (r : CheckRule) : Json := Json.dict r.items

/-- `value["operator"]`, of a closed object. -/
def operatorField (value : Json) : Result CheckOperator :=
  match value with
  | .obj kvs => do
    let operator ← orError (Json.get? kvs "operator") (.validation "rule must be a closed object")
    match operator with
    | .str s =>
      orError (CheckOperator.members.lookup s)
        (.validation "rule operator must be a known enum string")
    | _ => .error (.validation "rule operator must be a known enum string")
  | _ => .error (.validation "rule must be a closed object")

/-- The tuple of a field that may be missing. -/
def tupleField (data : List (String × Json)) (name : String) : Result (Option (List Json)) :=
  match Json.get? data name with
  | none => .ok none
  | some value => do
    let xs ← arrayField (some value) name maxCheckDepth
    .ok (some xs)

/-- `_path` of a tuple that may be missing. -/
def pathField : Option (List Json) → Result (Option CheckPath)
  | none => .ok none
  | some xs => do
    let path ← CheckPath.ofItems xs
    .ok (some path)

/-- An endpoint that may be missing. -/
def endpointField (value : Option Json) : Result (Option ℤ) :=
  match value with
  | none => .ok none
  | some (.int n) => .ok (some n)
  | some _ => .error (.validation "integer range requires ordered safe integer endpoints")

/-- An identifier that may be missing. -/
def otherField (value : Option Json) : Result (Option Identifier) :=
  match value with
  | none => .ok none
  | some value => do
    let other ← identifierField (some value) "rule.other_artifact_id"
    .ok (some other)

/-- `from_dict` and the constructor. -/
def fromDict (value : Json) : Result CheckRule := do
  let operator ← operatorField value
  let data ← exactly value (fields operator) "rule"
  let path ← tupleField data "path"
  let otherPath ← tupleField data "other_path"
  let ruleId ← identifierField (Json.get? data "rule_id") "rule.rule_id"
  let artifactId ← identifierField (Json.get? data "artifact_id") "rule.artifact_id"
  let path ← pathField path
  let minimum ← endpointField (Json.get? data "minimum")
  let maximum ← endpointField (Json.get? data "maximum")
  let otherArtifactId ← otherField (Json.get? data "other_artifact_id")
  let otherPath ← pathField otherPath
  make ⟨ruleId, operator, artifactId, path.getD .root, Json.get? data "expected", minimum, maximum,
    otherArtifactId, otherPath⟩

theorem tupleField_eq_ok {data : List (String × Json)} {name : String} {xs : Option (List Json)} :
    tupleField data name = .ok xs ↔
      Json.get? data name = xs.map Json.arr ∧ ∀ ys ∈ xs, ys.length ≤ maxCheckDepth := by
  unfold tupleField
  cases hget : Json.get? data name with
  | none => cases xs <;> simp
  | some value =>
    simp only [bind_eq_ok, arrayField_eq_ok, Except.ok.injEq, Option.some.injEq]
    constructor
    · intro h
      obtain ⟨ys, ⟨rfl, hlength⟩, rfl⟩ := h
      simpa using hlength
    · intro h
      cases xs with
      | none => exact absurd h.1 (by simp)
      | some ys => exact ⟨ys, ⟨by simpa using h.1, h.2 ys rfl⟩, rfl⟩

theorem pathField_eq_ok {xs : Option (List Json)} {path : Option CheckPath} :
    pathField xs = .ok path ↔ xs = path.map fun p => p.parts.map CheckPath.partJson := by
  cases xs with
  | none => cases path <;> simp [pathField]
  | some xs =>
    simp only [pathField, bind_eq_ok, CheckPath.ofItems_eq_ok, Except.ok.injEq]
    cases path with
    | none => simp
    | some p => simp

theorem endpointField_eq_ok {value : Option Json} {endpoint : Option ℤ} :
    endpointField value = .ok endpoint ↔ value = endpoint.map Json.int := by
  constructor
  · intro h
    unfold endpointField at h
    split at h
    · rw [← Except.ok.inj h]
      rfl
    · rw [← Except.ok.inj h]
      rfl
    · cases h
  · rintro rfl
    cases endpoint <;> rfl

theorem otherField_eq_ok {value : Option Json} {other : Option Identifier} :
    otherField value = .ok other ↔ value = other.map fun i => Json.str i.value := by
  cases value with
  | none => cases other <;> simp [otherField]
  | some value =>
    simp only [otherField, bind_eq_ok, identifierField_eq_ok, Except.ok.injEq, Option.some.injEq]
    cases other with
    | none => simp
    | some i => simp

theorem operatorField_eq_ok {value : Json} {operator : CheckOperator} :
    operatorField value = .ok operator ↔
      ∃ kvs, value = .obj kvs ∧ Json.get? kvs "operator" = some (.str operator.value) := by
  constructor
  · intro h
    unfold operatorField at h
    split at h
    · rename_i kvs
      simp only [bind_eq_ok, orError_eq_ok] at h
      obtain ⟨text, hget, h⟩ := h
      split at h
      · rw [orError_eq_ok] at h
        exact ⟨kvs, rfl, by rw [hget, CheckOperator.enumTexts.text _ _ h]⟩
      · cases h
    · cases h
  · intro h
    obtain ⟨kvs, rfl, hget⟩ := h
    simp only [operatorField, bind_eq_ok, orError_eq_ok]
    exact ⟨_, hget, orError_eq_ok.mpr (CheckOperator.enumTexts.lookup operator)⟩

/-- The fields that an operator takes are the ones given. -/
theorem shape (r : CheckRule) :
    (r.operator = .equals ↔ r.expected.isSome = true) ∧
    (r.operator = .integerRange ↔ r.minimum.isSome = true) ∧
    (r.minimum.isSome = r.maximum.isSome) ∧
    (r.otherArtifactId.isSome = true ↔ r.operator = .sameValue ∨ r.operator = .bytesEqual) ∧
    (r.otherPath.isSome = true ↔ r.operator = .sameValue) ∧
    (r.operator = .bytesEqual → r.path = .root) := by
  obtain ⟨hexpected, hrange, hother⟩ := r.ok
  unfold RuleFields.ExpectedOk at hexpected
  unfold RuleFields.RangeOk at hrange
  unfold RuleFields.OtherOk at hother
  have hsome : r.expected.any RuleFields.isExpected = true → r.expected.isSome = true := by
    cases r.expected <;> simp
  have hpair : RuleFields.isRange r.minimum r.maximum = true →
      r.minimum.isSome = true ∧ r.maximum.isSome = true := by
    cases r.minimum <;> cases r.maximum <;> simp [RuleFields.isRange]
  have hroot : r.path.parts = [] → r.path = .root := fun h => CheckPath.ext h
  cases hoperator : r.operator <;> simp only [hoperator, reduceCtorEq, if_false, if_true] at *
  · simp [hexpected, hrange, hother]
  · simp [hsome hexpected, hrange, hother]
  · simp [hexpected, hpair hrange, hother]
  · simp [hexpected, hrange, hother]
  · simp [hexpected, hrange, hother, hroot hother.2.2]

/-- **What a rule's items hold**, whatever its operator. -/
theorem get?_items (r : CheckRule) :
    Json.get? r.items "rule_id" = some (.str r.ruleId.value) ∧
    Json.get? r.items "operator" = some (.str r.operator.value) ∧
    Json.get? r.items "artifact_id" = some (.str r.artifactId.value) ∧
    Json.get? r.items "path" = (if r.operator = .bytesEqual then none else some r.path.toJson) ∧
    Json.get? r.items "expected" = r.expected ∧
    Json.get? r.items "minimum" = r.minimum.map Json.int ∧
    Json.get? r.items "maximum" = r.maximum.map Json.int ∧
    Json.get? r.items "other_artifact_id" = (r.otherArtifactId.map fun i => Json.str i.value) ∧
    Json.get? r.items "other_path" = r.otherPath.map CheckPath.toJson := by
  obtain ⟨hexpected, hminimum, hmaximum, hother, hpath, -⟩ := r.shape
  unfold items
  -- the operator says which fields are there, so each split leaves one case
  cases hoperator : r.operator <;> cases he : r.expected <;> simp [hoperator, he] at hexpected <;>
    cases hm : r.minimum <;> simp [hoperator, hm] at hminimum <;>
    cases hx : r.maximum <;> simp [hm, hx] at hmaximum <;>
    cases ho : r.otherArtifactId <;> simp [hoperator, ho] at hother <;>
    cases hp : r.otherPath <;> simp [hoperator, hp] at hpath <;>
    simp [Json.get?_cons, endpointJson]

/-- What holds of the items that a rule may have holds of those it has. -/
theorem forall_items (r : CheckRule) {P : String × Json → Prop}
    (hids : P ("rule_id", .str r.ruleId.value) ∧ P ("operator", .str r.operator.value) ∧
      P ("artifact_id", .str r.artifactId.value))
    (hpath : r.operator ≠ .bytesEqual → P ("path", r.path.toJson))
    (hexpected : ∀ v ∈ r.expected, P ("expected", v))
    (hrange : (∀ n ∈ r.minimum, P ("minimum", .int n)) ∧ ∀ n ∈ r.maximum, P ("maximum", .int n))
    (hother : (∀ i ∈ r.otherArtifactId, P ("other_artifact_id", .str i.value)) ∧
      ∀ p ∈ r.otherPath, P ("other_path", p.toJson)) : ∀ kv ∈ r.items, P kv := by
  obtain ⟨hequals, hendpoints, hmaximum, -⟩ := r.shape
  simp only [items, List.forall_mem_append]
  refine ⟨⟨⟨⟨⟨by simpa using hids, ?_⟩, ?_⟩, ?_⟩, ?_⟩, ?_⟩
  · by_cases h : r.operator = .bytesEqual
    · simp [h]
    · simpa [h] using hpath h
  · by_cases h : r.operator = .equals
    · obtain ⟨v, hv⟩ := Option.isSome_iff_exists.mp (hequals.mp h)
      simpa [h, hv] using hexpected v hv
    · simp [h]
  · by_cases h : r.operator = .integerRange
    · have hminimum := hendpoints.mp h
      obtain ⟨m, hm⟩ := Option.isSome_iff_exists.mp hminimum
      obtain ⟨n, hn⟩ := Option.isSome_iff_exists.mp (hmaximum ▸ hminimum)
      simpa [h, hm, hn, endpointJson] using And.intro (hrange.1 m hm) (hrange.2 n hn)
    · simp [h]
  · cases h : r.otherArtifactId with
    | none => simp
    | some i => simpa using hother.1 i h
  · cases h : r.otherPath with
    | none => simp
    | some p => simpa using hother.2 p h

theorem mem_keys_items (r : CheckRule) (k : String) :
    k ∈ Json.keys r.items ↔ k ∈ fields r.operator := by
  obtain ⟨-, -, -, hother, hpath, -⟩ := r.shape
  unfold items
  refine List.Perm.mem_iff ?_
  cases hoperator : r.operator <;> cases ho : r.otherArtifactId <;> cases hp : r.otherPath <;>
    simp_all [Json.keys, fields] <;> decide

theorem nodup_keys_items (r : CheckRule) : (Json.keys r.items).Nodup := by
  unfold items
  cases hoperator : r.operator <;> cases ho : r.otherArtifactId <;> cases hp : r.otherPath <;>
    simp [Json.keys]

/-- **A rule survives its document.** -/
@[simp] theorem fromDict_toDict (r : CheckRule) : fromDict r.toDict = .ok r := by
  have hget := Json.get?_foldr_insertKey r.nodup_keys_items
  obtain ⟨hrule, hoperator, hartifact, hpath, hexpected, hminimum, hmaximum, hother, hotherPath⟩ :=
    r.get?_items
  have hbytes := r.shape.2.2.2.2.2
  let path := if r.operator = .bytesEqual then none else some r.path
  have hlengths : ∀ p : CheckPath, (p.parts.map CheckPath.partJson).length ≤ maxCheckDepth := by
    intro p
    rw [List.length_map]
    exact p.length_le
  simp only [fromDict, bind_eq_ok]
  refine ⟨r.operator, operatorField_eq_ok.mpr ⟨_, rfl, by rw [hget, hoperator]⟩, _,
    exactly_dict r.nodup_keys_items r.mem_keys_items,
    path.map fun p => p.parts.map CheckPath.partJson, tupleField_eq_ok.mpr ⟨?_, ?_⟩,
    r.otherPath.map fun p => p.parts.map CheckPath.partJson, tupleField_eq_ok.mpr ⟨?_, ?_⟩,
    r.ruleId, identifierField_eq_ok.mpr (by rw [hget, hrule]),
    r.artifactId, identifierField_eq_ok.mpr (by rw [hget, hartifact]),
    path, pathField_eq_ok.mpr rfl, r.minimum, endpointField_eq_ok.mpr (by rw [hget, hminimum]),
    r.maximum, endpointField_eq_ok.mpr (by rw [hget, hmaximum]),
    r.otherArtifactId, otherField_eq_ok.mpr (by rw [hget, hother]),
    r.otherPath, pathField_eq_ok.mpr rfl, make_eq_ok.mpr ?_⟩
  · rw [hget, hpath]
    by_cases h : r.operator = .bytesEqual <;> simp [path, h, CheckPath.toJson]
  · intro ys hys
    obtain ⟨p, -, rfl⟩ := Option.mem_map.mp hys
    exact hlengths p
  · rw [hget, hotherPath, Option.map_map]
    rfl
  · intro ys hys
    obtain ⟨p, -, rfl⟩ := Option.mem_map.mp hys
    exact hlengths p
  · rw [hget, hexpected]
    have hdefault : path.getD .root = r.path := by
      by_cases h : r.operator = .bytesEqual
      · simp [path, h, hbytes h]
      · simp [path, h]
    rw [hdefault]

/-- A document that is read as a rule is the rule's own. -/
theorem eq_toDict_of_fromDict {value : Json} {r : CheckRule} (hvalue : WellKeyed value)
    (h : fromDict value = .ok r) : value = r.toDict := by
  simp only [fromDict, bind_eq_ok, operatorField_eq_ok, exactly_eq_ok, tupleField_eq_ok,
    identifierField_eq_ok, pathField_eq_ok, endpointField_eq_ok, otherField_eq_ok, make_eq_ok] at h
  obtain ⟨operator, ⟨kvs, rfl, hoperator⟩, data, ⟨hdata, hkeys⟩, paths, ⟨hpath, -⟩, others,
    ⟨hotherPath, -⟩, h⟩ := h
  obtain ⟨ruleId, hrule, artifactId, hartifact, path, rfl, minimum, hminimum, h⟩ := h
  obtain ⟨maximum, hmaximum, other, hother, otherPath, rfl, hr⟩ := h
  obtain rfl := Json.obj.inj hdata
  have hoperator' : r.operator = operator := by rw [hr]
  have hpathKey : Json.get? kvs "path" =
      if r.operator = .bytesEqual then none else some r.path.toJson := by
    have hmem := (hkeys "path").trans (show _ ↔ r.operator ≠ .bytesEqual by
      rw [hoperator']
      cases operator <;> simp [fields])
    rw [Json.mem_keys_iff, hpath] at hmem
    by_cases hbytes : r.operator = .bytesEqual
    · cases path with
      | none => rw [hpath, if_pos hbytes]; rfl
      | some p => exact absurd hbytes (hmem.mp rfl)
    · cases path with
      | none => exact absurd (hmem.mpr hbytes) (by simp)
      | some p =>
        rw [hpath, if_neg hbytes, hr]
        rfl
  refine Json.obj_eq_dict (Json.wellKeyed_obj.mp hvalue).1 r.nodup_keys_items
    (fun k hk => (r.mem_keys_items k).mpr (by rw [hoperator']; exact (hkeys k).mp hk)) ?_
  have hmem : ∀ {α : Type} {o : Option α} {f : α → Json} {k : String},
      Json.get? kvs k = o.map f → ∀ a ∈ o, Json.get? kvs k = some (f a) := by
    intro α o f k hget a ha
    rw [hget, Option.mem_def.mp ha, Option.map_some]
  refine r.forall_items ⟨?_, ?_, ?_⟩ ?_ ?_ ⟨?_, ?_⟩ ⟨?_, ?_⟩
  · rw [hrule, hr]
  · rw [hoperator, hoperator']
  · rw [hartifact, hr]
  · intro hbytes
    rw [hpathKey, if_neg hbytes]
  · intro v hv
    rw [hr] at hv
    exact hv
  · exact hmem (by rw [hminimum, hr])
  · exact hmem (by rw [hmaximum, hr])
  · exact hmem (by rw [hother, hr])
  · refine hmem (f := CheckPath.toJson) ?_
    rw [hotherPath, hr, Option.map_map]
    rfl

end CheckRule

/-! ## Plans -/

variable {D : Type} [Hashing D]

/-- The arguments of `CheckPlan`. -/
structure CheckPlanFields (D : Type) where
  planId : Identifier
  workflowId : Identifier
  scope : Identifier
  claimId : Identifier
  statementDigest : D
  authorityDigest : D
  evidenceHead : D
  inputs : List (ArtifactReference D)
  rules : List CheckRule

/-- The artifacts that a rule reads. -/
def CheckRule.artifactIds (r : CheckRule) : List Identifier :=
  r.artifactId :: r.otherArtifactId.toList

namespace CheckPlanFields

def fields : List String :=
  ["authority_digest", "claim_id", "engine_version", "evidence_head", "inputs", "kind", "plan_id",
    "rules", "schema_version", "scope", "statement_digest", "workflow_id"]

def items (p : CheckPlanFields D) : List (String × Json) :=
  [("kind", .str "evidence-braid-check-plan"), ("schema_version", .str "1.0"),
    ("engine_version", .str checkEngineVersion), ("plan_id", .str p.planId.value),
    ("workflow_id", .str p.workflowId.value), ("scope", .str p.scope.value),
    ("claim_id", .str p.claimId.value), ("statement_digest", .str (hex p.statementDigest)),
    ("authority_digest", .str (hex p.authorityDigest)),
    ("evidence_head", .str (hex p.evidenceHead)),
    ("inputs", .arr (p.inputs.map ArtifactReference.toDict)),
    ("rules", .arr (p.rules.map CheckRule.toDict))]

/-- `to_dict`. -/
def toDict (p : CheckPlanFields D) : Json := Json.dict p.items

/-- `to_bytes`. -/
def toBytes (p : CheckPlanFields D) : Bytes := canonicalBytes p.toDict

/-- `sorted(inputs, key=lambda item: item.artifact_id)`. -/
def sortInputs (p : CheckPlanFields D) : CheckPlanFields D :=
  { p with inputs := BundleFields.sortArtifacts p.inputs }

/-- An input that a rule may read under this ID. -/
def Declares (p : CheckPlanFields D) (operator : CheckOperator) (artifactId : Identifier) : Prop :=
  ∃ input ∈ p.inputs, input.artifactId = artifactId ∧
    (operator ≠ .bytesEqual → input.mediaType.value = "application/json")

instance (p : CheckPlanFields D) (operator : CheckOperator) (artifactId : Identifier) :
    Decidable (p.Declares operator artifactId) := by unfold Declares; infer_instance

/-- What `__post_init__` checks of inputs and rules, whose inputs it has sorted. -/
structure Valid (p : CheckPlanFields D) : Prop where
  inputs_length : 1 ≤ p.inputs.length ∧ p.inputs.length ≤ maxCheckInputs
  inputs_sorted : (p.inputs.map (·.artifactId)).Pairwise (· < ·)
  inputs_scoped : ∀ input ∈ p.inputs, input.scope = p.scope ∧ input.claimId = p.claimId
  rules_length : 1 ≤ p.rules.length ∧ p.rules.length ≤ maxCheckRules
  rules_nodup : (p.rules.map (·.ruleId)).Nodup
  declared : ∀ rule ∈ p.rules, ∀ i ∈ rule.artifactIds, p.Declares rule.operator i
  used : ∀ input ∈ p.inputs, ∃ rule ∈ p.rules, input.artifactId ∈ rule.artifactIds
  bytes_length : p.toBytes.length ≤ maxPlanBytes

instance (p : CheckPlanFields D) : Decidable p.Valid :=
  decidable_of_iff ((1 ≤ p.inputs.length ∧ p.inputs.length ≤ maxCheckInputs) ∧
      (p.inputs.map (·.artifactId)).Pairwise (· < ·) ∧
      (∀ input ∈ p.inputs, input.scope = p.scope ∧ input.claimId = p.claimId) ∧
      (1 ≤ p.rules.length ∧ p.rules.length ≤ maxCheckRules) ∧ (p.rules.map (·.ruleId)).Nodup ∧
      (∀ rule ∈ p.rules, ∀ i ∈ rule.artifactIds, p.Declares rule.operator i) ∧
      (∀ input ∈ p.inputs, ∃ rule ∈ p.rules, input.artifactId ∈ rule.artifactIds) ∧
      p.toBytes.length ≤ maxPlanBytes)
    ⟨fun ⟨h₁, h₂, h₃, h₄, h₅, h₆, h₇, h₈⟩ => ⟨h₁, h₂, h₃, h₄, h₅, h₆, h₇, h₈⟩,
      fun ⟨h₁, h₂, h₃, h₄, h₅, h₆, h₇, h₈⟩ => ⟨h₁, h₂, h₃, h₄, h₅, h₆, h₇, h₈⟩⟩

end CheckPlanFields

/-- `CheckPlan`. -/
structure CheckPlan (D : Type) [Hashing D] extends CheckPlanFields D where
  ok : toCheckPlanFields.Valid

namespace CheckPlan

theorem ext_fields {p q : CheckPlan D} (h : p.toCheckPlanFields = q.toCheckPlanFields) : p = q := by
  cases p; cases q; cases h; rfl

/-- `digest`. -/
def digest (p : CheckPlan D) : D := sha256 p.toBytes

/-- The round for one artifact in the loop over the rules. -/
def checkReference (p : CheckPlanFields D) (rule : CheckRule) (artifactId : Identifier) :
    Result Unit := do
  valid (artifactId ∈ p.inputs.map (·.artifactId)) "rule refers to an undeclared input"
  valid (p.Declares rule.operator artifactId)
    "JSON rules require application/json input commitments"

/-- `__post_init__`. -/
def make (p : CheckPlanFields D) : Result (CheckPlan D) := do
  valid (1 ≤ p.inputs.length ∧ p.inputs.length ≤ maxCheckInputs)
    "plan inputs require a nonempty bounded immutable reference tuple"
  valid ((p.inputs.map (·.artifactId)).Nodup ∧
      ∀ input ∈ p.inputs, input.scope = p.scope ∧ input.claimId = p.claimId)
    "plan input IDs must be unique and match its claim and scope"
  valid ((1 ≤ p.rules.length ∧ p.rules.length ≤ maxCheckRules) ∧ (p.rules.map (·.ruleId)).Nodup)
    "plan rules require a nonempty ordered tuple with unique rule IDs"
  forEach (fun rule => forEach (checkReference p rule) rule.artifactIds) p.rules
  valid (∀ input ∈ p.inputs, ∃ rule ∈ p.rules, input.artifactId ∈ rule.artifactIds)
    "every declared input must participate in a rule"
  if h : p.sortInputs.Valid then .ok ⟨p.sortInputs, h⟩
  else .error (.validation "plan exceeds the compiled byte bound")

/-- **The constructor** sorts the inputs and establishes `Valid`. -/
theorem make_eq_ok {p : CheckPlanFields D} {plan : CheckPlan D} :
    make p = .ok plan ↔ plan.toCheckPlanFields = p.sortInputs := by
  simp only [make, bind_eq_ok, valid_eq_ok, exists_unit, forEach_eq_ok, checkReference]
  constructor
  · intro h
    obtain ⟨-, -, -, -, -, h⟩ := h
    split_ifs at h
    rw [← Except.ok.inj h]
  · intro h
    have hok := plan.ok
    rw [h] at hok
    have hperm : p.sortInputs.inputs.Perm p.inputs := List.perm_insertionSort _ _
    have hmem : ∀ {input}, input ∈ p.sortInputs.inputs ↔ input ∈ p.inputs := hperm.mem_iff
    have hlength := hperm.length_eq
    have hdeclares : ∀ {operator i}, p.sortInputs.Declares operator i → p.Declares operator i := by
      intro operator i hdeclares
      obtain ⟨input, hinput, hi⟩ := hdeclares
      exact ⟨input, hmem.mp hinput, hi⟩
    refine ⟨by rw [← hlength]; exact hok.inputs_length, ⟨?_, ?_⟩,
      ⟨hok.rules_length, hok.rules_nodup⟩, ?_, ?_, ?_⟩
    · have hnodup : (p.sortInputs.inputs.map (·.artifactId)).Nodup :=
        hok.inputs_sorted.imp fun hlt => hlt.ne
      exact (hperm.map _).nodup_iff.mp hnodup
    · intro input hinput
      exact hok.inputs_scoped input (hmem.mpr hinput)
    · intro rule hrule i hi
      have hdeclared := hdeclares (hok.declared rule hrule i hi)
      obtain ⟨input, hinput, rfl, -⟩ := id hdeclared
      exact ⟨List.mem_map_of_mem hinput, hdeclared⟩
    · intro input hinput
      exact hok.used input (hmem.mpr hinput)
    · rw [dif_pos hok]
      exact congrArg _ (ext_fields h.symm)

/-- The constructor on a plan's own fields. -/
theorem make_self (plan : CheckPlan D) : make plan.toCheckPlanFields = .ok plan := by
  refine make_eq_ok.mpr ?_
  rw [CheckPlanFields.sortInputs, BundleFields.sortArtifacts_of_sorted plan.ok.inputs_sorted]

/-! ### Plans as documents -/

/-- `_wire` and the engine's version. -/
def checkWire (data : List (String × Json)) (kind : String) : Result Unit := do
  valid (Json.get? data "kind" = some (.str kind) ∧
    Json.get? data "schema_version" = some (.str "1.0")) "unsupported check wire profile"
  valid (Json.get? data "engine_version" = some (.str checkEngineVersion))
    "unsupported check engine version"

/-- `from_dict`. -/
def fromDict (value : Json) : Result (CheckPlan D) := do
  valid (isObject value = true) "plan must be a plain closed object"
  let data ← exactly value CheckPlanFields.fields "plan"
  checkWire data "evidence-braid-check-plan"
  let inputDocuments ← arrayField (Json.get? data "inputs") "inputs" maxCheckInputs
  valid (∀ item ∈ inputDocuments, isObject item = true)
    "plan input commitments must be plain closed objects"
  let inputs ← decodeItems ArtifactReference.fromDict inputDocuments
  let ruleDocuments ← arrayField (Json.get? data "rules") "rules" maxCheckRules
  let rules ← decodeItems CheckRule.fromDict ruleDocuments
  let planId ← identifierField (Json.get? data "plan_id") "plan_id"
  let workflowId ← identifierField (Json.get? data "workflow_id") "workflow_id"
  let scope ← identifierField (Json.get? data "scope") "scope"
  let claimId ← identifierField (Json.get? data "claim_id") "claim_id"
  let statementDigest ← hashField (Json.get? data "statement_digest") "statement_digest"
  let authorityDigest ← hashField (Json.get? data "authority_digest") "authority_digest"
  let evidenceHead ← hashField (Json.get? data "evidence_head") "evidence_head"
  make ⟨planId, workflowId, scope, claimId, statementDigest, authorityDigest, evidenceHead, inputs,
    rules⟩

theorem nodup_keys_items (p : CheckPlanFields D) : (Json.keys p.items).Nodup := by
  simp only [CheckPlanFields.items, Json.keys, List.map_cons, List.map_nil]
  decide

theorem mem_keys_items (p : CheckPlanFields D) (k : String) :
    k ∈ Json.keys p.items ↔ k ∈ CheckPlanFields.fields := by
  refine List.Perm.mem_iff ?_
  simp only [CheckPlanFields.items, Json.keys, List.map_cons, List.map_nil]
  decide

/-- **A plan survives its document.** -/
@[simp] theorem fromDict_toDict (p : CheckPlan D) : fromDict p.toDict = .ok p := by
  have hget := Json.get?_foldr_insertKey (nodup_keys_items p.toCheckPlanFields)
  have hobject : ∀ item ∈ p.inputs.map ArtifactReference.toDict, isObject item = true := by
    intro item hitem
    obtain ⟨input, -, rfl⟩ := List.mem_map.mp hitem
    rfl
  simp only [fromDict, checkWire, bind_eq_ok]
  refine ⟨(), valid_of rfl, _, exactly_dict (nodup_keys_items _) (mem_keys_items _), (),
    ⟨(), valid_of ⟨?_, ?_⟩, valid_of ?_⟩, _, arrayField_eq_ok.mpr ⟨?_, ?_⟩, (), valid_of hobject,
    p.inputs, decodeItems_map fun a _ => a.fromDict_toDict, _, arrayField_eq_ok.mpr ⟨?_, ?_⟩,
    p.rules, decodeItems_map fun r _ => r.fromDict_toDict, p.planId, ?_, p.workflowId, ?_,
    p.scope, ?_, p.claimId, ?_, p.statementDigest, ?_, p.authorityDigest, ?_, p.evidenceHead, ?_,
    make_self p⟩
  case refine_5 => rw [List.length_map]; exact p.ok.inputs_length.2
  case refine_7 => rw [List.length_map]; exact p.ok.rules_length.2
  all_goals rw [hget]
  all_goals first
    | rfl
    | exact identifierField_value _ _
    | exact hashField_eq_ok.mpr rfl

end CheckPlan

end EvidenceBraid
