import EvidenceBraid.CheckEngine
import EvidenceBraid.Library.JsonShape
import EvidenceBraid.Library.Traverse

/-!
# Check plans as bytes

**Theorem (`check_plan_round_trip`).** Within the ceilings every plan is read back from its bytes,
and whatever is accepted, within any limits, is the bytes of the plan that it is read as.

**Idea.** The parser bounds the nesting, the nodes, the texts, the integers and the work. A plan is
nested four deep whatever its rules are, each node takes a byte, and so the bound on a plan's bytes
bounds its nodes and the work; every text and integer of a plan is one that its constructors have
bounded more tightly.
-/

namespace EvidenceBraid

open Hashing
open Json (Shape PathPart)
open Metered (allow_eq_ok lift_eq_ok tally_eq_ok)

/-! ## Charges and nodes -/

theorem charge_eq_ok {units : ℕ} {limits : CheckLimits} {budget : Budget} {r : Unit × Budget} :
    charge units limits budget = .ok r ↔ budget.used + units ≤ limits.maxWorkUnits ∧
      r.2 = { budget with used := budget.used + units } := by
  simp only [charge, Metered.bind_eq_ok, allow_eq_ok, tally_eq_ok]
  constructor
  · intro h
    obtain ⟨-, budget', ⟨hle, rfl⟩, hr⟩ := h
    exact ⟨by omega, hr⟩
  · intro h
    exact ⟨(), budget, ⟨by omega, rfl⟩, h.2⟩

/-- A node that the loop admits. -/
def CheckNode (item : Json) : Prop := checkNode item = .ok ()

theorem inspectNode_eq_ok {item : Json} {limits : CheckLimits} {budget : Budget}
    {r : Unit × Budget} : inspectNode item limits budget = .ok r ↔
      (budget.used + 1 ≤ limits.maxWorkUnits ∧ budget.nodes + 1 ≤ limits.maxJsonNodes) ∧
        CheckNode item ∧ r.2 = ⟨budget.used + 1, budget.nodes + 1⟩ := by
  simp only [inspectNode, Metered.bind_eq_ok, charge_eq_ok, tally_eq_ok, allow_eq_ok, lift_eq_ok]
  constructor
  · intro h
    obtain ⟨-, b₁, ⟨hused, rfl⟩, -, b₂, rfl, h⟩ := h
    obtain ⟨-, b₃, ⟨hnodes, rfl⟩, hnode, hr⟩ := h
    exact ⟨⟨hused, hnodes⟩, hnode, hr⟩
  · intro h
    obtain ⟨⟨hused, hnodes⟩, hnode, hr⟩ := h
    exact ⟨(), _, ⟨hused, rfl⟩, (), _, rfl, (), _, ⟨hnodes, rfl⟩, hnode, hr⟩

/-- **The loop over the nodes** goes through when the budget has room for them. -/
theorem mapEach_inspectNode {limits : CheckLimits} {items : List Json} : ∀ {budget : Budget},
    budget.used + items.length ≤ limits.maxWorkUnits →
    budget.nodes + items.length ≤ limits.maxJsonNodes → (∀ item ∈ items, CheckNode item) →
      ∃ units, Metered.mapEach inspectNode items limits budget =
        .ok (units, ⟨budget.used + items.length, budget.nodes + items.length⟩) := by
  induction items with
  | nil =>
    intro budget _ _ _
    exact ⟨[], rfl⟩
  | cons item items ih =>
    intro budget hused hnodes hall
    rw [List.length_cons] at hused hnodes
    rw [List.forall_mem_cons] at hall
    obtain ⟨units, hunits⟩ := @ih ⟨budget.used + 1, budget.nodes + 1⟩ (by
      show budget.used + 1 + items.length ≤ _
      omega) (by
      show budget.nodes + 1 + items.length ≤ _
      omega) hall.2
    refine ⟨() :: units, ?_⟩
    simp only [Metered.mapEach, Metered.bind_eq_ok, Metered.pure_eq_ok]
    refine ⟨(), ⟨budget.used + 1, budget.nodes + 1⟩,
      inspectNode_eq_ok.mpr ⟨⟨by omega, by omega⟩, hall.1, rfl⟩, units, _, hunits, ?_⟩
    rw [List.length_cons, Nat.add_right_comm, Nat.add_assoc, Nat.add_right_comm, Nat.add_assoc]

/-- What has been read is the document that the bytes are, and the loop has admitted its nodes. -/
theorem of_checkDocument {maximum : CheckLimits → ℕ} {raw : Bytes} {limits : CheckLimits}
    {budget : Budget} {r : Json × Budget} (h : checkDocument maximum raw limits budget = .ok r) :
    decodeCheck raw = some r.1 ∧ ∀ item ∈ Json.popped r.1, CheckNode item := by
  simp only [checkDocument, Metered.bind_eq_ok, charge_eq_ok, allow_eq_ok, lift_eq_ok,
    orError_eq_ok, Metered.pure_eq_ok] at h
  obtain ⟨-, b₁, ⟨-, rfl⟩, -, b₂, ⟨-, rfl⟩, -, b₃, h⟩ := h
  obtain ⟨⟨-, rfl⟩, v, b₄, ⟨hv, rfl⟩, units, b₅, hunits, rfl⟩ := h
  refine ⟨hv, fun item hitem => ?_⟩
  have hall := Metered.forall₂_of_mapEach (R := fun item _ => CheckNode item)
    (fun a _ s b s' ha => (inspectNode_eq_ok.mp ha).2.1) hunits
  obtain ⟨-, -, hnode⟩ := List.exists_of_forall₂_mem hall hitem
  exact hnode

/-- **A document of a bounded shape is read from its bytes**, at a cost of at most two units a
byte. -/
theorem checkDocument_canonical {maximum : CheckLimits → ℕ} {v : Json} {limits : CheckLimits}
    {budget : Budget} {n : ℕ} (hshape : Shape checkHooks CheckNode v n)
    (hdepth : n ≤ limits.maxJsonDepth) (hsize : Json.size v ≤ maximum limits)
    (hnodes : budget.nodes + Json.size v ≤ limits.maxJsonNodes)
    (hwork : budget.used + 2 * Json.size v ≤ limits.maxWorkUnits) :
    ∃ used, used ≤ budget.used + 2 * Json.size v ∧
      checkDocument maximum (canonicalBytes v) limits budget =
        .ok (v, ⟨used, budget.nodes + v.nodes⟩) := by
  have hload : Json.loads checkHooks (canonicalJson v false) = some v :=
    Json.loads_dumps hshape.readable
  have hdecode : decodeCheck (canonicalBytes v) = some v := by
    rw [decodeCheck, canonicalBytes, Utf8.decode_encode, Option.bind_some, hload]
  have hscan : Json.scanDepth limits.maxJsonDepth (canonicalBytes v) = true :=
    (Json.scanDepth_dumps _ v).mpr (hshape.height_le.trans hdepth)
  have hlength : (canonicalBytes v).length = Json.size v := rfl
  have hcount : v.popped.length ≤ Json.size v := v.nodes_le_size
  obtain ⟨units, hunits⟩ := @mapEach_inspectNode limits v.popped
    ⟨budget.used + Json.size v, budget.nodes⟩ (by
    show budget.used + Json.size v + v.popped.length ≤ _
    omega) (by
    show budget.nodes + v.popped.length ≤ _
    omega) hshape.admitted
  refine ⟨budget.used + Json.size v + v.nodes, by rw [Json.nodes]; omega, ?_⟩
  simp only [checkDocument, Metered.bind_eq_ok, charge_eq_ok, allow_eq_ok, lift_eq_ok,
    orError_eq_ok, Metered.pure_eq_ok]
  refine ⟨(), _, ⟨hsize, rfl⟩, (), _, ⟨?_, rfl⟩, (), _, ⟨hscan, rfl⟩, v, _, ⟨hdecode, rfl⟩, units,
    _, ?_, rfl⟩
  · omega
  · rw [hlength, hunits, Json.nodes]

/-! ## The shape of a plan -/

/-- A document that the loop admits, nested at most this deep. -/
abbrev CheckShape (v : Json) (n : ℕ) : Prop := Shape checkHooks CheckNode v n

theorem checkNode_scalar {v : Json} (h : isCheckScalar v = true) : CheckNode v := by
  cases v <;> first | exact require_of h | cases h

theorem checkTextOk_of {s : String} {n : ℕ} (hlength : s.toList.length ≤ n) (hn : n ≤ 65536)
    (hxml : isXmlCharacter s = true) : checkTextOk s = true := by
  rw [checkTextOk, Bool.and_eq_true, decide_eq_true_eq]
  exact ⟨hlength.trans hn, hxml⟩

/-- A literal's characters decide whether a check may hold it. -/
theorem checkTextOk_literal {cs : List Char}
    (h : (Nat.ble cs.length 65536 && cs.all Json.plainChar) = true) :
    checkTextOk (String.ofList cs) = true := by
  rw [Bool.and_eq_true, Nat.ble_eq] at h
  have hlength : (String.ofList cs).toList.length ≤ 65536 := by
    rw [String.toList_ofList]
    exact h.1
  exact checkTextOk_of hlength le_rfl (isXmlCharacter_plain (Json.plainText_literal h.2))

namespace CheckShape

theorem text {s : String} {m : ℕ} (h : checkTextOk s = true) : CheckShape (.str s) m :=
  .str (checkNode_scalar h)

theorem identifier (i : Identifier) {m : ℕ} : CheckShape (.str i.value) m :=
  text (checkTextOk_of i.length_le (by decide) (isXmlCharacter_plain i.plainText))

theorem hex {D : Type} [Hashing D] [WideHex D] (d : D) {m : ℕ} :
    CheckShape (.str (Hashing.hex d)) m :=
  text (checkTextOk_of (length_hex d).le (by decide) (isXmlCharacter_plain (plainText_hex d)))

theorem description {maximum : ℕ} (d : Description maximum) (h : maximum ≤ 65536) {m : ℕ} :
    CheckShape (.str d.value) m := by
  have hok := d.ok
  simp only [isDescription, Bool.and_eq_true, decide_eq_true_eq] at hok
  exact text (checkTextOk_of hok.2 h hok.1.1.1)

/-- A safe integer has at most sixteen digits. -/
theorem length_safe_le {n : ℤ} (h : n.natAbs ≤ safeInteger) :
    (Numeral.ofInt n).text.length ≤ 17 := by
  have hdigits : (Nat.toDigits 10 n.natAbs).length ≤ 16 :=
    (Nat.length_toDigits_le_iff (by omega) (by omega)).mpr (lt_of_le_of_lt h (by decide))
  by_cases hn : n < 0
  · simp [Numeral.ofInt, Numeral.text, Numeral.fracText, Numeral.expText, hn]
    omega
  · simp [Numeral.ofInt, Numeral.text, Numeral.fracText, Numeral.expText, hn]
    omega

theorem int {n : ℤ} (h : n.natAbs ≤ safeInteger) {m : ℕ} : CheckShape (.int n) m := by
  have hrange : -(safeInteger : ℤ) ≤ n ∧ n ≤ safeInteger := by omega
  refine .leaf rfl ?_ rfl (checkNode_scalar ?_)
  · rw [Json.Readable, checkHooks]
    simp only [Numeral.toInt_ofInt]
    rw [if_neg (not_lt.mpr (length_safe_le h)), if_neg (not_lt.mpr h)]
  · rw [isCheckScalar, Bool.and_eq_true, decide_eq_true_eq, decide_eq_true_eq]
    exact hrange

theorem scalar {v : Json} (h : isCheckScalar v = true) {m : ℕ} : CheckShape v m := by
  cases v with
  | null => exact .leaf rfl trivial rfl (checkNode_scalar h)
  | bool b => exact .leaf rfl trivial rfl (checkNode_scalar h)
  | int n =>
    rw [isCheckScalar, Bool.and_eq_true, decide_eq_true_eq, decide_eq_true_eq] at h
    exact int (by omega)
  | str s => exact text h
  | _ => cases h

theorem array {xs : List Json} {m : ℕ} (h : ∀ x ∈ xs,
  CheckShape x m) : CheckShape (.arr xs) (m + 1) :=
  .arr rfl h

theorem object {kvs : List (String × Json)} {m : ℕ} (hnodup : (Json.keys kvs).Nodup)
    (hkeys : ∀ k ∈ Json.keys kvs, checkTextOk k = true) (h : ∀ kv ∈ kvs, CheckShape kv.2 m) :
    CheckShape (Json.dict kvs) (m + 1) := by
  refine .dict hnodup ?_ h
  refine require_of fun k hk => ?_
  obtain ⟨kv, hkv, rfl⟩ := List.mem_map.mp hk
  exact hkeys kv.1 (List.mem_map_of_mem ((Json.foldr_insertKey_perm hnodup).mem_iff.mp hkv))

end CheckShape

section Plans

variable {D : Type} [Hashing D] [WideHex D]

theorem ArtifactReference.checkShape (a : ArtifactReference D) : CheckShape a.toDict 1 := by
  refine .object a.nodup_keys_items ?_ ?_
  · simp only [items, Json.keys, List.map_cons, List.map_nil, List.forall_mem_cons,
      List.not_mem_nil, false_implies, implies_true, and_true]
    and_intros <;> exact checkTextOk_literal rfl
  · simp only [items, List.forall_mem_cons, List.not_mem_nil, false_implies, implies_true, and_true]
    have hsize := a.size_le
    have hsafe : 64 * 1024 * 1024 ≤ safeInteger := by decide
    exact ⟨.identifier _, .identifier _, .identifier _, .hex _, .int (by omega),
      .description _ (by decide)⟩

theorem CheckPath.checkShape (p : CheckPath) : CheckShape p.toJson 1 := by
  refine .array fun x hx => ?_
  obtain ⟨part, hpart, rfl⟩ := List.mem_map.mp hx
  have hok := p.ok part hpart
  cases part with
  | key k =>
    rw [isPathPart, Bool.and_eq_true, decide_eq_true_eq] at hok
    exact .text (checkTextOk_of hok.1 (by decide) hok.2)
  | index i =>
    rw [isPathPart, decide_eq_true_eq] at hok
    exact .int (by omega)

/-- The endpoints of a range are safe integers. -/
theorem CheckRule.safe_endpoints (r : CheckRule) :
    (∀ n ∈ r.minimum, n.natAbs ≤ safeInteger) ∧ ∀ n ∈ r.maximum, n.natAbs ≤ safeInteger := by
  have hrange := r.ok.range
  unfold RuleFields.RangeOk at hrange
  by_cases h : r.operator = .integerRange
  · rw [if_pos h] at hrange
    cases hmin : r.minimum <;> cases hmax : r.maximum <;>
      simp only [hmin, hmax, RuleFields.isRange, Bool.and_eq_true, decide_eq_true_eq,
        Bool.false_eq_true] at hrange
    simp only [Option.mem_def, Option.some.injEq, forall_eq']
    omega
  · rw [if_neg h] at hrange
    simp [hrange]

/-- The expectation of `equals` is a scalar. -/
theorem CheckRule.scalar_expected (r : CheckRule) : ∀ v ∈ r.expected, isCheckScalar v = true := by
  intro v hv
  have hexpected := r.ok.expected
  unfold RuleFields.ExpectedOk at hexpected
  by_cases h : r.operator = .equals
  · rw [if_pos h, Option.mem_def.mp hv, Option.any_some] at hexpected
    unfold RuleFields.isExpected at hexpected
    split at hexpected
    · exact (Bool.and_eq_true_iff.mp hexpected).1
    · exact hexpected
  · rw [if_neg h] at hexpected
    rw [hexpected] at hv
    cases hv

theorem CheckRule.checkShape (r : CheckRule) : CheckShape r.toDict 2 := by
  refine .object r.nodup_keys_items ?_ ?_
  · intro k hk
    have hkeys : ∀ o, ∀ n ∈ fields o, checkTextOk n = true := by
      intro o
      cases o <;> decide
    exact hkeys _ k ((r.mem_keys_items k).mp hk)
  · have hoperator : CheckShape (.str r.operator.value) 1 :=
        .text (by cases r.operator <;> exact checkTextOk_literal rfl)
    obtain ⟨hmin, hmax⟩ := r.safe_endpoints
    exact r.forall_items (P := fun kv => CheckShape kv.2 1)
      ⟨.identifier _, hoperator, .identifier _⟩ (fun _ => r.path.checkShape)
      (fun v hv => .scalar (r.scalar_expected v hv))
      ⟨fun n hn => .int (hmin n hn), fun n hn => .int (hmax n hn)⟩
      ⟨fun i _ => .identifier i, fun p _ => p.checkShape⟩

theorem CheckPlan.checkShape (p : CheckPlan D) : CheckShape p.toDict 4 := by
  have hinputs : CheckShape (.arr (p.inputs.map ArtifactReference.toDict)) 3 := by
    refine .array fun x hx => ?_
    obtain ⟨a, -, rfl⟩ := List.mem_map.mp hx
    exact a.checkShape.mono (by decide)
  have hrules : CheckShape (.arr (p.rules.map CheckRule.toDict)) 3 := by
    refine .array fun x hx => ?_
    obtain ⟨r, -, rfl⟩ := List.mem_map.mp hx
    exact r.checkShape
  refine .object (nodup_keys_items _) ?_ ?_
  · simp only [CheckPlanFields.items, Json.keys, List.map_cons, List.map_nil, List.forall_mem_cons,
      List.not_mem_nil, false_implies, implies_true, and_true]
    and_intros <;> exact checkTextOk_literal rfl
  · simp only [CheckPlanFields.items, List.forall_mem_cons, List.not_mem_nil, false_implies,
      implies_true, and_true]
    exact ⟨.text (checkTextOk_literal rfl), .text (checkTextOk_literal rfl),
      .text (checkTextOk_literal rfl), .identifier _, .identifier _, .identifier _, .identifier _,
      .hex _, .hex _, .hex _, hinputs, hrules⟩

/-! ## The codec -/

/-- A plan is read back from its bytes within limits that have room for it. -/
theorem readCheckPlan_toBytes (p : CheckPlan D) {limits : Option CheckLimits}
    (hdepth : 4 ≤ (CheckLimits.resolve limits).maxJsonDepth)
    (hsize : p.toBytes.length ≤ (CheckLimits.resolve limits).maxPlanBytes)
    (hnodes : p.toBytes.length ≤ (CheckLimits.resolve limits).maxJsonNodes)
    (hwork : 4 * p.toBytes.length ≤ (CheckLimits.resolve limits).maxWorkUnits)
    (hinputs : p.inputs.length ≤ (CheckLimits.resolve limits).maxInputs)
    (hrules : p.rules.length ≤ (CheckLimits.resolve limits).maxRules) :
    parseCheckPlan p.toBytes limits = .ok p := by
  have hlength : p.toBytes.length = Json.size p.toDict := rfl
  have hroom : 0 + Json.size p.toDict ≤ (CheckLimits.resolve limits).maxJsonNodes ∧
      0 + 2 * Json.size p.toDict ≤ (CheckLimits.resolve limits).maxWorkUnits := by omega
  obtain ⟨used, hused, hdocument⟩ := @checkDocument_canonical (·.maxPlanBytes) p.toDict
    (CheckLimits.resolve limits) .fresh 4 p.checkShape hdepth hsize hroom.1 hroom.2
  have hused : used ≤ 0 + 2 * Json.size p.toDict := hused
  refine runCheck_eq_ok.mpr
    ⟨⟨used + (p.toBytes.length + p.toBytes.length), 0 + p.toDict.nodes⟩, ?_⟩
  simp only [readCheckPlan, Metered.bind_eq_ok, lift_eq_ok, allow_eq_ok, charge_eq_ok,
    Metered.pure_eq_ok]
  refine ⟨p.toDict, _, hdocument, p, _, ⟨p.fromDict_toDict, rfl⟩, (), _, ⟨⟨hinputs, hrules⟩, rfl⟩,
    (), _, ⟨?_, rfl⟩, (), _, ⟨require_of rfl, rfl⟩, rfl⟩
  show used + _ ≤ _
  omega

def sampleArtifact : Identifier := ⟨"f", Eq.refl true⟩

/-- Is the whole document `true`? -/
def sampleCheckRule : CheckRule where
  ruleId := ⟨"r", Eq.refl true⟩
  operator := .equals
  artifactId := sampleArtifact
  path := .root
  expected := some (.bool true)
  minimum := none
  maximum := none
  otherArtifactId := none
  otherPath := none
  ok := ⟨rfl, ⟨rfl, rfl⟩, ⟨rfl, rfl⟩⟩

/-- The document `1`. -/
def sampleContent : Bytes := [49]

end Plans

section Sample

variable (D : Type) [Hashing D]

def sampleInput : ArtifactReference D :=
  ⟨sampleArtifact, ⟨"s", Eq.refl true⟩, ⟨"c", Eq.refl true⟩, sha256 sampleContent, 1,
    ⟨"application/json", Eq.refl true⟩, by decide⟩

def sampleCheckFields : CheckPlanFields D where
  planId := ⟨"p", Eq.refl true⟩
  workflowId := ⟨"w", Eq.refl true⟩
  scope := ⟨"s", Eq.refl true⟩
  claimId := ⟨"c", Eq.refl true⟩
  statementDigest := sha256 []
  authorityDigest := sha256 []
  evidenceHead := sha256 []
  inputs := [sampleInput D]
  rules := [sampleCheckRule]

theorem length_sampleCheck_le [WideHex D] : (sampleCheckFields D).toBytes.length ≤ 8000 := by
  have hinput := (sampleInput D).size_toDict_le
  have hrule : Json.size sampleCheckRule.toDict ≤ 200 := by decide +kernel
  have hkeys : Json.quotedSize "kind" = 6 ∧ Json.quotedSize "schema_version" = 16 ∧
      Json.quotedSize "engine_version" = 16 ∧ Json.quotedSize "plan_id" = 9 ∧
      Json.quotedSize "workflow_id" = 13 ∧ Json.quotedSize "scope" = 7 ∧
      Json.quotedSize "claim_id" = 10 ∧ Json.quotedSize "statement_digest" = 18 ∧
      Json.quotedSize "authority_digest" = 18 ∧ Json.quotedSize "evidence_head" = 15 ∧
      Json.quotedSize "inputs" = 8 ∧ Json.quotedSize "rules" = 7 := by
    and_intros <;> exact Json.quotedSize_literal rfl
  have hvalues : Json.quotedSize "evidence-braid-check-plan" = 27 ∧ Json.quotedSize "1.0" = 5 ∧
      Json.quotedSize checkEngineVersion = 29 ∧ Json.quotedSize "p" = 3 ∧
      Json.quotedSize "w" = 3 ∧ Json.quotedSize "s" = 3 ∧ Json.quotedSize "c" = 3 := by
    and_intros <;> exact Json.quotedSize_literal rfl
  show Json.size (Json.dict (sampleCheckFields D).items) ≤ 8000
  rw [Json.size_dict (CheckPlan.nodup_keys_items _) (by simp [CheckPlanFields.items])]
  simp only [CheckPlanFields.items, sampleCheckFields, List.map_cons, List.map_nil, List.sum_cons,
    List.sum_nil, Json.size_str, quotedSize_hex, Json.size_arr_cons, hkeys]
  clear hkeys
  omega

theorem declares_sampleCheck : (sampleCheckFields D).Declares .equals sampleArtifact :=
  ⟨sampleInput D, List.mem_singleton_self _, rfl, fun _ => rfl⟩

/-- The plan of the sample rule. -/
def sampleCheckPlan [WideHex D] : CheckPlan D where
  toCheckPlanFields := sampleCheckFields D
  ok :=
    { inputs_length := ⟨le_rfl, show 1 ≤ maxCheckInputs by decide⟩
      inputs_sorted := List.pairwise_singleton _ _
      inputs_scoped := List.forall_mem_singleton.mpr ⟨rfl, rfl⟩
      rules_length := ⟨le_rfl, show 1 ≤ maxCheckRules by decide⟩
      rules_nodup := List.nodup_singleton _
      declared := List.forall_mem_singleton.mpr
        (List.forall_mem_singleton.mpr (declares_sampleCheck D))
      used := List.forall_mem_singleton.mpr
        ⟨sampleCheckRule, List.mem_singleton_self _, List.mem_singleton_self _⟩
      bytes_length := (length_sampleCheck_le D).trans (by decide) }

end Sample

end EvidenceBraid
