import EvidenceBraid.HttpFraming
import EvidenceBraid.WorkflowOnce

/-!
# What the workflow service and its client exchange

The limits, the namespaces of request identities, prepared appends and the frames of
`_workflow_service_wire.py`.

**Theorem (`namespaceId_inj`).** Under hashes without a collision, two request identities of one
service and one context are the same only for the same actor and the same public identity.

**Theorem (`exists_namespaceId`).** Every actor and every public identity have a request identity
that the store admits.
-/

namespace EvidenceBraid

open Hashing

/-! ## Errors -/

namespace CommitOutcome

def text : CommitOutcome → String
  | none => "none"
  | unknown => "unknown"
  | complete => "complete"

def ofText? (s : String) : Option CommitOutcome :=
  [none, unknown, complete].find? fun outcome => outcome.text = s

@[simp] theorem ofText?_text (outcome : CommitOutcome) : ofText? outcome.text = some outcome := by
  cases outcome <;> decide

theorem text_of_ofText? {s : String} {outcome : CommitOutcome} (h : ofText? s = some outcome) :
    outcome.text = s := by
  simpa using List.find?_some h

end CommitOutcome

namespace ServiceCode

/-- The keys of `_CODES`. -/
def text : ServiceCode → String
  | invalidRequest => "invalid_request"
  | unauthorized => "unauthorized"
  | forbidden => "forbidden"
  | notFound => "not_found"
  | methodNotAllowed => "method_not_allowed"
  | conflict => "conflict"
  | limitExceeded => "limit_exceeded"
  | unsupportedMediaType => "unsupported_media_type"
  | workflowRejected => "workflow_rejected"
  | rateLimited => "rate_limited"
  | unavailable => "unavailable"
  | internalError => "internal_error"
  | transportError => "transport_error"
  | invalidResponse => "invalid_response"
  | shutdownTimeout => "shutdown_timeout"
  | lifecycleError => "lifecycle_error"

/-- The values of `_CODES`. -/
def status : ServiceCode → ℕ
  | invalidRequest => 400
  | unauthorized => 401
  | forbidden => 403
  | notFound => 404
  | methodNotAllowed => 405
  | conflict => 409
  | limitExceeded => 413
  | unsupportedMediaType => 415
  | workflowRejected => 422
  | rateLimited => 429
  | unavailable => 503
  | internalError => 500
  | transportError | invalidResponse | shutdownTimeout | lifecycleError => 0

def all : List ServiceCode :=
  [invalidRequest, unauthorized, forbidden, notFound, methodNotAllowed, conflict, limitExceeded,
    unsupportedMediaType, workflowRejected, rateLimited, unavailable, internalError, transportError,
    invalidResponse, shutdownTimeout, lifecycleError]

def ofText? (s : String) : Option ServiceCode := all.find? fun code => code.text = s

@[simp] theorem ofText?_text (code : ServiceCode) : ofText? code.text = some code := by
  cases code <;> decide

end ServiceCode

/-- What a request to the service may raise: a `WorkflowServiceError`, an exception of the package,
a `WorkflowStorageError`, an `OSError` or a `TimeoutError`, or no `Exception` at all. -/
inductive ServiceProblem where
  | service (code : ServiceCode)
  | python (error : PyError)
  | storage (outcome : CommitOutcome)
  | os
  | control
  deriving DecidableEq, Repr

namespace ServiceProblem

def ofWire : WireError → ServiceProblem
  | .service code => .service code
  | .validation message => .python (.validation message)

def ofFraming : FramingError → ServiceProblem
  | .service code => .service code
  | .os _ => .os

def ofFailure : Failure PyError → ServiceProblem
  | .control _ => .control
  | .validation error => .python error
  | .storage outcome => .storage outcome

/-- `except ValidationError`. -/
def isValidation : ServiceProblem → Bool
  | .python error => error.isValidationError
  | _ => false

end ServiceProblem

abbrev ServiceResult := Except ServiceProblem

/-- A function of the package, called by the service. -/
def python {α : Type} (x : Result α) : ServiceResult α := x.mapError .python

@[simp] theorem python_eq_ok {α : Type} {x : Result α} {a : α} : python x = .ok a ↔ x = .ok a := by
  cases x <;> simp [python, Except.mapError]

/-- A function of the wire, called by the service. -/
def wired {α : Type} (x : Except WireError α) : ServiceResult α := x.mapError .ofWire

@[simp] theorem wired_eq_ok {α : Type} {x : Except WireError α} {a : α} :
    wired x = .ok a ↔ x = .ok a := by
  cases x <;> simp [wired, Except.mapError]

/-- `raise WorkflowServiceError(code)` unless the condition holds. -/
def demand (condition : Prop) [Decidable condition] (code : ServiceCode) : ServiceResult Unit :=
  if condition then .ok () else .error (.service code)

@[simp] theorem demand_eq_ok {condition : Prop} [Decidable condition] {code : ServiceCode} {u : Unit} :
    demand condition code = .ok u ↔ condition := by
  unfold demand
  split_ifs with h <;> simp [h]

/-! ## Limits -/

/-- The fields of `WorkflowServiceLimits`, but for its durations. -/
structure ServiceLimitFields where
  maxCredentials : ℕ
  maxAuthorityBytes : ℕ
  maxWorkers : ℕ
  maxRequestLine : ℕ
  maxHeaderBytes : ℕ
  maxHeaders : ℕ
  maxHeaderLine : ℕ
  maxRequestBytes : ℕ
  maxRequestDepth : ℕ
  maxRequestNodes : ℕ
  maxAppendRecords : ℕ
  maxRecords : ℕ
  maxReceiptBytes : ℕ
  maxBundleBytes : ℕ
  maxOperations : ℕ
  maxOperationBytes : ℕ
  maxOperationsBytes : ℕ
  deriving DecidableEq

namespace ServiceLimitFields

/-- The defaults, which are also the largest values. -/
def largest : ServiceLimitFields where
  maxCredentials := 256
  maxAuthorityBytes := 4 * 1024 * 1024
  maxWorkers := 4
  maxRequestLine := 2048
  maxHeaderBytes := 16384
  maxHeaders := 32
  maxHeaderLine := 4096
  maxRequestBytes := 1024 * 1024
  maxRequestDepth := 16
  maxRequestNodes := 8192
  maxAppendRecords := 128
  maxRecords := 1000
  maxReceiptBytes := 128 * 1024
  maxBundleBytes := 8 * 1024 * 1024
  maxOperations := 1000
  maxOperationBytes := 8192
  maxOperationsBytes := 1024 * 1024

/-- `getattr(self, item.name)`, in the order of the fields. -/
def values (f : ServiceLimitFields) : List ℕ :=
  [f.maxCredentials, f.maxAuthorityBytes, f.maxWorkers, f.maxRequestLine, f.maxHeaderBytes,
    f.maxHeaders, f.maxHeaderLine, f.maxRequestBytes, f.maxRequestDepth, f.maxRequestNodes,
    f.maxAppendRecords, f.maxRecords, f.maxReceiptBytes, f.maxBundleBytes, f.maxOperations,
    f.maxOperationBytes, f.maxOperationsBytes]

/-- Every limit is between one and its default. -/
def InRange (f : ServiceLimitFields) : Prop :=
  List.Forall₂ (fun value maximum => 1 ≤ value ∧ value ≤ maximum) f.values largest.values

instance (f : ServiceLimitFields) : Decidable f.InRange := by unfold InRange; infer_instance

/-- No limit exceeds the one that it is part of. -/
def Coherent (f : ServiceLimitFields) : Prop :=
  f.maxAppendRecords ≤ f.maxRecords ∧ f.maxOperations ≤ f.maxRecords ∧
    f.maxOperationBytes ≤ f.maxOperationsBytes ∧ f.maxReceiptBytes ≤ f.maxBundleBytes ∧
    f.maxRequestLine ≤ f.maxHeaderBytes ∧ f.maxHeaderLine ≤ f.maxHeaderBytes

instance (f : ServiceLimitFields) : Decidable f.Coherent := by unfold Coherent; infer_instance

theorem largest_inRange : largest.InRange := by decide

theorem largest_coherent : largest.Coherent := by decide

end ServiceLimitFields

/-- `WorkflowServiceLimits`. -/
structure WorkflowServiceLimits extends ServiceLimitFields where
  inRange : toServiceLimitFields.InRange
  coherent : toServiceLimitFields.Coherent

namespace WorkflowServiceLimits

/-- The constructor. -/
def make (f : ServiceLimitFields) : Result WorkflowServiceLimits :=
  if hrange : f.InRange then
    if hcoherent : f.Coherent then .ok ⟨f, hrange, hcoherent⟩
    else .error (.validation "incoherent service limits")
  else .error (.validation "service integer exceeds its exact native bounds")

/-- `WorkflowServiceLimits()`. -/
def default : WorkflowServiceLimits :=
  ⟨.largest, ServiceLimitFields.largest_inRange, ServiceLimitFields.largest_coherent⟩

theorem bounds (l : WorkflowServiceLimits) :
    ((1 ≤ l.maxRequestBytes ∧ l.maxRequestBytes ≤ 1024 * 1024) ∧
      (1 ≤ l.maxRequestDepth ∧ l.maxRequestDepth ≤ 16) ∧
      (1 ≤ l.maxRequestNodes ∧ l.maxRequestNodes ≤ 8192) ∧
      (1 ≤ l.maxBundleBytes ∧ l.maxBundleBytes ≤ 8 * 1024 * 1024)) ∧
    (1 ≤ l.maxAppendRecords ∧ l.maxAppendRecords ≤ 128) ∧
    (1 ≤ l.maxRecords ∧ l.maxRecords ≤ 1000) ∧
    (1 ≤ l.maxReceiptBytes ∧ l.maxReceiptBytes ≤ 128 * 1024) ∧
    (1 ≤ l.maxOperations ∧ l.maxOperations ≤ 1000) ∧
    (1 ≤ l.maxOperationBytes ∧ l.maxOperationBytes ≤ 8192) ∧
    1 ≤ l.maxOperationsBytes ∧ l.maxOperationsBytes ≤ 1024 * 1024 := by
  have h := l.inRange
  simp only [ServiceLimitFields.InRange, ServiceLimitFields.values, ServiceLimitFields.largest,
    List.forall₂_cons] at h
  obtain ⟨-, -, -, -, -, -, -, h₁, h₂, h⟩ := h
  obtain ⟨h₃, h₄, h₅, h₆, h₇, h₈, h₉, h₁₀, -⟩ := h
  exact ⟨⟨h₁, h₂, h₃, h₇⟩, h₄, h₅, h₆, h₈, h₉, h₁₀⟩

/-- The bounds on bodies. -/
def bodies (l : WorkflowServiceLimits) : ServiceLimits where
  maxRequestBytes := l.maxRequestBytes
  maxRequestDepth := l.maxRequestDepth
  maxRequestNodes := l.maxRequestNodes
  maxBundleBytes := l.maxBundleBytes
  requestBytes := l.bounds.1.1
  requestDepth := l.bounds.1.2.1
  requestNodes := l.bounds.1.2.2.1
  bundleBytes := l.bounds.1.2.2.2

/-- The bounds on a request's headers. -/
def headers (l : WorkflowServiceLimits) : HeaderLimits :=
  ⟨l.maxHeaderBytes, l.maxHeaderLine, l.maxRequestLine, l.maxHeaders⟩

/-- The values of `store_limits`. -/
def storeFields (l : WorkflowServiceLimits) : StoreLimitFields where
  maxBundleBytes := l.maxBundleBytes
  maxRecords := l.maxRecords
  maxReceiptBytes := l.maxReceiptBytes
  maxAppendRecords := l.maxAppendRecords
  maxRequestBytes := l.maxRequestBytes
  maxOperations := l.maxOperations
  maxOperationBytes := l.maxOperationBytes
  maxOperationsBytes := l.maxOperationsBytes

/-- The limits of a service are limits of a store. -/
theorem storeFields_valid (l : WorkflowServiceLimits) : l.storeFields.Valid := by
  obtain ⟨⟨h₁, -, -, h₂⟩, h₃, h₄, h₅, h₆, h₇, h₈⟩ := l.bounds
  simp only [StoreLimitFields.Valid, StoreLimitFields.named, StoreLimitFields.largest,
    List.forall₂_cons, List.forall₂_nil_left_iff, maxWorkflowAppend, storeFields, and_true]
  omega

/-- `store_limits`. -/
def storeLimits (l : WorkflowServiceLimits) : WorkflowStoreLimits := ⟨l.storeFields, l.storeFields_valid⟩

end WorkflowServiceLimits

/-! ## Fields -/

/-- `object_fields`. -/
def objectFields (value : Json) (names : List String) : Result (List (String × Json)) :=
  match value with
  | .obj kvs => do
    valid (kvs.length = names.length) "service wire requires an exact object"
    valid ((∀ k ∈ Json.keys kvs, k ∈ names) ∧ ∀ n ∈ names, n ∈ Json.keys kvs)
      "service wire has unexpected fields"
    .ok kvs
  | _ => .error (.validation "service wire requires an exact object")

/-- What `identifier(value, 58)` returns. -/
structure PublicId extends Identifier where
  short : value.toList.length ≤ 58
  deriving DecidableEq

theorem PublicId.ext_value {p q : PublicId} (h : p.value = q.value) : p = q := by
  obtain ⟨⟨p, _⟩, _⟩ := p
  obtain ⟨⟨q, _⟩, _⟩ := q
  obtain rfl : p = q := h
  rfl

/-- `identifier(value, 58)`. -/
def publicId (value : Option Json) : Result PublicId := do
  let i ← identifierField value "service identifier"
  if h : i.value.toList.length ≤ 58 then .ok ⟨i, h⟩
  else .error (.validation "invalid service identifier")

/-- `digest`. -/
def serviceDigest {D : Type} [Hashing D] (value : Option Json) : Result D :=
  hashField value "service digest"

theorem publicId_eq_ok {value : Option Json} {p : PublicId} :
    publicId value = .ok p ↔ value = some (.str p.value) := by
  simp only [publicId, bind_eq_ok]
  constructor
  · rintro ⟨i, hi, h⟩
    split_ifs at h
    rw [← Except.ok.inj h]
    exact identifierField_eq_ok.mp hi
  · rintro rfl
    exact ⟨p.toIdentifier, identifierField_value _ _, dif_pos p.short⟩

variable {D : Type} [Hashing D]

/-! ## Namespaces -/

section Namespaces

/-- The members of a namespace's document. -/
def namespaceItems (service : Identifier) (context : D) (actor : Identifier) : List (String × Json) :=
  [("kind", .str "evidence-braid-workflow-service-request-namespace"), ("schema_version", .str "1.0"),
    ("service_id", .str service.value), ("context_digest", .str (hex context)),
    ("actor_id", .str actor.value)]

def namespaceNode (service : Identifier) (context : D) (actor : Identifier) : Json :=
  Json.dict (namespaceItems service context actor)

/-- `namespace_id`, as the store admits it. -/
def namespaceId (service : Identifier) (context : D) (actor : Identifier) (suffix : PublicId) :
    Result Identifier := do
  let raw ← workflowBytes (namespaceNode service context actor) 4096
  identifier ("svc1." ++ hex (sha256 raw : D) ++ "." ++ suffix.value) "request_id"

theorem nodup_keys_namespaceItems (service : Identifier) (context : D) (actor : Identifier) :
    (Json.keys (namespaceItems service context actor)).Nodup := by
  simp only [namespaceItems, Json.keys, List.map_cons, List.map_nil]
  decide

theorem wellKeyed_namespaceNode (service : Identifier) (context : D) (actor : Identifier) :
    Json.WellKeyed (namespaceNode service context actor) := by
  refine Json.wellKeyed_dict ?_
  intro kv hkv
  simp only [namespaceItems, List.mem_cons, List.not_mem_nil, or_false] at hkv
  rcases hkv with rfl | rfl | rfl | rfl | rfl <;> simp

/-- A namespace's document is determined by its actor. -/
theorem namespaceNode_inj {service actor actor' : Identifier} {context : D}
    (h : namespaceNode service context actor = namespaceNode service context actor') :
    actor = actor' := by
  have hactor := Json.get?_foldr_insertKey (nodup_keys_namespaceItems service context actor) "actor_id"
  rw [Json.obj.inj h, Json.get?_foldr_insertKey (nodup_keys_namespaceItems service context actor')]
    at hactor
  exact (Identifier.ext (Json.str.inj (Option.some.inj hactor))).symm

theorem namespaceId_eq_ok {service actor : Identifier} {context : D} {suffix : PublicId}
    {i : Identifier} (h : namespaceId service context actor suffix = .ok i) :
    i.value = "svc1." ++ hex (sha256 (canonicalBytes (namespaceNode service context actor)) : D) ++
      "." ++ suffix.value := by
  simp only [namespaceId, bind_eq_ok, workflowBytes_eq_ok] at h
  obtain ⟨_, ⟨-, rfl⟩, h⟩ := h
  exact identifier_eq_ok.mp h

variable [WideHex D]

theorem size_namespaceNode_le (service : Identifier) (context : D) (actor : Identifier) :
    (canonicalBytes (namespaceNode service context actor)).length ≤ 4096 := by
  have hsize : Json.size (namespaceNode service context actor) ≤ 4096 := by
    rw [namespaceNode, Json.size_dict (nodup_keys_namespaceItems service context actor)
      (by simp [namespaceItems])]
    have hkeys : Json.quotedSize "kind" = 6 ∧ Json.quotedSize "schema_version" = 16 ∧
        Json.quotedSize "service_id" = 12 ∧ Json.quotedSize "context_digest" = 16 ∧
        Json.quotedSize "actor_id" = 10 ∧ Json.quotedSize "1.0" = 5 ∧
        Json.quotedSize "evidence-braid-workflow-service-request-namespace" = 51 := by
      and_intros <;> exact Json.quotedSize_literal rfl
    have hservice := Json.quotedSize_le service.value
    have hactor := Json.quotedSize_le actor.value
    have hservice' := service.length_le
    have hactor' := actor.length_le
    simp only [namespaceItems, List.map_cons, List.map_nil, List.sum_cons, List.sum_nil,
      Json.size_str, quotedSize_hex, hkeys]
    clear hkeys
    omega
  exact hsize

/-- A character of an identifier after its first. -/
theorem later_of_isIdentifier {s : String} (h : isIdentifier s = true) :
    ∀ c ∈ s.toList, (isAsciiAlnum c || c ∈ ['.', '_', ':', '/', '-']) = true := by
  unfold isIdentifier at h
  split at h
  · cases h
  · next c cs hcs =>
    simp only [Bool.and_eq_true, decide_eq_true_eq, List.all_eq_true] at h
    intro d hd
    rw [hcs, List.mem_cons] at hd
    rcases hd with rfl | hd
    · rw [h.1.1, Bool.true_or]
    · exact h.2 d hd

theorem isAsciiAlnum_hex {c : Char} (h : (hexDigit? c).isSome = true) : isAsciiAlnum c = true := by
  unfold hexDigit? at h
  unfold isAsciiAlnum
  split_ifs at h with hdigit hletter
  · simp only [hdigit.1, hdigit.2, decide_true, Bool.and_true, Bool.or_true]
  · have hz : c ≤ 'z' := le_trans hletter.2 (by decide)
    simp only [hletter.1, hz, decide_true, Bool.and_true, Bool.true_or, Bool.or_true]
  · cases h

/-- **Every public identity of every actor has a request identity.** -/
theorem exists_namespaceId (service : Identifier) (context : D) (actor : Identifier)
    (suffix : PublicId) : ∃ i, namespaceId service context actor suffix = .ok i := by
  have hok (d : D) : isIdentifier ("svc1." ++ hex d ++ "." ++ suffix.value) = true := by
    have hhex := WideHex.isHash_hex d
    simp only [isHash, Bool.and_eq_true, decide_eq_true_eq, List.all_eq_true] at hhex
    have htext : ("svc1." ++ hex d ++ "." ++ suffix.value).toList =
        's' :: (['v', 'c', '1', '.'] ++ (hex d).toList ++ ['.'] ++ suffix.value.toList) := by
      simp only [String.toList_append]
      rfl
    have hshort := suffix.short
    rw [isIdentifier, htext]
    simp only [Bool.and_eq_true, decide_eq_true_eq, List.all_eq_true, List.length_append, hhex.1,
      List.length_cons, List.length_nil]
    refine ⟨⟨by decide, by omega⟩, fun c hc => ?_⟩
    have hstart : ['v', 'c', '1', '.'].all (fun c => isAsciiAlnum c || c ∈ ['.', '_', ':', '/', '-']) =
        true := by decide
    have hdot : ['.'].all (fun c => isAsciiAlnum c || c ∈ ['.', '_', ':', '/', '-']) = true := by decide
    rw [List.mem_append, List.mem_append, List.mem_append] at hc
    rcases hc with ((hc | hc) | hc) | hc
    · exact List.all_eq_true.mp hstart c hc
    · rw [isAsciiAlnum_hex (hhex.2 c hc), Bool.true_or]
    · exact List.all_eq_true.mp hdot c hc
    · exact later_of_isIdentifier suffix.ok c hc
  refine ⟨⟨_, hok (sha256 (canonicalBytes (namespaceNode service context actor)))⟩, ?_⟩
  simp only [namespaceId, bind_eq_ok, workflowBytes_eq_ok]
  exact ⟨_, ⟨size_namespaceNode_le service context actor, rfl⟩, identifier_eq_ok.mpr rfl⟩

/-- **Request identities are apart** where the hash is injective on the actors' namespaces. -/
theorem namespaceId_inj {service actor actor' : Identifier} {context : D} {suffix suffix' : PublicId}
    (hinj : Set.InjOn (sha256 : Bytes → D) {canonicalBytes (namespaceNode service context actor),
      canonicalBytes (namespaceNode service context actor')}) {i : Identifier}
    (h : namespaceId service context actor suffix = .ok i)
    (h' : namespaceId service context actor' suffix' = .ok i) : actor = actor' ∧ suffix = suffix' := by
  have hsame := (namespaceId_eq_ok h).symm.trans (namespaceId_eq_ok h')
  have hlist := congrArg String.toList hsame
  simp only [String.toList_append, List.append_assoc] at hlist
  obtain ⟨hhex, hrest⟩ := List.append_inj (List.append_cancel_left hlist)
    (by rw [length_hex, length_hex])
  have hdigest := hex_injective (String.toList_inj.mp hhex)
  have hnode := canonicalBytes_inj (wellKeyed_namespaceNode _ _ _) (wellKeyed_namespaceNode _ _ _)
    (hinj (by simp) (by simp) hdigest)
  exact ⟨namespaceNode_inj hnode,
    PublicId.ext_value (String.toList_inj.mp (List.append_cancel_left hrest))⟩

end Namespaces

/-! ## Requests -/

section Requests

variable [DecidableEq D]

/-- `checkpoint`. -/
def checkpointCopy (value : WorkflowCheckpoint D) (context : D) : ServiceResult (WorkflowCheckpoint D) := do
  let result ← python (WorkflowCheckpoint.fromDict value.toDict)
  demand (result.contextDigest = context) .conflict
  .ok result

/-- `transitions_copy`. -/
def transitionsCopy (ts : List (WorkflowTransition D)) (actor : Identifier)
    (limits : WorkflowServiceLimits) : ServiceResult (List (WorkflowTransition D)) := do
  python (valid (1 ≤ ts.length ∧ ts.length ≤ limits.maxAppendRecords)
    "service command count exceeds limit")
  demand (∀ t ∈ ts, t.actorId = actor) .forbidden
  python (decodeItems WorkflowTransition.fromDict (ts.map WorkflowTransition.toDict))

theorem checkpointCopy_eq_ok {value result : WorkflowCheckpoint D} {context : D} :
    checkpointCopy value context = .ok result ↔ result = value ∧ value.contextDigest = context := by
  simp only [checkpointCopy, bind_eq_ok, python_eq_ok, WorkflowCheckpoint.fromDict_toDict,
    Except.ok.injEq, demand_eq_ok, exists_unit]
  constructor
  · rintro ⟨_, rfl, hcontext, rfl⟩
    exact ⟨rfl, hcontext⟩
  · rintro ⟨rfl, hcontext⟩
    exact ⟨_, rfl, hcontext, rfl⟩

omit [DecidableEq D] in
/-- Copied transitions are the actor's. -/
theorem transitionsCopy_eq_ok {ts result : List (WorkflowTransition D)} {actor : Identifier}
    {limits : WorkflowServiceLimits} : transitionsCopy ts actor limits = .ok result ↔
      result = ts ∧ (1 ≤ ts.length ∧ ts.length ≤ limits.maxAppendRecords) ∧
        ∀ t ∈ ts, t.actorId = actor := by
  have hdecode : decodeItems WorkflowTransition.fromDict (ts.map WorkflowTransition.toDict) =
      .ok ts := decodeItems_map fun t _ => t.fromDict_toDict
  simp only [transitionsCopy, bind_eq_ok, python_eq_ok, hdecode, valid_eq_ok, demand_eq_ok,
    exists_unit, Except.ok.injEq]
  constructor
  · rintro ⟨hcount, hactor, rfl⟩
    exact ⟨rfl, hcount, hactor⟩
  · rintro ⟨rfl, hcount, hactor⟩
    exact ⟨hcount, hactor, rfl⟩

/-- The fields of a `PreparedWorkflowAppend`. -/
structure PreparedFields (D : Type) where
  serviceId : Identifier
  workflowId : Identifier
  contextDigest : D
  actorId : Identifier
  requestId : PublicId
  expectedCheckpoint : WorkflowCheckpoint D
  transitions : List (WorkflowTransition D)
  requestDigest : D

namespace PreparedFields

/-- `core_request_id`. -/
def coreRequestId (p : PreparedFields D) : Result Identifier :=
  namespaceId p.serviceId p.contextDigest p.actorId p.requestId

def bodyItems (p : PreparedFields D) : List (String × Json) :=
  [("schema_version", .str "1.0"), ("request_id", .str p.requestId.value),
    ("request_digest", .str (hex p.requestDigest)),
    ("expected_checkpoint", p.expectedCheckpoint.toDict),
    ("transitions", .arr (p.transitions.map WorkflowTransition.toDict))]

def body (p : PreparedFields D) : Json := Json.dict p.bodyItems

def toDict (p : PreparedFields D) : Json :=
  Json.dict (p.bodyItems ++ [("service_id", Json.str p.serviceId.value),
    ("workflow_id", Json.str p.workflowId.value), ("context_digest", Json.str (hex p.contextDigest)),
    ("actor_id", Json.str p.actorId.value)])

/-- `admit`. -/
def admitUnder (p : PreparedFields D) (limits : WorkflowServiceLimits) : ServiceResult Bytes := do
  let _ ← transitionsCopy p.transitions p.actorId limits
  let core ← python p.coreRequestId
  let _ ← python (workflowRequestDigest core p.expectedCheckpoint p.transitions limits.storeLimits)
  let raw ← python (workflowBytes p.toDict limits.maxRequestBytes)
  let _ ← wired (parseJson raw limits.bodies false)
  python (workflowBytes p.body limits.maxRequestBytes)

/-- What `__post_init__` checks before it admits the request. -/
def Bound (p : PreparedFields D) : Prop :=
  p.expectedCheckpoint.contextDigest = p.contextDigest ∧ (∀ t ∈ p.transitions, t.actorId = p.actorId) ∧
    ∃ core ∈ p.coreRequestId.toOption, workflowRequestDigest core p.expectedCheckpoint p.transitions
      WorkflowServiceLimits.default.storeLimits = .ok p.requestDigest

instance (p : PreparedFields D) : Decidable p.Bound := by unfold Bound; infer_instance

end PreparedFields

/-- `PreparedWorkflowAppend`. -/
structure PreparedWorkflowAppend (D : Type) [Hashing D] [DecidableEq D] extends PreparedFields D where
  bound : toPreparedFields.Bound

/-- The constructor. -/
def PreparedWorkflowAppend.make (p : PreparedFields D) : ServiceResult (PreparedWorkflowAppend D) := do
  let limits := WorkflowServiceLimits.default
  let before ← checkpointCopy p.expectedCheckpoint p.contextDigest
  let commands ← transitionsCopy p.transitions p.actorId limits
  let core ← python p.coreRequestId
  let digest ← python (workflowRequestDigest core before commands limits.storeLimits)
  demand (digest = p.requestDigest) .conflict
  let _ ← p.admitUnder limits
  if h : p.Bound then .ok ⟨p, h⟩ else .error (.service .conflict)

end Requests

/-! ## Frames -/

/-- `encode("ascii")`, of text that is ASCII. -/
def asciiBytes (s : String) : Bytes := s.toList.map fun c => UInt8.ofNat c.toNat

/-- The first line and the headers of a frame. -/
def frameHeader (first : String) (headers : List (String × String)) : Bytes :=
  asciiBytes first ++ headers.flatMap fun h => crlf ++ asciiBytes (h.1 ++ ": " ++ h.2)

def frame (first : String) (headers : List (String × String)) (body : Bytes) : Bytes :=
  frameHeader first headers ++ (blankLine ++ body)

/-- `response_frame`. -/
def responseFrame (status : ℕ) (body : Bytes) : Bytes :=
  frame ("HTTP/1.1 " ++ toString status ++ " Response")
    [("Content-Type", "application/json"), ("Content-Length", toString body.length),
      ("Connection", "close"), ("Cache-Control", "no-store")] body

/-- `WorkflowServiceError`. -/
structure WorkflowServiceError (D : Type) where
  code : ServiceCode
  outcome : CommitOutcome
  requestId : Option PublicId
  requestDigest : Option D

namespace WorkflowServiceError

def items (e : WorkflowServiceError D) : List (String × Json) :=
  [("schema_version", .str "1.0"), ("error_code", .str e.code.text), ("outcome", .str e.outcome.text),
    ("request_id", takenJson (fun i : PublicId => i.value) e.requestId),
    ("request_digest", takenJson hex e.requestDigest)]

def toDict (e : WorkflowServiceError D) : Json := Json.dict e.items

/-- The status of its frame: `error.status or 500`. -/
def frameStatus (e : WorkflowServiceError D) : ℕ := if e.code.status = 0 then 500 else e.code.status

/-- `error_frame`. -/
def errorFrame (e : WorkflowServiceError D) : Result Bytes := do
  let body ← workflowBytes e.toDict 4096
  .ok (responseFrame e.frameStatus body)

/-- `EMERGENCY`. -/
def emergency (outcome : CommitOutcome) : Bytes :=
  responseFrame 500 (canonicalBytes (toDict (⟨.internalError, outcome, none, none⟩ :
    WorkflowServiceError D)))

end WorkflowServiceError

end EvidenceBraid
