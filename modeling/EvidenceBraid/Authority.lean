import EvidenceBraid.Ledger

/-!
# Authority declarations and commands

`authority.py`: a trusted registry of actors with scoped roles, references to artifacts, and the
transitions that actors intend. The types carry what the constructors check, so a transition holds
a statement, a reference or a reason exactly when its action takes one.
-/

namespace EvidenceBraid

open Hashing
open Json (WellKeyed)

def maxWorkflowRecords : ℕ := 10000

def maxWorkflowArtifacts : ℕ := 1024

/-! ## Field checks -/

/-- A letter or digit of ASCII. -/
def isAsciiAlnum (c : Char) : Bool :=
  ('A' ≤ c && c ≤ 'Z') || ('a' ≤ c && c ≤ 'z') || ('0' ≤ c && c ≤ '9')

/-- The pattern of `_identifier`: a letter or a digit, then at most 127 letters, digits, dots,
underscores, colons, slashes and hyphens. -/
def isIdentifier (value : String) : Bool :=
  match value.toList with
  | [] => false
  | c :: cs => isAsciiAlnum c && cs.length ≤ 127 &&
      cs.all fun d => isAsciiAlnum d || d ∈ ['.', '_', ':', '/', '-']

/-- Text that `_identifier` returns. -/
structure Identifier where
  value : String
  ok : isIdentifier value = true

namespace Identifier

@[ext] theorem ext {a b : Identifier} (h : a.value = b.value) : a = b := by
  cases a; cases b; simpa using h

theorem ext_iff' {a b : Identifier} : a = b ↔ a.value = b.value := ⟨congrArg value, ext⟩

instance : DecidableEq Identifier := fun _ _ => decidable_of_iff _ ext_iff'.symm

instance : LinearOrder Identifier := LinearOrder.lift' value fun _ _ => ext

end Identifier

/-- `_identifier` of a string. -/
def identifier (value : String) (path : String) : Result Identifier :=
  if h : isIdentifier value = true then .ok ⟨value, h⟩
  else .error (.validation (path ++ " must be a 1..128 character ASCII identifier"))

/-- `_identifier`. -/
def identifierField (value : Option Json) (path : String) : Result Identifier :=
  match value with
  | some (.str s) => identifier s path
  | _ => .error (.validation (path ++ " must be a 1..128 character ASCII identifier"))

@[simp] theorem identifierField_value (i : Identifier) (path : String) :
    identifierField (some (.str i.value)) path = .ok i := by
  simp [identifierField, identifier, i.ok]

theorem identifierField_eq_ok {value : Option Json} {path : String} {i : Identifier} :
    identifierField value path = .ok i ↔ value = some (.str i.value) := by
  constructor
  · intro h
    unfold identifierField at h
    split at h
    · unfold identifier at h
      split_ifs at h
      rw [← Except.ok.inj h]
    · cases h
  · rintro rfl
    exact identifierField_value i path

/-- Whether `_description` returns this text. -/
def isDescription (maximum : ℕ) (value : String) : Bool :=
  isXmlCharacter value && value ≠ "" && strip value = value && value.toList.length ≤ maximum

/-- Text that `_description` returns. -/
structure Description (maximum : ℕ) where
  value : String
  ok : isDescription maximum value = true

namespace Description

variable {maximum : ℕ}

theorem ext_iff {a b : Description maximum} : a = b ↔ a.value = b.value := by
  cases a; cases b; simp

instance : DecidableEq (Description maximum) := fun _ _ => decidable_of_iff _ ext_iff.symm

end Description

/-- `_description`. -/
def descriptionField (value : Option Json) (path : String) (maximum : ℕ) :
    Result (Description maximum) :=
  match value with
  | some (.str s) =>
    if isXmlCharacter s = false then
      .error (.validation (path ++ " contains a character not allowed by XML 1.0"))
    else if s = "" then .error (.validation (path ++ " must be a non-empty string"))
    else if h : isDescription maximum s = true then .ok ⟨s, h⟩
    else .error (.validation
      (path ++ " must be canonical text of at most " ++ toString maximum ++ " characters"))
  | _ => .error (.validation (path ++ " must be a non-empty string"))

theorem descriptionField_eq_ok {value : Option Json} {path : String} {maximum : ℕ}
    {d : Description maximum} :
    descriptionField value path maximum = .ok d ↔ value = some (.str d.value) := by
  constructor
  · intro h
    unfold descriptionField at h
    split at h
    · split_ifs at h
      rw [← Except.ok.inj h]
    · cases h
  · rintro rfl
    have hok := d.ok
    simp only [isDescription, Bool.and_eq_true, decide_eq_true_eq] at hok
    simp [descriptionField, hok.1.1.1, hok.1.1.2, d.ok]

/-- `_integer`. -/
def integerField (value : Option Json) (path : String) (maximum : ℕ) (minimum : ℕ) : Result ℕ :=
  match value with
  | some (.int n) => do
    valid ((minimum : ℤ) ≤ n ∧ n ≤ maximum) (path ++ " must be an integer between " ++
      toString minimum ++ " and " ++ toString maximum)
    .ok n.toNat
  | _ => .error (.validation (path ++ " must be an integer between " ++
      toString minimum ++ " and " ++ toString maximum))

theorem integerField_eq_ok {value : Option Json} {path : String} {maximum minimum n : ℕ} :
    integerField value path maximum minimum = .ok n ↔
      value = some (.int n) ∧ minimum ≤ n ∧ n ≤ maximum := by
  constructor
  · intro h
    unfold integerField at h
    split at h
    · simp only [bind_eq_ok, valid_eq_ok, exists_unit, Except.ok.injEq] at h
      obtain ⟨⟨hmin, hmax⟩, rfl⟩ := h
      rename_i m
      refine ⟨?_, by omega, by omega⟩
      rw [Int.toNat_of_nonneg (by omega)]
    · cases h
  · rintro ⟨rfl, hmin, hmax⟩
    have hrange : (minimum : ℤ) ≤ n ∧ (n : ℤ) ≤ maximum := by omega
    simp [integerField, valid, require, hrange, bind, Except.bind]

/-- `_array`. -/
def arrayField (value : Option Json) (path : String) (maximum : ℕ) : Result (List Json) :=
  match value with
  | some (.arr xs) => do
    valid (xs.length ≤ maximum)
      (path ++ " must be an array of at most " ++ toString maximum ++ " items")
    .ok xs
  | _ => .error (.validation
      (path ++ " must be an array of at most " ++ toString maximum ++ " items"))

theorem arrayField_eq_ok {value : Option Json} {path : String} {maximum : ℕ} {xs : List Json} :
    arrayField value path maximum = .ok xs ↔ value = some (.arr xs) ∧ xs.length ≤ maximum := by
  constructor
  · intro h
    unfold arrayField at h
    split at h
    · simp only [bind_eq_ok, valid_eq_ok, exists_unit, Except.ok.injEq] at h
      obtain ⟨hlen, rfl⟩ := h
      exact ⟨rfl, hlen⟩
    · cases h
  · rintro ⟨rfl, hlen⟩
    simp [arrayField, valid, require, hlen, bind, Except.bind]

/-- `_enum`, of an enumeration given by its members' texts. -/
def enumString {α : Type} (members : List (String × α)) (value : Option Json) (path : String) :
    Result α :=
  match value with
  | some (.str s) =>
    orError (members.lookup s) (.validation (path ++ " must be a known enum string"))
  | _ => .error (.validation (path ++ " must be a known enum string"))

/-- An enumeration: its members' texts and the text of each member. -/
structure EnumTexts {α : Type} (members : List (String × α)) (text : α → String) : Prop where
  lookup : ∀ a, members.lookup (text a) = some a
  text : ∀ s a, members.lookup s = some a → text a = s

theorem EnumTexts.eq_ok {α : Type} {members : List (String × α)} {text : α → String}
    (h : EnumTexts members text) {value : Option Json} {path : String} {a : α} :
    enumString members value path = .ok a ↔ value = some (.str (text a)) := by
  constructor
  · intro hok
    unfold enumString at hok
    split at hok
    · rw [h.text _ _ (orError_eq_ok.mp hok)]
    · cases hok
  · rintro rfl
    simp [enumString, h.lookup]

/-- The texts of an enumeration whose table lists each member at its own text. -/
theorem enumTexts_of_forall {α : Type} {members : List (String × α)} {text : α → String}
    (hlookup : ∀ a, members.lookup (text a) = some a) (hmem : ∀ p ∈ members, text p.2 = p.1) :
    EnumTexts members text where
  lookup := hlookup
  text := by
    intro s a h
    obtain ⟨before, after, hmembers, -⟩ := List.lookup_eq_some_iff.mp h
    exact hmem (s, a) (by rw [hmembers]; simp)

/-! ## Enumerations -/

/-- `ActorKind`. -/
inductive ActorKind where
  | human | automation
  deriving DecidableEq, Repr

namespace ActorKind

def value : ActorKind → String
  | human => "human"
  | automation => "automation"

end ActorKind

/-- `AuthorityRole`. -/
inductive AuthorityRole where
  | author | reviewer | revoker
  deriving DecidableEq, Repr

namespace AuthorityRole

def value : AuthorityRole → String
  | author => "author"
  | reviewer => "reviewer"
  | revoker => "revoker"

end AuthorityRole

/-- `WorkflowAction`. -/
inductive WorkflowAction where
  | create | bindEvidence | bindArtifact | submit | approve | reject | revoke
  deriving DecidableEq, Repr

namespace WorkflowAction

def value : WorkflowAction → String
  | create => "create"
  | bindEvidence => "bind_evidence"
  | bindArtifact => "bind_artifact"
  | submit => "submit"
  | approve => "approve"
  | reject => "reject"
  | revoke => "revoke"

def members : List (String × WorkflowAction) :=
  [create, bindEvidence, bindArtifact, submit, approve, reject, revoke].map fun a => (a.value, a)

theorem enumTexts : EnumTexts members value :=
  enumTexts_of_forall (by intro a; cases a <;> rfl) (by decide)

end WorkflowAction

/-- `ClaimStatus`. -/
inductive ClaimStatus where
  | draft | submitted | approved | rejected | revoked
  deriving DecidableEq, Repr

/-! ## The trusted policy -/

/-- `ScopeGrant`. -/
structure ScopeGrant where
  scope : Identifier
  role : AuthorityRole
  deriving DecidableEq

namespace ScopeGrant

def toDict (g : ScopeGrant) : Json :=
  Json.dict [("scope", .str g.scope.value), ("role", .str g.role.value)]

/-- The order of the grants of an actor: by scope, then by role. -/
def before (a b : ScopeGrant) : Prop :=
  a.scope.value < b.scope.value ∨ a.scope.value = b.scope.value ∧ a.role.value < b.role.value

instance : DecidableRel before := fun a b => by unfold before; infer_instance

end ScopeGrant

/-- `WorkflowActor`: at least one grant, sorted and without repetition. -/
structure WorkflowActor where
  actorId : Identifier
  kind : ActorKind
  grants : List ScopeGrant
  grants_length : 1 ≤ grants.length ∧ grants.length ≤ 128
  grants_sorted : grants.Pairwise ScopeGrant.before

namespace WorkflowActor

/-- `permits`. -/
def permits (a : WorkflowActor) (scope : Identifier) (role : AuthorityRole) : Prop :=
  ⟨scope, role⟩ ∈ a.grants

instance (a : WorkflowActor) (scope : Identifier) (role : AuthorityRole) :
    Decidable (a.permits scope role) := by
  unfold permits; infer_instance

def toDict (a : WorkflowActor) : Json :=
  Json.dict [("actor_id", .str a.actorId.value), ("kind", .str a.kind.value),
    ("grants", .arr (a.grants.map ScopeGrant.toDict))]

end WorkflowActor

/-- `AuthorityPolicy`: actors sorted by their distinct identifiers, and a quorum. -/
structure AuthorityPolicy where
  policyId : Identifier
  actors : List WorkflowActor
  approvalQuorum : ℕ
  quorum_range : 1 ≤ approvalQuorum ∧ approvalQuorum ≤ 16
  actors_length : 1 ≤ actors.length ∧ actors.length ≤ 256
  actors_sorted : (actors.map (·.actorId)).Pairwise (· < ·)

namespace AuthorityPolicy

def toDict (p : AuthorityPolicy) : Json :=
  Json.dict [("schema_version", .str "1.0"), ("kind", .str "evidence-braid-authority"),
    ("policy_id", .str p.policyId.value), ("approval_quorum", .int p.approvalQuorum),
    ("actors", .arr (p.actors.map WorkflowActor.toDict))]

/-- `digest`. -/
def digest {D : Type} [Hashing D] (p : AuthorityPolicy) : D := sha256 (canonicalBytes p.toDict)

/-- The actor of an identifier. -/
def actor? (p : AuthorityPolicy) (actorId : Identifier) : Option WorkflowActor :=
  p.actors.find? fun a => a.actorId = actorId

theorem actor?_eq_some {p : AuthorityPolicy} {actorId : Identifier} {a : WorkflowActor}
    (h : p.actor? actorId = some a) : a ∈ p.actors ∧ a.actorId = actorId :=
  ⟨List.mem_of_find?_eq_some h, by simpa using List.find?_some h⟩

end AuthorityPolicy

/-! ## Artifacts -/

variable {D : Type} [Hashing D]

/-- `ArtifactReference`. -/
structure ArtifactReference (D : Type) where
  artifactId : Identifier
  scope : Identifier
  claimId : Identifier
  sha256 : D
  sizeBytes : ℕ
  mediaType : Description 128
  size_le : sizeBytes ≤ 64 * 1024 * 1024
  deriving DecidableEq

namespace ArtifactReference

def fields : List String :=
  ["artifact_id", "claim_id", "media_type", "scope", "sha256", "size_bytes"]

def items (a : ArtifactReference D) : List (String × Json) :=
  [("artifact_id", .str a.artifactId.value), ("scope", .str a.scope.value),
    ("claim_id", .str a.claimId.value), ("sha256", .str (hex a.sha256)),
    ("size_bytes", .int a.sizeBytes), ("media_type", .str a.mediaType.value)]

/-- `to_dict`. -/
def toDict (a : ArtifactReference D) : Json := Json.dict a.items

/-- `from_dict` and the constructor. -/
def fromDict (value : Json) : Result (ArtifactReference D) := do
  let data ← exactly value fields "artifact"
  let artifactId ← identifierField (Json.get? data "artifact_id") "artifact.artifact_id"
  let scope ← identifierField (Json.get? data "scope") "artifact.scope"
  let claimId ← identifierField (Json.get? data "claim_id") "artifact.claim_id"
  let sha256 ← hashField (Json.get? data "sha256") "artifact.sha256"
  let size ← integerField (Json.get? data "size_bytes") "artifact.size_bytes" (64 * 1024 * 1024) 0
  let mediaType ← descriptionField (Json.get? data "media_type") "artifact.media_type" 128
  if h : size ≤ 64 * 1024 * 1024 then
    .ok ⟨artifactId, scope, claimId, sha256, size, mediaType, h⟩
  else .error (.validation "artifact.size_bytes must be an integer between 0 and 67108864")

theorem nodup_keys_items (a : ArtifactReference D) : (Json.keys a.items).Nodup := by
  simp only [items, Json.keys, List.map_cons, List.map_nil]
  decide

theorem mem_keys_items (a : ArtifactReference D) (k : String) :
    k ∈ Json.keys a.items ↔ k ∈ fields := by
  refine List.Perm.mem_iff ?_
  simp only [items, Json.keys, List.map_cons, List.map_nil]
  decide

/-- **An artifact survives its document.** -/
@[simp] theorem fromDict_toDict (a : ArtifactReference D) : fromDict a.toDict = .ok a := by
  have hget := Json.get?_foldr_insertKey a.nodup_keys_items
  simp only [fromDict, bind_eq_ok]
  refine ⟨_, exactly_dict a.nodup_keys_items a.mem_keys_items, a.artifactId, ?_, a.scope, ?_,
    a.claimId, ?_, a.sha256, ?_, a.sizeBytes, ?_, a.mediaType, ?_, dif_pos a.size_le⟩
  all_goals rw [hget]
  · exact identifierField_value _ _
  · exact identifierField_value _ _
  · exact identifierField_value _ _
  · exact hashField_eq_ok.mpr rfl
  · exact integerField_eq_ok.mpr ⟨rfl, Nat.zero_le _, a.size_le⟩
  · exact descriptionField_eq_ok.mpr rfl

/-- A document that is read as an artifact is the artifact's own. -/
theorem eq_toDict_of_fromDict {value : Json} {a : ArtifactReference D} (hvalue : WellKeyed value)
    (h : fromDict value = .ok a) : value = a.toDict := by
  simp only [fromDict, bind_eq_ok, exactly_eq_ok, identifierField_eq_ok, hashField_eq_ok,
    integerField_eq_ok, descriptionField_eq_ok] at h
  obtain ⟨data, ⟨rfl, hkeys⟩, artifactId, hid, scope, hscope, claimId, hclaim, h⟩ := h
  obtain ⟨sha256, hsha, size, ⟨hsize, -, hle⟩, mediaType, hmedia, h⟩ := h
  rw [dif_pos hle, Except.ok.injEq] at h
  subst h
  refine Json.obj_eq_dict (Json.wellKeyed_obj.mp hvalue).1 (nodup_keys_items _)
    (fun k hk => (mem_keys_items _ k).mpr ((hkeys k).mp hk)) ?_
  simp [items, hid, hscope, hclaim, hsha, hsize, hmedia]

end ArtifactReference

/-! ## Transitions -/

/-- A field that only some actions take: read for these, and absent for the others. -/
def takenField {α : Type} (taken : Bool) (value : Option Json) (read : Option Json → Result α)
    (message : String) : Result { field : Option α // field.isSome = taken } :=
  match taken with
  | true => do
    let a ← read value
    .ok ⟨some a, rfl⟩
  | false =>
    match value with
    | none | some .null => .ok ⟨none, rfl⟩
    | some _ => .error (.validation message)

/-- The document of such a field. -/
def takenJson {α : Type} (text : α → String) : Option α → Json
  | none => .null
  | some a => .str (text a)

/-- A field that is present in the document reads back, where its text does. -/
theorem takenField_eq_ok {α : Type} {taken : Bool} {v : Json} {read : Option Json → Result α}
    {message : String} {text : α → String} (hread : ∀ w a, read w = .ok a ↔ w = some (.str (text a)))
    {field : { field : Option α // field.isSome = taken }} :
    takenField taken (some v) read message = .ok field ↔ v = takenJson text field.1 := by
  obtain ⟨field, hfield⟩ := field
  unfold takenField
  cases taken with
  | true =>
    obtain ⟨a, rfl⟩ := Option.isSome_iff_exists.mp hfield
    simp only [bind_eq_ok, hread, Except.ok.injEq, Subtype.mk.injEq, Option.some.injEq, takenJson]
    constructor
    · rintro ⟨b, hv, rfl⟩
      exact hv
    · intro hv
      exact ⟨a, hv, rfl⟩
  | false =>
    cases field with
    | some a => cases hfield
    | none => cases v <;> simp [takenJson]

namespace WorkflowAction

/-- `BIND_EVIDENCE` and `BIND_ARTIFACT`. -/
def binds (a : WorkflowAction) : Bool := a = bindEvidence || a = bindArtifact

/-- `REJECT` and `REVOKE`. -/
def closes (a : WorkflowAction) : Bool := a = reject || a = revoke

end WorkflowAction

/-- `WorkflowTransition`: one intent. Its optional fields are present exactly for the actions that
take them. -/
structure WorkflowTransition (D : Type) where
  transitionId : Identifier
  action : WorkflowAction
  actorId : Identifier
  scope : Identifier
  claimId : Identifier
  expectedRevision : ℕ
  statement : Option (Description 8192)
  referenceId : Option Identifier
  referenceDigest : Option D
  reason : Option (Description 8192)
  revision_le : expectedRevision ≤ maxWorkflowRecords
  statement_taken : statement.isSome = decide (action = .create)
  reference_taken : referenceId.isSome = action.binds ∧ referenceDigest.isSome = action.binds
  reason_taken : reason.isSome = action.closes
  deriving DecidableEq

namespace WorkflowTransition

def fields : List String :=
  ["action", "actor_id", "claim_id", "expected_revision", "reason", "reference_digest",
    "reference_id", "scope", "statement", "transition_id"]

def items (t : WorkflowTransition D) : List (String × Json) :=
  [("transition_id", .str t.transitionId.value), ("action", .str t.action.value),
    ("actor_id", .str t.actorId.value), ("scope", .str t.scope.value),
    ("claim_id", .str t.claimId.value), ("expected_revision", .int t.expectedRevision),
    ("statement", takenJson Description.value t.statement),
    ("reference_id", takenJson Identifier.value t.referenceId),
    ("reference_digest", takenJson hex t.referenceDigest),
    ("reason", takenJson Description.value t.reason)]

/-- `to_dict`. -/
def toDict (t : WorkflowTransition D) : Json := Json.dict t.items

/-- `from_dict` and the constructor. -/
def fromDict (value : Json) : Result (WorkflowTransition D) := do
  let data ← exactly value fields "transition"
  let action ← enumString WorkflowAction.members (Json.get? data "action") "transition.action"
  let transitionId ← identifierField (Json.get? data "transition_id") "transition.transition_id"
  let actorId ← identifierField (Json.get? data "actor_id") "transition.actor_id"
  let scope ← identifierField (Json.get? data "scope") "transition.scope"
  let claimId ← identifierField (Json.get? data "claim_id") "transition.claim_id"
  let revision ← integerField (Json.get? data "expected_revision") "transition.expected_revision"
    maxWorkflowRecords 0
  let statement ← takenField (decide (action = .create)) (Json.get? data "statement")
    (descriptionField · "transition.statement" 8192) "only create accepts a statement"
  let referenceId ← takenField action.binds (Json.get? data "reference_id")
    (identifierField · "transition.reference_id") "only bind actions accept a reference"
  let referenceDigest ← takenField action.binds (Json.get? data "reference_digest")
    (hashField · "transition.reference_digest") "only bind actions accept a reference"
  let reason ← takenField action.closes (Json.get? data "reason")
    (descriptionField · "transition.reason" 8192) "only reject/revoke accept a reason"
  if h : revision ≤ maxWorkflowRecords then
    .ok ⟨transitionId, action, actorId, scope, claimId, revision, statement.1, referenceId.1,
      referenceDigest.1, reason.1, h, statement.2, ⟨referenceId.2, referenceDigest.2⟩, reason.2⟩
  else .error (.validation "transition.expected_revision must be an integer between 0 and 10000")

theorem nodup_keys_items (t : WorkflowTransition D) : (Json.keys t.items).Nodup := by
  simp only [items, Json.keys, List.map_cons, List.map_nil]
  decide

theorem mem_keys_items (t : WorkflowTransition D) (k : String) :
    k ∈ Json.keys t.items ↔ k ∈ fields := by
  refine List.Perm.mem_iff ?_
  simp only [items, Json.keys, List.map_cons, List.map_nil]
  decide

theorem statement_read {path : String} (w : Option Json) (d : Description 8192) :
    descriptionField w path 8192 = .ok d ↔ w = some (.str d.value) := descriptionField_eq_ok

theorem reference_read {path : String} (w : Option Json) (i : Identifier) :
    identifierField w path = .ok i ↔ w = some (.str i.value) := identifierField_eq_ok

theorem digest_read {path : String} (w : Option Json) (d : D) :
    hashField w path = .ok d ↔ w = some (.str (hex d)) := hashField_eq_ok

/-- **A transition survives its document.** -/
@[simp] theorem fromDict_toDict (t : WorkflowTransition D) : fromDict t.toDict = .ok t := by
  have hget := Json.get?_foldr_insertKey t.nodup_keys_items
  simp only [fromDict, bind_eq_ok]
  refine ⟨_, exactly_dict t.nodup_keys_items t.mem_keys_items, t.action, ?_, t.transitionId, ?_,
    t.actorId, ?_, t.scope, ?_, t.claimId, ?_, t.expectedRevision, ?_,
    ⟨t.statement, t.statement_taken⟩, ?_, ⟨t.referenceId, t.reference_taken.1⟩, ?_,
    ⟨t.referenceDigest, t.reference_taken.2⟩, ?_, ⟨t.reason, t.reason_taken⟩, ?_,
    dif_pos t.revision_le⟩
  all_goals rw [hget]
  · exact WorkflowAction.enumTexts.eq_ok.mpr rfl
  · exact identifierField_value _ _
  · exact identifierField_value _ _
  · exact identifierField_value _ _
  · exact identifierField_value _ _
  · exact integerField_eq_ok.mpr ⟨rfl, Nat.zero_le _, t.revision_le⟩
  · exact (takenField_eq_ok statement_read).mpr rfl
  · exact (takenField_eq_ok reference_read).mpr rfl
  · exact (takenField_eq_ok digest_read).mpr rfl
  · exact (takenField_eq_ok statement_read).mpr rfl

/-- A document that is read as a transition is the transition's own. -/
theorem eq_toDict_of_fromDict {value : Json} {t : WorkflowTransition D} (hvalue : WellKeyed value)
    (h : fromDict value = .ok t) : value = t.toDict := by
  simp only [fromDict, bind_eq_ok, exactly_eq_ok, identifierField_eq_ok, integerField_eq_ok,
    WorkflowAction.enumTexts.eq_ok] at h
  obtain ⟨data, ⟨rfl, hkeys⟩, action, haction, transitionId, hid, actorId, hactor, h⟩ := h
  obtain ⟨scope, hscope, claimId, hclaim, revision, ⟨hrevision, -, hle⟩, statement,
    hstatement, h⟩ := h
  obtain ⟨referenceId, hreference, referenceDigest, hdigest, reason, hreason, h⟩ := h
  have hpresent : ∀ k ∈ fields, ∃ v, Json.get? data k = some v := fun k hk =>
    Option.isSome_iff_exists.mp (Json.mem_keys_iff.mp ((hkeys k).mpr hk))
  obtain ⟨v, hv⟩ := hpresent "statement" (by decide)
  obtain ⟨w, hw⟩ := hpresent "reference_id" (by decide)
  obtain ⟨x, hx⟩ := hpresent "reference_digest" (by decide)
  obtain ⟨y, hy⟩ := hpresent "reason" (by decide)
  rw [hv, takenField_eq_ok statement_read] at hstatement
  rw [hw, takenField_eq_ok reference_read] at hreference
  rw [hx, takenField_eq_ok digest_read] at hdigest
  rw [hy, takenField_eq_ok statement_read] at hreason
  rw [dif_pos hle, Except.ok.injEq] at h
  subst h
  refine Json.obj_eq_dict (Json.wellKeyed_obj.mp hvalue).1 (nodup_keys_items _)
    (fun k hk => (mem_keys_items _ k).mpr ((hkeys k).mp hk)) ?_
  simp [items, haction, hid, hactor, hscope, hclaim, hrevision, hv, hw, hx, hy, hstatement,
    hreference, hdigest, hreason]

end WorkflowTransition

theorem readable_takenJson {hooks : Json.Hooks} {α : Type} (text : α → String)
    (field : Option α) : Json.Readable hooks (takenJson text field) := by
  cases field with
  | none => trivial
  | some a => trivial

theorem wellKeyed_takenJson {α : Type} (text : α → String) (field : Option α) :
    WellKeyed (takenJson text field) := by
  cases field <;> simp [takenJson]

/-! ## Sizes -/

theorem Identifier.length_le (i : Identifier) : i.value.toList.length ≤ 128 := by
  have hok := i.ok
  unfold isIdentifier at hok
  split at hok
  · cases hok
  · next c cs hcs =>
    simp only [Bool.and_eq_true, decide_eq_true_eq] at hok
    rw [hcs, List.length_cons]
    omega

theorem Description.length_le {maximum : ℕ} (d : Description maximum) :
    d.value.toList.length ≤ maximum := by
  have hok := d.ok
  simp only [isDescription, Bool.and_eq_true, decide_eq_true_eq] at hok
  exact hok.2

/-- The characters of an identifier are printable, and none is escaped. -/
theorem Identifier.plainText (i : Identifier) : Json.PlainText i.value := by
  have halnum : ∀ c : Char, isAsciiAlnum c = true →
      32 ≤ c.toNat ∧ c.toNat < 128 ∧ c ≠ '"' ∧ c ≠ '\\' := by
    intro c hc
    simp only [isAsciiAlnum, Bool.or_eq_true, Bool.and_eq_true, decide_eq_true_eq] at hc
    have hcode : 48 ≤ c.toNat ∧ c.toNat ≤ 57 ∨ 65 ≤ c.toNat ∧ c.toNat ≤ 90 ∨
        97 ≤ c.toNat ∧ c.toNat ≤ 122 := by
      rcases hc with (⟨hlo, hhi⟩ | ⟨hlo, hhi⟩) | ⟨hlo, hhi⟩
      · exact .inr (.inl ⟨hlo, hhi⟩)
      · exact .inr (.inr ⟨hlo, hhi⟩)
      · exact .inl ⟨hlo, hhi⟩
    refine ⟨by omega, by omega, ?_, ?_⟩
    · rintro rfl
      revert hcode
      decide
    · rintro rfl
      revert hcode
      decide
  have hok := i.ok
  unfold isIdentifier at hok
  intro d hd
  split at hok
  · cases hok
  · next c cs hcs =>
    simp only [Bool.and_eq_true, decide_eq_true_eq, List.all_eq_true] at hok
    rw [hcs, List.mem_cons] at hd
    rcases hd with rfl | hd
    · exact halnum _ hok.1.1
    · have hrest := hok.2 d hd
      rw [Bool.or_eq_true, decide_eq_true_eq] at hrest
      rcases hrest with halpha | hpunctuation
      · exact halnum _ halpha
      · simp only [List.mem_cons, List.not_mem_nil, or_false] at hpunctuation
        rcases hpunctuation with rfl | rfl | rfl | rfl | rfl <;> decide

theorem Identifier.quotedSize_le (i : Identifier) : Json.quotedSize i.value ≤ 130 := by
  have hlength := i.length_le
  rw [Json.quotedSize_plain i.plainText]
  omega

theorem Description.quotedSize_le (d : Description 8192) : Json.quotedSize d.value ≤ 49154 :=
  (Json.quotedSize_le _).trans (by have := d.length_le; omega)

theorem size_takenJson_le {α : Type} {text : α → String} {n : ℕ}
    (h : ∀ a, Json.quotedSize (text a) ≤ n) (hn : 4 ≤ n) (field : Option α) :
    Json.size (takenJson text field) ≤ n := by
  cases field with
  | none => exact (show Json.size .null = 4 by decide).le.trans hn
  | some a => exact h a

end EvidenceBraid
