import EvidenceBraid.WorkflowPrefix
import EvidenceBraid.Library.Fault

/-!
# Replay never fails in its own constructors

The loop of `replay_workflow` builds a claim with the constructor of `ClaimWorkflow`, which checks every
field again, and ends in the constructor of `WorkflowState`. Here both constructors read unchecked text
and numbers, and the replay marks which of its failures are theirs.

**Theorem (`replay_never_fails_constructing`).** The marked replay is the replay, with every failure a
transition check.

**Idea.** Each bound comes from the run so far. Authors are actors of the policy, an approval is added
below the quorum only, a claim has fewer events than revisions, its artifacts are the bundle's, and the
revisions of all claims count the transitions. The identity of an event is free text in the ledger; the
one stored is equal to the reference that the transition made to it, which is an identifier.
-/

namespace EvidenceBraid

open Fault Hashing

/-! ## The constructors -/

/-- The fields of a claim before they are checked. -/
structure RawClaim where
  claimId : String
  scope : String
  statement : String
  status : ClaimStatus
  revision : ℤ
  authors : List String
  evidenceIds : List String
  artifactIds : List String
  approvals : List String

namespace RawClaim

/-- One round of the loop over the tuples. -/
def tuple (name : String) (values : List String) (maximum minimum : ℕ) : Result (List Identifier) := do
  valid (minimum ≤ values.length ∧ values.length ≤ maximum)
    ("claim." ++ name ++ " must be a bounded immutable tuple")
  let items ← values.mapM fun item => identifier item ("claim." ++ name)
  valid values.Nodup ("claim." ++ name ++ " must contain unique identities")
  .ok items

/-- `ClaimWorkflow.__post_init__`. -/
def construct (raw : RawClaim) : Result ClaimWorkflow := do
  let claimId ← identifier raw.claimId "claim.claim_id"
  let scope ← identifier raw.scope "claim.scope"
  let statement ← descriptionField (some (.str raw.statement)) "claim.statement" 8192
  let revision ← integerField (some (.int raw.revision)) "claim.revision" maxWorkflowRecords 1
  let authors ← tuple "authors" raw.authors 256 1
  let evidenceIds ← tuple "evidence_ids" raw.evidenceIds maxWorkflowRecords 0
  let artifactIds ← tuple "artifact_ids" raw.artifactIds maxWorkflowArtifacts 0
  let approvals ← tuple "approvals" raw.approvals 16 0
  valid (∀ a ∈ raw.authors, a ∉ raw.approvals) "claim authors and approvers must be independent"
  .ok ⟨claimId, scope, statement, raw.status, revision, authors, evidenceIds, artifactIds, approvals⟩

end RawClaim

/-- The text of a list of identities. -/
def texts (ids : List Identifier) : List String := ids.map (·.value)

/-- The fields that `replace` gives the constructor again. -/
def ClaimWorkflow.raw (c : ClaimWorkflow) : RawClaim where
  claimId := c.claimId.value
  scope := c.scope.value
  statement := c.statement.value
  status := c.status
  revision := c.revision
  authors := texts c.authors
  evidenceIds := texts c.evidenceIds
  artifactIds := texts c.artifactIds
  approvals := texts c.approvals

/-- The fields of a state before they are checked. -/
structure RawState where
  workflowId : String
  headDigest : String
  recordCount : ℤ
  claims : Claims

/-- `WorkflowState.__post_init__`. -/
def RawState.construct {D : Type} [Hashing D] (raw : RawState) : Result (WorkflowState D) := do
  let workflowId ← identifier raw.workflowId "state.workflow_id"
  let headDigest ← hashField (some (.str raw.headDigest)) "state.head_digest"
  let recordCount ← integerField (some (.int raw.recordCount)) "state.record_count" maxWorkflowRecords 0
  valid (raw.claims.items.length ≤ maxWorkflowRecords ∧ ∀ kv ∈ raw.claims.items, kv.1 = kv.2.claimId)
    "state.claims must map matching IDs to ClaimWorkflow instances"
  valid ((raw.claims.values.map (·.revision)).sum = recordCount)
    "state claim revisions must account for every workflow record"
  .ok ⟨workflowId, headDigest, recordCount, raw.claims⟩

theorem identifier_value (i : Identifier) (path : String) : identifier i.value path = .ok i :=
  identifierField_value i path

theorem mapM_identifier_texts (ids : List Identifier) (path : String) :
    (texts ids).mapM (fun item => identifier item path) = .ok ids := by
  induction ids with
  | nil => rfl
  | cons i ids ih =>
    rw [texts, List.map_cons, List.mapM_cons, identifier_value]
    rw [texts] at ih
    rw [ok_bind, ih]
    rfl

theorem nodup_texts {ids : List Identifier} : (texts ids).Nodup ↔ ids.Nodup :=
  List.nodup_map_iff fun _ _ => Identifier.ext

theorem mem_texts {ids : List Identifier} {i : Identifier} : i.value ∈ texts ids ↔ i ∈ ids :=
  List.mem_map_of_injective fun _ _ => Identifier.ext

/-- A tuple of identifiers within its bounds is accepted. -/
theorem tuple_texts {name : String} {ids : List Identifier} {maximum minimum : ℕ}
    (hlength : minimum ≤ ids.length ∧ ids.length ≤ maximum) (hnodup : ids.Nodup) :
    RawClaim.tuple name (texts ids) maximum minimum = .ok ids := by
  simp only [RawClaim.tuple, bind_eq_ok, valid_eq_ok, exists_unit]
  refine ⟨?_, ids, mapM_identifier_texts ids _, nodup_texts.mpr hnodup, rfl⟩
  rw [texts, List.length_map]
  exact hlength

/-- **A claim within its bounds is constructed.** -/
theorem construct_raw {c : ClaimWorkflow} (h : c.Checked) : c.raw.construct = .ok c := by
  have hindependent : ∀ a ∈ texts c.authors, a ∉ texts c.approvals := by
    intro a ha
    obtain ⟨i, hi, rfl⟩ := List.mem_map.mp ha
    rw [mem_texts]
    exact h.independent i hi
  simp only [RawClaim.construct, ClaimWorkflow.raw, bind_eq_ok, descriptionField_eq_ok,
    integerField_eq_ok]
  exact ⟨_, identifier_value _ _, _, identifier_value _ _, _, rfl, _, ⟨rfl, h.revision⟩, _,
    tuple_texts h.authors h.nodup.1, _, tuple_texts ⟨Nat.zero_le _, h.evidence⟩ h.nodup.2.1, _,
    tuple_texts ⟨Nat.zero_le _, h.artifacts⟩ h.nodup.2.2.1, _,
    tuple_texts ⟨Nat.zero_le _, h.approvals⟩ h.nodup.2.2.2, (), valid_of hindependent, rfl⟩

/-- A claim within its bounds is what either constructor makes of it. -/
theorem blameless_make {raw : RawClaim} {c : ClaimWorkflow} (hraw : raw = c.raw) (h : c.Checked) :
    Blameless (owning raw.construct) c.make :=
  .owning (hraw ▸ construct_raw h) (ClaimWorkflow.make_eq_ok.mpr ⟨rfl, h⟩)

/-! ## The marked replay -/

namespace Marked

variable {D : Type} [DecidableEq D]

/-- A claim that the replay builds. -/
def built (raw : RawClaim) : Except (Fault PyError) ClaimWorkflow := owning raw.construct

/-- `BIND_EVIDENCE`, which stores the identity that the ledger has for the event. -/
def bindEvidence (b : BundleFields D) (command : WorkflowTransition D) (claim : ClaimWorkflow) :
    Except (Fault PyError) ClaimWorkflow := do
  let mismatch := PyError.validation "evidence reference is missing, mismatched, or duplicated"
  let reference ← checking (orError command.referenceId mismatch)
  let entry ← checking (orError (b.entry? reference) mismatch)
  checking (require (command.referenceDigest = some entry.digest ∧
    entry.claim? = some (.str claim.claimId.value) ∧
    entry.workflowScope? = some (.str claim.scope.value) ∧ reference ∉ claim.evidenceIds) mismatch)
  built { claim.raw with evidenceIds := claim.raw.evidenceIds ++ [entry.eventId] }

/-- `BIND_ARTIFACT`. -/
def bindArtifact (b : BundleFields D) (command : WorkflowTransition D) (claim : ClaimWorkflow) :
    Except (Fault PyError) ClaimWorkflow := do
  let mismatch := PyError.validation "artifact reference is missing, mismatched, or duplicated"
  let reference ← checking (orError command.referenceId mismatch)
  let artifact ← checking (orError (b.artifact? reference) mismatch)
  checking (require (command.referenceDigest = some artifact.sha256 ∧ artifact.claimId = claim.claimId ∧
    artifact.scope = claim.scope ∧ artifact.artifactId ∉ claim.artifactIds) mismatch)
  built { claim.raw with artifactIds := claim.raw.artifactIds ++ [artifact.artifactId.value] }

/-- `SUBMIT`. -/
def submit (claim : ClaimWorkflow) : Except (Fault PyError) ClaimWorkflow := do
  checking (valid (claim.evidenceIds ≠ [] ∧ claim.artifactIds ≠ [])
    "submit requires bound evidence and an artifact")
  built { claim.raw with status := .submitted }

/-- What an author's action does to a draft, before the author is recorded. -/
def authored (b : BundleFields D) (command : WorkflowTransition D) (claim : ClaimWorkflow) :
    Except (Fault PyError) ClaimWorkflow :=
  match command.action with
  | .bindEvidence => bindEvidence b command claim
  | .bindArtifact => bindArtifact b command claim
  | _ => submit claim

/-- The author's actions on a draft. -/
def author (b : BundleFields D) (command : WorkflowTransition D) (claim : ClaimWorkflow) :
    Except (Fault PyError) ClaimWorkflow := do
  checking (valid (claim.status = .draft) "only draft claims can be authored or submitted")
  let changed ← authored b command claim
  built { changed.raw with authors := texts (ClaimWorkflow.withAuthor claim.authors command.actorId) }

/-- The reviewer's actions on a submitted claim. -/
def review (authority : AuthorityPolicy) (command : WorkflowTransition D) (claim : ClaimWorkflow) :
    Except (Fault PyError) ClaimWorkflow := do
  checking (valid (claim.status = .submitted) "only submitted claims can be reviewed")
  checking (valid (command.actorId ∉ claim.authors ∧ command.actorId ∉ claim.approvals)
    "reviewer must be independent and may vote only once")
  if command.action = .reject then built { claim.raw with status := .rejected }
  else
    let approvals := claim.approvals ++ [command.actorId]
    let status :=
      if authority.approvalQuorum ≤ approvals.length then ClaimStatus.approved else .submitted
    built { claim.raw with approvals := texts approvals, status }

/-- The revoker's action on an approved claim. -/
def revoke (command : WorkflowTransition D) (claim : ClaimWorkflow) :
    Except (Fault PyError) ClaimWorkflow := do
  checking (valid (claim.status = .approved) "only approved claims can be revoked")
  checking (valid (command.actorId ∉ claim.authors ∧ command.actorId ∉ claim.approvals)
    "revoker must be independent of authors and approvers")
  built { claim.raw with status := .revoked }

/-- The action of a transition on a present claim. -/
def perform (b : BundleFields D) (authority : AuthorityPolicy) (command : WorkflowTransition D)
    (claim : ClaimWorkflow) : Except (Fault PyError) ClaimWorkflow :=
  match command.action.role with
  | .author => author b command claim
  | .reviewer => review authority command claim
  | .revoker => revoke command claim

/-- `CREATE`. -/
def createClaim (command : WorkflowTransition D) (claims : Claims) : Except (Fault PyError) Claims := do
  checking (valid (claims.get? command.claimId = none ∧ command.expectedRevision = 0)
    "create requires a new claim and revision zero")
  let statement ← checking (orError command.statement (.validation "claim.statement must be a string"))
  let claim ← built
    { claimId := command.claimId.value, scope := command.scope.value, statement := statement.value,
      status := .draft, revision := 1, authors := [command.actorId.value], evidenceIds := [],
      artifactIds := [], approvals := [] }
  .ok (claims.set command.claimId claim)

/-- Any other action, on a present claim at the expected revision. -/
def updateClaim (b : BundleFields D) (authority : AuthorityPolicy) (command : WorkflowTransition D)
    (claims : Claims) : Except (Fault PyError) Claims := do
  let claim ← checking (orError (claims.get? command.claimId)
    (.validation "transition claim is missing or belongs to another scope"))
  checking (valid (claim.scope = command.scope)
    "transition claim is missing or belongs to another scope")
  checking (valid (command.expectedRevision = claim.revision)
    "transition expected_revision is stale or out of order")
  let changed ← perform b authority command claim
  let revised ← built { changed.raw with revision := changed.raw.revision + 1 }
  .ok (claims.set changed.claimId revised)

/-- One round of the loop of `replay_workflow`. -/
def replayTransition (b : BundleFields D) (authority : AuthorityPolicy) (claims : Claims)
    (command : WorkflowTransition D) : Except (Fault PyError) Claims := do
  let lacking := PyError.validation "transition actor lacks the exact scoped role"
  let actor ← checking (orError (authority.actor? command.actorId) lacking)
  checking (require (actor.permits command.scope command.action.role) lacking)
  checking (valid (command.action.role = .author ∨ actor.kind = .human)
    "review and revocation require a declared human actor")
  if command.action = .create then createClaim command claims
  else updateClaim b authority command claims

/-- The loop of `replay_workflow`. -/
def replayTransitions (b : BundleFields D) (authority : AuthorityPolicy) :
    Claims → List (WorkflowTransition D) → Except (Fault PyError) Claims
  | claims, [] => .ok claims
  | claims, command :: commands => do
    let next ← replayTransition b authority claims command
    replayTransitions b authority next commands

/-- `replay_workflow`. -/
def replayWorkflow [Hashing D] (bundle : WorkflowBundle D) (authority : AuthorityPolicy)
    (expectedHead : Option D) : Except (Fault PyError) (WorkflowState D) := do
  checking (valid (authority.digest = bundle.authorityDigest)
    "workflow authority does not match the trusted policy")
  checking (valid (∀ head ∈ expectedHead, bundle.headDigest = head)
    "workflow does not match the expected head")
  let claims ← replayTransitions bundle.toBundleFields authority Dict.empty bundle.transitions
  owning (RawState.construct ⟨bundle.workflowId.value, hex bundle.headDigest, bundle.records.length,
    claims⟩)

end Marked

/-! ## Room for the next transition -/

/-- A claim's authors are actors of the policy, and it has fewer events than revisions. -/
structure Roomy (authority : AuthorityPolicy) (c : ClaimWorkflow) : Prop where
  authors : ∀ a ∈ c.authors, a ∈ authority.actors.map (·.actorId)
  evidence : c.evidenceIds.length < c.revision

section Step

variable {D : Type} [DecidableEq D] {b : BundleFields D} {authority : AuthorityPolicy}
  {ts : List (WorkflowTransition D)} {command : WorkflowTransition D} {c changed : ClaimWorkflow}

omit [DecidableEq D] in
theorem nodup_withAuthor (authors : List Identifier) (a : Identifier) :
    (ClaimWorkflow.withAuthor authors a).Nodup :=
  (List.perm_insertionSort _ _).nodup_iff.mpr (List.nodup_dedup _)

/-- The authors of a claim and one more actor are no more than the policy has. -/
theorem length_withAuthor_le (hr : Roomy authority c) {a : Identifier}
    (ha : a ∈ authority.actors.map (·.actorId)) :
    1 ≤ (ClaimWorkflow.withAuthor c.authors a).length ∧
      (ClaimWorkflow.withAuthor c.authors a).length ≤ 256 := by
  have hsub : ClaimWorkflow.withAuthor c.authors a ⊆ authority.actors.map (·.actorId) := by
    intro x hx
    obtain hx | rfl := mem_withAuthor.mp hx
    · exact hr.authors x hx
    · exact ha
  have hle := ((nodup_withAuthor c.authors a).subperm hsub).length_le
  rw [List.length_map] at hle
  exact ⟨List.length_pos_of_mem (mem_withAuthor.mpr (.inr rfl)), hle.trans authority.actors_length.2⟩

/-- What an author's action on a draft leaves for the second constructor. -/
theorem authored_ok (h : c.authored b command = .ok changed) :
    changed.Checked ∧ changed.approvals = c.approvals ∧ changed.authors = c.authors ∧
      changed.revision = c.revision ∧ changed.evidenceIds.length ≤ c.evidenceIds.length + 1 := by
  unfold ClaimWorkflow.authored at h
  split at h
  · simp only [ClaimWorkflow.bindEvidence, bind_eq_ok, ClaimWorkflow.make_eq_ok] at h
    obtain ⟨i, -, entry, -, -, -, rfl, hchecked⟩ := h
    exact ⟨hchecked, rfl, rfl, rfl, by simp⟩
  · simp only [ClaimWorkflow.bindArtifact, bind_eq_ok, ClaimWorkflow.make_eq_ok] at h
    obtain ⟨i, -, artifact, -, -, -, rfl, hchecked⟩ := h
    exact ⟨hchecked, rfl, rfl, rfl, Nat.le_succ _⟩
  · simp only [ClaimWorkflow.submit, bind_eq_ok, ClaimWorkflow.make_eq_ok] at h
    obtain ⟨-, -, rfl, hchecked⟩ := h
    exact ⟨hchecked, rfl, rfl, rfl, Nat.le_succ _⟩

/-- An action adds its own actor to the authors at most, and one event at most. -/
theorem perform_ok (h : c.perform b authority command = .ok changed) :
    changed.Checked ∧ (∀ a ∈ changed.authors, a ∈ c.authors ∨ a = command.actorId) ∧
      changed.revision = c.revision ∧ changed.evidenceIds.length ≤ c.evidenceIds.length + 1 := by
  unfold ClaimWorkflow.perform at h
  split at h
  · simp only [ClaimWorkflow.author, bind_eq_ok, ClaimWorkflow.make_eq_ok] at h
    obtain ⟨-, -, d, hd, rfl, hchecked⟩ := h
    obtain ⟨-, -, -, hrevision, hevidence⟩ := authored_ok hd
    exact ⟨hchecked, fun a ha => mem_withAuthor.mp ha, hrevision, hevidence⟩
  · simp only [ClaimWorkflow.review, bind_eq_ok] at h
    obtain ⟨-, -, -, -, h⟩ := h
    split at h
    · obtain ⟨rfl, hchecked⟩ := ClaimWorkflow.make_eq_ok.mp h
      exact ⟨hchecked, fun a ha => .inl ha, rfl, Nat.le_succ _⟩
    · obtain ⟨rfl, hchecked⟩ := ClaimWorkflow.make_eq_ok.mp h
      exact ⟨hchecked, fun a ha => .inl ha, rfl, Nat.le_succ _⟩
  · simp only [ClaimWorkflow.revoke, bind_eq_ok, ClaimWorkflow.make_eq_ok] at h
    obtain ⟨-, -, -, -, rfl, hchecked⟩ := h
    exact ⟨hchecked, fun a ha => .inl ha, rfl, Nat.le_succ _⟩

omit [DecidableEq D] in
theorem nodup_concat {ids : List Identifier} {i : Identifier} (h : ids.Nodup) (hi : i ∉ ids) :
    (ids ++ [i]).Nodup := by
  rw [← List.concat_eq_append]
  exact h.concat hi

theorem mem_actors {a : Identifier} {actor : WorkflowActor} (h : authority.actor? a = some actor) :
    a ∈ authority.actors.map (·.actorId) := by
  obtain ⟨hmem, hid⟩ := AuthorityPolicy.actor?_eq_some h
  exact List.mem_map.mpr ⟨actor, hmem, hid⟩

/-- **One transition** leaves room in the claim it moves. -/
theorem Moves.roomy {old : Option ClaimWorkflow} (hold : ∀ c ∈ old, Roomy authority c)
    (h : Moves b authority command old c) : Roomy authority c := by
  cases h with
  | created hpermitted =>
    obtain ⟨actor, hactor, -⟩ := hpermitted
    refine ⟨?_, Nat.one_pos⟩
    intro a ha
    rw [List.mem_singleton.mp ha]
    exact mem_actors hactor
  | @revised c changed hpermitted _ _ _ hperform =>
    obtain ⟨actor, hactor, -⟩ := hpermitted
    obtain ⟨-, hauthors, hrevision, hevidence⟩ := perform_ok hperform
    have hroomy := hold c rfl
    constructor
    · intro a ha
      obtain ha | rfl := hauthors a ha
      · exact hroomy.authors a ha
      · exact mem_actors hactor
    · have hless := hroomy.evidence
      show changed.evidenceIds.length < changed.revision + 1
      omega

/-! ## The constructors of one transition -/

variable (h : Accountable b authority ts c) (hr : Roomy authority c)

include h hr

theorem blameless_bindEvidence :
    Blameless (Marked.bindEvidence b command c) (c.bindEvidence b command) := by
  unfold Marked.bindEvidence ClaimWorkflow.bindEvidence
  refine .bind (.checking _) fun reference _ => .bind (.checking _) fun entry hentry =>
    .bind (.checking _) fun _ hrequire => ?_
  have hid : entry.eventId = reference.value := by
    simpa using List.find?_some (orError_eq_ok.mp hentry)
  have hnew : reference ∉ c.evidenceIds := (require_eq_ok.mp hrequire).2.2.2
  refine blameless_make ?_ ?_
  · simp [ClaimWorkflow.raw, texts, hid]
  · have hless := hr.evidence
    have hrevision := h.checked.revision.2
    have hlength : (c.evidenceIds ++ [reference]).length ≤ maxWorkflowRecords := by
      rw [List.length_append, List.length_singleton]
      omega
    have hnodup : (c.evidenceIds ++ [reference]).Nodup := nodup_concat h.checked.nodup.2.1 hnew
    exact { h.checked with
      evidence := hlength
      nodup := ⟨h.checked.nodup.1, hnodup, h.checked.nodup.2.2⟩ }

omit hr in
theorem blameless_bindArtifact (hb : b.artifacts.length ≤ maxWorkflowArtifacts) :
    Blameless (Marked.bindArtifact b command c) (c.bindArtifact b command) := by
  unfold Marked.bindArtifact ClaimWorkflow.bindArtifact
  refine .bind (.checking _) fun reference _ => .bind (.checking _) fun artifact hartifact =>
    .bind (.checking _) fun _ hrequire => ?_
  have hmem := List.mem_of_find?_eq_some (orError_eq_ok.mp hartifact)
  have hnew : artifact.artifactId ∉ c.artifactIds := (require_eq_ok.mp hrequire).2.2.2
  have hnodup := nodup_concat h.checked.nodup.2.2.1 hnew
  -- The artifacts of a claim are the bundle's.
  have hsub : c.artifactIds ++ [artifact.artifactId] ⊆ b.artifacts.map (·.artifactId) := by
    intro i hi
    obtain hi | hi := List.mem_append.mp hi
    · obtain ⟨a, ha, hid, -⟩ := h.artifacts i hi
      exact List.mem_map.mpr ⟨a, ha, hid⟩
    · rw [List.mem_singleton.mp hi]
      exact List.mem_map_of_mem hmem
  have hlength := (hnodup.subperm hsub).length_le
  rw [List.length_map] at hlength
  refine blameless_make ?_ ?_
  · simp [ClaimWorkflow.raw, texts]
  · exact { h.checked with
      artifacts := hlength.trans hb
      nodup := ⟨h.checked.nodup.1, h.checked.nodup.2.1, hnodup, h.checked.nodup.2.2.2⟩ }

omit [DecidableEq D] hr in
theorem blameless_submit : Blameless (Marked.submit c) c.submit := by
  unfold Marked.submit ClaimWorkflow.submit
  refine .bind (.checking _) fun _ _ => blameless_make rfl ?_
  exact { h.checked with }

theorem blameless_author (hb : b.artifacts.length ≤ maxWorkflowArtifacts)
    (hactor : command.actorId ∈ authority.actors.map (·.actorId)) :
    Blameless (Marked.author b command c) (c.author b command) := by
  unfold Marked.author ClaimWorkflow.author
  refine .bind (.checking _) fun _ hdraft => .bind ?_ fun changed hchanged => blameless_make rfl ?_
  · unfold Marked.authored ClaimWorkflow.authored
    cases command.action with
    | bindEvidence => exact blameless_bindEvidence h hr
    | bindArtifact => exact blameless_bindArtifact h hb
    | _ => exact blameless_submit h
  · obtain ⟨hchecked, happrovals, -⟩ := authored_ok hchanged
    -- A draft has no approvals.
    have hnone : changed.approvals = [] := happrovals.trans (h.draft (valid_eq_ok.mp hdraft))
    exact { hchecked with
      authors := length_withAuthor_le hr hactor
      nodup := ⟨nodup_withAuthor _ _, hchecked.nodup.2⟩
      independent := fun a _ => by rw [hnone]; exact List.not_mem_nil }

omit [DecidableEq D] hr in
theorem blameless_review : Blameless (Marked.review authority command c) (c.review authority command) := by
  unfold Marked.review ClaimWorkflow.review
  refine .bind (.checking _) fun _ hstatus => .bind (.checking _) fun _ hindependent => ?_
  obtain ⟨hauthor, hvoted⟩ := valid_eq_ok.mp hindependent
  by_cases hreject : command.action = .reject
  · rw [if_pos hreject, if_pos hreject]
    exact blameless_make rfl { h.checked with }
  · rw [if_neg hreject, if_neg hreject]
    have hless := h.submitted (valid_eq_ok.mp hstatus)
    have hquorum := authority.quorum_range.2
    have hlength : (c.approvals ++ [command.actorId]).length ≤ 16 := by
      rw [List.length_append, List.length_singleton]
      omega
    refine blameless_make rfl ?_
    exact { h.checked with
      approvals := hlength
      nodup := ⟨h.checked.nodup.1, h.checked.nodup.2.1, h.checked.nodup.2.2.1,
        nodup_concat h.checked.nodup.2.2.2 hvoted⟩
      independent := by
        intro a ha happroved
        obtain happroved | happroved := List.mem_append.mp happroved
        · exact h.checked.independent a ha happroved
        · exact hauthor (List.mem_singleton.mp happroved ▸ ha) }

omit [DecidableEq D] hr in
theorem blameless_revoke : Blameless (Marked.revoke command c) (c.revoke command) := by
  unfold Marked.revoke ClaimWorkflow.revoke
  refine .bind (.checking _) fun _ _ => .bind (.checking _) fun _ _ => blameless_make rfl ?_
  exact { h.checked with }

theorem blameless_perform (hb : b.artifacts.length ≤ maxWorkflowArtifacts)
    (hactor : command.actorId ∈ authority.actors.map (·.actorId)) :
    Blameless (Marked.perform b authority command c) (c.perform b authority command) := by
  unfold Marked.perform ClaimWorkflow.perform
  cases command.action.role with
  | author => exact blameless_author h hr hb hactor
  | reviewer => exact blameless_review h
  | revoker => exact blameless_revoke h

end Step

/-! ## Runs -/

section Run

variable {D : Type} [DecidableEq D] {b : BundleFields D} {authority : AuthorityPolicy}
  {ts : List (WorkflowTransition D)} {command : WorkflowTransition D} {claims next : Claims}

/-- What a run so far establishes about its claims. -/
structure Ready (b : BundleFields D) (authority : AuthorityPolicy) (ts : List (WorkflowTransition D))
    (claims : Claims) : Prop where
  accountable : AllAccountable b authority ts claims
  roomy : ∀ {id c}, claims.get? id = some c → Roomy authority c

omit [DecidableEq D] in
theorem Ready.empty : Ready b authority [] Dict.empty where
  accountable := .empty
  roomy h := by cases h

theorem Ready.step (h : Ready b authority ts claims)
    (hok : EvidenceBraid.replayTransition b authority claims command = .ok next) :
    Ready b authority (ts ++ [command]) next where
  accountable := h.accountable.step hok
  roomy {id c} hget := by
    obtain ⟨d, hmoves, rfl⟩ := replayTransition_eq_ok.mp hok
    rw [Dict.get?_set] at hget
    split_ifs at hget with hid
    · rw [← Option.some.inj hget]
      exact hmoves.roomy fun c hc => h.roomy hc
    · exact h.roomy hget

omit [DecidableEq D] in
/-- No claim has more revisions than there are transitions. -/
theorem Ready.revision_le (h : Ready b authority ts claims) {id : Identifier} {c : ClaimWorkflow}
    (hget : claims.get? id = some c) : c.revision ≤ ts.length := by
  rw [← h.accountable.revisions]
  refine List.single_le_sum (fun _ _ => Nat.zero_le _) _ ?_
  exact List.mem_map_of_mem (List.mem_map_of_mem (claims.mem_items_iff.mpr hget))

/-- **One transition fails at its checks only.** -/
theorem Ready.blameless_step (h : Ready b authority ts claims)
    (hb : b.artifacts.length ≤ maxWorkflowArtifacts) (hroom : ts.length < maxWorkflowRecords) :
    Blameless (Marked.replayTransition b authority claims command)
      (EvidenceBraid.replayTransition b authority claims command) := by
  unfold Marked.replayTransition EvidenceBraid.replayTransition
  refine .bind (.checking _) fun actor hactor => .bind (.checking _) fun _ _ =>
    .bind (.checking _) fun _ _ => ?_
  have hmem := mem_actors (orError_eq_ok.mp hactor)
  by_cases hcreate : command.action = .create
  · rw [if_pos hcreate, if_pos hcreate]
    unfold Marked.createClaim EvidenceBraid.createClaim
    refine .bind (.checking _) fun _ _ => .bind (.checking _) fun statement _ => .bind ?_ fun _ _ => .ok _
    refine blameless_make rfl ?_
    exact {
      revision := ⟨le_rfl, (by decide : 1 ≤ maxWorkflowRecords)⟩
      authors := ⟨le_rfl, (by decide : 1 ≤ 256)⟩
      evidence := Nat.zero_le _
      artifacts := Nat.zero_le _
      approvals := Nat.zero_le _
      nodup := ⟨List.nodup_singleton _, .nil, .nil, .nil⟩
      independent := fun _ _ => List.not_mem_nil }
  · rw [if_neg hcreate, if_neg hcreate]
    unfold Marked.updateClaim EvidenceBraid.updateClaim
    refine .bind (.checking _) fun c hget => .bind (.checking _) fun _ _ => .bind (.checking _) fun _ _ =>
      .bind ?_ fun changed hchanged => .bind ?_ fun _ _ => .ok _
    · have hc := orError_eq_ok.mp hget
      exact blameless_perform (h.accountable.present hc) (h.roomy hc) hb hmem
    · have hrevision := h.revision_le (orError_eq_ok.mp hget)
      obtain ⟨hchecked, -, hsame, -⟩ := perform_ok hchanged
      refine blameless_make rfl ?_
      exact { hchecked with
        revision := ⟨Nat.le_add_left _ _, by
          show changed.revision + 1 ≤ maxWorkflowRecords
          omega⟩ }

/-- **A run fails at its checks only.** -/
theorem Ready.blameless_run {commands : List (WorkflowTransition D)}
    (hb : b.artifacts.length ≤ maxWorkflowArtifacts) :
    ∀ {ts : List (WorkflowTransition D)} {claims : Claims}, Ready b authority ts claims →
      ts.length + commands.length ≤ maxWorkflowRecords →
        Blameless (Marked.replayTransitions b authority claims commands)
          (EvidenceBraid.replayTransitions b authority claims commands) := by
  induction commands with
  | nil =>
    intro ts claims _ _
    exact .ok claims
  | cons command commands ih =>
    intro ts claims h hroom
    rw [List.length_cons] at hroom
    refine .bind (h.blameless_step hb (by omega)) fun next hnext => ih (h.step hnext) ?_
    rw [List.length_append, List.length_singleton]
    omega

theorem Ready.run {commands : List (WorkflowTransition D)} :
    ∀ {ts : List (WorkflowTransition D)} {claims final : Claims}, Ready b authority ts claims →
      EvidenceBraid.replayTransitions b authority claims commands = .ok final →
        Ready b authority (ts ++ commands) final := by
  induction commands with
  | nil =>
    intro ts claims final h hok
    rw [← Except.ok.inj hok, List.append_nil]
    exact h
  | cons command commands ih =>
    intro ts claims final h hok
    simp only [EvidenceBraid.replayTransitions, bind_eq_ok] at hok
    obtain ⟨next, hnext, hrest⟩ := hok
    have hfinal := ih (h.step hnext) hrest
    rwa [List.append_assoc, List.singleton_append] at hfinal

end Run

/-! ## The theorem -/

section

variable {D : Type} [Hashing D] [DecidableEq D]

/-- The constructor of the final state accepts what a run ends with. -/
theorem blameless_state {bundle : WorkflowBundle D} {authority : AuthorityPolicy} {claims : Claims}
    (h : Ready bundle.toBundleFields authority bundle.transitions claims) :
    Blameless (owning (RawState.construct (D := D) ⟨bundle.workflowId.value, hex bundle.headDigest,
        bundle.records.length, claims⟩))
      (WorkflowState.make ⟨bundle.workflowId, bundle.headDigest, bundle.records.length, claims⟩) := by
  have hlength : bundle.transitions.length = bundle.records.length := List.length_map _
  have hbound := bundle.ok.records_length
  have hitems := (length_items_le h.accountable).trans (hlength.le.trans hbound)
  have hkeys : ∀ kv ∈ claims.items, kv.1 = kv.2.claimId := fun kv hkv =>
    (h.accountable.key (claims.mem_items_iff.mp hkv)).symm
  have hsum := h.accountable.revisions.trans hlength
  refine .owning (a := ⟨bundle.workflowId, bundle.headDigest, bundle.records.length, claims⟩) ?_ ?_
  · simp only [RawState.construct, bind_eq_ok, hashField_eq_ok, integerField_eq_ok]
    exact ⟨_, identifier_value _ _, _, rfl, _, ⟨rfl, Nat.zero_le _, hbound⟩, (), valid_of ⟨hitems, hkeys⟩,
      (), valid_of hsum, rfl⟩
  · simp only [WorkflowState.make, bind_eq_ok]
    exact ⟨(), valid_of hbound, (), valid_of ⟨hitems, hkeys⟩, (), valid_of hsum, trivial⟩

/-- **Replay never fails in its own constructors**: the replay in which they check every field is the
replay, and each of its failures is a transition check. After every prefix of the transitions the claims
are within the constructors' bounds, and their revisions count the transitions. -/
theorem replay_never_fails_constructing (bundle : WorkflowBundle D) (authority : AuthorityPolicy)
    (expectedHead : Option D) :
    Blameless (Marked.replayWorkflow bundle authority expectedHead)
        (replayWorkflow bundle authority expectedHead) ∧
      (∀ e, Marked.replayWorkflow bundle authority expectedHead ≠ .error (.own e)) ∧
      ∀ n claims, Marked.replayTransitions bundle.toBundleFields authority Dict.empty
          (bundle.transitions.take n) = .ok claims →
        (claims.values.map (·.revision)).sum = (bundle.transitions.take n).length ∧
          ∀ id c, claims.get? id = some c → c.claimId = id ∧ c.Checked ∧ Roomy authority c := by
  have hb := bundle.ok.artifacts_length
  have hlength : bundle.transitions.length = bundle.records.length := List.length_map _
  have hbound := bundle.ok.records_length
  have hreplay : Blameless (Marked.replayWorkflow bundle authority expectedHead)
      (replayWorkflow bundle authority expectedHead) := by
    unfold Marked.replayWorkflow replayWorkflow
    refine .bind (.checking _) fun _ _ => .bind (.checking _) fun _ _ => .bind ?_ fun claims hclaims => ?_
    · refine Ready.empty.blameless_run hb ?_
      rw [List.length_nil, Nat.zero_add, hlength]
      exact hbound
    · have hready := Ready.empty.run hclaims
      rw [List.nil_append] at hready
      exact blameless_state hready
  refine ⟨hreplay, hreplay.ne_own, ?_⟩
  intro n claims hrun
  have hearly : Blameless (Marked.replayTransitions bundle.toBundleFields authority Dict.empty
      (bundle.transitions.take n)) (replayTransitions bundle.toBundleFields authority Dict.empty
        (bundle.transitions.take n)) := by
    refine Ready.empty.blameless_run hb ?_
    have htake := List.length_take_le' n bundle.transitions
    rw [List.length_nil, Nat.zero_add]
    omega
  have hready := Ready.empty.run (hearly.ok_iff.mp hrun)
  rw [List.nil_append] at hready
  refine ⟨hready.accountable.revisions, ?_⟩
  intro id c hget
  exact ⟨hready.accountable.key hget, (hready.accountable.present hget).checked, hready.roomy hget⟩

end

end EvidenceBraid
