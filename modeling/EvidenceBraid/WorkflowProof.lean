import EvidenceBraid.WorkflowCodec

/-!
# Approval safety

**Theorem (`replayWorkflow_safe`).** Every approved or revoked claim of a replayed bundle is bound
to evidence and artifacts of its own claim and scope, carries exactly a quorum of distinct human
reviewers of that scope, and none of them authored it; a revoked claim was revoked by an
independent human revoker.

The proof is an induction over the transitions with the invariant `Accountable`: what a claim
records agrees with the transitions so far. Each action has its own lemma.
-/

namespace EvidenceBraid

open Hashing

variable {D : Type}

namespace AuthorityPolicy

/-- A declared human who holds a role at exactly this scope. -/
def Human (authority : AuthorityPolicy) (scope : Identifier) (role : AuthorityRole)
    (actorId : Identifier) : Prop :=
  ∃ actor ∈ authority.actors, actor.actorId = actorId ∧ actor.kind = .human ∧
    actor.permits scope role

end AuthorityPolicy

/-! ## What the constructor of a claim establishes -/

/-- The checks of `ClaimWorkflow`. -/
structure ClaimWorkflow.Checked (c : ClaimWorkflow) : Prop where
  revision : 1 ≤ c.revision ∧ c.revision ≤ maxWorkflowRecords
  authors : 1 ≤ c.authors.length ∧ c.authors.length ≤ 256
  evidence : c.evidenceIds.length ≤ maxWorkflowRecords
  artifacts : c.artifactIds.length ≤ maxWorkflowArtifacts
  approvals : c.approvals.length ≤ 16
  nodup : c.authors.Nodup ∧ c.evidenceIds.Nodup ∧ c.artifactIds.Nodup ∧ c.approvals.Nodup
  independent : ∀ a ∈ c.authors, a ∉ c.approvals

theorem ClaimWorkflow.make_eq_ok {c d : ClaimWorkflow} : make c = .ok d ↔ d = c ∧ c.Checked := by
  simp only [make, checkTuple, bind_eq_ok, valid_eq_ok, exists_unit, Except.ok.injEq,
    Nat.zero_le, true_and]
  constructor
  · rintro ⟨hrevision, ⟨hauthors, hna⟩, ⟨hevidence, hne⟩, ⟨hartifacts, hnr⟩, ⟨happrovals, hnp⟩,
      hindependent, rfl⟩
    exact ⟨rfl, hrevision, hauthors, hevidence, hartifacts, happrovals, ⟨hna, hne, hnr, hnp⟩,
      hindependent⟩
  · rintro ⟨rfl, h⟩
    exact ⟨h.revision, ⟨h.authors, h.nodup.1⟩, ⟨h.evidence, h.nodup.2.1⟩,
      ⟨h.artifacts, h.nodup.2.2.1⟩, ⟨h.approvals, h.nodup.2.2.2⟩, h.independent, rfl⟩

/-! ## The invariant -/

/-- An event that a transition bound to this claim, by its digest. -/
def EvidenceBound (b : BundleFields D) (ts : List (WorkflowTransition D)) (c : ClaimWorkflow)
    (eventId : Identifier) : Prop :=
  ∃ entry ∈ b.evidence.entries, entry.eventId = eventId.value ∧
    entry.claim? = some (.str c.claimId.value) ∧
    entry.workflowScope? = some (.str c.scope.value) ∧
    ∃ t ∈ ts, t.action = .bindEvidence ∧ t.claimId = c.claimId ∧ t.scope = c.scope ∧
      t.referenceId = some eventId ∧ t.referenceDigest = some entry.digest

/-- An artifact that a transition bound to this claim, by its digest. -/
def ArtifactBound (b : BundleFields D) (ts : List (WorkflowTransition D)) (c : ClaimWorkflow)
    (artifactId : Identifier) : Prop :=
  ∃ artifact ∈ b.artifacts, artifact.artifactId = artifactId ∧ artifact.claimId = c.claimId ∧
    artifact.scope = c.scope ∧
    ∃ t ∈ ts, t.action = .bindArtifact ∧ t.claimId = c.claimId ∧ t.scope = c.scope ∧
      t.referenceId = some artifactId ∧ t.referenceDigest = some artifact.sha256

/-- What a claim records agrees with the transitions so far. -/
structure Accountable (b : BundleFields D) (authority : AuthorityPolicy)
    (ts : List (WorkflowTransition D)) (c : ClaimWorkflow) : Prop where
  authors : ∀ t ∈ ts, t.claimId = c.claimId → t.action.role = .author → t.actorId ∈ c.authors
  evidence : ∀ i ∈ c.evidenceIds, EvidenceBound b ts c i
  artifacts : ∀ i ∈ c.artifactIds, ArtifactBound b ts c i
  approvals : ∀ a ∈ c.approvals, authority.Human c.scope .reviewer a
  checked : c.Checked
  draft : c.status = .draft → c.approvals = []
  submitted : c.status = .submitted → c.approvals.length < authority.approvalQuorum
  settled : c.status = .approved ∨ c.status = .revoked →
    c.approvals.length = authority.approvalQuorum
  bound : c.status ≠ .draft → c.evidenceIds ≠ [] ∧ c.artifactIds ≠ []
  revoked : c.status = .revoked → ∃ t ∈ ts, t.action = .revoke ∧ t.claimId = c.claimId ∧
    authority.Human c.scope .revoker t.actorId ∧ t.actorId ∉ c.authors ∧ t.actorId ∉ c.approvals

section Invariant

variable {b : BundleFields D} {authority : AuthorityPolicy} {ts : List (WorkflowTransition D)}
  {command : WorkflowTransition D} {c d : ClaimWorkflow}

theorem EvidenceBound.later {i : Identifier} (h : EvidenceBound b ts c i) :
    EvidenceBound b (ts ++ [command]) c i := by
  obtain ⟨entry, hentry, hid, hclaim, hscope, t, ht, hbinds⟩ := h
  exact ⟨entry, hentry, hid, hclaim, hscope, t, List.mem_append_left _ ht, hbinds⟩

theorem ArtifactBound.later {i : Identifier} (h : ArtifactBound b ts c i) :
    ArtifactBound b (ts ++ [command]) c i := by
  obtain ⟨artifact, hartifact, hid, hclaim, hscope, t, ht, hbinds⟩ := h
  exact ⟨artifact, hartifact, hid, hclaim, hscope, t, List.mem_append_left _ ht, hbinds⟩

/-- A transition of another claim changes nothing. -/
theorem Accountable.other (h : Accountable b authority ts c) (hother : command.claimId ≠ c.claimId) :
    Accountable b authority (ts ++ [command]) c where
  authors := by
    intro t ht hclaim hrole
    rcases List.mem_append.mp ht with ht | ht
    · exact h.authors t ht hclaim hrole
    · rw [List.mem_singleton.mp ht] at hclaim
      exact absurd hclaim hother
  evidence i hi := (h.evidence i hi).later
  artifacts i hi := (h.artifacts i hi).later
  approvals := h.approvals
  checked := h.checked
  draft := h.draft
  submitted := h.submitted
  settled := h.settled
  bound := h.bound
  revoked hrevoked := by
    obtain ⟨t, ht, hrest⟩ := h.revoked hrevoked
    exact ⟨t, List.mem_append_left _ ht, hrest⟩

/-! ## One action -/

/-- What an action on a present claim leaves unchanged. -/
structure SameClaim (c d : ClaimWorkflow) : Prop where
  claimId : d.claimId = c.claimId
  scope : d.scope = c.scope
  revision : d.revision = c.revision

theorem mem_withAuthor {authors : List Identifier} {a x : Identifier} :
    x ∈ ClaimWorkflow.withAuthor authors a ↔ x ∈ authors ∨ x = a := by
  rw [ClaimWorkflow.withAuthor, List.mem_insertionSort]
  simp

/-- `SUBMIT` needs evidence and an artifact. -/
theorem submit_ok (h : c.submit = .ok d) :
    d = { c with status := .submitted } ∧ c.evidenceIds ≠ [] ∧ c.artifactIds ≠ [] := by
  simp only [ClaimWorkflow.submit, bind_eq_ok, valid_eq_ok, exists_unit,
    ClaimWorkflow.make_eq_ok] at h
  exact ⟨h.2.1, h.1⟩

/-- The authors that an author's action leaves. -/
theorem authors_of_author (h : Accountable b authority ts c) {t : WorkflowTransition D}
    (ht : t ∈ ts ++ [command]) (hclaim : t.claimId = c.claimId) (hrole : t.action.role = .author) :
    t.actorId ∈ ClaimWorkflow.withAuthor c.authors command.actorId := by
  rw [mem_withAuthor]
  rcases List.mem_append.mp ht with ht | ht
  · exact .inl (h.authors t ht hclaim hrole)
  · exact .inr (by rw [List.mem_singleton.mp ht])

/-- The authors are those before, when the action is not an author's. -/
theorem authors_of_other (h : Accountable b authority ts c) (hrole : command.action.role ≠ .author)
    {t : WorkflowTransition D} (ht : t ∈ ts ++ [command]) (hclaim : t.claimId = c.claimId)
    (hauthor : t.action.role = .author) : t.actorId ∈ c.authors := by
  rcases List.mem_append.mp ht with ht | ht
  · exact h.authors t ht hclaim hauthor
  · rw [List.mem_singleton.mp ht] at hauthor
    exact absurd hauthor hrole

/-- A reviewer's action keeps a submitted claim accountable. -/
theorem Accountable.review (h : Accountable b authority ts c)
    (hrole : command.action.role = .reviewer)
    (hhuman : authority.Human c.scope .reviewer command.actorId)
    (hok : c.review authority command = .ok d) :
    Accountable b authority (ts ++ [command]) d ∧ SameClaim c d := by
  simp only [ClaimWorkflow.review, bind_eq_ok, valid_eq_ok, exists_unit] at hok
  obtain ⟨hsubmitted, -, hok⟩ := hok
  have hbelow := h.submitted hsubmitted
  have hbound := h.bound (by rw [hsubmitted]; decide)
  have hauthors : ∀ t ∈ ts ++ [command], t.claimId = c.claimId → t.action.role = .author →
      t.actorId ∈ c.authors := fun t ht =>
    authors_of_other h (by rw [hrole]; decide) ht
  by_cases hreject : command.action = .reject
  · rw [if_pos hreject] at hok
    obtain ⟨rfl, hchecked⟩ := ClaimWorkflow.make_eq_ok.mp hok
    refine ⟨?_, rfl, rfl, rfl⟩
    exact {
      authors := hauthors
      evidence := fun i hi => (h.evidence i hi).later
      artifacts := fun i hi => (h.artifacts i hi).later
      approvals := h.approvals
      checked := hchecked
      draft := fun hstatus => by cases hstatus
      submitted := fun hstatus => by cases hstatus
      settled := fun hstatus => by rcases hstatus with hstatus | hstatus <;> cases hstatus
      bound := fun _ => hbound
      revoked := fun hstatus => by cases hstatus }
  · rw [if_neg hreject] at hok
    obtain ⟨rfl, hchecked⟩ := ClaimWorkflow.make_eq_ok.mp hok
    have hlength : (c.approvals ++ [command.actorId]).length = c.approvals.length + 1 := by simp
    refine ⟨?_, rfl, rfl, rfl⟩
    exact {
      authors := hauthors
      evidence := fun i hi => (h.evidence i hi).later
      artifacts := fun i hi => (h.artifacts i hi).later
      approvals := by
        intro a ha
        rcases List.mem_append.mp ha with ha | ha
        · exact h.approvals a ha
        · rw [List.mem_singleton.mp ha]
          exact hhuman
      checked := hchecked
      draft := by
        intro hstatus
        dsimp only at hstatus
        split_ifs at hstatus
      submitted := by
        intro hstatus
        dsimp only at hstatus ⊢
        split_ifs at hstatus with hquorum
        exact not_le.mp hquorum
      settled := by
        intro hstatus
        dsimp only at hstatus ⊢
        split_ifs at hstatus with hquorum
        · omega
        · rcases hstatus with hstatus | hstatus <;> cases hstatus
      bound := fun _ => hbound
      revoked := by
        intro hstatus
        dsimp only at hstatus
        split_ifs at hstatus }

/-- A revoker's action keeps an approved claim accountable. -/
theorem Accountable.revoke (h : Accountable b authority ts c) (hclaim : command.claimId = c.claimId)
    (haction : command.action = .revoke)
    (hhuman : authority.Human c.scope .revoker command.actorId) (hok : c.revoke command = .ok d) :
    Accountable b authority (ts ++ [command]) d ∧ SameClaim c d := by
  simp only [ClaimWorkflow.revoke, bind_eq_ok, valid_eq_ok, exists_unit,
    ClaimWorkflow.make_eq_ok] at hok
  obtain ⟨happroved, ⟨hauthor, happroval⟩, rfl, hchecked⟩ := hok
  refine ⟨?_, rfl, rfl, rfl⟩
  exact {
    authors := fun t ht => authors_of_other h (by rw [haction]; decide) ht
    evidence := fun i hi => (h.evidence i hi).later
    artifacts := fun i hi => (h.artifacts i hi).later
    approvals := h.approvals
    checked := hchecked
    draft := fun hstatus => by cases hstatus
    submitted := fun hstatus => by cases hstatus
    settled := fun _ => h.settled (.inl happroved)
    bound := fun _ => h.bound (by rw [happroved]; decide)
    revoked := fun _ => ⟨command, by simp, haction, hclaim, hhuman, hauthor, happroval⟩ }

/-- Revising a claim keeps it accountable. -/
theorem Accountable.revised (h : Accountable b authority ts c) {n : ℕ}
    (hchecked : ClaimWorkflow.Checked { c with revision := n }) :
    Accountable b authority ts { c with revision := n } where
  authors := h.authors
  evidence := h.evidence
  artifacts := h.artifacts
  approvals := h.approvals
  checked := hchecked
  draft := h.draft
  submitted := h.submitted
  settled := h.settled
  bound := h.bound
  revoked := h.revoked

/-- A new claim is accountable. -/
theorem Accountable.created (hfresh : ∀ t ∈ ts, t.claimId ≠ command.claimId)
    {statement : Description 8192}
    (hc : c = ⟨command.claimId, command.scope, statement, .draft, 1, [command.actorId], [], [], []⟩)
    (hchecked : c.Checked) : Accountable b authority (ts ++ [command]) c := by
  subst hc
  exact {
    authors := by
      intro t ht hclaim _
      rcases List.mem_append.mp ht with ht | ht
      · exact absurd hclaim (hfresh t ht)
      · rw [List.mem_singleton.mp ht]
        exact List.mem_singleton_self _
    evidence := fun i hi => by cases hi
    artifacts := fun i hi => by cases hi
    approvals := fun a ha => by cases ha
    checked := hchecked
    draft := fun _ => rfl
    submitted := fun hstatus => by cases hstatus
    settled := fun hstatus => by rcases hstatus with hstatus | hstatus <;> cases hstatus
    bound := fun hne => absurd rfl hne
    revoked := fun hstatus => by cases hstatus }

/-- Every claim is accountable under its own key, and a missing claim has no transition. -/
structure AllAccountable (b : BundleFields D) (authority : AuthorityPolicy)
    (ts : List (WorkflowTransition D)) (claims : Claims) : Prop where
  key : ∀ {id c}, claims.get? id = some c → c.claimId = id
  present : ∀ {id c}, claims.get? id = some c → Accountable b authority ts c
  missing : ∀ {id}, claims.get? id = none → ∀ t ∈ ts, t.claimId ≠ id
  revisions : (claims.values.map (·.revision)).sum = ts.length

theorem AllAccountable.empty : AllAccountable b authority [] Dict.empty where
  key h := by cases h
  present h := by cases h
  missing _ t ht := by cases ht
  revisions := rfl

/-- Setting an accountable claim after a transition of that claim. -/
theorem AllAccountable.set {claims : Claims} (h : AllAccountable b authority ts claims)
    (hd : Accountable b authority (ts ++ [command]) d) (hclaim : command.claimId = d.claimId)
    (hrevision : d.revision = ((claims.get? d.claimId).map (·.revision)).getD 0 + 1) :
    AllAccountable b authority (ts ++ [command]) (claims.set d.claimId d) where
  key {id c} hget := by
    rw [Dict.get?_set] at hget
    split_ifs at hget with hid
    · rw [← Option.some.inj hget, hid]
    · exact h.key hget
  present {id c} hget := by
    rw [Dict.get?_set] at hget
    split_ifs at hget with hid
    · rw [← Option.some.inj hget]
      exact hd
    · refine (h.present hget).other ?_
      rw [hclaim, h.key hget]
      exact Ne.symm hid
  missing {id} hget t ht := by
    rw [Dict.get?_set] at hget
    split_ifs at hget with hid
    rcases List.mem_append.mp ht with ht | ht
    · exact h.missing hget t ht
    · rw [List.mem_singleton.mp ht, hclaim]
      exact Ne.symm hid
  revisions := by
    have hsum := claims.sum_values_set (·.revision) d.claimId d
    have hbefore := h.revisions
    rw [List.length_append, List.length_singleton]
    omega

/-! ## Authors' actions -/

variable [DecidableEq D]

/-- `BIND_EVIDENCE` adds one bound event. -/
theorem bindEvidence_ok (h : c.bindEvidence b command = .ok d) :
    ∃ i, d = { c with evidenceIds := c.evidenceIds ++ [i] } ∧
      ∃ entry ∈ b.evidence.entries, entry.eventId = i.value ∧
        entry.claim? = some (.str c.claimId.value) ∧
        entry.workflowScope? = some (.str c.scope.value) ∧
        command.referenceId = some i ∧ command.referenceDigest = some entry.digest := by
  simp only [ClaimWorkflow.bindEvidence, bind_eq_ok, orError_eq_ok, require_eq_ok, exists_unit,
    ClaimWorkflow.make_eq_ok] at h
  obtain ⟨i, hreference, entry, hentry, ⟨hdigest, hclaim, hscope, -⟩, rfl, -⟩ := h
  have hid : entry.eventId = i.value := by simpa using List.find?_some hentry
  exact ⟨i, rfl, entry, List.mem_of_find?_eq_some hentry, hid, hclaim, hscope, hreference, hdigest⟩

/-- `BIND_ARTIFACT` adds one bound artifact. -/
theorem bindArtifact_ok (h : c.bindArtifact b command = .ok d) :
    ∃ i, d = { c with artifactIds := c.artifactIds ++ [i] } ∧
      ∃ artifact ∈ b.artifacts, artifact.artifactId = i ∧ artifact.claimId = c.claimId ∧
        artifact.scope = c.scope ∧
        command.referenceId = some i ∧ command.referenceDigest = some artifact.sha256 := by
  simp only [ClaimWorkflow.bindArtifact, bind_eq_ok, orError_eq_ok, require_eq_ok, exists_unit,
    ClaimWorkflow.make_eq_ok] at h
  obtain ⟨i, hreference, artifact, hartifact, ⟨hdigest, hclaim, hscope, -⟩, rfl, -⟩ := h
  have hid : artifact.artifactId = i := by simpa using List.find?_some hartifact
  exact ⟨i, by rw [hid], artifact, List.mem_of_find?_eq_some hartifact, hid, hclaim, hscope,
    hreference, hdigest⟩

/-- An author's action keeps a draft accountable, and the draft or its submission stays one. -/
theorem Accountable.author (h : Accountable b authority ts c) (hclaim : command.claimId = c.claimId)
    (hscope : command.scope = c.scope) (hrole : command.action.role = .author)
    (hcreate : command.action ≠ .create) (hok : c.author b command = .ok d) :
    Accountable b authority (ts ++ [command]) d ∧ SameClaim c d := by
  simp only [ClaimWorkflow.author, bind_eq_ok, valid_eq_ok, exists_unit,
    ClaimWorkflow.make_eq_ok] at hok
  obtain ⟨hdraft, changed, hchanged, rfl, hchecked⟩ := hok
  have hempty := h.draft hdraft
  have hlast : command ∈ ts ++ [command] := by simp
  cases haction : command.action with
  | create => exact absurd haction hcreate
  | approve | reject | revoke => rw [haction] at hrole; cases hrole
  | bindEvidence =>
    rw [ClaimWorkflow.authored, haction] at hchanged
    obtain ⟨i, rfl, entry, hentry, hid, hcl, hsc, hreference, hdigest⟩ := bindEvidence_ok hchanged
    refine ⟨?_, rfl, rfl, rfl⟩
    exact {
      authors := fun t ht => authors_of_author h ht
      evidence := by
        intro j hj
        rcases List.mem_append.mp hj with hj | hj
        · exact (h.evidence j hj).later
        · rw [List.mem_singleton.mp hj]
          exact ⟨entry, hentry, hid, hcl, hsc, command, hlast, haction, hclaim, hscope,
            hreference, hdigest⟩
      artifacts := fun j hj => (h.artifacts j hj).later
      approvals := h.approvals
      checked := hchecked
      draft := h.draft
      submitted := h.submitted
      settled := h.settled
      bound := fun hne => absurd hdraft hne
      revoked := fun hrevoked => by rw [hdraft] at hrevoked; cases hrevoked }
  | bindArtifact =>
    rw [ClaimWorkflow.authored, haction] at hchanged
    obtain ⟨i, rfl, artifact, hartifact, hid, hcl, hsc, hreference, hdigest⟩ :=
      bindArtifact_ok hchanged
    refine ⟨?_, rfl, rfl, rfl⟩
    exact {
      authors := fun t ht => authors_of_author h ht
      evidence := fun j hj => (h.evidence j hj).later
      artifacts := by
        intro j hj
        rcases List.mem_append.mp hj with hj | hj
        · exact (h.artifacts j hj).later
        · rw [List.mem_singleton.mp hj]
          exact ⟨artifact, hartifact, hid, hcl, hsc, command, hlast, haction, hclaim, hscope,
            hreference, hdigest⟩
      approvals := h.approvals
      checked := hchecked
      draft := h.draft
      submitted := h.submitted
      settled := h.settled
      bound := fun hne => absurd hdraft hne
      revoked := fun hrevoked => by rw [hdraft] at hrevoked; cases hrevoked }
  | submit =>
    rw [ClaimWorkflow.authored, haction] at hchanged
    obtain ⟨rfl, hbound⟩ := submit_ok hchanged
    refine ⟨?_, rfl, rfl, rfl⟩
    exact {
      authors := fun t ht => authors_of_author h ht
      evidence := fun j hj => (h.evidence j hj).later
      artifacts := fun j hj => (h.artifacts j hj).later
      approvals := h.approvals
      checked := hchecked
      draft := fun hstatus => by cases hstatus
      submitted := fun _ => by
        simp only [hempty, List.length_nil]
        exact authority.quorum_range.1
      settled := fun hstatus => by rcases hstatus with hstatus | hstatus <;> cases hstatus
      bound := fun _ => hbound
      revoked := fun hstatus => by cases hstatus }

/-! ## Runs of transitions -/

/-- One transition. -/
theorem AllAccountable.step {claims next : Claims} (h : AllAccountable b authority ts claims)
    (hok : replayTransition b authority claims command = .ok next) :
    AllAccountable b authority (ts ++ [command]) next := by
  simp only [replayTransition, bind_eq_ok, orError_eq_ok, require_eq_ok, valid_eq_ok,
    exists_unit] at hok
  obtain ⟨actor, hactor, hpermits, hkind, hok⟩ := hok
  obtain ⟨hmem, hactorId⟩ := AuthorityPolicy.actor?_eq_some hactor
  have hhuman : command.action.role ≠ .author →
      authority.Human command.scope command.action.role command.actorId := fun hrole =>
    ⟨actor, hmem, hactorId, hkind.resolve_left hrole, hpermits⟩
  split_ifs at hok with hcreate
  · simp only [createClaim, bind_eq_ok, valid_eq_ok, orError_eq_ok, exists_unit,
      ClaimWorkflow.make_eq_ok, Except.ok.injEq] at hok
    obtain ⟨⟨hnone, -⟩, statement, -, c, ⟨hc, hchecked⟩, rfl⟩ := hok
    have hid : c.claimId = command.claimId := by rw [hc]
    rw [← hid]
    refine h.set (.created (h.missing hnone) hc (hc ▸ hchecked)) hid.symm ?_
    rw [hid, hnone, hc]
    rfl
  · simp only [updateClaim, bind_eq_ok, orError_eq_ok, valid_eq_ok, exists_unit,
      ClaimWorkflow.make_eq_ok, Except.ok.injEq] at hok
    obtain ⟨c, hget, hscope, -, d, hd, revised, ⟨rfl, hchecked⟩, rfl⟩ := hok
    unfold ClaimWorkflow.perform at hd
    have hc := h.present hget
    have hclaim : command.claimId = c.claimId := (h.key hget).symm
    have hchanged : Accountable b authority (ts ++ [command]) d ∧ SameClaim c d := by
      rw [hscope.symm] at hhuman
      cases hrole : command.action.role with
      | author =>
        rw [hrole] at hd
        exact hc.author hclaim hscope.symm hrole hcreate hd
      | reviewer =>
        rw [hrole] at hd hhuman
        exact hc.review hrole (hhuman (by decide)) hd
      | revoker =>
        rw [hrole] at hd hhuman
        refine hc.revoke hclaim ?_ (hhuman (by decide)) hd
        cases haction : command.action <;> rw [haction] at hrole <;> first | rfl | cases hrole
    obtain ⟨hd, hsame⟩ := hchanged
    refine h.set (hd.revised hchecked) (hclaim.trans hsame.claimId.symm) ?_
    change d.revision + 1 = ((claims.get? d.claimId).map (·.revision)).getD 0 + 1
    rw [hsame.claimId, ← hclaim, hget, hsame.revision]
    rfl

/-- **All claims are accountable after a run.** -/
theorem AllAccountable.run {commands : List (WorkflowTransition D)} :
    ∀ {ts : List (WorkflowTransition D)} {claims final : Claims},
      AllAccountable b authority ts claims →
        replayTransitions b authority claims commands = .ok final →
          AllAccountable b authority (ts ++ commands) final := by
  induction commands with
  | nil =>
    intro ts claims final h hok
    rw [← Except.ok.inj hok, List.append_nil]
    exact h
  | cons command commands ih =>
    intro ts claims final h hok
    simp only [replayTransitions, bind_eq_ok] at hok
    obtain ⟨next, hnext, hrest⟩ := hok
    have hfinal := ih (h.step hnext) hrest
    rwa [List.append_assoc, List.singleton_append] at hfinal

end Invariant

/-! ## The theorem -/

theorem WorkflowState.make_eq_ok {s t : WorkflowState D} (h : make s = .ok t) : t = s := by
  simp only [make, bind_eq_ok, valid_eq_ok, exists_unit, Except.ok.injEq] at h
  exact h.2.2.2.symm

/-- The transitions that author a claim. -/
def WorkflowTransition.Authors (t : WorkflowTransition D) (claimId : Identifier) : Prop :=
  t.claimId = claimId ∧ (t.action = .create ∨ t.action = .bindEvidence ∨ t.action = .bindArtifact ∨
    t.action = .submit)

theorem WorkflowTransition.Authors.role {t : WorkflowTransition D} {claimId : Identifier}
    (h : t.Authors claimId) : t.action.role = .author := by
  obtain ⟨-, h | h | h | h⟩ := h <;> rw [h] <;> rfl

variable [Hashing D] [DecidableEq D]

theorem replayWorkflow_eq_ok {bundle : WorkflowBundle D} {authority : AuthorityPolicy}
    {expectedHead : Option D} {state : WorkflowState D}
    (h : replayWorkflow bundle authority expectedHead = .ok state) :
    authority.digest = bundle.authorityDigest ∧ (∀ head ∈ expectedHead, bundle.headDigest = head) ∧
      replayTransitions bundle.toBundleFields authority Dict.empty bundle.transitions =
        .ok state.claims := by
  simp only [replayWorkflow, bind_eq_ok, valid_eq_ok, exists_unit] at h
  obtain ⟨hauthority, hhead, claims, hclaims, hstate⟩ := h
  rw [WorkflowState.make_eq_ok hstate]
  exact ⟨hauthority, hhead, hclaims⟩

/-- A bundle has its own head. -/
theorem replayWorkflow_own_head {bundle : WorkflowBundle D} {authority : AuthorityPolicy}
    {expectedHead : Option D} {state : WorkflowState D}
    (h : replayWorkflow bundle authority expectedHead = .ok state) :
    replayWorkflow bundle authority (some bundle.headDigest) = .ok state := by
  simp only [replayWorkflow, bind_eq_ok, valid_eq_ok, exists_unit] at h ⊢
  refine ⟨h.1, ?_, h.2.2⟩
  rintro _ ⟨⟩
  rfl

/-- What holds of an approved or revoked claim. -/
structure ApprovalSafe (bundle : BundleFields D) (authority : AuthorityPolicy) (c : ClaimWorkflow) :
    Prop where
  evidence_bound : c.evidenceIds ≠ []
  evidence : ∀ i ∈ c.evidenceIds, EvidenceBound bundle bundle.transitions c i
  artifact_bound : c.artifactIds ≠ []
  artifacts : ∀ i ∈ c.artifactIds, ArtifactBound bundle bundle.transitions c i
  quorum : c.approvals.length = authority.approvalQuorum
  distinct : c.approvals.Nodup
  reviewers : ∀ a ∈ c.approvals, authority.Human c.scope .reviewer a
  independent : ∀ a ∈ c.approvals, ∀ t ∈ bundle.transitions, t.Authors c.claimId → t.actorId ≠ a
  revoked : c.status = .revoked → ∃ r ∈ bundle.transitions, r.action = .revoke ∧
    r.claimId = c.claimId ∧ authority.Human c.scope .revoker r.actorId ∧
    (∀ t ∈ bundle.transitions, t.Authors c.claimId → t.actorId ≠ r.actorId) ∧
    r.actorId ∉ c.approvals

/-- **Approval safety.** Every approved or revoked claim of a replayed bundle. -/
theorem replayWorkflow_safe (bundle : WorkflowBundle D) (authority : AuthorityPolicy)
    (expectedHead : Option D) (state : WorkflowState D)
    (h : replayWorkflow bundle authority expectedHead = .ok state) (id : Identifier)
    (c : ClaimWorkflow) (hget : state.claims.get? id = some c)
    (hstatus : c.status = .approved ∨ c.status = .revoked) :
    c.claimId = id ∧ ApprovalSafe bundle.toBundleFields authority c := by
  obtain ⟨-, -, hclaims⟩ := replayWorkflow_eq_ok h
  have hall := AllAccountable.empty.run hclaims
  have hc := hall.present hget
  rw [List.nil_append] at hc
  have hbound := hc.bound (by rcases hstatus with hs | hs <;> rw [hs] <;> decide)
  refine ⟨hall.key hget, ?_⟩
  exact {
    evidence_bound := hbound.1
    evidence := hc.evidence
    artifact_bound := hbound.2
    artifacts := hc.artifacts
    quorum := hc.settled hstatus
    distinct := hc.checked.nodup.2.2.2
    reviewers := hc.approvals
    independent := by
      intro a ha t ht hauthors heq
      exact hc.checked.independent _ (hc.authors t ht hauthors.1 hauthors.role) (heq ▸ ha)
    revoked := by
      intro hrevoked
      obtain ⟨r, hr, haction, hclaim, hhuman, hauthor, happroval⟩ := hc.revoked hrevoked
      refine ⟨r, hr, haction, hclaim, hhuman, ?_, happroval⟩
      intro t ht hauthors heq
      exact hauthor (heq ▸ hc.authors t ht hauthors.1 hauthors.role) }

/-! ## An approved claim -/

/-- An author's action on a draft is replayed where its parts are accepted. -/
theorem replayTransition_author {D : Type} [DecidableEq D] {b : BundleFields D}
    {authority : AuthorityPolicy} {claims : Claims} {t : WorkflowTransition D}
    {actor : WorkflowActor} {c d e f : ClaimWorkflow} {next : Claims}
    (hactor : authority.actor? t.actorId = some actor) (hpermits : actor.permits t.scope .author)
    (hrole : t.action.role = .author) (hcreate : t.action ≠ .create)
    (hget : claims.get? t.claimId = some c) (hscope : c.scope = t.scope)
    (hrevision : t.expectedRevision = c.revision) (hdraft : c.status = .draft)
    (hauthored : c.authored b t = .ok d)
    (he : ClaimWorkflow.make { d with authors := ClaimWorkflow.withAuthor c.authors t.actorId } =
      .ok e)
    (hf : ClaimWorkflow.make { e with revision := e.revision + 1 } = .ok f)
    (hnext : claims.set e.claimId f = next) : replayTransition b authority claims t = .ok next := by
  simp only [replayTransition, bind_eq_ok, if_neg hcreate]
  refine ⟨actor, orError_eq_ok.mpr hactor, (), require_of (hrole ▸ hpermits), (),
    valid_of (.inl hrole), ?_⟩
  simp only [updateClaim, bind_eq_ok, ClaimWorkflow.perform, hrole, ClaimWorkflow.author]
  exact ⟨c, orError_eq_ok.mpr hget, (), valid_of hscope, (), valid_of hrevision, e,
    ⟨(), valid_of hdraft, d, hauthored, he⟩, f, hf, congrArg _ hnext⟩

/-- An event of claim `c` in scope `s`. -/
def scopedEvent : EvidenceEvent :=
  { sampleEvent with
    attributes := ⟨[("workflow_scope", .str "s")], ⟨by decide, trivial, trivial⟩, _, rfl⟩ }

def sampleAuthority : AuthorityPolicy where
  policyId := ⟨"p", Eq.refl true⟩
  actors :=
    [⟨⟨"a", Eq.refl true⟩, .automation, [⟨⟨"s", Eq.refl true⟩, .author⟩], by decide, by decide⟩,
      ⟨⟨"r", Eq.refl true⟩, .human, [⟨⟨"s", Eq.refl true⟩, .reviewer⟩], by decide, by decide⟩]
  approvalQuorum := 1
  quorum_range := by decide
  actors_length := by decide
  actors_sorted := by decide

section Sample

variable (D : Type) [Hashing D] [DecidableEq D]

def scopedEntry : LedgerEntry D :=
  let genesis : D := sha256 (Utf8.encode "evidence-braid-ledger:v2".toList)
  { sequence := 0, eventId := "e"
    event := ⟨scopedEvent.members, scopedEvent.wellKeyed_toDict, maxAttributeNodes - 11,
      by decide +kernel⟩
    previousDigest := genesis, digest := chainDigest genesis scopedEvent 0 "2.0" }

def sampleContext (records : List (WorkflowReceipt D)) : BundleFields D where
  workflowId := ⟨"w", Eq.refl true⟩
  authorityDigest := sampleAuthority.digest
  evidence := ⟨[scopedEntry D], sha256 (Utf8.encode "evidence-braid-ledger:v2".toList), "2.0"⟩
  artifacts := [⟨⟨"f", Eq.refl true⟩, ⟨"s", Eq.refl true⟩, ⟨"c", Eq.refl true⟩, sha256 [], 0,
    ⟨"text/plain", Eq.refl true⟩, Nat.zero_le _⟩]
  records := records

/-- A transition of claim `c` in scope `s`. -/
def sampleTransition (id actor : Identifier) (action : WorkflowAction) (revision : ℕ)
    (reference : Option (Identifier × D))
    (hrevision : decide (revision ≤ maxWorkflowRecords) = true := by exact Eq.refl true)
    (hreference : (reference.isSome == action.binds) = true := by exact Eq.refl true)
    (hcloses : action.closes = false := by exact Eq.refl false) : WorkflowTransition D where
  transitionId := id
  action := action
  actorId := actor
  scope := ⟨"s", Eq.refl true⟩
  claimId := ⟨"c", Eq.refl true⟩
  expectedRevision := revision
  statement := if action = .create then some ⟨"x", Eq.refl true⟩ else none
  referenceId := reference.map Prod.fst
  referenceDigest := reference.map Prod.snd
  reason := none
  revision_le := of_decide_eq_true hrevision
  statement_taken := by split_ifs with h <;> simp [h]
  reference_taken := by simpa using beq_iff_eq.mp hreference
  reason_taken := by rw [hcloses]; rfl

def sampleTransitions : List (WorkflowTransition D) :=
  [sampleTransition D ⟨"1", Eq.refl true⟩ ⟨"a", Eq.refl true⟩ .create 0 none,
    sampleTransition D ⟨"2", Eq.refl true⟩ ⟨"a", Eq.refl true⟩ .bindEvidence 1
      (some (⟨"e", Eq.refl true⟩, (scopedEntry D).digest)),
    sampleTransition D ⟨"3", Eq.refl true⟩ ⟨"a", Eq.refl true⟩ .bindArtifact 2
      (some (⟨"f", Eq.refl true⟩, sha256 [])),
    sampleTransition D ⟨"4", Eq.refl true⟩ ⟨"a", Eq.refl true⟩ .submit 3 none,
    sampleTransition D ⟨"5", Eq.refl true⟩ ⟨"r", Eq.refl true⟩ .approve 4 none]

def sampleClaim (status : ClaimStatus) (revision : ℕ)
    (evidenceIds artifactIds approvals : List Identifier) : ClaimWorkflow where
  claimId := ⟨"c", Eq.refl true⟩
  scope := ⟨"s", Eq.refl true⟩
  statement := ⟨"x", Eq.refl true⟩
  status := status
  revision := revision
  authors := [⟨"a", Eq.refl true⟩]
  evidenceIds := evidenceIds
  artifactIds := artifactIds
  approvals := approvals


def boundClaim (status : ClaimStatus) (revision : ℕ) (approvals : List Identifier) : Claims :=
  ⟨[(⟨"c", Eq.refl true⟩, sampleClaim status revision [⟨"e", Eq.refl true⟩] [⟨"f", Eq.refl true⟩] approvals)],
    List.nodup_singleton _⟩

/-- The draft is bound to the event. -/
theorem bindEvidence_scopedEntry {b : BundleFields D}
    (hentry : b.entry? ⟨"e", by decide⟩ = some (scopedEntry D)) :
    ClaimWorkflow.bindEvidence b (sampleTransition D ⟨"2", by decide⟩ ⟨"a", by decide⟩ .bindEvidence 1
        (some (⟨"e", by decide⟩, (scopedEntry D).digest))) (sampleClaim .draft 1 [] [] []) =
      .ok (sampleClaim .draft 1 [⟨"e", by decide⟩] [] []) := by
  have hclaim : Json.get? scopedEvent.members "claim" = some (.str "c") := by decide +kernel
  have hscope : Json.get? scopedEvent.members "attributes" =
    some (.obj [("workflow_scope", .str "s")]) := by decide +kernel
  simp only [ClaimWorkflow.bindEvidence, bind_eq_ok]
  refine ⟨_, rfl, scopedEntry D, orError_eq_ok.mpr hentry, (),
    require_of ⟨rfl, hclaim, ?_, List.not_mem_nil⟩, rfl⟩
  rw [LedgerEntry.workflowScope?]
  simp only [scopedEntry, hscope]
  rfl

/-- The draft is bound to the event and to the artifact. -/
theorem replay_sampleTransitions (records : List (WorkflowReceipt D)) :
    replayTransitions (sampleContext D records) sampleAuthority Dict.empty (sampleTransitions D) =
      .ok (boundClaim .approved 5 [⟨"r", by decide⟩]) := by
  have hevidence := bindEvidence_scopedEntry D (b := sampleContext D records) rfl
  have hartifact : ClaimWorkflow.bindArtifact (sampleContext D records)
      (sampleTransition D ⟨"3", by decide⟩ ⟨"a", by decide⟩ .bindArtifact 2
        (some (⟨"f", by decide⟩, sha256 []))) (sampleClaim .draft 2 [⟨"e", by decide⟩] [] []) =
      .ok (sampleClaim .draft 2 [⟨"e", by decide⟩] [⟨"f", by decide⟩] []) := by
    simp only [ClaimWorkflow.bindArtifact, bind_eq_ok]
    exact ⟨_, rfl, _, rfl, (), require_of ⟨rfl, rfl, rfl, List.not_mem_nil⟩, rfl⟩
  simp only [sampleTransitions, replayTransitions, bind_eq_ok]
  refine ⟨_, rfl, ⟨[(⟨"c", by decide⟩, sampleClaim .draft 2 [⟨"e", by decide⟩] [] [])], by decide⟩, ?_,
    boundClaim .draft 3 [], ?_, boundClaim .submitted 4 [], rfl, _, rfl, rfl⟩
  · refine replayTransition_author (c := sampleClaim .draft 1 [] [] []) rfl ?_ rfl (by simp [sampleTransition]) rfl rfl
      rfl rfl hevidence rfl rfl rfl
    exact List.mem_singleton_self _
  · refine replayTransition_author (c := sampleClaim .draft 2 [⟨"e", by decide⟩] [] []) rfl ?_ rfl
      (by simp [sampleTransition]) rfl rfl rfl rfl hartifact rfl rfl rfl
    exact List.mem_singleton_self _

omit [DecidableEq D] in
theorem buildLedger_scopedEvent : buildLedger [scopedEvent] =
    .ok (sampleContext D []).evidence := by
  have hfrozen := FrozenMapping.ofKeyed_members (scopedEntry D).event "ledger.event"
  simp only [buildLedger, bind_eq_ok]
  exact ⟨(), valid_of (by decide), (), valid_of (by decide), _, by
    simp only [List.insertionSort_cons, List.insertionSort_nil, List.orderedInsert_nil, chainEvents,
      bind_eq_ok]
    exact ⟨_, hfrozen, [], rfl, rfl⟩, rfl⟩

theorem verify_sampleContext (records : List (WorkflowReceipt D)) :
    (sampleContext D records).evidence.verify = true :=
  (verify_buildLedger (buildLedger_scopedEvent D) (by simp [EvidenceEvent.decodes])).1

theorem size_evidence_le [WideHex D] (records : List (WorkflowReceipt D)) :
    Json.size (sampleContext D records).evidence.toDict ≤ 12000 := by
  have hsize := entrySize_le (scopedEntry D)
  have hevent : Json.size (.obj (scopedEntry D).event.members) ≤ 500 :=
    (by decide +kernel : Json.size scopedEvent.toDict ≤ 500)
  have hid : Json.quotedSize (scopedEntry D).eventId = 3 :=
    (Json.quotedSize_literal rfl : Json.quotedSize "e" = 3)
  have hseq : Json.size (.int (scopedEntry D).sequence) = 1 := (by decide : Json.size (.int 0) = 1)
  have hkeys : Json.quotedSize "schema_version" = 16 ∧ Json.quotedSize "kind" = 6 ∧
      Json.quotedSize "genesis" = 9 ∧ Json.quotedSize "head_digest" = 13 ∧
      Json.quotedSize "entry_count" = 13 ∧ Json.quotedSize "entries" = 9 ∧
      Json.quotedSize "verified" = 10 ∧ Json.quotedSize "2.0" = 5 ∧
      Json.quotedSize "evidence-braid-ledger" = 23 := by
    and_intros <;> exact Json.quotedSize_literal rfl
  have hnumbers : Json.size (.bool true) = 4 ∧ Json.size (.int (1 : ℕ)) = 1 := by decide
  have hentries := Json.size_arr_le ((sampleContext D records).evidence.entries.map
    LedgerEntry.toDict)
  rw [quotedSize_hex, quotedSize_hex] at hsize
  rw [EvidenceLedger.toDict, Json.size_dict (EvidenceLedger.nodup_keys_items _)
    (by simp [EvidenceLedger.items])]
  simp only [EvidenceLedger.items, verify_sampleContext, List.map_cons, List.map_nil,
    List.sum_cons, List.sum_nil, Json.size_str, quotedSize_hex]
  simp only [sampleContext, List.map_cons, List.map_nil, List.sum_cons, List.sum_nil,
    List.length_cons, List.length_nil, Nat.zero_add] at hentries ⊢
  change entrySize (scopedEntry D) ≤ _ at hsize
  unfold entrySize at hsize
  change Json.size (scopedEntry D).toDict ≤ _ at hsize
  omega

/-- A history of at most a hundred receipts fits into a bundle. -/
theorem valid_sampleContext [WideHex D] {records : List (WorkflowReceipt D)}
    (hlength : records.length ≤ 100)
    (hlinked : LinkedReceipts (sampleContext D []).contextDigest 0
      (sampleContext D []).contextDigest records)
    (hdistinct : (records.map (·.transition.transitionId)).Nodup) :
    (sampleContext D records).Valid where
  verified := verify_sampleContext D records
  artifacts_length := (by decide : 1 ≤ maxWorkflowArtifacts)
  artifacts_sorted := List.pairwise_singleton _ _
  records_length := hlength.trans (by decide)
  linked := hlinked
  distinct := hdistinct
  size_le := by
    change Json.size (sampleContext D records).toDict ≤ _
    rw [BundleFields.size_toDict]
    have hevidence := size_evidence_le D records
    have hartifacts := Json.size_map_le ArtifactReference.size_toDict_le
      (sampleContext D records).artifacts
    have hrecords := Json.size_map_le WorkflowReceipt.size_toDict_le records
    have hone : (sampleContext D records).artifacts.length = 1 := rfl
    have hcount : Json.size (.int records.length) ≤ 3 :=
      Json.size_nat_le (by decide) (by omega)
    have hid : Json.quotedSize (sampleContext D records).workflowId.value = 3 :=
      (Json.quotedSize_literal rfl : Json.quotedSize "w" = 3)
    have hmax : maxWorkflowBytes = 67108864 := rfl
    have hrecords' : (sampleContext D records).records = records := rfl
    rw [hone] at hartifacts
    rw [hrecords']
    omega

/-- The sample history is replayed, with an approved claim. -/
theorem replay_sampleContext [WideHex D] : ∃ bundle : WorkflowBundle D,
    bundle.toBundleFields = sampleContext D bundle.records ∧
      replayWorkflow bundle sampleAuthority none = .ok ⟨bundle.workflowId, bundle.headDigest,
        bundle.records.length, boundClaim .approved 5 [⟨"r", by decide⟩]⟩ := by
  obtain ⟨records, hseal⟩ : ∃ records, sealTransitions (sampleContext D []).contextDigest 0
      (sampleContext D []).contextDigest (sampleTransitions D) = .ok records := ⟨_, rfl⟩
  obtain ⟨htransitions, hlinked⟩ := sealTransitions_eq_ok.mp hseal
  have hlength : records.length = 5 := by
    rw [← List.length_map (·.transition), htransitions]
    rfl
  have hdistinct : (records.map (·.transition.transitionId)).Nodup := by
    have hids : records.map (·.transition.transitionId) =
        (sampleTransitions D).map (·.transitionId) := by
      rw [← htransitions, List.map_map]
      rfl
    rw [hids]
    simp only [sampleTransitions, sampleTransition, List.map_cons, List.map_nil]
    decide
  let bundle : WorkflowBundle D :=
    ⟨sampleContext D records, valid_sampleContext D (by omega) hlinked hdistinct⟩
  have hreplay : replayTransitions bundle.toBundleFields sampleAuthority Dict.empty
      bundle.transitions = .ok (boundClaim .approved 5 [⟨"r", by decide⟩]) := by
    rw [show bundle.transitions = sampleTransitions D from htransitions]
    exact replay_sampleTransitions D records
  have hcount : bundle.records.length = 5 := hlength
  refine ⟨bundle, rfl, ?_⟩
  simp only [replayWorkflow, bind_eq_ok]
  refine ⟨(), valid_of rfl, (), valid_of (by simp), _, hreplay, ?_⟩
  simp only [WorkflowState.make, hcount, bind_eq_ok]
  exact ⟨(), rfl, (), rfl, (), rfl, trivial⟩

theorem replay_sample [WideHex D] : ∃ (bundle : WorkflowBundle D) (state : WorkflowState D),
    replayWorkflow bundle sampleAuthority none = .ok state ∧
      state.claims = boundClaim .approved 5 [⟨"r", by decide⟩] := by
  obtain ⟨bundle, -, hreplay⟩ := replay_sampleContext D
  exact ⟨bundle, _, hreplay, rfl⟩

end Sample

theorem replayWorkflow_safe_approved : ∃ (bundle : WorkflowBundle HexDigest) (c : ClaimWorkflow),
    c.status = .approved ∧ ApprovalSafe bundle.toBundleFields sampleAuthority c := by
  obtain ⟨bundle, state, hreplay, hclaims⟩ := replay_sample HexDigest
  have hget : state.claims.get? ⟨"c", by decide⟩ = some (sampleClaim .approved 5 [⟨"e", by decide⟩]
      [⟨"f", by decide⟩] [⟨"r", by decide⟩]) := by
    rw [hclaims]
    rfl
  exact ⟨bundle, _, rfl, (replayWorkflow_safe bundle sampleAuthority none state hreplay
    ⟨"c", by decide⟩ _ hget (.inl rfl)).2⟩

end EvidenceBraid
