import EvidenceBraid.Library.Keyed
import EvidenceBraid.WorkflowProof

/-!
# Temporal safety of a workflow

`Moves` says what one transition makes of its own claim. Replay is then a keyed machine, with one
state for each claim (`claimMachine`), and a statement about every pair of prefixes of a history
follows from one about a single transition.

**Theorem (`replayWorkflow_temporal`).** In every accepted history a submitted claim keeps its
statement, scope, authors, evidence and artifacts; a rejected or revoked claim never changes; each
transition raises its own claim's revision by one, leaves all other claims alone, and changes the
status only along the claim's life cycle.
-/

namespace EvidenceBraid

open Hashing

variable {D : Type} [DecidableEq D]

/-! ## One transition -/

/-- The actor of a transition is authorized for it. -/
def Permitted (authority : AuthorityPolicy) (command : WorkflowTransition D) : Prop :=
  ∃ actor, authority.actor? command.actorId = some actor ∧
    actor.permits command.scope command.action.role ∧
    (command.action.role = .author ∨ actor.kind = .human)

/-- The draft that `CREATE` starts. -/
def draftClaim (command : WorkflowTransition D) (statement : Description 8192) : ClaimWorkflow where
  claimId := command.claimId
  scope := command.scope
  statement := statement
  status := .draft
  revision := 1
  authors := [command.actorId]
  evidenceIds := []
  artifactIds := []
  approvals := []

/-- What an accepted transition makes of its own claim. -/
inductive Moves (b : BundleFields D) (authority : AuthorityPolicy) (command : WorkflowTransition D) :
    Option ClaimWorkflow → ClaimWorkflow → Prop
  | created {statement : Description 8192} (hpermitted : Permitted authority command)
      (haction : command.action = .create) (hrevision : command.expectedRevision = 0)
      (hstatement : command.statement = some statement)
      (hchecked : (draftClaim command statement).Checked) :
      Moves b authority command none (draftClaim command statement)
  | revised {c changed : ClaimWorkflow} (hpermitted : Permitted authority command)
      (haction : command.action ≠ .create) (hscope : c.scope = command.scope)
      (hrevision : command.expectedRevision = c.revision)
      (hperform : c.perform b authority command = .ok changed)
      (hchecked : ClaimWorkflow.Checked { changed with revision := changed.revision + 1 }) :
      Moves b authority command (some c) { changed with revision := changed.revision + 1 }

section Step

variable {b : BundleFields D} {authority : AuthorityPolicy} {command : WorkflowTransition D}
  {claims next : Claims} {c d : ClaimWorkflow}

/-- **One round of the loop** moves the claim of its transition. -/
theorem replayTransition_eq_ok : replayTransition b authority claims command = .ok next ↔
    ∃ d, Moves b authority command (claims.get? command.claimId) d ∧
      claims.set d.claimId d = next := by
  simp only [replayTransition, bind_eq_ok, orError_eq_ok, require_eq_ok, valid_eq_ok, exists_unit]
  constructor
  · rintro ⟨actor, hactor, hpermits, hkind, hok⟩
    have hpermitted : Permitted authority command := ⟨actor, hactor, hpermits, hkind⟩
    split_ifs at hok with hcreate
    · simp only [createClaim, bind_eq_ok, valid_eq_ok, orError_eq_ok, exists_unit,
        ClaimWorkflow.make_eq_ok, Except.ok.injEq] at hok
      obtain ⟨⟨hnone, hrevision⟩, statement, hstatement, c, ⟨rfl, hchecked⟩, rfl⟩ := hok
      rw [hnone]
      exact ⟨draftClaim command statement, .created hpermitted hcreate hrevision hstatement hchecked,
        rfl⟩
    · simp only [updateClaim, bind_eq_ok, orError_eq_ok, valid_eq_ok, exists_unit,
        ClaimWorkflow.make_eq_ok, Except.ok.injEq] at hok
      obtain ⟨c, hget, hscope, hrevision, changed, hperform, _, ⟨rfl, hchecked⟩, rfl⟩ := hok
      rw [hget]
      exact ⟨_, .revised hpermitted hcreate hscope hrevision hperform hchecked, rfl⟩
  · rintro ⟨d, hmoves, rfl⟩
    generalize hget : claims.get? command.claimId = c? at hmoves
    cases hmoves with
    | created hpermitted haction hrevision hstatement hchecked =>
      obtain ⟨actor, hactor, hpermits, hkind⟩ := hpermitted
      refine ⟨actor, hactor, hpermits, hkind, ?_⟩
      rw [if_pos haction]
      simp only [createClaim, bind_eq_ok, valid_eq_ok, orError_eq_ok, exists_unit,
        ClaimWorkflow.make_eq_ok, Except.ok.injEq]
      exact ⟨⟨hget, hrevision⟩, _, hstatement, _, ⟨rfl, hchecked⟩, rfl⟩
    | revised hpermitted haction hscope hrevision hperform hchecked =>
      obtain ⟨actor, hactor, hpermits, hkind⟩ := hpermitted
      refine ⟨actor, hactor, hpermits, hkind, ?_⟩
      rw [if_neg haction]
      simp only [updateClaim, bind_eq_ok, orError_eq_ok, valid_eq_ok, exists_unit,
        ClaimWorkflow.make_eq_ok, Except.ok.injEq]
      exact ⟨_, hget, hscope, hrevision, _, hperform, _, ⟨rfl, hchecked⟩, rfl⟩

/-- What a claim keeps once it is submitted. -/
structure Frozen (c d : ClaimWorkflow) : Prop where
  statement : d.statement = c.statement
  scope : d.scope = c.scope
  authors : d.authors = c.authors
  evidenceIds : d.evidenceIds = c.evidenceIds
  artifactIds : d.artifactIds = c.artifactIds

/-- The life cycle of a claim. -/
inductive StatusChange : Option ClaimStatus → ClaimStatus → Prop
  | created : StatusChange none .draft
  | submitted : StatusChange (some .draft) .submitted
  | approved : StatusChange (some .submitted) .approved
  | rejected : StatusChange (some .submitted) .rejected
  | revoked : StatusChange (some .approved) .revoked

/-- The status of no further change. -/
def ClaimWorkflow.Closed (c : ClaimWorkflow) : Prop := c.status = .rejected ∨ c.status = .revoked

/-- What an action does to the claim that it finds. -/
structure Performed (c d : ClaimWorkflow) : Prop where
  same : SameClaim c d
  opened : ¬ c.Closed
  frozen : c.status ≠ .draft → Frozen c d
  status : d.status = c.status ∨ StatusChange (some c.status) d.status

theorem author_performed (h : c.author b command = .ok d) : Performed c d := by
  simp only [ClaimWorkflow.author, bind_eq_ok, valid_eq_ok, exists_unit,
    ClaimWorkflow.make_eq_ok] at h
  obtain ⟨hdraft, changed, hchanged, rfl, -⟩ := h
  have hopened : ¬ c.Closed := by
    rw [ClaimWorkflow.Closed, hdraft]
    decide
  have hfrozen (d : ClaimWorkflow) : c.status ≠ .draft → Frozen c d := fun hne => absurd hdraft hne
  cases haction : command.action <;> rw [ClaimWorkflow.authored, haction] at hchanged
  case bindEvidence =>
    obtain ⟨i, rfl, -⟩ := bindEvidence_ok hchanged
    exact ⟨⟨rfl, rfl, rfl⟩, hopened, hfrozen _, .inl rfl⟩
  case bindArtifact =>
    obtain ⟨i, rfl, -⟩ := bindArtifact_ok hchanged
    exact ⟨⟨rfl, rfl, rfl⟩, hopened, hfrozen _, .inl rfl⟩
  all_goals
    obtain ⟨rfl, -⟩ := submit_ok hchanged
    refine ⟨⟨rfl, rfl, rfl⟩, hopened, hfrozen _, .inr ?_⟩
    rw [hdraft]
    exact .submitted

omit [DecidableEq D] in
theorem review_performed (h : c.review authority command = .ok d) : Performed c d := by
  simp only [ClaimWorkflow.review, bind_eq_ok, valid_eq_ok, exists_unit] at h
  obtain ⟨hsubmitted, -, h⟩ := h
  have hopened : ¬ c.Closed := by
    rw [ClaimWorkflow.Closed, hsubmitted]
    decide
  split_ifs at h with hreject hquorum
  all_goals
    obtain ⟨rfl, -⟩ := ClaimWorkflow.make_eq_ok.mp h
    refine ⟨⟨rfl, rfl, rfl⟩, hopened, fun _ => ⟨rfl, rfl, rfl, rfl, rfl⟩, ?_⟩
    rw [hsubmitted]
  · exact .inr .rejected
  · exact .inr .approved
  · exact .inl rfl

omit [DecidableEq D] in
theorem revoke_performed (h : c.revoke command = .ok d) : Performed c d := by
  simp only [ClaimWorkflow.revoke, bind_eq_ok, valid_eq_ok, exists_unit,
    ClaimWorkflow.make_eq_ok] at h
  obtain ⟨happroved, -, rfl, -⟩ := h
  have hopened : ¬ c.Closed := by
    rw [ClaimWorkflow.Closed, happroved]
    decide
  refine ⟨⟨rfl, rfl, rfl⟩, hopened, fun _ => ⟨rfl, rfl, rfl, rfl, rfl⟩, .inr ?_⟩
  rw [happroved]
  exact .revoked

/-- Every action keeps the claim's identity, leaves what is frozen alone and follows the life
cycle. -/
theorem perform_performed (h : c.perform b authority command = .ok d) : Performed c d := by
  unfold ClaimWorkflow.perform at h
  cases hrole : command.action.role <;> rw [hrole] at h
  · exact author_performed h
  · exact review_performed h
  · exact revoke_performed h

/-- What a transition does to its own claim. -/
structure ClaimStep (c? : Option ClaimWorkflow) (d : ClaimWorkflow) : Prop where
  revision : d.revision = (c?.map (·.revision)).getD 0 + 1
  status : c?.map (·.status) = some d.status ∨ StatusChange (c?.map (·.status)) d.status
  opened : ∀ c ∈ c?, ¬ c.Closed
  frozen : ∀ c ∈ c?, c.status ≠ .draft → Frozen c d

/-- **The step lemma.** -/
theorem Moves.claimStep {c? : Option ClaimWorkflow} (h : Moves b authority command c? d) :
    ClaimStep c? d := by
  cases h with
  | created =>
    exact ⟨rfl, .inr .created, nofun, nofun⟩
  | @revised c changed _ _ _ _ hperform =>
    have hp := perform_performed hperform
    refine ⟨congrArg (· + 1) hp.same.revision, ?_, ?_, ?_⟩
    · exact hp.status.imp (fun heq => congrArg some heq.symm) id
    · intro c' hc
      cases hc
      exact hp.opened
    · intro c' hc hne
      cases hc
      have hf := hp.frozen hne
      exact ⟨hf.statement, hf.scope, hf.authors, hf.evidenceIds, hf.artifactIds⟩

/-- A claim that a transition moves is the one that it addresses. -/
theorem Moves.claimId {c? : Option ClaimWorkflow} (h : Moves b authority command c? d)
    (hkey : ∀ c ∈ c?, c.claimId = command.claimId) : d.claimId = command.claimId := by
  cases h with
  | created => rfl
  | revised _ _ _ _ hperform => exact (perform_performed hperform).same.claimId.trans (hkey _ rfl)

end Step

/-! ## Replay as a keyed machine -/

/-- The dict with one claim, or with none. -/
def holding (id : Identifier) : Option ClaimWorkflow → Claims
  | none => Dict.empty
  | some c => Dict.empty.set id c

/-- A transition on the dict of its own claim. -/
def claimMachine (b : BundleFields D) (authority : AuthorityPolicy) :
    Keyed Identifier (WorkflowTransition D) ClaimWorkflow PyError where
  key := (·.claimId)
  advance command claim? := do
    let next ← replayTransition b authority (holding command.claimId claim?) command
    orError (next.get? command.claimId)
      (.validation "transition claim is missing or belongs to another scope")

/-- Every claim is stored under its own identity. -/
def OwnKeys (claims : Claims) : Prop := ∀ id c, claims.get? id = some c → c.claimId = id

theorem OwnKeys.empty : OwnKeys Dict.empty := nofun

section Machine

variable {b : BundleFields D} {authority : AuthorityPolicy} {command : WorkflowTransition D}
  {claims next : Claims}

omit [DecidableEq D] in
@[simp] theorem get?_holding (id : Identifier) (c? : Option ClaimWorkflow) :
    (holding id c?).get? id = c? := by
  cases c? with
  | none => rfl
  | some c => exact Dict.get?_set_self _ _ _

theorem advance_eq_ok {c? : Option ClaimWorkflow} {d : ClaimWorkflow}
    (hkey : ∀ c ∈ c?, c.claimId = command.claimId) :
    (claimMachine b authority).advance command c? = .ok d ↔ Moves b authority command c? d := by
  simp only [claimMachine, bind_eq_ok, orError_eq_ok, replayTransition_eq_ok, get?_holding]
  constructor
  · rintro ⟨_, ⟨e, hmoves, rfl⟩, hget⟩
    rw [hmoves.claimId hkey, Dict.get?_set_self] at hget
    rwa [← Option.some.inj hget]
  · intro hmoves
    refine ⟨_, ⟨d, hmoves, rfl⟩, ?_⟩
    rw [hmoves.claimId hkey, Dict.get?_set_self]

/-- The loop's round is the machine's step. -/
theorem replayTransition_eq_step (hkeys : OwnKeys claims) :
    replayTransition b authority claims command = .ok next ↔
      (claimMachine b authority).step claims command = .ok next := by
  have hkey : ∀ c ∈ claims.get? command.claimId, c.claimId = command.claimId :=
    fun c hc => hkeys _ _ hc
  rw [replayTransition_eq_ok, Keyed.step_eq_ok]
  change _ ↔ ∃ a, (claimMachine b authority).advance command (claims.get? command.claimId) = .ok a ∧
    claims.set command.claimId a = next
  simp only [advance_eq_ok hkey]
  constructor
  · rintro ⟨d, hmoves, hset⟩
    exact ⟨d, hmoves, hmoves.claimId hkey ▸ hset⟩
  · rintro ⟨d, hmoves, hset⟩
    exact ⟨d, hmoves, (hmoves.claimId hkey).symm ▸ hset⟩

theorem OwnKeys.step (hkeys : OwnKeys claims)
    (h : replayTransition b authority claims command = .ok next) : OwnKeys next := by
  obtain ⟨d, hmoves, rfl⟩ := replayTransition_eq_ok.mp h
  intro id c hget
  rw [Dict.get?_set] at hget
  split_ifs at hget with hid
  · rw [← Option.some.inj hget, hid]
  · exact hkeys id c hget

/-- **The loop is a run of the machine.** -/
theorem replayTransitions_eq_run {ts : List (WorkflowTransition D)} :
    ∀ {claims final : Claims}, OwnKeys claims →
      (replayTransitions b authority claims ts = .ok final ↔
        (claimMachine b authority).run claims ts = .ok final) := by
  induction ts with
  | nil => intro claims final _; simp [replayTransitions]
  | cons t ts ih =>
    intro claims final hkeys
    rw [Keyed.run_cons]
    simp only [replayTransitions, bind_eq_ok]
    constructor
    · rintro ⟨next, hnext, hrest⟩
      exact ⟨next, (replayTransition_eq_step hkeys).mp hnext, (ih (hkeys.step hnext)).mp hrest⟩
    · rintro ⟨next, hnext, hrest⟩
      have hround := (replayTransition_eq_step hkeys).mpr hnext
      exact ⟨next, hround, (ih (hkeys.step hround)).mpr hrest⟩

theorem OwnKeys.run {ts : List (WorkflowTransition D)} : ∀ {claims final : Claims},
    OwnKeys claims → replayTransitions b authority claims ts = .ok final → OwnKeys final := by
  induction ts with
  | nil =>
    intro claims final hkeys h
    rwa [← Except.ok.inj h]
  | cons t ts ih =>
    intro claims final hkeys h
    simp only [replayTransitions, bind_eq_ok] at h
    obtain ⟨next, hnext, hrest⟩ := h
    exact ih (hkeys.step hnext) hrest

theorem replayTransitions_append {ts us : List (WorkflowTransition D)} :
    ∀ {claims final : Claims}, replayTransitions b authority claims (ts ++ us) = .ok final ↔
      ∃ mid, replayTransitions b authority claims ts = .ok mid ∧
        replayTransitions b authority mid us = .ok final := by
  induction ts with
  | nil => intro claims final; simp [replayTransitions]
  | cons t ts ih =>
    intro claims final
    simp only [List.cons_append, replayTransitions, bind_eq_ok, ih]
    constructor
    · rintro ⟨next, hnext, mid, hmid, hfinal⟩
      exact ⟨mid, ⟨next, hnext, hmid⟩, hfinal⟩
    · rintro ⟨mid, ⟨next, hnext, hmid⟩, hfinal⟩
      exact ⟨next, hnext, mid, hmid, hfinal⟩

/-! ## Runs -/

/-- What a claim keeps in every longer prefix. -/
def Later (a? b? : Option ClaimWorkflow) : Prop :=
  ∀ c ∈ a?, ∃ d ∈ b?, (c.status ≠ .draft → d.status ≠ .draft ∧ Frozen c d) ∧ (c.Closed → d = c)

omit [DecidableEq D] in
theorem Later.refl (a? : Option ClaimWorkflow) : Later a? a? := fun c hc =>
  ⟨c, hc, fun hne => ⟨hne, rfl, rfl, rfl, rfl, rfl⟩, fun _ => rfl⟩

omit [DecidableEq D] in
theorem Later.trans {a? b? c? : Option ClaimWorkflow} (hab : Later a? b?) (hbc : Later b? c?) :
    Later a? c? := by
  intro a ha
  obtain ⟨b, hb, hfrozen, hclosed⟩ := hab a ha
  obtain ⟨c, hc, hfrozen', hclosed'⟩ := hbc b hb
  refine ⟨c, hc, fun hne => ?_, fun hc => ?_⟩
  · obtain ⟨hb', hf⟩ := hfrozen hne
    obtain ⟨hc', hf'⟩ := hfrozen' hb'
    exact ⟨hc', hf'.statement.trans hf.statement, hf'.scope.trans hf.scope,
      hf'.authors.trans hf.authors, hf'.evidenceIds.trans hf.evidenceIds,
      hf'.artifactIds.trans hf.artifactIds⟩
  · obtain rfl := hclosed hc
    exact hclosed' hc

omit [DecidableEq D] in
theorem ClaimStep.later {c? : Option ClaimWorkflow} {d : ClaimWorkflow} (h : ClaimStep c? d) :
    Later c? (some d) := by
  intro c hc
  refine ⟨d, rfl, fun hne => ⟨?_, h.frozen c hc hne⟩, fun hclosed => absurd hclosed (h.opened c hc)⟩
  obtain rfl := hc
  have hstatus := h.status
  rw [Option.map_some] at hstatus
  intro hdraft
  rw [hdraft] at hstatus
  rcases hstatus with heq | hchange
  · exact hne (Option.some.inj heq)
  · generalize hbefore : some c.status = before at hchange
    cases hchange
    cases hbefore

/-- **The run lemma.** -/
theorem replayTransitions_later {ts : List (WorkflowTransition D)} : ∀ {claims final : Claims},
    OwnKeys claims → replayTransitions b authority claims ts = .ok final →
      ∀ id, Later (claims.get? id) (final.get? id) := by
  induction ts with
  | nil =>
    intro claims final _ h id
    rw [← Except.ok.inj h]
    exact .refl _
  | cons t ts ih =>
    intro claims final hkeys h id
    simp only [replayTransitions, bind_eq_ok] at h
    obtain ⟨next, hnext, hrest⟩ := h
    refine Later.trans ?_ (ih (hkeys.step hnext) hrest id)
    obtain ⟨d, hmoves, rfl⟩ := replayTransition_eq_ok.mp hnext
    rw [hmoves.claimId fun c hc => hkeys _ _ hc]
    by_cases hid : id = t.claimId
    · subst hid
      rw [Dict.get?_set_self]
      exact hmoves.claimStep.later
    · rw [Dict.get?_set_ne _ hid]
      exact .refl _

end Machine

/-! ## Prefixes of a history -/

/-- The claims after the first transitions of a bundle. -/
def BundleFields.claimsAt (b : BundleFields D) (authority : AuthorityPolicy) (count : ℕ) :
    Result Claims :=
  replayTransitions (b.prefixOf count) authority Dict.empty (b.prefixOf count).transitions

/-- What holds of the claims of all prefixes of a history. -/
structure TemporallySafe (ts : List (WorkflowTransition D)) (claims : ℕ → Claims) : Prop where
  frozen : ∀ {m n id c}, m ≤ n → (claims m).get? id = some c → c.status ≠ .draft →
    ∃ d, (claims n).get? id = some d ∧ Frozen c d
  closed : ∀ {m n id c}, m ≤ n → (claims m).get? id = some c →
    c.status = .rejected ∨ c.status = .revoked → (claims n).get? id = some c
  raised : ∀ {n t}, ts[n]? = some t → ∃ d, (claims (n + 1)).get? t.claimId = some d ∧
    d.revision = (((claims n).get? t.claimId).map (·.revision)).getD 0 + 1
  status : ∀ {n id d}, (claims (n + 1)).get? id = some d →
    ((claims n).get? id).map (·.status) = some d.status ∨
      StatusChange (((claims n).get? id).map (·.status)) d.status
  others : ∀ {n t id}, ts[n]? = some t → id ≠ t.claimId →
    (claims (n + 1)).get? id = (claims n).get? id

/-- Replay reads the context of a bundle, not its records. -/
theorem replayTransition_context {b b' : BundleFields D} (hevidence : b.evidence = b'.evidence)
    (hartifacts : b.artifacts = b'.artifacts) (authority : AuthorityPolicy) (claims : Claims)
    (command : WorkflowTransition D) :
    replayTransition b authority claims command = replayTransition b' authority claims command := by
  simp only [replayTransition, updateClaim, ClaimWorkflow.perform, ClaimWorkflow.author,
    ClaimWorkflow.authored, ClaimWorkflow.bindEvidence, ClaimWorkflow.bindArtifact,
    BundleFields.entry?, BundleFields.artifact?, hevidence, hartifacts]

theorem replayTransitions_context {b b' : BundleFields D} (hevidence : b.evidence = b'.evidence)
    (hartifacts : b.artifacts = b'.artifacts) (authority : AuthorityPolicy) (claims : Claims)
    (ts : List (WorkflowTransition D)) :
    replayTransitions b authority claims ts = replayTransitions b' authority claims ts := by
  induction ts generalizing claims with
  | nil => rfl
  | cons t ts ih =>
    simp only [replayTransitions, replayTransition_context hevidence hartifacts, ih]

theorem claimsAt_eq (b : BundleFields D) (authority : AuthorityPolicy) (count : ℕ) :
    b.claimsAt authority count =
      replayTransitions b authority Dict.empty (b.transitions.take count) := by
  have htransitions : (b.prefixOf count).transitions = b.transitions.take count := List.map_take
  rw [BundleFields.claimsAt, htransitions]
  refine replayTransitions_context (D := D) ?_ ?_ _ _ _
  · rfl
  · rfl

variable [Hashing D]

/-- **Temporal safety.** -/
theorem replayWorkflow_temporal (bundle : WorkflowBundle D) (authority : AuthorityPolicy)
    (expectedHead : Option D) (state : WorkflowState D)
    (h : replayWorkflow bundle authority expectedHead = .ok state) :
    ∃ claims : ℕ → Claims,
      (∀ n, bundle.claimsAt authority n = .ok (claims n)) ∧
      claims bundle.records.length = state.claims ∧
      TemporallySafe bundle.transitions claims := by
  obtain ⟨-, -, hreplay⟩ := replayWorkflow_eq_ok h
  have hprefix (n : ℕ) : ∃ claims, bundle.claimsAt authority n = .ok claims := by
    rw [← List.take_append_drop n bundle.transitions] at hreplay
    obtain ⟨mid, hmid, -⟩ := replayTransitions_append.mp hreplay
    exact ⟨mid, (claimsAt_eq _ _ _).trans hmid⟩
  choose claims hclaims using hprefix
  have hrun (n : ℕ) : replayTransitions bundle.toBundleFields authority Dict.empty
      (bundle.transitions.take n) = .ok (claims n) := (claimsAt_eq _ _ _).symm.trans (hclaims n)
  have hkeys (n : ℕ) : OwnKeys (claims n) := OwnKeys.empty.run (hrun n)
  -- the claims of a longer prefix are those of the shorter one, moved by what lies between
  have hbetween {m n : ℕ} (hmn : m ≤ n) : replayTransitions bundle.toBundleFields authority
      (claims m) ((bundle.transitions.take n).drop m) = .ok (claims n) := by
    have hlong := hrun n
    rw [← List.take_append_drop m (bundle.transitions.take n), List.take_take,
      min_eq_left hmn] at hlong
    obtain ⟨mid, hmid, hrest⟩ := replayTransitions_append.mp hlong
    rw [hrun m] at hmid
    rwa [Except.ok.inj hmid]
  have hlater {m n : ℕ} (hmn : m ≤ n) (id : Identifier) :
      Later ((claims m).get? id) ((claims n).get? id) :=
    replayTransitions_later (hkeys m) (hbetween hmn) id
  have hstep {n : ℕ} {t : WorkflowTransition D} (ht : bundle.transitions[n]? = some t) :
      ∃ d, ClaimStep ((claims n).get? t.claimId) d ∧ claims (n + 1) = (claims n).set t.claimId d := by
    have hone : (bundle.transitions.take (n + 1)).drop n = [t] := by
      rw [List.take_add_one, ht, List.drop_append, List.drop_take_self]
      obtain ⟨hlt, -⟩ := List.getElem?_eq_some_iff.mp ht
      simp [List.length_take, min_eq_left hlt.le]
    have hnext := hbetween (Nat.le_succ n)
    rw [hone] at hnext
    simp only [replayTransitions, bind_eq_ok, Except.ok.injEq] at hnext
    obtain ⟨next, hround, rfl⟩ := hnext
    obtain ⟨d, hmoves, hset⟩ := replayTransition_eq_ok.mp hround
    rw [hmoves.claimId fun c hc => hkeys n _ _ hc] at hset
    exact ⟨d, hmoves.claimStep, hset.symm⟩
  refine ⟨claims, hclaims, ?_, ?_⟩
  · have hall := hrun bundle.records.length
    rw [List.take_of_length_le (by simp [BundleFields.transitions]), hreplay] at hall
    exact (Except.ok.inj hall).symm
  exact {
    frozen := by
      intro m n id c hmn hget hne
      obtain ⟨d, hd, hfrozen, -⟩ := hlater hmn id c hget
      exact ⟨d, hd, (hfrozen hne).2⟩
    closed := by
      intro m n id c hmn hget hclosed
      obtain ⟨d, hd, -, hsame⟩ := hlater hmn id c hget
      rwa [hsame hclosed] at hd
    raised := by
      intro n t ht
      obtain ⟨d, hd, hset⟩ := hstep ht
      exact ⟨d, by rw [hset, Dict.get?_set_self], hd.revision⟩
    status := by
      intro n id d hget
      rcases ht : bundle.transitions[n]? with _ | t
      · -- past the end of the history nothing changes
        have hlength := List.getElem?_eq_none_iff.mp ht
        have hsame : claims (n + 1) = claims n := by
          have hlong := hrun (n + 1)
          rw [List.take_of_length_le (by omega), ← List.take_of_length_le hlength, hrun n] at hlong
          exact (Except.ok.inj hlong).symm
        rw [hsame] at hget
        rw [hget]
        exact .inl rfl
      · obtain ⟨e, he, hset⟩ := hstep ht
        rw [hset, Dict.get?_set] at hget
        split_ifs at hget with hid
        · rw [hid, ← Option.some.inj hget]
          exact he.status
        · rw [hget]
          exact .inl rfl
    others := by
      intro n t id ht hid
      obtain ⟨d, -, hset⟩ := hstep ht
      rw [hset, Dict.get?_set_ne _ hid] }

theorem replayWorkflow_temporal_sample : ∃ (bundle : WorkflowBundle HexDigest)
    (claims : ℕ → Claims), claims bundle.records.length = boundClaim .approved 5 [⟨"r", by decide⟩] ∧
      TemporallySafe bundle.transitions claims := by
  obtain ⟨bundle, state, hreplay, hstate⟩ := replay_sample HexDigest
  obtain ⟨claims, -, hlast, hsafe⟩ := replayWorkflow_temporal bundle sampleAuthority none state hreplay
  exact ⟨bundle, claims, hlast.trans hstate, hsafe⟩

end EvidenceBraid
