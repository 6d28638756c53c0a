import EvidenceBraid.WorkflowTemporal

/-!
# Replaying a workflow in parts

`append` seals its transitions, builds the longer bundle and replays all of it. No check looks at
more than the records so far: whatever is checked of a whole history holds of its prefixes, and a
bundle is authorized exactly when its context and its transitions are (`authorized_iff`).

**Theorem (`append_incremental`).** Every prefix of an authorized bundle is authorized, and
appending two batches one after the other is appending them together.
-/

namespace EvidenceBraid

open Hashing

variable {D : Type} [Hashing D] [DecidableEq D]

/-! ## What replay returns -/

omit [Hashing D] [DecidableEq D] in
/-- The revisions of a run's claims account for every transition, so there are no more claims than
transitions. -/
theorem length_items_le {b : BundleFields D} {authority : AuthorityPolicy}
    {ts : List (WorkflowTransition D)} {claims : Claims}
    (h : AllAccountable b authority ts claims) : claims.items.length ≤ ts.length := by
  have hone : ∀ r ∈ claims.values.map (·.revision), 1 ≤ r := by
    intro r hr
    obtain ⟨c, hc, rfl⟩ := List.mem_map.mp hr
    obtain ⟨⟨id, c⟩, hkv, rfl⟩ := List.mem_map.mp hc
    exact (h.present (claims.mem_items_iff.mp hkv)).checked.revision.1
  have hsum := List.length_le_sum_of_one_le _ hone
  rw [h.revisions, List.length_map, Dict.values, List.length_map] at hsum
  exact hsum

/-- **Replay succeeds** exactly when the policy, the head and the transitions are accepted. -/
theorem replayWorkflow_iff {bundle : WorkflowBundle D} {authority : AuthorityPolicy}
    {expectedHead : Option D} {state : WorkflowState D} :
    replayWorkflow bundle authority expectedHead = .ok state ↔
      authority.digest = bundle.authorityDigest ∧ (∀ head ∈ expectedHead, bundle.headDigest = head) ∧
        replayTransitions bundle.toBundleFields authority Dict.empty bundle.transitions =
          .ok state.claims ∧
        state = ⟨bundle.workflowId, bundle.headDigest, bundle.records.length, state.claims⟩ := by
  constructor
  · intro h
    obtain ⟨hauthority, hhead, hclaims⟩ := replayWorkflow_eq_ok h
    simp only [replayWorkflow, bind_eq_ok, valid_eq_ok, exists_unit] at h
    obtain ⟨-, -, claims, -, hstate⟩ := h
    refine ⟨hauthority, hhead, hclaims, ?_⟩
    rw [WorkflowState.make_eq_ok hstate]
  · rintro ⟨hauthority, hhead, hclaims, hstate⟩
    have hall := AllAccountable.empty.run hclaims
    rw [List.nil_append] at hall
    have hlength : bundle.transitions.length = bundle.records.length := List.length_map _
    have hbound := bundle.ok.records_length
    have hitems := length_items_le hall
    have hkeys : ∀ kv ∈ state.claims.items, kv.1 = kv.2.claimId := fun kv hkv =>
      (hall.key (state.claims.mem_items_iff.mp hkv)).symm
    have hsum := hall.revisions
    rw [hstate]
    simp only [replayWorkflow, WorkflowState.make, bind_eq_ok, valid_eq_ok, exists_unit]
    exact ⟨hauthority, hhead, state.claims, hclaims, hbound,
      ⟨hitems.trans (hlength.le.trans hbound), hkeys⟩, hsum.trans hlength, rfl⟩

/-! ## Contexts -/

/-- Two bundles with one context. -/
structure SameContext (v w : BundleFields D) : Prop where
  workflowId : v.workflowId = w.workflowId
  authorityDigest : v.authorityDigest = w.authorityDigest
  evidence : v.evidence = w.evidence
  artifacts : v.artifacts = w.artifacts

omit [Hashing D] [DecidableEq D] in
theorem SameContext.symm {v w : BundleFields D} (h : SameContext v w) : SameContext w v :=
  ⟨h.workflowId.symm, h.authorityDigest.symm, h.evidence.symm, h.artifacts.symm⟩

omit [Hashing D] [DecidableEq D] in
theorem SameContext.eq_of_records {v w : BundleFields D} (h : SameContext v w)
    (hrecords : v.records = w.records) : v = w := by
  obtain ⟨i, a, e, as, rs⟩ := v
  obtain ⟨i', a', e', as', rs'⟩ := w
  obtain ⟨rfl, rfl, rfl, rfl⟩ := h
  exact congrArg _ hrecords

omit [DecidableEq D] in
theorem SameContext.contextDigest {v w : BundleFields D} (h : SameContext v w) :
    v.contextDigest = w.contextDigest := by
  rw [BundleFields.contextDigest, BundleFields.contextDigest, h.workflowId, h.authorityDigest,
    h.evidence, h.artifacts]

/-! ## Authorized bundles -/

namespace WorkflowBundle

/-- `replay_workflow` accepts the bundle under this policy. -/
def Authorized (w : WorkflowBundle D) (authority : AuthorityPolicy) : Prop :=
  ∃ state, replayWorkflow w authority none = .ok state

theorem authorized_iff {w : WorkflowBundle D} {authority : AuthorityPolicy} :
    w.Authorized authority ↔ authority.digest = w.authorityDigest ∧
      ∃ claims, replayTransitions w.toBundleFields authority Dict.empty w.transitions = .ok claims := by
  constructor
  · rintro ⟨state, h⟩
    obtain ⟨hauthority, -, hclaims, -⟩ := replayWorkflow_iff.mp h
    exact ⟨hauthority, state.claims, hclaims⟩
  · rintro ⟨hauthority, claims, hclaims⟩
    exact ⟨⟨w.workflowId, w.headDigest, w.records.length, claims⟩,
      replayWorkflow_iff.mpr ⟨hauthority, by simp, hclaims, rfl⟩⟩

/-- Bundles of one context are one bundle when their transitions are the same. -/
theorem eq_of_transitions {v w : WorkflowBundle D}
    (hcontext : SameContext v.toBundleFields w.toBundleFields)
    (htransitions : v.transitions = w.transitions) : v = w := by
  have hv := v.seal_transitions
  rw [hcontext.contextDigest, htransitions, w.seal_transitions] at hv
  exact ext_fields (hcontext.eq_of_records (Except.ok.inj hv).symm)

/-! ## Appending -/

/-- **What `append` returns** is the authorized bundle of the context with these transitions. -/
theorem append_eq_ok {w v : WorkflowBundle D} {ts : List (WorkflowTransition D)}
    {authority : AuthorityPolicy} : w.append ts authority = .ok v ↔
      w.Authorized authority ∧ v.Authorized authority ∧
        SameContext v.toBundleFields w.toBundleFields ∧ v.transitions = w.transitions ++ ts := by
  simp only [append, bind_eq_ok, make_eq_ok, Except.ok.injEq]
  constructor
  · rintro ⟨state, hstate, receipts, hreceipts, _, hmake, final, hfinal, rfl⟩
    obtain ⟨hts, -⟩ := sealTransitions_eq_ok.mp hreceipts
    refine ⟨⟨state, hstate⟩, ⟨final, hfinal⟩, ?_, ?_⟩
    · rw [hmake]
      exact ⟨rfl, rfl, rfl, BundleFields.sortArtifacts_of_sorted w.ok.artifacts_sorted⟩
    · rw [BundleFields.transitions, hmake, List.map_append, hts]
      rfl
  · rintro ⟨⟨state, hstate⟩, ⟨final, hfinal⟩, hcontext, htransitions⟩
    -- the longer chain splits at the records that are already there
    have hseal := v.seal_transitions
    rw [hcontext.contextDigest, htransitions] at hseal
    obtain ⟨hmap, hlinked⟩ := sealTransitions_eq_ok.mp hseal
    obtain ⟨first, rest, hrecords, hfirst, hrest⟩ := List.map_eq_append_iff.mp hmap
    rw [hrecords, linkedReceipts_append] at hlinked
    have hsame : w.records = first := by
      have hw := w.seal_transitions
      rw [sealTransitions_eq_ok.mpr ⟨hfirst, hlinked.1⟩] at hw
      exact (Except.ok.inj hw).symm
    subst hsame
    rw [Nat.zero_add, ← BundleFields.headDigest_eq] at hlinked
    refine ⟨state, hstate, rest, sealTransitions_eq_ok.mpr ⟨hrest, hlinked.2⟩, v, ?_, final, hfinal,
      rfl⟩
    rw [BundleFields.sortArtifacts_of_sorted w.ok.artifacts_sorted, ← hrecords]
    exact SameContext.eq_of_records
      ⟨hcontext.workflowId, hcontext.authorityDigest, hcontext.evidence, hcontext.artifacts⟩ rfl

/-- The bundle of the first records. -/
def prefixBundle [WideHex D] (w : WorkflowBundle D) (count : ℕ) : WorkflowBundle D where
  toBundleFields := w.prefixOf count
  ok := w.ok.prefixOf count

section Prefixes

variable [WideHex D] {w v : WorkflowBundle D} {authority : AuthorityPolicy}

theorem transitions_prefixBundle (w : WorkflowBundle D) (count : ℕ) :
    (w.prefixBundle count).transitions = w.transitions.take count := List.map_take

/-- **A prefix of an authorized bundle is authorized.** -/
theorem Authorized.prefixBundle (h : w.Authorized authority) (count : ℕ) :
    (w.prefixBundle count).Authorized authority := by
  obtain ⟨hauthority, claims, hclaims⟩ := authorized_iff.mp h
  rw [← List.take_append_drop count w.transitions] at hclaims
  obtain ⟨mid, hmid, -⟩ := replayTransitions_append.mp hclaims
  refine authorized_iff.mpr ⟨hauthority, mid, ?_⟩
  rw [← claimsAt_eq] at hmid
  exact hmid

/-- Two batches one after the other are one batch. -/
theorem append_append {xs ys : List (WorkflowTransition D)} :
    w.append (xs ++ ys) authority = .ok v ↔
      ∃ u, w.append xs authority = .ok u ∧ u.append ys authority = .ok v := by
  simp only [append_eq_ok]
  constructor
  · rintro ⟨hw, hv, hcontext, htransitions⟩
    have hmid : (v.prefixBundle (w.transitions.length + xs.length)).transitions =
        w.transitions ++ xs := by
      rw [transitions_prefixBundle, htransitions, ← List.append_assoc, ← List.length_append,
        List.take_left]
    refine ⟨v.prefixBundle (w.transitions.length + xs.length),
      ⟨hw, hv.prefixBundle _, ?_, hmid⟩, hv.prefixBundle _, hv, ⟨rfl, rfl, rfl, rfl⟩, ?_⟩
    · exact ⟨hcontext.workflowId, hcontext.authorityDigest, hcontext.evidence, hcontext.artifacts⟩
    rw [hmid, htransitions, List.append_assoc]
  · rintro ⟨u, ⟨hw, -, hcontext, hu⟩, -, hv, hcontext', htransitions⟩
    refine ⟨hw, hv, ?_, by rw [htransitions, hu, List.append_assoc]⟩
    exact ⟨hcontext'.workflowId.trans hcontext.workflowId,
      hcontext'.authorityDigest.trans hcontext.authorityDigest,
      hcontext'.evidence.trans hcontext.evidence, hcontext'.artifacts.trans hcontext.artifacts⟩

end Prefixes

/-- **Incremental replay agrees with whole replay.** -/
theorem append_incremental [WideHex D] (authority : AuthorityPolicy) (w : WorkflowBundle D)
    (h : w.Authorized authority) :
    (∀ count, ∃ p : WorkflowBundle D, p.toBundleFields = w.prefixOf count ∧ p.Authorized authority) ∧
    ∀ (xs ys : List (WorkflowTransition D)) (v : WorkflowBundle D),
      w.append (xs ++ ys) authority = .ok v ↔
        ∃ u, w.append xs authority = .ok u ∧ u.append ys authority = .ok v :=
  ⟨fun count => ⟨w.prefixBundle count, rfl, h.prefixBundle count⟩, fun _ _ _ => append_append⟩

theorem append_incremental_sample : ∃ w : WorkflowBundle HexDigest, w.Authorized sampleAuthority ∧
    ∃ p : WorkflowBundle HexDigest, p.toBundleFields = w.prefixOf 3 ∧ p.Authorized sampleAuthority := by
  obtain ⟨w, state, hreplay, -⟩ := replay_sample HexDigest
  exact ⟨w, ⟨state, hreplay⟩, (append_incremental sampleAuthority w ⟨state, hreplay⟩).1 3⟩

end WorkflowBundle

end EvidenceBraid
