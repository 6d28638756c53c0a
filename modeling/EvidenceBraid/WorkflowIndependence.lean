import EvidenceBraid.WorkflowPrefix

/-!
# Claims do not interfere

Replay is a keyed machine (`claimMachine`), so what it makes of a claim depends on the context and
on the claim's own transitions only. What is checked of a history as a whole, its length, its
bytes and the distinctness of its transitions, does not see their order.

**Theorem (`replayWorkflow_independent`).** Two accepted histories of one context with the same
transitions of a claim leave the same claim; and two adjacent transitions of different claims can
be swapped, with the chain sealed again.
-/

namespace EvidenceBraid

open Hashing

variable {D : Type} [Hashing D] [DecidableEq D]

/-! ## Sealing again -/

omit [DecidableEq D] in
/-- Transitions up to the limit can be sealed. -/
theorem exists_seal {context : D} {ts : List (WorkflowTransition D)} :
    ∀ {sequence : ℕ} {previous : D}, sequence + ts.length ≤ maxWorkflowRecords →
      ∃ rs, sealTransitions context sequence previous ts = .ok rs := by
  induction ts with
  | nil => intro sequence previous _; exact ⟨[], rfl⟩
  | cons t ts ih =>
    intro sequence previous h
    rw [List.length_cons] at h
    obtain ⟨rs, hrs⟩ := @ih (sequence + 1)
      (WorkflowReceipt.contentDigest sequence context previous t) (by omega)
    rw [sealTransitions, dif_pos (by omega)]
    simp only [bind_eq_ok, hrs, Except.ok.injEq, exists_eq_left']
    exact ⟨_, rfl⟩

section Sizes

variable [WideHex D]

omit [DecidableEq D] in
theorem WorkflowReceipt.size_toDict (r : WorkflowReceipt D) :
    Json.size r.toDict = Json.size (.int r.sequence) + Json.size r.transition.toDict + 295 := by
  rw [toDict, Json.size_dict r.nodup_keys_items (by simp [items, contentItems])]
  have hkeys : Json.quotedSize "schema_version" = 16 ∧ Json.quotedSize "sequence" = 10 ∧
      Json.quotedSize "context_digest" = 16 ∧ Json.quotedSize "previous_digest" = 17 ∧
      Json.quotedSize "transition" = 12 ∧ Json.quotedSize "digest" = 8 ∧
      Json.quotedSize "1.0" = 5 := by
    and_intros <;> exact Json.quotedSize_literal rfl
  simp only [items, contentItems, List.cons_append, List.nil_append, List.map_cons, List.map_nil,
    List.sum_cons, List.sum_nil, Json.size_str, quotedSize_hex, hkeys]
  clear hkeys
  omega

omit [DecidableEq D] in
/-- The bytes of a chain are those of its positions and of its transitions. -/
theorem sum_size_receipts {context : D} {rs : List (WorkflowReceipt D)} :
    ∀ {sequence : ℕ} {previous : D}, LinkedReceipts context sequence previous rs →
      (rs.map fun r => Json.size r.toDict + 1).sum =
        ((List.range' sequence rs.length).map fun i : ℕ => Json.size (.int i) + 296).sum +
          (rs.map fun r => Json.size r.transition.toDict).sum := by
  induction rs with
  | nil => intro _ _ _; rfl
  | cons r rs ih =>
    intro sequence previous h
    obtain ⟨⟨hsequence, -⟩, hrest⟩ := h
    have hsize := r.size_toDict
    have hrec := ih hrest
    rw [hsequence] at hsize
    simp only [List.map_cons, List.sum_cons, List.length_cons, List.range'_succ]
    omega

omit [DecidableEq D] in
/-- Chains of the same transitions in different orders take the same bytes. -/
theorem size_receipts_perm {context : D} {rs ss : List (WorkflowReceipt D)} {previous : D}
    (hr : LinkedReceipts context 0 previous rs) (hs : LinkedReceipts context 0 previous ss)
    (hperm : (ss.map (·.transition)).Perm (rs.map (·.transition))) :
    Json.size (.arr (ss.map WorkflowReceipt.toDict)) =
      Json.size (.arr (rs.map WorkflowReceipt.toDict)) := by
  have hlength : ss.length = rs.length := by simpa using hperm.length_eq
  rcases rs with _ | ⟨r, rs⟩
  · rw [List.length_nil] at hlength
    rw [List.eq_nil_of_length_eq_zero hlength]
  have hne : ss ≠ [] := by
    rintro rfl
    cases hlength
  have hsum := (hperm.map fun t => Json.size t.toDict).sum_eq
  rw [List.map_map, List.map_map] at hsum
  have hsizer := sum_size_receipts hr
  have hsizes := sum_size_receipts hs
  rw [hlength] at hsizes
  rw [Json.size_arr_of_ne (by simpa using hne), Json.size_arr_of_ne (by simp), List.map_map,
    List.map_map]
  change (ss.map fun s => Json.size s.toDict + 1).sum + 1 =
    ((r :: rs).map fun s => Json.size s.toDict + 1).sum + 1
  rw [hsizer, hsizes]
  exact congrArg (_ + · + 1) hsum

/-- **The transitions of a bundle can be sealed in any order.** -/
theorem WorkflowBundle.exists_reordered (w : WorkflowBundle D) {ts : List (WorkflowTransition D)}
    (hperm : ts.Perm w.transitions) : ∃ v : WorkflowBundle D,
      SameContext v.toBundleFields w.toBundleFields ∧ v.transitions = ts := by
  have hlength : ts.length = w.records.length := by
    simpa [BundleFields.transitions] using hperm.length_eq
  have hbound := w.ok.records_length
  obtain ⟨rs, hrs⟩ : ∃ rs, sealTransitions w.contextDigest 0 w.contextDigest ts = .ok rs :=
    exists_seal (by omega)
  obtain ⟨hts, hlinked⟩ := sealTransitions_eq_ok.mp hrs
  have hrecords : rs.length = w.records.length := by
    rw [← hlength, ← hts, List.length_map]
  have hids : (rs.map (·.transition.transitionId)).Perm
      (w.records.map (·.transition.transitionId)) := by
    have hmap := hperm.map (·.transitionId)
    rw [← hts, BundleFields.transitions, List.map_map, List.map_map] at hmap
    exact hmap
  have hsize : Json.size ({ w.toBundleFields with records := rs } : BundleFields D).toDict =
      Json.size w.toDict := by
    rw [BundleFields.size_toDict, BundleFields.size_toDict]
    have harr := size_receipts_perm w.ok.linked hlinked (by rw [hts]; exact hperm)
    simp only [hrecords, harr]
  refine ⟨⟨{ w.toBundleFields with records := rs }, ?_⟩, ⟨rfl, rfl, rfl, rfl⟩, hts⟩
  exact {
    verified := w.ok.verified
    artifacts_length := w.ok.artifacts_length
    artifacts_sorted := w.ok.artifacts_sorted
    records_length := hrecords.le.trans hbound
    linked := hlinked
    distinct := hids.nodup_iff.mpr w.ok.distinct
    size_le := hsize.le.trans w.ok.size_le }

end Sizes

/-! ## Independence -/

/-- The transitions of a bundle that address a claim. -/
def BundleFields.addressing (b : BundleFields D) (claimId : Identifier) :
    List (WorkflowTransition D) :=
  b.transitions.filter fun t => t.claimId = claimId

/-- A claim's final state is that of its own transitions. -/
theorem runAlone_of_replay {w : WorkflowBundle D} {authority : AuthorityPolicy}
    {expectedHead : Option D} {state : WorkflowState D}
    (h : replayWorkflow w authority expectedHead = .ok state) (id : Identifier) :
    (claimMachine w.toBundleFields authority).runAlone none (w.addressing id) =
      .ok (state.claims.get? id) := by
  obtain ⟨-, -, hclaims⟩ := replayWorkflow_eq_ok h
  exact Keyed.runAlone_of_run ((replayTransitions_eq_run OwnKeys.empty).mp hclaims) id

omit [Hashing D] in
/-- The machine depends on the context only. -/
theorem claimMachine_context {v w : BundleFields D} (hevidence : v.evidence = w.evidence)
    (hartifacts : v.artifacts = w.artifacts) (authority : AuthorityPolicy) :
    claimMachine v authority = claimMachine w authority := by
  simp only [claimMachine, replayTransition_context hevidence hartifacts]

/-- **Independence of claims.** -/
theorem replayWorkflow_independent [WideHex D] (authority : AuthorityPolicy) :
    (∀ (v w : WorkflowBundle D) (expectedHead expectedHead' : Option D) (s t : WorkflowState D)
      (id : Identifier), v.evidence = w.evidence → v.artifacts = w.artifacts →
      replayWorkflow v authority expectedHead = .ok s →
      replayWorkflow w authority expectedHead' = .ok t →
      v.addressing id = w.addressing id → s.claims.get? id = t.claims.get? id) ∧
    ∀ (w : WorkflowBundle D) (expectedHead : Option D) (state : WorkflowState D)
      (xs ys : List (WorkflowTransition D)) (x y : WorkflowTransition D),
      replayWorkflow w authority expectedHead = .ok state →
      w.transitions = xs ++ x :: y :: ys → x.claimId ≠ y.claimId →
      ∃ (v : WorkflowBundle D) (state' : WorkflowState D),
        SameContext v.toBundleFields w.toBundleFields ∧ v.transitions = xs ++ y :: x :: ys ∧
        replayWorkflow v authority none = .ok state' ∧
        ∀ id, state'.claims.get? id = state.claims.get? id := by
  constructor
  · intro v w _ _ s t id hevidence hartifacts hs ht hsame
    have hv := runAlone_of_replay hs id
    rw [claimMachine_context hevidence hartifacts, hsame, runAlone_of_replay ht id] at hv
    exact (Except.ok.inj hv).symm
  · intro w _ state xs ys x y hreplay htransitions hne
    obtain ⟨hauthority, -, hclaims⟩ := replayWorkflow_eq_ok hreplay
    have hperm : (xs ++ y :: x :: ys).Perm w.transitions := by
      rw [htransitions]
      exact (List.Perm.swap x y ys).append_left xs
    obtain ⟨v, hcontext, hv⟩ := w.exists_reordered hperm
    rw [htransitions, replayTransitions_eq_run OwnKeys.empty] at hclaims
    obtain ⟨claims, hrun, hget⟩ := Keyed.run_congr (Keyed.addressed_swap hne xs ys) hclaims
    rw [← replayTransitions_eq_run OwnKeys.empty,
      ← replayTransitions_context hcontext.evidence hcontext.artifacts, ← hv] at hrun
    exact ⟨v, ⟨v.workflowId, v.headDigest, v.records.length, claims⟩, hcontext, hv,
      replayWorkflow_iff.mpr ⟨hauthority.trans hcontext.authorityDigest.symm, by simp, hrun, rfl⟩,
      hget⟩

/-! ## A sample -/

section Sample

variable (D)

/-- Two drafts of different claims. -/
def sampleDrafts : List (WorkflowTransition D) :=
  [sampleTransition D ⟨"1", Eq.refl true⟩ ⟨"a", Eq.refl true⟩ .create 0 none,
    { sampleTransition D ⟨"2", Eq.refl true⟩ ⟨"a", Eq.refl true⟩ .create 0 none with
      claimId := ⟨"d", Eq.refl true⟩ }]

theorem exists_sampleDrafts [WideHex D] : ∃ (w : WorkflowBundle D) (state : WorkflowState D),
    replayWorkflow w sampleAuthority none = .ok state ∧ w.transitions = sampleDrafts D := by
  obtain ⟨records, hseal⟩ : ∃ records, sealTransitions (sampleContext D []).contextDigest 0
      (sampleContext D []).contextDigest (sampleDrafts D) = .ok records := ⟨_, rfl⟩
  obtain ⟨htransitions, hlinked⟩ := sealTransitions_eq_ok.mp hseal
  have hlength : records.length = 2 := by
    rw [← List.length_map (·.transition), htransitions]
    rfl
  have hdistinct : (records.map (·.transition.transitionId)).Nodup := by
    have hids : records.map (·.transition.transitionId) =
        (sampleDrafts D).map (·.transitionId) := by
      rw [← htransitions, List.map_map]
      rfl
    rw [hids]
    simp only [sampleDrafts, sampleTransition, List.map_cons, List.map_nil]
    decide
  let w : WorkflowBundle D :=
    ⟨sampleContext D records, valid_sampleContext D (by omega) hlinked hdistinct⟩
  have hw : w.transitions = sampleDrafts D := htransitions
  obtain ⟨claims, hclaims⟩ : ∃ claims, replayTransitions (sampleContext D records) sampleAuthority
      Dict.empty (sampleDrafts D) = .ok claims := ⟨_, rfl⟩
  refine ⟨w, ⟨w.workflowId, w.headDigest, w.records.length, claims⟩,
    replayWorkflow_iff.mpr ⟨rfl, by simp, ?_, rfl⟩, hw⟩
  rw [hw]
  exact hclaims

end Sample

theorem replayWorkflow_independent_sample : ∃ (v w : WorkflowBundle HexDigest)
    (s t : WorkflowState HexDigest), v.transitions = w.transitions.reverse ∧
      s.claims.get? ⟨"d", by decide⟩ = t.claims.get? ⟨"d", by decide⟩ := by
  have hindependent := replayWorkflow_independent (D := HexDigest) sampleAuthority
  obtain ⟨w, t, hw, htransitions⟩ := exists_sampleDrafts HexDigest
  obtain ⟨v, s, hcontext, hv, hs, -⟩ := hindependent.2 w none t [] [] _ _ hw htransitions (by decide)
  have hsame : v.addressing ⟨"d", by decide⟩ = w.addressing ⟨"d", by decide⟩ := by
    rw [BundleFields.addressing, hv, BundleFields.addressing, htransitions]
    rfl
  refine ⟨v, w, s, t, by rw [hv, htransitions]; rfl, ?_⟩
  exact hindependent.1 v w none none s t _ hcontext.evidence hcontext.artifacts hs hw hsame

end EvidenceBraid
