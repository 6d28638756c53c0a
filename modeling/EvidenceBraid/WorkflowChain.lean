import EvidenceBraid.WorkflowPrefix

/-!
# A head commits to its whole workflow

Under an injective hash a receipt's digest determines its position, its context, its predecessor
and its transition, and a context digest is no receipt's (`contentDocument_ne_context`). Unwinding
two chains from a common head, from the last receipt on, shows that they are one chain.

**Theorem (`head_determines_history`).** Two bundles with one head digest have one context and the same
receipts.
-/

namespace EvidenceBraid

open Hashing
open Json (WellKeyed)

variable {D : Type} [Hashing D]

/-! ## Documents -/

/-- The document that a context digest hashes. -/
def BundleFields.contextDocument (b : BundleFields D) : Json :=
  Json.dict [("kind", .str "evidence-braid-workflow-context"), ("schema_version", .str "1.0"),
    ("workflow_id", .str b.workflowId.value), ("authority_digest", .str (hex b.authorityDigest)),
    ("evidence_head", .str (hex b.evidence.headDigest)),
    ("artifacts", .arr (b.artifacts.map ArtifactReference.toDict))]

/-- The document that a receipt's digest hashes. -/
def contentDocument (sequence : ℕ) (contextDigest previousDigest : D)
    (transition : WorkflowTransition D) : Json :=
  Json.dict (WorkflowReceipt.contentItems sequence contextDigest previousDigest transition)

theorem wellKeyed_contextDocument (b : BundleFields D) : WellKeyed b.contextDocument := by
  refine Json.wellKeyed_dict ?_
  intro kv hkv
  simp only [List.mem_cons, List.not_mem_nil, or_false] at hkv
  rcases hkv with rfl | rfl | rfl | rfl | rfl | rfl
  all_goals simp [ArtifactReference.wellKeyed_toDict]

theorem wellKeyed_contentDocument (sequence : ℕ) (context previous : D) (t : WorkflowTransition D) :
    WellKeyed (contentDocument sequence context previous t) := by
  refine Json.wellKeyed_dict ?_
  intro kv hkv
  simp only [WorkflowReceipt.contentItems, List.mem_cons, List.not_mem_nil, or_false] at hkv
  rcases hkv with rfl | rfl | rfl | rfl | rfl
  all_goals simp [WorkflowTransition.wellKeyed_toDict]

/-- A receipt hashes no context. -/
theorem contentDocument_ne_context (sequence : ℕ) (context previous : D) (t : WorkflowTransition D)
    (b : BundleFields D) : contentDocument sequence context previous t ≠ b.contextDocument := by
  simp +decide only [contentDocument, WorkflowReceipt.contentItems, BundleFields.contextDocument,
    Json.dict, List.foldr, Json.insertKey, if_true, if_false, ne_eq, Json.obj.injEq, List.cons.injEq,
    Prod.mk.injEq, false_and, not_false_eq_true]

theorem contentDocument_inj {i j : ℕ} {c c' p p' : D} {t u : WorkflowTransition D}
    (h : contentDocument i c p t = contentDocument j c' p' u) : i = j ∧ c = c' ∧ p = p' ∧ t = u := by
  simp +decide only [contentDocument, WorkflowReceipt.contentItems, Json.dict, List.foldr,
    Json.insertKey, if_true, if_false, Json.obj.injEq, List.cons.injEq, Prod.mk.injEq, true_and,
    Json.str.injEq, Json.int.injEq, hex_inj, and_true, Nat.cast_inj] at h
  obtain ⟨hcontext, hprevious, hsequence, htransition⟩ := h
  exact ⟨hsequence, hcontext, hprevious, WorkflowTransition.toDict_injective htransition⟩

theorem ArtifactReference.toDict_injective :
    Function.Injective (toDict : ArtifactReference D → Json) := by
  intro a b h
  have ha := a.fromDict_toDict
  rw [h, fromDict_toDict] at ha
  exact (Except.ok.inj ha).symm

theorem contextDocument_inj {b b' : BundleFields D} (h : b.contextDocument = b'.contextDocument) :
    b.workflowId = b'.workflowId ∧ b.authorityDigest = b'.authorityDigest ∧
      b.evidence.headDigest = b'.evidence.headDigest ∧ b.artifacts = b'.artifacts := by
  simp +decide only [BundleFields.contextDocument, Json.dict, List.foldr, Json.insertKey, if_true,
    if_false, Json.obj.injEq, List.cons.injEq, Prod.mk.injEq, true_and, Json.str.injEq,
    Json.arr.injEq, hex_inj, and_true] at h
  obtain ⟨hartifacts, hauthority, hevidence, hid⟩ := h
  exact ⟨Identifier.ext hid, hauthority, hevidence,
    ArtifactReference.toDict_injective.list_map hartifacts⟩

/-! ## Chains from their last receipt -/

theorem contentDigest_eq (sequence : ℕ) (context previous : D) (t : WorkflowTransition D) :
    WorkflowReceipt.contentDigest sequence context previous t =
      sha256 (canonicalBytes (contentDocument sequence context previous t)) := rfl

theorem contextDigest_eq (b : BundleFields D) :
    b.contextDigest = sha256 (canonicalBytes b.contextDocument) := rfl

/-- What a chain says of its last receipt. -/
theorem linkedReceipts_concat {context : D} {rs : List (WorkflowReceipt D)} {r : WorkflowReceipt D}
    (h : LinkedReceipts context 0 context (rs ++ [r])) :
    LinkedReceipts context 0 context rs ∧ r.sequence = rs.length ∧ r.contextDigest = context ∧
      r.previousDigest = digestAfter context rs ∧
      r.digest = WorkflowReceipt.contentDigest r.sequence r.contextDigest r.previousDigest
        r.transition := by
  obtain ⟨hrs, ⟨hsequence, hcontext, hprevious, hdigest⟩, -⟩ := linkedReceipts_append.mp h
  exact ⟨hrs, by rw [hsequence, Nat.zero_add], hcontext, hprevious, hdigest⟩

omit [Hashing D] in
theorem digestAfter_concat (context : D) (rs : List (WorkflowReceipt D)) (r : WorkflowReceipt D) :
    digestAfter context (rs ++ [r]) = r.digest := by
  rw [digestAfter, List.getLast?_concat]
  rfl

/-- No chain ends in a context digest. -/
theorem digest_ne_contextDigest (hinj : Function.Injective (sha256 : Bytes → D)) {context : D}
    {rs : List (WorkflowReceipt D)} {r : WorkflowReceipt D}
    (h : LinkedReceipts context 0 context (rs ++ [r])) (b : BundleFields D) :
    r.digest ≠ b.contextDigest := by
  obtain ⟨-, -, -, -, hdigest⟩ := linkedReceipts_concat h
  rw [hdigest, contentDigest_eq, contextDigest_eq]
  intro heq
  exact contentDocument_ne_context _ _ _ _ b
    (canonicalBytes_inj (wellKeyed_contentDocument _ _ _ _) (wellKeyed_contextDocument b) (hinj heq))

/-- **Two chains with one head are one chain**, whatever their lengths and contexts. -/
theorem linkedReceipts_inj (hinj : Function.Injective (sha256 : Bytes → D)) (b b' : BundleFields D)
    {rs : List (WorkflowReceipt D)} : ∀ {ss : List (WorkflowReceipt D)},
      LinkedReceipts b.contextDigest 0 b.contextDigest rs →
        LinkedReceipts b'.contextDigest 0 b'.contextDigest ss →
          digestAfter b.contextDigest rs = digestAfter b'.contextDigest ss →
            b.contextDigest = b'.contextDigest ∧ rs = ss := by
  induction rs using List.reverseRecOn with
  | nil =>
    intro ss _ hss h
    rcases List.eq_nil_or_concat' ss with rfl | ⟨ss, s, rfl⟩
    · exact ⟨h, rfl⟩
    · rw [digestAfter_concat] at h
      exact absurd h.symm (digest_ne_contextDigest hinj hss b)
  | append_singleton rs r ih =>
    intro ss hrs hss h
    rcases List.eq_nil_or_concat' ss with rfl | ⟨ss, s, rfl⟩
    · rw [digestAfter_concat] at h
      exact absurd h (digest_ne_contextDigest hinj hrs b')
    · obtain ⟨hrs, -, hrcontext, hrprevious, hrdigest⟩ := linkedReceipts_concat hrs
      obtain ⟨hss, -, hscontext, hsprevious, hsdigest⟩ := linkedReceipts_concat hss
      rw [digestAfter_concat, digestAfter_concat] at h
      have hbytes := h
      rw [hrdigest, hsdigest, contentDigest_eq, contentDigest_eq] at hbytes
      obtain ⟨hsequence, hcontext, hprevious, htransition⟩ := contentDocument_inj
        (canonicalBytes_inj (wellKeyed_contentDocument _ _ _ _) (wellKeyed_contentDocument _ _ _ _)
          (hinj hbytes))
      rw [hrprevious, hsprevious] at hprevious
      obtain ⟨hsame, rfl⟩ := ih hrs hss hprevious
      refine ⟨hsame, ?_⟩
      rw [WorkflowReceipt.ext_fields hsequence hcontext (by rw [hrprevious, hsprevious, hprevious])
        htransition h]

/-! ## Bundles -/

namespace WorkflowBundle

variable [DecidableEq D]

/-- What a head digest commits to. -/
structure SameHistory (v w : WorkflowBundle D) : Prop where
  workflowId : v.workflowId = w.workflowId
  authorityDigest : v.authorityDigest = w.authorityDigest
  evidenceHead : v.evidence.headDigest = w.evidence.headDigest
  artifacts : v.artifacts = w.artifacts
  records : v.records = w.records

theorem sameHistory_of_headDigest (hinj : Function.Injective (sha256 : Bytes → D))
    {v w : WorkflowBundle D} (h : v.headDigest = w.headDigest) : SameHistory v w := by
  obtain ⟨hcontext, hrecords⟩ := linkedReceipts_inj hinj v.toBundleFields w.toBundleFields
    v.ok.linked w.ok.linked h
  obtain ⟨hid, hauthority, hevidence, hartifacts⟩ := contextDocument_inj
    (canonicalBytes_inj (wellKeyed_contextDocument _) (wellKeyed_contextDocument _) (hinj hcontext))
  exact ⟨hid, hauthority, hevidence, hartifacts, hrecords⟩

/-- **Tamper evidence.** A head digest commits to the context and to every receipt; so it is not
the head of a shorter history or of another context. -/
theorem head_determines_history (hinj : Function.Injective (sha256 : Bytes → D)) :
    (∀ v w : WorkflowBundle D, v.headDigest = w.headDigest → SameHistory v w) ∧
    (∀ v w : WorkflowBundle D, v.records <+: w.records → v.records ≠ w.records →
      v.headDigest ≠ w.headDigest) ∧
    ∀ v w : WorkflowBundle D, v.contextDigest ≠ w.contextDigest → v.headDigest ≠ w.headDigest := by
  refine ⟨fun v w => sameHistory_of_headDigest hinj, ?_, ?_⟩
  · intro v w _ hne h
    exact hne (sameHistory_of_headDigest hinj h).records
  · intro v w hne h
    have hsame := sameHistory_of_headDigest hinj h
    apply hne
    rw [contextDigest_eq, contextDigest_eq, BundleFields.contextDocument, hsame.workflowId,
      hsame.authorityDigest, hsame.evidenceHead, hsame.artifacts]
    rfl

/-! ## A sample -/

def emptyEvidence : EvidenceLedger Preimage :=
  ⟨[], sha256 (Utf8.encode "evidence-braid-ledger:v2".toList), "2.0"⟩

/-- A workflow without events, artifacts and records. -/
def emptyWorkflow (workflowId : Identifier) : BundleFields Preimage where
  workflowId := workflowId
  authorityDigest := sha256 []
  evidence := emptyEvidence
  artifacts := []
  records := []

/-- A preimage is as long as the document that it hashes. -/
theorem quotedSize_hex_le {document : Json} {n : ℕ} (h : Json.size document ≤ n) :
    Json.quotedSize (hex (sha256 (canonicalBytes document) : Preimage)) ≤ 6 * n + 2 := by
  refine (Json.quotedSize_le _).trans ?_
  rw [Preimage.length_hexText]
  change 6 * Json.size document + 2 ≤ _
  omega

theorem size_contextDocument_le (workflowId : Identifier) :
    Json.size (emptyWorkflow workflowId).contextDocument ≤ 600 := by
  have hid := workflowId.quotedSize_le
  have hsizes : Json.quotedSize (hex (sha256 [] : Preimage)) = 2 ∧
      Json.quotedSize (hex emptyEvidence.headDigest) ≤ 30 := by decide +kernel
  have hkeys : Json.quotedSize "kind" = 6 ∧ Json.quotedSize "schema_version" = 16 ∧
      Json.quotedSize "workflow_id" = 13 ∧ Json.quotedSize "authority_digest" = 18 ∧
      Json.quotedSize "evidence_head" = 15 ∧ Json.quotedSize "artifacts" = 11 ∧
      Json.quotedSize "1.0" = 5 ∧ Json.quotedSize "evidence-braid-workflow-context" = 33 := by
    and_intros <;> exact Json.quotedSize_literal rfl
  rw [BundleFields.contextDocument, Json.size_dict
    (by simp only [Json.keys, List.map_cons, List.map_nil]; decide) (by simp)]
  simp only [emptyWorkflow, List.map_cons, List.map_nil, List.sum_cons, List.sum_nil, Json.size_str,
    Json.size_arr_nil, hkeys]
  clear hkeys
  omega

theorem valid_emptyWorkflow (workflowId : Identifier) : (emptyWorkflow workflowId).Valid where
  verified := (by decide +kernel : emptyEvidence.verify = true)
  artifacts_length := Nat.zero_le _
  artifacts_sorted := .nil
  records_length := Nat.zero_le _
  linked := trivial
  distinct := .nil
  size_le := by
    have hid := workflowId.quotedSize_le
    have hdigest : Json.quotedSize (hex (emptyWorkflow workflowId).contextDigest) ≤ 3602 :=
      quotedSize_hex_le (size_contextDocument_le workflowId)
    have hhead : (emptyWorkflow workflowId).headDigest = (emptyWorkflow workflowId).contextDigest := rfl
    have hauthority : Json.quotedSize (hex (emptyWorkflow workflowId).authorityDigest) = 2 :=
      (by decide +kernel : Json.quotedSize (hex (sha256 [] : Preimage)) = 2)
    have hevidence : Json.size (emptyWorkflow workflowId).evidence.toDict ≤ 500 :=
      (by decide +kernel : Json.size emptyEvidence.toDict ≤ 500)
    have hartifacts : Json.size (.arr ((emptyWorkflow workflowId).artifacts.map
        ArtifactReference.toDict)) = 2 := Json.size_arr_nil
    have hrecords : Json.size (.arr ((emptyWorkflow workflowId).records.map
        WorkflowReceipt.toDict)) = 2 := Json.size_arr_nil
    have hcount : Json.size (.int (emptyWorkflow workflowId).records.length) = 1 :=
      (by decide : Json.size (.int (0 : ℕ)) = 1)
    have hmax : maxWorkflowBytes = 67108864 := rfl
    change Json.size (emptyWorkflow workflowId).toDict ≤ _
    rw [BundleFields.size_toDict_hex, hhead, hauthority, hartifacts, hrecords, hcount]
    change _ + Json.quotedSize workflowId.value + _ + _ + _ + _ ≤ _
    omega

theorem head_determines_history_empty : ∃ v w : WorkflowBundle Preimage, v.headDigest ≠ w.headDigest := by
  have hinj := head_determines_history (D := Preimage) Preimage.sha256_injective
  refine ⟨⟨_, valid_emptyWorkflow ⟨"v", by decide⟩⟩, ⟨_, valid_emptyWorkflow ⟨"w", by decide⟩⟩, ?_⟩
  intro h
  have hid := (hinj.1 _ _ h).workflowId
  exact absurd (congrArg Identifier.value hid) (by decide)

end WorkflowBundle

end EvidenceBraid
