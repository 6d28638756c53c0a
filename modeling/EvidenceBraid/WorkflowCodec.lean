import EvidenceBraid.Workflow

/-!
# Receipts, chains and bundles as documents

Receipts survive their documents and are determined by them, chains are what `append` seals from
transitions (`sealTransitions_eq_ok`), and a bundle survives its document where its replay is
accepted (`WorkflowBundle.fromDict_toDict`), and its text (`WorkflowBundle.wire_round_trip`). A
prefix of a bundle's records is a bundle.
-/

namespace EvidenceBraid

open Hashing
open Json (WellKeyed)

variable {D : Type} [Hashing D]

namespace ArtifactReference

theorem wellKeyed_toDict (a : ArtifactReference D) : WellKeyed a.toDict := by
  refine Json.wellKeyed_dict ?_
  intro kv hkv
  simp only [items, List.mem_cons, List.not_mem_nil, or_false] at hkv
  rcases hkv with rfl | rfl | rfl | rfl | rfl | rfl <;> simp

end ArtifactReference

namespace WorkflowTransition

theorem wellKeyed_toDict (t : WorkflowTransition D) : WellKeyed t.toDict := by
  refine Json.wellKeyed_dict ?_
  intro kv hkv
  simp only [items, List.mem_cons, List.not_mem_nil, or_false] at hkv
  rcases hkv with rfl | rfl | rfl | rfl | rfl | rfl | rfl | rfl | rfl | rfl <;>
    simp [wellKeyed_takenJson]

theorem toDict_injective : Function.Injective (toDict : WorkflowTransition D → Json) := by
  intro s t h
  have hs := s.fromDict_toDict
  rw [h, fromDict_toDict] at hs
  exact (Except.ok.inj hs).symm

end WorkflowTransition

/-! ## Receipts -/

namespace WorkflowReceipt

omit [Hashing D] in
theorem ext_fields {r s : WorkflowReceipt D} (hsequence : r.sequence = s.sequence)
    (hcontext : r.contextDigest = s.contextDigest) (hprevious : r.previousDigest = s.previousDigest)
    (htransition : r.transition = s.transition) (hdigest : r.digest = s.digest) : r = s := by
  cases r; cases s; simp_all

theorem nodup_keys_items (r : WorkflowReceipt D) : (Json.keys r.items).Nodup := by
  simp only [items, contentItems, Json.keys, List.cons_append, List.nil_append, List.map_cons,
    List.map_nil]
  decide

theorem mem_keys_items (r : WorkflowReceipt D) (k : String) :
    k ∈ Json.keys r.items ↔ k ∈ fields := by
  refine List.Perm.mem_iff ?_
  simp only [items, contentItems, Json.keys, List.cons_append, List.nil_append, List.map_cons,
    List.map_nil]
  decide

theorem wellKeyed_toDict (r : WorkflowReceipt D) : WellKeyed r.toDict := by
  refine Json.wellKeyed_dict ?_
  intro kv hkv
  simp only [items, contentItems, List.cons_append, List.nil_append, List.mem_cons,
    List.not_mem_nil, or_false] at hkv
  rcases hkv with rfl | rfl | rfl | rfl | rfl | rfl <;>
    simp [WorkflowTransition.wellKeyed_toDict]

/-- **A receipt survives its document.** -/
@[simp] theorem fromDict_toDict (r : WorkflowReceipt D) : fromDict r.toDict = .ok r := by
  have hget := Json.get?_foldr_insertKey r.nodup_keys_items
  have hlt := r.sequence_lt
  simp only [fromDict, bind_eq_ok]
  refine ⟨_, exactly_dict r.nodup_keys_items r.mem_keys_items, (), ?_, r.transition, ?_,
    r.sequence, ?_, r.contextDigest, ?_, r.previousDigest, ?_, r.digest, ?_,
    dif_pos r.sequence_lt⟩
  all_goals rw [hget]
  · exact valid_of rfl
  · exact r.transition.fromDict_toDict
  · exact integerField_eq_ok.mpr ⟨rfl, Nat.zero_le _, by omega⟩
  · exact hashField_eq_ok.mpr rfl
  · exact hashField_eq_ok.mpr rfl
  · exact hashField_eq_ok.mpr rfl

/-- A document that is read as a receipt is the receipt's own. -/
theorem eq_toDict_of_fromDict {value : Json} {r : WorkflowReceipt D} (hvalue : WellKeyed value)
    (h : fromDict value = .ok r) : value = r.toDict := by
  simp only [fromDict, bind_eq_ok, exactly_eq_ok, integerField_eq_ok, hashField_eq_ok, valid_eq_ok,
    exists_unit] at h
  obtain ⟨data, ⟨rfl, hkeys⟩, hversion, transition, htransition, sequence,
    ⟨hsequence, -, hle⟩, h⟩ := h
  obtain ⟨contextDigest, hcontext, previousDigest, hprevious, digest, hdigest, h⟩ := h
  split_ifs at h with hlt
  rw [Except.ok.injEq] at h
  subst h
  obtain ⟨hsorted, hmembers⟩ := Json.wellKeyed_obj.mp hvalue
  obtain ⟨v, hv⟩ : ∃ v, Json.get? data "transition" = some v :=
    Option.isSome_iff_exists.mp (Json.mem_keys_iff.mp ((hkeys "transition").mpr (by decide)))
  have hkeyed : WellKeyed v := hmembers ("transition", v)
    ((Json.mem_iff_get? (Json.nodup_of_sorted hsorted)).mpr hv)
  rw [hv, Option.getD_some] at htransition
  have hdocument := WorkflowTransition.eq_toDict_of_fromDict hkeyed htransition
  refine Json.obj_eq_dict hsorted (nodup_keys_items _)
    (fun k hk => (mem_keys_items _ k).mpr ((hkeys k).mp hk)) ?_
  simp [items, contentItems, hversion, hsequence, hcontext, hprevious, hdigest, hv, hdocument]

end WorkflowReceipt

/-! ## Chains -/

/-- The digest after some receipts. -/
def digestAfter (previous : D) (rs : List (WorkflowReceipt D)) : D :=
  (rs.getLast?.map (·.digest)).getD previous

omit [Hashing D] in
@[simp] theorem digestAfter_nil (previous : D) : digestAfter previous [] = previous := rfl

omit [Hashing D] in
theorem digestAfter_cons (previous : D) (r : WorkflowReceipt D) (rs : List (WorkflowReceipt D)) :
    digestAfter previous (r :: rs) = digestAfter r.digest rs := by
  cases rs with
  | nil => rfl
  | cons s rs =>
    rw [digestAfter, digestAfter, List.getLast?_cons_cons]
    rcases hlast : (s :: rs).getLast? with _ | t
    · simp at hlast
    · rfl

/-- A chain splits where its receipts do. -/
theorem linkedReceipts_append {context : D} {ss : List (WorkflowReceipt D)} :
    ∀ {rs : List (WorkflowReceipt D)} {sequence : ℕ} {previous : D},
      LinkedReceipts context sequence previous (rs ++ ss) ↔
        LinkedReceipts context sequence previous rs ∧
          LinkedReceipts context (sequence + rs.length) (digestAfter previous rs) ss := by
  intro rs
  induction rs with
  | nil => intro sequence previous; simp [LinkedReceipts]
  | cons r rs ih =>
    intro sequence previous
    have hlength : sequence + (r :: rs).length = sequence + 1 + rs.length := by
      rw [List.length_cons]
      omega
    rw [List.cons_append, LinkedReceipts, ih, LinkedReceipts, digestAfter_cons, hlength]
    exact and_assoc.symm

/-- **What `append` seals** is the one chain of these transitions. -/
theorem sealTransitions_eq_ok {context : D} {rs : List (WorkflowReceipt D)} :
    ∀ {ts : List (WorkflowTransition D)} {sequence : ℕ} {previous : D},
      sealTransitions context sequence previous ts = .ok rs ↔
        rs.map (·.transition) = ts ∧ LinkedReceipts context sequence previous rs := by
  induction rs with
  | nil =>
    intro ts sequence previous
    cases ts with
    | nil => simp [sealTransitions, LinkedReceipts]
    | cons t ts =>
      simp only [List.map_nil, reduceCtorEq, false_and, iff_false]
      rw [sealTransitions]
      split_ifs
      · simp
      · simp
  | cons r rs ih =>
    intro ts sequence previous
    cases ts with
    | nil => simp [sealTransitions]
    | cons t ts =>
      rw [sealTransitions, List.map_cons, List.cons.injEq, LinkedReceipts]
      have hlt := r.sequence_lt
      constructor
      · intro h
        split_ifs at h with hsequence
        simp only [bind_eq_ok, Except.ok.injEq, List.cons.injEq] at h
        obtain ⟨rest, hrest, rfl, rfl⟩ := h
        obtain ⟨hts, hlinked⟩ := ih.mp hrest
        exact ⟨⟨rfl, hts⟩, ⟨rfl, rfl, rfl, rfl⟩, hlinked⟩
      · rintro ⟨⟨rfl, hts⟩, ⟨rfl, rfl, rfl, hdigest⟩, hlinked⟩
        rw [dif_pos hlt]
        rw [hdigest] at hlinked
        simp only [bind_eq_ok, Except.ok.injEq, List.cons.injEq]
        exact ⟨rs, ih.mpr ⟨hts, hlinked⟩, WorkflowReceipt.ext_fields rfl rfl rfl rfl hdigest.symm,
          rfl⟩

/-- Receipts of a chain are at their positions. -/
theorem sequence_of_linkedReceipts {context : D} {rs : List (WorkflowReceipt D)} :
    ∀ {sequence : ℕ} {previous : D}, LinkedReceipts context sequence previous rs →
      ∀ i (hi : i < rs.length), rs[i].sequence = sequence + i := by
  induction rs with
  | nil => intro _ _ _ i hi; simp at hi
  | cons r rs ih =>
    intro sequence previous h i hi
    cases i with
    | zero => exact h.1.1
    | succ i =>
      rw [List.getElem_cons_succ, ih h.2 i (by simpa using hi)]
      omega

/-! ## Sizes -/

theorem WorkflowAction.quotedSize_le (a : WorkflowAction) : Json.quotedSize a.value ≤ 15 := by
  cases a <;> decide

theorem WorkflowTransition.size_toDict_le [WideHex D] (t : WorkflowTransition D) :
    Json.size t.toDict ≤ 110000 := by
  rw [toDict, Json.size_dict t.nodup_keys_items (by simp [items])]
  have hkeys : Json.quotedSize "transition_id" = 15 ∧ Json.quotedSize "action" = 8 ∧
      Json.quotedSize "actor_id" = 10 ∧ Json.quotedSize "scope" = 7 ∧
      Json.quotedSize "claim_id" = 10 ∧ Json.quotedSize "expected_revision" = 19 ∧
      Json.quotedSize "statement" = 11 ∧ Json.quotedSize "reference_id" = 14 ∧
      Json.quotedSize "reference_digest" = 18 ∧ Json.quotedSize "reason" = 8 := by
    and_intros <;> exact Json.quotedSize_literal rfl
  have hid := t.transitionId.quotedSize_le
  have haction := t.action.quotedSize_le
  have hactor := t.actorId.quotedSize_le
  have hscope := t.scope.quotedSize_le
  have hclaim := t.claimId.quotedSize_le
  have hrevision : Json.size (.int t.expectedRevision) ≤ 5 :=
    Json.size_nat_le (by decide) (lt_of_le_of_lt t.revision_le (by decide))
  have hstatement := size_takenJson_le Description.quotedSize_le (by decide) t.statement
  have hreference := size_takenJson_le Identifier.quotedSize_le (by decide) t.referenceId
  have hdigest := size_takenJson_le (fun d : D => (quotedSize_hex d).le) (by decide)
    t.referenceDigest
  have hreason := size_takenJson_le Description.quotedSize_le (by decide) t.reason
  simp only [items, List.map_cons, List.map_nil, List.sum_cons, List.sum_nil, Json.size_str, hkeys]
  clear hkeys
  omega

/-- A receipt takes fewer bytes than the store's default limit. -/
theorem WorkflowReceipt.size_toDict_le [WideHex D] (r : WorkflowReceipt D) :
    Json.size r.toDict ≤ 120000 := by
  rw [toDict, Json.size_dict r.nodup_keys_items (by simp [items, contentItems])]
  have hkeys : Json.quotedSize "schema_version" = 16 ∧ Json.quotedSize "sequence" = 10 ∧
      Json.quotedSize "context_digest" = 16 ∧ Json.quotedSize "previous_digest" = 17 ∧
      Json.quotedSize "transition" = 12 ∧ Json.quotedSize "digest" = 8 ∧
      Json.quotedSize "1.0" = 5 := by
    and_intros <;> exact Json.quotedSize_literal rfl
  have hsequence : Json.size (.int r.sequence) ≤ 4 :=
    Json.size_nat_le (by decide) (lt_of_lt_of_le r.sequence_lt (by decide))
  have htransition := r.transition.size_toDict_le
  simp only [items, contentItems, List.cons_append, List.nil_append, List.map_cons, List.map_nil,
    List.sum_cons, List.sum_nil, Json.size_str, quotedSize_hex, hkeys]
  clear hkeys
  omega

theorem ArtifactReference.size_toDict_le [WideHex D] (a : ArtifactReference D) :
    Json.size a.toDict ≤ 4000 := by
  rw [toDict, Json.size_dict a.nodup_keys_items (by simp [items])]
  have hkeys : Json.quotedSize "artifact_id" = 13 ∧ Json.quotedSize "scope" = 7 ∧
      Json.quotedSize "claim_id" = 10 ∧ Json.quotedSize "sha256" = 8 ∧
      Json.quotedSize "size_bytes" = 12 ∧ Json.quotedSize "media_type" = 12 := by
    and_intros <;> exact Json.quotedSize_literal rfl
  have hid := a.artifactId.quotedSize_le
  have hscope := a.scope.quotedSize_le
  have hclaim := a.claimId.quotedSize_le
  have hsize : Json.size (.int a.sizeBytes) ≤ 8 :=
    Json.size_nat_le (by decide) (lt_of_le_of_lt a.size_le (by decide))
  have hmedia : Json.quotedSize a.mediaType.value ≤ 770 :=
    (Json.quotedSize_le _).trans (by have := a.mediaType.length_le; omega)
  simp only [items, List.map_cons, List.map_nil, List.sum_cons, List.sum_nil, Json.size_str,
    quotedSize_hex, hkeys]
  clear hkeys
  omega

/-! ## Bundles -/

variable [DecidableEq D]

namespace BundleFields

omit [DecidableEq D] in
theorem headDigest_eq (b : BundleFields D) : b.headDigest = digestAfter b.contextDigest b.records :=
  rfl

theorem nodup_keys_items (b : BundleFields D) : (Json.keys b.items).Nodup := by
  simp only [items, Json.keys, List.map_cons, List.map_nil]
  decide

theorem mem_keys_items (b : BundleFields D) (k : String) : k ∈ Json.keys b.items ↔ k ∈ fields := by
  refine List.Perm.mem_iff ?_
  simp only [items, Json.keys, List.map_cons, List.map_nil]
  decide

theorem wellKeyed_toDict (b : BundleFields D) : WellKeyed b.toDict := by
  refine Json.wellKeyed_dict ?_
  intro kv hkv
  simp only [items, List.mem_cons, List.not_mem_nil, or_false] at hkv
  rcases hkv with rfl | rfl | rfl | rfl | rfl | rfl | rfl | rfl | rfl | rfl
  all_goals simp [EvidenceLedger.wellKeyed_toDict, ArtifactReference.wellKeyed_toDict,
    WorkflowReceipt.wellKeyed_toDict]

omit [Hashing D] [DecidableEq D] in
theorem sortArtifacts_of_sorted {artifacts : List (ArtifactReference D)}
    (h : (artifacts.map (·.artifactId)).Pairwise (· < ·)) : sortArtifacts artifacts = artifacts := by
  refine List.Pairwise.insertionSort_eq ?_
  exact (List.pairwise_map.mp h).imp fun hlt => hlt.le

end BundleFields

namespace WorkflowBundle

/-- **The constructor** sorts the artifacts and establishes `Valid`. -/
theorem make_eq_ok {b : BundleFields D} {w : WorkflowBundle D} : make b = .ok w ↔
    w.toBundleFields = { b with artifacts := BundleFields.sortArtifacts b.artifacts } := by
  simp only [make, bind_eq_ok, valid_eq_ok, exists_unit]
  constructor
  · rintro ⟨-, -, -, -, -, h⟩
    split_ifs at h
    rw [← Except.ok.inj h]
  · intro h
    have hok := w.ok
    rw [h] at hok
    have hperm : (BundleFields.sortArtifacts b.artifacts).Perm b.artifacts :=
      List.perm_insertionSort _ _
    refine ⟨hok.verified, ?_, ?_, hok.records_length, ⟨hok.linked, hok.distinct⟩, ?_⟩
    · rw [← hperm.length_eq]
      exact hok.artifacts_length
    · have hnodup : ((BundleFields.sortArtifacts b.artifacts).map (·.artifactId)).Nodup :=
        hok.artifacts_sorted.imp fun hlt => hlt.ne
      exact (hperm.map _).nodup_iff.mp hnodup
    · rw [dif_pos hok]
      exact congrArg _ (ext_fields h.symm)

/-- The constructor on sorted artifacts. -/
theorem make_of_valid {b : BundleFields D} (h : b.Valid) : make b = .ok ⟨b, h⟩ := by
  refine make_eq_ok.mpr ?_
  rw [BundleFields.sortArtifacts_of_sorted h.artifacts_sorted]

/-- A bundle's records are those that its transitions seal. -/
theorem seal_transitions (w : WorkflowBundle D) :
    sealTransitions w.contextDigest 0 w.contextDigest w.transitions = .ok w.records :=
  sealTransitions_eq_ok.mpr ⟨rfl, w.ok.linked⟩

end WorkflowBundle

/-! ## Prefixes -/

namespace BundleFields

/-- The bundle's fields with fewer records. -/
def prefixOf (b : BundleFields D) (count : ℕ) : BundleFields D :=
  { b with records := b.records.take count }

omit [DecidableEq D] in
theorem headDigest_prefixOf (b : BundleFields D) (count : ℕ) :
    (b.prefixOf count).headDigest = digestAfter b.contextDigest (b.records.take count) := rfl

/-- A bundle's size is that of its context, its digests and its records. -/
theorem size_toDict_hex (b : BundleFields D) : Json.size b.toDict =
    (Json.size b.evidence.toDict + Json.size (.arr (b.artifacts.map ArtifactReference.toDict)) +
      Json.quotedSize b.workflowId.value + 184) +
        (Json.quotedSize (hex b.authorityDigest) + Json.quotedSize (hex b.contextDigest) +
          Json.quotedSize (hex b.headDigest)) + Json.size (.int b.records.length) +
        Json.size (.arr (b.records.map WorkflowReceipt.toDict)) := by
  rw [toDict, Json.size_dict b.nodup_keys_items (by simp [items])]
  have hkeys : Json.quotedSize "kind" = 6 ∧ Json.quotedSize "schema_version" = 16 ∧
      Json.quotedSize "workflow_id" = 13 ∧ Json.quotedSize "authority_digest" = 18 ∧
      Json.quotedSize "evidence" = 10 ∧ Json.quotedSize "artifacts" = 11 ∧
      Json.quotedSize "context_digest" = 16 ∧ Json.quotedSize "head_digest" = 13 ∧
      Json.quotedSize "record_count" = 14 ∧ Json.quotedSize "records" = 9 ∧
      Json.quotedSize "1.0" = 5 ∧ Json.quotedSize "evidence-braid-workflow-bundle" = 32 := by
    and_intros <;> exact Json.quotedSize_literal rfl
  simp only [items, List.map_cons, List.map_nil, List.sum_cons, List.sum_nil, Json.size_str, hkeys]
  clear hkeys
  omega

theorem size_toDict [WideHex D] (b : BundleFields D) : Json.size b.toDict =
    (Json.size b.evidence.toDict + Json.size (.arr (b.artifacts.map ArtifactReference.toDict)) +
      Json.quotedSize b.workflowId.value + 382) + Json.size (.int b.records.length) +
        Json.size (.arr (b.records.map WorkflowReceipt.toDict)) := by
  rw [size_toDict_hex, quotedSize_hex, quotedSize_hex, quotedSize_hex]

/-- **A prefix takes no more bytes.** -/
theorem size_prefixOf_le [WideHex D] (b : BundleFields D) (count : ℕ) :
    Json.size (b.prefixOf count).toDict ≤ Json.size b.toDict := by
  have hcount : Json.size (.int (b.records.take count).length) ≤ Json.size (.int b.records.length) :=
    Json.size_nat_mono (List.length_take_le' _ _)
  have hrecords := Json.size_arr_le_append ((b.records.take count).map WorkflowReceipt.toDict)
    ((b.records.drop count).map WorkflowReceipt.toDict)
  rw [← List.map_append, List.take_append_drop] at hrecords
  rw [size_toDict, size_toDict]
  simp only [prefixOf]
  omega

/-- A prefix of a valid bundle's records is valid. -/
theorem Valid.prefixOf [WideHex D] {b : BundleFields D} (h : b.Valid) (count : ℕ) :
    (b.prefixOf count).Valid where
  verified := h.verified
  artifacts_length := h.artifacts_length
  artifacts_sorted := h.artifacts_sorted
  records_length := (List.length_take_le' _ _).trans h.records_length
  linked := by
    have hlinked := h.linked
    rw [← List.take_append_drop count b.records, linkedReceipts_append] at hlinked
    exact hlinked.1
  distinct := h.distinct.sublist ((List.take_sublist _ _).map _)
  size_le := (b.size_prefixOf_le count).trans h.size_le

end BundleFields

/-! ## Bundles as documents -/

namespace WorkflowBundle

/-- **A bundle survives its document**, where its replay is accepted. -/
theorem fromDict_toDict (w : WorkflowBundle D) (authority : AuthorityPolicy)
    {expectedHead expectedEvidenceHead : Option D} {state : WorkflowState D}
    (h : replayWorkflow w authority expectedHead = .ok state)
    (hevidence : ∀ head ∈ expectedEvidenceHead, w.evidence.headDigest = head) :
    fromDict w.toDict authority expectedHead expectedEvidenceHead = .ok w := by
  have hget := Json.get?_foldr_insertKey w.toBundleFields.nodup_keys_items
  simp only [fromDict, bind_eq_ok]
  refine ⟨_, exactly_dict w.toBundleFields.nodup_keys_items w.toBundleFields.mem_keys_items, (), ?_,
    w.records.map WorkflowReceipt.toDict, ?_, (), ?_, w.evidence, ?_,
    w.artifacts.map ArtifactReference.toDict, ?_, w.artifacts,
    decodeItems_map fun a _ => a.fromDict_toDict, w.records,
    decodeItems_map fun r _ => r.fromDict_toDict, w.workflowId, ?_, w.authorityDigest, ?_, w,
    make_of_valid w.ok, (), valid_of rfl, state, h, rfl⟩
  all_goals simp only [hget]
  · exact valid_of ⟨rfl, rfl⟩
  · exact arrayField_eq_ok.mpr ⟨rfl, by rw [List.length_map]; exact w.ok.records_length⟩
  · exact valid_of (by rw [List.length_map]; rfl)
  · exact EvidenceLedger.fromDict_toDict w.ok.verified hevidence
  · exact arrayField_eq_ok.mpr ⟨rfl, by rw [List.length_map]; exact w.ok.artifacts_length⟩
  · exact identifierField_value _ _
  · exact hashField_eq_ok.mpr rfl

/-- **A document that is read as a bundle is the bundle's own**, and its replay is accepted. -/
theorem of_fromDict {value : Json} {authority : AuthorityPolicy}
    {expectedHead expectedEvidenceHead : Option D} {w : WorkflowBundle D} (hvalue : WellKeyed value)
    (h : fromDict value authority expectedHead expectedEvidenceHead = .ok w) :
    value = w.toDict ∧ (∀ head ∈ expectedEvidenceHead, w.evidence.headDigest = head) ∧
      ∃ state, replayWorkflow w authority expectedHead = .ok state := by
  simp only [fromDict, bind_eq_ok, exactly_eq_ok, valid_eq_ok, exists_unit, make_eq_ok,
    Except.ok.injEq] at h
  obtain ⟨data, ⟨rfl, -⟩, -, records, -, -, evidence, hevidence, h⟩ := h
  obtain ⟨documents, -, artifacts, -, receipts, -, workflowId, -, h⟩ := h
  obtain ⟨authorityDigest, -, w', hw, hcanonical, state, hstate, rfl⟩ := h
  have hdocument := canonicalJson_inj hvalue w'.wellKeyed_toDict hcanonical
  refine ⟨hdocument, ?_, state, hstate⟩
  obtain ⟨hsorted, hmembers⟩ := Json.wellKeyed_obj.mp hvalue
  have hkeyed : WellKeyed ((Json.get? data "evidence").getD .null) := by
    rcases hget : Json.get? data "evidence" with _ | v
    · trivial
    · exact hmembers ("evidence", v) ((Json.mem_iff_get? (Json.nodup_of_sorted hsorted)).mpr hget)
  obtain ⟨-, -, hhead⟩ := EvidenceLedger.eq_toDict_of_fromDict hkeyed hevidence
  rw [hw]
  exact hhead

/-- A bundle's text as a reader takes it: the strict loader, then `from_dict`. -/
def ofText (text : List Char) (authority : AuthorityPolicy)
    (expectedHead expectedEvidenceHead : Option D) : Result (WorkflowBundle D) := do
  let value ← LedgerSelection.strictLoads text
  fromDict value authority expectedHead expectedEvidenceHead

/-- **Bundle wires round-trip.** An authorized bundle is read back from its canonical text, indented
or compact; a document that is accepted is the canonical one of the bundle returned, so a bundle has
one accepted document. -/
theorem wire_round_trip (authority : AuthorityPolicy) :
    (∀ (w : WorkflowBundle D) (expectedHead : Option D) (indented : Bool),
      (∃ state, replayWorkflow w authority expectedHead = .ok state) →
        ∃ w', ofText (canonicalJson w.toDict indented) authority expectedHead none = .ok w' ∧
          w' = w ∧ w'.headDigest = w.headDigest) ∧
    (∀ (text : List Char) (value : Json) (expectedHead expectedEvidenceHead : Option D)
      (w : WorkflowBundle D), LedgerSelection.strictLoads text = .ok value →
        fromDict value authority expectedHead expectedEvidenceHead = .ok w →
          canonicalJson value false = canonicalJson w.toDict false ∧ value = w.toDict) ∧
    ∀ (text text' : List Char) (value value' : Json)
      (expectedHead expectedEvidenceHead expectedHead' expectedEvidenceHead' : Option D)
      (w : WorkflowBundle D), LedgerSelection.strictLoads text = .ok value →
        LedgerSelection.strictLoads text' = .ok value' →
        fromDict value authority expectedHead expectedEvidenceHead = .ok w →
        fromDict value' authority expectedHead' expectedEvidenceHead' = .ok w → value = value' := by
  have haccepted : ∀ {text : List Char} {value : Json} {head evidenceHead : Option D}
      {w : WorkflowBundle D}, LedgerSelection.strictLoads text = .ok value →
        fromDict value authority head evidenceHead = .ok w → value = w.toDict := by
    intro text value head evidenceHead w hload h
    exact (of_fromDict (Json.wellKeyed_of_loads (orError_eq_ok.mp hload)) h).1
  refine ⟨fun w expectedHead indented h => ?_, fun text value head evidenceHead w hload h => ?_,
    fun text text' value value' _ _ _ _ w hload hload' h h' => ?_⟩
  · obtain ⟨state, hstate⟩ := h
    refine ⟨w, ?_, rfl, rfl⟩
    simp only [ofText, bind_eq_ok]
    exact ⟨_, strictLoads_canonicalJson w.wellKeyed_toDict indented,
      fromDict_toDict w authority hstate (by simp)⟩
  · have hvalue := haccepted hload h
    exact ⟨congrArg (canonicalJson · false) hvalue, hvalue⟩
  · rw [haccepted hload h, haccepted hload' h']

end WorkflowBundle

end EvidenceBraid
